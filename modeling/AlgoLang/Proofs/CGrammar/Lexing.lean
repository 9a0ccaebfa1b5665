/-
# Cutting a text into lexemes leaves no choice

What kind of lexeme a text begins with shows in its first characters, and whether a lexeme is the longest in
the character behind it.  So a text is read as one list of terminals at most.
-/
import AlgoLang.Proofs.CGrammar
import AlgoLang.Text.Blank

namespace AlgoLang.CGrammar

open Text Lexeme Binary64 List Char

variable {c d quote : Char} {l l' : Lexeme} {rest w rest' g more b body body' : List Char} {p : String}
variable {cs : List Char} {ts : List Terminal} {t : Terminal}

/-! ## First characters -/

lemma IsNumber.front (h : IsNumber w) :
    ∃ c cs, w = c :: cs ∧ (c.isDigit ∨ c = '.' ∧ ∃ d ds, cs = d :: ds ∧ d.isDigit) := by
  induction h with
  | digit h => exact ⟨_, [], rfl, .inl h⟩
  | point h => exact ⟨_, _, rfl, .inr ⟨rfl, _, [], rfl, h⟩⟩
  | more _ _ ih =>
    obtain ⟨c, cs, rfl, hfront | ⟨hdot, d, ds, rfl, hd⟩⟩ := ih
    · exact ⟨c, _, rfl, .inl hfront⟩
    · exact ⟨c, _, rfl, .inr ⟨hdot, d, _, rfl, hd⟩⟩
  | power _ _ _ ih =>
    obtain ⟨c, cs, rfl, hfront | ⟨hdot, d, ds, rfl, hd⟩⟩ := ih
    · exact ⟨c, _, rfl, .inl hfront⟩
    · exact ⟨c, _, rfl, .inr ⟨hdot, d, _, rfl, hd⟩⟩

/-- Where a number goes on, it does so with one of these. -/
def isNumberChar (c : Char) : Bool :=
  isWordChar c || c == '.' || c == '+' || c == '-'

lemma isNumberChar_of_isDigit (h : c.isDigit) : isNumberChar c := by
  simp [isNumberChar, isWordChar, isAlphanum, h]

lemma IsNumber.all (h : IsNumber w) : w.all isNumberChar := by
  induction h with
  | digit h => simp [isNumberChar_of_isDigit h]
  | point h => simp [isNumberChar_of_isDigit h, show isNumberChar '.' from rfl]
  | more _ hc ih => rcases hc with hc | rfl <;> simp_all [isNumberChar]
  | power _ he hc ih =>
    simp only [mem_cons, not_mem_nil, or_false] at he hc
    rcases he with rfl | rfl | rfl | rfl <;> rcases hc with rfl | rfl <;>
      simp [ih, show isNumberChar '+' from rfl, show isNumberChar '-' from rfl] <;> rfl

/-- A character that a punctuator may begin with. -/
def isSignChar (c : Char) : Bool :=
  !isWordChar c && !isBlank c && c != '\'' && c != '"'

lemma punctuator_front (hp : p ∈ punctuators) : ∃ c cs, p.toList = c :: cs ∧ isSignChar c := by
  have hall : ∀ p ∈ punctuators, p.toList.head?.any isSignChar := by decide
  obtain ⟨c, hc, hsign⟩ := (Option.any_eq_true ..).mp (hall p hp)
  obtain ⟨cs, hcs⟩ := head?_eq_some_iff.mp hc
  exact ⟨c, cs, hcs, hsign⟩

lemma punctuator_dot {ds : List Char} (hp : p ∈ punctuators) (h : p.toList = '.' :: d :: ds) : d.isDigit = false := by
  have hall : ∀ p ∈ punctuators, p.toList.head? = some '.' → p.toList.tail.head?.all (!·.isDigit) := by decide
  simpa [h] using hall p hp (by rw [h]; rfl)

/-! ## One lexeme for the same characters -/

def Lexeme.kind : Lexeme → Nat
  | word _ => 0
  | number _ => 1
  | char _ => 2
  | string _ => 3
  | wide _ => 4
  | punctuator _ => 5
  | other _ => 6

/-- The kind that the characters of a lexeme show. -/
def kindOf (c : Char) (cs : List Char) : Nat :=
  if c = '\'' ∧ cs ≠ [] then 2
  else if c = '"' ∧ cs ≠ [] then 3
  else if c.isDigit then 1
  else if isWordChar c then if c = 'L' ∧ (cs.head? = some '\'' ∨ cs.head? = some '"') then 4 else 0
  else if c = '.' ∧ cs.head?.any isDigit then 1
  else if ∃ p ∈ punctuators, p.toList = c :: cs then 5
  else 6

lemma isSignChar_iff : isSignChar c ↔ isWordChar c = false ∧ isBlank c = false ∧ c ≠ '\'' ∧ c ≠ '"' := by
  simp [isSignChar, and_assoc]

lemma isDigit_of_not_isWordChar (h : isWordChar c = false) : c.isDigit = false := by
  simp_all [isWordChar, isAlphanum]

lemma isWordChar_of_isDigit (h : c.isDigit) : isWordChar c := by
  simp [isWordChar, isAlphanum, h]

lemma kindOf_digit (hc : c.isDigit) (cs : List Char) : kindOf c cs = 1 := by
  have hword := isWordChar_of_isDigit hc
  simp [kindOf, ne_of_class hword (d := '\'') rfl, ne_of_class hword (d := '"') rfl, hc]

lemma kindOf_word (hc : isWordChar c) (hdigit : c.isDigit = false)
    (hnext : ∀ d ∈ cs.head?, d ≠ '\'' ∧ d ≠ '"') : kindOf c cs = 0 := by
  have hquote : ¬ (cs.head? = some '\'' ∨ cs.head? = some '"') := by
    rintro (hq | hq)
    · exact (hnext _ hq).1 rfl
    · exact (hnext _ hq).2 rfl
  simp [kindOf, ne_of_class hc (d := '\'') rfl, ne_of_class hc (d := '"') rfl, hdigit, hc, hquote]

lemma IsLexeme.kind_eq (h : IsLexeme w l) : ∃ c cs, w = c :: cs ∧ l.kind = kindOf c cs := by
  cases h with
  | @word c cs hc hdigit hcs =>
    refine ⟨c, cs, rfl, (kindOf_word hc hdigit fun d hd => ?_).symm⟩
    have hword := all_eq_true.mp hcs d (mem_of_mem_head? hd)
    exact ⟨ne_of_class hword rfl, ne_of_class hword rfl⟩
  | number h =>
    obtain ⟨c, cs, rfl, hc | ⟨rfl, d, ds, rfl, hd⟩⟩ := h.front
    · exact ⟨c, cs, rfl, (kindOf_digit hc cs).symm⟩
    · exact ⟨'.', d :: ds, rfl, by
        simp [kindOf, hd, kind, show isWordChar '.' = false from rfl, show isDigit '.' = false from rfl]⟩
  | char hb hne => exact ⟨_, _, rfl, by simp [kindOf, kind]⟩
  | string hb => exact ⟨_, _, rfl, by simp [kindOf, kind]⟩
  | wideChar hb hne => exact ⟨_, _, rfl, by simp [kindOf, kind, isWordChar]⟩
  | wideString hb => exact ⟨_, _, rfl, by simp [kindOf, kind, isWordChar]⟩
  | @punctuator p hp =>
    obtain ⟨c, cs, hw, hc⟩ := punctuator_front hp
    obtain ⟨hword, -, hquote, hquote'⟩ := isSignChar_iff.mp hc
    have hdot : ¬ (c = '.' ∧ cs.head?.any isDigit) := by
      rintro ⟨rfl, hd⟩
      obtain ⟨d, hd, hdigit⟩ := (Option.any_eq_true ..).mp hd
      obtain ⟨ds, rfl⟩ := head?_eq_some_iff.mp hd
      simp [punctuator_dot hp hw] at hdigit
    have hex : ∃ q ∈ punctuators, q.toList = c :: cs := ⟨p, hp, hw⟩
    refine ⟨c, cs, hw, ?_⟩
    rw [kindOf, if_neg (by simp [hquote]), if_neg (by simp [hquote']),
      if_neg (by simp [isDigit_of_not_isWordChar hword]), if_neg (by simp [hword]), if_neg hdot, if_pos hex, kind]
  | @other c hblank hword hp =>
    have hex : ¬ ∃ q ∈ punctuators, q.toList = [c] := fun ⟨q, hq, hw⟩ => hp q hq hw
    refine ⟨c, [], rfl, ?_⟩
    rw [kindOf, if_neg (by simp), if_neg (by simp),
      if_neg (by simp [isDigit_of_not_isWordChar hword]), if_neg (by simp [hword]), if_neg (by simp), if_neg hex, kind]

def Lexeme.text : Lexeme → List Char
  | word w | number w => w
  | char b => '\'' :: (b ++ ['\''])
  | string b => '"' :: (b ++ ['"'])
  | wide w => 'L' :: w
  | punctuator p => p.toList
  | other c => [c]

lemma IsLexeme.text_eq (h : IsLexeme w l) : l.text = w := by
  cases h <;> rfl

lemma Lexeme.ext_kind (hkind : l.kind = l'.kind) (htext : l.text = l'.text) : l = l' := by
  cases l <;> cases l' <;> simp_all [kind, text, String.toList_inj]

lemma IsLexeme.unique (h : IsLexeme w l) (h' : IsLexeme w l') : l = l' := by
  refine ext_kind ?_ (h.text_eq.trans h'.text_eq.symm)
  obtain ⟨c, cs, rfl, hkind⟩ := h.kind_eq
  obtain ⟨c', cs', hw, hkind'⟩ := h'.kind_eq
  cases hw
  rw [hkind, hkind']

lemma Means.unique {t' : Terminal} (h : Means l t) (h' : Means l t') : t = t' := by
  cases h with
  | word =>
    cases h'
    rfl
  | integer hw =>
    cases h' with
    | integer hw' =>
      rw [hw] at hw'
      cases hw'
      rfl
    | floating hnone => simp [hw] at hnone
  | floating hnone hw hq =>
    cases h' with
    | integer hw' => simp [hnone] at hw'
    | floating _ hw' hq' =>
      rw [hw] at hw'
      cases hw'
      rw [hq.unique hq']
  | char hb =>
    cases h' with
    | char hb' =>
      rw [hb] at hb'
      cases hb'
      rfl
  | string hb =>
    cases h' with
    | string hb' =>
      rw [hb] at hb'
      cases hb'
      rfl
  | sign =>
    cases h'
    rfl

/-! ## One list of terminals for a text -/

lemma isBlank_of_isWordChar (h : isWordChar c) : isBlank c = false := by
  by_contra hblank
  simp only [isBlank, Bool.or_eq_true, beq_iff_eq, Bool.not_eq_false] at hblank
  rcases hblank with ((((rfl | rfl) | rfl) | rfl) | rfl) | rfl <;> exact absurd h (by decide)

lemma IsLexeme.front (h : IsLexeme w l) : ∃ c cs, w = c :: cs ∧ isBlank c = false := by
  cases h with
  | word hc => exact ⟨_, _, rfl, isBlank_of_isWordChar hc⟩
  | number h =>
    obtain ⟨c, cs, rfl, hc | ⟨rfl, -⟩⟩ := h.front
    · exact ⟨c, cs, rfl, isBlank_of_isWordChar (isWordChar_of_isDigit hc)⟩
    · exact ⟨_, cs, rfl, rfl⟩
  | punctuator hp =>
    obtain ⟨c, cs, hw, hc⟩ := punctuator_front hp
    exact ⟨c, cs, hw, (isSignChar_iff.mp hc).2.1⟩
  | other hblank => exact ⟨_, _, rfl, hblank⟩
  | _ => exact ⟨_, _, rfl, rfl⟩

lemma IsGap.front (h : IsGap g rest) : (∃ c, g = [c] ∧ isBlank c) ∨ opensComment (g ++ rest) := by
  cases h with
  | blank hc => exact .inl ⟨_, rfl, hc⟩
  | line => exact .inr (.inl ⟨_, rfl⟩)
  | block => exact .inr (.inr ⟨_, rfl⟩)

lemma IsGap.not_isLexeme (hg : IsGap g rest)
    (hw : IsLexeme w l) (hcomment : ¬ opensComment (w ++ rest')) (heq : g ++ rest = w ++ rest') : False := by
  rcases hg.front with ⟨c, rfl, hc⟩ | hopens
  · obtain ⟨d, ds, rfl, hd⟩ := hw.front
    obtain ⟨rfl, -⟩ := cons.inj heq
    simp [hc] at hd
  · exact hcomment (heq ▸ hopens)

lemma line_unique (hbody : '\n' ∉ body) (hbody' : '\n' ∉ body')
    (hrest : ∀ c ∈ rest.head?, c = '\n') (hrest' : ∀ c ∈ rest'.head?, c = '\n')
    (heq : body ++ rest = body' ++ rest') : body = body' := by
  have htake : ∀ {b r : List Char}, '\n' ∉ b → (∀ c ∈ r.head?, c = '\n') → (b ++ r).takeWhile (· != '\n') = b := by
    intro b r hb hr
    refine takeWhile_append_stop (all_eq_true.mpr fun c hc => ?_) fun c hc => by simp [hr c hc]
    exact bne_iff_ne.mpr fun h => hb (h ▸ hc)
  rw [← htake hbody hrest, heq, htake hbody' hrest']

lemma block_le (hbody' : ¬ ['*', '/'] <:+: body' ++ ['*'])
    (heq : body ++ '*' :: '/' :: rest = body' ++ '*' :: '/' :: rest') : body'.length ≤ body.length := by
  by_contra hlt
  have hshort : body ++ ['*', '/'] <+: body ++ '*' :: '/' :: rest := ⟨rest, by simp⟩
  have hlong : body' ++ ['*'] <+: body ++ '*' :: '/' :: rest := ⟨'/' :: rest', by simp [heq]⟩
  have hinside := (prefix_of_prefix_length_le hshort hlong (by simp; omega)).isInfix
  exact hbody' (IsInfix.trans ⟨body, [], by simp⟩ hinside)

lemma IsGap.unique {g' : List Char} (h : IsGap g rest) (h' : IsGap g' rest')
    (heq : g ++ rest = g' ++ rest') : g = g' := by
  cases h with
  | blank hc =>
    cases h' with
    | blank => exact congrArg (fun c => [c]) (cons.inj heq).1
    | line => cases heq; exact absurd hc (by decide)
    | block => cases heq; exact absurd hc (by decide)
  | line hbody hrest =>
    cases h' with
    | blank hc => cases heq; exact absurd hc (by decide)
    | line hbody' hrest' => rw [line_unique hbody hbody' hrest hrest' (by simpa using heq)]
    | block => simp at heq
  | block hbody =>
    cases h' with
    | blank hc => cases heq; exact absurd hc (by decide)
    | line => simp at heq
    | block hbody' =>
      simp only [cons_append, append_assoc, cons.injEq, true_and, nil_append] at heq
      have hle := block_le hbody heq.symm
      have hle' := block_le hbody' heq
      rw [(append_inj heq (by omega)).1]

lemma Lexes.unique {ts' : List Terminal} (h : Lexes cs ts) (h' : Lexes cs ts') : ts = ts' := by
  induction h generalizing ts' with
  | stop =>
    generalize hcs : [] = cs at h'
    cases h' with
    | stop => rfl
    | gap hg => cases hg <;> cases hcs
    | lexeme hw =>
      obtain ⟨c, cs, rfl, -⟩ := hw.front
      cases hcs
  | @gap g rest ts hg _ ih =>
    generalize hcs : g ++ rest = cs at h'
    cases h' with
    | stop => cases hg <;> cases hcs
    | gap hg' h' =>
      obtain rfl := hg.unique hg' hcs
      obtain rfl := append_cancel_left hcs
      exact ih h'
    | lexeme hw hcomment => exact (hg.not_isLexeme hw hcomment hcs).elim
  | @lexeme w rest l t ts hw hcomment hmax hmeans _ ih =>
    generalize hcs : w ++ rest = cs at h'
    cases h' with
    | stop =>
      obtain ⟨c, cs, rfl, -⟩ := hw.front
      cases hcs
    | gap hg => exact (hg.not_isLexeme hw hcomment hcs.symm).elim
    | lexeme hw' hcomment' hmax' hmeans' h' =>
      have hle := hmax _ _ hw' ⟨_, hcs.symm⟩
      have hle' := hmax' _ _ hw ⟨_, hcs⟩
      obtain ⟨rfl, rfl⟩ := append_inj hcs (by omega)
      obtain rfl := hw.unique hw'
      rw [hmeans.unique hmeans', ih h']

/-! ## The longest lexeme -/

/-- A lexeme is the longest one if no lexeme goes on with the character behind it. -/
lemma Lexes.cons (hw : IsLexeme w l) (hmeans : Means l t) (hcomment : ¬ opensComment (w ++ rest))
    (hnext : ∀ d ∈ rest.head?, ∀ more l', ¬ IsLexeme (w ++ d :: more) l') (h : Lexes rest ts) :
    Lexes (w ++ rest) (t :: ts) := by
  refine .lexeme hw hcomment (fun w' l' hw' hprefix => ?_) hmeans h
  by_contra hlt
  obtain ⟨more, rfl⟩ := prefix_of_prefix_length_le (prefix_append w rest) hprefix (by omega)
  cases more with
  | nil => simp at hlt
  | cons d more =>
    obtain ⟨ds, rfl⟩ := (prefix_append_right_inj w).mp hprefix
    exact hnext d rfl more l' hw'

lemma not_opensComment (h : c ≠ '/') : ¬ opensComment (c :: cs) := by
  rintro (⟨_, heq⟩ | ⟨_, heq⟩) <;> exact h (cons.inj heq).1.symm

lemma IsLexeme.kind_of_cons (h : IsLexeme (c :: cs) l) : l.kind = kindOf c cs := by
  obtain ⟨d, ds, heq, hkind⟩ := h.kind_eq
  cases heq
  exact hkind

/-- A word ends where no character of a word and no quote follows. -/
lemma Lexes.word (hc : isWordChar c) (hdigit : c.isDigit = false) (hcs : cs.all isWordChar)
    (hrest : ∀ d ∈ rest.head?, isWordChar d = false ∧ d ≠ '\'' ∧ d ≠ '"') (h : Lexes rest ts) :
    Lexes (c :: cs ++ rest) (.ofWord (.ofList (c :: cs)) :: ts) := by
  refine .cons (.word hc hdigit hcs) .word (not_opensComment (ne_of_class hc rfl)) (fun d hd more l' hw => ?_) h
  obtain ⟨hword, hquotes⟩ := hrest d hd
  -- a wide literal would begin with the one letter and go on with a quote
  have hkind : l'.kind = 0 := hw.kind_of_cons.trans <| kindOf_word hc hdigit fun e he => by
    cases cs with
    | nil => exact Option.some.inj he ▸ hquotes
    | cons c' cs =>
      have hc' : isWordChar e := Option.some.inj he ▸ all_eq_true.mp hcs c' mem_cons_self
      exact ⟨ne_of_class hc' rfl, ne_of_class hc' rfl⟩
  generalize heq : c :: cs ++ d :: more = w at hw
  cases hw with
  | word _ _ hall =>
    obtain ⟨-, rfl⟩ := cons.inj heq
    simp [hword] at hall
  | _ => cases hkind

lemma Lexes.number (hn : IsNumber (c :: cs)) (hc : c.isDigit) (hmeans : Means (.number (c :: cs)) t)
    (hrest : ∀ d ∈ rest.head?, isNumberChar d = false) (h : Lexes rest ts) : Lexes (c :: cs ++ rest) (t :: ts) := by
  have hslash := ne_of_class (isWordChar_of_isDigit hc) (d := '/') rfl
  refine .cons (.number hn) hmeans (not_opensComment hslash) (fun d hd more l' hw => ?_) h
  have hkind : l'.kind = 1 := hw.kind_of_cons.trans (kindOf_digit hc _)
  generalize heq : c :: cs ++ d :: more = w at hw
  cases hw with
  | number hn =>
    have := hn.all
    rw [← heq] at this
    simp [hrest d hd] at this
  | _ => cases hkind

/-- A punctuator and the character behind it are read together, or begin a comment. -/
def continues (p : String) (d : Char) : Bool :=
  punctuators.any (fun q => (p.toList ++ [d]).isPrefixOf q.toList) || (p == "." && d.isDigit) ||
    (p == "/" && (d == '/' || d == '*'))

lemma continues_of_mem {q : String} (hq : q ∈ punctuators)
    (heq : p.toList ++ d :: more = q.toList) : continues p d := by
  have : punctuators.any (fun q => (p.toList ++ [d]).isPrefixOf q.toList) :=
    any_eq_true.mpr ⟨q, hq, isPrefixOf_iff_prefix.mpr ⟨more, by simp [← heq]⟩⟩
  simp [continues, this]

lemma continues_of_number (hp : p ∈ punctuators) (hn : IsNumber (p.toList ++ d :: more)) : continues p d := by
  obtain ⟨c, cs, hp', hfront⟩ := punctuator_front hp
  obtain ⟨c', cs', heq, hdigit | ⟨rfl, e, es, rfl, he⟩⟩ := hn.front
  · rw [hp'] at heq
    obtain rfl := (cons.inj heq).1
    simp [isDigit_of_not_isWordChar (isSignChar_iff.mp hfront).1] at hdigit
  · rw [hp'] at heq
    obtain ⟨rfl, htail⟩ := cons.inj heq
    cases cs with
    | nil =>
      obtain rfl := (cons.inj htail).1
      obtain rfl : p = "." := String.toList_inj.mp hp'
      simp [continues, he]
    | cons c cs =>
      obtain rfl := (cons.inj htail).1
      simp [punctuator_dot hp hp'] at he

lemma continues_of_opensComment (hp : p ∈ punctuators)
    (h : opensComment (p.toList ++ rest)) : ∃ d ∈ rest.head?, continues p d := by
  have hslash : ∀ p ∈ punctuators, p.toList.head? = some '/' → p = "/" ∨ p.toList = ['/', '='] := by decide
  obtain ⟨c, cs, hp', -⟩ := punctuator_front hp
  rw [hp'] at h
  rcases h with ⟨more, heq⟩ | ⟨more, heq⟩ <;> obtain ⟨rfl, htail⟩ := cons.inj heq
  all_goals
    rcases hslash p hp (by rw [hp']; rfl) with rfl | hp''
    · obtain rfl : cs = [] := (cons.inj hp').2.symm
      obtain rfl : _ = rest := htail
      exact ⟨_, rfl, rfl⟩
    · rw [hp'] at hp''
      obtain rfl := (cons.inj hp'').2
      cases htail

lemma Lexes.sign (hp : p ∈ punctuators) (hrest : ∀ d ∈ rest.head?, continues p d = false) (h : Lexes rest ts) :
    Lexes (p.toList ++ rest) (.sign p :: ts) := by
  obtain ⟨c, cs, hp', hfront⟩ := punctuator_front hp
  obtain ⟨hword, -, hquote, hquote'⟩ := isSignChar_iff.mp hfront
  have hne {d : Char} (hd : isWordChar d) : c ≠ d := (ne_of_class hd hword).symm
  refine .cons (.punctuator hp) .sign (fun hopens => ?_) (fun d hd more l' hw => ?_) h
  · obtain ⟨d, hd, hcontinues⟩ := continues_of_opensComment hp hopens
    simp [hrest d hd] at hcontinues
  · have hd := hrest d hd
    generalize heq : p.toList ++ d :: more = w at hw
    have hcons : c :: (cs ++ d :: more) = w := by rw [← heq, hp']; rfl
    cases hw with
    | word hc => exact hne hc (cons.inj hcons).1
    | number hn => simp [continues_of_number hp (heq ▸ hn)] at hd
    | char => exact hquote (cons.inj hcons).1
    | string => exact hquote' (cons.inj hcons).1
    | punctuator hq => simp [continues_of_mem hq heq] at hd
    | other => simp at hcons
    | _ => exact hne rfl (cons.inj hcons).1

lemma IsBody.not_append_quote (hb : IsBody quote b)
    (hq : quote ≠ '\\') (more : List Char) : ¬ IsBody quote (b ++ quote :: more) := by
  induction hb with
  | done =>
    intro h
    cases h with
    | plain hc => exact hc rfl
    | escape => exact hq rfl
  | plain hc hslash _ _ ih =>
    intro h
    rw [cons_append] at h
    generalize htail : _ ++ quote :: more = tail at h
    cases h with
    | plain _ _ _ h => exact ih (htail ▸ h)
    | escape => exact hslash rfl
  | escape _ _ ih =>
    intro h
    cases h with
    | plain _ hslash => exact hslash rfl
    | escape _ h => exact ih h

lemma IsLexeme.not_beyond_quote (hq : quote = '\'' ∨ quote = '"') (hb : IsBody quote b) :
    ¬ IsLexeme (quote :: (b ++ [quote]) ++ d :: more) l := by
  have hslash : quote ≠ '\\' := by rcases hq with rfl | rfl <;> decide
  -- the inside of a longer literal would go on behind the quote
  have hlonger {b' : List Char} (hb' : IsBody quote b') :
      quote :: (b ++ [quote]) ++ d :: more ≠ quote :: (b' ++ [quote]) := by
    intro heq
    obtain ⟨init, last, hmore⟩ := (eq_nil_or_concat (d :: more)).resolve_left (by simp)
    have heq : (b ++ quote :: init) ++ [last] = b' ++ [quote] := by simpa [hmore] using heq
    rw [← (append_inj' heq rfl).1] at hb'
    exact hb.not_append_quote hslash init hb'
  intro hw
  have hkind : l.kind = kindOf quote _ := hw.kind_of_cons
  generalize heq : quote :: (b ++ [quote]) ++ d :: more = w at hw hlonger
  rcases hq with rfl | rfl
  · have hkind : l.kind = 2 := hkind.trans (by simp [kindOf])
    cases hw with
    | char hb' => exact hlonger hb' rfl
    | _ => cases hkind
  · have hkind : l.kind = 3 := hkind.trans (by simp [kindOf])
    cases hw with
    | string hb' => exact hlonger hb' rfl
    | _ => cases hkind

lemma Lexes.char (hb : IsBody '\'' b) (hc : unescape? b = some [c]) (h : Lexes rest ts) :
    Lexes ('\'' :: (b ++ ['\'']) ++ rest) (.constant (.char (.singleton c)) :: ts) := by
  have hne : b ≠ [] := by
    rintro rfl
    simp [unescape?] at hc
  exact .cons (.char hb hne) (.char hc) (not_opensComment (by decide))
    (fun _ _ _ _ => IsLexeme.not_beyond_quote (.inl rfl) hb) h

lemma Lexes.space (h : Lexes rest ts) : Lexes (' ' :: rest) ts :=
  .gap (.blank rfl) h

end AlgoLang.CGrammar
