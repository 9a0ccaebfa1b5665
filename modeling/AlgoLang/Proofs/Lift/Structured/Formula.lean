/-
# Expressions inside lines

What an expression of C means to those who look at a line as text: it holds no quotes, braces,
semicolons and comments, its parentheses belong together, it ends in an operand, and no operator in it
lacks a counterpart.
-/
import AlgoLang.Proofs.Lift.Scanning
import AlgoLang.Proofs.Lift.Structured.Syntax

namespace AlgoLang.Lift

open Token Text CSource List

variable {cs rest xs behind t ys : List Char} {c : Char} {s : Sign} {op : UnaryOp}

/-! ## Nesting -/

lemma nestFrom_append (depth : Nat) (xs ys : List Char) :
    nestFrom depth (xs ++ ys) = (nestFrom depth xs).bind fun d => nestFrom d ys := by
  induction xs generalizing depth with
  | nil => rfl
  | cons c xs ih =>
    rw [cons_append, nestFrom, nestFrom]
    split
    · exact ih (depth + 1)
    · split
      · split
        · rfl
        · exact ih (depth - 1)
      · exact ih depth

lemma nestFrom_of_no_paren (h : ∀ c ∈ cs, c ≠ '(' ∧ c ≠ ')') (depth : Nat) : nestFrom depth cs = some depth := by
  induction cs with
  | nil => rfl
  | cons c cs ih =>
    have hc := h c mem_cons_self
    rw [nestFrom, if_neg hc.1, if_neg hc.2]
    exact ih fun d hd => h d (mem_cons_of_mem c hd)

lemma nestFrom_gap {gap} (h : allBlank gap) (depth : Nat) : nestFrom depth gap = some depth :=
  nestFrom_of_no_paren (fun c hc => by
    have hblank := all_eq_true.mp h c hc
    exact ⟨ne_of_class hblank rfl, ne_of_class hblank rfl⟩) depth

lemma Laid.nestFrom_eq {ts} (h : Laid isBlank ts cs) (depth : Nat) : nestFrom depth cs = nestFrom depth ts.flatten := by
  induction h generalizing depth with
  | done hgap => exact nestFrom_gap hgap depth
  | @piece gap t rest ts hgap _ _ ih =>
    rw [nestFrom_append, nestFrom_gap hgap, Option.bind_some, nestFrom_append, flatten_cons, nestFrom_append]
    cases nestFrom depth t with
    | none => rfl
    | some d => exact ih d

lemma nestFrom_word {w} (h : w.all isNameChar) (depth : Nat) : nestFrom depth w = some depth := by
  refine nestFrom_of_no_paren (fun c hc => ?_) depth
  have hname := all_eq_true.mp h c hc
  exact ⟨ne_of_class hname rfl, ne_of_class hname rfl⟩

def written (ts : List CToken) : List Char :=
  (ts.map CToken.text).flatten

lemma written_append (ts us : List CToken) : written (ts ++ us) = written ts ++ written us := by
  rw [written, map_append, flatten_append]
  rfl

lemma written_cons (t : CToken) (ts : List CToken) : written (t :: ts) = t.text ++ written ts := rfl

/-- A list of tokens whose parentheses belong together. -/
def Nested (ts : List CToken) : Prop :=
  ∀ depth, nestFrom depth (written ts) = some depth

namespace Nested

variable {ts us : List CToken}

lemma nil : Nested [] := fun _ => rfl

lemma append (h : Nested ts) (h' : Nested us) : Nested (ts ++ us) := fun depth => by
  rw [written_append, nestFrom_append, h depth]
  exact h' depth

lemma sign (hs : s ≠ .lparen ∧ s ≠ .rparen) (h : Nested ts) : Nested (.sign s :: ts) := fun depth => by
  have hsign : nestFrom depth (CToken.sign s).text = some depth := by
    refine nestFrom_of_no_paren ?_ depth
    obtain ⟨hl, hr⟩ := hs
    cases s <;> first | exact absurd rfl hl | exact absurd rfl hr | exact forall_mem_of_all rfl
  rw [written_cons, nestFrom_append, hsign]
  exact h depth

lemma word {w} (h : isWordPiece w.toList) (h' : Nested ts) : Nested (.word w :: ts) := fun depth => by
  rw [written_cons, nestFrom_append, CToken.text, nestFrom_word (all_isNameChar_of_isWordPiece h)]
  exact h' depth

lemma paren (h : Nested ts) : Nested (.sign .lparen :: (ts ++ [.sign .rparen])) := fun depth => by
  rw [written_cons, written_append, nestFrom_append]
  show nestFrom (depth + 1) (written ts ++ [')']) = some depth
  rw [nestFrom_append, h]
  rfl

end Nested

lemma ne_paren_of_mem_operators {k : CLevel} {op : BinaryOp} (h : (s, op) ∈ k.operators) :
    s ≠ .lparen ∧ s ≠ .rparen := by
  have hall : ∀ p ∈ k.operators, p.1 ≠ .lparen ∧ p.1 ≠ .rparen := by cases k <;> decide
  exact hall _ h

lemma ne_paren_of_mem_signsBefore (h : (s, op) ∈ signsBefore) : s ≠ .lparen ∧ s ≠ .rparen := by
  have hall : ∀ p ∈ signsBefore, p.1 ≠ .lparen ∧ p.1 ≠ .rparen := by decide
  exact hall _ h

mutual

lemma IsCExpr.nested {k ts e} : IsCExpr k ts e → Nested ts
  | .tighten _ h => h.nested
  | .binary _ hop h h' => h.nested.append (h'.nested.sign (ne_paren_of_mem_operators hop))
  | .sign hop h => h.nested.sign (ne_paren_of_mem_signsBefore hop)
  | .paren h => h.nested.paren
  | .number _ hdigits => fun depth => by
    rw [written_cons, nestFrom_append, CToken.text, nestFrom_word (all_isNameChar_of_isDigit hdigits)]
    rfl
  | .yes => .word rfl .nil
  | .no => .word rfl .nil
  | .access h => h.nested

lemma IsCAccess.nested {ts e} : IsCAccess ts e → Nested ts
  | .name h => .word (isName_cases h).1 .nil
  | .call h _ h' => .word (isName_cases h).1 h'.nested.paren
  | .index h h' => h.nested.append (.sign ⟨by decide, by decide⟩ (h'.nested.append (.sign ⟨by decide, by decide⟩ .nil)))

lemma IsCArguments.nested {ts es} : IsCArguments ts es → Nested ts
  | .none => .nil
  | .some h => h.nested

lemma IsCExprs.nested {ts es} : IsCExprs ts es → Nested ts
  | .one h => h.nested
  | .more h h' => h.nested.append (h'.nested.sign ⟨by decide, by decide⟩)

end

/-! ## Operands -/

def CToken.endsOperand : CToken → Bool
  | word _ | number _ => true
  | sign s => s == .rparen || s == .rbracket

/-- Tokens in which the sign for multiplication only stands behind operands, and that end in one. -/
structure Seated (ts : List CToken) : Prop where
  first : ts.head? ≠ some (.sign .times)
  last : ∃ t, ts.getLast? = some t ∧ t.endsOperand = true
  chain : ts.IsChain fun t u => u = .sign .times → t.endsOperand = true

namespace Seated

variable {ts us : List CToken}

lemma one {t} (h : t.endsOperand) : Seated [t] where
  first := by
    rintro ⟨⟩
    cases h
  last := ⟨t, rfl, h⟩
  chain := .singleton t

lemma cons {t} (ht : t ≠ .sign .times) (h : Seated ts) : Seated (t :: ts) where
  first := by
    rintro ⟨⟩
    exact ht rfl
  last := by
    obtain ⟨t, ht, hend⟩ := h.last
    exact ⟨t, by rw [getLast?_cons, ht]; rfl, hend⟩
  chain := isChain_cons.mpr ⟨fun u hu htimes => absurd (htimes ▸ hu) h.first, h.chain⟩

lemma between (s : Sign) (h : Seated ts) (h' : Seated us) : Seated (ts ++ .sign s :: us) where
  first := by
    obtain ⟨t, ht, -⟩ := h.last
    cases ts with
    | nil => cases ht
    | cons u ts => exact h.first
  last := by
    obtain ⟨u, hu, hend⟩ := h'.last
    refine ⟨u, ?_, hend⟩
    rw [getLast?_append, getLast?_cons, hu]
    rfl
  chain := by
    obtain ⟨t, ht, hend⟩ := h.last
    refine isChain_append.mpr ⟨h.chain, ?_, ?_⟩
    · exact isChain_cons.mpr ⟨fun u hu htimes => absurd (htimes ▸ hu) h'.first, h'.chain⟩
    · rintro t' ht' _ - -
      obtain rfl : t = t' := Option.some.inj (ht.symm.trans ht')
      exact hend

lemma closed (hs : (CToken.sign s).endsOperand) (h : Seated ts) : Seated (ts ++ [.sign s]) where
  first := by
    obtain ⟨t, ht, -⟩ := h.last
    cases ts with
    | nil => cases ht
    | cons u ts => exact h.first
  last := ⟨.sign s, by simp, hs⟩
  chain := by
    refine isChain_append.mpr ⟨h.chain, .singleton _, ?_⟩
    rintro t' - _ ⟨⟩ ⟨⟩
    cases hs

end Seated

lemma ne_times_of_mem_signsBefore (h : (s, op) ∈ signsBefore) : CToken.sign s ≠ .sign .times := by
  have hall : ∀ p ∈ signsBefore, CToken.sign p.1 ≠ .sign .times := by decide
  exact hall _ h

mutual

lemma IsCExpr.seated {k ts e} : IsCExpr k ts e → Seated ts
  | .tighten _ h => h.seated
  | .binary _ _ h h' => h.seated.between _ h'.seated
  | .sign hop h => h.seated.cons (ne_times_of_mem_signsBefore hop)
  | .paren h => (h.seated.closed rfl).cons (by decide)
  | .number _ _ => .one rfl
  | .yes => .one rfl
  | .no => .one rfl
  | .access h => h.seated

lemma IsCAccess.seated {ts e} : IsCAccess ts e → Seated ts
  | .name _ => .one rfl
  | .call _ _ .none => ((Seated.one rfl).cons (by decide)).cons (by simp)
  | .call _ _ (.some h) => ((h.seated.closed rfl).cons (by decide)).cons (by simp)
  | .index h h' => h.seated.between _ (h'.seated.closed rfl)

lemma IsCExprs.seated {ts es} : IsCExprs ts es → Seated ts
  | .one h => h.seated
  | .more h h' => h.seated.between _ h'.seated

end

/-! ## Comments -/

/-- No comment begins anywhere in the text. -/
def IsUncommented (cs : List Char) : Prop :=
  cs.IsChain fun c d => c = '/' → d ≠ '/' ∧ d ≠ '*'

lemma IsUncommented.append (h : '/' ∉ xs) (h' : IsUncommented ys) : IsUncommented (xs ++ ys) := by
  induction xs with
  | nil => exact h'
  | cons c xs ih =>
    rw [mem_cons, not_or] at h
    exact isChain_cons.mpr ⟨fun _ _ hslash => absurd hslash.symm h.1, ih h.2⟩

lemma IsUncommented.of_not_mem (h : '/' ∉ cs) : IsUncommented cs := by
  have happend := IsUncommented.append h .nil
  rwa [append_nil] at happend

lemma IsUncommented.concat (h : IsUncommented cs) (hc : c ≠ '/' ∧ c ≠ '*') : IsUncommented (cs ++ [c]) := by
  refine isChain_append.mpr ⟨h, .singleton c, ?_⟩
  rintro _ - d ⟨⟩ -
  exact hc

lemma Laid.uncommented {ts} (h : Laid isBlank ts cs) (hts : ∀ t ∈ ts, IsPiece t) : IsUncommented cs := by
  have hgaps : ∀ {gap : List Char}, allBlank gap → '/' ∉ gap := fun hgap hmem =>
    absurd (all_eq_true.mp hgap _ hmem) (by decide)
  induction h with
  | done hgap => exact .of_not_mem (hgaps hgap)
  | @piece gap t rest ts hgap hfits _ ih =>
    have hrest := ih fun u hu => hts u (mem_cons_of_mem t hu)
    refine .append (hgaps hgap) ?_
    by_cases hslash : '/' ∈ t
    · -- A slash is a piece of its own, and what would make it a comment does not fit behind it.
      rw [(hts t mem_cons_self).eq_of_mem hslash (by simp)] at hfits ⊢
      refine isChain_cons.mpr ⟨fun d hd _ => ?_, hrest⟩
      have hjoins := hfits d hd
      constructor
      · rintro rfl
        exact absurd hjoins (by decide)
      · rintro rfl
        exact absurd hjoins (by decide)
    · exact .append hslash hrest

/-! ## Operators without counterpart -/

/-- A word does not go on from one text into the next. -/
def Edge (behind cs : List Char) : Prop :=
  ∀ c d, behind.head? = some c → cs.head? = some d → isWordChar c = true → isWordChar d = false

lemma unliftableFrom_append (ys behind : List Char) (h : ∀ front c back, xs = front ++ c :: back →
      unliftableAt (front.reverse ++ behind) (c :: (back ++ ys)) = false) :
    unliftableFrom behind (xs ++ ys) = unliftableFrom (xs.reverse ++ behind) ys := by
  induction xs generalizing behind with
  | nil => rfl
  | cons c xs ih =>
    have hfirst : unliftableAt behind (c :: (xs ++ ys)) = false := h [] c xs rfl
    rw [cons_append, unliftableFrom, hfirst, Bool.false_or, ih (c :: behind), reverse_cons,
      append_assoc, singleton_append]
    rintro front d back rfl
    have hlater := h (c :: front) d back rfl
    rwa [reverse_cons, append_assoc, singleton_append] at hlater

/-- The characters at which something without counterpart can begin. -/
def unliftableMarks : List Char :=
  ['?', '^', '~', '-', '<', '>', '+', '&', '|', 's']

lemma unliftableAt_of_not_mem (h : c ∉ unliftableMarks) (behind cs : List Char) :
    unliftableAt behind (c :: cs) = false := by
  unfold unliftableAt
  split <;> first
    | rfl
    | next heq =>
      obtain ⟨rfl, -⟩ := cons.inj heq
      exact absurd (by decide) h

lemma not_mem_unliftableMarks (h : isNameChar c) (hs : c ≠ 's') : c ∉ unliftableMarks := by
  have hall : ∀ d ∈ unliftableMarks, isNameChar d → d = 's' := forall_mem_of_all (by decide)
  exact fun hmem => hs (hall c hmem h)

/-- The only word without counterpart is `sizeof`. -/
lemma unliftableFrom_word (ht : t.all isNameChar) (hfits : Fits t rest) (hne : t ≠ "sizeof".toList) :
    unliftableFrom behind (t ++ rest) = unliftableFrom (t.reverse ++ behind) rest := by
  refine unliftableFrom_append rest behind ?_
  rintro front c back rfl
  rw [all_append, Bool.and_eq_true, all_cons, Bool.and_eq_true] at ht
  by_cases hs : c = 's'
  · subst hs
    show ("sizeof".toList.isPrefixOf ('s' :: (back ++ rest)) && !(front.reverse ++ behind).head?.any isWordChar &&
      !(('s' :: (back ++ rest)).drop 6).head?.any isWordChar) = false
    rcases eq_nil_or_concat front with rfl | ⟨front, d, rfl⟩
    · -- The whole word is compared, since neither it nor `sizeof` goes on.
      refine Bool.eq_false_iff.mpr fun hall => hne ?_
      simp only [Bool.and_eq_true, Bool.not_eq_true', isPrefixOf_iff_prefix] at hall
      obtain ⟨⟨⟨after, hafter⟩, -⟩, hstop⟩ := hall
      have hall' : ('s' :: back).all isNameChar := by rw [all_cons, ht.2.1, ht.2.2]; rfl
      have htake := takeWhile_append_stop (all_isWordChar_of_all_isNameChar hall') (hfits.stop hall')
      rw [cons_append, ← hafter] at htake
      rw [nil_append, ← htake]
      refine takeWhile_append_stop rfl fun c hc => ?_
      rw [← hafter] at hstop
      have hdrop : ("sizeof".toList ++ after).drop 6 = after := rfl
      rw [hdrop, hc] at hstop
      exact hstop
    · have hd : isWordChar d := isWordChar_of_isNameChar (all_eq_true.mp ht.1 d (by simp))
      simp [hd]
  · exact unliftableAt_of_not_mem (not_mem_unliftableMarks ht.2.1 hs) _ _

/-- A sign that could be the front of one without counterpart is none if what follows fits. -/
lemma unliftableAt_of_fits (hc : c ∈ ['-', '+', '<', '>']) (hfits : Fits [c] rest)
    (behind : List Char) : unliftableAt behind (c :: rest) = false := by
  unfold unliftableAt
  split <;> first
    | rfl
    | next heq =>
      obtain ⟨rfl, rfl⟩ := cons.inj heq
      first
        | exact absurd hc (by decide)
        | exact absurd (hfits _ rfl) (by decide)

lemma unliftableFrom_sign (s : Sign) (hfits : Fits (CToken.sign s).text rest) :
    unliftableFrom behind ((CToken.sign s).text ++ rest) =
      unliftableFrom ((CToken.sign s).text.reverse ++ behind) rest := by
  have hone (c : Char) (h : unliftableAt behind (c :: rest) = false) :
      unliftableFrom behind ([c] ++ rest) = unliftableFrom ([c].reverse ++ behind) rest := by
    rw [singleton_append, unliftableFrom, h]
    rfl
  have htwo (c d : Char) (h : unliftableAt behind (c :: d :: rest) = false)
      (h' : unliftableAt (c :: behind) (d :: rest) = false) :
      unliftableFrom behind ([c, d] ++ rest) = unliftableFrom ([c, d].reverse ++ behind) rest := by
    show unliftableFrom behind (c :: d :: rest) = unliftableFrom (d :: c :: behind) rest
    rw [unliftableFrom, h, Bool.false_or, unliftableFrom, h', Bool.false_or]
  cases s
  case minus | plus | less | greater => exact hone _ (unliftableAt_of_fits (by decide) hfits behind)
  case lessEqual => exact htwo '<' '=' rfl (unliftableAt_of_not_mem (by decide) _ _)
  case greaterEqual => exact htwo '>' '=' rfl (unliftableAt_of_not_mem (by decide) _ _)
  case and => exact htwo '&' '&' (by simp [unliftableAt]) (by simp [unliftableAt])
  case or => exact htwo '|' '|' (by simp [unliftableAt]) (by simp [unliftableAt])
  case equal | notEqual =>
    exact htwo _ _ (unliftableAt_of_not_mem (by decide) _ _) (unliftableAt_of_not_mem (by decide) _ _)
  all_goals exact hone _ (unliftableAt_of_not_mem (by decide) _ _)

lemma unliftableFrom_gap {gap} (hgap : allBlank gap) (behind rest : List Char) :
    unliftableFrom behind (gap ++ rest) = unliftableFrom (gap.reverse ++ behind) rest := by
  refine unliftableFrom_append rest behind ?_
  rintro front c back rfl
  have hblank : isBlank c := all_eq_true.mp hgap c (by simp)
  refine unliftableAt_of_not_mem (fun hmem => ?_) _ _
  have hall : ∀ c ∈ unliftableMarks, isBlank c = false := forall_mem_of_all rfl
  exact ne_of_class hblank (hall c hmem) rfl

lemma unliftableFrom_spelled {ts} (hts : ∀ t ∈ ts, t.IsProper) (hsizeof : .word "sizeof" ∉ ts)
    (h : Spells ts cs) (behind : List Char) : unliftableFrom behind cs = false := by
  induction ts generalizing cs behind with
  | nil =>
    cases h with
    | done hgap =>
      have hcut := unliftableFrom_gap hgap behind []
      rwa [append_nil] at hcut
  | cons t ts ih =>
    cases h with
    | @piece gap _ rest _ hgap hfits hrest =>
      have hrest' := ih (fun u hu => hts u (mem_cons_of_mem t hu)) (fun hmem => hsizeof (mem_cons_of_mem t hmem)) hrest
      have ht := hts t mem_cons_self
      rw [unliftableFrom_gap hgap]
      cases t with
      | sign s => rw [unliftableFrom_sign s hfits, hrest']
      | number ds =>
        rw [CToken.text, unliftableFrom_word (all_isNameChar_of_isDigit ht.2) hfits, hrest']
        intro heq
        have hdigits := ht.2
        rw [heq] at hdigits
        exact absurd hdigits (by decide)
      | word w =>
        rw [CToken.text, unliftableFrom_word (all_isNameChar_of_isWordPiece ht.word_cases.1) hfits, hrest']
        intro heq
        rw [String.toList_inj] at heq
        exact hsizeof (heq ▸ mem_cons_self)

/-! ## Dereferences -/

lemma dereferencesFrom_append (h : '*' ∉ xs) (ys behind : List Char) :
    dereferencesFrom behind (xs ++ ys) = dereferencesFrom (xs.reverse ++ behind) ys := by
  induction xs generalizing behind with
  | nil => rfl
  | cons c xs ih =>
    rw [mem_cons, not_or] at h
    have hc : (c == '*') = false := beq_eq_false_iff_ne.mpr (.symm h.1)
    rw [cons_append, dereferencesFrom, hc, Bool.false_and, Bool.false_or, ih h.2, reverse_cons,
      append_assoc, singleton_append]

lemma isPrefixPlace_gap {gap} (hgap : allBlank gap) (behind : List Char) :
    isPrefixPlace (gap.reverse ++ behind) = isPrefixPlace behind := by
  have htrim : trimStart (gap.reverse ++ behind) = trimStart behind :=
    dropWhile_append_of_pos fun c hc => all_eq_true.mp hgap c (mem_reverse.mp hc)
  rw [isPrefixPlace, isPrefixPlace, htrim]

/-- The code points of white space. -/
def blankPoints : List Nat :=
  List.range' 9 5 ++ List.range' 28 5 ++ [0x85, 0xA0, 0x1680] ++ List.range' 0x2000 11 ++
    [0x2028, 0x2029, 0x202F, 0x205F, 0x3000]

lemma isWordChar_of_isBlank (h : isBlank c) : isWordChar c = false := by
  have hmem : c.toNat ∈ blankPoints := by
    simp only [isBlank, isWhiteSpace, Bool.or_eq_true, Bool.and_eq_true, decide_eq_true_eq, beq_iff_eq] at h
    simp only [blankPoints, mem_append, mem_range'_1, mem_cons, not_mem_nil, or_false]
    omega
  have hall : ∀ n ∈ blankPoints, isWordChar (.ofNat n) = false := by decide +kernel
  rw [← Char.ofNat_toNat c]
  exact hall c.toNat hmem

lemma Edge.gap {gap} (hgap : allBlank gap) (h : Edge behind (gap ++ cs)) : Edge (gap.reverse ++ behind) cs := by
  rcases eq_nil_or_concat' gap with rfl | ⟨front, c, rfl⟩
  · exact h
  · have hblank : isBlank c := all_eq_true.mp hgap c (by simp)
    intro d _ hd _ hword
    obtain rfl : c = d := by simpa using hd
    rw [isWordChar_of_isBlank hblank] at hword
    cases hword

lemma CToken.edge {t : CToken} (ht : t.IsProper) (hfits : Fits t.text rest) (behind : List Char) :
    Edge (t.text.reverse ++ behind) rest := by
  intro c d hc hd hword
  obtain ⟨front, last, hlast⟩ := (eq_nil_or_concat' t.text).resolve_left ht.isPiece.ne_nil
  obtain rfl : last = c := by simpa [hlast] using hc
  rcases ht.isPiece.all_isNameChar_or_mem with hname | hsign
  · exact hfits.stop hname d hd
  · have hmem := mem_signChars_of_mem hsign (c := last) (by rw [hlast]; simp)
    have hall : ∀ c ∈ signChars, isWordChar c = false := forall_mem_of_all rfl
    rw [hall last hmem] at hword
    cases hword

/-- Behind an operand an operator has a left operand, unless the operand is the word `return`. -/
lemma isPrefixPlace_operand {t : CToken} (ht : t.IsProper) (hend : t.endsOperand)
    (hreturn : t ≠ .word "return") (hedge : Edge behind t.text) : isPrefixPlace (t.text.reverse ++ behind) = false := by
  have hword : t.text.all isNameChar → t.text ≠ [] → t.text ≠ "return".toList →
      isPrefixPlace (t.text.reverse ++ behind) = false := by
    intro hname hne hreturn
    obtain ⟨front, last, hlast⟩ := (eq_nil_or_concat' t.text).resolve_left hne
    have hreverse : t.text.reverse ++ behind = last :: (front.reverse ++ behind) := by rw [hlast]; simp
    have hchar : isNameChar last := all_eq_true.mp hname last (by rw [hlast]; simp)
    have hmark : prefixMarks.contains last = false := by
      have hall : ∀ d ∈ prefixMarks, isNameChar d = false := forall_mem_of_all rfl
      rw [contains_eq_mem, decide_eq_false_iff_not]
      intro hmem
      rw [hall last hmem] at hchar
      cases hchar
    have hblank : isBlank last = false := isBlank_of_isPlain (isPlain_of_isNameChar hchar)
    have hend : endsInReturn (t.text.reverse ++ behind) = false := by
      refine Bool.eq_false_iff.mpr fun hall => hreturn ?_
      simp only [endsInReturn, Bool.and_eq_true, Bool.not_eq_true', isPrefixOf_iff_prefix] at hall
      obtain ⟨⟨after, hafter⟩, hstop⟩ := hall
      -- Read backwards, the operand and `return` are the same word.
      have hreturn' : ("nruter".toList ++ after).takeWhile isWordChar = "nruter".toList := by
        refine takeWhile_append_stop rfl fun c hc => ?_
        have hdrop : (t.text.reverse ++ behind).drop 6 = after := by rw [← hafter]; rfl
        rw [hdrop, hc] at hstop
        exact hstop
      have hoperand : (t.text.reverse ++ behind).takeWhile isWordChar = t.text.reverse := by
        refine takeWhile_append_stop ?_ fun c hc => ?_
        · rw [all_reverse]
          exact all_isWordChar_of_all_isNameChar hname
        · cases htext : t.text with
          | nil => exact absurd htext hne
          | cons d rest =>
            have hd : isWordChar d :=
              isWordChar_of_isNameChar (all_eq_true.mp hname d (by rw [htext]; exact mem_cons_self))
            refine Bool.eq_false_iff.mpr fun hc' => ?_
            have hnot := hedge c d hc (by rw [htext]; rfl) hc'
            rw [hd] at hnot
            cases hnot
      rw [hafter, hoperand] at hreturn'
      rw [← reverse_reverse t.text, hreturn']
      decide
    have htrim : trimStart (last :: (front.reverse ++ behind)) = last :: (front.reverse ++ behind) :=
      dropWhile_cons_of_neg (by simp [hblank])
    rw [hreverse] at hend ⊢
    rw [isPrefixPlace, htrim]
    show (prefixMarks.contains last || endsInReturn (last :: (front.reverse ++ behind))) = false
    rw [hmark, hend]
    rfl
  cases t with
  | word w =>
    refine hword (all_isNameChar_of_isWordPiece ht.word_cases.1) ht.isPiece.ne_nil fun heq => hreturn ?_
    rw [String.toList_inj.mp heq]
  | number ds =>
    refine hword (all_isNameChar_of_isDigit ht.2) ht.isPiece.ne_nil fun heq => ?_
    have hdigits := ht.2
    rw [show ds.toList = _ from heq] at hdigits
    exact absurd hdigits (by decide)
  | sign s =>
    simp only [CToken.endsOperand, Bool.or_eq_true, beq_iff_eq] at hend
    rcases hend with rfl | rfl <;> rfl

lemma times_not_mem {t : CToken} (ht : t.IsProper) (hne : t ≠ .sign .times) : '*' ∉ t.text := by
  have hname : t.text.all isNameChar → '*' ∉ t.text := fun hall hmem =>
    absurd (all_eq_true.mp hall _ hmem) (by decide)
  cases t with
  | word w => exact hname (all_isNameChar_of_isWordPiece ht.word_cases.1)
  | number ds => exact hname (all_isNameChar_of_isDigit ht.2)
  | sign s => cases s <;> first | exact absurd rfl hne | decide

lemma dereferencesFrom_spelled {ts : List CToken} (hts : ∀ t ∈ ts, t.IsProper) (hreturn : .word "return" ∉ ts)
    (hchain : ts.IsChain fun t u => u = .sign .times → t.endsOperand) (h : Spells ts cs)
    (behind : List Char) (hedge : Edge behind cs)
    (hfirst : ts.head? = some (.sign .times) → isPrefixPlace behind = false) : dereferencesFrom behind cs = false := by
  have hgaps : ∀ {gap : List Char}, allBlank gap → '*' ∉ gap := fun hgap hmem =>
    absurd (all_eq_true.mp hgap _ hmem) (by decide)
  induction ts generalizing cs behind with
  | nil =>
    cases h with
    | done hgap =>
      have hcut := dereferencesFrom_append (hgaps hgap) [] behind
      rwa [append_nil] at hcut
  | cons t ts ih =>
    cases h with
    | @piece gap _ rest _ hgap hfits hrest =>
      have ht := hts t mem_cons_self
      have hts' : ∀ u ∈ ts, u.IsProper := fun u hu => hts u (mem_cons_of_mem t hu)
      have hreturn' : .word "return" ∉ ts := fun hmem => hreturn (mem_cons_of_mem t hmem)
      obtain ⟨hnext, hchain'⟩ := isChain_cons.mp hchain
      have hedge' := hedge.gap hgap
      have hafter := CToken.edge ht hfits (gap.reverse ++ behind)
      have hseat : ts.head? = some (.sign .times) → isPrefixPlace (t.text.reverse ++ (gap.reverse ++ behind)) = false := by
        intro htimes
        refine isPrefixPlace_operand ht (hnext _ htimes rfl) ?_ ?_
        · rintro rfl
          exact hreturn mem_cons_self
        · intro c d hc hd
          refine hedge' c d hc ?_
          rw [head?_append, hd]
          rfl
      have hrest' := ih hts' hreturn' hchain' hrest _ hafter hseat
      rw [dereferencesFrom_append (hgaps hgap)]
      by_cases htimes : t = .sign .times
      · subst htimes
        show ('*' == '*' && isPrefixPlace (gap.reverse ++ behind) || dereferencesFrom ('*' :: (gap.reverse ++ behind)) rest) = false
        rw [isPrefixPlace_gap hgap, hfirst rfl]
        exact hrest'
      · rw [dereferencesFrom_append (times_not_mem ht htimes), hrest']

/-! ## Ends -/

lemma Laid.exists_trimEnd {ts} (h : Laid isBlank ts cs)
    (hts : ∀ t ∈ ts, IsPiece t) (hlast : ts.getLast? = some t) : ∃ front, Text.trimEnd cs = front ++ t := by
  induction h with
  | done _ => cases hlast
  | @piece gap u rest ts hgap _ hrest ih =>
    rw [trimEnd_piece (hts u mem_cons_self)]
    cases ts with
    | nil =>
      cases hrest with
      | done hgap' =>
        obtain rfl : u = t := Option.some.inj hlast
        rw [trimEnd_of_allBlank hgap', append_nil]
        exact ⟨gap, rfl⟩
    | cons v ts =>
      obtain ⟨front, hfront⟩ := ih (fun w hw => hts w (mem_cons_of_mem u hw)) (by simpa using hlast)
      rw [hfront]
      exact ⟨gap ++ (u ++ front), by simp⟩

lemma Laid.trimStart {ts} (h : Laid isBlank ts cs) (hts : ∀ t ∈ ts, IsPiece t) : Laid isBlank ts (trimStart cs) := by
  cases h with
  | done hgap =>
    rw [trimStart_of_allBlank hgap]
    exact .done rfl
  | @piece gap t rest ts hgap hfits hrest =>
    rw [trimStart_gap hgap (hts t mem_cons_self)]
    exact .piece (all_nil (f := isBlank)) hfits hrest

lemma codeOnly_of_no_quote (h : ∀ c ∈ cs, isQuote c = false) : codeOnly cs = cs := by
  cases cs with
  | nil => rfl
  | cons c cs => rw [codeOnly, segments_eq_of_no_quote h (by simp), flatMap_singleton]

/-! ## Expressions -/

namespace CFormula

variable (e : CFormula)

lemma regular : Regular e.tokens :=
  e.derives.regular

lemma pieces : ∀ t ∈ e.tokens.map CToken.text, IsPiece t := by
  intro t ht
  obtain ⟨c, hc, rfl⟩ := mem_map.mp ht
  exact (e.regular.proper c hc).isPiece

def inner : List Char :=
  trim e.text

lemma spells_inner : Spells e.tokens e.inner :=
  e.spells.trim (fun _ hc => hc) e.pieces

lemma not_mem {w} (h : w ∈ ["sizeof", "return"]) : .word w ∉ e.tokens := by
  have hall : ∀ w ∈ ["sizeof", "return"], w ∈ cKeywords ∧ w ≠ "true" ∧ w ≠ "false" := by decide
  obtain ⟨hkeyword, htrue, hfalse⟩ := hall w h
  exact fun hmem => (e.free w hkeyword hmem).elim htrue hfalse

lemma isLiftable_inner : isLiftable e.inner := by
  have hquotes := e.spells_inner.no_quote e.pieces
  have hliftable := unliftableFrom_spelled e.regular.proper (e.not_mem (by simp)) e.spells_inner []
  have hseated := e.derives.seated
  have hderef : hasDereference e.inner = false :=
    dereferencesFrom_spelled e.regular.proper (e.not_mem (by simp)) hseated.chain e.spells_inner []
      (by rintro c d ⟨⟩) fun hfirst => absurd hfirst hseated.first
  rw [isLiftable, codeOnly_of_no_quote hquotes, hliftable, hderef]
  rfl

lemma nestFrom_text (depth : Nat) : nestFrom depth e.text = some depth := by
  rw [e.spells.nestFrom_eq]
  exact e.derives.nested depth

lemma uncommented : IsUncommented e.text :=
  e.spells.uncommented e.pieces

lemma exists_last : ∃ front c, e.inner = front ++ [c] ∧ (isNameChar c ∨ c ∈ [')', ']']) := by
  obtain ⟨t, ht, hend⟩ := e.derives.seated.last
  have hmem : t ∈ e.tokens := mem_of_getLast? ht
  have hproper := e.regular.proper t hmem
  have hlast : (e.tokens.map CToken.text).getLast? = some t.text := by rw [getLast?_map, ht]; rfl
  obtain ⟨front, hfront⟩ := (e.spells.trimStart e.pieces).exists_trimEnd e.pieces hlast
  obtain ⟨back, c, hback⟩ := (eq_nil_or_concat' t.text).resolve_left hproper.isPiece.ne_nil
  refine ⟨front ++ back, c, ?_, ?_⟩
  · rw [inner, trim, hfront, hback, append_assoc]
  · have hc : c ∈ t.text := by rw [hback]; simp
    cases t with
    | word w => exact .inl (all_eq_true.mp (all_isNameChar_of_isWordPiece hproper.word_cases.1) c hc)
    | number ds => exact .inl (all_eq_true.mp (all_isNameChar_of_isDigit hproper.2) c hc)
    | sign s =>
      refine .inr ?_
      simp only [CToken.endsOperand, Bool.or_eq_true, beq_iff_eq] at hend
      have hall : ∀ c ∈ (CToken.sign s).text, c ∈ [')', ']'] := by
        rcases hend with rfl | rfl <;> exact forall_mem_of_all rfl
      exact hall c hc

lemma lifted_inner : Laid isPlainBlank (e.tokens.map CToken.lifted) (liftExpr e.inner).toList :=
  e.regular.liftExpr e.spells_inner

end CFormula

end AlgoLang.Lift
