/-
# How C cuts the text of an expression

The text of an expression is cut at the joints of its parts, in every context that it stands in, but minus
signs that follow each other are taken two at a time.  So all is proved for any number of minus signs before
the text.
-/
import AlgoLang.Proofs.CGrammar.Image

namespace AlgoLang.CGrammar

open Binary64 List Expr Lexes C Char Text UnaryOp

variable {s : Option Span} {e : Expr} {text n p w : String} {c d : Char} {rest : List Char} {texts : List String}
  {ts : List Terminal} {es is : List Expr} {op : BinaryOp}

variable {routines : List String}

/-- A run of minus signs: steps, and one sign if their number is odd. -/
def minuses : Nat → List Terminal
  | 0 => []
  | 1 => [.sign "-"]
  | n + 2 => .sign "--" :: minuses n

mutual

/-- The terminals of an expression with `n` minus signs before it. -/
def terminals (routines : List String) (n : Nat) : Expr → List Terminal
  | .integer _ k => minuses n ++ [.constant (.integer k.toNat)]
  | .real _ (.infinite _) => minuses n ++ [.name "inf"]
  | .real _ x => minuses n ++ [.constant (.floating x)]
  | .boolean _ b => minuses n ++ [.constant (.truth b)]
  | .char _ s => minuses n ++ [.constant (.char s)]
  | .string _ s => minuses n ++ [.constant (.string s)]
  | .name _ w => minuses n ++ [.ofWord w]
  | .binary _ op l r =>
    match op.inC with
    | some p =>
      minuses n ++ .sign "(" :: (terminals routines 0 l ++ .sign p :: (terminals routines 0 r ++ [.sign ")"]))
    | none =>
      minuses n ++ .name "pow" :: .sign "(" ::
        (terminals routines 0 l ++ .sign "," :: (terminals routines 0 r ++ [.sign ")"]))
  | .unary _ .neg e => terminals routines (n + 1) e
  | .unary _ .not e => minuses n ++ .sign "!" :: terminals routines 0 e
  | .paren _ e => minuses n ++ .sign "(" :: (terminals routines 0 e ++ [.sign ")"])
  | .index _ a is =>
    terminals routines n a ++ (terminalsEach routines is).flatMap fun ts => .sign "[" :: (ts ++ [.sign "]"])
  | .field _ o f => terminals routines n o ++ [.sign ".", .ofWord f]
  | .call _ w args =>
    minuses n ++ .ofWord (callee routines w) :: .sign "(" ::
      ([Terminal.sign ","].intercalate (terminalsEach routines args) ++ [.sign ")"])
  | .unknown _ | .missing => []

def terminalsEach (routines : List String) : List Expr → List (List Terminal)
  | [] => []
  | e :: es => terminals routines 0 e :: terminalsEach routines es

end

/-! ## Signs -/

lemma not_continues_bracket (hp : p ∈ ["(", ")", "[", "]", ","]) (d : Char) : continues p d = false := by
  simp only [mem_cons, not_mem_nil, or_false] at hp
  rcases hp with rfl | rfl | rfl | rfl | rfl <;> simp [continues, punctuators, isPrefixOf]

lemma Lexes.bracket (h : Lexes rest ts) (p : String) (c : Char)
    (hp : p ∈ ["(", ")", "[", "]", ","]) (hc : p.toList = [c]) : Lexes (c :: rest) (.sign p :: ts) := by
  have hall : ∀ p ∈ ["(", ")", "[", "]", ","], p ∈ punctuators := by decide
  have := sign (hall p hp) (fun d _ => not_continues_bracket hp d) h
  rwa [hc] at this

/-- A character that makes no longer sign with a minus sign before it. -/
def standsOff (c : Char) : Bool :=
  c != '-' && c != '=' && c != '>'

lemma Lexes.minuses (h : Lexes rest ts) (hrest : ∀ c ∈ rest.head?, standsOff c) :
    (n : Nat) → Lexes (replicate n '-' ++ rest) (minuses n ++ ts)
  | 0 => h
  | 1 => by
    refine sign (p := "-") (by decide) (fun d hd => ?_) h
    have hd : d ≠ '-' ∧ d ≠ '=' ∧ d ≠ '>' := by simpa [standsOff, and_assoc] using hrest d hd
    simp [continues, punctuators, isPrefixOf, hd]
  | n + 2 => by
    refine sign (p := "--") (by decide) (fun d _ => ?_) (h.minuses hrest n)
    simp [continues, punctuators, isPrefixOf]

/-! ## Words -/

lemma isDigit_of_isAlpha (h : c.isAlpha) : c.isDigit = false := by
  simp only [isAlpha, isUpper, isLower, isDigit, Bool.or_eq_true,
    Bool.and_eq_true, Bool.and_eq_false_iff, decide_eq_true_eq, decide_eq_false_iff_not, ge_iff_le,
    UInt32.le_iff_toNat_le, reduceVal, UInt32.reduceToNat] at *
  omega

lemma standsOff_of_isAlpha (h : c.isAlpha) : standsOff c := by
  simp [standsOff, ne_of_class h]

def endsWord (d : Char) : Bool :=
  !isWordChar d && d != '\'' && d != '"'

lemma endsWord_iff : endsWord d ↔ isWordChar d = false ∧ d ≠ '\'' ∧ d ≠ '"' := by
  simp [endsWord, and_assoc]

lemma IsWord.lexes (hw : IsWord w) (hrest : ∀ d ∈ rest.head?, endsWord d) (h : Lexes rest ts) :
    Lexes (w.toList ++ rest) (.ofWord w :: ts) := by
  obtain ⟨c, cs, hspelled, hc, hcs⟩ := hw.spelled
  have hword : isWordChar c := by simp [isWordChar, isAlphanum, hc]
  have hread := word hword (isDigit_of_isAlpha hc) hcs (fun d hd => endsWord_iff.mp (hrest d hd)) h
  rwa [← hspelled, String.ofList_toList] at hread

lemma IsWord.callee (hn : IsWord n) : IsWord (callee routines n) := by
  have hall : ∀ w ∈ ["log", "log10", "strlen"], IsWord w := by
    intro w hw
    simp only [mem_cons, not_mem_nil, or_false] at hw
    rcases hw with rfl | rfl | rfl
    all_goals exact ⟨⟨_, _, rfl, rfl, rfl⟩, by decide, by decide⟩
  unfold C.callee
  dsimp only
  split
  · exact hn
  · cases h : renamed.get? (lower n) with
    | none => exact hn
    | some w =>
      obtain ⟨l, l', heq, -⟩ := lookup_eq_some_iff.mp h
      have hmem : (lower n, w) ∈ renamed := heq ▸ by simp
      exact hall w (mem_map_of_mem (f := Prod.snd) hmem)

/-! ## Texts -/

/-- What stands behind an expression in a text. -/
def Behind (e : Expr) (d : Char) : Prop :=
  d ∈ [' ', ')', ']', ',', '['] ∨ d = '.' ∧ isAccess e = true

/-- The text of an expression, and how it is cut wherever it stands. -/
structure Emits (routines : List String) (e : Expr) (text : String) : Prop where
  toC : e.toC routines = .ok text
  front : ∃ c, text.toList.head? = some c ∧ c ≠ '='
  lexes : ∀ {n : Nat} {rest : List Char} {ts : List Terminal}, (∀ d ∈ rest.head?, Behind e d) →
    Lexes rest ts → Lexes (List.replicate n '-' ++ (text.toList ++ rest)) (terminals routines n e ++ ts)

lemma Emits.of_core {core : List Terminal} (htoC : e.toC routines = .ok text)
    (hfront : ∃ c, text.toList.head? = some c ∧ standsOff c)
    (hterminals : ∀ n, terminals routines n e = minuses n ++ core)
    (hlexes : ∀ {rest : List Char} {ts : List Terminal}, (∀ d ∈ rest.head?, Behind e d) →
      Lexes rest ts → Lexes (text.toList ++ rest) (core ++ ts)) : Emits routines e text := by
  obtain ⟨c, htext, hc⟩ := hfront
  refine ⟨htoC, ⟨c, htext, ?_⟩, fun {n rest ts} hrest h => ?_⟩
  · rintro rfl
    exact absurd hc (by decide)
  · rw [hterminals, append_assoc]
    refine (hlexes hrest h).minuses (fun d hd => ?_) n
    obtain rfl : c = d := by simpa [head?_append, htext] using hd
    exact hc

lemma Emits.lexes_zero (he : Emits routines e text) (hrest : ∀ d ∈ rest.head?, Behind e d) (h : Lexes rest ts) :
    Lexes (text.toList ++ rest) (terminals routines 0 e ++ ts) :=
  he.lexes (n := 0) hrest h

lemma Behind.endsWord (h : Behind e d) : endsWord d := by
  have hall : [' ', ')', ']', ',', '['].all CGrammar.endsWord := by decide
  rcases h with h | ⟨rfl, -⟩
  · exact all_eq_true.mp hall d h
  · rfl

lemma Behind.mem (h : Behind e d) (haccess : isAccess e = false) : d ∈ [' ', ')', ']', ',', '['] := by
  rcases h with h | ⟨-, h⟩
  · exact h
  · simp [haccess] at h

lemma isNumberChar_of_behind (hd : d ∈ [' ', ')', ']', ',', '[']) : isNumberChar d = false := by
  have hall : [' ', ')', ']', ',', '['].all (!isNumberChar ·) := by decide
  simpa using all_eq_true.mp hall d hd

/-! ## Literals and names -/

lemma emits_numeral {t : Terminal} (haccess : isAccess e = false)
    (htoC : e.toC routines = .ok text) (hterminals : ∀ n, terminals routines n e = minuses n ++ [t])
    (hnumeral : IsNumeral text.toList t) : Emits routines e text := by
  obtain ⟨c, cs, htext, hc⟩ := hnumeral.front
  refine .of_core htoC ⟨c, by rw [htext]; rfl, by simp [standsOff, ne_of_class hc]⟩ hterminals fun hrest h => ?_
  rw [htext] at hnumeral ⊢
  exact .number hnumeral.number hc hnumeral.means (fun d hd => isNumberChar_of_behind ((hrest d hd).mem haccess)) h

lemma emits_word (hw : IsWord w) (htoC : e.toC routines = .ok w)
    (hterminals : ∀ n, terminals routines n e = minuses n ++ [.ofWord w]) : Emits routines e w := by
  obtain ⟨c, cs, htext, hc, -⟩ := hw.spelled
  exact .of_core htoC ⟨c, by rw [htext]; rfl, standsOff_of_isAlpha hc⟩ hterminals fun hrest h =>
    hw.lexes (fun d hd => (hrest d hd).endsWord) h

lemma emits_boolean {b : Bool} : Emits routines (.boolean s b) (if b then "true" else "false") := by
  have hends {e : Expr} {rest : List Char} (hrest : ∀ d ∈ rest.head?, Behind e d) :
      ∀ d ∈ rest.head?, isWordChar d = false ∧ d ≠ '\'' ∧ d ≠ '"' :=
    fun d hd => endsWord_iff.mp (hrest d hd).endsWord
  cases b with
  | true =>
    refine .of_core rfl ⟨'t', rfl, rfl⟩ (fun _ => rfl) fun {rest ts} hrest h => ?_
    exact @word 't' rest ['r', 'u', 'e'] ts rfl rfl rfl (hends hrest) h
  | false =>
    refine .of_core rfl ⟨'f', rfl, rfl⟩ (fun _ => rfl) fun {rest ts} hrest h => ?_
    exact @word 'f' rest ['a', 'l', 's', 'e'] ts rfl rfl rfl (hends hrest) h

/-! ## Operations -/

lemma emits_binary {l r : Expr} {left right : String} (hl : Emits routines l left) (hr : Emits routines r right) :
    Emits routines (.binary s op l r) (joined op left right) := by
  have htoC : (binary s op l r).toC routines = .ok (joined op left right) := by
    rw [toC, hl.toC, hr.toC]
    rfl
  cases hop : op.inC with
  | some p =>
    obtain ⟨hp, hspace⟩ : p ∈ punctuators ∧ continues p ' ' = false := by cases op <;> cases hop <;> decide
    have htext : joined op left right = "(" ++ left ++ " " ++ p ++ " " ++ right ++ ")" := by
      rw [joined, hop]
    rw [htext] at htoC ⊢
    refine .of_core htoC ⟨'(', by simp, rfl⟩ (fun n => by rw [terminals, hop]) fun {rest ts} _ h => ?_
    have hclose := h.bracket ")" ')' (by decide) rfl
    have hright := (hr.lexes_zero (by simp [Behind]) hclose).space
    have hsign := (sign hp (by simpa using hspace) hright).space
    have hleft := hl.lexes_zero (by simp [Behind]) hsign
    simpa using hleft.bracket "(" '(' (by decide) rfl
  | none =>
    have htext : joined op left right = "pow(" ++ left ++ ", " ++ right ++ ")" := by rw [joined, hop]
    rw [htext] at htoC ⊢
    have hpow : IsWord "pow" := ⟨⟨'p', ['o', 'w'], rfl, rfl, rfl⟩, by decide, by decide⟩
    have hname : Terminal.ofWord "pow" = .name "pow" := by decide
    refine .of_core htoC ⟨'p', by simp, rfl⟩ (fun n => by rw [terminals, hop]) fun {rest ts} _ h => ?_
    have hclose := h.bracket ")" ')' (by decide) rfl
    have hright := (hr.lexes_zero (by simp [Behind]) hclose).space
    have hcomma := hright.bracket "," ',' (by decide) rfl
    have hleft := hl.lexes_zero (by simp [Behind]) hcomma
    have hopen := hleft.bracket "(" '(' (by decide) rfl
    simpa [hname] using hpow.lexes (by simp; decide) hopen

lemma emits_unary {op : UnaryOp} (he : Emits routines e text) : Emits routines (.unary s op e) (op.inC ++ text) := by
  have htoC : (unary s op e).toC routines = .ok (op.inC ++ text) := by
    rw [toC, he.toC]
    rfl
  cases op with
  | neg =>
    refine ⟨htoC, ⟨'-', by simp [inC], by decide⟩, fun {n rest ts} hrest h => ?_⟩
    have hread := he.lexes (n := n + 1) (fun d hd => .inl ((hrest d hd).mem rfl)) h
    simpa [inC, replicate_succ', terminals] using hread
  | not =>
    obtain ⟨c, htext, hc⟩ := he.front
    refine .of_core htoC ⟨'!', by simp [inC], rfl⟩ (fun _ => rfl) fun {rest ts} hrest h => ?_
    have hread := he.lexes_zero (fun d hd => .inl ((hrest d hd).mem rfl)) h
    have hbang : ∀ d ∈ (text.toList ++ rest).head?, continues "!" d = false := by
      intro d hd
      obtain rfl : c = d := by simpa [head?_append, htext] using hd
      simp [continues, punctuators, isPrefixOf, hc]
    simpa [inC] using sign (p := "!") (by decide) hbang hread

lemma emits_paren (he : Emits routines e text) : Emits routines (.paren s e) ("(" ++ text ++ ")") := by
  have htoC : (paren s e).toC routines = .ok ("(" ++ text ++ ")") := by
    rw [toC, he.toC]
    rfl
  refine .of_core htoC ⟨'(', by simp, rfl⟩ (fun _ => rfl) fun {rest ts} _ h => ?_
  have hclose := h.bracket ")" ')' (by decide) rfl
  have hinner := he.lexes_zero (by simp [Behind]) hclose
  simpa using hinner.bracket "(" '(' (by decide) rfl

/-! ## Accesses and calls -/

lemma emits_field {o : Expr} {f : String} (haccess : isAccess o)
    (ho : Emits routines o text) (hf : IsWord f) : Emits routines (.field s o f) (text ++ "." ++ f) := by
  have htoC : (field s o f).toC routines = .ok (text ++ "." ++ f) := by
    rw [toC, ho.toC]
    rfl
  obtain ⟨c, htext, hc⟩ := ho.front
  obtain ⟨c', cs', hspelled, hc', -⟩ := hf.spelled
  refine ⟨htoC, ⟨c, by simp [head?_append, htext], hc⟩, fun {n rest ts} hrest h => ?_⟩
  have hfield := hf.lexes (fun d hd => (hrest d hd).endsWord) h
  have hpoint : ∀ d ∈ (f.toList ++ rest).head?, continues "." d = false := by
    intro d hd
    rw [hspelled] at hd
    obtain rfl : c' = d := Option.some.inj hd
    simp [continues, punctuators, isPrefixOf, isDigit_of_isAlpha hc', ne_of_class hc']
  have hdot := sign (p := ".") (by decide) hpoint hfield
  have hread := ho.lexes (n := n) (fun d hd => ?_) hdot
  · simpa [terminals] using hread
  · obtain rfl : '.' = d := by simpa using hd
    exact .inr ⟨rfl, haccess⟩

lemma lexes_brackets (his : Forall₂ (Emits routines) is texts) (h : Lexes rest ts) :
    Lexes (texts.flatMap (fun i => '[' :: (i.toList ++ [']'])) ++ rest)
      ((terminalsEach routines is).flatMap (fun us => .sign "[" :: (us ++ [.sign "]"])) ++ ts) := by
  induction his with
  | nil => exact h
  | cons hi _ ih =>
    have hclose := ih.bracket "]" ']' (by decide) rfl
    have hindex := hi.lexes_zero (by simp [Behind]) hclose
    simpa [terminalsEach] using hindex.bracket "[" '[' (by decide) rfl

lemma toCEach_eq (h : Forall₂ (Emits routines) es texts) : toCEach routines es = .ok texts := by
  induction h with
  | nil => rfl
  | cons he _ ih =>
    rw [toCEach, he.toC, ih]
    rfl

lemma emits_index {a : Expr} (haccess : isAccess a) (ha : Emits routines a text)
    (his : Forall₂ (Emits routines) is texts) :
    Emits routines (.index s a is) (text ++ .join (texts.map fun i => "[" ++ i ++ "]")) := by
  have htoC : (index s a is).toC routines = .ok (text ++ .join (texts.map fun i => "[" ++ i ++ "]")) := by
    rw [toC, toCEach_eq his, ha.toC]
    rfl
  obtain ⟨c, htext, hc⟩ := ha.front
  refine ⟨htoC, ⟨c, by simp [head?_append, htext], hc⟩, fun {n rest ts} hrest h => ?_⟩
  have hread := ha.lexes (n := n) (fun d hd => ?_) (lexes_brackets his h)
  · simpa [terminals, flatMap_map, Function.comp_def] using hread
  · cases texts with
    | nil => exact (hrest d hd).imp_right fun hd => ⟨hd.1, haccess⟩
    | cons i texts =>
      obtain rfl : '[' = d := by simpa using hd
      exact .inl (by decide)

lemma lexes_separated {args : List Expr} (hargs : Forall₂ (Emits routines) args texts)
    (h : Lexes (')' :: rest) ts) : Lexes ([',', ' '].intercalate (texts.map String.toList) ++ ')' :: rest)
      ([Terminal.sign ","].intercalate (terminalsEach routines args) ++ ts) := by
  induction hargs with
  | nil => exact h
  | cons he hes ih =>
    cases hes with
    | nil => simpa [terminalsEach] using he.lexes_zero (by simp [Behind]) h
    | cons he' hes' =>
      have hcomma := ih.space.bracket "," ',' (by decide) rfl
      have hfirst := he.lexes_zero (by simp [Behind]) hcomma
      simpa [terminalsEach] using hfirst

lemma emits_call {args : List Expr} (hn : IsWord n) (hargs : Forall₂ (Emits routines) args texts) :
    Emits routines (.call s n args) (callee routines n ++ "(" ++ ", ".intercalate texts ++ ")") := by
  have htoC : (call s n args).toC routines = .ok (callee routines n ++ "(" ++ ", ".intercalate texts ++ ")") := by
    rw [toC, toCEach_eq hargs]
    rfl
  have hword : IsWord (callee routines n) := hn.callee
  obtain ⟨c, cs, htext, hc, -⟩ := hword.spelled
  refine .of_core htoC ⟨c, by simp [htext], standsOff_of_isAlpha hc⟩ (fun _ => rfl) fun {rest ts} _ h => ?_
  have hclose := h.bracket ")" ')' (by decide) rfl
  have hopen := (lexes_separated hargs hclose).bracket "(" '(' (by decide) rfl
  simpa [String.toList_intercalate] using hword.lexes (by simp; decide) hopen

lemma exists_emits (h : ∀ e ∈ es, ∃ text, Emits routines e text) : ∃ texts, Forall₂ (Emits routines) es texts := by
  induction es with
  | nil => exact ⟨[], .nil⟩
  | cons e es ih =>
    obtain ⟨text, he⟩ := h e mem_cons_self
    obtain ⟨texts, hes⟩ := ih fun e' he' => h e' (mem_cons_of_mem e he')
    exact ⟨text :: texts, .cons he hes⟩

/-- Every expression that is read from a text has a text in C, cut as `terminals` says. -/
lemma Spelled.emits (h : Spelled e) (routines : List String) : ∃ text, Emits routines e text := by
  induction h with
  | integer => exact ⟨_, emits_numeral rfl rfl (fun _ => rfl) (isNumeral_integer _)⟩
  | real hx =>
    cases hx with
    | finite howns he => exact ⟨_, emits_numeral rfl rfl (fun _ => rfl) (isNumeral_real (.finite howns he))⟩
    | infinite _ => exact ⟨_, emits_word ⟨⟨'i', ['n', 'f'], rfl, rfl, rfl⟩, by decide, by decide⟩ rfl fun _ => rfl⟩
  | boolean => exact ⟨_, emits_boolean⟩
  | char => exact ⟨_, .of_core rfl ⟨'\'', by simp, rfl⟩ (fun _ => rfl) fun _ h => h.quotedChar⟩
  | string => exact ⟨_, .of_core rfl ⟨'"', by simp [literal], rfl⟩ (fun _ => rfl) fun _ h => h.quotedString⟩
  | name hn => exact ⟨_, emits_word hn rfl fun _ => rfl⟩
  | binary _ _ ihl ihr =>
    obtain ⟨left, hl⟩ := ihl
    obtain ⟨right, hr⟩ := ihr
    exact ⟨_, emits_binary hl hr⟩
  | unary _ ih =>
    obtain ⟨text, he⟩ := ih
    exact ⟨_, emits_unary he⟩
  | paren _ ih =>
    obtain ⟨text, he⟩ := ih
    exact ⟨_, emits_paren he⟩
  | index haccess _ _ iha ihis =>
    obtain ⟨text, ha⟩ := iha
    obtain ⟨texts, his⟩ := exists_emits ihis
    exact ⟨_, emits_index haccess ha his⟩
  | field haccess _ hf ih =>
    obtain ⟨text, ho⟩ := ih
    exact ⟨_, emits_field haccess ho hf⟩
  | call hn _ ih =>
    obtain ⟨texts, hargs⟩ := exists_emits ih
    exact ⟨_, emits_call hn hargs⟩

end AlgoLang.CGrammar
