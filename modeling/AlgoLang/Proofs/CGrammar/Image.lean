/-
# The tree of C that an expression is meant to be

`image` is the tree that an expression should be to C; its table of operations does not rest on the one that
the text is made with.  `isFit` says which expressions are read so: no minus sign stands right before another,
for C takes two of them as one step, no name is reserved in C, and no literal is beyond the floating point
numbers.
-/
import AlgoLang.Proofs.CGrammar.Literal
import AlgoLang.Proofs.Grammar
import AlgoLang.Proofs.Token.Tiling

namespace AlgoLang.CGrammar

open Binary64

variable {t : Token}

/-! ## Expressions as trees -/

/-- The operation of C for one with two operands. -/
def operation : BinaryOp → Tree → Tree → Tree
  | .add => .binary "+"
  | .sub => .binary "-"
  | .mul => .binary "*"
  | .div | .intDiv => .binary "/"
  | .mod => .binary "%"
  | .pow => fun A B => .call (.name "pow") [A, B]
  | .eq => .binary "=="
  | .ne => .binary "!="
  | .lt => .binary "<"
  | .gt => .binary ">"
  | .le => .binary "<="
  | .ge => .binary ">="
  | .and => .binary "&&"
  | .or => .binary "||"

mutual

/-- The tree of an expression.  The two nodes that reading never yields have none; they get a name
that no text has. -/
def image (routines : List String) : Expr → Tree
  | .integer _ n => .constant (.integer n.toNat)
  | .real _ x => .constant (.floating x)
  | .boolean _ b => .constant (.truth b)
  | .char _ s => .constant (.char s)
  | .string _ s => .constant (.string s)
  | .name _ n => .name n
  | .binary _ op l r => operation op (image routines l) (image routines r)
  | .unary _ .neg e => .unary "-" (image routines e)
  | .unary _ .not e => .unary "!" (image routines e)
  | .paren _ e => image routines e
  | .index _ a is => (images routines is).foldl .index (image routines a)
  | .field _ o f => .member "." (image routines o) f
  | .call _ n args => .call (.name (C.callee routines n)) (images routines args)
  | .unknown _ | .missing => .name ""

def images (routines : List String) : List Expr → List Tree
  | [] => []
  | e :: es => image routines e :: images routines es

end

/-- A minus sign and its operand. -/
def isNegation : Expr → Bool
  | .unary _ .neg _ => true
  | _ => false

mutual

/-- C reads the text of the expression as its tree. -/
def isFit (routines : List String) : Expr → Bool
  | .real _ (.finite ..) => true
  | .real .. => false
  | .name _ n => n ∉ keywords
  | .binary _ _ l r => isFit routines l && isFit routines r
  | .unary _ .neg e => !isNegation e && isFit routines e
  | .unary _ .not e => isFit routines e
  | .paren _ e => isFit routines e
  | .index _ a is => isFit routines a && areFit routines is
  | .field _ o f => isFit routines o && f ∉ keywords
  | .call _ n args => C.callee routines n ∉ keywords && areFit routines args
  | _ => true

def areFit (routines : List String) : List Expr → Bool
  | [] => true
  | e :: es => isFit routines e && areFit routines es

end

/-! ## Expressions that are read from a text -/

/-- A name of a program, or one that a call of a built-in function is given. -/
structure IsWord (w : String) : Prop where
  spelled : ∃ c cs, w.toList = c :: cs ∧ c.isAlpha = true ∧ cs.all isWordChar = true
  not_true : w ≠ "true"
  not_false : w ≠ "false"

/-- A name, a call, or what indices and fields of one reach. -/
def isAccess : Expr → Bool
  | .name .. | .call .. | .index .. | .field .. => true
  | _ => false

/-- An expression made of the literals and names that a text can have. -/
inductive Spelled : Expr → Prop
  | integer {s : Option Span} {n : Nat} : Spelled (.integer s n)
  | real {s : Option Span} {q : ℚ} {x : Binary64} : RoundsTo q x → Spelled (.real s x)
  | boolean {s : Option Span} {b : Bool} : Spelled (.boolean s b)
  | char {s : Option Span} {c : Char} : Spelled (.char s (String.singleton c))
  | string {s : Option Span} {v : String} : Spelled (.string s v)
  | name {s : Option Span} {n : String} : IsWord n → Spelled (.name s n)
  | binary {s : Option Span} {op : BinaryOp} {l r : Expr} : Spelled l → Spelled r → Spelled (.binary s op l r)
  | unary {s : Option Span} {op : UnaryOp} {e : Expr} : Spelled e → Spelled (.unary s op e)
  | paren {s : Option Span} {e : Expr} : Spelled e → Spelled (.paren s e)
  | index {s : Option Span} {a : Expr} {is : List Expr} :
      isAccess a = true → Spelled a → (∀ i ∈ is, Spelled i) → Spelled (.index s a is)
  | field {s : Option Span} {o : Expr} {f : String} : isAccess o = true → Spelled o → IsWord f → Spelled (.field s o f)
  | call {s : Option Span} {n : String} {args : List Expr} :
      IsWord n → (∀ a ∈ args, Spelled a) → Spelled (.call s n args)

end AlgoLang.CGrammar

namespace AlgoLang.Token

open CGrammar

variable {cs : List Char} {kind : TokenKind} {v : String}

lemma Run.lexeme {file done ahead s} (h : Run file done ahead s) :
    ∀ t ∈ s.tokens, ∃ c cs, (lexeme c cs).outcome = .ok (t.kind, t.value) := by
  induction h with
  | stop _ => simp
  | token _ hlexeme _ ih =>
    intro t ht
    rcases List.mem_cons.mp ht with rfl | ht
    · exact ⟨_, _, hlexeme⟩
    · exact ih t ht
  | fault _ _ _ ih => exact ih

lemma numberLexeme_kind (h : (numberLexeme cs).outcome = .ok (kind, v)) : kind = .integer ∨ kind = .real := by
  unfold numberLexeme at h
  dsimp only at h
  split at h
  · split at h
    · cases h
      exact .inl rfl
    · cases h
      exact .inr rfl
  · cases h
    exact .inl rfl

/-- A token that is neither a mark nor a string nor a number is a character or a name. -/
lemma lexeme_cases {c} (h : (lexeme c cs).outcome = .ok (kind, v)) : (∃ m, kind = .mark m) ∨
    kind ∈ [.string, .integer, .real] ∨ (charLexeme cs).outcome = .ok (kind, v) ∨
      c.isAlpha ∧ (nameLexeme (c :: cs)).outcome = .ok (kind, v) := by
  unfold lexeme at h
  split at h
  case h_8 => cases h
  case h_9 =>
    unfold stringLexeme at h
    split at h <;> cases h
    exact .inr (.inl (by simp))
  case h_10 => exact .inr (.inr (.inl h))
  case h_11 =>
    split at h
    · cases h
      exact .inl ⟨_, rfl⟩
    · split at h
      · rcases numberLexeme_kind h with rfl | rfl <;> simp
      · split at h
        next hc => exact .inr (.inr (.inr ⟨hc, h⟩))
        · cases h
  all_goals
    cases h
    exact .inl ⟨_, rfl⟩

lemma isWord_nameLexeme {c} (hc : c.isAlpha)
    (h : (nameLexeme (c :: cs)).outcome = .ok (.identifier, v)) : IsWord v ∧ Keyword.ofName? v = none := by
  unfold nameLexeme at h
  dsimp only at h
  split at h <;> cases h
  rename_i hname
  have hfront : (c :: cs).takeWhile isNameChar = c :: cs.takeWhile isNameChar := by
    simp [isNameChar, Char.isAlphanum, hc]
  rw [hfront] at hname ⊢
  refine ⟨⟨⟨c, _, String.toList_ofList, hc, ?_⟩, ?_, ?_⟩, hname⟩
  · exact List.all_takeWhile
  · intro htrue
    rw [htrue] at hname
    exact absurd hname (by decide)
  · intro hfalse
    rw [hfalse] at hname
    exact absurd hname (by decide)

lemma singleton_charLexeme (h : (charLexeme cs).outcome = .ok (kind, v)) :
    kind = .char ∧ ∃ c, v = .singleton c := by
  unfold charLexeme at h
  split at h <;> cases h
  · exact ⟨rfl, _, rfl⟩
  · exact ⟨rfl, _, rfl⟩

lemma isWord_of_mem_scan {source file}
    (ht : t ∈ (scan source file).tokens) (hkind : t.kind = .identifier) : IsWord t.value ∧ Keyword.ofName? t.value = none := by
  obtain ⟨c, cs, hlexeme⟩ := (scan_run source file).lexeme t ht
  rw [hkind] at hlexeme
  rcases lexeme_cases hlexeme with ⟨m, hm⟩ | hkind | hchar | ⟨hc, hname⟩
  · cases hm
  · simp at hkind
  · cases (singleton_charLexeme hchar).1
  · exact isWord_nameLexeme hc hname

lemma singleton_of_mem_scan {source file}
    (ht : t ∈ (scan source file).tokens) (hkind : t.kind = .char) : ∃ c, t.value = .singleton c := by
  obtain ⟨c, cs, hlexeme⟩ := (scan_run source file).lexeme t ht
  rw [hkind] at hlexeme
  rcases lexeme_cases hlexeme with ⟨m, hm⟩ | hkind | hchar | ⟨hc, hname⟩
  · cases hm
  · simp at hkind
  · exact (singleton_charLexeme hchar).2
  · unfold nameLexeme at hname
    dsimp only at hname
    split at hname <;> cases hname

end AlgoLang.Token

namespace AlgoLang.Grammar

open CGrammar Token

variable {source file : String}

lemma IsLiteral.spelled {e} (h : IsLiteral t e) (ht : t ∈ (scan source file).tokens) : Spelled e := by
  cases h with
  | integer _ => exact .integer
  | real _ => exact .real (Binary64.ofDecimal_roundsTo _ _)
  | string _ => exact .string
  | char hkind =>
    obtain ⟨c, hc⟩ := singleton_of_mem_scan ht hkind
    rw [hc]
    exact .char
  | yes _ => exact .boolean
  | no _ => exact .boolean

mutual

/-- What is derived from scanned tokens is spelled. -/
lemma IsExpr.spelled {k ts e} : IsExpr k ts e → (∀ t ∈ ts, t ∈ (scan source file).tokens) → Spelled e
  | .tighten _ h, hts => h.spelled hts
  | .binary _ _ ha hb, hts =>
    .binary (ha.spelled fun t ht => hts t (by simp [ht])) (hb.spelled fun t ht => hts t (by simp [ht]))
  | .power _ ha hb, hts =>
    .binary (ha.spelled fun t ht => hts t (by simp [ht])) (hb.spelled fun t ht => hts t (by simp [ht]))
  | .sign _ h, hts => .unary (h.spelled fun t ht => hts t (by simp [ht]))
  | .paren _ h _, hts => .paren (h.spelled fun t ht => hts t (by simp [ht]))
  | .literal h, hts => h.spelled (hts _ (by simp))
  | .access h, hts => (h.spelled hts).2

lemma IsAccess.spelled {called ts e} :
    IsAccess called ts e → (∀ t ∈ ts, t ∈ (scan source file).tokens) → isAccess e ∧ Spelled e
  | .name hn, hts => ⟨rfl, .name (isWord_of_mem_scan (hts _ (by simp)) hn).1⟩
  | .call hn _ hargs _, hts =>
    ⟨rfl, .call (isWord_of_mem_scan (hts _ (by simp)) hn).1 (hargs.spelled fun t ht => hts t (by simp [ht]))⟩
  | .index ha _ _ his _, hts => by
    obtain ⟨haccess, ha⟩ := ha.spelled fun t ht => hts t (by simp [ht])
    exact ⟨rfl, .index haccess ha (his.spelled fun t ht => hts t (by simp [ht]))⟩
  | .further ha _ hjs _, hts => by
    obtain ⟨-, ha⟩ := ha.spelled fun t ht => hts t (by simp [ht])
    cases ha with
    | index haccess ha his =>
      have hjs := hjs.spelled fun t ht => hts t (by simp [ht])
      exact ⟨rfl, .index haccess ha fun i hi => (List.mem_append.mp hi).elim (his i) (hjs i)⟩
  | .field ha _ hf, hts => by
    obtain ⟨haccess, ha⟩ := ha.spelled fun t ht => hts t (by simp [ht])
    exact ⟨rfl, .field haccess ha (isWord_of_mem_scan (hts _ (by simp)) hf).1⟩

lemma IsExprs.spelled {ts es} : IsExprs ts es → (∀ t ∈ ts, t ∈ (scan source file).tokens) → ∀ e ∈ es, Spelled e
  | .one h, hts => by simpa using h.spelled hts
  | .more h _ hs, hts => by
    have he := h.spelled fun t ht => hts t (by simp [ht])
    have hes := hs.spelled fun t ht => hts t (by simp [ht])
    simpa using ⟨he, hes⟩

lemma IsArguments.spelled {ts es} : IsArguments ts es → (∀ t ∈ ts, t ∈ (scan source file).tokens) → ∀ e ∈ es, Spelled e
  | .none, _ => by simp
  | .some h, hts => h.spelled hts

end

end AlgoLang.Grammar
