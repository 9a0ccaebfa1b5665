/-
# Expressions that are derived are read

The reader of a tier reads every phrase of the tier, up to a token that does not carry the phrase on; which
tokens do is a matter of rank (`binds`).  Operators that group to the left are derived from the left, but read
by a loop.  So what is shown of these tiers by induction is that after the phrase the loop goes on as if it had
just read it (`Continues`); `Extends` says the same of a name and the indices and fields behind it.
-/
import AlgoLang.Expr.Parse
import AlgoLang.Proofs.Grammar
import AlgoLang.Proofs.Reading

namespace AlgoLang.Grammar

open Expr Reading List

section

variable {e : Expr} {t : Token} {ts : List Token} {kind : TokenKind} {l : Level}

/-! ## Stretches of source -/

lemma spanning_of_ends {a b} (ha : ts.head? = some a)
    (hb : ts.getLast? = some b) : spanning ts = some (a.through b) := by
  simp [spanning, ha, hb]

mutual

lemma IsExpr.ne_nil {k ts e} : IsExpr k ts e → ts ≠ []
  | .tighten _ h => h.ne_nil
  | .binary .. | .power .. | .sign .. | .paren .. | .literal .. => by simp
  | .access h => h.ne_nil

lemma IsAccess.ne_nil {called ts e} : IsAccess called ts e → ts ≠ []
  | .name .. | .call .. | .index .. | .further .. | .field .. => by simp

end

lemma head?_append_of_ne_nil {α : Type} {xs : List α} (h : xs ≠ []) (ys : List α) : (xs ++ ys).head? = xs.head? := by
  cases xs with
  | nil => exact absurd rfl h
  | cons x xs => rfl

lemma IsAccess.span_eq {called} (h : IsAccess called ts e) : e.span = spanning ts := by
  cases h <;> rfl

lemma IsLiteral.span_eq (h : IsLiteral t e) : e.span = spanning [t] := by
  cases h <;> rfl

lemma IsExpr.span_eq {k ts e} : IsExpr k ts e → e.span = spanning ts
  | .tighten _ h => h.span_eq
  | .binary .. | .power .. | .sign .. | .paren .. => rfl
  | .literal h => h.span_eq
  | .access h => h.span_eq

lemma exists_ends (h : ts ≠ []) : ∃ a b, ts.head? = some a ∧ ts.getLast? = some b :=
  ⟨ts.head h, ts.getLast h, head?_eq_some_head h, getLast?_eq_some_getLast h⟩

/-- Two operands and the token between them reach from the start of the one to the end of the other. -/
lemma IsExpr.spanOver_eq {k k' xs ys a b} (t : Token)
    (ha : IsExpr k xs a) (hb : IsExpr k' ys b) : spanOver a b = spanning (xs ++ t :: ys) := by
  obtain ⟨x, x', hx, hx'⟩ := exists_ends ha.ne_nil
  obtain ⟨y, y', hy, hy'⟩ := exists_ends hb.ne_nil
  have hhead : (xs ++ t :: ys).head? = some x := by rw [head?_append_of_ne_nil ha.ne_nil, hx]
  have hlast : (xs ++ t :: ys).getLast? = some y' := by simp [getLast?_append, getLast?_cons, hy']
  rw [spanOver, ha.span_eq, hb.span_eq, spanning_of_ends hx hx', spanning_of_ends hy hy', spanning_of_ends hhead hlast]
  rfl

/-! ## Tables

The tables of the reader are those of the grammar. -/

/-- The tier of a level of operators. -/
def tierOf : Expr.Level → Tier
  | .disjunction => .disjunction
  | .conjunction => .conjunction
  | .comparison => .relation
  | .sum => .sum
  | .product => .product

lemma tighter_tierOf : (tierOf l).tighter = some (l.tighter.elim .power tierOf) := by
  cases l <;> rfl

lemma op?_eq_some_iff {op} : l.op? kind = some op ↔ (kind, op) ∈ (tierOf l).operators := by
  constructor
  · intro h
    unfold Level.op? at h
    split at h <;> cases h <;> decide
  · have hall : ∀ p ∈ (tierOf l).operators, l.op? p.1 = some p.2 := by cases l <;> decide
    exact hall (kind, op)

lemma sign?_eq_some_iff {op} : sign? kind = some op ↔ (kind, op) ∈ signs := by
  constructor
  · intro h
    unfold sign? at h
    split at h <;> cases h <;> decide
  · have hall : ∀ p ∈ signs, sign? p.1 = some p.2 := by decide
    exact hall (kind, op)

/-! ## Literals -/

lemma IsLiteral.literal?_eq (h : IsLiteral t e)
    (hs : t.kind = .integer → t.value.length ≤ maxDigits) : literal? t = .ok (some e) := by
  cases h with
  | integer hk =>
    have hlen : t.value.toList.length ≤ maxDigits := hs hk
    simp only [literal?, hk, Numeral.read, hlen, if_true]
    rfl
  | real hk | string hk | char hk | yes hk | no hk =>
    simp only [literal?, hk]
    rfl

/-- A token is readable unless it is a numeral that is too long. -/
lemma exists_literal?_iff : (∃ e, literal? t = .ok e) ↔ (t.kind = .integer → t.value.length ≤ maxDigits) := by
  constructor
  · rintro ⟨e, he⟩ hk
    refine Decidable.byContradiction fun hlong => ?_
    have hread : ¬t.value.toList.length ≤ maxDigits := hlong
    simp [literal?, hk, Numeral.read, hread] at he
  · intro hs
    unfold literal?
    split
    · next hk =>
      have hlen : t.value.toList.length ≤ maxDigits := hs hk
      simp only [Numeral.read, hlen, if_true]
      exact ⟨_, rfl⟩
    all_goals exact ⟨_, rfl⟩

end

variable {ts : List Token} {k : Tier} {l : Level} {c o start : Token} {n : Nat} {es : List Expr}
  {kind : TokenKind} {op : BinaryOp}
variable {rest : List Token} {e : Expr} {last : Token}

/-! ## What carries a phrase on -/

/-- The place of a tier, loosest first. -/
def Tier.rank : Tier → Nat
  | disjunction => 1
  | conjunction => 2
  | relation => 3
  | sum => 4
  | product => 5
  | power => 6
  | sign => 7
  | primary => 8

/-- The rank of the tier whose phrases a token can carry on; zero if it carries on none. -/
def binds : TokenKind → Nat
  | .keyword .or_ => 1
  | .keyword .and_ => 2
  | .mark .equal | .mark .notEqual | .mark .less | .mark .greater | .mark .lessEqual
  | .mark .greaterEqual => 3
  | .mark .plus | .mark .minus => 4
  | .mark .times | .mark .slash | .keyword .div | .keyword .mod => 5
  | .mark .power => 6
  | .mark .lparen | .mark .lbracket | .mark .dot => 8
  | _ => 0

/-- The next token does not carry on a phrase of the given rank or tighter. -/
def Ends (n : Nat) (rest : List Token) : Prop :=
  ∀ t, rest.head? = some t → binds t.kind < n

lemma Ends.mono {m} (h : Ends n rest) (hnm : n ≤ m) : Ends m rest :=
  fun t ht => Nat.lt_of_lt_of_le (h t ht) hnm

lemma Ends.ne (h : Ends n rest) (hk : n ≤ binds kind) (t : Token) (ht : rest.head? = some t) : t.kind ≠ kind := by
  rintro rfl
  exact absurd (h t ht) (by omega)

lemma ends_cons {t} (h : binds t.kind < n) : Ends n (t :: rest) := by
  intro u hu
  obtain rfl : t = u := by simpa using hu
  exact h

lemma ends_of {t} (h : t.kind = kind) (hn : binds kind < n := by decide) : Ends n (t :: rest) :=
  ends_cons (h ▸ hn)

lemma binds_of_mem_operators (h : (kind, op) ∈ k.operators) : binds kind = k.rank := by
  have hall : ∀ p ∈ k.operators, binds p.1 = k.rank := by cases k <;> decide
  exact hall (kind, op) h

lemma Tier.rank_tighter {k'} (h : k.tighter = some k') : k'.rank = k.rank + 1 := by
  cases k <;> cases h <;> rfl

lemma Ends.op?_eq_none (h : Ends (tierOf l).rank rest) (t : Token) (ht : rest.head? = some t) :
    l.op? t.kind = none := by
  cases hop : l.op? t.kind with
  | none => rfl
  | some op =>
    have hb := binds_of_mem_operators (op?_eq_some_iff.mp hop)
    exact absurd (h t ht) (by omega)

lemma exists_tierOf_eq {p} (h : p ∈ k.operators) : ∃ l, tierOf l = k := by
  cases k with
  | disjunction => exact ⟨.disjunction, rfl⟩
  | conjunction => exact ⟨.conjunction, rfl⟩
  | relation => exact ⟨.comparison, rfl⟩
  | sum => exact ⟨.sum, rfl⟩
  | product => exact ⟨.product, rfl⟩
  | power | sign | primary => exact absurd h not_mem_nil

/-! ## First tokens -/

/-- The tokens that an expression starts with. -/
def startsExpr : TokenKind → Bool
  | .integer | .real | .string | .char | .keyword .true_ | .keyword .false_ => true
  | .identifier | .mark .lparen | .mark .minus | .keyword .not_ => true
  | _ => false

lemma IsAccess.head {called ts e} : IsAccess called ts e → ∃ n us, ts = n :: us ∧ n.kind = .identifier ∧
      (called = false → ∀ t, us.head? = some t → t.kind ≠ .mark .lparen)
  | .name hn => ⟨_, [], rfl, hn, by simp⟩
  | .call hn _ _ _ => ⟨_, _, rfl, hn, by simp⟩
  | .index h _ ho _ _ | .further h ho _ _ => by
    obtain ⟨n, us, rfl, hn, hus⟩ := h.head
    refine ⟨n, _, rfl, hn, ?_⟩
    cases us with
    | nil => simp [ho]
    | cons u us => exact hus
  | .field h hd _ => by
    obtain ⟨n, us, rfl, hn, hus⟩ := h.head
    refine ⟨n, _, rfl, hn, ?_⟩
    cases us with
    | nil => simp [hd]
    | cons u us => exact hus

lemma IsExpr.sign?_head (h : IsExpr .primary ts e) : ∃ t us, ts = t :: us ∧ sign? t.kind = none := by
  cases h with
  | tighten hk _ => cases hk
  | binary hk _ _ _ => cases hk
  | paren ho _ _ => exact ⟨_, _, rfl, by simp [ho, sign?]⟩
  | literal h =>
    cases h with
    | integer hk | real hk | string hk | char hk | yes hk | no hk => simp [hk, sign?]
  | access h =>
    obtain ⟨n, us, rfl, hn, -⟩ := h.head
    exact ⟨n, us, rfl, by simp [hn, sign?]⟩

lemma IsExpr.starts {k ts e} : IsExpr k ts e → ∃ t us, ts = t :: us ∧ startsExpr t.kind
  | .tighten _ h => h.starts
  | .binary _ _ h _ | .power _ h _ => by
    obtain ⟨t, us, rfl, ht⟩ := h.starts
    exact ⟨t, _, rfl, ht⟩
  | .sign ht _ => by
    have hall : ∀ p ∈ signs, startsExpr p.1 := by decide
    exact ⟨_, _, rfl, hall _ ht⟩
  | .paren ho _ _ => ⟨_, _, rfl, by simp [ho, startsExpr]⟩
  | .literal h => by
    refine ⟨_, [], rfl, ?_⟩
    cases h with
    | integer hk | real hk | string hk | char hk | yes hk | no hk => simp [hk, startsExpr]
  | .access h => by
    obtain ⟨n, us, rfl, hn, -⟩ := h.head
    exact ⟨n, us, rfl, by simp [hn, startsExpr]⟩

lemma IsExprs.starts (h : IsExprs ts es) : ∃ t us, ts = t :: us ∧ startsExpr t.kind := by
  cases h with
  | one h => exact h.starts
  | more h _ _ =>
    obtain ⟨t, us, rfl, ht⟩ := h.starts
    exact ⟨t, _, rfl, ht⟩

/-! ## The readers, one step at a time -/

def Tier.read : Tier → (toks : List Token) → Reading Expr toks
  | disjunction => Expr.parseAt .disjunction
  | conjunction => Expr.parseAt .conjunction
  | relation => Expr.parseAt .comparison
  | sum => Expr.parseAt .sum
  | product => Expr.parseAt .product
  | power => Expr.parsePower
  | sign => Expr.parseSigned
  | primary => Expr.parsePrimary

section

variable {toks toks₁ rest : List Token} {t last last₁ : Token} {e a b : Expr}

lemma parseMore_gives (hk : (tierOf l).tighter = some k)
    (hop : l.op? t.kind = some op) (hb : Gives (k.read toks) b last₁ toks₁)
    (hmore : Yields (parseMore l (.binary (a.spanOver b) op a b) last₁ toks₁) e last rest)
    (last₀ : Token) : Yields (parseMore l a last₀ (t :: toks)) e last rest := by
  rw [parseMore]
  simp only [hop]
  cases l <;> cases hk <;> exact hb.bind_yields fun _ => hmore.bind fun _ => ⟨_, rfl⟩

lemma parseMore_stops (a : Expr) (last : Token) (h : ∀ t, rest.head? = some t → l.op? t.kind = none) :
    Yields (parseMore l a last rest) a last rest := by
  rw [parseMore.eq_def]
  cases rest with
  | nil => exact ⟨_, rfl⟩
  | cons t rest =>
    simp only [h t rfl]
    exact ⟨_, rfl⟩

lemma parseSuffixes_stops (a : Expr) (start last : Token) (h : ∀ t, rest.head? = some t → t.kind ≠ .mark .lbracket ∧
    t.kind ≠ .mark .dot) : Yields (parseSuffixes a start last rest) a last rest := by
  rw [parseSuffixes.eq_def]
  cases rest with
  | nil => exact ⟨_, rfl⟩
  | cons t rest =>
    obtain ⟨hb, hd⟩ := h t rfl
    dsimp only
    split
    · contradiction
    · contradiction
    · exact ⟨_, rfl⟩

end

/-! ## Phrases with something behind them -/

/-- The reader of the tier reads the phrase, whatever comes behind it that does not carry it on. -/
def Reads (k : Tier) (ts : List Token) (e : Expr) : Prop :=
  ∀ last rest, ts.getLast? = some last → Ends k.rank rest → Gives (k.read (ts ++ rest)) e last rest

/-- The reader of the level reads the phrase and goes on with the operators behind it. -/
def Continues (l : Expr.Level) (ts : List Token) (e : Expr) : Prop :=
  ∀ last rest v last' rest', ts.getLast? = some last → Ends ((tierOf l).rank + 1) rest →
    Yields (Expr.parseMore l e last rest) v last' rest' → Gives (Expr.parseAt l (ts ++ rest)) v last' rest'

lemma read_tierOf (l : Level) : (tierOf l).read = parseAt l := by
  cases l <;> rfl

lemma Continues.reads (h : Continues l ts e) : Reads (tierOf l) ts e := by
  intro last rest hlast hrest
  rw [read_tierOf]
  exact h last rest e last rest hlast (hrest.mono (Nat.le_succ _)) (parseMore_stops e last hrest.op?_eq_none)

lemma Reads.continues (hk : (tierOf l).tighter = some k) (h : Reads k ts e) : Continues l ts e := by
  intro last rest v last' rest' hlast hrest hmore
  rw [← Tier.rank_tighter hk] at hrest
  rw [parseAt]
  cases l <;> cases hk <;> exact (h last rest hlast hrest).bind fun _ => hmore.bind_gives fun _ => ⟨_, rfl⟩

/-- What a derivation of a tier gives: its reader reads the phrase, and if operators of the tier
group to the left, goes on with them. -/
def Read (k : Tier) (ts : List Token) (e : Expr) : Prop :=
  Reads k ts e ∧ ∀ l, tierOf l = k → Continues l ts e

lemma Continues.read (h : Continues l ts e) : Read (tierOf l) ts e := by
  refine ⟨h.reads, fun l' hl => ?_⟩
  obtain rfl : l' = l := by revert hl; cases l <;> cases l' <;> decide
  exact h

lemma Reads.read_power (h : Reads .power ts e) : Read .power ts e :=
  ⟨h, fun l hl => by cases l <;> cases hl⟩

lemma Reads.read_sign (h : Reads .sign ts e) : Read .sign ts e :=
  ⟨h, fun l hl => by cases l <;> cases hl⟩

lemma Reads.read_primary (h : Reads .primary ts e) : Read .primary ts e :=
  ⟨h, fun l hl => by cases l <;> cases hl⟩

lemma Read.tighten {k'} (hk : k.tighter = some k') (he : IsExpr k' ts e) (h : Read k' ts e) : Read k ts e := by
  cases k with
  | disjunction => exact Continues.read (l := .disjunction) (h.1.continues hk)
  | conjunction => exact Continues.read (l := .conjunction) (h.1.continues hk)
  | relation => exact Continues.read (l := .comparison) (h.1.continues hk)
  | sum => exact Continues.read (l := .sum) (h.1.continues hk)
  | product => exact Continues.read (l := .product) (h.1.continues hk)
  | power =>
    obtain rfl : .sign = k' := by simpa [Tier.tighter] using hk
    refine Reads.read_power fun last rest hlast hrest => ?_
    have hpower := hrest.ne (show _ ≤ binds (.mark .power) by decide)
    rw [Tier.read, parsePower]
    refine (h.1 last rest hlast (hrest.mono (by decide))).bind fun _ => ?_
    simp only [take?_eq_none hpower]
    exact ⟨_, rfl⟩
  | sign =>
    obtain rfl : .primary = k' := by simpa [Tier.tighter] using hk
    obtain ⟨t, us, rfl, ht⟩ := he.sign?_head
    refine Reads.read_sign fun last rest hlast hrest => ?_
    rw [Tier.read, cons_append, parseSigned]
    simp only [ht]
    exact h.1 last rest hlast (hrest.mono (by decide))
  | primary => cases hk

/-- The reader of primaries reads the name or call and goes on with the indices and fields behind it. -/
def Extends (ts : List Token) (e : Expr) : Prop :=
  ∀ start last rest v last' rest', ts.head? = some start → ts.getLast? = some last →
    (∀ t, rest.head? = some t → t.kind ≠ .mark .lparen) →
    Yields (Expr.parseSuffixes e start last rest) v last' rest' →
    Gives (Expr.parsePrimary (ts ++ rest)) v last' rest'

/-- The list is read, and the bracket, colon or statement behind it is left. -/
def Listed (ts : List Token) (es : List Expr) : Prop :=
  ∀ rest, Ends 1 rest → (∀ t, rest.head? = some t → t.kind ≠ .mark .comma) →
    ∃ last, Gives (Expr.parseList (ts ++ rest)) es last rest

lemma Expr.withIndices_of_ne (h : ∀ s a js, e ≠ .index s a js) (span : Span) (is : List Expr) :
    e.withIndices span is = .index span e is := by
  unfold withIndices
  split
  · next s a js => exact absurd rfl (h s a js)
  · rfl

lemma IsExpr.getLast?_eq {t xs ys} (h : IsExpr k ys e)
    (hlast : (xs ++ t :: ys).getLast? = some last) : ys.getLast? = some last := by
  obtain ⟨-, b, -, hb⟩ := exists_ends h.ne_nil
  simpa [getLast?_append, getLast?_cons, hb] using hlast

lemma Extends.index {last' xs ys rest' v is} (h : Extends xs e) (hxs : xs ≠ []) (ho : o.kind = .mark .lbracket)
    (his : Listed ys is) (hc : c.kind = .mark .rbracket) (hstart : (xs ++ o :: (ys ++ [c])).head? = some start)
    (hmore : Yields (parseSuffixes (e.withIndices (start.through c) is) start c rest) v last' rest') :
    Gives (parsePrimary (xs ++ o :: (ys ++ c :: rest))) v last' rest' := by
  rw [head?_append_of_ne_nil hxs] at hstart
  obtain ⟨-, x, -, hx⟩ := exists_ends hxs
  obtain ⟨last₁, hlist⟩ := his (c :: rest) (ends_of hc) (by simp [hc])
  refine h start x _ v last' rest' hstart hx (by simp [ho]) ?_
  rw [parseSuffixes]
  simp only [ho]
  exact hlist.bind_yields fun _ => (expect_gives hc).bind_yields fun _ => hmore.bind fun _ => ⟨_, rfl⟩

/-! ## Completeness -/

mutual

lemma IsExpr.read {k ts e} : IsExpr k ts e → Short ts → Read k ts e
  | .tighten hk h, hs => (h.read hs).tighten hk h
  | @IsExpr.binary _ _ t _ _ ys _ _ hk hop ha hb, hs => by
    have iha := ha.read hs.left
    have ihb := hb.read hs.right.tail
    obtain ⟨l, rfl⟩ := exists_tierOf_eq hop
    refine Continues.read fun last rest v last' rest' hlast hrest hmore => ?_
    obtain ⟨-, a', -, ha'⟩ := exists_ends ha.ne_nil
    have hlastb : ys.getLast? = some last := hb.getLast?_eq hlast
    have hbinds := binds_of_mem_operators hop
    rw [← ha.spanOver_eq t hb] at hmore
    rw [← Tier.rank_tighter hk] at hrest
    rw [append_assoc]
    exact iha.2 l rfl a' _ v last' rest' ha' (ends_cons (by omega))
      (parseMore_gives hk (op?_eq_some_iff.mpr hop) (ihb.1 last rest hlastb hrest) hmore a')
  | @IsExpr.power t _ ys _ _ ht ha hb, hs => by
    have iha := ha.read hs.left
    have ihb := hb.read hs.right.tail
    refine Reads.read_power fun last rest hlast hrest => ?_
    obtain ⟨-, a', -, ha'⟩ := exists_ends ha.ne_nil
    have hlastb : ys.getLast? = some last := hb.getLast?_eq hlast
    rw [← ha.spanOver_eq t hb, append_assoc]
    rw [Tier.read, parsePower]
    refine (iha.1 a' _ ha' (ends_of ht)).bind fun _ => ?_
    simp only [cons_append, take?_cons _ ht]
    exact (ihb.1 last rest hlastb hrest).bind fun _ => ⟨_, rfl⟩
  | @IsExpr.sign t _ ts _ ht h, hs => by
    have ih := h.read hs.tail
    refine Reads.read_sign fun last rest hlast hrest => ?_
    have hlast' : ts.getLast? = some last := h.getLast?_eq (show ([] ++ t :: ts).getLast? = _ from hlast)
    rw [spanning_of_ends rfl hlast, cons_append, Tier.read, parseSigned]
    simp only [sign?_eq_some_iff.mpr ht]
    exact (ih.1 last rest hlast' hrest).bind fun _ => ⟨_, rfl⟩
  | .paren (c := c) ho h hc, hs => by
    have ih := h.read hs.tail.left
    refine Reads.read_primary fun last rest hlast hrest => ?_
    obtain rfl : c = last := by simpa [getLast?_cons] using hlast
    obtain ⟨-, e', -, he'⟩ := exists_ends h.ne_nil
    rw [spanning_of_ends rfl hlast, cons_append, append_assoc, Tier.read, parsePrimary]
    simp only [ho]
    exact (ih.1 e' (c :: rest) he' (ends_of hc)).bind fun _ =>
      (expect_gives hc).bind fun _ => ⟨_, rfl⟩
  | .literal (t := t) h, hs => by
    refine Reads.read_primary fun last rest hlast _ => ?_
    obtain rfl : t = last := by simpa using hlast
    have hread := h.literal?_eq hs.head
    rw [singleton_append, Tier.read, parsePrimary]
    split
    · next hk => simp [literal?, hk] at hread
    · next hk => simp [literal?, hk] at hread
    · rw [hread]
      exact ⟨_, rfl⟩
  | .access h, hs => by
    have ih := h.extends hs
    refine Reads.read_primary fun last rest hlast hrest => ?_
    obtain ⟨start, -, hstart, -⟩ := exists_ends h.ne_nil
    exact ih start last rest _ last rest hstart hlast (hrest.ne (by decide))
      (parseSuffixes_stops _ start last fun t ht => ⟨hrest.ne (by decide) t ht, hrest.ne (by decide) t ht⟩)

lemma IsAccess.extends {called ts e} : IsAccess called ts e → Short ts → Extends ts e
  | .name hn, _ => by
    intro start last rest v last' rest' hstart hlast hrest hmore
    cases hstart
    cases hlast
    rw [singleton_append, parsePrimary]
    simp only [hn, take?_eq_none hrest]
    exact hmore.bind_gives fun _ => ⟨_, rfl⟩
  | .call (c := c) hn ho hargs hc, hs => by
    have ih := hargs.gives hs.tail.tail.left hc
    intro start last rest v last' rest' hstart hlast hrest hmore
    rw [spanning_of_ends hstart hlast] at hmore
    cases hstart
    obtain rfl : c = last := by simpa [getLast?_cons] using hlast
    rw [cons_append, cons_append, append_assoc, parsePrimary]
    simp only [hn, take?_cons _ ho]
    exact (ih rest).bind fun _ => hmore.bind_gives fun _ => ⟨_, rfl⟩
  | .index (c := c) h hne ho his hc, hs => by
    have ihe := h.extends hs.left
    have ihis := his.gives hs.right.tail.left
    intro start last rest v last' rest' hstart hlast hrest hmore
    obtain rfl : c = last := by simpa [getLast?_cons] using hlast
    rw [spanning_of_ends hstart hlast, ← Expr.withIndices_of_ne hne] at hmore
    rw [append_assoc, cons_append, append_assoc]
    exact ihe.index h.ne_nil ho ihis hc hstart hmore
  | .further (c := c) h ho his hc, hs => by
    have ihe := h.extends hs.left
    have ihis := his.gives hs.right.tail.left
    intro start last rest v last' rest' hstart hlast hrest hmore
    obtain rfl : c = last := by simpa [getLast?_cons] using hlast
    rw [spanning_of_ends hstart hlast] at hmore
    rw [append_assoc, cons_append, append_assoc]
    exact ihe.index h.ne_nil ho ihis hc hstart hmore
  | @IsAccess.field _ _ f xs _ h hd hf, hs => by
    have ihe := h.extends hs.left
    intro start last rest v last' rest' hstart hlast hrest hmore
    have hstart' : xs.head? = some start := by rwa [← head?_append_of_ne_nil h.ne_nil]
    obtain ⟨-, x, -, hx⟩ := exists_ends h.ne_nil
    obtain rfl : f = last := by simpa using hlast
    rw [spanning_of_ends hstart hlast] at hmore
    rw [append_assoc]
    refine ihe start x _ v last' rest' hstart' hx (by simp [hd]) ?_
    rw [cons_append, parseSuffixes]
    simp only [hd]
    exact (expectName_gives hf).bind_yields fun _ => hmore.bind fun _ => ⟨_, rfl⟩

lemma IsExprs.gives {ts es} : IsExprs ts es → Short ts → Listed ts es
  | .one h, hs => by
    have ih := h.read hs
    intro rest hrest hcomma
    obtain ⟨-, x, -, hx⟩ := exists_ends h.ne_nil
    refine ⟨x, ?_⟩
    rw [parseList]
    refine (ih.1 x rest hx hrest).bind fun _ => ?_
    simp only [take?_eq_none hcomma]
    exact ⟨_, rfl⟩
  | .more h hc hes, hs => by
    have ih := h.read hs.left
    have ihs := hes.gives hs.right.tail
    intro rest hrest hcomma
    obtain ⟨-, x, -, hx⟩ := exists_ends h.ne_nil
    obtain ⟨last, hlist⟩ := ihs rest hrest hcomma
    refine ⟨last, ?_⟩
    rw [append_assoc, parseList]
    refine (ih.1 x _ hx (ends_of hc)).bind fun _ => ?_
    simp only [cons_append, take?_cons _ hc]
    exact hlist.bind fun _ => ⟨_, rfl⟩

lemma IsArguments.gives {ts args c} : IsArguments ts args → Short ts → c.kind = .mark .rparen → (rest : List Token) →
      Gives (parseArguments (ts ++ c :: rest)) args c rest
  | .none, _, hc, rest => by
    rw [nil_append, parseArguments]
    simp only [take?_cons _ hc]
    exact ⟨_, rfl⟩
  | .some h, hs, hc, rest => by
    obtain ⟨last, hlist⟩ := h.gives hs (c :: rest) (ends_of hc) (by simp [hc])
    obtain ⟨t, us, rfl, ht⟩ := h.starts
    have hclose : t.kind ≠ .mark .rparen := by
      intro hk
      simp [hk, startsExpr] at ht
    rw [parseArguments]
    simp only [cons_append, take?_cons_ne _ hclose]
    exact hlist.bind fun _ => (expect_gives hc).bind fun _ => ⟨_, rfl⟩

end

lemma IsExpr.gives (h : IsExpr .disjunction ts e) (hs : Short ts) (rest : List Token) (hrest : Ends 1 rest) :
    ∃ last, ts.getLast? = some last ∧ Gives (parse (ts ++ rest)) e last rest := by
  obtain ⟨-, last, -, hlast⟩ := exists_ends h.ne_nil
  exact ⟨last, hlast, (h.read hs).1 last rest hlast hrest⟩

/-! ## Targets and constants -/

lemma IsAccess.gives (rest : List Token) (h : IsAccess false ts e) (hs : Short ts) (hlast : ts.getLast? = some last)
    (hrest : Ends 8 rest) : Gives (parseTarget (ts ++ rest)) e last rest := by
  have hgives := ((IsExpr.access h).read hs).1 last rest hlast hrest
  obtain ⟨n, us, rfl, hn, hus⟩ := h.head
  have hcall : ∀ t, (us ++ rest).head? = some t → t.kind ≠ .mark .lparen := by
    cases us with
    | nil => exact hrest.ne (by decide)
    | cons u us => exact hus rfl
  rw [cons_append, Tier.read, parsePrimary] at hgives
  simp only [hn, take?_eq_none hcall] at hgives
  rw [cons_append, parseTarget, expect_cons _ _ hn]
  exact hgives

lemma IsTargets.gives {ts es} (rest : List Token) (hrest : Ends 8 rest)
    (hcomma : ∀ t, rest.head? = some t → t.kind ≠ .mark .comma) : IsTargets ts es → Short ts →
      ∃ last, Gives (parseTargets (ts ++ rest)) es last rest
  | .one h, hs => by
    obtain ⟨-, x, -, hx⟩ := exists_ends h.ne_nil
    refine ⟨x, ?_⟩
    rw [parseTargets]
    refine (h.gives rest hs hx hrest).bind fun _ => ?_
    simp only [take?_eq_none hcomma]
    exact ⟨_, rfl⟩
  | .more h hc hes, hs => by
    obtain ⟨-, x, -, hx⟩ := exists_ends h.ne_nil
    obtain ⟨last, hes⟩ := hes.gives rest hrest hcomma hs.right.tail
    refine ⟨last, ?_⟩
    rw [append_assoc, cons_append, parseTargets]
    refine (h.gives _ hs.left hx (ends_of hc)).bind fun _ => ?_
    simp only [take?_cons _ hc]
    exact hes.bind fun _ => ⟨_, rfl⟩

lemma IsConstant.gives (h : IsConstant ts e) (hs : Short ts) (rest : List Token) :
    ∃ last, ts.getLast? = some last ∧ Gives (parseConstant (ts ++ rest)) e last rest := by
  cases h with
  | @literal t _ h =>
    refine ⟨t, rfl, Nat.lt_succ_self _, ?_⟩
    have hminus : t.kind ≠ .mark .minus := by
      cases h with
      | integer hk | real hk | string hk | char hk | yes hk | no hk => simp [hk]
    show parseConstant (t :: rest) = _
    simp only [parseConstant, beq_iff_eq, hminus, if_false, h.literal?_eq hs.head, bind, Except.bind]
    rfl
  | @negInteger m t s n hm h =>
    refine ⟨t, rfl, by grind, ?_⟩
    have hlit := h.literal?_eq hs.tail.head
    cases h with
    | integer hk =>
      show parseConstant (m :: t :: rest) = _
      rw [parseConstant, hlit]
      simp only [hm, hk, beq_self_eq_true, if_true, bind, Except.bind]
      rfl
  | @negReal m t s n hm h =>
    refine ⟨t, rfl, by grind, ?_⟩
    have hlit := h.literal?_eq hs.tail.head
    cases h with
    | real hk =>
      show parseConstant (m :: t :: rest) = _
      rw [parseConstant, hlit]
      simp only [hm, hk, beq_self_eq_true, if_true, bind, Except.bind]
      rfl

end AlgoLang.Grammar
