/-
# Formatted expressions read back

In the text of an expression every operator has blanks around it, and every other mark ends the word before
it.  So it is read again, as an expression that differs only in its stretches of source.  The one exception is a
constant below zero, whose sign comes back as an operator.
-/
import AlgoLang.Proofs.Agenda.Derivation
import AlgoLang.Proofs.CGrammar.Image
import AlgoLang.Proofs.Ensures
import AlgoLang.Proofs.Token.Writes

namespace AlgoLang

open Text Token Expr Nat Grammar.Tier
open Expr (alikeEach formatEach parse)

attribute [local simp] alike

open List

open Token (Spelled Apart apart_cons)
open Lift (isWordPiece)

variable {e : Expr} {rest : List Char} {toks : List Token} {c : Char} {kind : TokenKind}

/-! ## Literals and names -/

lemma Token.stringRest_escaped (cs rest : List Char) : stringRest (cs.flatMap (escapeChar '"') ++ '"' :: rest) =
      (cs, (cs.flatMap (escapeChar '"')).length + 1, true) := by
  induction cs with
  | nil => rfl
  | cons c cs ih =>
    rw [flatMap_cons, append_assoc]
    rcases CGrammar.escapeChar_cases (.inr rfl) c with ⟨heq, hquote, hslash, hline⟩ | ⟨d, heq, -, -, hd⟩
    · rw [heq]
      simp [stringRest, ih, hslash]
    · rw [heq]
      simp [stringRest, ih, hd]

section

variable {Follow : List Char → Prop} {D : List Token → Prop}

lemma Writes.string {s} (hD : ∀ t, t.kind = .string → t.value = s → D [t]) :
    Writes (literal '"' s).toList Follow D := by
  refine .word (fun rest more _ h => ?_) hD
  have hlex : lexeme '"' (s.toList.flatMap (escapeChar '"') ++ '"' :: rest) =
      .token .string s ((s.toList.flatMap (escapeChar '"')).length + 2) := by
    show stringLexeme _ = _
    rw [stringLexeme, stringRest_escaped]
    simp
  have hword : Spelled ((.string, s) :: more) ('"' :: (s.toList.flatMap (escapeChar '"') ++ ['"']) ++ rest) :=
    .word rfl (by simpa using hlex) h
  simpa [literal, escape_eq (.inr rfl)] using hword

lemma Writes.char (hD : ∀ t, t.kind = .char → t.value = .singleton c → D [t]) :
    Writes (literal '\'' (.singleton c)).toList Follow D := by
  refine .word (fun rest more _ h => ?_) hD
  have hlex : lexeme '\'' (escapeChar '\'' c ++ '\'' :: rest) =
      .token .char (.singleton c) ((escapeChar '\'' c).length + 2) := by
    show charLexeme _ = _
    rcases CGrammar.escapeChar_cases (.inl rfl) c with ⟨heq, hquote, hslash, -⟩ | ⟨d, heq, -, -, hd⟩
    · rw [heq]
      simp [charLexeme, hslash]
    · rw [heq]
      simp [charLexeme, hd]
  have hword : Spelled ((.char, .singleton c) :: more) ('\'' :: (escapeChar '\'' c ++ ['\'']) ++ rest) :=
    .word rfl (by simpa using hlex) h
  simpa [literal, escape_eq (.inl rfl)] using hword

/-- Strings and characters are read back as they were written: the literal scans without a fault into one token with
that value.  In C it is written in the same way. -/
theorem scan_literals (span : Option Span) (file : String) (routines : List String) :
    (∀ s, (Token.scan (Expr.string span s).format file).tokens.map Token.word = [(.string, s)] ∧
      (Token.scan (Expr.string span s).format file).faults = [] ∧
      (Expr.string span s).toC routines = .ok (Expr.string span s).format) ∧
    ∀ c, (Token.scan (Expr.char span (.singleton c)).format file).tokens.map Token.word = [(.char, .singleton c)] ∧
      (Token.scan (Expr.char span (.singleton c)).format file).faults = [] ∧
      (Expr.char span (.singleton c)).toC routines = .ok (Expr.char span (.singleton c)).format := by
  constructor
  · intro s
    have hwrites : Writes (Expr.string span s).format.toList Apart (·.map Token.word = [(.string, s)]) := by
      rw [Expr.format]
      exact .string fun t hkind hvalue => by simp [Token.word, hkind, hvalue]
    obtain ⟨hfaults, -, -, htokens⟩ := hwrites.parses file
    exact ⟨htokens, hfaults, by rw [Expr.toC, Expr.format]⟩
  · intro c
    have hwrites : Writes (Expr.char span (.singleton c)).format.toList Apart
        (·.map Token.word = [(.char, .singleton c)]) := by
      rw [Expr.format]
      exact .char fun t hkind hvalue => by simp [Token.word, hkind, hvalue]
    obtain ⟨hfaults, -, -, htokens⟩ := hwrites.parses file
    exact ⟨htokens, hfaults, by simp [Expr.toC, Expr.format, C.charBody, literal, escape_eq (.inl rfl)]⟩

lemma Text.decimalValue_lt (cs : List Char) : decimalValue cs < 10 ^ cs.length := by
  have hdigit (c : Char) : (digitValue? c).getD 0 < 10 := by
    unfold digitValue?
    split
    · split
      · next h =>
        have hrange := Char.isDigit_iff_toNat.mp h
        have hnine : '9'.toNat = 57 := rfl
        show c.toNat - 48 < 10
        omega
      · decide
    · cases digitRanges.find? fun r => r.1 ≤ c.toNat && c.toNat ≤ r.2 with
      | none => exact succ_pos 9
      | some r => exact mod_lt _ (by decide)
  have hfold (n : Nat) : cs.foldl (fun n c => 10 * n + (digitValue? c).getD 0) n < (n + 1) * 10 ^ cs.length := by
    induction cs generalizing n with
    | nil => simp
    | cons c cs ih =>
      refine lt_of_lt_of_le (ih _) ?_
      rw [length_cons, pow_succ', ← mul_assoc]
      have hc := hdigit c
      refine mul_le_mul_right _ ?_
      show 10 * n + (digitValue? c).getD 0 + 1 ≤ (n + 1) * 10
      omega
  simpa [decimalValue] using hfold 0

lemma length_toString_decimalValue {digits} (h : digits.length ≤ maxDigits) :
    (toString (decimalValue digits)).length ≤ maxDigits :=
  repr_length _ _ (by decide)
    (Nat.lt_of_lt_of_le (decimalValue_lt digits) (Nat.pow_le_pow_right (by decide : 0 < 10) h))

lemma Writes.number {n : Nat} (h : (toString n).length ≤ maxDigits)
    (hD : ∀ t, t.kind = .integer → t.value = toString n → D [t]) : Writes (toString n).toList Apart D := by
  refine .word (fun rest more hrest hmore => ?_) hD fun _ => h
  have hne : (toString n).toList ≠ [] := fun h => Lift.toString_ne_empty n (String.toList_eq_nil_iff.mp h)
  have hnumber := Spelled.number (Lift.all_isDigit_toString n) hne hrest hmore
  rwa [String.ofList_toList] at hnumber

end

lemma Spelled.operator {k : Grammar.Tier} {op : BinaryOp}
    {more : List (TokenKind × String)} (h : (kind, op) ∈ (.mark .power, .pow) :: k.operators) (hmore : Spelled more rest) :
    Spelled ((kind, op.spelling) :: more) (op.spelling.toList ++ ' ' :: rest) := by
  have hspace : Spelled more (' ' :: rest) := .space rfl hmore
  have hpower : Spelled ((.mark .power, "^") :: more) ("^".toList ++ ' ' :: rest) := .word rfl rfl hspace
  rcases mem_cons.mp h with h | h
  · cases h
    exact hpower
  · cases k with
    | disjunction | conjunction =>
      cases mem_singleton.mp h
      exact .spaced (by decide) (by decide) hmore
    | relation =>
      simp only [operators, mem_cons, not_mem_nil, or_false, Prod.mk.injEq] at h
      rcases h with ⟨rfl, rfl⟩ | ⟨rfl, rfl⟩ | ⟨rfl, rfl⟩ | ⟨rfl, rfl⟩ | ⟨rfl, rfl⟩ | ⟨rfl, rfl⟩ <;>
        exact .word rfl rfl hspace
    | sum =>
      simp only [operators, mem_cons, not_mem_nil, or_false, Prod.mk.injEq] at h
      rcases h with ⟨rfl, rfl⟩ | ⟨rfl, rfl⟩ <;> exact .word rfl rfl hspace
    | product =>
      simp only [operators, mem_cons, not_mem_nil, or_false, Prod.mk.injEq] at h
      rcases h with ⟨rfl, rfl⟩ | ⟨rfl, rfl⟩ | ⟨rfl, rfl⟩ | ⟨rfl, rfl⟩
      · exact .word rfl rfl hspace
      · exact .word rfl rfl hspace
      · exact .spaced (by decide) (by decide) hmore
      · exact .spaced (by decide) (by decide) hmore
    | power | sign | primary => cases h

/-! ## Expressions -/

namespace Grammar

variable {taken : Taken Expr toks}

/-- The text of the expression reads back in the given tier. -/
def Rereads (k : Tier) (e : Expr) : Prop :=
  Writes e.format.toList Apart fun ts => ∃ e', IsExpr k ts e' ∧ e'.alike e = true

/-- The text reads back as an access, which may have a mark right behind it. -/
def RereadsAccess (called : Bool) (e : Expr) : Prop :=
  Writes e.format.toList Parted fun ts => ∃ e', IsAccess called ts e' ∧ e'.alike e = true

/-- A token as the scanner makes it, and not a real. -/
structure IsPlain (t : Token) : Prop where
  name : t.kind = .identifier → IsName t.value
  char : t.kind = .char → ∃ c, t.value = String.singleton c
  short : t.kind = .integer → t.value.length ≤ maxDigits
  notReal : t.kind ≠ .real

lemma Rereads.integer {n : Nat} {s : Option Span} (h : (toString n).length ≤ maxDigits) :
    Rereads .primary (.integer s n) := by
  refine .number h fun u hu hvalue => ⟨_, .literal (.integer hu), ?_⟩
  rw [alike, hvalue, Lift.decimalValue_toString, beq_self_eq_true]

lemma IsLiteral.rereads {t} (h : IsLiteral t e) (ht : IsPlain t) : Rereads .primary e := by
  cases h with
  | integer hkind =>
    exact .integer (length_toString_decimalValue (ht.short hkind))
  | real hkind => exact absurd hkind ht.notReal
  | string hkind => exact .string fun u hu hvalue => ⟨_, .literal (.string hu), by simp [alike, hvalue]⟩
  | char hkind =>
    obtain ⟨c, hc⟩ := ht.char hkind
    rw [hc]
    exact .char fun u hu hvalue => ⟨_, .literal (.char hu), by simp [alike, hvalue]⟩
  | yes =>
    show Writes "TRUE".toList Apart _
    exact (Writes.name rfl rfl fun u hu _ => ⟨_, .literal (.yes hu), rfl⟩).apart
  | no =>
    show Writes "FALSE".toList Apart _
    exact (Writes.name rfl rfl fun u hu _ => ⟨_, .literal (.no hu), rfl⟩).apart

lemma Rereads.binary {k k₁ k₂ l : Tier} {op : BinaryOp} {s : Option Span} {a b : Expr}
    (hop : (kind, op) ∈ (.mark .power, .pow) :: l.operators) (ha : Rereads k₁ a) (hb : Rereads k₂ b)
    (hD : ∀ {t xs ys a b}, t.kind = kind → IsExpr k₁ xs a → IsExpr k₂ ys b →
      IsExpr k (xs ++ t :: ys) (.binary (spanning (xs ++ t :: ys)) op a b)) : Rereads k (.binary s op a b) := by
  have hoperator : Writes (' ' :: (op.spelling.toList ++ [' '])) (fun _ => True) (IsToken kind) :=
    .word (fun rest more _ hmore => .space rfl (by simpa using Spelled.operator hop hmore)) (fun t ht _ => ⟨t, rfl, ht⟩)
      fun hkind => by subst hkind; cases l <;> simp [Tier.operators] at hop
  refine (ha.append (hoperator.before hb) fun rest _ => apart_cons rfl).reads (by simp [Expr.format]) ?_
  rintro _ ⟨xs, _, rfl, ⟨a', hxs, ha'⟩, _, ys, rfl, ⟨t, rfl, ht⟩, b', hys, hb'⟩
  exact ⟨_, hD ht hxs hys, by simp [alike, ha', hb']⟩

lemma Rereads.sign {op s} (hop : (kind, op) ∈ signs) (h : Rereads .sign e) : Rereads .sign (.unary s op e) := by
  have hspelled {rest more} (hmore : Spelled more rest) :
      Spelled ((kind, op.spelling) :: more) (op.spelling.toList ++ ' ' :: rest) := by
    simp only [signs, mem_cons, not_mem_nil, or_false, Prod.mk.injEq] at hop
    rcases hop with ⟨rfl, rfl⟩ | ⟨rfl, rfl⟩
    · exact .word rfl rfl (.space rfl hmore)
    · exact .spaced (by decide) (by decide) hmore
  have hoperator : Writes (op.spelling.toList ++ [' ']) (fun _ => True) (IsToken kind) :=
    .word (fun rest more _ hmore => by simpa using hspelled hmore) (fun t ht _ => ⟨t, rfl, ht⟩)
      fun hkind => by subst hkind; simp [signs] at hop
  refine (hoperator.before h).reads (by simp [Expr.format]) ?_
  rintro _ ⟨_, ts, rfl, ⟨t, rfl, ht⟩, e', hts, he'⟩
  exact ⟨_, .sign (ht ▸ hop) hts, by simp [alike, he']⟩

lemma Rereads.paren {s} (h : Rereads .disjunction e) : Rereads .primary (.paren s e) := by
  refine (h.parens).reads (by simp [Expr.format]) ?_
  rintro _ ⟨o, ts, c, rfl, ho, ⟨e', hts, he'⟩, hc⟩
  exact ⟨_, .paren ho hts hc, by simp [alike, he']⟩

lemma Rereads.loosest (h : Rereads .primary e) : Rereads .disjunction e :=
  h.reads rfl fun _ ⟨e', h', he'⟩ => ⟨e', .ofPrimary h', he'⟩

lemma rereads_list {es} (h : ∀ e ∈ es, Rereads .disjunction e) (hne : es ≠ []) :
    Writes (", ".intercalate (formatEach es)).toList Apart fun ts => ∃ es', IsExprs ts es' ∧ alikeEach es' es := by
  have htexts (es : List Expr) : formatEach es = es.map format := by
    induction es with
    | nil => rfl
    | cons e es ih => rw [formatEach, ih, map_cons]
  rw [htexts]
  refine .list (L := fun ts es => ∃ es', IsExprs ts es' ∧ alikeEach es' es) ?_ ?_ h hne
  · rintro e ts ⟨e', hts, he'⟩
    exact ⟨[e'], .one hts, by simp [alikeEach, he']⟩
  · rintro e xs c ys es ⟨e', hxs, he'⟩ hc ⟨es', hys, hes'⟩
    exact ⟨_, .more hxs hc hys, by simp [alikeEach, he', hes']⟩

namespace RereadsAccess

variable {called : Bool} {s : Option Span}

lemma name {n} (hn : IsName n) : RereadsAccess false (.name s n) :=
  hn.writes.reads (by rw [Expr.format]) fun _ ⟨t, hts, ht, hvalue⟩ => hts ▸ ⟨_, .name ht, by simp [Expr.alike, hvalue]⟩

lemma field {f} (h : RereadsAccess called e) (hf : IsName f) : RereadsAccess called (.field s e f) := by
  have hdot : Writes ['.'] (fun _ => True) (IsToken (.mark .dot)) := .mark fun _ => ⟨rfl, rfl⟩
  refine (h.append (hdot.before hf.writes) fun _ _ => parted_cons rfl).reads
    (by simp [Expr.format]) ?_
  rintro _ ⟨xs, _, rfl, ⟨e', hxs, he'⟩, _, _, rfl, ⟨d, rfl, hd⟩, t, rfl, ht, hvalue⟩
  exact ⟨_, .field hxs hd ht, by simp [alike, he', hvalue]⟩

lemma call {n args} (hn : IsName n) (h : ∀ a ∈ args, Rereads .disjunction a) : RereadsAccess true (.call s n args) := by
  have hargs : Writes (", ".intercalate (formatEach args)).toList Apart fun ts =>
      ∃ args', IsArguments ts args' ∧ alikeEach args' args := by
    cases args with
    | nil =>
      have hnothing : Writes [] Apart (· = []) := .blank rfl
      exact hnothing.reads (by simp [formatEach]) fun ts hts => ⟨[], hts ▸ .none, rfl⟩
    | cons a args => exact (rereads_list h nofun).reads rfl fun ts ⟨es, hts, hes⟩ => ⟨es, .some hts, hes⟩
  have hbehind : Writes _ Parted _ := hargs.parens
  refine (hn.writes.append hbehind fun _ _ => parted_cons rfl).reads (by simp [Expr.format]) ?_
  rintro _ ⟨_, _, rfl, ⟨t, rfl, ht, hvalue⟩, o, xs, c, rfl, ho, ⟨args', hxs, hargs'⟩, hc⟩
  exact ⟨_, .call ht ho hxs hc, by simp [alike, hvalue, hargs']⟩

lemma index {is} (h : RereadsAccess called e) (hplain : ∀ s a js, e ≠ .index s a js)
    (his : ∀ i ∈ is, Rereads .disjunction i) (hne : is ≠ []) : RereadsAccess called (.index s e is) := by
  have hbehind : Writes _ Parted _ := (rereads_list his hne).enclosed '[' ']' (fun _ => ⟨rfl, rfl⟩)
    fun _ => ⟨apart_cons rfl, rfl, rfl⟩
  refine (h.append hbehind fun _ _ => parted_cons rfl).reads (by simp [Expr.format]) ?_
  rintro _ ⟨xs, _, rfl, ⟨e', hxs, he'⟩, o, ys, c, rfl, ho, ⟨is', hys, his'⟩, hc⟩
  refine ⟨_, .index hxs ?_ ho hys hc, by simp [alike, he', his']⟩
  rintro _ _ _ rfl
  cases e <;> first | exact hplain _ _ _ rfl | cases he'

end RereadsAccess

/-- An access reads back; the indices of one can also be joined by further ones. -/
def RereadsParts (called : Bool) : Expr → Prop
  | .index _ e is => RereadsAccess called e ∧ (∀ s a js, e ≠ .index s a js) ∧ is ≠ [] ∧ ∀ i ∈ is, Rereads .disjunction i
  | e => RereadsAccess called e

lemma RereadsParts.access {called} (h : RereadsParts called e) : RereadsAccess called e := by
  cases e with
  | index s e is => exact .index h.1 h.2.1 h.2.2.2 h.2.2.1
  | _ => exact h

lemma part {α : Type} {P : α → Prop} {xs ys : List α} (h : ∀ a ∈ xs, P a)
    (hys : ∀ a ∈ ys, a ∈ xs := by simp +contextual) : ∀ a ∈ ys, P a :=
  fun a ha => h a (hys a ha)

mutual

lemma IsExpr.rereads {k ts e} : IsExpr k ts e → (∀ t ∈ ts, IsPlain t) → Rereads k e
  | .tighten hk h, hts => (h.rereads hts).reads rfl fun _ ⟨e', h', he'⟩ => ⟨e', .tighten hk h', he'⟩
  | .binary hk hop ha hb, hts =>
    .binary (mem_cons_of_mem _ hop) (ha.rereads (part hts))
      (hb.rereads (part hts)) fun ht ha hb => .binary hk (ht ▸ hop) ha hb
  | .power ht ha hb, hts =>
    .binary (l := .power) mem_cons_self (ha.rereads (part hts)) (hb.rereads (part hts)) fun ht ha hb => .power ht ha hb
  | .sign hop h, hts => .sign hop (h.rereads (part hts))
  | .paren _ h _, hts => .paren (h.rereads (part hts))
  | .literal h, hts => h.rereads (hts _ (by simp))
  | .access h, hts => (h.rereads hts).access.apart.reads rfl fun _ ⟨e', h', he'⟩ => ⟨e', .access h', he'⟩

lemma IsAccess.rereads {called ts e} : IsAccess called ts e → (∀ t ∈ ts, IsPlain t) → RereadsParts called e
  | .name hn, hts => .name ((hts _ (by simp)).name hn)
  | .call hn _ h _, hts => .call ((hts _ (by simp)).name hn) (h.rereads (part hts))
  | .index h hplain _ his _, hts =>
    have his := his.rereads (part hts)
    ⟨(h.rereads (part hts)).access, hplain, his.1, his.2⟩
  | .further h _ hjs _, hts =>
    have h := h.rereads (part hts)
    have hjs := hjs.rereads (part hts)
    ⟨h.1, h.2.1, by simp [h.2.2.1], forall_mem_append.mpr ⟨h.2.2.2, hjs.2⟩⟩
  | .field h _ hf, hts => .field (h.rereads (part hts)).access ((hts _ (by simp)).name hf)

lemma IsExprs.rereads {ts es} : IsExprs ts es → (∀ t ∈ ts, IsPlain t) → es ≠ [] ∧ ∀ e ∈ es, Rereads .disjunction e
  | .one h, hts => ⟨nofun, forall_mem_singleton.mpr (h.rereads hts)⟩
  | .more h _ hs, hts =>
    ⟨nofun, forall_mem_cons.mpr ⟨h.rereads (part hts), (hs.rereads (part hts)).2⟩⟩

lemma IsArguments.rereads {ts es} : IsArguments ts es → (∀ t ∈ ts, IsPlain t) → ∀ e ∈ es, Rereads .disjunction e
  | .none, _ => forall_mem_nil _
  | .some h, hts => (h.rereads hts).2

end

/-! ## What is read -/

lemma derived_of_runs {i rest} (h : Runs ([i], toks) ([], rest)) (hrest : rest = []) :
    Short toks ∧ i.Derived toks [] := by
  subst hrest
  obtain ⟨ts, heq, _, _, rfl, hi, rfl⟩ := Runs.derivedEach h
  obtain ⟨before, hbefore, hread, -⟩ := Runs.foresight h
  obtain rfl : toks = before := by simpa using hbefore
  obtain rfl : toks = _ := by simpa using heq
  exact ⟨fun t ht => exists_literal?_iff.mp (hread t ht), hi⟩

lemma IsExpr.givesAll {ts} (h : IsExpr .disjunction ts e) (hs : Short ts) :
    ∃ last, Reading.Gives (parse ts) e last [] := by
  obtain ⟨last, -, hgives⟩ := h.gives hs [] (fun _ ht => by cases ht)
  rw [append_nil] at hgives
  exact ⟨last, hgives⟩

lemma isExpr_of_parse (h : parse toks = .ok taken) (hall : taken.rest = []) :
    Short toks ∧ IsExpr .disjunction toks taken.value := by
  have hrun := parse_follows toks
  rw [h] at hrun
  obtain ⟨hshort, e, he⟩ := derived_of_runs hrun hall
  obtain ⟨last, hlt, hgives⟩ := he.givesAll hshort
  rw [h, Except.ok.injEq] at hgives
  rw [hgives]
  exact ⟨hshort, he⟩

lemma isConstant_of_parse (h : parseConstant toks = .ok taken) (hall : taken.rest = []) :
    Short toks ∧ IsConstant toks taken.value := by
  have hrun := parseConstant_follows toks
  rw [h] at hrun
  obtain ⟨hshort, e, he⟩ := derived_of_runs hrun hall
  obtain ⟨last, -, hgives⟩ := he.gives hshort []
  rw [append_nil] at hgives
  obtain ⟨hlt, hgives⟩ := hgives
  rw [h, Except.ok.injEq] at hgives
  rw [hgives]
  exact ⟨hshort, he⟩

end Grammar

/-! ## The theorem -/

/-- The text of the expression is scanned without faults, and all of it is read as an expression that is like
the other. -/
def Expr.ReadsAs (e other : Expr) (file : String) : Prop :=
  (Token.scan e.format file).faults = [] ∧ ∃ taken : Taken Expr (Token.scan e.format file).tokens,
    parse (Token.scan e.format file).tokens = .ok taken ∧ taken.rest = [] ∧ taken.value.alike other = true

def Expr.ReadsBack (e : Expr) (file : String) : Prop :=
  e.ReadsAs e file

/-- A literal below zero is written as the negation of one above. -/
def Expr.unfolded : Expr → Expr
  | integer s n => if n < 0 then unary s .neg (integer s (-n)) else integer s n
  | e => e

open Grammar

lemma Grammar.Rereads.readsBack (h : Rereads .disjunction e) (file : String) : e.ReadsBack file := by
  obtain ⟨hfaults, -, hshort, e', he', halike⟩ := h.parses file
  obtain ⟨last, hlt, hgives⟩ := he'.givesAll hshort
  exact ⟨hfaults, _, hgives, rfl, halike⟩

lemma readsAs_negated {m : Nat} (hm : (toString m).length ≤ maxDigits) (s : Option Span) (file : String) :
    (integer s (-m)).ReadsAs (integer s (-m)).unfolded file := by
  cases m with
  | zero => exact (Rereads.integer hm).loosest.readsBack file
  | succ m =>
    have hminus : Writes ['-'] (fun _ => True) (IsToken (.mark .minus)) := .mark fun _ => ⟨rfl, rfl⟩
    have hnumber : Rereads .primary (.integer s (m + 1 : Nat)) := .integer hm
    have htext : (integer s (-(m + 1 : Nat))).format.toList = ['-'] ++ (toString (m + 1)).toList := by
      show ("-" ++ toString (m + 1)).toList = _
      rw [String.toList_append]
      rfl
    rw [unfolded, if_pos (by omega), Int.neg_neg]
    have hall : Writes (integer s (-(m + 1 : Nat))).format.toList Apart fun ts =>
        ∃ e, IsExpr .disjunction ts e ∧ e.alike (unary s .neg (integer s (m + 1 : Nat))) = true := by
      refine (hminus.before hnumber).reads htext ?_
      rintro _ ⟨_, ts, rfl, ⟨t, rfl, ht⟩, e, he, halike⟩
      exact ⟨.unary _ .neg e, .loosest (.sign (by simp [signs, ht]) (.tighten rfl he)), halike⟩
    obtain ⟨hfaults, -, hshort, e, he, halike⟩ := hall.parses file
    obtain ⟨last, hlt, hgives⟩ := he.givesAll hshort
    exact ⟨hfaults, _, hgives, rfl, halike⟩

/-- What is read is determined, so a literal below zero is not read back. -/
lemma readsBack_integer {s n file} (h : (integer s n).ReadsAs (integer s n).unfolded file) :
    (integer s n).ReadsBack file ↔ (integer s n).isNegativeLiteral = false := by
  by_cases hn : n < 0
  · refine iff_of_false ?_ (by simpa [isNegativeLiteral] using hn)
    rintro ⟨-, taken', htaken', -, halike'⟩
    obtain ⟨-, taken, htaken, -, halike⟩ := h
    rw [htaken, Except.ok.injEq] at htaken'
    subst htaken'
    rw [unfolded, if_pos hn] at halike
    cases hvalue : taken.value <;> simp [hvalue, alike] at halike halike'
  · rw [unfolded, if_neg hn] at h
    exact iff_of_true h (by simpa [isNegativeLiteral] using hn)

lemma Grammar.IsConstant.readsAs {ts : List Token} (h : IsConstant ts e) (hts : ∀ t ∈ ts, IsPlain t)
    (file : String) : e.ReadsAs e.unfolded file ∧ (e.ReadsBack file ↔ e.isNegativeLiteral = false) := by
  cases h with
  | literal h =>
    have ht := hts _ mem_cons_self
    have hback := (h.rereads ht).loosest.readsBack file
    cases h with
    | integer => exact ⟨hback, readsBack_integer hback⟩
    | real hk => exact absurd hk ht.notReal
    | _ => exact ⟨hback, iff_of_true hback rfl⟩
  | @negInteger m t s n hm h =>
    cases h with
    | integer hk =>
      have hreads s := readsAs_negated (length_toString_decimalValue ((hts t (by simp)).short hk)) s file
      exact ⟨hreads _, readsBack_integer (hreads _)⟩
  | @negReal m t s x hm h =>
    cases h with
    | real hk => exact absurd hk (hts t (by simp)).notReal

lemma Token.isName_of_mem_scan {source file t} (ht : t ∈ (scan source file).tokens)
    (hkind : t.kind = .identifier) : IsName t.value := by
  obtain ⟨hword, hname⟩ := isWord_of_mem_scan ht hkind
  refine ⟨?_, hname⟩
  obtain ⟨c, cs, hvalue, hc, hcs⟩ := hword.spelled
  rw [hvalue, isWordPiece, hc]
  exact hcs

/-- **Formatted expressions read back.**  Take tokens of a scanned text that has no reals among them.

* If all of them are read as an expression, its text is scanned without faults, and all of that is read as an
  expression that is like it in all but its stretches of source.
* If all of them are read as the value of a constant, the same holds of it unless it is below zero: then its text
  is read as the negation of the literal above zero. -/
theorem format_reads_back {source file : String} {toks : List Token} (htoks : toks <:+: (Token.scan source file).tokens)
    (hreal : ∀ t ∈ toks, t.kind ≠ .real) {taken : Taken Expr toks} (hall : taken.rest = []) (file' : String) :
    (Expr.parse toks = .ok taken → taken.value.ReadsBack file') ∧
      (Expr.parseConstant toks = .ok taken → taken.value.ReadsAs taken.value.unfolded file' ∧
        (taken.value.ReadsBack file' ↔ taken.value.isNegativeLiteral = false)) := by
  have hplain (hshort : Short toks) : ∀ t ∈ toks, IsPlain t := fun t ht =>
    ⟨isName_of_mem_scan (htoks.subset ht), singleton_of_mem_scan (htoks.subset ht), hshort t ht, hreal t ht⟩
  refine ⟨fun h => ?_, fun h => ?_⟩
  · obtain ⟨hshort, he⟩ := isExpr_of_parse h hall
    exact (he.rereads (hplain hshort)).readsBack file'
  · obtain ⟨hshort, he⟩ := isConstant_of_parse h hall
    exact he.readsAs (hplain hshort) file'

/-- Indices of their own become those of one access, and a minus before a call stays an operator. -/
theorem format_reads_back_indices : ∃ taken : Taken Expr (Token.scan "t[1][i] < -f(x, 'c')").tokens,
    Expr.parse (Token.scan "t[1][i] < -f(x, 'c')").tokens = .ok taken ∧
      taken.value.format = "t[1, i] < - f(x, 'c')" ∧ taken.value.ReadsBack defaultFile := by
  have hread : ∃ taken, Expr.parse (Token.scan "t[1][i] < -f(x, 'c')").tokens = .ok taken ∧
      taken.rest = [] ∧ taken.value.format = "t[1, i] < - f(x, 'c')" := exists_ok (by decide +kernel)
  obtain ⟨taken, htaken, hall, htext⟩ := hread
  exact ⟨taken, htaken, htext, (format_reads_back infix_rfl (by decide +kernel) hall defaultFile).1 htaken⟩

/-- The constant `-5` is written like the negation of `5`. -/
theorem constant_below_zero_differs : ∃ taken : Taken Expr (Token.scan "-5").tokens,
    Expr.parseConstant (Token.scan "-5").tokens = .ok taken ∧ taken.rest = [] ∧ taken.value.format = "-5" ∧
      ∃ again ∈ (Expr.parse (Token.scan "-5").tokens).toOption, again.value.alike taken.value = false :=
  exists_ok (by decide +kernel)

end AlgoLang
