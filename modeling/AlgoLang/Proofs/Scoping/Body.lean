/-
# Checking a body finds its illegal uses

A table of symbols stands for the open scopes if every name leads to the same in both.  Looked at through such a
table, something is wrong with a body iff one of its uses is illegal.
-/
import AlgoLang.Proofs.Scoping
import Mathlib

namespace AlgoLang

open Symbol Scoping List Sight Text

/-! ## Findings that let a program pass -/

/-- There is nothing among the findings but warnings. -/
def Passes (ds : List Diagnostic) : Prop :=
  ∀ d ∈ ds, d.isWarning

@[simp]
lemma passes_nil : Passes [] :=
  forall_mem_nil _

@[simp]
lemma passes_append {ds ds' : List Diagnostic} : Passes (ds ++ ds') ↔ Passes ds ∧ Passes ds' :=
  forall_mem_append

@[simp]
lemma not_passes_wrong (message : String) (span : Option Span) : ¬Passes [wrong message span] := by
  simp [Passes, wrong, Diagnostic.isWarning]

@[simp]
lemma passes_doubtful (message : String) (span : Option Span) : Passes [doubtful message span] := by
  simp [Passes, doubtful, Diagnostic.isWarning]

lemma passes_checkArity (b : Binding) (given : Nat) (span : Option Span) : Passes (checkArity b given span) := by
  unfold checkArity
  dsimp only
  split
  · exact passes_nil
  · exact passes_doubtful _ _

/-! ## Tables that stand for scopes -/

def Symbol.entity (s : Symbol) : Entity :=
  ⟨s.type, s.isConstant⟩

namespace Scoping

/-- A scope of a table has under every name what the frame has. -/
structure Holds (scope : Scope) (f : Frame) : Prop where
  values : ∀ n, (scope.symbols.get? (lower n)).map Symbol.entity = last? f.values n
  types : ∀ n, scope.types.get? (lower n) = last? f.types n

/-- The open scopes of a table, one by one, have what the frames have. -/
def Stands (t : SymbolTable) (s : Sight) : Prop :=
  List.Forall₂ Holds t.scopes s

lemma get?_map_append {α : Type} (names : List String) (g : String → α) (rest : Keyed α) (key : String) :
    Keyed.get? (names.map (fun n => (n, g n)) ++ rest) key = if key ∈ names then some (g key) else rest.get? key := by
  induction names with
  | nil => simp
  | cons n names ih =>
    unfold Keyed.get? at ih ⊢
    by_cases hn : key = n
    · simp [hn]
    · simp [hn, ih, lookup_cons, beq_eq_false_iff_ne.mpr hn]

lemma map_builtins_get? (n : String) : (builtins.get? (lower n)).map entity = builtin? n := by
  unfold builtin? builtins
  rw [get?_map_append]
  split
  · rfl
  · simp only [Keyed.get?, lookup_cons, lookup_nil]
    by_cases hlength : lower n = "length"
    · simp [hlength, entity]
    · simp [hlength, beq_eq_false_iff_ne.mpr hlength]

variable {t : SymbolTable} {s : Sight}

lemma Stands.lookupType (h : Stands t s) (n : String) : t.lookupType n = s.type? n := by
  unfold Stands at h
  unfold SymbolTable.lookupType type?
  generalize t.scopes = scopes at h ⊢
  induction h with
  | nil => rfl
  | cons hf _ ih => rw [findSome?_cons, findSome?_cons, hf.types n, ih]

lemma Stands.findSome?_symbols (h : Stands t s) (n : String) :
    (t.scopes.findSome? fun scope => scope.symbols.get? (lower n)).map entity =
      s.findSome? fun f => last? f.values n := by
  unfold Stands at h
  generalize t.scopes = scopes at h ⊢
  induction h with
  | nil => rfl
  | @cons scope f scopes s hf _ ih =>
    rw [findSome?_cons, findSome?_cons, ← hf.values n, ← ih]
    cases scope.symbols.get? (lower n) <;> rfl

lemma Stands.lookup (h : Stands t s) (n : String) : (t.lookup n).map entity = s.entity? n := by
  unfold entity? SymbolTable.lookup SymbolTable.resolve
  rw [← h.findSome?_symbols, ← map_builtins_get?]
  dsimp only
  generalize (t.scopes.findSome? fun scope => scope.symbols.get? (lower n)) = declared
  cases declared with
  | none => cases builtins.get? (lower n) <;> rfl
  | some symbol => rfl

/-! ## Legal uses -/

namespace Use

variable {n f : String} {o : Expr}

lemma legal_function : (function n).Legal s ↔
    ∃ e params result, s.entity? n = some e ∧ e.type = .function params result :=
  .rfl

lemma legal_field : (field o f).Legal s ↔ s.typeOf o = .unknown ∨ ((s.typeOf o).fieldType? f).isSome := by
  simp only [Legal]
  generalize s.typeOf o = type
  cases type <;> simp [Ty.fieldType?, find?_isSome]

end Use

end Scoping

/-! ## Expressions -/

namespace Expr

variable {t : SymbolTable} {s : Sight}

mutual

/-- An expression has the type that it has in sight of the scopes, and only warnings are found iff
all uses in it are legal. -/
lemma typed_of_stands (h : Stands t s) : (e : Expr) →
    (e.typed t).1 = s.typeOf e ∧ (Passes (e.typed t).2 ↔ ∀ u ∈ e.uses, u.Legal s)
  | .integer .. | .real .. | .boolean .. | .char .. | .string .. | .unknown _ | .missing => by
    simp [typed, typeOf, uses]
  | .name _ n => by
    simp only [typed, typeOf, uses, forall_mem_singleton, Use.Legal, ← h.lookup]
    cases t.lookup n <;> simp [entity]
  | .binary _ op l r => by
    obtain ⟨hl, hpl⟩ := typed_of_stands h l
    obtain ⟨hr, hpr⟩ := typed_of_stands h r
    simp only [typed, typeOf, uses, hl, hr, passes_append, hpl, hpr, forall_mem_append, and_self]
  | .unary _ op e => by
    obtain ⟨he, hp⟩ := typed_of_stands h e
    cases op <;> simp [typed, typeOf, uses, he, hp]
  | .paren _ e => typed_of_stands h e
  | .index _ a is => by
    obtain ⟨ha, hp⟩ := typed_of_stands h a
    have hpis := passes_checkEach_of_stands h is
    simp only [typed, typeOf, uses, ha, forall_mem_append, ← hp, ← hpis, ← passes_append]
    cases s.typeOf a <;> simp
  | .field _ o f => by
    obtain ⟨ho, hp⟩ := typed_of_stands h o
    simp only [typed, typeOf, uses, ho, forall_mem_append, forall_mem_singleton, ← hp, Use.legal_field]
    cases hunknown : (s.typeOf o).isUnknown with
    | true =>
      obtain ho : s.typeOf o = .unknown := by cases hto : s.typeOf o <;> simp_all [Ty.isUnknown]
      simp [ho, Ty.fieldType?]
    | false =>
      have ho : s.typeOf o ≠ .unknown := fun ho => by simp [ho, Ty.isUnknown] at hunknown
      cases (s.typeOf o).fieldType? f <;> simp [ho]
  | .call _ n args => by
    have hpargs := passes_checkEach_of_stands h args
    simp only [typed, typeOf, uses, forall_mem_cons, Use.legal_function, ← h.lookup, ← hpargs, SymbolTable.lookup]
    cases t.resolve n with
    | none => simp
    | some b => cases htype : b.symbol.type <;> simp [entity, htype, passes_checkArity]

lemma passes_checkEach_of_stands (h : Stands t s) : (es : List Expr) →
    (Passes (checkEach t es) ↔ ∀ u ∈ usesEach es, u.Legal s)
  | [] => by simp [checkEach, usesEach]
  | e :: es => by
    simp only [checkEach, usesEach, passes_append, (typed_of_stands h e).2,
      passes_checkEach_of_stands h es, forall_mem_append]

end

variable (h : Stands t s)
include h

lemma passes_check_of_stands (e : Expr) : Passes (e.check t) ↔ ∀ u ∈ e.uses, u.Legal s :=
  (typed_of_stands h e).2

lemma passes_checkTarget_of_stands (e : Expr) : Passes (e.checkTarget t) ↔ ∀ u ∈ e.uses, u.Legal s := by
  cases e with
  | name span n =>
    simp only [checkTarget, uses, forall_mem_singleton, Use.Legal, ← h.lookup]
    cases t.lookup n <;> simp
  | _ => exact passes_check_of_stands h _

lemma passes_flatMap_checkTarget_of_stands (es : List Expr) :
    Passes (es.flatMap (checkTarget t)) ↔ ∀ u ∈ usesEach es, u.Legal s := by
  induction es with
  | nil => simp [usesEach]
  | cons e es ih =>
    rw [flatMap_cons, passes_append, passes_checkTarget_of_stands h, ih, usesEach, forall_mem_append]

end Expr

/-! ## Statements -/

namespace Stmt

lemma passes_checkReturn (procedure : Option String) (span : Option Span) : Passes (checkReturn procedure span) := by
  cases procedure
  · exact passes_nil
  · exact passes_doubtful _ _

variable {t : SymbolTable} {s : Sight} (h : Stands t s) (procedure : Option String)
include h

lemma passes_checkAssignable_of_stands (e : Expr) : Passes (checkAssignable t e) ↔ ∀ u ∈ e.targetUses, u.Legal s := by
  cases e with
  | name span n =>
    simp only [checkAssignable, Expr.targetUses, forall_mem_singleton, Use.Legal, ← h.lookup]
    cases t.lookup n with
    | none => simp
    | some symbol => cases hconstant : symbol.isConstant <;> simp [entity, hconstant]
  | _ => simp [checkAssignable, Expr.targetUses]

lemma passes_checkCounter_of_stands (n : String) (span : Option Span) :
    Passes (checkCounter t n span) ↔ (Use.counter n).Legal s := by
  simp only [checkCounter, Use.Legal, ← h.lookup]
  cases t.lookup n with
  | none => simp
  | some symbol => cases hconstant : symbol.isConstant <;> simp [entity, hconstant]

lemma passes_checkCallee_of_stands (n : String) (given : Nat) (span : Option Span) :
    Passes (checkCallee t n given span) ↔ (Use.routine n).Legal s := by
  simp only [checkCallee, Use.Legal, ← h.lookup, SymbolTable.lookup]
  cases t.resolve n with
  | none => simp
  | some b => cases hroutine : b.symbol.type.isRoutine <;> simp [entity, hroutine, passes_checkArity]

lemma passes_step_of_stands (step : Option Expr) :
    Passes (step.elim [] (Expr.check t)) ↔ ∀ u ∈ step.elim [] Expr.uses, u.Legal s := by
  cases step with
  | none => simp
  | some e => exact Expr.passes_check_of_stands h e

omit h

mutual

/-- Only warnings are found in a statement iff all uses in it are legal. -/
lemma passes_check_of_stands (h : Stands t s) : (x : Stmt) →
    (Passes (check t procedure x) ↔ ∀ u ∈ x.uses, u.Legal s)
  | assign _ target value => by
    simp only [check, uses, passes_append, forall_mem_append,
      Expr.passes_checkTarget_of_stands h, Expr.passes_check_of_stands h,
      passes_checkAssignable_of_stands h]
  | ifThen _ c yes none => by
    simp only [check, uses, passes_append, forall_mem_append, Expr.passes_check_of_stands h,
      passes_checkEach_of_stands h yes]
  | ifThen _ c yes (some no) => by
    simp only [check, uses, passes_append, forall_mem_append, Expr.passes_check_of_stands h,
      passes_checkEach_of_stands h yes, passes_checkEach_of_stands h no]
  | .while _ c body | doWhile _ body c => by
    simp only [check, uses, passes_append, forall_mem_append, Expr.passes_check_of_stands h,
      passes_checkEach_of_stands h body]
  | .for span n a b step body => by
    simp only [check, uses, passes_append, forall_mem_cons, forall_mem_append, Expr.passes_check_of_stands h,
      passes_checkCounter_of_stands h, passes_step_of_stands h, passes_checkEach_of_stands h body, and_assoc]
  | switch _ e cases none => by
    simp only [check, uses, passes_append, forall_mem_append, Expr.passes_check_of_stands h,
      passes_checkCases_of_stands h cases]
  | switch _ e cases (some d) => by
    simp only [check, uses, passes_append, forall_mem_append, Expr.passes_check_of_stands h,
      passes_checkCases_of_stands h cases, passes_checkEach_of_stands h d]
  | call span n args => by
    simp only [check, uses, passes_append, forall_mem_cons, passes_checkCallee_of_stands h,
      Expr.passes_checkEach_of_stands h]
  | scan _ ts => Expr.passes_flatMap_checkTarget_of_stands h ts
  | print _ es => Expr.passes_checkEach_of_stands h es
  | .return span e => by
    simp only [check, uses, passes_append, passes_checkReturn, true_and, Expr.passes_check_of_stands h]
  | block _ body => passes_checkEach_of_stands h body
  | unknown _ => by simp [check, uses]

lemma passes_checkEach_of_stands (h : Stands t s) :
    (body : List Stmt) → (Passes (checkEach t procedure body) ↔ ∀ u ∈ usesEach body, u.Legal s)
  | [] => by simp [checkEach, usesEach]
  | x :: body => by
    simp only [checkEach, usesEach, passes_append, forall_mem_append,
      passes_check_of_stands h x, passes_checkEach_of_stands h body]

lemma passes_checkCases_of_stands (h : Stands t s) : (cases : List CaseClause) →
      (Passes (checkCases t procedure cases) ↔ ∀ u ∈ usesCases cases, u.Legal s)
  | [] => by simp [checkCases, usesCases]
  | ⟨_, vs, body⟩ :: cases => by
    simp only [checkCases, usesCases, passes_append, forall_mem_append, Expr.passes_checkEach_of_stands h,
      passes_checkEach_of_stands h body, passes_checkCases_of_stands h cases]

end

end Stmt

end AlgoLang
