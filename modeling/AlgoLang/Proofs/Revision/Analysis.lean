/-
# Findings about a revised program

A table of symbols has its names in small letters, so the analysis of a revised program takes the same
branches, and finds the same at the new places, with messages that look the same.
-/
import AlgoLang.Proofs.Revision

namespace AlgoLang

open Text List Expr Ty Diagnostic

variable {α : Type} {g : α → α} {ds ds' : List Diagnostic}

/-! ## Tables -/

namespace Ty

mutual

def rename (f : String → String) : Ty → Ty
  | array ds t => array ds (rename f t)
  | record fields => record (renameFields f fields)
  | enumeration vs => enumeration (vs.map f)
  | function ps t => function (renameEach f ps) (rename f t)
  | procedure ps => procedure (renameEach f ps)
  | integer => integer
  | real => real
  | boolean => boolean
  | char => char
  | string => string
  | unknown => unknown

def renameEach (f : String → String) : List Ty → List Ty
  | [] => []
  | t :: ts => rename f t :: renameEach f ts

def renameFields (f : String → String) : List (String × Ty) → List (String × Ty)
  | [] => []
  | (n, t) :: fields => (f n, rename f t) :: renameFields f fields

end

end Ty

def Symbol.rename (f : String → String) (s : Symbol) : Symbol :=
  { s with name := f s.name, type := s.type.rename f }

/-- The binding spelled in another way; a built-in function keeps its name. -/
def Binding.rename (f : String → String) : Binding → Binding
  | declared s => declared (s.rename f)
  | builtin s => builtin { s with type := s.type.rename f }

/-- The second scope has what the first one has, spelled in another way. -/
structure Scope.Renamed (f : String → String) (s s' : Scope) : Prop where
  symbols : ∀ key, s'.symbols.get? key = (s.symbols.get? key).map (Symbol.rename f)
  types : ∀ key, s'.types.get? key = (s.types.get? key).map (rename f)

/-- The second table has other spellings under the same keys, scope by scope. -/
structure SymbolTable.Renamed (f : String → String) (t t' : SymbolTable) : Prop where
  inner : Forall₂ (Scope.Renamed f) t.inner t'.inner
  outermost : t.outermost.Renamed f t'.outermost

section

variable {f : String → String}

lemma Ty.renameEach_eq_map (ts : List Ty) : renameEach f ts = ts.map (rename f) := by
  induction ts with
  | nil => rfl
  | cons t ts ih => rw [renameEach, ih, map_cons]

lemma Ty.renameFields_eq_map (fields : List (String × Ty)) :
    renameFields f fields = fields.map (.map f (rename f)) := by
  induction fields with
  | nil => rfl
  | cons field fields ih =>
    rw [renameFields, ih, map_cons, Prod.map_apply]

lemma Ty.isUnknown_rename (t : Ty) : (t.rename f).isUnknown = t.isUnknown := by
  cases t <;> rfl

lemma Ty.isRoutine_rename (t : Ty) : (t.rename f).isRoutine = t.isRoutine := by
  cases t <;> rfl

lemma Ty.length_params_rename (t : Ty) : (t.rename f).params.length = t.params.length := by
  cases t with
  | function ps _ | procedure ps => simp [rename, params, renameEach_eq_map]
  | _ => rfl

lemma Ty.rename_ofArithmetic (s t : Ty) : (ofArithmetic s t).rename f = ofArithmetic (s.rename f) (t.rename f) := by
  cases s <;> cases t <;> rfl

lemma Ty.fieldType?_rename (hf : ∀ n, lower (f n) = lower n) (t : Ty) (n : String) :
    (t.rename f).fieldType? (f n) = (t.fieldType? n).map (rename f) := by
  cases t with
  | record fields =>
    have hkeys : ((fun e : String × Ty => lower e.1 == lower (f n)) ∘ .map f (rename f)) =
        fun e => lower e.1 == lower n := by
      funext e
      rw [Function.comp_apply, Prod.map_fst, hf, hf]
    simp only [rename, fieldType?, renameFields_eq_map, find?_map, hkeys, Option.map_map]
    rfl
  | _ => rfl

/-- The built-in functions take and give what has no name. -/
lemma type_rename_of_builtin {key : String} {s : Symbol} (h : builtins.get? key = some s) :
    s.type.rename f = s.type := by
  have hall : ∀ e ∈ builtins, e.2.type.rename f = e.2.type := by
    simp [builtins, rename, renameEach]
  obtain ⟨before, after, heq, -⟩ := lookup_eq_some_iff.mp h
  exact hall (key, s) (by rw [heq]; simp)

lemma Keyed.get?_put (entries : Keyed α) (key other : String) (value : α) :
    (entries.put key value).get? other = if other = key then some value else entries.get? other := by
  split
  · next h => rw [h, get?_put_self]
  · next h => exact get?_put_of_ne entries value h

lemma Scope.Renamed.empty : Scope.Renamed f {} {} :=
  ⟨fun _ => rfl, fun _ => rfl⟩

lemma Scope.findSome?_map_of_forall₂ {find : Scope → Option α} {ss ss' : List Scope}
    (h : Forall₂ (fun s s' => find s' = (find s).map g) ss ss') : ss'.findSome? find = (ss.findSome? find).map g := by
  induction h with
  | nil => rfl
  | @cons s _ _ _ hs _ ih =>
    rw [findSome?_cons, findSome?_cons, hs, ih]
    cases find s <;> rfl

namespace SymbolTable

lemma Renamed.empty : Renamed f {} {} :=
  ⟨.nil, .empty⟩

variable {t t' : SymbolTable} (h : t.Renamed f t')
include h

lemma Renamed.scopes : Forall₂ (Scope.Renamed f) t.scopes t'.scopes :=
  rel_append h.inner (.cons h.outermost .nil)

lemma Renamed.enter : t.enter.Renamed f t'.enter :=
  ⟨.cons .empty h.inner, h.outermost⟩

lemma Renamed.exit : t.exit.Renamed f t'.exit := by
  obtain ⟨inner, outermost⟩ := t
  obtain ⟨inner', outermost'⟩ := t'
  obtain ⟨hinner, houtermost⟩ := h
  cases hinner with
  | nil => exact ⟨.nil, houtermost⟩
  | cons _ hrest => exact ⟨hrest, houtermost⟩

lemma Renamed.current : t.current.Renamed f t'.current := by
  obtain ⟨inner, outermost⟩ := t
  obtain ⟨inner', outermost'⟩ := t'
  obtain ⟨hinner, houtermost⟩ := h
  cases hinner with
  | nil => exact houtermost
  | cons hfirst _ => exact hfirst

lemma Renamed.withCurrent {s s' : Scope} (hs : s.Renamed f s') : (t.withCurrent s).Renamed f (t'.withCurrent s') := by
  obtain ⟨inner, outermost⟩ := t
  obtain ⟨inner', outermost'⟩ := t'
  obtain ⟨hinner, houtermost⟩ := h
  cases hinner with
  | nil => exact ⟨.nil, hs⟩
  | cons _ hrest => exact ⟨.cons hs hrest, houtermost⟩

variable (hf : ∀ n, lower (f n) = lower n)
include hf

lemma Renamed.define (s : Symbol) : (t.define s).Renamed f (t'.define (s.rename f)) := by
  refine h.withCurrent ⟨fun key => ?_, h.current.types⟩
  have hkey : lower (s.rename f).name = lower s.name := hf s.name
  rw [Keyed.get?_put, Keyed.get?_put, hkey, h.current.symbols]
  split <;> rfl

lemma Renamed.lookupLocal (n : String) : t'.lookupLocal (f n) = (t.lookupLocal n).map (.rename f) := by
  rw [SymbolTable.lookupLocal, hf]
  exact h.current.symbols _

lemma Renamed.lookupType (n : String) : t'.lookupType (f n) = (t.lookupType n).map (rename f) := by
  rw [SymbolTable.lookupType, SymbolTable.lookupType, hf]
  exact Scope.findSome?_map_of_forall₂ (h.scopes.imp fun _ _ hs => hs.types _)

lemma Renamed.resolve (n : String) : t'.resolve (f n) = (t.resolve n).map (.rename f) := by
  have hscopes := Scope.findSome?_map_of_forall₂ (h.scopes.imp fun _ _ hs => hs.symbols (lower n))
  simp only [SymbolTable.resolve, hf, hscopes]
  cases t.scopes.findSome? fun s => s.symbols.get? (lower n) with
  | some s => rfl
  | none =>
    cases hget : builtins.get? (lower n) with
    | none => rfl
    | some s => simp [Binding.rename, type_rename_of_builtin hget]

end SymbolTable

lemma Binding.type_rename (b : Binding) : (b.rename f).symbol.type = b.symbol.type.rename f := by
  cases b <;> rfl

lemma Binding.isConstant_rename (b : Binding) : (b.rename f).symbol.isConstant = b.symbol.isConstant := by
  cases b <;> rfl

lemma Primitive.ty_rename (p : Primitive) : p.ty.rename f = p.ty := by
  cases p <;> rfl

end

/-! ## Findings -/

/-- A finding with the look of its message, at another place. -/
def Diagnostic.seen (view : String → String) (place : Location → Location) (d : Diagnostic) : Diagnostic :=
  { d with message := view d.message, location := place d.location }

/-- The second findings are the first ones at the new places, and look the same. -/
def SameFindings (ρ : Revision) (ds ds' : List Diagnostic) : Prop :=
  ds.map (seen ρ.view ρ.place) = ds'.map (seen ρ.view id)

variable {ρ : Revision}

lemma SameFindings.nil : SameFindings ρ [] [] :=
  rfl

lemma SameFindings.append {es es' : List Diagnostic} (h : SameFindings ρ ds ds')
    (h' : SameFindings ρ es es') : SameFindings ρ (ds ++ es) (ds' ++ es') := by
  unfold SameFindings at *
  rw [map_append, map_append, h, h']

/-- The second answer is the first one renamed, and the same is found. -/
structure RevisedAnswer {α : Type} (ρ : Revision) (rename : α → α) (x y : α × List Diagnostic) : Prop where
  answer : y.1 = rename x.1
  found : SameFindings ρ x.2 y.2

namespace Analysis

/-- The second analysis has the renamed table, and it has found the same. -/
structure Revised (ρ : Revision) (a b : Analysis) : Prop where
  table : a.table.Renamed ρ.name b.table
  found : SameFindings ρ a.found b.found

variable {a b : Analysis}

lemma Revised.note (h : a.Revised ρ b) (hds : SameFindings ρ ds ds') : (a.note ds).Revised ρ (b.note ds') :=
  ⟨h.table, h.found.append hds⟩

lemma Revised.enter (h : a.Revised ρ b) :
    Revised ρ { a with table := a.table.enter } { b with table := b.table.enter } :=
  ⟨h.table.enter, h.found⟩

lemma Revised.exit (h : a.Revised ρ b) :
    Revised ρ { a with table := a.table.exit } { b with table := b.table.exit } :=
  ⟨h.table.exit, h.found⟩

lemma Revised.foldl (step : Analysis → α → Analysis) (h : a.Revised ρ b)
    (hstep : ∀ a b x, a.Revised ρ b → (step a x).Revised ρ (step b (g x))) (xs : List α) :
    (xs.foldl step a).Revised ρ ((xs.map g).foldl step b) := by
  induction xs generalizing a b with
  | nil => exact h
  | cons x xs ih => exact ih (hstep a b x h)

end Analysis

/-! ## What has no names -/

lemma Expr.size?_revise (e : Expr) : (e.revise ρ).size? = e.size? := by
  cases e <;> rfl

lemma Expr.literalType_revise (e : Expr) : (e.revise ρ).literalType = e.literalType.rename ρ.name := by
  cases e <;> rfl

lemma Expr.literalValue?_revise (e : Expr) : (e.revise ρ).literalValue? = e.literalValue? := by
  cases e <;> rfl

lemma Expr.length_reviseEach (es : List Expr) : (reviseEach ρ es).length = es.length := by
  rw [reviseEach_eq_map, length_map]

namespace Stmt

mutual

lemma returns_revise : (s : Stmt) → (s.revise ρ).returns = s.returns
  | .assign .. | .call .. | .scan .. | .print .. | .return .. | .unknown .. => by
    simp only [revise, returns]
  | .ifThen _ _ yes none => by simp only [revise, returns, returnsAny_revise yes]
  | .ifThen _ _ yes (some no) => by
    simp only [revise, returns, returnsAny_revise yes, returnsAny_revise no]
  | .while _ _ body | .doWhile _ body _ | .for _ _ _ _ _ body | .block _ body => by
    simp only [revise, returns, returnsAny_revise body]
  | .switch _ _ cases none => by simp only [revise, returns, returnsCases_revise cases]
  | .switch _ _ cases (some d) => by
    simp only [revise, returns, returnsCases_revise cases, returnsAny_revise d]

lemma returnsAny_revise : (ss : List Stmt) → returnsAny (reviseEach ρ ss) = returnsAny ss
  | [] => rfl
  | s :: ss => by simp only [reviseEach, returnsAny, returns_revise s, returnsAny_revise ss]

lemma returnsCases_revise : (cs : List CaseClause) → returnsCases (reviseCases ρ cs) = returnsCases cs
  | [] => rfl
  | ⟨_, _, body⟩ :: cs => by
    simp only [reviseCases, returnsCases, returnsAny_revise body, returnsCases_revise cs]

end

end Stmt

/-! ## Messages -/

lemma wrong_revise (before : String) (hopen : OpensQuote before) (n after : String) (span : Option Span) :
    SameFindings ρ [wrong (before ++ n ++ after) span] [wrong (before ++ ρ.name n ++ after) (ρ.spot span)] := by
  simp [SameFindings, wrong, seen, ρ.view_name hopen, ρ.findingAt_spot]

lemma doubtful_revise (before : String) (hopen : OpensQuote before) (n after : String) (span : Option Span) :
    SameFindings ρ [doubtful (before ++ n ++ after) span] [doubtful (before ++ ρ.name n ++ after) (ρ.spot span)] := by
  simp [SameFindings, doubtful, seen, ρ.view_name hopen, ρ.findingAt_spot]

/-! ## Types -/

variable {table table' : SymbolTable}

namespace TypeExpr

mutual

lemma resolve_revise (h : table.Renamed ρ.name table') : (t : TypeExpr) →
    RevisedAnswer ρ (rename ρ.name) (t.resolve table) ((t.revise ρ).resolve table')
  | .primitive _ p => ⟨p.ty_rename.symm, .nil⟩
  | .array _ ds t => by
    have ih := resolve_revise h t
    have hsizes : (reviseEach ρ ds).map size? = ds.map size? := by
      rw [reviseEach_eq_map, map_map]
      exact map_congr_left fun e _ => e.size?_revise
    simp only [revise, resolve, hsizes, ih.answer]
    exact ⟨rfl, ih.found⟩
  | .record _ fields => by
    have ih := resolveFields_revise h fields
    simp only [revise, resolve, ih.answer]
    exact ⟨rfl, ih.found⟩
  | .named span n => by
    simp only [revise, resolve, h.lookupType ρ.lower_name]
    cases table.lookupType n with
    | some t => exact ⟨rfl, .nil⟩
    | none => exact ⟨rfl, wrong_revise "Undefined type '" rfl n "'" span⟩
  | .enumeration .. | .unknown _ | .missing => ⟨rfl, .nil⟩

lemma resolveFields_revise (h : table.Renamed ρ.name table') : (fields : List VarDecl) →
    RevisedAnswer ρ (renameFields ρ.name) (resolveFields table fields) (resolveFields table' (reviseFields ρ fields))
  | [] => ⟨rfl, .nil⟩
  | ⟨_, names, t⟩ :: fields => by
    have ih := resolve_revise h t
    have ihs := resolveFields_revise h fields
    simp only [reviseFields, resolveFields, ih.answer, ihs.answer]
    refine ⟨?_, ih.found.append ihs.found⟩
    simp only [renameFields_eq_map, map_append, map_map]
    rfl

end

end TypeExpr

/-! ## Expressions -/

lemma checkArity_revise (b : Binding) (given : Nat) (span : Option Span) :
    SameFindings ρ (checkArity b given span) (checkArity (b.rename ρ.name) given (ρ.spot span)) := by
  cases b with
  | builtin s => exact .nil
  | declared s =>
    simp only [checkArity, Binding.rename, Binding.symbol, Binding.isBuiltin, Symbol.rename,
      length_params_rename, Bool.false_or]
    split
    · exact .nil
    · have hmessage (n : String) : s!"'{n}' expects {s.type.params.length} argument(s), got {given}" =
          "'" ++ n ++ s!"' expects {s.type.params.length} argument(s), got {given}" := by
        simp only [toString, String.append_assoc]
      rw [hmessage, hmessage]
      exact doubtful_revise "'" rfl s.name _ span

namespace Expr

mutual

lemma typed_revise (h : table.Renamed ρ.name table') : (e : Expr) →
    RevisedAnswer ρ (rename ρ.name) (e.typed table) ((e.revise ρ).typed table')
  | .integer .. | .real .. | .boolean .. | .char .. | .string .. | .unknown _ | .missing => ⟨rfl, .nil⟩
  | .name span n => by
    simp only [revise, typed, SymbolTable.lookup, h.resolve ρ.lower_name]
    cases table.resolve n with
    | none => exact ⟨rfl, wrong_revise "Undefined identifier '" rfl n "'" span⟩
    | some b => cases b <;> exact ⟨rfl, .nil⟩
  | .binary _ op l r => by
    have ihl := typed_revise h l
    have ihr := typed_revise h r
    simp only [revise, typed, ihl.answer, ihr.answer]
    refine ⟨?_, ihl.found.append ihr.found⟩
    cases op.isArithmetic with
    | true => exact (rename_ofArithmetic _ _).symm
    | false => rfl
  | .unary _ op e => by
    have ih := typed_revise h e
    simp only [revise, typed, ih.answer]
    refine ⟨?_, ih.found⟩
    cases op <;> rfl
  | .paren _ e => typed_revise h e
  | .index _ a is => by
    have ih := typed_revise h a
    have ihs := checkEach_revise h is
    simp only [revise, typed, ih.answer]
    cases (a.typed table).1 <;> exact ⟨rfl, ih.found.append ihs⟩
  | .field span o n => by
    have ih := typed_revise h o
    simp only [revise, typed, ih.answer, isUnknown_rename, fieldType?_rename ρ.lower_name]
    split
    · exact ⟨rfl, ih.found⟩
    · cases (o.typed table).1.fieldType? n with
      | some t => exact ⟨rfl, ih.found⟩
      | none => exact ⟨rfl, ih.found.append (wrong_revise "Unknown field '" rfl n "'" span)⟩
  | .call span n args => by
    have ihs := checkEach_revise h args
    simp only [revise, typed, h.resolve ρ.lower_name, length_reviseEach]
    cases table.resolve n with
    | none => exact ⟨rfl, wrong_revise "Undefined function '" rfl n "'" span⟩
    | some b =>
      dsimp only [Option.map_some]
      rw [b.type_rename]
      cases b.symbol.type with
      | function ps result => exact ⟨rfl, (checkArity_revise b _ span).append ihs⟩
      | _ => exact ⟨rfl, wrong_revise "'" rfl n "' is not a function" span⟩

lemma checkEach_revise (h : table.Renamed ρ.name table') : (es : List Expr) →
    SameFindings ρ (checkEach table es) (checkEach table' (reviseEach ρ es))
  | [] => .nil
  | e :: es => by
    simp only [reviseEach, checkEach]
    exact (typed_revise h e).found.append (checkEach_revise h es)

end

variable (h : table.Renamed ρ.name table')
include h

lemma check_revise (e : Expr) : SameFindings ρ (e.check table) ((e.revise ρ).check table') :=
  (typed_revise h e).found

lemma checkTarget_revise (e : Expr) : SameFindings ρ (e.checkTarget table) ((e.revise ρ).checkTarget table') := by
  have hcheck := check_revise h e
  cases e with
  | name span n =>
    simp only [revise, checkTarget, SymbolTable.lookup, h.resolve ρ.lower_name, Option.isSome_map]
    split
    · exact .nil
    · exact wrong_revise "Undefined variable '" rfl n "'" span
  | _ => exact hcheck

end Expr

/-! ## Statements -/

namespace Stmt

variable (h : table.Renamed ρ.name table')
include h

lemma checkAssignable_revise (e : Expr) :
    SameFindings ρ (checkAssignable table e) (checkAssignable table' (e.revise ρ)) := by
  cases e with
  | name span n =>
    have hconstant : (table'.lookup (ρ.name n)).map Symbol.isConstant = (table.lookup n).map Symbol.isConstant := by
      rw [SymbolTable.lookup, SymbolTable.lookup, h.resolve ρ.lower_name]
      cases table.resolve n with
      | none => rfl
      | some b => exact congrArg some b.isConstant_rename
    simp only [Expr.revise, checkAssignable, hconstant]
    split
    · exact wrong_revise "Cannot assign to constant '" rfl n "'" span
    · exact .nil
  | _ => exact .nil

lemma checkCounter_revise (n : String) (span : Option Span) :
    SameFindings ρ (checkCounter table n span) (checkCounter table' (ρ.name n) (ρ.spot span)) := by
  simp only [checkCounter, SymbolTable.lookup, h.resolve ρ.lower_name]
  cases table.resolve n with
  | none => exact wrong_revise "Undefined variable '" rfl n "'" span
  | some b =>
    simp only [Option.map_some, b.isConstant_rename]
    split
    · exact wrong_revise "Cannot assign to constant '" rfl n "'" span
    · exact .nil

lemma checkCallee_revise (n : String) (given : Nat) (span : Option Span) :
    SameFindings ρ (checkCallee table n given span) (checkCallee table' (ρ.name n) given (ρ.spot span)) := by
  simp only [checkCallee, h.resolve ρ.lower_name]
  cases table.resolve n with
  | none => exact wrong_revise "Undefined procedure '" rfl n "'" span
  | some b =>
    simp only [Option.map_some, b.type_rename, isRoutine_rename]
    split
    · exact checkArity_revise b given span
    · exact wrong_revise "'" rfl n "' is not a procedure" span

lemma checkTargets_revise (es : List Expr) : SameFindings ρ (es.flatMap (checkTarget table))
      ((Expr.reviseEach ρ es).flatMap (Expr.checkTarget table')) := by
  induction es with
  | nil => exact .nil
  | cons e es ih =>
    exact (e.checkTarget_revise h).append ih

variable (procedure : Option String)

omit h

mutual

lemma check_revise (h : table.Renamed ρ.name table') : (s : Stmt) →
    SameFindings ρ (s.check table procedure) ((s.revise ρ).check table' (procedure.map ρ.name))
  | .assign _ t v => by
    exact ((t.checkTarget_revise h).append (v.check_revise h)).append (checkAssignable_revise h t)
  | .ifThen _ c yes none => by
    exact (c.check_revise h).append (checkEach_revise h yes)
  | .ifThen _ c yes (some no) => by
    exact ((c.check_revise h).append (checkEach_revise h yes)).append (checkEach_revise h no)
  | .while _ c body => by
    exact (c.check_revise h).append (checkEach_revise h body)
  | .doWhile _ body c => by
    exact (checkEach_revise h body).append (c.check_revise h)
  | .for span n a b step body => by
    refine ((((checkCounter_revise h n span).append (a.check_revise h)).append (b.check_revise h)).append
      ?_).append (checkEach_revise h body)
    cases step with
    | none => exact .nil
    | some e => exact e.check_revise h
  | .switch _ e cases none => by
    exact (e.check_revise h).append (checkCases_revise h cases)
  | .switch _ e cases (some d) => by
    simp only [revise, check]
    exact ((e.check_revise h).append (checkCases_revise h cases)).append (checkEach_revise h d)
  | .call span n args => by
    simp only [revise, check, length_reviseEach]
    exact (checkCallee_revise h n _ span).append (Expr.checkEach_revise h args)
  | .scan _ ts => by
    simp only [revise, check]
    exact checkTargets_revise h ts
  | .print _ es => by
    simp only [revise, check]
    exact Expr.checkEach_revise h es
  | .return span e => by
    simp only [revise, check]
    refine .append ?_ (e.check_revise h)
    cases procedure with
    | none => exact .nil
    | some n => exact doubtful_revise "RETURN in procedure '" rfl n "' has no effect on its caller" span
  | .block _ body => by
    simp only [revise, check]
    exact checkEach_revise h body
  | .unknown _ => .nil

lemma checkEach_revise (h : table.Renamed ρ.name table') : (ss : List Stmt) →
    SameFindings ρ (checkEach table procedure ss) (checkEach table' (procedure.map ρ.name) (reviseEach ρ ss))
  | [] => .nil
  | s :: ss => by
    exact (check_revise h s).append (checkEach_revise h ss)

lemma checkCases_revise (h : table.Renamed ρ.name table') : (cs : List CaseClause) →
    SameFindings ρ (checkCases table procedure cs) (checkCases table' (procedure.map ρ.name) (reviseCases ρ cs))
  | [] => .nil
  | ⟨_, vs, body⟩ :: cs => by
    exact ((Expr.checkEach_revise h vs).append (checkEach_revise h body)).append (checkCases_revise h cs)

end

end Stmt

/-! ## Declarations and programs -/

namespace Analysis

variable {a b : Analysis}

lemma Revised.declare (h : a.Revised ρ b) (s : Symbol) (span : Option Span) :
    (a.declare s span).Revised ρ (b.declare (s.rename ρ.name) (ρ.spot span)) := by
  have hlocal : (b.table.lookupLocal (s.rename ρ.name).name).isSome = (a.table.lookupLocal s.name).isSome := by
    rw [Symbol.rename, h.table.lookupLocal ρ.lower_name, Option.isSome_map]
  unfold Analysis.declare
  rw [hlocal]
  refine ⟨h.table.define ρ.lower_name s, h.found.append ?_⟩
  split
  · exact doubtful_revise "'" rfl s.name "' is already declared in this scope" span
  · exact .nil

lemma Revised.declareEach (h : a.Revised ρ b) (symbol symbol' : α → Symbol)
    (span span' : α → Option Span) (hsymbol : ∀ x, symbol' (g x) = (symbol x).rename ρ.name)
    (hspan : ∀ x, span' (g x) = ρ.spot (span x)) (xs : List α) :
    (xs.foldl (fun a x => a.declare (symbol x) (span x)) a).Revised ρ
      ((xs.map g).foldl (fun a x => a.declare (symbol' x) (span' x)) b) := by
  induction xs generalizing a b with
  | nil => exact h
  | cons x xs ih =>
    have hfirst : (a.declare (symbol x) (span x)).Revised ρ (b.declare (symbol' (g x)) (span' (g x))) := by
      rw [hsymbol, hspan]
      exact h.declare (symbol x) (span x)
    exact ih hfirst

lemma Revised.declareValues (h : a.Revised ρ b) (d : TypeDecl) :
    (a.declareValues d).Revised ρ (b.declareValues (d.revise ρ)) := by
  obtain ⟨span, name, definition⟩ := d
  let symbol (e : String × Nat) : Symbol :=
    { name := e.1, type := .integer, isConstant := true, value := some (.integer e.2) }
  cases definition with
  | enumeration _ vs =>
    have hvalues := h.declareEach symbol symbol (fun _ => span) (fun _ => ρ.spot span)
      (g := .map ρ.name id) (fun _ => rfl) (fun _ => rfl) vs.zipIdx
    rw [← zipIdx_map] at hvalues
    exact hvalues
  | _ => simpa only [Analysis.declareValues, TypeDecl.revise, TypeExpr.revise] using h

section

variable (h : a.Revised ρ b)
include h

lemma Revised.declareType (d : TypeDecl) : (a.declareType d).Revised ρ (b.declareType (d.revise ρ)) := by
  have hresolve := d.definition.resolve_revise h.table
  refine declareValues (a := { table := _, found := _ }) (b := { table := _, found := _ }) ⟨?_, ?_⟩ d
  · simp only [TypeDecl.revise, hresolve.answer]
    refine h.table.withCurrent ⟨h.table.current.symbols, fun key => ?_⟩
    rw [Keyed.get?_put, Keyed.get?_put, ρ.lower_name, h.table.current.types]
    split <;> rfl
  · exact h.found.append hresolve.found

lemma Revised.declareConstant (d : ConstDecl) : (a.declareConstant d).Revised ρ (b.declareConstant (d.revise ρ)) := by
  simp only [Analysis.declareConstant, ConstDecl.revise, d.value.literalType_revise, d.value.literalValue?_revise]
  exact h.declare _ d.span

lemma Revised.declareVariables (d : VarDecl) :
    (a.declareVariables d).Revised ρ (b.declareVariables (d.revise ρ)) := by
  have hresolve := d.type.resolve_revise h.table
  simp only [Analysis.declareVariables, VarDecl.revise, hresolve.answer]
  exact (h.note hresolve.found).declareEach (fun n => { name := n, type := _ })
    (fun n => { name := n, type := _ }) (fun _ => d.span) (fun _ => ρ.spot d.span) (fun _ => rfl) (fun _ => rfl)
    d.names

lemma Revised.declareAll (d : Declarations) : (a.declareAll d).Revised ρ (b.declareAll (d.revise ρ)) := by
  have htypes := h.foldl .declareType (fun _ _ d h => h.declareType d) d.types
  have hconstants := htypes.foldl .declareConstant (fun _ _ d h => h.declareConstant d) d.constants
  have hvars := hconstants.foldl .declareVariables (fun _ _ d h => h.declareVariables d) d.vars
  simp only [Analysis.declareAll, Declarations.revise, TypeExpr.reviseFields_eq_map]
  exact hvars

end

lemma paramTypes_revise (h : table.Renamed ρ.name table') (ps : List Param) :
    RevisedAnswer ρ (.map (rename ρ.name)) (paramTypes table ps)
      (paramTypes table' (ps.map (.revise ρ))) := by
  induction ps with
  | nil => exact ⟨rfl, .nil⟩
  | cons p ps ih =>
    have hresolve := p.type.resolve_revise h
    refine ⟨?_, hresolve.found.append ih.found⟩
    exact cons_eq_cons.mpr ⟨hresolve.answer, ih.answer⟩

lemma Revised.declareRoutine (h : a.Revised ρ b) (r : Routine) :
    (a.declareRoutine r).1.Revised ρ (b.declareRoutine (r.revise ρ)).1 ∧
      (b.declareRoutine (r.revise ρ)).2 = (a.declareRoutine r).2.map (rename ρ.name) := by
  have hparams := paramTypes_revise h.table r.params
  obtain ⟨span, name, params, result, locals, body⟩ := r
  cases result with
  | none =>
    simp only [Analysis.declareRoutine, Routine.revise, hparams.answer, Option.map_none]
    refine ⟨?_, trivial⟩
    rw [← renameEach_eq_map]
    exact (h.note (hparams.found.append .nil)).declare _ span
  | some t =>
    have hresolve := t.resolve_revise h.table
    simp only [Analysis.declareRoutine, Routine.revise, hparams.answer, Option.map_some, hresolve.answer]
    refine ⟨?_, trivial⟩
    rw [← renameEach_eq_map]
    exact (h.note (hparams.found.append hresolve.found)).declare _ span

lemma Revised.declareRoutines (h : a.Revised ρ b) (rs : List Routine) :
    (a.declareRoutines rs).1.Revised ρ (b.declareRoutines (rs.map (.revise ρ))).1 ∧
      (b.declareRoutines (rs.map (.revise ρ))).2 =
        (a.declareRoutines rs).2.map (.map (.revise ρ) (.map (rename ρ.name))) := by
  induction rs generalizing a b with
  | nil => exact ⟨h, rfl⟩
  | cons r rs ih =>
    obtain ⟨hfirst, hparams⟩ := h.declareRoutine r
    obtain ⟨hothers, hsignatures⟩ := ih hfirst
    exact ⟨hothers, cons_eq_cons.mpr ⟨Prod.ext rfl hparams, hsignatures⟩⟩

lemma checkReturns_revise (r : Routine) : SameFindings ρ (checkReturns r) (checkReturns (r.revise ρ)) := by
  simp only [checkReturns, Routine.revise, Option.isSome_map, Stmt.returnsAny_revise]
  split
  · exact doubtful_revise "Function '" rfl r.name "' has no RETURN statement" r.span
  · exact .nil

lemma Revised.routine (h : a.Revised ρ b) (r : Routine) (types : List Ty) :
    (a.routine r types).Revised ρ (b.routine (r.revise ρ) (types.map (rename ρ.name))) := by
  have hparams := h.enter.declareEach
    (fun e : Param × Ty => { name := e.1.name, type := e.2, byReference := e.1.byReference })
    (fun e : Param × Ty => { name := e.1.name, type := e.2, byReference := e.1.byReference })
    (fun e => e.1.span) (fun e => e.1.span) (g := .map (.revise ρ) (rename ρ.name)) (fun _ => rfl)
    (fun _ => rfl) (r.params.zip types)
  rw [← zip_map] at hparams
  have hlocals := hparams.declareAll r.locals
  have hprocedure : (if (r.revise ρ).result.isSome then none else some (r.revise ρ).name) =
      (if r.result.isSome then none else some r.name).map ρ.name := by
    simp only [Routine.revise, Option.isSome_map]
    split <;> rfl
  have hbody := Stmt.checkEach_revise (if r.result.isSome then none else some r.name) hlocals.table r.body
  rw [← hprocedure] at hbody
  exact (hlocals.note (hbody.append (checkReturns_revise r))).exit

/-- **The revised program is found at fault for the same reasons.** -/
lemma ofProgram_revise (p : Program) : (ofProgram p).Revised ρ (ofProgram (p.revise ρ)) := by
  have hglobals := Revised.declareAll (ρ := ρ) (a := {}) (b := {}) ⟨.empty, .nil⟩ p.globals
  obtain ⟨hfunctions, hsignatures⟩ := hglobals.declareRoutines p.functions
  obtain ⟨hprocedures, hsignatures'⟩ := hfunctions.declareRoutines p.procedures
  have hbodies := hprocedures.foldl (fun a e => a.routine e.1 e.2)
    (g := .map (.revise ρ) (.map (rename ρ.name))) (fun _ _ e h => h.routine e.1 e.2)
    (((declareAll {} p.globals).declareRoutines p.functions).2 ++
      (((declareAll {} p.globals).declareRoutines p.functions).1.declareRoutines p.procedures).2)
  rw [map_append, ← hsignatures, ← hsignatures'] at hbodies
  exact hbodies.note (Stmt.checkEach_revise none hbodies.table p.body)

end Analysis

end AlgoLang
