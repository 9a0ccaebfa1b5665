/-
# The order of routines does not matter to the analysis

All routines are declared before the first body is looked at, and each body has a scope of its own that is gone
afterwards.  So what is found in a body depends on no other body, and the table holds the same under a name for
any order of distinct names.
-/
import AlgoLang.Proofs.Revision.Analysis
import AlgoLang.Proofs.Scoping.Program
import AlgoLang.Proofs.SymbolTable

namespace AlgoLang

open Text TypeExpr List Stmt

/-! ## Tables that hold the same -/

namespace Ty

mutual

lemma rename_id : (t : Ty) → t.rename id = t
  | array _ t => by rw [rename, rename_id t]
  | record fields => by rw [rename, renameFields_id fields]
  | enumeration vs => by rw [rename, map_id]
  | function ps t => by rw [rename, renameEach_id ps, rename_id t]
  | procedure ps => by rw [rename, renameEach_id ps]
  | integer | real | boolean | char | string | unknown => rfl

lemma renameEach_id : (ts : List Ty) → renameEach id ts = ts
  | [] => rfl
  | t :: ts => by rw [renameEach, rename_id t, renameEach_id ts]

lemma renameFields_id : (fields : List (String × Ty)) → renameFields id fields = fields
  | [] => rfl
  | (n, t) :: fields => by rw [renameFields, rename_id t, renameFields_id fields, id_eq]

end

end Ty

lemma Scope.renamed_id {s s' : Scope} (hsymbols : ∀ key, s.symbols.get? key = s'.symbols.get? key)
    (htypes : s.types = s'.types) : s.Renamed id s' := by
  have hsymbol : Symbol.rename id = id := funext fun s => by rw [Symbol.rename, Ty.rename_id]; rfl
  have htype : Ty.rename id = id := funext Ty.rename_id
  refine ⟨fun key => ?_, fun key => ?_⟩
  · rw [hsymbol, Option.map_id, hsymbols, id_eq]
  · rw [htype, Option.map_id, htypes, id_eq]

namespace SymbolTable

lemma renamed_refl (t : SymbolTable) : t.Renamed id t :=
  ⟨forall₂_same.mpr fun _ _ => Scope.renamed_id (fun _ => rfl) rfl, Scope.renamed_id (fun _ => rfl) rfl⟩

variable {t : SymbolTable}

lemma foldl_define (ss : List Symbol) : ss.foldl define t = t.withCurrent { t.current with
      symbols := ss.foldl (fun m s => m.put (lower s.name) s) t.current.symbols } := by
  induction ss generalizing t with
  | nil => exact withCurrent_current.symm
  | cons s ss ih => rw [foldl_cons, ih, define, current_withCurrent, withCurrent_withCurrent, foldl_cons]

/-- Of symbols with distinct names it does not matter which comes first. -/
lemma foldl_define_perm {ss ss' : List Symbol} (h : ss.Perm ss')
    (hnames : (ss.map fun s => lower s.name).Nodup) : (ss.foldl define t).Renamed id (ss'.foldl define t) := by
  have hget (ss : List Symbol) (m : Keyed Symbol) : (ss.foldl (fun m s => m.put (lower s.name) s) m).get? =
        ss.foldl (fun g s key => if key = lower s.name then some s else g key) m.get? := by
    induction ss generalizing m with
    | nil => rfl
    | cons s ss ih =>
      rw [foldl_cons, ih, foldl_cons]
      congr 1
      exact funext fun key => m.get?_put _ key s
  rw [foldl_define, foldl_define]
  refine t.renamed_refl.withCurrent (Scope.renamed_id (fun key => ?_) rfl)
  rw [hget, hget, h.foldl_eq' fun s hs s' hs' g => funext fun key => ?_]
  by_cases heq : lower s.name = lower s'.name
  · rw [inj_on_of_nodup_map hnames hs hs' heq]
  · grind

end SymbolTable

namespace Analysis

/-! ## Stretches of the analysis that stay in one scope -/

/-- The analysis with something that was found before. -/
def after (a : Analysis) (ds : List Diagnostic) : Analysis :=
  { a with found := ds ++ a.found }

/-- A stretch of the analysis changes the innermost scope only, and takes no notice of what was found
before. -/
structure Stretch (run : Analysis → Analysis) : Prop where
  table : ∀ a, ∃ s, (run a).table = a.table.withCurrent s
  found : ∀ a ds, run (a.after ds) = (run a).after ds

namespace Stretch

variable {run run' : Analysis → Analysis} {α : Type}

lemma of_table (s : SymbolTable → Scope) (g : SymbolTable → List Diagnostic) :
    Stretch fun a => ⟨a.table.withCurrent (s a.table), a.found ++ g a.table⟩ :=
  ⟨fun _ => ⟨_, rfl⟩, fun a ds => by simp [after]⟩

lemma refl : Stretch fun a => a :=
  ⟨fun _ => ⟨_, SymbolTable.withCurrent_current.symm⟩, fun _ _ => rfl⟩

lemma note (g : SymbolTable → List Diagnostic) : Stretch fun a => a.note (g a.table) := by
  refine ⟨fun _ => ⟨_, SymbolTable.withCurrent_current.symm⟩, fun a ds => ?_⟩
  simp [Analysis.note, after]

lemma trans (h : Stretch run) (h' : Stretch run') : Stretch fun a => run' (run a) := by
  refine ⟨fun a => ?_, fun a ds => by rw [h.found, h'.found]⟩
  obtain ⟨s, hs⟩ := h.table a
  obtain ⟨s', hs'⟩ := h'.table (run a)
  exact ⟨s', by rw [hs', hs, SymbolTable.withCurrent_withCurrent]⟩

lemma foldl {step : Analysis → α → Analysis} (h : ∀ x, Stretch fun a => step a x) (xs : List α) :
    Stretch fun a => xs.foldl step a := by
  induction xs with
  | nil => exact refl
  | cons x xs ih => exact (h x).trans ih

/-- The stretch may depend on the table that it starts from. -/
lemma depending {run : SymbolTable → Analysis → Analysis} (h : ∀ t, Stretch (run t)) :
    Stretch fun a => run a.table a :=
  ⟨fun a => (h a.table).table a, fun a ds => (h a.table).found a ds⟩

lemma declare (s : Symbol) (span : Option Span) : Stretch fun a => a.declare s span :=
  of_table (fun t => { t.current with symbols := t.current.symbols.put (lower s.name) s }) fun t =>
    if (t.lookupLocal s.name).isSome then [doubtful s!"'{s.name}' is already declared in this scope" span] else []

lemma declareType (d : TypeDecl) : Stretch fun a => a.declareType d := by
  have hvalues : Stretch fun a => a.declareValues d := by
    unfold declareValues
    split
    · exact foldl (fun _ => declare _ _) _
    · exact refl
  have htype := of_table (fun t => { t.current with
    types := t.current.types.put (lower d.name) (d.definition.resolve t).1 }) fun t => (d.definition.resolve t).2
  exact htype.trans hvalues

lemma declareVariables (d : VarDecl) : Stretch fun a => a.declareVariables d :=
  depending fun t => (note fun _ => (d.type.resolve t).2).trans
    (foldl (fun n => declare { name := n, type := (d.type.resolve t).1 } d.span) d.names)

lemma declareAll (d : Declarations) : Stretch fun a => a.declareAll d :=
  ((foldl declareType d.types).trans (foldl (fun _ => declare _ _) d.constants)).trans (foldl declareVariables d.vars)

end Stretch

/-! ## Bodies -/

def bodyFindings (t : SymbolTable) (r : Routine) (params : List Ty) : List Diagnostic :=
  (routine { table := t } r params).found

lemma routine_eq_note (a : Analysis) (r : Routine) (params : List Ty) :
    a.routine r params = a.note (bodyFindings a.table r params) := by
  have hparams := Stretch.foldl (fun e : Param × Ty =>
    .declare { name := e.1.name, type := e.2, byReference := e.1.byReference } e.1.span) (r.params.zip params)
  have hrun := (hparams.trans (.declareAll r.locals)).trans <| .note fun t =>
    checkEach t (if r.result.isSome then none else some r.name) r.body ++ checkReturns r
  obtain ⟨s, htable⟩ := hrun.table { a with table := a.table.enter }
  have hfound := congrArg found (hrun.found { table := a.table.enter } a.found)
  rw [after, append_nil] at hfound
  exact congrArg₂ mk (congrArg SymbolTable.exit htable) hfound

lemma foldl_routine (a : Analysis) (rs : List (Routine × List Ty)) :
    rs.foldl (fun a (r, params) => a.routine r params) a =
      a.note (rs.flatMap fun e => bodyFindings a.table e.1 e.2) := by
  induction rs generalizing a with
  | nil => simp [note]
  | cons e rs ih =>
    rw [foldl_cons, ih]
    dsimp only
    rw [routine_eq_note, flatMap_cons, note, note, note, append_assoc]

lemma Revised.found_eq {a b c : Analysis} (h : a.Revised .same c) (h' : b.Revised .same c) : a.found = b.found := by
  have hseen : Diagnostic.seen Revision.same.view Revision.same.place = id := rfl
  have h := h.found.trans h'.found.symm
  rwa [hseen, map_id, map_id] at h

lemma bodyFindings_congr {t t' : SymbolTable} (h : t.Renamed id t') (r : Routine) (params : List Ty) :
    bodyFindings t r params = bodyFindings t' r params := by
  have hleft : Revised .same { table := t } { table := t' } := ⟨h, .nil⟩
  have hright : Revised .same { table := t' } { table := t' } := ⟨t'.renamed_refl, .nil⟩
  exact (hleft.routine r params).found_eq (hright.routine r params)

lemma checkEach_congr {t t' : SymbolTable} (h : t.Renamed id t') (body : List Stmt) :
    checkEach t none body = checkEach t' none body := by
  have hleft : Revised .same { table := t } { table := t' } := ⟨h, .nil⟩
  have hright : Revised .same { table := t' } { table := t' } := ⟨t'.renamed_refl, .nil⟩
  exact (hleft.note (checkEach_revise none hleft.table body)).found_eq
    (hright.note (checkEach_revise none hright.table body))

/-! ## Signatures -/

section

variable (t : SymbolTable) (s : Symbol)

lemma lookupType_define (n : String) : (t.define s).lookupType n = t.lookupType n := by
  obtain ⟨inner, outermost⟩ := t
  cases inner <;> rfl

mutual

lemma resolve_define : (x : TypeExpr) → x.resolve (t.define s) = x.resolve t
  | .array _ _ x => by rw [resolve, resolve, resolve_define x]
  | .record _ fields => by rw [resolve, resolve, resolveFields_define fields]
  | .named _ n => by rw [resolve, resolve, lookupType_define]
  | .primitive .. | .enumeration .. | .unknown _ | .missing => rfl

lemma resolveFields_define : (fields : List VarDecl) → resolveFields (t.define s) fields = resolveFields t fields
  | [] => rfl
  | ⟨_, _, x⟩ :: fields => by
    rw [resolveFields, resolveFields, resolve_define x, resolveFields_define fields]

end

lemma paramTypes_define (ps : List Param) : paramTypes (t.define s) ps = paramTypes t ps := by
  simp only [paramTypes, resolve_define]

def signature (r : Routine) : Symbol :=
  let params := (paramTypes t r.params).1
  { name := r.name, isConstant := true
    type := r.result.elim (.procedure params) fun x => .function params (x.resolve t).1 }

def signatureFindings (r : Routine) : List Diagnostic :=
  (paramTypes t r.params).2 ++ r.result.elim [] (fun x => (x.resolve t).2) ++
    if (t.lookupLocal r.name).isSome then [doubtful s!"'{r.name}' is already declared in this scope" r.span] else []

lemma signature_define : signature (t.define s) = signature t := by
  funext r
  simp only [signature, paramTypes_define, resolve_define]

lemma signatureFindings_define {r : Routine} (h : lower r.name ≠ lower s.name) :
    signatureFindings (t.define s) r = signatureFindings t r := by
  have hlocal : (t.define s).lookupLocal r.name = t.lookupLocal r.name := by
    rw [SymbolTable.lookupLocal, SymbolTable.define, SymbolTable.current_withCurrent]
    exact Keyed.get?_put_of_ne _ _ h
  simp only [signatureFindings, paramTypes_define, resolve_define, hlocal]

lemma declareRoutine_eq (a : Analysis) (r : Routine) :
    a.declareRoutine r = (⟨a.table.define (signature a.table r), a.found ++ signatureFindings a.table r⟩,
      (paramTypes a.table r.params).1) := by
  unfold declareRoutine signatureFindings signature
  rw [← append_assoc]
  cases r.result <;> rfl

lemma declareRoutines_eq (a : Analysis) {rs : List Routine} (hnames : (rs.map fun r => lower r.name).Nodup) :
    a.declareRoutines rs = (⟨(rs.map (signature a.table)).foldl .define a.table,
          a.found ++ rs.flatMap (signatureFindings a.table)⟩,
        rs.map fun r => (r, (paramTypes a.table r.params).1)) := by
  induction rs generalizing a with
  | nil => simp [declareRoutines]
  | cons r rs ih =>
    obtain ⟨hfirst, hothers⟩ := nodup_cons.mp hnames
    have hfindings : rs.flatMap (signatureFindings (a.table.define (signature a.table r))) =
        rs.flatMap (signatureFindings a.table) :=
      flatMap_congr fun r' hr' => signatureFindings_define _ _ fun heq => hfirst (mem_map.mpr ⟨r', hr', heq⟩)
    rw [declareRoutines, declareRoutine_eq]
    dsimp only
    rw [ih _ hothers]
    simp [signature_define, paramTypes_define, hfindings]

end

/-! ## Programs -/

lemma diagnostics_perm {a b : Analysis} (h : a.found.Perm b.found) : a.diagnostics.Perm b.diagnostics := by
  simp only [diagnostics, Log.inOrder, log, Log.foldl_add, nil_append]
  exact (mergeSort_perm _ _).trans (((h.filter _).append (h.filter _)).trans (mergeSort_perm _ _).symm)

/-- What is found in a program, part by part. -/
lemma found_ofProgram {p : Program} (hnames : (p.routines.map fun r => lower r.name).Nodup) :
    let a := declareAll {} p.globals
    let t := (p.routines.map (signature a.table)).foldl .define a.table
    (ofProgram p).found = a.found ++ p.routines.flatMap (signatureFindings a.table) ++
      p.routines.flatMap (fun r => bodyFindings t r (paramTypes a.table r.params).1) ++ checkEach t none p.body := by
  rw [ofProgram_eq, declareRoutines_eq _ hnames]
  rw [foldl_routine, flatMap_map]
  rfl

/-- **Routines may stand in any order.**  The same is found, each finding as often. -/
theorem diagnostics_of_reordered_routines (p : Program) {functions procedures : List Routine}
    (hfunctions : p.functions.Perm functions) (hprocedures : p.procedures.Perm procedures)
    (hnames : (p.routines.map fun r => Text.lower r.name).Nodup) :
    (ofProgram p).diagnostics.Perm (ofProgram { p with functions, procedures }).diagnostics := by
  let q := { p with functions, procedures }
  have hroutines : p.routines.Perm q.routines := hfunctions.append hprocedures
  have hnames' : (q.routines.map fun r => Text.lower r.name).Nodup := (hroutines.map _).nodup_iff.mp hnames
  have htable := SymbolTable.foldl_define_perm (t := (declareAll {} p.globals).table)
    (hroutines.map (signature (declareAll {} p.globals).table)) (by rw [map_map]; exact hnames)
  refine diagnostics_perm ?_
  rw [found_ofProgram hnames, found_ofProgram (p := q) hnames', checkEach_congr htable]
  simp only [bodyFindings_congr htable]
  exact (((Perm.refl _).append (hroutines.flatMap_right _)).append (hroutines.flatMap_right _)).append (.refl _)

/-- Two functions that call each other, one of them with a name that nothing declares. -/
theorem diagnostics_of_mutual_recursion :
    let even : Routine := { name := "Even", result := some (.primitive none .boolean)
                            body := [.return none (.call none "odd" [.name none "missing"])] }
    let odd : Routine := { name := "odd", result := some (.primitive none .boolean)
                           body := [.return none (.call none "EVEN" [])] }
    let p : Program := { name := "Parity", functions := [even, odd], body := [.call none "odd" []] }
    (p.routines.map fun r => Text.lower r.name).Nodup ∧
      (ofProgram p).diagnostics.Perm (ofProgram { p with functions := [odd, even] }).diagnostics := by
  intro even odd p
  have hnames : (p.routines.map fun r => Text.lower r.name).Nodup := by decide
  exact ⟨hnames, diagnostics_of_reordered_routines p (.swap odd even []) (.refl []) hnames⟩

end Analysis

end AlgoLang
