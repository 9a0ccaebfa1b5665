/-
# The analysis accepts exactly the well scoped programs

The analysis goes from declaration to declaration and from body to body with one table.  `Goes` says of a stretch
of it which scopes the table stands for before and after, and what has to hold for it to find nothing but
warnings.  Stretches compose.
-/
import AlgoLang.Proofs.Ensures
import AlgoLang.Proofs.Grammar.ProgramComplete
import AlgoLang.Proofs.Scoping.Body

namespace AlgoLang

open Text Stmt Scoping List Sight Frame TypeExpr

variable {xs ys : List String} {n : String} {α : Type} {scope : Scope}

namespace Scoping

/-! ## Names and entries -/

lemma last?_concat (entries : List (String × α)) (m : String) (a : α) (n : String) :
    last? (entries ++ [(m, a)]) n = if lower m = lower n then some a else last? entries n := by
  unfold last?
  by_cases h : lower m = lower n
  · simp [h]
  · simp [h, beq_eq_false_iff_ne.mpr h]

lemma isSome_last? (entries : List (String × α)) (n : String) :
    (last? entries n).isSome ↔ Among n (entries.map (·.1)) := by
  simp [last?, Among, find?_isSome]

lemma among_congr (h : ∀ m, m ∈ xs ↔ m ∈ ys) : Among n xs ↔ Among n ys :=
  exists_congr fun m => and_congr_left fun _ => h m

lemma among_append : Among n (xs ++ ys) ↔ Among n xs ∨ Among n ys := by
  simp [Among, or_and_right, exists_or]

def Sight.typeNames (s : Sight) : List String :=
  s.flatMap fun f => f.types.map (·.1)

lemma Sight.isSome_type? (s : Sight) (n : String) : (s.type? n).isSome ↔ Among n s.typeNames := by
  induction s with
  | nil => simp [type?, typeNames, Among]
  | cons f s ih =>
    unfold typeNames type? at *
    rw [flatMap_cons, among_append, ← isSome_last?, ← ih, findSome?_cons]
    cases last? f.types n <;> simp

lemma inOrder_congr (h : ∀ n, n ∈ xs ↔ n ∈ ys) (ds : List TypeDecl) : InOrder xs ds ↔ InOrder ys ds := by
  refine forall_congr' fun before => forall_congr' fun d => forall_congr' fun after =>
    imp_congr_right fun _ => forall_congr' fun n => imp_congr_right fun _ => ?_
  exact among_congr fun m => by simp [h]

lemma inOrder_cons {outer : List String} {d : TypeDecl} {ds : List TypeDecl} :
    InOrder outer (d :: ds) ↔ d.definition.RefersTo outer ∧ InOrder (outer ++ [d.name]) ds := by
  constructor
  · refine fun h => ⟨by simpa using h [] d ds rfl, fun before d' after hds => ?_⟩
    simpa using h (d :: before) d' after (by rw [hds, cons_append])
  · rintro ⟨hd, hds⟩ before d' after heq
    cases before with
    | nil =>
      obtain ⟨rfl, -⟩ := cons.inj heq
      simpa using hd
    | cons b before =>
      obtain ⟨rfl, rfl⟩ := cons.inj heq
      simpa using hds before d' after rfl

/-! ## What declarations make of a scope -/

namespace Frame

variable (f : Frame)

@[simp]
lemma withValues_nil : f.withValues [] = f := by
  simp [withValues]

lemma withValues_withValues (xs ys : List (String × Entity)) :
    (f.withValues xs).withValues ys = f.withValues (xs ++ ys) := by
  simp [withValues]

lemma type?_withValues (xs : List (String × Entity)) (outer : Sight) :
    type? (f.withValues xs :: outer) = type? (f :: outer) :=
  rfl

lemma typeNames_withValues (xs : List (String × Entity)) (outer : Sight) :
    typeNames (f.withValues xs :: outer) = typeNames (f :: outer) :=
  rfl

lemma map_types_foldl_withType (outer : Sight) (ds : List TypeDecl) :
    (ds.foldl (withType outer) f).types.map (·.1) = f.types.map (·.1) ++ ds.map (·.name) := by
  induction ds generalizing f with
  | nil => simp
  | cons d ds ih => rw [foldl_cons, ih]; simp [withType]

lemma mem_typeNames_foldl_withType (outer : Sight) (ds : List TypeDecl) (n : String) :
    n ∈ typeNames (ds.foldl (withType outer) f :: outer) ↔ n ∈ typeNames (f :: outer) ++ ds.map (·.name) := by
  simp only [typeNames, flatMap_cons, map_types_foldl_withType, mem_append]
  exact or_right_comm

end Frame

/-! ## Tables -/

lemma Holds.define {f : Frame} (h : Holds scope f) (symbol : Symbol) :
    Holds { scope with symbols := scope.symbols.put (lower symbol.name) symbol }
      (f.withValues [(symbol.name, symbol.entity)]) where
  types := h.types
  values n := by
    rw [withValues, last?_concat]
    by_cases hn : lower symbol.name = lower n
    · simp [hn, Keyed.get?_put_self]
    · simp [hn, Keyed.get?_put_of_ne _ _ (Ne.symm hn), h.values]

lemma Holds.defineType {f : Frame} (h : Holds scope f) (name : String) (type : Ty) :
    Holds { scope with types := scope.types.put (lower name) type }
      { f with types := f.types ++ [(name, type)] } where
  values := h.values
  types n := by
    rw [last?_concat]
    by_cases hn : lower name = lower n
    · simp [hn, Keyed.get?_put_self]
    · simp [hn, Keyed.get?_put_of_ne _ _ (Ne.symm hn), h.types]

lemma Holds.empty : Holds {} {} :=
  ⟨fun _ => rfl, fun _ => rfl⟩

section

variable {t : SymbolTable} {f g : Frame} {s outer : Sight}

lemma stands_empty : Stands {} [{}] :=
  .cons .empty .nil

lemma Stands.enter (h : Stands t s) : Stands t.enter ({} :: s) :=
  .cons .empty h

lemma Stands.exit (h : Stands t (f :: g :: s)) : Stands t.exit (g :: s) := by
  obtain ⟨inner, outermost⟩ := t
  cases inner with
  | nil =>
    obtain ⟨-, htail⟩ := forall₂_cons.mp h
    cases htail
  | cons scope inner => exact (forall₂_cons.mp h).2

lemma Stands.withCurrent (h : Stands t (f :: outer))
    (hscope : Holds t.current f → Holds scope g) : Stands (t.withCurrent scope) (g :: outer) := by
  obtain ⟨inner, outermost⟩ := t
  cases inner with
  | nil =>
    obtain ⟨hf, htail⟩ := forall₂_cons.mp h
    exact .cons (hscope hf) htail
  | cons first inner =>
    obtain ⟨hf, htail⟩ := forall₂_cons.mp h
    exact .cons (hscope hf) htail

end

end Scoping

/-! ## Types -/

namespace TypeExpr

variable {t : SymbolTable} {s : Sight}

mutual

/-- A type is resolved to what it means, and only warnings are found iff it refers to types in sight. -/
lemma resolve_of_stands (h : Stands t s) : (x : TypeExpr) → (x.resolve t).1 = x.meaning s.type? ∧
      (Passes (x.resolve t).2 ↔ x.RefersTo s.typeNames)
  | primitive .. | enumeration .. | unknown _ | missing => by
    simp [resolve, meaning, RefersTo, references]
  | array _ ds x => by
    obtain ⟨hx, hp⟩ := resolve_of_stands h x
    simp only [resolve, meaning, RefersTo, references, hx, true_and]
    exact hp
  | record _ fields => by
    obtain ⟨hx, hp⟩ := resolveFields_of_stands h fields
    simp only [resolve, meaning, RefersTo, references, hx, true_and]
    exact hp
  | named _ n => by
    simp only [resolve, meaning, RefersTo, references, forall_mem_singleton, ← isSome_type?, h.lookupType]
    cases s.type? n <;> simp

lemma resolveFields_of_stands (h : Stands t s) :
    (fields : List VarDecl) → (resolveFields t fields).1 = fieldMeanings s.type? fields ∧
      (Passes (resolveFields t fields).2 ↔ ∀ n ∈ fieldReferences fields, Among n s.typeNames)
  | [] => by simp [resolveFields, fieldMeanings, fieldReferences]
  | ⟨_, names, x⟩ :: fields => by
    obtain ⟨hx, hp⟩ := resolve_of_stands h x
    obtain ⟨hxs, hps⟩ := resolveFields_of_stands h fields
    simp only [resolveFields, fieldMeanings, fieldReferences, hx, hxs, passes_append, hp, hps,
      RefersTo, forall_mem_append, and_self]

end

end TypeExpr

/-! ## Stretches of the analysis -/

namespace Analysis

/-- From `a`, whose table stands for `s`, the analysis comes to `a'`, whose table stands for `s'`.  In
between it forgets no finding, and it finds nothing but warnings iff `P`. -/
structure Goes (a a' : Analysis) (s s' : Sight) (P : Prop) : Prop where
  stands : Stands a.table s → Stands a'.table s'
  passes : Stands a.table s → (Passes a'.found ↔ Passes a.found ∧ P)
  keeps : Stands a.table s → a.found ⊆ a'.found

namespace Goes

variable {a a' a'' : Analysis} {s s' s'' : Sight} {P Q : Prop}

lemma refl (a : Analysis) (s : Sight) : Goes a a s s True where
  stands := id
  passes _ := by rw [and_true]
  keeps _ := Subset.refl _

lemma trans (h : Goes a a' s s' P) (h' : Goes a' a'' s' s'' Q) : Goes a a'' s s'' (P ∧ Q) where
  stands hs := h'.stands (h.stands hs)
  passes hs := by rw [h'.passes (h.stands hs), h.passes hs, and_assoc]
  keeps hs := Subset.trans (h.keeps hs) (h'.keeps (h.stands hs))

lemma congr (h : Goes a a' s s' P) (hPQ : P ↔ Q) : Goes a a' s s' Q :=
  propext hPQ ▸ h

lemma of_stands (h : Stands a.table s → Goes a a' s s' P) : Goes a a' s s' P where
  stands hs := (h hs).stands hs
  passes hs := (h hs).passes hs
  keeps hs := (h hs).keeps hs

end Goes

variable {a : Analysis} {s : Sight}

section

variable {s : Sight} (outer : Sight)

lemma goes_note {P : Prop} {ds : List Diagnostic}
    (h : Stands a.table s → (Passes ds ↔ P)) : Goes a (a.note ds) s s P where
  stands := id
  passes hs := by rw [note, passes_append, h hs]
  keeps _ := subset_append_left _ _

lemma goes_declare (a : Analysis) (f : Frame) (symbol : Symbol) (span : Option Span) :
    Goes a (a.declare symbol span) (f :: outer) (f.withValues [(symbol.name, symbol.entity)] :: outer) True where
  stands hs := hs.withCurrent fun hf => hf.define symbol
  passes _ := by
    unfold declare
    split <;> simp
  keeps _ := subset_append_left _ _

lemma goes_declareEach {β : Type} (a : Analysis) (f : Frame) (symbol : β → Symbol)
    (span : β → Option Span) (bs : List β) : Goes a (bs.foldl (fun a b => a.declare (symbol b) (span b)) a) (f :: outer)
      (f.withValues (bs.map fun b => ((symbol b).name, (symbol b).entity)) :: outer) True := by
  induction bs generalizing a f with
  | nil => simpa using .refl a (f :: outer)
  | cons b bs ih =>
    have h := (goes_declare outer a f (symbol b) (span b)).trans (ih _ _)
    rw [withValues_withValues] at h
    exact h.congr and_self_iff

/-! ## Declarations -/

variable (a : Analysis)

variable (f : Frame)

lemma goes_declareValues (d : TypeDecl) :
    Goes a (a.declareValues d) (f :: outer) (f.withValues d.values :: outer) True := by
  unfold declareValues TypeDecl.values
  cases d.definition with
  | enumeration _ vs =>
    have h := goes_declareEach outer a f (fun v : String × Nat =>
        { name := v.1, type := .integer, isConstant := true, value := some (.integer v.2) })
      (fun _ => d.span) vs.zipIdx
    have hvalues : vs.zipIdx.map (fun v => (v.1, (⟨.integer, true⟩ : Entity))) =
        vs.map fun v => (v, ⟨.integer, true⟩) := by
      conv_rhs => rw [← zipIdx_map_fst 0 vs, map_map]
      rfl
    dsimp only
    rw [← hvalues]
    exact h
  | _ =>
    rw [withValues_nil]
    exact .refl a (f :: outer)

lemma goes_declareType (d : TypeDecl) : Goes a (a.declareType d) (f :: outer) (f.withType outer d :: outer)
      (d.definition.RefersTo (typeNames (f :: outer))) := by
  refine .of_stands fun hs => ?_
  obtain ⟨htype, hfound⟩ := resolve_of_stands hs d.definition
  unfold declareType
  generalize d.definition.resolve a.table = resolved at htype hfound ⊢
  obtain ⟨type, found⟩ := resolved
  obtain rfl : type = _ := htype
  have hdefine : Goes a ⟨a.table.defineType d.name (d.definition.meaning (type? (f :: outer))),
      a.found ++ found⟩ (f :: outer) (_ :: outer) (d.definition.RefersTo (typeNames (f :: outer))) :=
    ⟨fun hs => hs.withCurrent fun hf => hf.defineType _ _, fun _ => by rw [passes_append, hfound],
      fun _ => subset_append_left _ _⟩
  exact (hdefine.trans (goes_declareValues outer _ _ d)).congr (and_iff_left trivial)

lemma goes_declareTypes (ds : List TypeDecl) :
    Goes a (ds.foldl declareType a) (f :: outer) (ds.foldl (withType outer) f :: outer)
      (InOrder (typeNames (f :: outer)) ds) := by
  induction ds generalizing a f with
  | nil => exact (Goes.refl a (f :: outer)).congr (by simp [InOrder])
  | cons d ds ih =>
    refine ((goes_declareType outer a f d).trans (ih _ _)).congr ?_
    rw [inOrder_cons]
    exact and_congr_right' (inOrder_congr (mem_typeNames_foldl_withType f outer [d]) ds)

lemma goes_declareVariables (d : VarDecl) :
      Goes a (a.declareVariables d) (f :: outer) (f.withValues (d.entries (type? (f :: outer))) :: outer)
      (d.type.RefersTo (typeNames (f :: outer))) := by
  refine .of_stands fun hs => ?_
  obtain ⟨htype, hfound⟩ := resolve_of_stands hs d.type
  unfold declareVariables
  generalize d.type.resolve a.table = resolved at htype hfound ⊢
  obtain ⟨type, found⟩ := resolved
  obtain rfl : type = _ := htype
  have hnote : Goes a (a.note found) (f :: outer) (f :: outer) _ := goes_note fun _ => hfound
  have hnames := goes_declareEach outer (a.note found) f
    (fun n => { name := n, type := d.type.meaning (type? (f :: outer)) }) (fun _ => d.span) d.names
  exact (hnote.trans hnames).congr (and_iff_left trivial)

lemma goes_declareAllVariables (ds : List VarDecl) : Goes a (ds.foldl declareVariables a) (f :: outer)
      (f.withValues (ds.flatMap (VarDecl.entries (type? (f :: outer)))) :: outer)
      (∀ d ∈ ds, d.type.RefersTo (typeNames (f :: outer))) := by
  induction ds generalizing a f with
  | nil => simpa using .refl a (f :: outer)
  | cons d ds ih =>
    have h := (goes_declareVariables outer a f d).trans (ih _ _)
    rw [withValues_withValues, type?_withValues, typeNames_withValues] at h
    rw [forall_mem_cons]
    exact h

lemma goes_declareConstants (ds : List ConstDecl) :
    Goes a (ds.foldl declareConstant a) (f :: outer) (f.withValues (ds.map ConstDecl.entry) :: outer) True :=
  goes_declareEach outer a f (fun d : ConstDecl =>
      { name := d.name, type := d.value.literalType, isConstant := true, value := d.value.literalValue? })
    (fun d => d.span) ds

lemma goes_declareAll (d : Declarations) : Goes a (a.declareAll d) (f :: outer) (f.withDeclarations outer d :: outer)
      (InOrder (typeNames (f :: outer)) d.types ∧
        ∀ v ∈ d.vars, v.type.RefersTo (typeNames (f :: outer) ++ d.typeNames)) := by
  have h := ((goes_declareTypes outer a f d.types).trans (goes_declareConstants outer _ _ d.constants)).trans
    (goes_declareAllVariables outer _ _ d.vars)
  rw [withValues_withValues, type?_withValues, typeNames_withValues, and_true] at h
  refine h.congr (and_congr_right' (forall_congr' fun v => imp_congr_right fun _ =>
    forall_congr' fun n => imp_congr_right fun _ => ?_))
  exact among_congr (mem_typeNames_foldl_withType f outer d.types)

end

/-! ## Routines -/

/-- The parameters and the result of a routine refer to types among the given ones. -/
def SignatureRefersTo (r : Routine) (names : List String) : Prop :=
  (∀ p ∈ r.params, p.type.RefersTo names) ∧ ∀ t ∈ r.result, t.RefersTo names

/-- The types of parameters are what they mean, and only warnings are found iff they refer to types in
sight. -/
lemma paramTypes_of_stands {t : SymbolTable} (h : Stands t s) (ps : List Param) :
    (paramTypes t ps).1 = ps.map (fun p => p.type.meaning s.type?) ∧
      (Passes (paramTypes t ps).2 ↔ ∀ p ∈ ps, p.type.RefersTo s.typeNames) := by
  unfold paramTypes
  dsimp only
  induction ps with
  | nil => simp
  | cons p ps ih =>
    obtain ⟨htype, hfound⟩ := resolve_of_stands h p.type
    simp [htype, hfound, ih]

section

variable (outer : Sight)

lemma goes_declareRoutine (a : Analysis) (f : Frame) (r : Routine) : Goes a (a.declareRoutine r).1 (f :: outer)
      (f.withValues [r.entry (type? (f :: outer))] :: outer)
      (SignatureRefersTo r (typeNames (f :: outer))) := by
  refine .of_stands fun hs => ?_
  obtain ⟨hparams, hfound⟩ := paramTypes_of_stands hs r.params
  unfold declareRoutine SignatureRefersTo Routine.entry
  generalize paramTypes a.table r.params = resolved at hparams hfound ⊢
  obtain ⟨params, found⟩ := resolved
  obtain rfl : params = _ := hparams
  cases r.result with
  | none =>
    have hnote : Goes a (a.note (found ++ [])) (f :: outer) (f :: outer) _ :=
      goes_note fun _ => (append_nil found).symm ▸ hfound
    exact (hnote.trans (goes_declare outer _ f _ r.span)).congr (by simp)
  | some t =>
    obtain ⟨hresult, hfound'⟩ := resolve_of_stands hs t
    dsimp only
    generalize t.resolve a.table = resolved at hresult hfound' ⊢
    obtain ⟨result, found'⟩ := resolved
    obtain rfl : result = _ := hresult
    have hnote : Goes a (a.note (found ++ found')) (f :: outer) (f :: outer) _ :=
      goes_note fun _ => passes_append.trans (and_congr hfound hfound')
    exact (hnote.trans (goes_declare outer _ f _ r.span)).congr (by simp)

lemma goes_declareRoutines (a : Analysis) (f : Frame) (rs : List Routine) :
    Goes a (a.declareRoutines rs).1 (f :: outer) (f.withValues (rs.map (Routine.entry (type? (f :: outer)))) :: outer)
      (∀ r ∈ rs, SignatureRefersTo r (typeNames (f :: outer))) := by
  induction rs generalizing a f with
  | nil =>
    rw [map_nil, withValues_nil]
    exact (Goes.refl a (f :: outer)).congr (by simp)
  | cons r rs ih =>
    have h := (goes_declareRoutine outer a f r).trans (ih _ _)
    rw [withValues_withValues, type?_withValues, typeNames_withValues] at h
    rw [forall_mem_cons]
    exact h

lemma declareRoutines_snd {f : Frame} (h : Stands a.table (f :: outer)) (rs : List Routine) :
    (a.declareRoutines rs).2 = rs.map fun r => (r, r.params.map fun p => p.type.meaning (type? (f :: outer))) := by
  induction rs generalizing a f with
  | nil => rfl
  | cons r rs ih =>
    have hrest := ih ((goes_declareRoutine outer a f r).stands h)
    rw [type?_withValues] at hrest
    rw [map_cons, ← hrest, ← (paramTypes_of_stands h r.params).1]
    rfl

end

lemma passes_checkReturns (r : Routine) : Passes (checkReturns r) := by
  unfold checkReturns
  split
  · exact passes_doubtful _ _
  · exact passes_nil

/-- What has to hold inside a routine. -/
def BodyScoped (g : Frame) (r : Routine) : Prop :=
  (InOrder (typeNames [g]) r.locals.types ∧
    ∀ v ∈ r.locals.vars, v.type.RefersTo (typeNames [g] ++ r.locals.typeNames)) ∧
  ∀ u ∈ Stmt.usesEach r.body, u.Legal [r.frame g, g]

/-- The analysis as it comes to the body of a routine: a new scope with the parameters and declarations. -/
def opened (a : Analysis) (g : Frame) (r : Routine) : Analysis :=
  let a := { a with table := a.table.enter }
  let a := r.params.foldl (fun a p => a.declare
    { name := p.name, type := p.type.meaning (type? [g]), byReference := p.byReference } p.span) a
  a.declareAll r.locals

lemma routine_eq (a : Analysis) (g : Frame) (r : Routine) : let b := a.opened g r
    let b := b.note (checkEach b.table (if r.result.isSome then none else some r.name) r.body ++ checkReturns r)
    a.routine r (r.params.map fun p => p.type.meaning (type? [g])) = { b with table := b.table.exit } := by
  have hzip : r.params.zip (r.params.map fun p => p.type.meaning (type? [g])) =
      r.params.map fun p => (p, p.type.meaning (type? [g])) := by
    simpa using zip_map' (f := id) (g := fun p : Param => p.type.meaning (type? [g])) (l := r.params)
  unfold routine
  dsimp only
  rw [hzip, foldl_map]
  rfl

lemma goes_opened (a : Analysis) (g : Frame) (r : Routine) : Goes a (a.opened g r) [g] [r.frame g, g]
      (InOrder (typeNames [g]) r.locals.types ∧
        ∀ v ∈ r.locals.vars, v.type.RefersTo (typeNames [g] ++ r.locals.typeNames)) := by
  have henter : Goes a { a with table := a.table.enter } [g] [{}, g] True :=
    ⟨.enter, fun _ => (and_iff_left trivial).symm, fun _ => Subset.refl _⟩
  have hparams := goes_declareEach [g] { a with table := a.table.enter } {}
    (fun p : Param => { name := p.name, type := p.type.meaning (type? [g]), byReference := p.byReference })
    (fun p => p.span) r.params
  refine ((henter.trans hparams).trans (goes_declareAll [g] _ _ r.locals)).congr ?_
  simp only [true_and]
  exact .rfl

/-- The analysis of a routine comes back to the scope it started from. -/
lemma goes_routine (a : Analysis) (g : Frame) (r : Routine) :
    Goes a (a.routine r (r.params.map fun p => p.type.meaning (type? [g]))) [g] [g] (BodyScoped g r) := by
  have hbody (a : Analysis) :
      Goes a (a.note (checkEach a.table (if r.result.isSome then none else some r.name) r.body ++ checkReturns r))
      [r.frame g, g] [r.frame g, g] (∀ u ∈ usesEach r.body, u.Legal [r.frame g, g]) :=
    goes_note fun hs => by
      rw [passes_append, passes_checkEach_of_stands _ hs, and_iff_left (passes_checkReturns r)]
  have hexit (a : Analysis) : Goes a { a with table := a.table.exit } [r.frame g, g] [g] True :=
    ⟨.exit, fun _ => (and_iff_left trivial).symm, fun _ => Subset.refl _⟩
  rw [routine_eq]
  exact (((goes_opened a g r).trans (hbody _)).trans (hexit _)).congr (and_iff_left trivial)

lemma goes_routines (a : Analysis) (g : Frame) (rs : List Routine) :
    Goes a ((rs.map fun r => (r, r.params.map fun p => p.type.meaning (type? [g]))).foldl
        (fun a (r, params) => a.routine r params) a) [g] [g]
      (∀ r ∈ rs, BodyScoped g r) := by
  induction rs generalizing a with
  | nil => simpa using .refl a [g]
  | cons r rs ih =>
    rw [forall_mem_cons]
    exact (goes_routine a g r).trans (ih _)

/-! ## Programs -/

lemma mem_diagnostics {d : Diagnostic} : d ∈ a.diagnostics ↔ d ∈ a.found := by
  simp only [diagnostics, Log.inOrder, log, Log.foldl_add, mem_mergeSort, nil_append, mem_append,
    mem_filter, Bool.not_eq_true', ← and_or_left]
  exact and_iff_left (Bool.eq_false_or_eq_true d.isWarning).symm

lemma passes_diagnostics (a : Analysis) : Passes a.diagnostics ↔ Passes a.found := by
  simp only [Passes, mem_diagnostics]

lemma typeNames_frame (p : Program) : typeNames [p.frame] = p.globals.typeNames := by
  simp only [Program.frame, withDeclarations, typeNames_withValues]
  simp [typeNames, map_types_foldl_withType, Declarations.typeNames]

lemma declareRoutines_append (a : Analysis) (rs rs' : List Routine) : a.declareRoutines (rs ++ rs') =
      (((a.declareRoutines rs).1.declareRoutines rs').1,
        (a.declareRoutines rs).2 ++ ((a.declareRoutines rs).1.declareRoutines rs').2) := by
  induction rs generalizing a with
  | nil => rfl
  | cons r rs ih => simp [declareRoutines, ih]

lemma ofProgram_eq (p : Program) : let declared := (declareAll {} p.globals).declareRoutines p.routines
    let a := declared.2.foldl (fun a (r, params) => a.routine r params) declared.1
    ofProgram p = a.note (checkEach a.table none p.body) := by
  rw [Program.routines, declareRoutines_append]
  rfl

lemma goes_ofProgram (p : Program) : Goes {} (ofProgram p) [{}] [p.frame]
      ((((InOrder [] p.globals.types ∧ ∀ v ∈ p.globals.vars, v.type.RefersTo p.globals.typeNames) ∧
        ∀ r ∈ p.routines, SignatureRefersTo r p.globals.typeNames) ∧
        ∀ r ∈ p.routines, BodyScoped p.frame r) ∧
        ∀ u ∈ usesEach p.body, u.Legal [p.frame]) := by
  refine .of_stands fun hs => ?_
  have hglobals := goes_declareAll [] {} {} p.globals
  have hsignatures := goes_declareRoutines [] (declareAll {} p.globals) (withDeclarations [] {} p.globals) p.routines
  have hbody (a : Analysis) : Goes a (a.note (checkEach a.table none p.body)) [p.frame] [p.frame]
      (∀ u ∈ usesEach p.body, u.Legal [p.frame]) :=
    goes_note fun hs => passes_checkEach_of_stands none hs p.body
  have hnames : typeNames [withDeclarations [] {} p.globals] = p.globals.typeNames :=
    typeNames_frame p
  rw [ofProgram_eq, declareRoutines_snd [] (hglobals.stands hs)]
  rw [hnames] at hsignatures
  exact ((hglobals.trans hsignatures).trans (goes_routines _ p.frame p.routines)).trans (hbody _)

/-- A program in which nothing but warnings is found is well scoped. -/
lemma wellScoped_of_passes {p : Program} (h : Passes (ofProgram p).diagnostics) : p.WellScoped := by
  obtain ⟨⟨⟨⟨htypes, hvars⟩, hsignatures⟩, hbodies⟩, hbody⟩ :=
    (((goes_ofProgram p).passes stands_empty).mp ((passes_diagnostics _).mp h)).2
  refine ⟨htypes, hvars, fun r hr => ?_, hbody⟩
  obtain ⟨hparams, hresult⟩ := hsignatures r hr
  obtain ⟨⟨hlocalTypes, hlocalVars⟩, huses⟩ := hbodies r hr
  rw [typeNames_frame] at hlocalTypes hlocalVars
  exact ⟨hparams, hresult, hlocalTypes, hlocalVars, huses⟩

end Analysis

/-- **The analysis finds no error iff the program is well scoped.**  This holds of every program, read
from a text or not: every reference to a type names one that counts as declared before it, and every
use of a name in a body is legal in sight of the routine, the program and the built-in functions. -/
theorem Analysis.accepts_iff_wellScoped (p : Program) :
    (∀ d ∈ (Analysis.ofProgram p).diagnostics, d.isWarning) ↔ p.WellScoped := by
  have hgoes := Analysis.goes_ofProgram p
  have hpasses : Passes (Analysis.ofProgram p).diagnostics ↔ _ :=
    (Analysis.passes_diagnostics _).trans ((hgoes.passes stands_empty).trans (and_iff_right passes_nil))
  refine ⟨Analysis.wellScoped_of_passes, ?_⟩
  rintro ⟨htypes, hvars, hroutines, hbody⟩
  refine hpasses.mpr ⟨⟨⟨⟨htypes, hvars⟩, fun r hr => ?_⟩, fun r hr => ?_⟩, hbody⟩
  · exact ⟨(hroutines r hr).params, (hroutines r hr).result⟩
  · refine ⟨?_, (hroutines r hr).body⟩
    rw [Analysis.typeNames_frame]
    exact ⟨(hroutines r hr).localTypes, (hroutines r hr).localVars⟩

/-- All types of a program count as declared before its variables, wherever they stand in the text, and
nobody looks into the dimensions of arrays. -/
theorem Analysis.accepts_laterType :
    ∃ p v d, Program.ofScanned (Token.scan "ALGORITHM a VAR x : ARRAY[f(2)] OF t TYPE t = INTEGER BEGIN END.")
        "ALGORITHM a VAR x : ARRAY[f(2)] OF t TYPE t = INTEGER BEGIN END." = .ok (.ok p) ∧
      (∀ d ∈ (Analysis.ofProgram p).diagnostics, d.isWarning) ∧
      p.globals.vars = [v] ∧ p.globals.types = [d] ∧ p.routines = [] ∧
      v.type.references = ["t"] ∧ d.name = "t" ∧ (∃ s ∈ v.span, ∃ s' ∈ d.span, s.stop.offset ≤ s'.start.offset) ∧
      v.type.calls = ["f"] ∧ builtins.get? "f" = none := by
  have hread : ∃ p, Program.ofScanned (Token.scan "ALGORITHM a VAR x : ARRAY[f(2)] OF t TYPE t = INTEGER BEGIN END.")
        "ALGORITHM a VAR x : ARRAY[f(2)] OF t TYPE t = INTEGER BEGIN END." = .ok (.ok p) ∧
      (∀ d ∈ (Analysis.ofProgram p).diagnostics, d.isWarning) ∧
      p.globals.vars.length = 1 ∧ p.globals.types.length = 1 ∧ p.routines.length = 0 ∧
      ∀ v ∈ p.globals.vars, ∀ d ∈ p.globals.types, v.type.references = ["t"] ∧ d.name = "t" ∧
        (∃ s ∈ v.span, ∃ s' ∈ d.span, s.stop.offset ≤ s'.start.offset) ∧
          v.type.calls = ["f"] ∧ builtins.get? "f" = none :=
    exists_ok_ok (by decide +kernel)
  obtain ⟨p, hp, hwarnings, hvars, htypes, hroutines, hall⟩ := hread
  obtain ⟨v, hv⟩ := length_eq_one_iff.mp hvars
  obtain ⟨d, hd⟩ := length_eq_one_iff.mp htypes
  exact ⟨p, v, d, hp, hwarnings, hv, hd, length_eq_zero_iff.mp hroutines, hall v (by simp [hv]) d (by simp [hd])⟩

end AlgoLang
