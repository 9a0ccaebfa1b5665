/-
# What does not depend on places

`Revision.onto toks` moves the tokens that stand on numbered lines, one on each, to where the tokens of a
list stand.  Programs that such revisions make of one program are alike, and become the same C.
-/
import AlgoLang.C.Program
import AlgoLang.Proofs.Grammar.Closed
import AlgoLang.Proofs.Revision

namespace AlgoLang

open TypeExpr Revision List Expr

variable {S : Stock} {body : List Stmt} {es : List Expr} {α β : Type}

/-! ## Numbered places -/

/-- The token with the given number, or the last one if there are not so many. -/
def tokenAt (toks : List Token) (n : Int) : Token :=
  toks.getD (min n.toNat (toks.length - 1)) ⟨.eof, "", Location.start, 0⟩

/-- Puts what stands on a line where the token with the number of the line stands. -/
def Revision.onto (toks : List Token) : Revision where
  name := id
  view := id
  place l := (tokenAt toks l.line).start
  length l _ := (tokenAt toks l.line).length
  spot s := some ⟨(tokenAt toks (findingAt s).line).start, (tokenAt toks (s.elim 0 fun s => s.stop.line)).stop⟩
  lower_name := same.lower_name
  view_name := same.view_name
  spot_through _ _ := rfl
  findingAt_spot _ := rfl

@[simp] lemma Revision.onto_name (toks : List Token) : (onto toks).name = id :=
  rfl

/-! ## Likeness -/

lemma Binary64.sameNumber_self {x : Binary64} (h : x ≠ .undefined) : x.sameNumber x := by
  cases x with
  | undefined => exact absurd rfl h
  | finite | infinite => simp [sameNumber]

section

variable (xs ys : List Token)

lemma Expr.alikeEach_revise (h : ∀ e ∈ es, (e.revise (.onto xs)).alike (e.revise (.onto ys))) :
    alikeEach (reviseEach (.onto xs) es) (reviseEach (.onto ys) es) := by
  induction es with
  | nil => rfl
  | cons e es ih =>
    obtain ⟨he, hes⟩ := forall_mem_cons.mp h
    simp [reviseEach, alikeEach, he, ih hes]

lemma Expr.Made.alike {e : Expr} (h : e.Made S) : (e.revise (.onto xs)).alike (e.revise (.onto ys)) := by
  induction h with
  | real hx => exact Binary64.sameNumber_self hx
  | integer | boolean | char | string | name => simp [Expr.revise, Expr.alike]
  | binary _ _ ihl ihr => simp [Expr.revise, Expr.alike, ihl, ihr]
  | unary _ ih | field _ ih | paren _ ih => simp [Expr.revise, Expr.alike, ih]
  | index _ _ ih ihs => simp [Expr.revise, Expr.alike, ih, alikeEach_revise xs ys ihs]
  | call _ ihs => simp [Expr.revise, Expr.alike, alikeEach_revise xs ys ihs]

lemma Expr.alikeEach_of_made (h : ∀ e ∈ es, e.Made S) :
    alikeEach (reviseEach (.onto xs) es) (reviseEach (.onto ys) es) :=
  alikeEach_revise xs ys fun e he => (h e he).alike xs ys

lemma TypeExpr.alikeFields_revise {fields : List VarDecl}
    (h : ∀ f ∈ fields, (f.type.revise (.onto xs)).alike (f.type.revise (.onto ys))) :
    alikeFields (reviseFields (.onto xs) fields) (reviseFields (.onto ys) fields) := by
  induction fields with
  | nil => rfl
  | cons f fields ih =>
    obtain ⟨span, names, t⟩ := f
    obtain ⟨hf, hfields⟩ := forall_mem_cons.mp h
    simp [reviseFields, alikeFields, hf, ih hfields]

lemma TypeExpr.Made.alike {t : TypeExpr} (h : t.Made S) : (t.revise (.onto xs)).alike (t.revise (.onto ys)) := by
  induction h with
  | primitive | enumeration | named => simp [TypeExpr.revise, TypeExpr.alike]
  | array hds _ ih => simp [TypeExpr.revise, TypeExpr.alike, alikeEach_of_made xs ys hds, ih]
  | record _ ih => simp [TypeExpr.revise, TypeExpr.alike, alikeFields_revise xs ys ih]

namespace Stmt

lemma alikeEach_revise (h : ∀ s ∈ body, (s.revise (.onto xs)).alike (s.revise (.onto ys))) :
    alikeEach (reviseEach (.onto xs) body) (reviseEach (.onto ys) body) := by
  induction body with
  | nil => rfl
  | cons s body ih =>
    obtain ⟨hs, hbody⟩ := forall_mem_cons.mp h
    simp [reviseEach, alikeEach, hs, ih hbody]

lemma alikeCases_revise {cases : List CaseClause} (hvalues : ∀ c ∈ cases, ∀ v ∈ c.values, v.Made S)
    (hbodies : ∀ c ∈ cases, ∀ s ∈ c.body, (s.revise (.onto xs)).alike (s.revise (.onto ys))) :
    alikeCases (reviseCases (.onto xs) cases) (reviseCases (.onto ys) cases) := by
  induction cases with
  | nil => rfl
  | cons c cases ih =>
    obtain ⟨span, values, body⟩ := c
    obtain ⟨hvs, hvalues⟩ := forall_mem_cons.mp hvalues
    obtain ⟨hbody, hbodies⟩ := forall_mem_cons.mp hbodies
    simp [reviseCases, alikeCases, alikeEach_of_made xs ys hvs, alikeEach_revise xs ys hbody, ih hvalues hbodies]

lemma Made.alike {s : Stmt} (h : s.Made S) : (s.revise (.onto xs)).alike (s.revise (.onto ys)) := by
  induction h with
  | assign ht hv => simp [Stmt.revise, Stmt.alike, ht.alike, hv.alike]
  | @ifThen _ _ _ no hc _ _ ihyes ihno =>
    cases no with
    | none => simp [Stmt.revise, Stmt.alike, hc.alike, alikeEach_revise xs ys ihyes]
    | some no =>
      simp [Stmt.revise, Stmt.alike, hc.alike, alikeEach_revise xs ys ihyes, alikeEach_revise xs ys (ihno no rfl)]
  | «while» hc _ ih | doWhile _ hc ih => simp [Stmt.revise, Stmt.alike, hc.alike, alikeEach_revise xs ys ih]
  | @«for» _ _ _ _ step _ _ ha hb hstep _ ih =>
    cases step with
    | none => simp [Stmt.revise, Stmt.alike, ha.alike, hb.alike, alikeEach_revise xs ys ih]
    | some e =>
      simp [Stmt.revise, Stmt.alike, ha.alike, hb.alike, (hstep e rfl).alike, alikeEach_revise xs ys ih]
  | @switch _ _ _ default he hvalues _ _ ihcases ihdefault =>
    have hcases := alikeCases_revise xs ys hvalues ihcases
    cases default with
    | none => simp [Stmt.revise, Stmt.alike, he.alike, hcases]
    | some body => simp [Stmt.revise, Stmt.alike, he.alike, hcases, alikeEach_revise xs ys (ihdefault body rfl)]
  | call hes | scan hes | print hes => simp [Stmt.revise, Stmt.alike, alikeEach_of_made xs ys hes]
  | «return» he => simp [Stmt.revise, Stmt.alike, he.alike]
  | block _ ih => simp [Stmt.revise, Stmt.alike, alikeEach_revise xs ys ih]

lemma alikeEach_of_made (h : ∀ s ∈ body, s.Made S) :
    alikeEach (reviseEach (.onto xs) body) (reviseEach (.onto ys) body) :=
  alikeEach_revise xs ys fun s hs => (h s hs).alike xs ys

end Stmt

lemma alikeBy_map (same : β → β → Bool) {f g : α → β} (as : List α)
    (h : ∀ a ∈ as, same (f a) (g a)) : alikeBy same (as.map f) (as.map g) := by
  induction as with
  | nil => rfl
  | cons a as ih =>
    obtain ⟨ha, has⟩ := forall_mem_cons.mp h
    simp [alikeBy, ha, ih has]

lemma Declarations.Made.alike {d : Declarations} (h : d.Made S) :
    (d.revise (.onto xs)).alike (d.revise (.onto ys)) := by
  have hconstants := alikeBy_map ConstDecl.alike (f := .revise (.onto xs))
    (g := .revise (.onto ys)) d.constants fun c hc => by
      simp [ConstDecl.revise, ConstDecl.alike, (h.values c hc).alike]
  have htypes := alikeBy_map TypeDecl.alike (f := .revise (.onto xs))
    (g := .revise (.onto ys)) d.types fun t ht => by
      simp [TypeDecl.revise, TypeDecl.alike, (h.types t ht).alike]
  have hvars := TypeExpr.alikeFields_revise xs ys fun v hv => (h.vars v hv).alike xs ys
  simp [Declarations.revise, Declarations.alike, hconstants, htypes, hvars]

lemma Routine.Made.alike {r : Routine} (h : r.Made S) : (r.revise (.onto xs)).alike (r.revise (.onto ys)) := by
  have hparams := alikeBy_map Param.alike (f := .revise (.onto xs))
    (g := .revise (.onto ys)) r.params fun p hp => by
      simp [Param.revise, Param.alike, (h.params p hp).alike]
  have hbody := Stmt.alikeEach_of_made xs ys h.body
  obtain ⟨span, name, params, result, locals, body⟩ := r
  cases result with
  | none => simp [Routine.revise, Routine.alike, hparams, h.locals.alike, hbody]
  | some t => simp [Routine.revise, Routine.alike, hparams, (h.result t rfl).alike, h.locals.alike, hbody]

lemma Program.Made.alike {p : Program} (h : p.Made S) : (p.revise (.onto xs)).alike (p.revise (.onto ys)) := by
  have hroutines := forall_mem_append.mp h.routines
  have hfunctions := alikeBy_map Routine.alike _ fun r hr => (hroutines.1 r hr).alike xs ys
  have hprocedures := alikeBy_map Routine.alike _ fun r hr => (hroutines.2 r hr).alike xs ys
  have hbody := Stmt.alikeEach_of_made xs ys h.body
  simp [Program.revise, Program.alike, h.globals.alike, hfunctions, hprocedures, hbody]

end

/-! ## The same in C -/

section

variable (toks : List Token)

namespace Expr

section

variable {routines routines' : List String}

mutual

lemma toC_revise (h : C.callee routines = C.callee routines') : (e : Expr) →
    (e.revise (.onto toks)).toC routines = e.toC routines'
  | .integer .. | .real .. | .boolean .. | .char .. | .string .. | .name .. | .unknown _ | .missing => by
    simp [revise, toC]
  | .binary _ _ l r => by simp only [revise, toC, toC_revise h l, toC_revise h r]
  | .unary _ _ e | .paren _ e => by simp only [revise, toC, toC_revise h e]
  | .index _ a is => by simp only [revise, toC, toC_revise h a, toCEach_revise h is]
  | .field _ o _ => by simp [revise, toC, toC_revise h o]
  | .call _ _ args => by simp [revise, toC, toCEach_revise h args, h]

lemma toCEach_revise (h : C.callee routines = C.callee routines') : (es : List Expr) →
    toCEach routines (reviseEach (.onto toks) es) = toCEach routines' es
  | [] => rfl
  | e :: es => by simp only [reviseEach, toCEach, toC_revise h e, toCEach_revise h es]

end

end

lemma literalInC_revise {e : Expr} (h : e.isLiteral) : (e.revise (.onto toks)).literalInC = e.literalInC := by
  cases e <;> first | rfl | cases h

lemma literalTypeInC_revise (e : Expr) : (e.revise (.onto toks)).literalTypeInC = e.literalTypeInC := by
  cases e <;> rfl

section

variable {ctx ctx' : C.Context} (h : ctx.kinds = ctx'.kinds)
include h

lemma shownAs_revise : (e : Expr) → (e.revise (.onto toks)).shownAs ctx = e.shownAs ctx'
  | .binary _ _ l r => by simp only [revise, shownAs, shownAs_revise l, shownAs_revise r]
  | .integer .. | .real .. | .boolean .. | .char .. | .string .. | .name .. | .unary .. | .index .. | .field ..
  | .call .. | .paren .. | .unknown _ | .missing => by simp [revise, shownAs, C.Context.format, h]

lemma readAs_revise (e : Expr) : (e.revise (.onto toks)).readAs ctx = e.readAs ctx' := by
  cases e <;> simp [revise, readAs, C.Context.format, h]

end

end Expr

namespace TypeExpr

lemma suffixInC_revise : (t : TypeExpr) → (t.revise (.onto toks)).suffixInC = t.suffixInC
  | .array _ ds t => by simp only [revise, suffixInC, toCEach_revise toks rfl, suffixInC_revise t]
  | .primitive .. | .record .. | .enumeration .. | .named .. | .unknown _ | .missing => by
    simp only [revise, suffixInC]

mutual

lemma toC_revise : (t : TypeExpr) → (t.revise (.onto toks)).toC = t.toC
  | .primitive .. | .enumeration .. | .named .. | .unknown _ | .missing => by simp [revise, toC]
  | .array _ _ t => by simp only [revise, toC, toC_revise t]
  | .record _ fields => by simp only [revise, toC, fieldsToC_revise fields]

lemma fieldsToC_revise : (fields : List VarDecl) → fieldsToC (reviseFields (.onto toks) fields) = fieldsToC fields
  | [] => rfl
  | ⟨_, [], _⟩ :: fields => by simp [reviseFields, fieldsToC, fieldsToC_revise fields]
  | ⟨_, _ :: _, t⟩ :: fields => by
    simp [reviseFields, fieldsToC, toC_revise t, suffixInC_revise toks t, fieldsToC_revise fields]

end

lemma base_revise : (t : TypeExpr) → (t.revise (.onto toks)).base = t.base
  | .array _ _ t => by simp only [revise, base, base_revise t]
  | .primitive .. | .record .. | .enumeration .. | .named .. | .unknown _ | .missing => by
    simp only [revise, base]

end TypeExpr

lemma VarDecl.toC_revise (depth : Nat) (d : VarDecl) : (d.revise (.onto toks)).toC depth = d.toC depth := by
  simp [revise, toC, TypeExpr.toC_revise, TypeExpr.suffixInC_revise]

lemma mapM_map_eq {f f' : α → Except C.Unsupported β} {g : α → α} (as : List α)
    (h : ∀ a ∈ as, f (g a) = f' a) : (as.map g).mapM f = as.mapM f' := by
  induction as with
  | nil => rfl
  | cons a as ih =>
    obtain ⟨ha, has⟩ := forall_mem_cons.mp h
    rw [map_cons, mapM_cons, mapM_cons, ha, ih has]

lemma TypeDecl.toC_revise (depth : Nat) (d : TypeDecl) : (d.revise (.onto toks)).toC depth = d.toC depth := by
  obtain ⟨span, name, definition⟩ := d
  have hdeclare : (definition.revise (.onto toks)).declareInC name = definition.declareInC name := by
    simp only [declareInC, TypeExpr.toC_revise, TypeExpr.suffixInC_revise]
  cases definition with
  | record _ fields =>
    have hmembers := mapM_map_eq fields fun d _ => VarDecl.toC_revise toks (depth + 1) d
    simp [revise, TypeExpr.revise, toC, reviseFields_eq_map, hmembers, onto_name]
  | enumeration => simp [revise, TypeExpr.revise, toC]
  | unknown | missing => rfl
  | primitive | array | named =>
    simp only [TypeExpr.revise, onto_name, id_eq] at hdeclare
    simp [revise, TypeExpr.revise, toC, hdeclare, onto_name]

section

variable (d : ConstDecl) (h : d.value.isLiteral)
include h

lemma ConstDecl.defineInC_revise : (d.revise (.onto toks)).defineInC = d.defineInC := by
  simp [defineInC, revise, literalInC_revise toks h, onto_name]

lemma ConstDecl.toC_revise (depth : Nat) : (d.revise (.onto toks)).toC depth = d.toC depth := by
  simp [toC, revise, literalInC_revise toks h, literalTypeInC_revise, onto_name]

end

lemma Param.toC_revise (p : Param) : (p.revise (.onto toks)).toC = p.toC := by
  simp only [revise, toC, TypeExpr.toC_revise, TypeExpr.suffixInC_revise]
  rfl

/-- The primitive types are the same, and the same routines have their own names. -/
def C.Context.Agrees (ctx ctx' : C.Context) : Prop :=
  ctx.kinds = ctx'.kinds ∧ C.callee ctx.routines = C.callee ctx'.routines

lemma C.Context.Agrees.refl (ctx : C.Context) : ctx.Agrees ctx :=
  ⟨rfl, rfl⟩

namespace Stmt

section

variable {ctx ctx' : C.Context}

lemma printInC_revise (h : ctx.Agrees ctx') (depth : Nat) (es : List Expr) :
    printInC ctx depth (Expr.reviseEach (.onto toks) es) = printInC ctx' depth es := by
  have hshown : (Expr.reviseEach (.onto toks) es).map (fun e => (e.shownAs ctx).printed) =
      es.map fun e => (e.shownAs ctx').printed := by
    rw [reviseEach_eq_map, map_map]
    exact map_congr_left fun e _ => congrArg C.Format.printed (e.shownAs_revise toks h.1)
  simp only [printInC, Expr.toCEach_revise toks h.2, hshown]

mutual

lemma toC_revise (h : ctx.Agrees ctx') (depth : Nat) : (s : Stmt) →
    (s.revise (.onto toks)).toC ctx depth = s.toC ctx' depth
  | .assign _ t v => by simp only [revise, toC, Expr.toC_revise toks h.2]
  | .ifThen _ c yes none => by simp only [revise, toC, Expr.toC_revise toks h.2, toCEach_revise h _ yes]
  | .ifThen _ c yes (some []) => by
    simp only [revise, reviseEach, toC, Expr.toC_revise toks h.2, toCEach_revise h _ yes]
  | .ifThen _ c yes (some (s :: no)) => by
    have hno := toCEach_revise h (depth + 1) (s :: no)
    simp only [reviseEach] at hno
    simp only [revise, reviseEach, toC, Expr.toC_revise toks h.2, toCEach_revise h _ yes, hno]
  | .while _ c body | .doWhile _ body c => by
    simp only [revise, toC, Expr.toC_revise toks h.2, toCEach_revise h _ body]
  | .for _ n a b step body => by
    cases step <;> simp [revise, toC, onto_name, forInC, Expr.toC_revise toks h.2, toCEach_revise h _ body]
  | .switch _ e cases none => by
    simp only [revise, toC, Expr.toC_revise toks h.2, casesToC_revise h _ cases]
  | .switch _ e cases (some body) => by
    simp only [revise, toC, Expr.toC_revise toks h.2, casesToC_revise h _ cases, toCEach_revise h _ body]
  | .call .. => by simp [revise, toC, Expr.toCEach_revise toks h.2, h.2]
  | .scan _ ts => by
    simp only [revise, toC, Expr.reviseEach_eq_map]
    exact mapM_map_eq _ fun e _ => by simp only [scanInC, Expr.toC_revise toks h.2, Expr.readAs_revise toks h.1]
  | .print _ es => by simp only [revise, toC, printInC_revise toks h]
  | .return .. => by simp only [revise, toC, Expr.toC_revise toks h.2]
  | .block _ body => by simp only [revise, toC, toCEach_revise h _ body]
  | .unknown _ => rfl

lemma toCEach_revise (h : ctx.Agrees ctx') (depth : Nat) : (body : List Stmt) →
    toCEach ctx depth (reviseEach (.onto toks) body) = toCEach ctx' depth body
  | [] => rfl
  | s :: body => by simp only [reviseEach, toCEach, toC_revise h depth s, toCEach_revise h depth body]

lemma casesToC_revise (h : ctx.Agrees ctx') (depth : Nat) : (cases : List CaseClause) →
    casesToC ctx depth (reviseCases (.onto toks) cases) = casesToC ctx' depth cases
  | [] => rfl
  | ⟨_, vs, body⟩ :: cases => by
    simp only [reviseCases, casesToC, labelsInC, Expr.toCEach_revise toks h.2, toCEach_revise h _ body,
      casesToC_revise h depth cases]

end

end

end Stmt

lemma VarDecl.noteKinds_revise (kinds : Keyed Primitive) (vars : List VarDecl) :
    (reviseFields (.onto toks) vars).foldl noteKinds kinds = vars.foldl noteKinds kinds := by
  have hnote (kinds : Keyed Primitive) (d : VarDecl) : noteKinds kinds (d.revise (.onto toks)) = noteKinds kinds d := by
    simp [noteKinds, revise, base_revise, onto_name]
  rw [reviseFields_eq_map, foldl_map, funext₂ hnote]

namespace Routine

lemma signatureInC_revise (r : Routine) : (r.revise (.onto toks)).signatureInC = r.signatureInC := by
  have hparams := mapM_map_eq r.params fun p _ => p.toC_revise toks
  have hresult : (r.result.map (.revise (.onto toks))).elim (pure "void") TypeExpr.toC =
      r.result.elim (pure "void") TypeExpr.toC := by
    cases r.result with
    | none => rfl
    | some t => exact t.toC_revise toks
  simp [signatureInC, revise, hparams, hresult, onto_name]

lemma kinds_revise (r : Routine) (globals : Keyed Primitive) :
    (r.revise (.onto toks)).kinds globals = r.kinds globals := by
  simp [kinds, revise, Declarations.revise, VarDecl.noteKinds_revise, foldl_map, Param.revise, base_revise, onto_name]

/-- A routine adds its own variables to those of the program. -/
lemma toC_revise {r : Routine} (h : ∀ d ∈ r.locals.constants, d.value.isLiteral) {ctx ctx' : C.Context}
    (hctx : ctx.Agrees ctx') : (r.revise (.onto toks)).toC ctx = r.toC ctx' := by
  have hinside : C.Context.Agrees { ctx with kinds := r.kinds ctx.kinds } { ctx' with kinds := r.kinds ctx'.kinds } :=
    ⟨congrArg r.kinds hctx.1, hctx.2⟩
  have htypes := mapM_map_eq r.locals.types fun d _ => d.toC_revise toks 1
  have hconstants := mapM_map_eq r.locals.constants fun d hd => d.toC_revise toks (h d hd) 1
  have hvars := mapM_map_eq r.locals.vars fun d _ => d.toC_revise toks 1
  rw [Routine.toC, signatureInC_revise, kinds_revise]
  simp only [Routine.toC, revise, Declarations.revise, reviseFields_eq_map, htypes, hconstants,
    hvars, Stmt.toCEach_revise toks hinside]

end Routine

namespace Program

lemma routines_revise (p : Program) :
    (p.revise (.onto toks)).routines = p.routines.map (.revise (.onto toks)) :=
  map_append.symm

lemma contextInC_revise (p : Program) : (p.revise (.onto toks)).contextInC = p.contextInC := by
  have hkeys : (p.revise (.onto toks)).routineKeys = p.routineKeys := by
    rw [routineKeys, routines_revise, map_map]
    rfl
  rw [contextInC, hkeys, contextInC]
  simp only [revise, Declarations.revise, VarDecl.noteKinds_revise]

/-- The same program becomes the same C, wherever its parts stand. -/
lemma Made.generate_revise {p : Program} (h : p.Made S) (indent : String) :
    (p.revise (.onto toks)).generate indent = p.generate indent := by
  have htypes := mapM_map_eq p.globals.types fun d _ => d.toC_revise toks 0
  have hconstants := mapM_map_eq p.globals.constants fun d hd =>
    d.defineInC_revise toks (h.globals.constants d hd)
  have hvars := mapM_map_eq p.globals.vars fun d _ => d.toC_revise toks 0
  have hprototypes := mapM_map_eq (f := fun r : Routine => do return (⟨0, (← r.signatureInC) ++ ";"⟩ : C.Line))
    p.routines fun r _ => by rw [r.signatureInC_revise toks]
  have hdefinitions := mapM_map_eq p.routines fun r hr =>
    Routine.toC_revise toks (h.routines r hr).locals.constants (.refl p.contextInC)
  have htoC : (p.revise (.onto toks)).toC = p.toC := by
    rw [Program.toC, contextInC_revise, routines_revise, hprototypes, hdefinitions]
    simp [Program.toC, headingInC, revise, Declarations.revise, reviseFields_eq_map, htypes, hconstants, hvars,
      Stmt.toCEach_revise toks (.refl _), onto_name]
  simp only [generate, htoC]

end Program

end

end AlgoLang
