/-
# What a routine becomes

Of the program around it, a body reads the primitive types of the variables and the names of the routines.
Programs that agree in these emit what they share alike.  Spans may differ, for a line of C holds no place of the
source.
-/
import AlgoLang.Proofs.Ensures
import AlgoLang.Proofs.Relocation.Generation

namespace AlgoLang

open List

lemma Ensures.mapM {ε α β : Type} (f : α → Except ε β) (as : List α) :
    Ensures (as.mapM f) (Forall₂ (fun a b => f a = .ok b) as) := by
  induction as with
  | nil => exact .ok .nil
  | cons a as ih =>
    rw [mapM_cons]
    exact .bind (fun _ h => h) fun _ ha => ih.bind fun _ has => .ok (.cons ha has)

/-- What has become C has literals for its constants. -/
lemma Routine.isLiteral_of_toC (ctx : C.Context) (r : Routine) :
    Ensures (r.toC ctx) fun _ => ∀ d ∈ r.locals.constants, d.value.isLiteral := by
  have hconstant (d : ConstDecl) : Ensures (d.toC 1) fun _ => d.value.isLiteral := by
    refine .bind (P := fun _ => d.value.isLiteral) ?_ fun _ h => .ok h
    unfold Expr.literalInC
    split
    · next h => exact fun _ _ => h
    · exact nofun
  refine .bind' fun _ => .bind' fun _ => (Ensures.mapM _ _).bind fun _ hdone => .bind' fun _ => .bind' fun _ => .ok ?_
  exact ((forall₂_and_left _ _).mp (hdone.imp fun d line hline => ⟨hconstant d line hline, hline⟩)).1

/-- All stands in one place: what is left of a program is all but its stretches of source. -/
abbrev Revision.nowhere : Revision :=
  .onto []

namespace Program

/-- Behind all else stand the definitions of the routines, in their order, and the lines of the main body. -/
structure LaidOut (p : Program) (lines : List C.Line) (definitions : List (List C.Line)) (main : List C.Line) :
    Prop where
  defined : Forall₂ (fun r ls => r.toC p.contextInC = .ok ls) p.routines definitions
  body : Stmt.toCEach p.contextInC 1 p.body = .ok main
  lines : ∃ front, lines = front ++ definitions.flatMap (· ++ [C.Line.empty]) ++
    [⟨0, "int main(void) \x7b"⟩] ++ main ++ [⟨1, "return 0;"⟩, ⟨0, "\x7d"⟩]

lemma ensures_laidOut (p : Program) : Ensures p.toC fun lines => ∃ definitions main, p.LaidOut lines definitions main :=
  .bind' fun _ => .bind' fun _ => .bind' fun _ => .bind' fun _ =>
    (Ensures.mapM _ p.routines).bind fun _ hdefined => .bind (fun _ h => h) fun _ hbody =>
      .ok ⟨_, _, hdefined, hbody, _, rfl⟩

/-- Two programs with the same variables and the same names of routines emit a routine that they share as the same
definition, and a main body that they share as the same lines, all up to stretches of source.  The other routines do
not matter, nor does the order of the routines. -/
theorem toC_frame {p q : Program} {lines lines' : List C.Line}
    (hvars : TypeExpr.reviseFields .nowhere p.globals.vars = TypeExpr.reviseFields .nowhere q.globals.vars)
    (hkeys : ∀ k, k ∈ p.routineKeys ↔ k ∈ q.routineKeys) (hp : p.toC = .ok lines) (hq : q.toC = .ok lines') :
    ∃ definitions main definitions' main', p.LaidOut lines definitions main ∧ q.LaidOut lines' definitions' main' ∧
      (∀ r r' ls ls', r.revise .nowhere = r'.revise .nowhere → (r, ls) ∈ p.routines.zip definitions →
        (r', ls') ∈ q.routines.zip definitions' → ls = ls') ∧
      (Stmt.reviseEach .nowhere p.body = Stmt.reviseEach .nowhere q.body → main = main') := by
  obtain ⟨definitions, main, hlaid⟩ := p.ensures_laidOut lines hp
  obtain ⟨definitions', main', hlaid'⟩ := q.ensures_laidOut lines' hq
  have hcontext : p.contextInC.Agrees q.contextInC := by
    have hkinds := congrArg (foldl VarDecl.noteKinds []) hvars
    rw [VarDecl.noteKinds_revise, VarDecl.noteKinds_revise] at hkinds
    exact ⟨hkinds, funext fun name => by simp [C.callee, contextInC, hkeys]⟩
  refine ⟨definitions, main, definitions', main', hlaid, hlaid', fun r r' ls ls' heq hr hr' => ?_, fun hbody => ?_⟩
  · have hls := (forall₂_iff_zip.mp hlaid.defined).2 hr
    have hls' := (forall₂_iff_zip.mp hlaid'.defined).2 hr'
    have hsame := Routine.toC_revise [] (r.isLiteral_of_toC _ _ hls) (.refl p.contextInC)
    rw [heq, Routine.toC_revise [] (r'.isLiteral_of_toC _ _ hls') hcontext, hls, hls'] at hsame
    exact (Except.ok.inj hsame).symm
  · have hsame := Stmt.toCEach_revise [] (.refl p.contextInC) 1 p.body
    rw [hbody, Stmt.toCEach_revise [] hcontext, hlaid.body, hlaid'.body] at hsame
    exact (Except.ok.inj hsame).symm

/-- The local variable of a procedure changes neither the other procedure nor the main body. -/
theorem toC_frame_local : let vars (t : Primitive) : Declarations := { vars := [⟨none, ["v"], .primitive none t⟩] }
    let body (span : Option Span) : List Stmt := [.print span [.name none "v"]]
    let r : Routine := { name := "r", body := body none }
    let p : Program := { name := "p", globals := vars .integer, procedures := [r, { name := "s" }], body := body none }
    let s : Routine := { name := "S", locals := vars .real, body := body none }
    let q : Program := { name := "q", globals := vars .integer, procedures := [s, r], body := body (some ⟨.start, .start⟩) }
    ∃ lines lines' definitions main definitions' main', p.LaidOut lines definitions main ∧
      q.LaidOut lines' definitions' main' ∧ main = main' ∧
        ∀ ls ls', (r, ls) ∈ p.routines.zip definitions → (r, ls') ∈ q.routines.zip definitions' → ls = ls' := by
  intro vars body r p s q
  have hkeys : p.routineKeys ~ q.routineKeys := by decide
  obtain ⟨definitions, main, definitions', main', hp, hq, hshared, hmain⟩ :=
    toC_frame (p := p) (q := q) rfl (fun _ => hkeys.mem_iff) rfl rfl
  exact ⟨_, _, definitions, main, definitions', main', hp, hq, hmain rfl, fun ls ls' => hshared r r ls ls' rfl⟩

end Program

end AlgoLang
