/-
# Which names a program writes to

A plain name is written to by an assignment, as the counter of a loop and by `SCAN`.  The first two must keep off
constants.  What `SCAN` reads into is only looked up, so that a constant passes there.
-/
import AlgoLang.Proofs.Scoping.Program

namespace AlgoLang

open List

variable {w : Write}

namespace Scoping

/-- The ways to write to a plain name. -/
inductive Way where
  | assign
  | count
  | scan
  deriving DecidableEq

/-- A plain name that is written to. -/
structure Write where
  way : Way
  name : String

/-- The use that the analysis makes of a write. -/
def Write.use : Write → Use
  | ⟨.assign, n⟩ => .target n
  | ⟨.count, n⟩ => .counter n
  | ⟨.scan, n⟩ => .value n

/-- A name stands for a constant: a declared one, a value of an enumeration or a routine. -/
def Sight.Constant (s : Sight) (name : String) : Prop :=
  ∃ e ∈ s.entity? name, e.isConstant

instance (s : Sight) (name : String) : Decidable (s.Constant name) :=
  inferInstanceAs (Decidable (∃ e ∈ s.entity? name, e.isConstant))

end Scoping

open Scoping

/-- The write to the whole of a place; an element or a field has none. -/
def Expr.writes (way : Way) : Expr → List Write
  | name _ n => [⟨way, n⟩]
  | _ => []

namespace Stmt

mutual

/-- All writes to plain names in a statement. -/
def writes : Stmt → List Write
  | assign _ t _ => t.writes .assign
  | ifThen _ _ yes none => writesEach yes
  | ifThen _ _ yes (some no) => writesEach yes ++ writesEach no
  | .while _ _ body | doWhile _ body _ | block _ body => writesEach body
  | .for _ n _ _ _ body => ⟨.count, n⟩ :: writesEach body
  | switch _ _ cases none => writesCases cases
  | switch _ _ cases (some d) => writesCases cases ++ writesEach d
  | scan _ ts => ts.flatMap (Expr.writes .scan)
  | call .. | print .. | .return .. | unknown _ => []

def writesEach : List Stmt → List Write
  | [] => []
  | s :: ss => writes s ++ writesEach ss

def writesCases : List CaseClause → List Write
  | [] => []
  | ⟨_, _, body⟩ :: cs => writesEach body ++ writesCases cs

end

lemma use_mem_usesEach_of_scan {ts : List Expr} (h : w ∈ ts.flatMap (Expr.writes .scan)) :
    w.use ∈ Expr.usesEach ts := by
  induction ts with
  | nil => exact absurd h not_mem_nil
  | cons t ts ih =>
    rcases mem_append.mp h with ht | hts
    · refine mem_append_left _ ?_
      cases t <;> simp_all [Expr.writes, Expr.uses, Write.use]
    · exact mem_append_right _ (ih hts)

mutual

/-- Every write is among the uses that the analysis judges. -/
lemma use_mem_uses {s : Stmt} {w : Write} (h : w ∈ s.writes) : w.use ∈ s.uses := by
  match s with
  | assign _ t v =>
    refine mem_append_right _ ?_
    cases t <;> simp_all [writes, Expr.writes, Expr.targetUses, Write.use]
  | ifThen _ c yes none => exact mem_append_right _ (use_mem_usesEach h)
  | ifThen _ c yes (some no) =>
    rcases mem_append.mp h with hyes | hno
    · exact mem_append_left _ (mem_append_right _ (use_mem_usesEach hyes))
    · exact mem_append_right _ (use_mem_usesEach hno)
  | .while _ c body => exact mem_append_right _ (use_mem_usesEach h)
  | doWhile _ body c => exact mem_append_left _ (use_mem_usesEach h)
  | .for _ n a b step body =>
    rcases mem_cons.mp h with rfl | hbody
    · exact mem_cons_self
    · exact mem_cons_of_mem _ (mem_append_right _ (use_mem_usesEach hbody))
  | switch _ e cases none => exact mem_append_right _ (use_mem_usesCases h)
  | switch _ e cases (some d) =>
    rcases mem_append.mp h with hcases | hdefault
    · exact mem_append_left _ (mem_append_right _ (use_mem_usesCases hcases))
    · exact mem_append_right _ (use_mem_usesEach hdefault)
  | scan _ ts => exact use_mem_usesEach_of_scan h
  | block _ body => exact use_mem_usesEach h
  | call .. | print .. | .return .. | unknown _ => exact absurd h not_mem_nil

lemma use_mem_usesEach {ss : List Stmt} {w : Write} (h : w ∈ writesEach ss) : w.use ∈ usesEach ss := by
  match ss with
  | [] => exact absurd h not_mem_nil
  | s :: ss =>
    rcases mem_append.mp h with hs | hss
    · exact mem_append_left _ (use_mem_uses hs)
    · exact mem_append_right _ (use_mem_usesEach hss)

lemma use_mem_usesCases {cs : List CaseClause} {w : Write} (h : w ∈ writesCases cs) : w.use ∈ usesCases cs := by
  match cs with
  | [] => exact absurd h not_mem_nil
  | ⟨_, vs, body⟩ :: cs =>
    rcases mem_append.mp h with hbody | hcs
    · exact mem_append_left _ (mem_append_right _ (use_mem_usesEach hbody))
    · exact mem_append_right _ (use_mem_usesCases hcs)

end

end Stmt

/-- The bodies of a program, each with the scopes it sees. -/
def Program.bodies (p : Program) : List (Sight × List Stmt) :=
  ([p.frame], p.body) :: p.routines.map fun r => ([r.frame p.frame, p.frame], r.body)

lemma Program.WellScoped.legal {p : Program} (h : p.WellScoped) {b : Sight × List Stmt}
    (hb : b ∈ p.bodies) {u : Use} (hu : u ∈ Stmt.usesEach b.2) : u.Legal b.1 := by
  rcases mem_cons.mp hb with rfl | hb
  · exact h.body u hu
  · obtain ⟨r, hr, rfl⟩ := mem_map.mp hb
    exact (h.routines r hr).body u hu

/-- A legal write other than by `SCAN` keeps off constants. -/
lemma Scoping.Write.not_constant {s : Sight} (hlegal : w.use.Legal s) (hway : w.way ≠ .scan) :
    ¬ s.Constant w.name := by
  rintro ⟨e, he, hconstant⟩
  obtain ⟨way, n⟩ := w
  cases way with
  | assign => simp_all [Write.use, Use.Legal]
  | count => simp_all [Write.use, Use.Legal]
  | scan => exact hway rfl

/-- **Only `SCAN` writes to constants.**  If nothing but warnings is found in a program, then in all its
bodies no assignment to a plain name and no counter of a loop hits a constant, in the scopes that the
body sees. -/
theorem Analysis.assigned_not_constant {p : Program}
    (haccepts : ∀ d ∈ (Analysis.ofProgram p).diagnostics, d.isWarning) {b : Sight × List Stmt}
    (hb : b ∈ p.bodies) {w : Write} (hw : w ∈ Stmt.writesEach b.2) (hway : w.way ≠ .scan) :
    ¬ b.1.Constant w.name := by
  have hlegal := (Analysis.wellScoped_of_passes haccepts).legal hb (Stmt.use_mem_usesEach hw)
  exact Write.not_constant hlegal hway

/-- `FOR n <- 1 TO N DO SCAN(x)` in a procedure with a variable `n`. -/
def countingProcedure : Routine where
  name := "q"
  locals := { vars := [⟨none, ["n", "x"], .primitive none .integer⟩] }
  body := [.for none "n" (.integer none 1) (.name none "N") none [.scan none [.name none "x"]]]

/-- The procedure in a program with a constant `N`. -/
def shadowing : Program where
  name := "a"
  globals := { constants := [{ name := "N", value := .integer none 5 }] }
  procedures := [countingProcedure]

/-- The variable of the procedure hides the constant. -/
theorem Analysis.counter_not_constant : (∀ d ∈ (Analysis.ofProgram shadowing).diagnostics, d.isWarning) ∧
      ∃ b ∈ shadowing.bodies, ⟨.count, "n"⟩ ∈ Stmt.writesEach b.2 ∧ ¬ b.1.Constant "n" := by
  have haccepts : ∀ d ∈ (Analysis.ofProgram shadowing).diagnostics, d.isWarning := by decide +kernel
  have hb : ([countingProcedure.frame shadowing.frame, shadowing.frame], countingProcedure.body) ∈
      shadowing.bodies := mem_cons_of_mem _ mem_cons_self
  exact ⟨haccepts, _, hb, mem_cons_self,
    Analysis.assigned_not_constant haccepts hb (w := ⟨.count, "n"⟩) mem_cons_self nofun⟩

/-- And `SCAN` does: this text is read, nothing at all is found in it, and it reads into a constant. -/
theorem Analysis.accepts_scan_of_constant :
    ∃ p, Program.ofScanned (Token.scan "ALGORITHM a CONST N = 5 BEGIN SCAN(N) END.")
        "ALGORITHM a CONST N = 5 BEGIN SCAN(N) END." = .ok (.ok p) ∧
      (Analysis.ofProgram p).diagnostics = [] ∧
      ∃ b ∈ p.bodies, ∃ w ∈ Stmt.writesEach b.2, b.1.Constant w.name :=
  exists_ok_ok (by decide +kernel)

end AlgoLang
