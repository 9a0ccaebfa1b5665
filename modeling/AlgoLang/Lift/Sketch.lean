/-
# All that has been lifted so far

A `Sketch` holds the parts of the program that are complete, and which names are types and which parameters are
pointers.  Inside a routine a `Scene` holds the sketch together with that routine.
-/
import AlgoLang.Lift.Body

namespace AlgoLang.Lift

inductive TypeEntry where
  | synonym (name type : String)
  | enumeration (name : String) (values : List String)
  | record (name : String) (fields : List Variable)
  deriving DecidableEq

/-- The parts of a program, complete ones only.  `indentFault` says why no line can be indented, if that
is so. -/
structure Sketch where
  warnings : List String := []
  constants : List (String × String) := []
  types : List TypeEntry := []
  typeNames : Keyed String := []
  vars : List Variable := []
  initials : List (String × Nat) := []
  routines : List Draft := []
  byPointer : Keyed (List Bool) := []
  main : Option Draft := none
  indentFault : Option NumeralFault := none

/-- A number that is too great ends the work; the warnings so far are kept. -/
structure Failure where
  fault : NumeralFault
  warnings : List String

namespace Sketch

def warn (sk : Sketch) (warnings : List String) : Sketch :=
  { sk with warnings := sk.warnings ++ warnings }

/-- Goes on with a result, or fails with the warnings so far. -/
def attempt {α : Type} (sk : Sketch) (result : Except NumeralFault α) : Except Failure α :=
  result.mapError fun fault => ⟨fault, sk.warnings⟩

/-- Adds a declaration to the whole program; the assignments of initial values are handed back. -/
def declare (sk : Sketch) : Declaration → Sketch × List String
  | .constant name value => ({ sk with constants := sk.constants ++ [(name, value)] }, [])
  | .vars d => ({ sk.warn d.warnings with vars := addVariables sk.vars d.vars }, d.initials)

/-- Adds a routine that is complete; a later `main` replaces an earlier one. -/
def store (sk : Sketch) (isMain : Bool) (d : Draft) : Sketch :=
  if isMain then { sk with main := some d } else { sk with routines := sk.routines ++ [d] }

end Sketch

structure Scene where
  sketch : Sketch
  routine : OpenRoutine

namespace Scene

def warn (s : Scene) (warning : String) : Scene :=
  { s with sketch := s.sketch.warn [warning] }

def update (s : Scene) (f : OpenRoutine → OpenRoutine) : Scene :=
  { s with routine := f s.routine }

/-- Adds a declaration to the routine, or to the program if the routine is `main`. -/
def declare (s : Scene) (d : Declaration) : Scene × List String :=
  if s.routine.isMain then
    let (sketch, initials) := s.sketch.declare d
    ({ s with sketch }, initials)
  else
    let draft := s.routine.draft
    match d with
    | .constant name value =>
      (s.update fun r => { r with draft := { draft with constants := draft.constants ++ [(name, value)] } }, [])
    | .vars d =>
      ({ sketch := s.sketch.warn d.warnings
         routine := { s.routine with draft := { draft with vars := addVariables draft.vars d.vars } } },
        d.initials)

def comment (s : Scene) (reason text : String) (origin : Nat) : Scene :=
  (s.warn (reason ++ ": " ++ text)).update fun r => r.emitLines ["// " ++ text] origin

def keepAsComment (s : Scene) (text : List Char) (origin : Nat) : Scene :=
  s.comment "Unsupported C construct kept as comment" (String.ofList text) origin

end Scene

end AlgoLang.Lift
