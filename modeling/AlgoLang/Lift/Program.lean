/-
# From a C text to a program of the algorithmic language

Constants, types, variables, routines, and the main body with the initial values of global variables first.
Every line is written together with the line of C it came from.
-/
import AlgoLang.CSource.Include
import AlgoLang.Lift.File

namespace AlgoLang.Lift

open Text CSource

structure Style where
  indentWidth : Int := 4
  programName : String := "TranslatedProgram"
  deriving DecidableEq

/-- A line of the program, and the line of C it came from; many come from none. -/
structure Line where
  text : String
  origin : Option Nat
  deriving DecidableEq

def Line.added (text : String) : Line :=
  ⟨text, none⟩

def indented (indent : String) (depth : Nat) (text : String) : String :=
  String.join (List.replicate depth indent) ++ text

/-! ## Parts -/

/-- A heading and lines below it, if there are any, with an empty line above or not. -/
def titled (above : List Line) (title : String) (lines : List Line) : List Line :=
  match lines with
  | [] => []
  | _ => above ++ Line.added title :: lines

def constantLines (indent : String) (constants : List (String × String)) : List Line :=
  constants.map fun c => .added (indent ++ c.1 ++ " = " ++ c.2)

/-- A declared type; the fields of a structure stand one level deeper. -/
def TypeEntry.lines (indent : String) : TypeEntry → List String
  | synonym name type => [name ++ " = " ++ type]
  | enumeration name values => [name ++ " = (" ++ ", ".intercalate values ++ ")"]
  | record name fields =>
    [name ++ " = STRUCTURE", "BEGIN"] ++ fields.map (fun v => indent ++ v.name ++ " : " ++ v.typeText) ++ ["END"]

def typeLines (indent : String) (types : List TypeEntry) : List Line :=
  types.flatMap fun t => (t.lines indent).map fun l => .added (indent ++ l)

/-- The types of variables, each once, in the order in which they first come. -/
def typesOf (vs : List Variable) : List String :=
  vs.foldl (fun ts v => if ts.contains v.type then ts else ts ++ [v.type]) []

/-- The variables of one type: all that are no arrays on one line, then every array by itself. -/
def groupLines (indent : String) (type : String) (vs : List Variable) : List Line :=
  let group := vs.filter fun v => v.type == type
  let scalars := (group.filter (·.dimensions.isEmpty)).map Variable.name
  let arrays := group.filter (!·.dimensions.isEmpty)
  (if scalars.isEmpty then [] else [.added (indent ++ ", ".intercalate scalars ++ " : " ++ type)]) ++
    arrays.map fun v => .added (indent ++ v.name ++ " : " ++ v.typeText)

def variableLines (indent : String) (vs : List Variable) : List Line :=
  (typesOf vs).flatMap fun t => groupLines indent t vs

def bodyLines (indent : String) (rows : List Row) : List Line :=
  rows.map fun r => ⟨indented indent (1 + r.depth) r.content.text, r.origin⟩

def Draft.head (d : Draft) : String :=
  let params := "(" ++ ", ".intercalate d.params ++ ")"
  match d.result with
  | none => "PROCEDURE " ++ d.name ++ params
  | some type => "FUNCTION " ++ d.name ++ params ++ " : " ++ type

def Draft.lines (indent : String) (d : Draft) : List Line :=
  [.added "", ⟨d.head, some d.origin⟩] ++ titled [] "CONST" (constantLines indent d.constants) ++
    titled [] "VAR" (variableLines indent d.vars) ++
    Line.added "BEGIN" :: bodyLines indent d.body ++ [⟨"END", d.stop⟩]

/-- The whole program, given its name and one level of indentation. -/
def Sketch.lines (sk : Sketch) (name indent : String) : List Line :=
  Line.added ("ALGORITHM " ++ name) ::
    titled [.added ""] "CONST" (constantLines indent sk.constants) ++
    titled [.added ""] "TYPE" (typeLines indent sk.types) ++
    titled [.added ""] "VAR" (variableLines indent sk.vars) ++
    sk.routines.flatMap (Draft.lines indent) ++
    [.added "", .added "BEGIN"] ++ sk.initials.map (fun i => ⟨indent ++ i.1, some i.2⟩) ++
    (sk.main.elim [] fun m => bodyLines indent m.body) ++ [⟨"END.", sk.main.bind Draft.stop⟩]

/-! ## Programs -/

structure Lifted where
  lines : Option (List Line) := none
  warnings : List String := []
  errors : List String := []

namespace Lifted

def success (l : Lifted) : Bool :=
  l.lines.isSome

def code (l : Lifted) : String :=
  l.lines.elim "" fun ls => "\n".intercalate (ls.map Line.text) ++ "\n"

/-- For each line of the program the line of C it came from, or −1. -/
def sourceMap (l : Lifted) : List Int :=
  (l.lines.getD []).map fun line => line.origin.elim (-1) fun n => (n : Int)

end Lifted

def programLines (code : String) (files : Files) (style : Style) :
    Except Failure (List Line × List String) := do
  let expansion := expand files code
  let indentFault := match Numeral.checkLength style.indentWidth with
    | .error fault => some fault
    | .ok _ => none
  let sk ← fragments (.outer { warnings := expansion.warnings, indentFault } 0) (splitFragments expansion.lines)
  let indent ← sk.attempt (Numeral.spaces style.indentWidth)
  return (sk.lines style.programName indent, sk.warnings)

def program (code : String) (files : Files := []) (style : Style := {}) : Lifted :=
  if allBlank code.toList then { errors := ["Empty C source"] }
  else
    match programLines code files style with
    | .ok (lines, warnings) => { lines := some lines, warnings }
    | .error f => { warnings := f.warnings, errors := ["Internal translator error: " ++ f.fault.message] }

end AlgoLang.Lift
