/-
# The flowcharts of a program

One for the main body and one for each routine.  A C text is lifted first; then every node can be
led back to a line of the C text.
-/
import AlgoLang.Flow.Draw
import AlgoLang.Lift.Program
import AlgoLang.Program.Parse

namespace AlgoLang

namespace Flow

def declarationLabels (d : Declarations) : List (String × Option Span) :=
  d.constants.map (fun c => ("CONST " ++ c.name ++ " = " ++ c.value.format, c.span)) ++
    d.types.map (fun t => ("TYPE " ++ t.name ++ " = " ++ t.definition.format, t.span)) ++
    d.vars.map (fun v => ("VAR " ++ ", ".intercalate v.names ++ " : " ++ v.type.format, v.span))

end Flow

/-- The routines of a program under small letters; of two with the same letters the later counts. -/
def Program.routineNames (p : Program) : Keyed String :=
  Keyed.ofList (p.routines.map fun r => (Text.lower r.name, r.name))

def Program.mainDrawing (p : Program) (layout : Flow.Layout) : Flow.Drawing :=
  Flow.Drawing.ofBody layout p.routineNames ("Start " ++ p.name) ("End " ++ p.name)
    (Flow.declarationLabels p.globals) p.body

def Program.mainChart (p : Program) (layout : Flow.Layout) : Flow.Chart :=
  (p.mainDrawing layout).chart p.name .main

def Routine.role (r : Routine) : Flow.Role :=
  if r.result.isSome then .function else .procedure

def Routine.startLabel (r : Routine) : String :=
  let head := r.name ++ "(" ++ Param.formatList r.params ++ ")"
  match r.result with
  | some t => "Function " ++ head ++ " : " ++ t.format
  | none => "Procedure " ++ head

/-- The drawing of a routine; `names` are all routines under small letters. -/
def Routine.drawing (r : Routine) (layout : Flow.Layout) (names : Keyed String) : Flow.Drawing :=
  Flow.Drawing.ofBody layout names r.startLabel ("End " ++ r.name) (Flow.declarationLabels r.locals) r.body

def Routine.chart (r : Routine) (layout : Flow.Layout) (names : Keyed String) : Flow.Chart :=
  (r.drawing layout names).chart r.name r.role

def Program.checkLayout (p : Program) (layout : Flow.Layout) : Except NumeralFault Unit := do
  (p.mainDrawing layout).check
  p.routines.forM fun r => (r.drawing layout p.routineNames).check

mutual

def Stmt.isKnown : Stmt → Bool
  | .ifThen _ _ yes none => allKnown yes
  | .ifThen _ _ yes (some no) => allKnown yes && allKnown no
  | .while _ _ body | .doWhile _ body _ | .for _ _ _ _ _ body | .block _ body => allKnown body
  | .switch _ _ cases none => casesKnown cases
  | .switch _ _ cases (some d) => casesKnown cases && allKnown d
  | .unknown _ => false
  | _ => true

def Stmt.allKnown : List Stmt → Bool
  | [] => true
  | s :: ss => isKnown s && allKnown ss

def Stmt.casesKnown : List CaseClause → Bool
  | [] => true
  | ⟨_, _, body⟩ :: cs => allKnown body && casesKnown cs

end

namespace Flow

/-- The flowcharts of a program: the main body, and the routines under their names.  Of routines with
the same name the last one is shown, where the first one stood. -/
structure Charts where
  main : Chart
  routines : Keyed Chart

/-- The flowcharts of a program; none if it holds a statement of an unknown kind. -/
def Charts.ofProgram? (p : Program) (layout : Layout := {}) : Option Charts :=
  if Stmt.allKnown p.body && p.routines.all (fun r => Stmt.allKnown r.body) then
    some ⟨p.mainChart layout, Keyed.ofList (p.routines.map fun r => (r.name, r.chart layout p.routineNames))⟩
  else none

def Charts.all (c : Charts) : List Chart :=
  c.main :: c.routines.map (·.2)

def Charts.chart? (c : Charts) : Option String → Option Chart
  | none => some c.main
  | some name => c.routines.get? name

/-- What came of a source text: its flowcharts, or why there are none.  `sourceMap` leads from the
lines of a lifted program to those of the C text. -/
structure Charted where
  charts : Option Charts := none
  sourceMap : Option (List Int) := none
  error : Option String := none

/-- The last line that comes from somewhere, among the first `count`. -/
def lastMapped (map : List Int) (count : Nat) : Option Int :=
  ((map.take count).filter fun n => 0 ≤ n).getLast?

/-- The line of the source that a node came from, counted from zero.  A line of a lifted program that
comes from nowhere stands for the nearest one above it that does not. -/
def Charted.sourceLine (c : Charted) (n : Node) : Option Int :=
  n.span.bind fun span =>
    let line := span.start.line - 1
    match c.sourceMap with
    | none => some line
    | some map => lastMapped map (line + 1).toNat

inductive Language where
  | algo
  | c
  deriving DecidableEq

def Language.name : Language → String
  | algo => "algo"
  | c => "c"

def Language.ofName? (name : String) : Option Language :=
  [algo, c].find? fun l => l.name == Text.lower name

structure Options where
  layout : Layout := {}
  style : Lift.Style := {}
  files : CSource.Files := []

def ofAlgo (source : String) (layout : Layout) (sourceMap : Option (List Int)) :
    Except NumeralFault Charted :=
  (Program.ofSource source).bind fun
    | .ok p => (p.checkLayout layout).map fun _ => { charts := Charts.ofProgram? p layout, sourceMap }
    | .error ds => .ok { sourceMap, error := ds.head?.map fun d => "Syntax Error: " ++ d.display }

def ofC (source : String) (options : Options) : Except NumeralFault Charted :=
  let lifted := Lift.program source options.files options.style
  if lifted.success then ofAlgo lifted.code options.layout (some lifted.sourceMap)
  else .ok { error := some ("C Translation Error: " ++ ", ".intercalate lifted.errors) }

def ofSource (source language : String) (options : Options := {}) : Except NumeralFault Charted :=
  match Language.ofName? language with
  | some .algo => ofAlgo source options.layout none
  | some .c => ofC source options
  | none => .ok { error := some ("Unsupported language '" ++ Text.lower language ++ "'") }

end Flow

end AlgoLang
