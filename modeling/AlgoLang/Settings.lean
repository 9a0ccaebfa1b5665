/-
# What the surroundings may choose

Five variables of the environment change how the tools work.  A variable that is empty, or whose
value makes no sense, is passed over.
-/
import AlgoLang.Flow.Layout
import AlgoLang.Lift.Program

namespace AlgoLang

/-- Whether a program can have that name: a letter, then letters, digits and underscores, and not a
reserved word.  Letters are those of the English alphabet. -/
def isProgramName (name : String) : Bool :=
  match name.toList with
  | [] => false
  | c :: cs => c.isAlpha && cs.all (fun d => d.isAlphanum || d == '_') && (Keyword.ofName? name).isNone

/-- How grave an event has to be for the tools to mention it. -/
inductive LogLevel where
  | debug
  | info
  | warning
  | error
  deriving DecidableEq

namespace LogLevel

def name : LogLevel → String
  | debug => "DEBUG"
  | info => "INFO"
  | warning => "WARNING"
  | error => "ERROR"

/-- The level as a number; graver levels have higher ones. -/
def rank : LogLevel → Nat
  | debug => 10
  | info => 20
  | warning => 30
  | error => 40

def ofName? (text : String) : Option LogLevel :=
  [debug, info, warning, error].find? fun l => l.name == Text.upper text

end LogLevel

structure Settings where
  indentWidth : Int := 4
  logLevel : LogLevel := .warning
  programName : String := ({} : Lift.Style).programName
  layout : Flow.Layout := {}

namespace Settings

def indentWidthKey : String := "USDB_INDENT_WIDTH"
def logLevelKey : String := "USDB_LOG_LEVEL"
def programNameKey : String := "USDB_PROGRAM_NAME"
def nodeWidthKey : String := "USDB_FLOWCHART_NODE_WIDTH"
def verticalGapKey : String := "USDB_FLOWCHART_VERTICAL_GAP"

def keys : List String :=
  [indentWidthKey, logLevelKey, programNameKey, nodeWidthKey, verticalGapKey]

/-- The whole number that a variable holds, if it is not below the least one allowed. -/
def number? (env : String → Option String) (key : String) (least : Int) : Option Int :=
  ((env key).bind Numeral.setting?).filter fun n => least ≤ n

def ofEnv (env : String → Option String) : Settings :=
  let d : Settings := {}
  { indentWidth := (number? env indentWidthKey 1).getD d.indentWidth
    logLevel := ((env logLevelKey).bind LogLevel.ofName?).getD d.logLevel
    programName := ((env programNameKey).filter isProgramName).getD d.programName
    layout := { d.layout with
      nodeWidth := (number? env nodeWidthKey 1).getD d.layout.nodeWidth
      verticalGap := (number? env verticalGapKey 0).getD d.layout.verticalGap } }

/-- The level that holds during one run; a talkative run mentions everything. -/
def level (s : Settings) (verbose : Bool) : LogLevel :=
  if verbose then .debug else s.logLevel

def style (s : Settings) : Lift.Style :=
  { indentWidth := s.indentWidth, programName := s.programName }

end Settings

end AlgoLang
