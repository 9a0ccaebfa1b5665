/-
# What the library reports about a program

The severity of a `Diagnostic` decides whether the program is refused.  `display` is the form of one line, `text`
adds the source line with a caret below it and a hint.  A `Log` shows its findings in the order of the source.
-/
import AlgoLang.Number.Numeral
import AlgoLang.Source
import AlgoLang.Text.LetterCase

namespace AlgoLang

inductive Phase where
  | general
  | scanning
  | parsing
  | analysis
  | generation
  deriving DecidableEq

/-- How grave a diagnostic is.  Only a warning lets the work go on. -/
inductive Severity where
  | error
  | warning
  | other (name : String)
  deriving DecidableEq

def Severity.ofName (name : String) : Severity :=
  if name == "error" then .error else if name == "warning" then .warning else .other name

def Severity.name : Severity → String
  | .error => "error"
  | .warning => "warning"
  | .other name => name

structure Diagnostic where
  phase : Phase
  message : String
  location : Location := Location.start
  severity : Severity := .error
  hint : Option String := none
  sourceLine : Option String := none
  deriving DecidableEq

namespace Diagnostic

def isWarning (d : Diagnostic) : Bool :=
  d.severity == .warning

def display (d : Diagnostic) : String :=
  s!"[{Text.upper d.severity.name}] Line {d.location.line}, Column {d.location.column}: {d.message}"

/-- The line to show and how far in the caret stands below it; nothing for a column before the first. -/
def caret? (d : Diagnostic) : Option (String × Int) :=
  match d.sourceLine with
  | some line => if 0 < d.location.column then some (line, 4 + d.location.column - 1) else none
  | none => none

def context (d : Diagnostic) : List String :=
  match d.caret? with
  | some (line, depth) => ["    " ++ line, "".pushn ' ' depth.toNat ++ "^"]
  | none => []

def check (d : Diagnostic) : Except NumeralFault Unit :=
  match d.caret? with
  | some (_, depth) => Numeral.checkLength depth
  | none => .ok ()

/-- The hint on a line of its own; an empty one is not shown. -/
def hintLine (d : Diagnostic) : List String :=
  match d.hint with
  | some hint => if hint.isEmpty then [] else ["hint: " ++ hint]
  | none => []

def text (d : Diagnostic) : String :=
  "\n".intercalate (d.display :: d.context ++ d.hintLine)

def notAfter (a b : Diagnostic) : Bool :=
  a.location.notAfter b.location

end Diagnostic

/-- Findings so far, errors and warnings apart, each in the order they were found. -/
structure Log where
  errors : List Diagnostic := []
  warnings : List Diagnostic := []
  deriving DecidableEq

namespace Log

def add (log : Log) (d : Diagnostic) : Log :=
  if d.isWarning then { log with warnings := log.warnings ++ [d] }
  else { log with errors := log.errors ++ [d] }

theorem foldl_add (ds : List Diagnostic) (l : Log) :
    ds.foldl add l =
      { errors := l.errors ++ ds.filter fun d => !d.isWarning
        warnings := l.warnings ++ ds.filter Diagnostic.isWarning } := by
  induction ds generalizing l with
  | nil => simp
  | cons d ds ih =>
    rw [List.foldl_cons, ih, add]
    cases hd : d.isWarning <;> simp [hd]

def hasErrors (log : Log) : Bool :=
  !log.errors.isEmpty

/-- All findings by line and column.  At one place errors come first, and otherwise the order in
which they were found is kept. -/
def inOrder (log : Log) : List Diagnostic :=
  (log.errors ++ log.warnings).mergeSort Diagnostic.notAfter

/-- A count with its noun, which takes an s unless there is exactly one. -/
def counted (n : Nat) (noun : String) : String :=
  if n == 1 then s!"{n} {noun}" else s!"{n} {noun}s"

def summary (log : Log) : String :=
  counted log.errors.length "error" ++ ", " ++ counted log.warnings.length "warning"

def report (log : Log) : String :=
  "\n".intercalate (log.inOrder.map Diagnostic.display ++ [log.summary])

end Log

end AlgoLang
