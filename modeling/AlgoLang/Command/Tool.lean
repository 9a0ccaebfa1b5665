/-
# How a tool runs

A tool says things on two channels and ends with a code: zero if all went well, one if the program it worked on
was refused, two if it was called wrongly or a file is at fault, and three otherwise.  Sequences that steer a
terminal are only meant for one.
-/
import AlgoLang.Host
import AlgoLang.Path
import AlgoLang.Text.Terminal

namespace AlgoLang.Command

inductive Ending where
  | success
  | refused
  | misuse
  | breakdown
  deriving DecidableEq

def Ending.code : Ending → Nat
  | success => 0
  | refused => 1
  | misuse => 2
  | breakdown => 3

structure Spoken where
  out : String := ""
  err : String := ""
  deriving DecidableEq

/-- What was said, as it is shown where there is no terminal. -/
def Spoken.plain (s : Spoken) : Spoken :=
  ⟨Text.plain s.out, Text.plain s.err⟩

structure Report where
  ending : Ending
  spoken : Spoken
  deriving DecidableEq

/-- A tool at work: it may end early, and what it said until then stands. -/
abbrev Tool (m : Type → Type) := ExceptT Ending (StateT Spoken m)

namespace Tool

variable {m : Type → Type} [Monad m]

def put (text : String) : Tool m Unit :=
  modify fun s => { s with out := s.out ++ text }

def say (line : String) : Tool m Unit :=
  put (line ++ "\n")

def note (line : String) : Tool m Unit :=
  modify fun s => { s with err := s.err ++ line ++ "\n" }

/-- Puts a line beside the standard output if that was asked for. -/
def noteIf (wanted : Bool) (line : String) : Tool m Unit :=
  if wanted then note line else pure ()

def stop {α : Type} (ending : Ending) : Tool m α :=
  throw ending

def misused {α : Type} (message : String) : Tool m α := do
  note ("Error: " ++ message)
  stop .misuse

def breakDown {α : Type} (message : String) : Tool m α := do
  note ("Internal error: " ++ message)
  stop .breakdown

def fileFault {α : Type} (path : String) (f : FileFault) : Tool m α :=
  match f with
  | .missing | .denied => misused (f.message path)
  | .notFolder | .isFolder | .nameTooLong => breakDown (f.message path)

def readText (h : Host m) (path : Path) : Tool m String := do
  match ← h.readText path.text with
  | .ok text => pure text
  | .error (.file path f) => fileFault path f
  | .error (.encoding f) => misused f.message

def writeText (h : Host m) (path : Path) (text : String) : Tool m Unit := do
  match ← h.write path.text text with
  | .ok () => pure ()
  | .error f => fileFault path.text f

/-- What a step comes to, unless a number in it was too great. -/
def ofNumerals {α : Type} (step : Except NumeralFault α) : Tool m α :=
  match step with
  | .ok a => pure a
  | .error f => breakDown f.message

def report (tool : Tool m Unit) : m Report := do
  let (result, spoken) ← tool.run.run {}
  match result with
  | .ok () => return ⟨.success, spoken⟩
  | .error ending => return ⟨ending, spoken⟩

end Tool

def isDash (p : Path) : Bool :=
  p.text == "-"

end AlgoLang.Command
