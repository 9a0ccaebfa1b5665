/-
# What a tool was called with

Switches may stand anywhere before a double dash.  A long one takes its value after an equals sign or from the
next argument; short ones may share a dash, and the first of them that takes a value has the rest of the
argument for it, or the next argument.  Values are looked at in the order in which their switches were given.
-/
import AlgoLang.Host
import AlgoLang.Number.Numeral
import AlgoLang.Text.LetterCase

namespace AlgoLang.Command

inductive ValueKind where
  | text
  /-- A file to write; `dash` allows a dash for the standard output. -/
  | file (dash : Bool)
  | folder
  | count
  /-- One of these words, in whatever case. -/
  | choice (words : List String)
  deriving DecidableEq

/-- A switch; one without a value is just there or not, and only one that repeats keeps every value
it was given. -/
structure Switch where
  short : Option Char := none
  long : String
  value : Option ValueKind := none
  repeats : Bool := false
  deriving DecidableEq

def Switch.spellings (s : Switch) : List String :=
  (s.short.map fun c => String.ofList ['-', c]).toList ++ ["--" ++ s.long]

inductive ArgumentFault where
  | unknown (spelling : String)
  | valueWanted (spelling : String)
  | valueUnwanted (spelling : String)
  | refused (spellings : List String) (reason : String)
  | noOperand (name : String)
  | tooMany (operands : List String)
  deriving DecidableEq

def ArgumentFault.message : ArgumentFault → String
  | unknown spelling => "No such option: " ++ spelling
  | valueWanted spelling => "Option " ++ Text.quoted spelling ++ " requires an argument."
  | valueUnwanted spelling => "Option " ++ Text.quoted spelling ++ " does not take a value."
  | refused spellings reason =>
    "Invalid value for " ++ " / ".intercalate (spellings.map fun s => "'" ++ s ++ "'") ++ ": " ++ reason
  | noOperand name => "Missing argument '" ++ name ++ "'."
  | tooMany operands =>
    "Got unexpected extra argument" ++ (if operands.length == 1 then "" else "s") ++
      " (" ++ " ".intercalate operands ++ ")"

/-- A switch as it was given; one without a value has the empty text. -/
structure Given where
  switch : Switch
  value : String := ""

structure Arguments where
  given : List Given := []
  operands : List String := []

namespace Arguments

def withGiven (a : Arguments) (given : List Given) : Arguments :=
  { a with given := given ++ a.given }

def withOperand (a : Arguments) (operand : String) : Arguments :=
  { a with operands := operand :: a.operands }

/-- The switches that one argument holds, and the last of them if it still wants its value, with the
spelling it has there. -/
abbrev Held := List Given × Option (Switch × String)

def readShort (switches : List Switch) : List Char → Except ArgumentFault Held
  | [] => .ok ([], none)
  | c :: cs =>
    let spelling := String.ofList ['-', c]
    match switches.find? fun s => s.short == some c with
    | none => .error (.unknown spelling)
    | some s =>
      if s.value.isNone then (readShort switches cs).map fun (given, wanting) => (⟨s, ""⟩ :: given, wanting)
      else if cs.isEmpty then .ok ([], some (s, spelling))
      else .ok ([⟨s, String.ofList cs⟩], none)

def splitLong (arg : String) : String × Option String :=
  let name := arg.toList.takeWhile (· != '=')
  match arg.toList.drop name.length with
  | [] => (arg, none)
  | _ :: value => (String.ofList name, some (String.ofList value))

def readSwitch (switches : List Switch) (arg : String) : Except ArgumentFault Held :=
  let (spelling, attached) := splitLong arg
  match switches.find? fun s => "--" ++ s.long == spelling with
  | some s =>
    match s.value, attached with
    | some _, some v => .ok ([⟨s, v⟩], none)
    | some _, none => .ok ([], some (s, spelling))
    | none, some _ => .error (.valueUnwanted spelling)
    | none, none => .ok ([⟨s, ""⟩], none)
  | none => if arg.startsWith "--" then .error (.unknown spelling) else readShort switches (arg.toList.drop 1)

def read (switches : List Switch) : List String → Except ArgumentFault Arguments
  | [] => .ok {}
  | arg :: rest =>
    if arg == "--" then .ok { operands := rest }
    else if !arg.startsWith "-" || arg == "-" then (read switches rest).map (·.withOperand arg)
    else
      match readSwitch switches arg with
      | .error f => .error f
      | .ok (given, none) => (read switches rest).map (·.withGiven given)
      | .ok (given, some (s, spelling)) =>
        match rest with
        | [] => .error (.valueWanted spelling)
        | v :: later => (read switches later).map (·.withGiven (given ++ [⟨s, v⟩]))

def has (a : Arguments) (long : String) : Bool :=
  a.given.any fun g => g.switch.long == long

def values (a : Arguments) (long : String) : List String :=
  (a.given.filter fun g => g.switch.long == long).map (·.value)

def value? (a : Arguments) (long : String) : Option String :=
  (a.values long).getLast?

/-- The switches that were given, each once, and the values of each that count. -/
def settled (a : Arguments) : List (Switch × List String) :=
  (a.given.map (·.switch)).eraseDups.map fun s =>
    (s, if s.repeats then a.values s.long else (a.value? s.long).toList)

end Arguments

/-! ## Checks against the files that are there -/

/-- A value that names something which is not as it should be. -/
def complaint (what value trouble : String) : String :=
  what ++ " " ++ Text.quoted value ++ " " ++ trouble

def ValueKind.refusal? {m : Type → Type} [Monad m] (h : Host m) (value : String) : ValueKind → m (Option String)
  | .text => return none
  | .file dash => do
    if dash && value == "-" then return none
    return if (← h.kind? value) == some .folder then some (complaint "File" value "is a directory.") else none
  | .folder => do
    match ← h.kind? value with
    | some .folder => return none
    | some .file => return some (complaint "Directory" value "is a file.")
    | none => return some (complaint "Directory" value "does not exist.")
  | .count =>
    match Numeral.setting? value with
    | none => return some (Text.quoted value ++ " is not a valid integer range.")
    | some n => return if n < 0 then some (toString n ++ " is not in the range x>=0.") else none
  | .choice words =>
    if words.contains (Text.lower value) then return none
    else return some (Text.quoted value ++ " is not one of " ++ ", ".intercalate (words.map Text.quoted) ++ ".")

def operandRefusal? {m : Type → Type} [Monad m] (h : Host m) (value : String) : m (Option String) := do
  match ← h.kind? value with
  | some .file => return none
  | some .folder => return some (complaint "File" value "is a directory.")
  | none => return some (complaint "File" value "does not exist.")

def firstRefusal? {m : Type → Type} [Monad m] (h : Host m) (kind : ValueKind) : List String → m (Option String)
  | [] => return none
  | v :: vs => do
    match ← kind.refusal? h v with
    | some reason => return some reason
    | none => firstRefusal? h kind vs

def switchFault? {m : Type → Type} [Monad m] (h : Host m) : List (Switch × List String) → m (Option ArgumentFault)
  | [] => return none
  | (s, values) :: rest => do
    match s.value with
    | none => switchFault? h rest
    | some kind =>
      match ← firstRefusal? h kind values with
      | some reason => return some (.refused s.spellings reason)
      | none => switchFault? h rest

def operandName : String := "INPUT_FILE"

/-- The file to work on, once everything has been found to be in order. -/
def Arguments.check {m : Type → Type} [Monad m] (h : Host m) (a : Arguments) : m (Except ArgumentFault String) := do
  match ← switchFault? h a.settled with
  | some fault => return .error fault
  | none =>
    match a.operands with
    | [] => return .error (.noOperand operandName)
    | input :: others =>
      match ← operandRefusal? h input with
      | some reason => return .error (.refused [operandName] reason)
      | none => return if others.isEmpty then .ok input else .error (.tooMany others)

end AlgoLang.Command
