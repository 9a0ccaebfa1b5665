/-
# From a file in C to a file in Algo

Files that the program includes are looked for beside it and in the folders that are named.  The lines
of C that the lines of the result came from can be written to a file of their own.
-/
import AlgoLang.Command.Arguments
import AlgoLang.Command.Tool
import AlgoLang.Json
import AlgoLang.Settings
import AlgoLang.Workspace

namespace AlgoLang.Command.C2Algo

structure Request where
  input : Path
  output : Path
  folders : List Path
  name : Option String
  sourceMap : Option Path
  verbose : Bool

def switches : List Switch :=
  [{ short := some 'o', long := "output", value := some (.file true) },
   { short := some 'I', long := "include", value := some .folder, repeats := true },
   { short := some 'n', long := "name", value := some .text },
   { long := "source-map", value := some (.file false) },
   { short := some 'v', long := "verbose" },
   { long := "version" }]

def Request.ofArguments (input : Path) (a : Arguments) : Request :=
  { input
    output := ((a.value? "output").map Path.ofText).getD (input.withSuffix ".algo")
    folders := (a.values "include").map Path.ofText
    name := a.value? "name"
    sourceMap := (a.value? "source-map").map Path.ofText
    verbose := a.has "verbose" }

variable {m : Type → Type} [Monad m]

/-- The name of the program: the one asked for, or the one that is set. -/
def programName (settings : Settings) : Option String → Tool m String
  | none => pure settings.programName
  | some name => do
    if isProgramName name then pure name
    else Tool.misused ("'" ++ name ++ "' is not a valid algorithm name")

def writeSourceMap (h : Host m) (r : Request) (map : List Int) : Tool m Unit :=
  match r.sourceMap with
  | none => pure ()
  | some path => do
    Tool.writeText h path (Json.array (map.map .integer)).text
    Tool.noteIf r.verbose ("Wrote source map to " ++ path.text)

def run (h : Host m) (settings : Settings) (r : Request) : Tool m Unit := do
  let style := { settings.style with programName := ← programName settings r.name }
  Tool.noteIf r.verbose ("Translating " ++ r.input.text ++ "...")
  let source ← Tool.readText h r.input
  let files ← liftM (Workspace.load h r.input r.folders)
  let lifted := Lift.program source files style
  lifted.warnings.forM fun w => Tool.note ("warning: " ++ w)
  unless lifted.success do
    lifted.errors.forM fun e => Tool.note ("error: " ++ e)
    Tool.stop .refused
  if isDash r.output then Tool.put lifted.code
  else
    Tool.writeText h r.output lifted.code
    Tool.say ("Translated " ++ r.input.text ++ " -> " ++ r.output.text)
  writeSourceMap h r lifted.sourceMap

end AlgoLang.Command.C2Algo
