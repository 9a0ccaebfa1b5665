/-
# From a file in Algo or C to the flowcharts of its program

The language is told by the name of the file unless it is given.
-/
import AlgoLang.Command.Arguments
import AlgoLang.Command.Tool
import AlgoLang.Flow.Document
import AlgoLang.Settings
import AlgoLang.Workspace

namespace AlgoLang.Command.Algoflow

structure Request where
  input : Path
  output : Path
  language : Flow.Language
  folders : List Path
  indent : Option Nat
  verbose : Bool

def switches : List Switch :=
  [{ short := some 'o', long := "output", value := some (.file true) },
   { short := some 'l', long := "lang", value := some (.choice ["algo", "c"]) },
   { short := some 'I', long := "include", value := some .folder, repeats := true },
   { long := "indent", value := some .count },
   { short := some 'v', long := "verbose" },
   { long := "version" }]

def Request.ofArguments (input : Path) (a : Arguments) : Request :=
  { input
    output := ((a.value? "output").map Path.ofText).getD (input.withSuffix ".flow.json")
    language := ((a.value? "lang").bind Flow.Language.ofName?).getD input.language
    folders := (a.values "include").map Path.ofText
    indent := ((a.value? "indent").bind Numeral.setting?).map Int.toNat
    verbose := a.has "verbose" }

variable {m : Type → Type} [Monad m]

/-- The files that the program may include; one in Algo includes none. -/
def workspace (h : Host m) (r : Request) : Tool m CSource.Files :=
  match r.language with
  | .algo => pure []
  | .c => liftM (Workspace.load h r.input r.folders)

def run (h : Host m) (settings : Settings) (r : Request) : Tool m Unit := do
  Tool.noteIf r.verbose ("Charting " ++ r.input.text ++ " as " ++ r.language.name ++ "...")
  let source ← Tool.readText h r.input
  let options := { layout := settings.layout, style := settings.style, files := ← workspace h r }
  let charted ← Tool.ofNumerals (Flow.ofSource source r.language.name options)
  match charted.charts with
  | none => do
    Tool.note ("Error: " ++ charted.error.getD "")
    Tool.stop .refused
  | some charts =>
    let _ ← Tool.ofNumerals (Numeral.spaces (r.indent.getD 0))
    let text := charted.toJson.text r.indent
    if isDash r.output then Tool.say text
    else
      Tool.writeText h r.output (text ++ "\n")
      charts.all.forM fun c => Tool.noteIf r.verbose
        (c.name ++ ": " ++ toString c.nodes.length ++ " nodes, " ++ toString c.edges.length ++ " edges")
      Tool.say ("Charted " ++ r.input.text ++ " -> " ++ r.output.text)

end AlgoLang.Command.Algoflow
