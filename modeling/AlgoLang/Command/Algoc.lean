/-
# From a file in Algo to a file in C

The tokens or the outline of the program can be asked for instead of the C text.  Nothing is written
if the program has an error.
-/
import AlgoLang.Command.Arguments
import AlgoLang.Command.Tool
import AlgoLang.Compile
import AlgoLang.Program.Outline
import AlgoLang.Settings

namespace AlgoLang.Command.Algoc

structure Request where
  input : Path
  output : Path
  tokens : Bool
  ast : Bool
  quiet : Bool
  verbose : Bool

def switches : List Switch :=
  [{ short := some 'o', long := "output", value := some (.file true) },
   { long := "tokens" },
   { long := "ast" },
   { short := some 'W', long := "no-warnings" },
   { short := some 'v', long := "verbose" },
   { long := "version" }]

def Request.ofArguments (input : Path) (a : Arguments) : Request :=
  { input
    output := ((a.value? "output").map Path.ofText).getD (input.withSuffix ".c")
    tokens := a.has "tokens"
    ast := a.has "ast"
    quiet := a.has "no-warnings"
    verbose := a.has "verbose" }

variable {m : Type → Type} [Monad m]

def noteAll (ds : List Diagnostic) : Tool m Unit :=
  ds.forM fun d => Tool.note d.text

def showTokens (source file : String) : Tool m Unit := do
  let scanned := Token.scan source file
  scanned.all.forM fun t => Tool.say t.listing
  let found := scanned.diagnostics .scanning source file
  noteAll found
  unless found.isEmpty do Tool.stop .refused

def showOutline (source file : String) : Tool m Unit := do
  match ← Tool.ofNumerals (Program.ofSource source file) with
  | .ok p => Tool.say ("\n".intercalate p.outline)
  | .error ds =>
    noteAll ds
    Tool.stop .refused

def compileText (h : Host m) (settings : Settings) (r : Request) (source file : String) : Tool m Unit := do
  let c ← Tool.ofNumerals (compile source file settings.indentWidth)
  unless r.quiet do noteAll c.warnings
  match c.code with
  | none =>
    noteAll c.errors
    Tool.note (file ++ ": " ++ toString c.errors.length ++ " error(s), no output written")
    Tool.stop .refused
  | some code =>
    if isDash r.output then Tool.put code
    else
      Tool.writeText h r.output code
      Tool.noteIf r.verbose ("Wrote " ++ toString code.length ++ " bytes to " ++ r.output.text)
      Tool.noteIf r.verbose ("Tokenized: " ++ toString c.tokenCount ++ " tokens")
      let routines := c.program.elim 0 fun p => p.routines.length
      Tool.noteIf r.verbose ("Parsed: " ++ toString routines ++ " routines")
      Tool.say ("Compiled " ++ file ++ " -> " ++ r.output.text)

def run (h : Host m) (settings : Settings) (r : Request) : Tool m Unit := do
  let file := r.input.text
  Tool.noteIf r.verbose ("Compiling " ++ file ++ "...")
  let source ← Tool.readText h r.input
  if r.tokens then showTokens source file
  else if r.ast then showOutline source file
  else compileText h settings r source file

end AlgoLang.Command.Algoc
