/-
# Compiling a file

The diagnostics name the file by the tidy form of its path.
-/
import AlgoLang.Compile
import AlgoLang.Host
import AlgoLang.Path

namespace AlgoLang

inductive CompileFault where
  | noSource (path : String)
  | unreadable (fault : ReadFault)
  | numeral (fault : NumeralFault)

def CompileFault.message : CompileFault → String
  | noSource path => "Source file not found: " ++ path
  | unreadable fault => fault.message
  | numeral fault => fault.message

def compileFile {m : Type → Type} [Monad m] (h : Host m) (path : String) (indentWidth : Int := 4) :
    m (Except CompileFault Compilation) := do
  let file := (Path.ofText path).text
  if (← h.kind? file).isNone then return .error (.noSource path)
  match ← h.readText file with
  | .error f => return .error (.unreadable f)
  | .ok source =>
    match compile source file indentWidth with
    | .error f => return .error (.numeral f)
    | .ok c => return .ok c

end AlgoLang
