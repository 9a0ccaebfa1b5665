/-
# From source text to C

Scanning, reading, analysis and generation follow each other, and the first one that finds an error
ends the work: a compilation never mixes errors of two of them.  Warnings come from the analysis and
stay also when all goes well.
-/
import AlgoLang.Analysis
import AlgoLang.C.Program
import AlgoLang.Program.Parse

namespace AlgoLang

structure Compilation where
  file : String
  tokenCount : Nat
  program : Option Program := none
  code : Option String := none
  errors : List Diagnostic := []
  warnings : List Diagnostic := []

def Compilation.success (c : Compilation) : Bool :=
  c.code.isSome

def Compilation.ofProgram (c : Compilation) (p : Program) (indentWidth : Int) :
    Except NumeralFault Compilation :=
  let found := (Analysis.ofProgram p).diagnostics
  let c := { c with program := some p, warnings := found.filter Diagnostic.isWarning }
  match found.filter (fun d => !d.isWarning) with
  | [] =>
    (Numeral.spaces indentWidth).map fun indent =>
      match p.generate indent with
      | .ok code => { c with code := some code }
      | .error d => { c with errors := [d] }
  | errors => .ok { c with errors }

def compile (source : String) (file : String := defaultFile) (indentWidth : Int := 4) :
    Except NumeralFault Compilation :=
  let scanned := Token.scan source file
  let c : Compilation := { file, tokenCount := scanned.all.length }
  if scanned.faults.isEmpty then
    (Program.ofScanned scanned source).bind fun
      | .ok p => c.ofProgram p indentWidth
      | .error d => .ok { c with errors := [d] }
  else .ok { c with errors := scanned.diagnostics .scanning source file }

end AlgoLang
