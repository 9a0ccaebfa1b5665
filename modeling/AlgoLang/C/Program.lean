/-
# Whole programs in C

Headers, types, constants and variables; a prototype for every routine, then every definition, functions
before procedures; and the main body as `main`.
-/
import AlgoLang.C.Stmt
import AlgoLang.C.TypeExpr

namespace AlgoLang

namespace C

def headers : List String :=
  ["stdio.h", "stdlib.h", "string.h", "math.h", "stdbool.h"]

def gapAfter {α : Type} : List α → List Line
  | [] => []
  | _ => [Line.empty]

end C

def VarDecl.noteKinds (kinds : Keyed Primitive) (d : VarDecl) : Keyed Primitive :=
  d.names.foldl (fun ks n => ks.put (Text.lower n) d.type.base) kinds

namespace Routine

def signatureInC (r : Routine) : Except C.Unsupported String := do
  let result ← r.result.elim (pure "void") TypeExpr.toC
  let params ← r.params.mapM Param.toC
  let shown := if params.isEmpty then "void" else ", ".intercalate params
  return result ++ " " ++ r.name ++ "(" ++ shown ++ ")"

/-- The primitive types of all variables in sight of the body. -/
def kinds (r : Routine) (globals : Keyed Primitive) : Keyed Primitive :=
  let params := r.params.foldl (fun ks p => ks.put (Text.lower p.name) p.type.base) globals
  r.locals.vars.foldl VarDecl.noteKinds params

def toC (ctx : C.Context) (r : Routine) : Except C.Unsupported (List C.Line) := do
  let signature ← r.signatureInC
  let types ← r.locals.types.mapM (TypeDecl.toC 1)
  let constants ← r.locals.constants.mapM (ConstDecl.toC 1)
  let vars ← r.locals.vars.mapM (VarDecl.toC 1)
  let body ← Stmt.toCEach { ctx with kinds := r.kinds ctx.kinds } 1 r.body
  return ⟨0, signature ++ " \x7b"⟩ :: types.flatten ++ constants ++ vars.flatten ++ body ++ [⟨0, "\x7d"⟩]

end Routine

namespace Program

def headingInC (p : Program) : List C.Line :=
  [⟨0, "// Generated from USDB Algorithmic Language"⟩, ⟨0, "// Algorithm: " ++ p.name⟩, C.Line.empty] ++
    C.headers.map (fun h => ⟨0, "#include <" ++ h ++ ">"⟩) ++ [C.Line.empty]

def routineKeys (p : Program) : List String :=
  p.routines.map fun r => Text.lower r.name

def contextInC (p : Program) : C.Context :=
  { kinds := p.globals.vars.foldl VarDecl.noteKinds [], routines := p.routineKeys }

def toC (p : Program) : Except C.Unsupported (List C.Line) := do
  let types ← p.globals.types.mapM (TypeDecl.toC 0)
  let constants ← p.globals.constants.mapM ConstDecl.defineInC
  let vars ← p.globals.vars.mapM (VarDecl.toC 0)
  let prototypes ← p.routines.mapM fun r => do return (⟨0, (← r.signatureInC) ++ ";"⟩ : C.Line)
  let definitions ← p.routines.mapM (Routine.toC p.contextInC)
  let body ← Stmt.toCEach p.contextInC 1 p.body
  let declared := constants ++ vars.flatten
  let gap := if p.globals.constants.isEmpty && p.globals.vars.isEmpty then [] else [C.Line.empty]
  return p.headingInC ++ types.flatMap (· ++ [C.Line.empty]) ++ declared ++ gap ++
    prototypes ++ C.gapAfter prototypes ++ definitions.flatMap (· ++ [C.Line.empty]) ++
    [⟨0, "int main(void) \x7b"⟩] ++ body ++ [⟨1, "return 0;"⟩, ⟨0, "\x7d"⟩]

/-- The program as a C text, or the report about the first part that C does not have. -/
def generate (p : Program) (indent : String := "    ") : Except Diagnostic String :=
  match p.toC with
  | .ok ls => .ok (C.render indent ls)
  | .error u => .error u.diagnostic

end Program

end AlgoLang
