/-
# Reading declarations, routines and programs

`Program.parse` reads a token list, and `Program.ofSource` a text: faults of the scanner end the work before any
token is read.  What follows the final point is not looked at.
-/
import AlgoLang.Program
import AlgoLang.Stmt.Parse
import AlgoLang.Token.Scan
import AlgoLang.TypeExpr.Parse

namespace AlgoLang

open Reading

namespace Declarations

def parseConstants (last : Token) (toks : List Token) : Holding (List ConstDecl) toks :=
  match take? .identifier toks with
  | none => .ok (Held.stay [] last toks)
  | some ⟨first, _, toks₁, h₁⟩ => do
    let ⟨_, _, toks₂, h₂⟩ ← expect .equalAfterConstant (.mark .equal) toks₁
    let ⟨value, last, toks₃, h₃⟩ ← Expr.parseConstant toks₂
    let ⟨_, last, toks₄, h₄⟩ := skip (.mark .semicolon) last toks₃
    let ⟨decls, last', toks₅, h₅⟩ ← parseConstants last toks₄
    return (Held.mk (⟨first.through last, first.value, value⟩ :: decls) last' toks₅ h₅).past h₄ |>.since h₃
      |>.since h₂ |>.since h₁ |>.held
termination_by toks.length

def parseTypes (last : Token) (toks : List Token) : Holding (List TypeDecl) toks :=
  match take? .identifier toks with
  | none => .ok (Held.stay [] last toks)
  | some ⟨first, _, toks₁, h₁⟩ => do
    let ⟨_, _, toks₂, h₂⟩ ← expect .equalAfterType (.mark .equal) toks₁
    let ⟨definition, last, toks₃, h₃⟩ ← TypeExpr.parse toks₂
    let ⟨_, last, toks₄, h₄⟩ := skip (.mark .semicolon) last toks₃
    let ⟨decls, last', toks₅, h₅⟩ ← parseTypes last toks₄
    return (Held.mk (⟨first.through last, first.value, definition⟩ :: decls) last' toks₅ h₅).past h₄
      |>.since h₃ |>.since h₂ |>.since h₁ |>.held
termination_by toks.length

/-- The sections `CONST`, `TYPE` and `VAR`, in any order and any number, after what `so far` holds. -/
def parse (soFar : Declarations) (last : Token) (toks : List Token) : Holding Declarations toks :=
  match toks with
  | [] => .ok (Held.stay soFar last [])
  | t :: rest =>
    match t.kind with
    | .keyword .const_ => do
      let ⟨decls, last, toks₁, h₁⟩ ← parseConstants t rest
      let ⟨all, last, toks₂, h₂⟩ ← parse { soFar with constants := soFar.constants ++ decls } last toks₁
      return (Held.mk all last toks₂ h₂).past h₁ |>.behind t |>.held
    | .keyword .type_ => do
      let ⟨decls, last, toks₁, h₁⟩ ← parseTypes t rest
      let ⟨all, last, toks₂, h₂⟩ ← parse { soFar with types := soFar.types ++ decls } last toks₁
      return (Held.mk all last toks₂ h₂).past h₁ |>.behind t |>.held
    | .keyword .var => do
      let ⟨decls, last, toks₁, h₁⟩ ← TypeExpr.parseFields t rest
      let ⟨all, last, toks₂, h₂⟩ ← parse { soFar with vars := soFar.vars ++ decls } last toks₁
      return (Held.mk all last toks₂ h₂).past h₁ |>.behind t |>.held
    | _ => .ok (Held.stay soFar last (t :: rest))
termination_by toks.length

end Declarations

namespace Routine

def parseParam (toks : List Token) : Reading Param toks :=
  match toks with
  | [] => fail .paramName []
  | t :: rest => do
    let byReference := t.kind == .keyword .var
    let ⟨_, _, toks₁, h₁⟩ := skip (.keyword .var) t (t :: rest)
    let ⟨name, _, toks₂, h₂⟩ ← expectName .paramName toks₁
    let ⟨_, _, toks₃, h₃⟩ ← expect .colonAfterParam (.mark .colon) toks₂
    let ⟨type, last, toks₄, h₄⟩ ← TypeExpr.parse toks₃
    return (Taken.mk ⟨t.through last, name, type, byReference⟩ last toks₄ h₄).since h₃ |>.since h₂ |>.past h₁

def parseParamList (toks : List Token) : Reading (List Param) toks := do
  let ⟨p, last, toks₁, h₁⟩ ← parseParam toks
  match take? (.mark .comma) toks₁ with
  | none => return ⟨[p], last, toks₁, h₁⟩
  | some ⟨_, _, toks₂, h₂⟩ => do
    let ⟨ps, last, toks₃, h₃⟩ ← parseParamList toks₂
    return (Taken.mk (p :: ps) last toks₃ h₃).since h₂ |>.since h₁
termination_by toks.length

/-- Parameters behind the opening bracket, with the closing one. -/
def parseParams (toks : List Token) : Reading (List Param) toks :=
  match take? (.mark .rparen) toks with
  | some t => .ok ⟨[], t.last, t.rest, t.shorter⟩
  | none => do
    let ⟨ps, _, toks₁, h₁⟩ ← parseParamList toks
    let ⟨_, last, toks₂, h₂⟩ ← expect .parenAfterParams (.mark .rparen) toks₁
    return (Taken.mk ps last toks₂ h₂).since h₁

/-- Local declarations, then the body between `BEGIN` and `END`, and a semicolon if it is there. -/
def parseBody (last : Token) (toks : List Token) : Reading (Declarations × List Stmt) toks := do
  let ⟨decls, _, toks₁, h₁⟩ ← Declarations.parse {} last toks
  let ⟨start, _, toks₂, h₂⟩ ← expect .begin_ (.keyword .begin_) toks₁
  let ⟨body, _, toks₃, h₃⟩ ← Stmt.parseEach start toks₂
  let ⟨_, last, toks₄, h₄⟩ ← expect .end_ (.keyword .end_) toks₃
  let ⟨_, last, toks₅, h₅⟩ := skip (.mark .semicolon) last toks₄
  return (Held.mk (decls, body) last toks₅ h₅).since h₄ |>.past h₃ |>.since h₂ |>.past h₁

def parseFunction (start : Token) (toks : List Token) : Reading Routine toks := do
  let ⟨name, _, toks₁, h₁⟩ ← expectName .functionName toks
  let ⟨_, _, toks₂, h₂⟩ ← expect .parenAfterFunction (.mark .lparen) toks₁
  let ⟨params, _, toks₃, h₃⟩ ← parseParams toks₂
  let ⟨_, _, toks₄, h₄⟩ ← expect .colonBeforeResult (.mark .colon) toks₃
  let ⟨result, last, toks₅, h₅⟩ ← TypeExpr.parse toks₄
  let ⟨(locals, body), last, toks₆, h₆⟩ ← parseBody last toks₅
  return (Taken.mk ⟨start.through last, name, params, some result, locals, body⟩ last toks₆ h₆).since h₅
    |>.since h₄ |>.since h₃ |>.since h₂ |>.since h₁

def parseProcedure (start : Token) (toks : List Token) : Reading Routine toks := do
  let ⟨name, _, toks₁, h₁⟩ ← expectName .procedureName toks
  let ⟨_, _, toks₂, h₂⟩ ← expect .parenAfterProcedure (.mark .lparen) toks₁
  let ⟨params, last, toks₃, h₃⟩ ← parseParams toks₂
  let ⟨(locals, body), last, toks₄, h₄⟩ ← parseBody last toks₃
  return (Taken.mk ⟨start.through last, name, params, none, locals, body⟩ last toks₄ h₄).since h₃
    |>.since h₂ |>.since h₁

/-- Functions and procedures in any order, each kind in a list of its own. -/
def parseEach (last : Token) (toks : List Token) : Holding (List Routine × List Routine) toks :=
  match toks with
  | [] => .ok (Held.stay ([], []) last [])
  | t :: rest =>
    match t.kind with
    | .keyword .function => do
      let ⟨f, last, toks₁, h₁⟩ ← parseFunction t rest
      let ⟨(fs, ps), last, toks₂, h₂⟩ ← parseEach last toks₁
      return (Held.mk (f :: fs, ps) last toks₂ h₂).since h₁ |>.behind t |>.held
    | .keyword .procedure => do
      let ⟨p, last, toks₁, h₁⟩ ← parseProcedure t rest
      let ⟨(fs, ps), last, toks₂, h₂⟩ ← parseEach last toks₁
      return (Held.mk (fs, p :: ps) last toks₂ h₂).since h₁ |>.behind t |>.held
    | _ => .ok (Held.stay ([], []) last (t :: rest))
termination_by toks.length

end Routine

namespace Program

def parse (toks : List Token) : Reading Program toks := do
  let ⟨start, _, toks₁, h₁⟩ ← expect .algorithm (.keyword .algorithm) toks
  let ⟨name, last, toks₂, h₂⟩ ← expectName .algorithmName toks₁
  let ⟨globals, last, toks₃, h₃⟩ ← Declarations.parse {} last toks₂
  let ⟨(functions, procedures), _, toks₄, h₄⟩ ← Routine.parseEach last toks₃
  let ⟨opening, _, toks₅, h₅⟩ ← expect .begin_ (.keyword .begin_) toks₄
  let ⟨body, _, toks₆, h₆⟩ ← Stmt.parseEach opening toks₅
  let ⟨_, _, toks₇, h₇⟩ ← expect .end_ (.keyword .end_) toks₆
  let ⟨_, last, toks₈, h₈⟩ ← expect .finalDot (.mark .dot) toks₇
  return (Taken.mk ⟨start.through last, name, globals, functions, procedures, body⟩ last toks₈ h₈).since h₇
    |>.past h₆ |>.since h₅ |>.past h₄ |>.past h₃ |>.since h₂ |>.since h₁

def sourceLine? (lines : List (List Char)) (line : Int) : Option String :=
  if 0 < line then (lines[(line - 1).toNat]?).map String.ofList else none

/-- A form feed ends no line that is counted, but one of those that are shown. -/
theorem sourceLine_formFeed :
    sourceLine? (Text.splitLines "\x7b\x0c\x7d\nALGORITHM a\nBEGIN\n  x <-\nEND.".toList) 5 = some "  x <-" := by
  decide +kernel

/-- The diagnostic for a token that does not fit; the end of the text stands in for no token. -/
def unexpected (lines : List (List Char)) (eof : Token) (wanted : Wanted) (found : Option Token) :
    Diagnostic :=
  let token := found.getD eof
  { phase := .parsing, message := s!"Expected {wanted.text}, got '{token.describe}'"
    location := token.start, sourceLine := sourceLine? lines token.start.line }

def ofScanned (scanned : Token.Scanned) (source : String) :
    Except NumeralFault (Except Diagnostic Program) :=
  match parse scanned.tokens with
  | .ok taken => .ok (.ok taken.value)
  | .error (.numeral fault) => .error fault
  | .error (.unexpected wanted found) =>
    .ok (.error (unexpected (Text.splitLines source.toList) scanned.eof wanted found))

def ofSource (source : String) (file : String := defaultFile) :
    Except NumeralFault (Except (List Diagnostic) Program) :=
  let scanned := Token.scan source file
  if scanned.faults.isEmpty then
    (ofScanned scanned source).map fun r => r.mapError fun d => [d]
  else .ok (.error (scanned.diagnostics .parsing source file))

end Program

end AlgoLang
