/-
# Reading types and declarations of variables

A declaration is one name or more, a colon, a type and, if it is there, a semicolon.  The fields of
a structure are declarations, so the two are read together.
-/
import AlgoLang.Expr.Parse
import AlgoLang.TypeExpr

namespace AlgoLang.TypeExpr

open Reading

def primitive? : TokenKind → Option Primitive
  | .keyword .integer => some .integer
  | .keyword .real => some .real
  | .keyword .boolean => some .boolean
  | .keyword .char => some .char
  | .keyword .string => some .string
  | _ => none

/-- The dimensions of an array behind the first opening bracket, each in brackets of its own. -/
def parseDimensions (toks : List Token) : Reading (List Expr) toks := do
  let ⟨d, _, toks₁, h₁⟩ ← Expr.parse toks
  let ⟨_, last, toks₂, h₂⟩ ← expect .bracket (.mark .rbracket) toks₁
  match take? (.mark .lbracket) toks₂ with
  | none => return (Taken.mk [d] last toks₂ h₂).since h₁
  | some ⟨_, _, toks₃, h₃⟩ => do
    let ⟨ds, last, toks₄, h₄⟩ ← parseDimensions toks₃
    return (Taken.mk (d :: ds) last toks₄ h₄).since h₃ |>.since h₂ |>.since h₁
termination_by toks.length

mutual

def parse (toks : List Token) : Reading TypeExpr toks :=
  match toks with
  | [] => fail .type []
  | t :: rest =>
    match t.kind with
    | .keyword .array => do
      let ⟨_, _, toks₁, h₁⟩ ← expect .bracketAfterArray (.mark .lbracket) rest
      let ⟨ds, _, toks₂, h₂⟩ ← parseDimensions toks₁
      let ⟨_, _, toks₃, h₃⟩ ← expect .ofAfterDimensions (.keyword .of_) toks₂
      let ⟨element, last, toks₄, h₄⟩ ← parse toks₃
      return (Taken.mk (array (t.through last) ds element) last toks₄ h₄).since h₃ |>.since h₂ |>.since h₁
        |>.behind t
    | .keyword .structure_ => do
      let ⟨_, last, toks₁, h₁⟩ ← expect .beginAfterStructure (.keyword .begin_) rest
      let ⟨fields, _, toks₂, h₂⟩ ← parseFields last toks₁
      let ⟨_, last, toks₃, h₃⟩ ← expect .endAfterFields (.keyword .end_) toks₂
      return (Taken.mk (record (t.through last) fields) last toks₃ h₃).past h₂ |>.since h₁ |>.behind t
    | .mark .lparen => do
      let ⟨v, last, toks₁, h₁⟩ ← expectName .enumValue rest
      let ⟨vs, _, toks₂, h₂⟩ ← moreNames .enumValue last toks₁
      let ⟨_, last, toks₃, h₃⟩ ← expect .parenAfterEnum (.mark .rparen) toks₂
      return (Taken.mk (enumeration (t.through last) (v :: vs)) last toks₃ h₃).past h₂ |>.since h₁ |>.behind t
    | .identifier => .ok (Taken.one (named t.span t.value) t rest)
    | kind =>
      match primitive? kind with
      | some p => .ok (Taken.one (primitive t.span p) t rest)
      | none => fail .type (t :: rest)
termination_by 2 * toks.length

def parseFields (last : Token) (toks : List Token) : Holding (List VarDecl) toks :=
  match take? .identifier toks with
  | none => .ok (Held.stay [] last toks)
  | some ⟨first, last, toks₁, h₁⟩ => do
    let ⟨more, _, toks₂, h₂⟩ ← moreNames .variableName last toks₁
    let ⟨_, _, toks₃, h₃⟩ ← expect .colonAfterVariables (.mark .colon) toks₂
    let ⟨type, last, toks₄, h₄⟩ ← parse toks₃
    let ⟨_, last, toks₅, h₅⟩ := skip (.mark .semicolon) last toks₄
    let ⟨decls, last', toks₆, h₆⟩ ← parseFields last toks₅
    return (Held.mk (⟨first.through last, first.value :: more, type⟩ :: decls) last' toks₆ h₆).past h₅
      |>.since h₄ |>.since h₃ |>.past h₂ |>.since h₁ |>.held
termination_by 2 * toks.length + 1

end

end AlgoLang.TypeExpr
