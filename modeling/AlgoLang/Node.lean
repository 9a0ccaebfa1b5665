/-
# Any part of a program

Tools that are handed a part of a program without knowing which kind it is ask these questions.  A
question that makes no sense for a part has a neutral answer: it reads as `?`, is of type `UNKNOWN`,
and calls nothing.
-/
import AlgoLang.Program.Outline

namespace AlgoLang

inductive Node where
  | program (p : Program)
  | routine (r : Routine)
  | constant (d : ConstDecl)
  | typeDecl (d : TypeDecl)
  | variable (d : VarDecl)
  | param (p : Param)
  | clause (c : CaseClause)
  | stmt (s : Stmt)
  | type (t : TypeExpr)
  | expr (e : Expr)

namespace Node

def span : Node → Option Span
  | program p => p.span
  | routine r => r.span
  | constant d => d.span
  | typeDecl d => d.span
  | .variable d => d.span
  | param p => p.span
  | clause c => c.span
  | stmt s => s.span
  | type t => t.span
  | expr e => e.span

/-- The line where the part starts, zero if that is not known. -/
def line (n : Node) : Int :=
  n.span.elim 0 (·.start.line)

/-- The part as an expression; nothing but an expression can be read as one. -/
def asExpr : Node → Expr
  | expr e => e
  | n => .unknown n.span

/-- The part as a type; nothing but a type can be read as one. -/
def asType : Node → TypeExpr
  | type t => t
  | n => .unknown n.span

def calls : Node → List String
  | program p => p.calls
  | routine r => r.calls
  | constant d => d.calls
  | typeDecl d => d.definition.calls
  | .variable d => d.type.calls
  | param p => p.type.calls
  | clause c => Expr.callsEach c.values ++ Stmt.callsEach c.body
  | stmt s => s.calls
  | type t => t.calls
  | expr e => e.calls

def fieldLines : TypeExpr → List String
  | .record _ fields => fields.map VarDecl.outline
  | .array _ _ t => fieldLines t
  | _ => []

/-- The part as an outline; parts that are shown on the lines of others have none of their own. -/
def outline : Node → List String
  | program p => p.outline
  | routine r => r.outline 0
  | constant d => [d.outline]
  | typeDecl d => [d.outline]
  | .variable d => [d.outline]
  | param p => fieldLines p.type
  | clause c => Stmt.outlineEach 0 c.body
  | stmt s => s.outline 0
  | type t => fieldLines t
  | expr _ => []

end Node

end AlgoLang
