/-
# A program as an indented listing of its parts

One line for each declaration and each statement, two blanks deeper for what stands inside it.
Expressions and types appear on the lines of the statements and declarations they belong to.
-/
import AlgoLang.Program

namespace AlgoLang

def outlineLine (depth : Nat) (text : String) : String :=
  "".pushn ' ' (2 * depth) ++ text

namespace Stmt

def forHeading (counter : String) (first last : Expr) (step : Option Expr) : String :=
  s!"For: {counter} <- {first.format} TO {last.format}" ++ step.elim "" fun s => s!" STEP {s.format}"

mutual

def outline (d : Nat) : Stmt → List String
  | assign _ t v => [outlineLine d s!"Assign: {t.format} <- {v.format}"]
  | ifThen _ c yes none =>
    outlineLine d s!"If: {c.format}" :: outlineLine (d + 1) "Then:" :: outlineEach (d + 2) yes
  | ifThen _ c yes (some no) =>
    outlineLine d s!"If: {c.format}" :: outlineLine (d + 1) "Then:" :: outlineEach (d + 2) yes ++
      outlineLine (d + 1) "Else:" :: outlineEach (d + 2) no
  | .while _ c body => outlineLine d s!"While: {c.format}" :: outlineEach (d + 1) body
  | doWhile _ body c => outlineLine d s!"DoWhile: {c.format}" :: outlineEach (d + 1) body
  | .for _ v a b step body => outlineLine d (forHeading v a b step) :: outlineEach (d + 1) body
  | switch _ e cases none => outlineLine d s!"Switch: {e.format}" :: outlineCases (d + 1) cases
  | switch _ e cases (some b) =>
    outlineLine d s!"Switch: {e.format}" :: outlineCases (d + 1) cases ++
      outlineLine (d + 1) "Default:" :: outlineEach (d + 2) b
  | call _ n args => [outlineLine d s!"Call: {n}({Expr.formatList args})"]
  | scan _ ts => [outlineLine d s!"Scan: {Expr.formatList ts}"]
  | print _ es => [outlineLine d s!"Print: {Expr.formatList es}"]
  | .return _ e => [outlineLine d s!"Return: {e.format}"]
  | block _ body => outlineLine d "Block" :: outlineEach (d + 1) body
  | unknown _ => []

def outlineEach (d : Nat) : List Stmt → List String
  | [] => []
  | s :: ss => outline d s ++ outlineEach d ss

def outlineCases (d : Nat) : List CaseClause → List String
  | [] => []
  | ⟨_, vs, body⟩ :: cs =>
    outlineLine d s!"Case: {Expr.formatList vs}" :: outlineEach (d + 1) body ++ outlineCases d cs

end

end Stmt

def ConstDecl.outline (c : ConstDecl) : String :=
  s!"Const: {c.name} = {c.value.format}"

def TypeDecl.outline (t : TypeDecl) : String :=
  s!"Type: {t.name} = {t.definition.format}"

def VarDecl.outline (v : VarDecl) : String :=
  let names := ", ".intercalate v.names
  s!"Var: {names} : {v.type.format}"

def Declarations.outline (depth : Nat) (d : Declarations) : List String :=
  (d.constants.map ConstDecl.outline ++ d.types.map TypeDecl.outline ++ d.vars.map VarDecl.outline).map
    (outlineLine depth)

/-- The heading of a routine: what it is, its name, parameters and result. -/
def Routine.heading (r : Routine) : String :=
  match r.result with
  | some t => s!"Function: {r.name}({Param.formatList r.params}) : {t.format}"
  | none => s!"Procedure: {r.name}({Param.formatList r.params})"

def Routine.outline (depth : Nat) (r : Routine) : List String :=
  outlineLine depth r.heading :: r.locals.outline (depth + 1) ++ Stmt.outlineEach (depth + 1) r.body

def Program.outline (p : Program) : List String :=
  outlineLine 0 s!"Program: {p.name}" :: p.globals.outline 1 ++ p.routines.flatMap (Routine.outline 1) ++
    outlineLine 1 "Main" :: Stmt.outlineEach 2 p.body

end AlgoLang
