/-
# Declarations, routines and whole programs

A program and a routine declare constants, types and variables in the same way.  A function is a
routine with a result type and a procedure one without; a program keeps the two apart, each in the
order of the source.
-/
import AlgoLang.Stmt
import AlgoLang.TypeExpr

namespace AlgoLang

structure ConstDecl where
  span : Option Span := none
  name : String
  value : Expr

structure TypeDecl where
  span : Option Span := none
  name : String
  definition : TypeExpr

/-- A parameter of a routine; one by reference was declared with `VAR`. -/
structure Param where
  span : Option Span := none
  name : String
  type : TypeExpr
  byReference : Bool := false

structure Declarations where
  constants : List ConstDecl := []
  types : List TypeDecl := []
  vars : List VarDecl := []

structure Routine where
  span : Option Span := none
  name : String
  params : List Param := []
  result : Option TypeExpr := none
  locals : Declarations := {}
  body : List Stmt := []

structure Program where
  span : Option Span := none
  name : String
  globals : Declarations := {}
  functions : List Routine := []
  procedures : List Routine := []
  body : List Stmt := []

def Param.format (p : Param) : String :=
  (if p.byReference then "VAR " else "") ++ p.name ++ ": " ++ p.type.format

def Param.formatList (ps : List Param) : String :=
  ", ".intercalate (ps.map Param.format)

def Program.routines (p : Program) : List Routine :=
  p.functions ++ p.procedures

/-! ## Likeness -/

/-- Lists that are alike item by item. -/
def alikeBy {α : Type} (same : α → α → Bool) : List α → List α → Bool
  | [], [] => true
  | a :: as, b :: bs => same a b && alikeBy same as bs
  | _, _ => false

def ConstDecl.alike (a b : ConstDecl) : Bool :=
  a.name == b.name && a.value.alike b.value

def TypeDecl.alike (a b : TypeDecl) : Bool :=
  a.name == b.name && a.definition.alike b.definition

def Param.alike (a b : Param) : Bool :=
  a.name == b.name && a.type.alike b.type && a.byReference == b.byReference

def Declarations.alike (a b : Declarations) : Bool :=
  alikeBy ConstDecl.alike a.constants b.constants && alikeBy TypeDecl.alike a.types b.types &&
    TypeExpr.alikeFields a.vars b.vars

def Routine.alike (a b : Routine) : Bool :=
  a.name == b.name && alikeBy Param.alike a.params b.params &&
    (match a.result, b.result with
      | none, none => true
      | some s, some t => s.alike t
      | _, _ => false) &&
    a.locals.alike b.locals && Stmt.alikeEach a.body b.body

def Program.alike (a b : Program) : Bool :=
  a.name == b.name && a.globals.alike b.globals && alikeBy Routine.alike a.functions b.functions &&
    alikeBy Routine.alike a.procedures b.procedures && Stmt.alikeEach a.body b.body

/-! ## Calls -/

def ConstDecl.calls (d : ConstDecl) : List String := d.value.calls

def Declarations.calls (d : Declarations) : List String :=
  d.constants.flatMap ConstDecl.calls ++ d.types.flatMap (·.definition.calls) ++
    TypeExpr.callsFields d.vars

def Routine.calls (r : Routine) : List String :=
  r.params.flatMap (·.type.calls) ++ r.result.elim [] TypeExpr.calls ++ r.locals.calls ++
    Stmt.callsEach r.body

def Program.calls (p : Program) : List String :=
  p.globals.calls ++ p.functions.flatMap Routine.calls ++ p.procedures.flatMap Routine.calls ++
    Stmt.callsEach p.body

end AlgoLang
