/-
# When a program is well scoped

A scope is the list of what it declares; of two declarations of one name the later counts, whatever the case of
letters.  A body sees the scope of its routine, that of the program and the built-in functions.  Every use of a
name is legal or not by what the name stands for, and a program is well scoped if its types are declared before
they are referred to and all uses are legal.  Nothing here depends on how the analysis goes about it.
-/
import AlgoLang.Analysis

namespace AlgoLang

/-! ## Scopes -/

namespace Scoping

/-- What a declared name stands for. -/
structure Entity where
  type : Ty
  isConstant : Bool

/-- What one scope declares, in the order of the declarations. -/
structure Frame where
  types : List (String × Ty) := []
  values : List (String × Entity) := []

/-- The open scopes, innermost first. -/
abbrev Sight := List Frame

/-- The last entry of that name, whatever the case of its letters. -/
def last? {α : Type} (entries : List (String × α)) (name : String) : Option α :=
  (entries.reverse.find? fun e => Text.lower e.1 == Text.lower name).map (·.2)

/-- One of the names is this one, whatever the case of its letters. -/
def Among (name : String) (names : List String) : Prop :=
  ∃ n ∈ names, Text.lower n = Text.lower name

/-- The functions that need no declaration. -/
def builtin? (name : String) : Option Entity :=
  if Text.lower name ∈ ["sqrt", "abs", "sin", "cos", "tan", "ln", "log", "exp", "floor", "ceil", "round"] then
    some ⟨.function [.real] .real, true⟩
  else if Text.lower name = "length" then some ⟨.function [.string] .integer, true⟩
  else none

namespace Sight

/-- The named type of the innermost scope that has one of that name. -/
def type? (s : Sight) (name : String) : Option Ty :=
  s.findSome? fun f => last? f.types name

/-- What a name stands for in the innermost scope that declares it, or else the built-in function. -/
def entity? (s : Sight) (name : String) : Option Entity :=
  (s.findSome? fun f => last? f.values name) <|> builtin? name

/-- The type of an expression; unknown if some name in it stands for nothing fit. -/
def typeOf (s : Sight) : Expr → Ty
  | .integer .. => .integer
  | .real .. => .real
  | .boolean .. => .boolean
  | .char .. => .char
  | .string .. => .string
  | .name _ n => ((s.entity? n).map Entity.type).getD .unknown
  | .binary _ op l r => if op.isArithmetic then Ty.ofArithmetic (typeOf s l) (typeOf s r) else .boolean
  | .unary _ .neg e => typeOf s e
  | .unary _ .not _ => .boolean
  | .paren _ e => typeOf s e
  | .index _ a _ =>
    match typeOf s a with
    | .array _ element => element
    | _ => .unknown
  | .field _ o f => ((typeOf s o).fieldType? f).getD .unknown
  | .call _ n _ =>
    match (s.entity? n).map Entity.type with
    | some (.function _ result) => result
    | _ => .unknown
  | .unknown _ | .missing => .unknown

end Sight

/-! ## Uses -/

/-- A name in a body, and what it is used as. -/
inductive Use where
  /-- Its value is read, or it is the base of something assigned to. -/
  | value (name : String)
  /-- It is assigned to. -/
  | target (name : String)
  /-- It counts a loop. -/
  | counter (name : String)
  /-- It is called for a result. -/
  | function (name : String)
  /-- It is called as a statement. -/
  | routine (name : String)
  /-- It is selected from an object. -/
  | field (object : Expr) (name : String)

/-- Whether what the name stands for is fit for its use. -/
def Use.Legal (s : Sight) : Use → Prop
  | value n => ∃ e, s.entity? n = some e
  | target n => ∀ e, s.entity? n = some e → e.isConstant = false
  | counter n => ∃ e, s.entity? n = some e ∧ e.isConstant = false
  | function n => ∃ e params result, s.entity? n = some e ∧ e.type = .function params result
  | routine n => ∃ e, s.entity? n = some e ∧ e.type.isRoutine
  | field o f => s.typeOf o ≠ .unknown →
      ∃ fields, s.typeOf o = .record fields ∧ ∃ g ∈ fields, Text.lower g.1 = Text.lower f

end Scoping

open Scoping

namespace Expr

mutual

/-- All uses of names in an expression. -/
def uses : Expr → List Use
  | name _ n => [.value n]
  | binary _ _ l r => uses l ++ uses r
  | unary _ _ e | paren _ e => uses e
  | index _ a is => uses a ++ usesEach is
  | field _ o f => uses o ++ [.field o f]
  | call _ n args => .function n :: usesEach args
  | _ => []

def usesEach : List Expr → List Use
  | [] => []
  | e :: es => uses e ++ usesEach es

end

/-- The use of the whole of something that is assigned to; an element or a field has none. -/
def targetUses : Expr → List Use
  | name _ n => [.target n]
  | _ => []

end Expr

namespace Stmt

mutual

def uses : Stmt → List Use
  | assign _ t v => t.uses ++ v.uses ++ t.targetUses
  | ifThen _ c yes none => c.uses ++ usesEach yes
  | ifThen _ c yes (some no) => c.uses ++ usesEach yes ++ usesEach no
  | .while _ c body => c.uses ++ usesEach body
  | doWhile _ body c => usesEach body ++ c.uses
  | .for _ n a b step body => .counter n :: (a.uses ++ b.uses ++ step.elim [] Expr.uses ++ usesEach body)
  | switch _ e cases none => e.uses ++ usesCases cases
  | switch _ e cases (some d) => e.uses ++ usesCases cases ++ usesEach d
  | call _ n args => .routine n :: Expr.usesEach args
  | scan _ ts => Expr.usesEach ts
  | print _ es => Expr.usesEach es
  | .return _ e => e.uses
  | block _ body => usesEach body
  | unknown _ => []

def usesEach : List Stmt → List Use
  | [] => []
  | s :: ss => uses s ++ usesEach ss

def usesCases : List CaseClause → List Use
  | [] => []
  | ⟨_, vs, body⟩ :: cs => Expr.usesEach vs ++ usesEach body ++ usesCases cs

end

end Stmt

/-! ## Types and declarations -/

namespace TypeExpr

mutual

/-- The named types that a type refers to. -/
def references : TypeExpr → List String
  | named _ n => [n]
  | array _ _ t => references t
  | record _ fields => fieldReferences fields
  | _ => []

def fieldReferences : List VarDecl → List String
  | [] => []
  | ⟨_, _, t⟩ :: fields => references t ++ fieldReferences fields

end

mutual

/-- The type that is meant, given what the named types are. -/
def meaning (named? : String → Option Ty) : TypeExpr → Ty
  | primitive _ p => p.ty
  | array _ ds t => .array (ds.map Expr.size?) (meaning named? t)
  | record _ fields => .record (fieldMeanings named? fields)
  | enumeration _ vs => .enumeration vs
  | named _ n => (named? n).getD .unknown
  | unknown _ | missing => .unknown

def fieldMeanings (named? : String → Option Ty) : List VarDecl → List (String × Ty)
  | [] => []
  | ⟨_, names, t⟩ :: fields => names.map (fun n => (n, meaning named? t)) ++ fieldMeanings named? fields

end

/-- All named types that the type refers to are among the given ones. -/
def RefersTo (t : TypeExpr) (names : List String) : Prop :=
  ∀ n ∈ t.references, Among n names

end TypeExpr

/-- The values of an enumeration are constants. -/
def TypeDecl.values (d : TypeDecl) : List (String × Entity) :=
  match d.definition with
  | .enumeration _ vs => vs.map fun v => (v, ⟨.integer, true⟩)
  | _ => []

def ConstDecl.entry (d : ConstDecl) : String × Entity :=
  (d.name, ⟨d.value.literalType, true⟩)

def VarDecl.entries (named? : String → Option Ty) (d : VarDecl) : List (String × Entity) :=
  d.names.map fun n => (n, ⟨d.type.meaning named?, false⟩)

def Param.entry (named? : String → Option Ty) (p : Param) : String × Entity :=
  (p.name, ⟨p.type.meaning named?, false⟩)

/-- A routine stands for its signature. -/
def Routine.entry (named? : String → Option Ty) (r : Routine) : String × Entity :=
  let params := r.params.map fun p => p.type.meaning named?
  (r.name, ⟨r.result.elim (.procedure params) fun t => .function params (t.meaning named?), true⟩)

namespace Scoping

/-- A scope with one more type, which is read in sight of those before it. -/
def Frame.withType (outer : Sight) (f : Frame) (d : TypeDecl) : Frame where
  types := f.types ++ [(d.name, d.definition.meaning (Sight.type? (f :: outer)))]
  values := f.values ++ d.values

def Frame.withValues (f : Frame) (entries : List (String × Entity)) : Frame :=
  { f with values := f.values ++ entries }

/-- A scope with more declarations: types, then constants, then variables. -/
def Frame.withDeclarations (outer : Sight) (f : Frame) (d : Declarations) : Frame :=
  let f := d.types.foldl (Frame.withType outer) f
  f.withValues (d.constants.map ConstDecl.entry ++ d.vars.flatMap (VarDecl.entries (Sight.type? (f :: outer))))

/-- Every type refers only to types of an outer scope and to those declared before it. -/
def InOrder (outer : List String) (ds : List TypeDecl) : Prop :=
  ∀ before d after, ds = before ++ d :: after → d.definition.RefersTo (outer ++ before.map (·.name))

end Scoping

def Program.frame (p : Program) : Frame :=
  let f := Frame.withDeclarations [] {} p.globals
  f.withValues (p.routines.map (Routine.entry (Sight.type? [f])))

/-- The scope of a routine: its parameters, then its declarations. -/
def Routine.frame (globals : Frame) (r : Routine) : Frame :=
  Frame.withDeclarations [globals] { values := r.params.map (Param.entry (Sight.type? [globals])) } r.locals

def Declarations.typeNames (d : Declarations) : List String :=
  d.types.map (·.name)

/-- A routine is well scoped in a program with the given scope and names of types. -/
structure Routine.WellScoped (globals : Frame) (types : List String) (r : Routine) : Prop where
  params : ∀ p ∈ r.params, p.type.RefersTo types
  result : ∀ t ∈ r.result, t.RefersTo types
  localTypes : InOrder types r.locals.types
  localVars : ∀ v ∈ r.locals.vars, v.type.RefersTo (types ++ r.locals.typeNames)
  body : ∀ u ∈ Stmt.usesEach r.body, u.Legal [r.frame globals, globals]

structure Program.WellScoped (p : Program) : Prop where
  types : InOrder [] p.globals.types
  vars : ∀ v ∈ p.globals.vars, v.type.RefersTo p.globals.typeNames
  routines : ∀ r ∈ p.routines, r.WellScoped p.frame p.globals.typeNames
  body : ∀ u ∈ Stmt.usesEach p.body, u.Legal [p.frame]

end AlgoLang
