/-
# Whether every name of a program stands for something fit

Types first, then constants, variables and the signatures of all routines, then the bodies: so routines may
call each other in any order.  Nothing stops the analysis, and what could not be resolved has the unknown
type.  Inside a body nothing is declared, so `Expr.typed` and `Stmt.check` are plain functions of one table.
-/
import AlgoLang.Diagnostic
import AlgoLang.Program
import AlgoLang.SymbolTable

namespace AlgoLang

/-! ## Findings -/

/-- Where a finding about a part of the program is placed. -/
def findingAt (span : Option Span) : Location :=
  span.elim Location.start (·.start)

def wrong (message : String) (span : Option Span) : Diagnostic :=
  { phase := .analysis, message, location := findingAt span }

def doubtful (message : String) (span : Option Span) : Diagnostic :=
  { phase := .analysis, message, location := findingAt span, severity := .warning }

/-! ## Types -/

/-- The type of a literal; anything else has no type of its own. -/
def Expr.literalType : Expr → Ty
  | .integer .. => .integer
  | .real .. => .real
  | .boolean .. => .boolean
  | .char .. => .char
  | .string .. => .string
  | _ => .unknown

def Expr.literalValue? : Expr → Option Value
  | .integer _ n => some (.integer n)
  | .real _ x => some (.real x)
  | .boolean _ b => some (.boolean b)
  | .char _ s | .string _ s => some (.text s)
  | _ => none

def Primitive.ty : Primitive → Ty
  | integer => .integer
  | real => .real
  | boolean => .boolean
  | char => .char
  | string => .string
  | other _ => .unknown

def Expr.size? : Expr → Option Int
  | .integer _ n => some n
  | _ => none

namespace TypeExpr

mutual

def resolve (table : SymbolTable) : TypeExpr → Ty × List Diagnostic
  | primitive _ p => (p.ty, [])
  | array _ ds t =>
    let (element, found) := resolve table t
    (.array (ds.map Expr.size?) element, found)
  | record _ fields =>
    let (members, found) := resolveFields table fields
    (.record members, found)
  | enumeration _ vs => (.enumeration vs, [])
  | named span n =>
    match table.lookupType n with
    | some t => (t, [])
    | none => (.unknown, [wrong s!"Undefined type '{n}'" span])
  | unknown _ | missing => (.unknown, [])

def resolveFields (table : SymbolTable) : List VarDecl → List (String × Ty) × List Diagnostic
  | [] => ([], [])
  | ⟨_, names, t⟩ :: fields =>
    let (type, found) := resolve table t
    let (members, found') := resolveFields table fields
    (names.map (fun n => (n, type)) ++ members, found ++ found')

end

end TypeExpr

/-! ## Expressions -/

/-- A routine that is not built in is called with as many arguments as it has parameters. -/
def checkArity (b : Binding) (given : Nat) (span : Option Span) : List Diagnostic :=
  let expected := b.symbol.type.params.length
  if b.isBuiltin || expected == given then []
  else [doubtful s!"'{b.symbol.name}' expects {expected} argument(s), got {given}" span]

namespace Expr

mutual

/-- The type of an expression, and what is wrong with it.  The arguments of a call are looked at
only if the name stands for a function. -/
def typed (table : SymbolTable) : Expr → Ty × List Diagnostic
  | integer .. => (.integer, [])
  | real .. => (.real, [])
  | boolean .. => (.boolean, [])
  | char .. => (.char, [])
  | string .. => (.string, [])
  | name span n =>
    match table.lookup n with
    | some s => (s.type, [])
    | none => (.unknown, [wrong s!"Undefined identifier '{n}'" span])
  | binary _ op l r =>
    let (left, found) := typed table l
    let (right, found') := typed table r
    (if op.isArithmetic then Ty.ofArithmetic left right else .boolean, found ++ found')
  | unary _ op e =>
    let (operand, found) := typed table e
    (if op == .not then .boolean else operand, found)
  | paren _ e => typed table e
  | index _ a is =>
    let (array, found) := typed table a
    let found := found ++ checkEach table is
    match array with
    | .array _ element => (element, found)
    | _ => (.unknown, found)
  | field span o f =>
    let (object, found) := typed table o
    if object.isUnknown then (.unknown, found)
    else
      match object.fieldType? f with
      | some t => (t, found)
      | none => (.unknown, found ++ [wrong s!"Unknown field '{f}'" span])
  | call span n args =>
    match table.resolve n with
    | none => (.unknown, [wrong s!"Undefined function '{n}'" span])
    | some b =>
      match b.symbol.type with
      | .function _ result => (result, checkArity b args.length span ++ checkEach table args)
      | _ => (.unknown, [wrong s!"'{n}' is not a function" span])
  | unknown _ | missing => (.unknown, [])

def checkEach (table : SymbolTable) : List Expr → List Diagnostic
  | [] => []
  | e :: es => (typed table e).2 ++ checkEach table es

end

/-- However many subscripts there are, one array type is taken off. -/
theorem typed_nested_array :
    (typed (({} : SymbolTable).define { name := "t", type := .array [some 2] (.array [some 3] .real) })
      (.index none (.name none "t") [.integer none 0, .integer none 1])).1 = .array [some 3] .real :=
  rfl

def check (table : SymbolTable) (e : Expr) : List Diagnostic :=
  (e.typed table).2

def checkTarget (table : SymbolTable) : Expr → List Diagnostic
  | name span n => if (table.lookup n).isSome then [] else [wrong s!"Undefined variable '{n}'" span]
  | e => e.check table

end Expr

/-! ## Statements -/

namespace Stmt

def checkAssignable (table : SymbolTable) : Expr → List Diagnostic
  | .name span n =>
    if ((table.lookup n).map Symbol.isConstant).getD false then
      [wrong s!"Cannot assign to constant '{n}'" span]
    else []
  | _ => []

def checkCounter (table : SymbolTable) (n : String) (span : Option Span) : List Diagnostic :=
  match table.lookup n with
  | none => [wrong s!"Undefined variable '{n}'" span]
  | some s => if s.isConstant then [wrong s!"Cannot assign to constant '{n}'" span] else []

/-- The name of a call statement stands for a routine that takes so many arguments. -/
def checkCallee (table : SymbolTable) (n : String) (given : Nat) (span : Option Span) :
    List Diagnostic :=
  match table.resolve n with
  | none => [wrong s!"Undefined procedure '{n}'" span]
  | some b =>
    if b.symbol.type.isRoutine then checkArity b given span
    else [wrong s!"'{n}' is not a procedure" span]

def checkReturn (procedure : Option String) (span : Option Span) : List Diagnostic :=
  match procedure with
  | some n => [doubtful s!"RETURN in procedure '{n}' has no effect on its caller" span]
  | none => []

mutual

/-- What is wrong with a statement; `procedure` names the procedure it stands in, if it does. -/
def check (table : SymbolTable) (procedure : Option String) : Stmt → List Diagnostic
  | assign _ t v => t.checkTarget table ++ v.check table ++ checkAssignable table t
  | ifThen _ c yes none => c.check table ++ checkEach table procedure yes
  | ifThen _ c yes (some no) => c.check table ++ checkEach table procedure yes ++ checkEach table procedure no
  | .while _ c body => c.check table ++ checkEach table procedure body
  | doWhile _ body c => checkEach table procedure body ++ c.check table
  | .for span n a b step body =>
    checkCounter table n span ++ a.check table ++ b.check table ++
      step.elim [] (Expr.check table) ++ checkEach table procedure body
  | switch _ e cases none => e.check table ++ checkCases table procedure cases
  | switch _ e cases (some d) =>
    e.check table ++ checkCases table procedure cases ++ checkEach table procedure d
  | call span n args => checkCallee table n args.length span ++ Expr.checkEach table args
  | scan _ ts => ts.flatMap (Expr.checkTarget table)
  | print _ es => Expr.checkEach table es
  | .return span e => checkReturn procedure span ++ e.check table
  | block _ body => checkEach table procedure body
  | unknown _ => []

def checkEach (table : SymbolTable) (procedure : Option String) : List Stmt → List Diagnostic
  | [] => []
  | s :: ss => check table procedure s ++ checkEach table procedure ss

def checkCases (table : SymbolTable) (procedure : Option String) : List CaseClause → List Diagnostic
  | [] => []
  | ⟨_, vs, body⟩ :: cs =>
    Expr.checkEach table vs ++ checkEach table procedure body ++ checkCases table procedure cs

end

end Stmt

/-! ## Declarations and programs -/

/-- An analysis under way: what names stand for, and what was found. -/
structure Analysis where
  table : SymbolTable := {}
  found : List Diagnostic := []

namespace Analysis

def note (a : Analysis) (ds : List Diagnostic) : Analysis :=
  { a with found := a.found ++ ds }

/-- Declares a symbol; a second one of its name in the same scope is doubtful. -/
def declare (a : Analysis) (s : Symbol) (span : Option Span) : Analysis :=
  let again := if (a.table.lookupLocal s.name).isSome then
      [doubtful s!"'{s.name}' is already declared in this scope" span] else []
  { table := a.table.define s, found := a.found ++ again }

/-- The values of an enumeration are constants, numbered from zero. -/
def declareValues (a : Analysis) (d : TypeDecl) : Analysis :=
  match d.definition with
  | .enumeration _ vs =>
    (vs.zipIdx).foldl (fun a (v, i) =>
      a.declare { name := v, type := .integer, isConstant := true, value := some (.integer i) } d.span) a
  | _ => a

def declareType (a : Analysis) (d : TypeDecl) : Analysis :=
  let (type, found) := d.definition.resolve a.table
  declareValues { table := a.table.defineType d.name type, found := a.found ++ found } d

def declareConstant (a : Analysis) (d : ConstDecl) : Analysis :=
  a.declare { name := d.name, type := d.value.literalType, isConstant := true, value := d.value.literalValue? } d.span

def declareVariables (a : Analysis) (d : VarDecl) : Analysis :=
  let (type, found) := d.type.resolve a.table
  d.names.foldl (fun a n => a.declare { name := n, type } d.span) (a.note found)

def declareAll (a : Analysis) (d : Declarations) : Analysis :=
  let a := d.types.foldl declareType a
  let a := d.constants.foldl declareConstant a
  d.vars.foldl declareVariables a

def paramTypes (table : SymbolTable) (ps : List Param) : List Ty × List Diagnostic :=
  let resolved := ps.map fun p => p.type.resolve table
  (resolved.map (·.1), resolved.flatMap (·.2))

/-- Declares a routine by its signature; the types of its parameters are handed on to its body. -/
def declareRoutine (a : Analysis) (r : Routine) : Analysis × List Ty :=
  let (params, found) := paramTypes a.table r.params
  let (type, found') := match r.result with
    | some t =>
      let (result, found') := t.resolve a.table
      (Ty.function params result, found')
    | none => (Ty.procedure params, [])
  ((a.note (found ++ found')).declare { name := r.name, type, isConstant := true } r.span, params)

def declareRoutines (a : Analysis) : List Routine → Analysis × List (Routine × List Ty)
  | [] => (a, [])
  | r :: rs =>
    let (a, params) := a.declareRoutine r
    let (a, others) := declareRoutines a rs
    (a, (r, params) :: others)

def checkReturns (r : Routine) : List Diagnostic :=
  if r.result.isSome && !Stmt.returnsAny r.body then
    [doubtful s!"Function '{r.name}' has no RETURN statement" r.span]
  else []

def routine (a : Analysis) (r : Routine) (params : List Ty) : Analysis :=
  let a := { a with table := a.table.enter }
  let a := (r.params.zip params).foldl (fun a (p, type) =>
    a.declare { name := p.name, type, byReference := p.byReference } p.span) a
  let a := a.declareAll r.locals
  let procedure := if r.result.isSome then none else some r.name
  let a := a.note (Stmt.checkEach a.table procedure r.body ++ checkReturns r)
  { a with table := a.table.exit }

def ofProgram (p : Program) : Analysis :=
  let a := declareAll {} p.globals
  let (a, functions) := a.declareRoutines p.functions
  let (a, procedures) := a.declareRoutines p.procedures
  let a := (functions ++ procedures).foldl (fun a (r, params) => a.routine r params) a
  a.note (Stmt.checkEach a.table none p.body)

def log (a : Analysis) : Log :=
  a.found.foldl Log.add {}

def diagnostics (a : Analysis) : List Diagnostic :=
  a.log.inOrder

/-- The types of what each `PRINT` of the main body shows, in the scope of the whole program. -/
def printTypes (a : Analysis) (p : Program) : List (List Ty) :=
  p.body.filterMap fun s => match s with
    | .print _ es => some (es.map fun e => (e.typed a.table).1)
    | _ => none

end Analysis

end AlgoLang
