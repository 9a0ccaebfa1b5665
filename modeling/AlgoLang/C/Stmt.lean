/-
# Statements in C

How a value is read or printed is decided from the primitive types of the variables in sight; what has no
format is shown as a whole number.  A counting loop always tests for "at most", whatever the sign of its step.
-/
import AlgoLang.C.Expr
import AlgoLang.Stmt
import AlgoLang.SymbolTable
import AlgoLang.TypeExpr

namespace AlgoLang

namespace C

/-- What a statement needs to know: the primitive types of the variables and the routines of the
program, all under small letters. -/
structure Context where
  kinds : Keyed Primitive := []
  routines : List String := []

inductive Format where
  | integer
  | real
  | char
  | string
  deriving DecidableEq

def Format.printed : Format → String
  | integer => "%d"
  | real => "%f"
  | char => "%c"
  | string => "%s"

/-- The conversion that reads a value; a character is read after blanks. -/
def Format.scanned : Format → String
  | integer => "%d"
  | real => "%lf"
  | char => " %c"
  | string => "%s"

def Format.ofPrimitive : Primitive → Format
  | .real => real
  | .char => char
  | .string => string
  | _ => integer

/-- How a variable is shown; an unknown one is shown as a whole number. -/
def Context.format (ctx : Context) (name : String) : Format :=
  ((ctx.kinds.get? (Text.lower name)).map Format.ofPrimitive).getD .integer

end C

def Expr.shownAs (ctx : C.Context) : Expr → C.Format
  | .real .. => .real
  | .char .. => .char
  | .string .. => .string
  | .name _ n => ctx.format n
  | .binary _ _ l r => if shownAs ctx l == .real || shownAs ctx r == .real then .real else .integer
  | .call _ n _ => if realBuiltins.contains (Text.lower n) then .real else .integer
  | _ => .integer

/-- How something is read: only a variable can be other than a whole number. -/
def Expr.readAs (ctx : C.Context) : Expr → C.Format
  | .name _ n => ctx.format n
  | _ => .integer

namespace Stmt

def scanInC (ctx : C.Context) (depth : Nat) (target : Expr) : Except C.Unsupported C.Line := do
  let place ← target.toC ctx.routines
  return ⟨depth, "scanf(\"" ++ (target.readAs ctx).scanned ++ "\", &" ++ place ++ ");"⟩

def printInC (ctx : C.Context) (depth : Nat) (es : List Expr) : Except C.Unsupported C.Line := do
  let arguments ← Expr.toCEach ctx.routines es
  let formats := String.join (es.map fun e => (e.shownAs ctx).printed)
  return ⟨depth, "printf(\"" ++ formats ++ "\\n\"" ++ String.join (arguments.map (", " ++ ·)) ++ ");"⟩

/-- A power is a `double` in C, but is shown as a whole number. -/
theorem printInC_power : printInC {} 0 [.binary none .pow (.name none "x") (.integer none 2)] =
    .ok ⟨0, "printf(\"%d\\n\", pow(x, 2));"⟩ :=
  rfl

/-- A routine that is called like a built-in function is shown as that function is. -/
theorem printInC_ownSqrt : printInC { routines := ["sqrt"] } 0 [.call none "sqrt" [.integer none 4]] =
    .ok ⟨0, "printf(\"%f\\n\", sqrt(4));"⟩ :=
  rfl

def forInC (ctx : C.Context) (depth : Nat) (counter : String) (first last : Expr) (step : Option Expr) :
    Except C.Unsupported C.Line := do
  let start ← first.toC ctx.routines
  let stop ← last.toC ctx.routines
  let update ← match step with
    | none => pure (counter ++ "++")
    | some e => do pure (counter ++ " += " ++ (← e.toC ctx.routines))
  return ⟨depth, "for (" ++ counter ++ " = " ++ start ++ "; " ++ counter ++ " <= " ++ stop ++ "; " ++ update ++ ") \x7b"⟩

/-- The test is `<=` whatever the sign of the step: this loop is never entered. -/
theorem forInC_downward :
    forInC {} 0 "i" (.integer none 3) (.integer none 1) (some (.unary none .neg (.integer none 1))) =
      .ok ⟨0, "for (i = 3; i <= 1; i += -1) \x7b"⟩ :=
  rfl

def labelsInC (ctx : C.Context) (depth : Nat) (values : List Expr) :
    Except C.Unsupported (List C.Line) := do
  return (← Expr.toCEach ctx.routines values).map fun v => ⟨depth, "case " ++ v ++ ":"⟩

mutual

def toC (ctx : C.Context) (depth : Nat) : Stmt → Except C.Unsupported (List C.Line)
  | assign _ t v => do
    let target ← t.toC ctx.routines
    let value ← v.toC ctx.routines
    return [⟨depth, target ++ " = " ++ value ++ ";"⟩]
  | ifThen _ c yes no => do
    let condition ← c.toC ctx.routines
    let whenTrue ← toCEach ctx (depth + 1) yes
    let whenFalse ← match no with
      | some (s :: ss) => do pure (⟨depth, "\x7d else \x7b"⟩ :: (← toCEach ctx (depth + 1) (s :: ss)))
      | _ => pure []
    return ⟨depth, "if (" ++ condition ++ ") \x7b"⟩ :: whenTrue ++ whenFalse ++ [⟨depth, "\x7d"⟩]
  | .while _ c body => do
    let condition ← c.toC ctx.routines
    let inner ← toCEach ctx (depth + 1) body
    return ⟨depth, "while (" ++ condition ++ ") \x7b"⟩ :: inner ++ [⟨depth, "\x7d"⟩]
  | doWhile _ body c => do
    let inner ← toCEach ctx (depth + 1) body
    let condition ← c.toC ctx.routines
    return ⟨depth, "do \x7b"⟩ :: inner ++ [⟨depth, "\x7d while (" ++ condition ++ ");"⟩]
  | .for _ n a b step body => do
    let head ← forInC ctx depth n a b step
    let inner ← toCEach ctx (depth + 1) body
    return head :: inner ++ [⟨depth, "\x7d"⟩]
  | switch _ e cases default => do
    let selector ← e.toC ctx.routines
    let clauses ← casesToC ctx (depth + 1) cases
    let otherwise ← match default with
      | some body => do
        let inner ← toCEach ctx (depth + 2) body
        pure (⟨depth + 1, "default:"⟩ :: inner ++ [⟨depth + 2, "break;"⟩])
      | none => pure []
    return ⟨depth, "switch (" ++ selector ++ ") \x7b"⟩ :: clauses ++ otherwise ++ [⟨depth, "\x7d"⟩]
  | call _ n args => do
    let arguments ← Expr.toCEach ctx.routines args
    return [⟨depth, C.callee ctx.routines n ++ "(" ++ ", ".intercalate arguments ++ ");"⟩]
  | scan _ ts => ts.mapM (scanInC ctx depth)
  | print _ es => do return [← printInC ctx depth es]
  | .return _ e => do return [⟨depth, "return " ++ (← e.toC ctx.routines) ++ ";"⟩]
  | block _ body => toCEach ctx depth body
  | unknown span => .error ⟨(unknown span).kindName, span⟩

/-- Statements one after the other; the first one that has no counterpart stops them. -/
def toCEach (ctx : C.Context) (depth : Nat) : List Stmt → Except C.Unsupported (List C.Line)
  | [] => .ok []
  | s :: ss => do
    let first ← toC ctx depth s
    let rest ← toCEach ctx depth ss
    return first ++ rest

/-- The clauses of a switch; none falls through to the next. -/
def casesToC (ctx : C.Context) (depth : Nat) : List CaseClause → Except C.Unsupported (List C.Line)
  | [] => .ok []
  | ⟨_, vs, body⟩ :: cs => do
    let labels ← labelsInC ctx depth vs
    let inner ← toCEach ctx (depth + 1) body
    let rest ← casesToC ctx depth cs
    return labels ++ inner ++ ⟨depth + 1, "break;"⟩ :: rest

end

end Stmt

end AlgoLang
