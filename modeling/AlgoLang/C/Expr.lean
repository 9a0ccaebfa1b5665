/-
# Expressions in C

Every operation with two operands gets brackets of its own, so grouping never rests on the
precedences of C; a power becomes a call of `pow`.  A built-in function whose C name differs is
renamed unless the program has a routine of that name.
-/
import AlgoLang.C.Line
import AlgoLang.Expr
import AlgoLang.Keyed

namespace AlgoLang

/-- The operator between two operands in C; a power has none. -/
def BinaryOp.inC : BinaryOp → Option String
  | add => "+" | sub => "-" | mul => "*" | div => "/" | intDiv => "/" | mod => "%" | pow => none
  | eq => "==" | ne => "!=" | lt => "<" | gt => ">" | le => "<=" | ge => ">=" | and => "&&" | or => "||"

def UnaryOp.inC : UnaryOp → String
  | neg => "-"
  | not => "!"

namespace C

def joined (op : BinaryOp) (left right : String) : String :=
  match op.inC with
  | some sign => "(" ++ left ++ " " ++ sign ++ " " ++ right ++ ")"
  | none => "pow(" ++ left ++ ", " ++ right ++ ")"

/-- The inside of a character literal; only a single character is ever escaped. -/
def charBody (s : String) : String :=
  match s.toList with
  | [c] => String.ofList (Text.escapeChar '\'' c)
  | _ => s

def renamed : Keyed String :=
  [("ln", "log"), ("log", "log10"), ("length", "strlen")]

/-- The name of a routine in C; `routines` are the routines of the program in small letters. -/
def callee (routines : List String) (name : String) : String :=
  let key := Text.lower name
  if routines.contains key then name else (renamed.get? key).getD name

end C

namespace Expr

def literalTypeInC : Expr → String
  | real .. => "double"
  | boolean .. => "bool"
  | char .. => "char"
  | string .. => "char*"
  | _ => "int"

mutual

def toC (routines : List String) : Expr → Except C.Unsupported String
  | integer _ n => .ok (toString n)
  | real _ x => .ok x.text
  | boolean _ b => .ok (if b then "true" else "false")
  | char _ s => .ok ("'" ++ C.charBody s ++ "'")
  | string _ s => .ok (Text.literal '"' s)
  | name _ n => .ok n
  | binary _ op l r => do
    let left ← toC routines l
    let right ← toC routines r
    return C.joined op left right
  | unary _ op e => do return op.inC ++ (← toC routines e)
  | paren _ e => do return "(" ++ (← toC routines e) ++ ")"
  | index _ a is => do
    let indices ← toCEach routines is
    let array ← toC routines a
    return array ++ String.join (indices.map fun i => "[" ++ i ++ "]")
  | field _ o f => do return (← toC routines o) ++ "." ++ f
  | call _ n args => do
    let arguments ← toCEach routines args
    return C.callee routines n ++ "(" ++ ", ".intercalate arguments ++ ")"
  | unknown span => .error ⟨(unknown span).kindName, span⟩
  | missing => .error ⟨missing.kindName, none⟩

/-- Each expression of a list in C; the first one that has no counterpart stops the list. -/
def toCEach (routines : List String) : List Expr → Except C.Unsupported (List String)
  | [] => .ok []
  | e :: es => do
    let first ← toC routines e
    let rest ← toCEach routines es
    return first :: rest

end

def isLiteral : Expr → Bool
  | integer .. | real .. | boolean .. | char .. | string .. => true
  | _ => false

def literalInC (e : Expr) : Except C.Unsupported String :=
  if e.isLiteral then e.toC [] else .error ⟨e.kindName, e.span⟩

end Expr

end AlgoLang
