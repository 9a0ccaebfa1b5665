/-
# Expressions

Two expressions are alike if they differ only in the stretches of source they were read from.  Brackets are a
node of their own, so that what is written out again groups as the source did.  Reading a program yields
neither `missing`, an operand that is not there, nor `unknown`.
-/
import AlgoLang.Number.Shortest
import AlgoLang.Source
import AlgoLang.Text.Escape

namespace AlgoLang

inductive BinaryOp where
  | add | sub | mul | div | pow | intDiv | mod
  | eq | ne | lt | gt | le | ge
  | and | or
  deriving DecidableEq

namespace BinaryOp

def all : List BinaryOp :=
  [add, sub, mul, div, pow, intDiv, mod, eq, ne, lt, gt, le, ge, and, or]

def spelling : BinaryOp → String
  | add => "+" | sub => "-" | mul => "*" | div => "/" | pow => "^" | intDiv => "DIV" | mod => "MOD"
  | eq => "=" | ne => "<>" | lt => "<" | gt => ">" | le => "<=" | ge => ">=" | and => "AND" | or => "OR"

def ofSpelling? (s : String) : Option BinaryOp :=
  all.find? fun op => op.spelling == s

def isArithmetic : BinaryOp → Bool
  | add | sub | mul | div | pow | intDiv | mod => true
  | _ => false

def isRelational : BinaryOp → Bool
  | eq | ne | lt | gt | le | ge => true
  | _ => false

def isLogical : BinaryOp → Bool
  | and | or => true
  | _ => false

end BinaryOp

inductive UnaryOp where
  | neg
  | not
  deriving DecidableEq

def UnaryOp.spelling : UnaryOp → String
  | neg => "-"
  | not => "NOT"

def UnaryOp.ofSpelling? (s : String) : Option UnaryOp :=
  if s == "-" then some neg else if s == "NOT" then some not else none

inductive Expr where
  | integer (span : Option Span) (value : Int)
  | real (span : Option Span) (value : Binary64)
  | boolean (span : Option Span) (value : Bool)
  | char (span : Option Span) (value : String)
  | string (span : Option Span) (value : String)
  | name (span : Option Span) (name : String)
  | binary (span : Option Span) (op : BinaryOp) (left right : Expr)
  | unary (span : Option Span) (op : UnaryOp) (operand : Expr)
  | index (span : Option Span) (array : Expr) (indices : List Expr)
  | field (span : Option Span) (object : Expr) (field : String)
  | call (span : Option Span) (name : String) (arguments : List Expr)
  | paren (span : Option Span) (inner : Expr)
  | unknown (span : Option Span)
  | missing

instance : Inhabited Expr := ⟨.missing⟩

namespace Expr

def span : Expr → Option Span
  | integer s _ | real s _ | boolean s _ | char s _ | string s _ | name s _ | binary s _ _ _
  | unary s _ _ | index s _ _ | field s _ _ | call s _ _ | paren s _ | unknown s => s
  | missing => none

def kindName : Expr → String
  | integer .. => "IntegerLiteral"
  | real .. => "RealLiteral"
  | boolean .. => "BooleanLiteral"
  | char .. => "CharLiteral"
  | string .. => "StringLiteral"
  | name .. => "Identifier"
  | binary .. => "BinaryExpression"
  | unary .. => "UnaryExpression"
  | index .. => "ArrayAccess"
  | field .. => "FieldAccess"
  | call .. => "FunctionCall"
  | paren .. => "ParenExpression"
  | unknown .. => "Expression"
  | missing => "NoneType"

mutual

/-- The expression as it is written, with blanks around operators of two operands and after those of
one. -/
def format : Expr → String
  | integer _ n => toString n
  | real _ x => x.text
  | boolean _ b => if b then "TRUE" else "FALSE"
  | char _ s => Text.literal '\'' s
  | string _ s => Text.literal '"' s
  | name _ n => n
  | binary _ op l r => format l ++ " " ++ op.spelling ++ " " ++ format r
  | unary _ op e => op.spelling ++ " " ++ format e
  | index _ a is => format a ++ "[" ++ ", ".intercalate (formatEach is) ++ "]"
  | field _ o f => format o ++ "." ++ f
  | call _ n args => n ++ "(" ++ ", ".intercalate (formatEach args) ++ ")"
  | paren _ e => "(" ++ format e ++ ")"
  | unknown _ => "?"
  | missing => ""

def formatEach : List Expr → List String
  | [] => []
  | e :: es => format e :: formatEach es

end

def formatList (es : List Expr) : String :=
  ", ".intercalate (formatEach es)

mutual

/-- The routines called, from left to right, a call before the calls in its arguments. -/
def calls : Expr → List String
  | binary _ _ l r => calls l ++ calls r
  | unary _ _ e => calls e
  | index _ a is => calls a ++ callsEach is
  | field _ o _ => calls o
  | call _ n args => n :: callsEach args
  | paren _ e => calls e
  | _ => []

def callsEach : List Expr → List String
  | [] => []
  | e :: es => calls e ++ callsEach es

end

mutual

/-- Alike in all but the stretches of source; reals are compared as numbers. -/
def alike : Expr → Expr → Bool
  | integer _ a, integer _ b => a == b
  | real _ a, real _ b => a.sameNumber b
  | boolean _ a, boolean _ b => a == b
  | char _ a, char _ b => a == b
  | string _ a, string _ b => a == b
  | name _ a, name _ b => a == b
  | binary _ o l r, binary _ o' l' r' => o == o' && alike l l' && alike r r'
  | unary _ o e, unary _ o' e' => o == o' && alike e e'
  | index _ a is, index _ a' is' => alike a a' && alikeEach is is'
  | field _ o f, field _ o' f' => alike o o' && f == f'
  | call _ n args, call _ n' args' => n == n' && alikeEach args args'
  | paren _ e, paren _ e' => alike e e'
  | unknown _, unknown _ => true
  | missing, missing => true
  | _, _ => false

def alikeEach : List Expr → List Expr → Bool
  | [], [] => true
  | e :: es, e' :: es' => alike e e' && alikeEach es es'
  | _, _ => false

end

/-- A number below zero as it is written: a negative literal, a minus before a positive one, or
either of them in brackets. -/
def isNegativeLiteral : Expr → Bool
  | paren _ e => isNegativeLiteral e
  | integer _ n => n < 0
  | real _ x => x.isNegative
  | unary _ .neg (integer _ n) => 0 < n
  | unary _ .neg (real _ x) => x.isPositive
  | _ => false

end Expr

end AlgoLang
