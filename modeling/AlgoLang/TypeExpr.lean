/-
# Types as they are written

A declaration gives one type to one or more names.  Fields of a structure are declarations too, so
the two are defined together.
-/
import AlgoLang.Expr

namespace AlgoLang

/-- The types that have a keyword; `other` is a name that no keyword spells. -/
inductive Primitive where
  | integer
  | real
  | boolean
  | char
  | string
  | other (name : String)
  deriving DecidableEq

namespace Primitive

def name : Primitive → String
  | integer => "INTEGER"
  | real => "REAL"
  | boolean => "BOOLEAN"
  | char => "CHAR"
  | string => "STRING"
  | other name => name

def ofName (name : String) : Primitive :=
  ([integer, real, boolean, char, string].find? fun p => p.name == name).getD (other name)

end Primitive

mutual

inductive TypeExpr where
  | primitive (span : Option Span) (type : Primitive)
  | array (span : Option Span) (dimensions : List Expr) (element : TypeExpr)
  | record (span : Option Span) (fields : List VarDecl)
  | enumeration (span : Option Span) (values : List String)
  | named (span : Option Span) (name : String)
  | unknown (span : Option Span)
  | missing

structure VarDecl where
  span : Option Span
  names : List String
  type : TypeExpr

end

instance : Inhabited TypeExpr := ⟨.missing⟩

namespace TypeExpr

def span : TypeExpr → Option Span
  | primitive s _ | array s _ _ | record s _ | enumeration s _ | named s _ | unknown s => s
  | missing => none

def kindName : TypeExpr → String
  | primitive .. => "PrimitiveType"
  | array .. => "ArrayType"
  | record .. => "StructureType"
  | enumeration .. => "EnumType"
  | named .. => "TypeReference"
  | unknown .. => "TypeExpression"
  | missing => "NoneType"

def format : TypeExpr → String
  | primitive _ p => p.name
  | named _ n => n
  | array _ ds t => "ARRAY " ++ String.join ((Expr.formatEach ds).map fun d => "[" ++ d ++ "]") ++ " OF " ++ format t
  | record .. => "STRUCTURE"
  | enumeration _ vs => "(" ++ ", ".intercalate vs ++ ")"
  | unknown _ | missing => "UNKNOWN"

/-- The primitive type that values of the type, or of its elements, are shown as; whole numbers for
anything that is not primitive. -/
def base : TypeExpr → Primitive
  | primitive _ p => p
  | array _ _ t => base t
  | _ => .integer

mutual

def calls : TypeExpr → List String
  | array _ ds t => Expr.callsEach ds ++ calls t
  | record _ fields => callsFields fields
  | _ => []

def callsFields : List VarDecl → List String
  | [] => []
  | ⟨_, _, t⟩ :: fields => calls t ++ callsFields fields

end

mutual

def alike : TypeExpr → TypeExpr → Bool
  | primitive _ p, primitive _ p' => p == p'
  | array _ ds t, array _ ds' t' => Expr.alikeEach ds ds' && alike t t'
  | record _ fs, record _ fs' => alikeFields fs fs'
  | enumeration _ vs, enumeration _ vs' => vs == vs'
  | named _ n, named _ n' => n == n'
  | unknown _, unknown _ => true
  | missing, missing => true
  | _, _ => false

def alikeFields : List VarDecl → List VarDecl → Bool
  | [], [] => true
  | ⟨_, ns, t⟩ :: fs, ⟨_, ns', t'⟩ :: fs' => ns == ns' && alike t t' && alikeFields fs fs'
  | _, _ => false

end

end TypeExpr

end AlgoLang
