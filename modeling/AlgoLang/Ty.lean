/-
# Types as the analysis knows them

A named type has been replaced by what it stands for.  `unknown` is the type of all that could not be resolved;
it never gives rise to a second report.
-/
import AlgoLang.Text.LetterCase

namespace AlgoLang

inductive Ty where
  | integer
  | real
  | boolean
  | char
  | string
  | unknown
  | array (dimensions : List (Option Int)) (element : Ty)
  | record (fields : List (String × Ty))
  | enumeration (values : List String)
  | function (params : List Ty) (result : Ty)
  | procedure (params : List Ty)

namespace Ty

instance : Inhabited Ty := ⟨unknown⟩

def kindName : Ty → String
  | integer => "integer"
  | real => "real"
  | boolean => "boolean"
  | char => "char"
  | string => "string"
  | unknown => "unknown"
  | array .. => "array"
  | record .. => "structure"
  | enumeration .. => "enumeration"
  | function .. => "function"
  | procedure .. => "procedure"

/-- The type as text: arrays with their dimensions, enumerations with their values, and otherwise
the kind alone. -/
def text : Ty → String
  | array ds t => "array" ++ String.join (ds.map fun d => "[" ++ d.elim "?" toString ++ "]") ++ " of " ++ text t
  | enumeration vs => "(" ++ ", ".intercalate vs ++ ")"
  | t => t.kindName

def isUnknown : Ty → Bool
  | unknown => true
  | _ => false

def isRecord : Ty → Bool
  | record _ => true
  | _ => false

def isRoutine : Ty → Bool
  | function .. | procedure .. => true
  | _ => false

def params : Ty → List Ty
  | function ps _ | procedure ps => ps
  | _ => []

/-- The first field of that name, whatever its case; only structures have fields. -/
def fieldType? (t : Ty) (name : String) : Option Ty :=
  match t with
  | record fields => (fields.find? fun f => Text.lower f.1 == Text.lower name).map (·.2)
  | _ => none

/-- The type of a number that an operator computes: real if an operand is, else a whole number. -/
def ofArithmetic : Ty → Ty → Ty
  | real, _ => real
  | _, real => real
  | _, _ => integer

mutual

/-- Whether two types are the same, names of fields and values letter by letter. -/
def same : Ty → Ty → Bool
  | integer, integer | real, real | boolean, boolean | char, char | string, string
  | unknown, unknown => true
  | array ds t, array ds' t' => ds == ds' && same t t'
  | record fs, record fs' => sameFields fs fs'
  | enumeration vs, enumeration vs' => vs == vs'
  | function ps t, function ps' t' => sameEach ps ps' && same t t'
  | procedure ps, procedure ps' => sameEach ps ps'
  | _, _ => false

def sameEach : List Ty → List Ty → Bool
  | [], [] => true
  | t :: ts, t' :: ts' => same t t' && sameEach ts ts'
  | _, _ => false

def sameFields : List (String × Ty) → List (String × Ty) → Bool
  | [], [] => true
  | (n, t) :: fs, (n', t') :: fs' => n == n' && same t t' && sameFields fs fs'
  | _, _ => false

end

end Ty

end AlgoLang
