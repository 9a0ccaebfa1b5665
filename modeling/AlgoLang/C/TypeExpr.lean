/-
# Types and the declarations that use them, in C

A declaration in C is split around the name: the element type stands before it and the dimensions of
arrays after it.
-/
import AlgoLang.C.Expr
import AlgoLang.Program

namespace AlgoLang

/-- The C type of a primitive; an unheard-of one is taken for a whole number. -/
def Primitive.inC : Primitive → String
  | integer => "int"
  | real => "double"
  | boolean => "bool"
  | char => "char"
  | string => "char*"
  | other _ => "int"

namespace TypeExpr

/-- What stands after the name: the dimensions of an array and of its elements. -/
def suffixInC : TypeExpr → Except C.Unsupported String
  | array _ ds t => do
    let dimensions ← Expr.toCEach [] ds
    let more ← suffixInC t
    return String.join (dimensions.map fun d => "[" ++ d ++ "]") ++ more
  | _ => .ok ""

mutual

def toC : TypeExpr → Except C.Unsupported String
  | primitive _ p => .ok p.inC
  | array _ _ t => toC t
  | named _ n => .ok n
  | record _ fields => do
    return "struct \x7b " ++ " ".intercalate (← fieldsToC fields) ++ " \x7d"
  | enumeration _ vs => .ok ("enum \x7b " ++ ", ".intercalate vs ++ " \x7d")
  | unknown span => .error ⟨(unknown span).kindName, span⟩
  | missing => .error ⟨missing.kindName, none⟩

/-- The fields of a structure that has no name, one declaration for each of their names. -/
def fieldsToC : List VarDecl → Except C.Unsupported (List String)
  | [] => .ok []
  | ⟨_, [], _⟩ :: fields => fieldsToC fields
  | ⟨_, n :: names, t⟩ :: fields => do
    let type ← toC t
    let suffix ← suffixInC t
    let rest ← fieldsToC fields
    return (n :: names).map (fun n => type ++ " " ++ n ++ suffix ++ ";") ++ rest

end

def declareInC (t : TypeExpr) (name : String) : Except C.Unsupported String := do
  let type ← t.toC
  let suffix ← t.suffixInC
  return type ++ " " ++ name ++ suffix

end TypeExpr

def VarDecl.toC (depth : Nat) (d : VarDecl) : Except C.Unsupported (List C.Line) := do
  let type ← d.type.toC
  let suffix ← d.type.suffixInC
  return d.names.map fun n => ⟨depth, type ++ " " ++ n ++ suffix ++ ";"⟩

/-- A named type.  The fields of a structure get a line each. -/
def TypeDecl.toC (depth : Nat) (d : TypeDecl) : Except C.Unsupported (List C.Line) :=
  match d.definition with
  | .record _ fields => do
    let members ← fields.mapM (VarDecl.toC (depth + 1))
    return ⟨depth, "typedef struct \x7b"⟩ :: members.flatten ++ [⟨depth, "\x7d " ++ d.name ++ ";"⟩]
  | .enumeration _ vs =>
    .ok [⟨depth, "typedef enum \x7b " ++ ", ".intercalate vs ++ " \x7d " ++ d.name ++ ";"⟩]
  | t => do return [⟨depth, "typedef " ++ (← t.declareInC d.name) ++ ";"⟩]

def ConstDecl.defineInC (d : ConstDecl) : Except C.Unsupported C.Line := do
  return ⟨0, "#define " ++ d.name ++ " " ++ (← d.value.literalInC)⟩

def ConstDecl.toC (depth : Nat) (d : ConstDecl) : Except C.Unsupported C.Line := do
  return ⟨depth, "const " ++ d.value.literalTypeInC ++ " " ++ d.name ++ " = " ++ (← d.value.literalInC) ++ ";"⟩

def Param.toC (p : Param) : Except C.Unsupported String := do
  let type ← p.type.toC
  let suffix ← p.type.suffixInC
  return type ++ " " ++ (if p.byReference then "*" else "") ++ p.name ++ suffix

end AlgoLang
