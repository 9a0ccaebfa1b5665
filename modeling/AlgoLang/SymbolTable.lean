/-
# What names stand for

Names are kept in small letters, so their case does not matter.  Every open scope has symbols and named types of
its own.  Below them lie the built-in functions, which any declaration may hide.
-/
import AlgoLang.Keyed
import AlgoLang.Number.Binary64
import AlgoLang.Ty

namespace AlgoLang

inductive Value where
  | integer (n : Int)
  | real (x : Binary64)
  | boolean (b : Bool)
  | text (s : String)
  deriving DecidableEq

/-- What a name stands for; the name is spelled as it was declared. -/
structure Symbol where
  name : String
  type : Ty
  isConstant : Bool := false
  value : Option Value := none
  byReference : Bool := false

def builtins : Keyed Symbol :=
  let realFunctions := ["sqrt", "abs", "sin", "cos", "tan", "ln", "log", "exp", "floor", "ceil", "round"]
  realFunctions.map (fun n => (n, { name := n, type := .function [.real] .real, isConstant := true })) ++
    [("length", { name := "length", type := .function [.string] .integer, isConstant := true })]

def realBuiltins : List String :=
  (builtins.filter fun e => match e.2.type with
    | .function _ .real => true
    | _ => false).map (·.1)

structure Scope where
  symbols : Keyed Symbol := []
  types : Keyed Ty := []

/-- The open scopes: those inside the outermost one, innermost first, and the outermost one. -/
structure SymbolTable where
  inner : List Scope := []
  outermost : Scope := {}

inductive Binding where
  | declared (s : Symbol)
  | builtin (s : Symbol)

def Binding.symbol : Binding → Symbol
  | declared s | builtin s => s

def Binding.isBuiltin : Binding → Bool
  | declared _ => false
  | builtin _ => true

namespace SymbolTable

def scopes (t : SymbolTable) : List Scope :=
  t.inner ++ [t.outermost]

def depth (t : SymbolTable) : Nat :=
  t.inner.length + 1

def current (t : SymbolTable) : Scope :=
  t.inner.headD t.outermost

def withCurrent (t : SymbolTable) (s : Scope) : SymbolTable :=
  match t.inner with
  | [] => { t with outermost := s }
  | _ :: rest => { t with inner := s :: rest }

def enter (t : SymbolTable) : SymbolTable :=
  { t with inner := {} :: t.inner }

def exit (t : SymbolTable) : SymbolTable :=
  { t with inner := t.inner.tail }

/-- A symbol joins the innermost scope and hides an earlier one of its name. -/
def define (t : SymbolTable) (s : Symbol) : SymbolTable :=
  t.withCurrent { t.current with symbols := t.current.symbols.put (Text.lower s.name) s }

/-- A named type joins the innermost scope and hides an earlier one of its name. -/
def defineType (t : SymbolTable) (name : String) (type : Ty) : SymbolTable :=
  t.withCurrent { t.current with types := t.current.types.put (Text.lower name) type }

/-- What a name stands for: the innermost declaration, else the built-in function. -/
def resolve (t : SymbolTable) (name : String) : Option Binding :=
  let key := Text.lower name
  ((t.scopes.findSome? fun s => s.symbols.get? key).map .declared) <|> (builtins.get? key).map .builtin

def lookup (t : SymbolTable) (name : String) : Option Symbol :=
  (t.resolve name).map Binding.symbol

def lookupLocal (t : SymbolTable) (name : String) : Option Symbol :=
  t.current.symbols.get? (Text.lower name)

def lookupType (t : SymbolTable) (name : String) : Option Ty :=
  t.scopes.findSome? fun s => s.types.get? (Text.lower name)

end SymbolTable

end AlgoLang
