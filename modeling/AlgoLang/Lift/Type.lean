/-
# The type at the front of a C declaration

A type is the word that stands for it in the algorithmic language: one of the primitive types, `VOID`
for no value, or a name.  Which names are types is known from the declarations seen so far.
-/
import AlgoLang.Keyed
import AlgoLang.Lift.Name
import AlgoLang.Text.Word

namespace AlgoLang.Lift

open Text

def baseTypes : Keyed String :=
  [("int", "INTEGER"), ("float", "REAL"), ("double", "REAL"), ("char", "CHAR"), ("bool", "BOOLEAN"),
   ("_Bool", "BOOLEAN"), ("void", "VOID")]

def integerModifiers : List String :=
  ["unsigned", "signed", "long", "short"]

def qualifiers : List String :=
  ["const", "static", "volatile", "extern", "register", "inline"] ++ integerModifiers

def tagWords : List String :=
  ["struct", "union", "enum"]

structure Typed where
  type : String
  rest : List Char
  isConst : Bool
  deriving DecidableEq

def leadingWord? (cs : List Char) : Option (List Char × List Char) :=
  takeWord? (trimStart cs)

theorem leadingWord?_length {cs w rest : List Char} (h : leadingWord? cs = some (w, rest)) :
    rest.length < cs.length :=
  Nat.lt_of_lt_of_le (takeWord?_length h) (trimStart_length_le cs)

/-- Reads on behind qualifiers: whether one of them was `const`, and whether one makes a number. -/
def typedFrom (names : Keyed String) (isConst modified : Bool) (cs : List Char) : Option Typed :=
  match h : leadingWord? cs with
  | none => none
  | some (w, rest) =>
    have := leadingWord?_length h
    let word := String.ofList w
    if tagWords.contains word then
      match leadingWord? rest with
      | some (t, after) =>
        let tag := String.ofList t
        some ⟨(names.get? tag).getD (safeName tag), trim after, isConst⟩
      | none => none
    else
      match baseTypes.get? word with
      | some type => some ⟨type, trim rest, isConst⟩
      | none =>
        if qualifiers.contains word then
          typedFrom names (isConst || word == "const") (modified || integerModifiers.contains word) rest
        else
          match names.get? word with
          | some type => some ⟨type, trim rest, isConst⟩
          | none => if modified then some ⟨"INTEGER", trim (w ++ rest), isConst⟩ else none
termination_by cs.length

def typed? (names : Keyed String) (cs : List Char) : Option Typed :=
  typedFrom names false false cs

end AlgoLang.Lift
