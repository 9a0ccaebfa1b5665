/-
# The format of a printed line

The text of a format and its arguments are interleaved: an argument takes the place of each
conversion, and those that are left over follow at the end.  One newline at the end of the format
goes, since every `PRINT` ends its line.
-/
import AlgoLang.Lift.Expr

namespace AlgoLang.Lift

open Text

/-- A star, or one digit or more, at the front of a text: what follows. -/
def starOrDigits? : List Char → Option (List Char)
  | '*' :: r => some r
  | cs => if cs.head?.any isDecimal then some (cs.dropWhile isDecimal) else none

def dropPrecision (cs : List Char) : List Char :=
  match cs with
  | '.' :: r => (starOrDigits? r).getD cs
  | _ => cs

def dropLengthModifier : List Char → List Char
  | 'h' :: 'h' :: r | 'h' :: r | 'l' :: 'l' :: r | 'l' :: r | 'L' :: r | 'z' :: r | 'j' :: r | 't' :: r => r
  | cs => cs

/-- What follows a conversion, of which the percent sign has been passed. -/
def afterConversion? (cs : List Char) : Option (List Char) :=
  let r := cs.dropWhile "-+ #0".toList.contains
  let r := (starOrDigits? r).getD r
  match dropLengthModifier (dropPrecision r) with
  | c :: rest => if "diouxXeEfFgGcsp".toList.contains c then some rest else none
  | [] => none

/-- Text between conversions as one item; no text is no item. -/
def textItem : List Char → List String
  | [] => []
  | cs => [String.ofList ('"' :: cs ++ ['"'])]

/-- The items of a format from here on; `text` has been collected and `skip` characters belong to
what was read before.  None if there are more conversions than arguments. -/
def formatFrom (text : List Char) (args : List (List Char)) (skip : Nat) : List Char → Option (List String)
  | [] => some (textItem text ++ args.map liftExpr)
  | c :: cs =>
    match skip with
    | n + 1 => formatFrom text args n cs
    | 0 =>
      match c, cs.head? with
      | '%', some '%' => formatFrom (text ++ ['%']) args 1 cs
      | '\\', some d => formatFrom (text ++ ['\\', d]) args 1 cs
      | '%', _ =>
        match afterConversion? cs, args with
        | some rest, a :: args =>
          (formatFrom [] args (cs.length - rest.length) cs).map (textItem text ++ liftExpr a :: ·)
        | some _, [] => none
        | none, _ => formatFrom (text ++ [c]) args 0 cs
      | _, _ => formatFrom (text ++ [c]) args 0 cs

def withoutNewline (cs : List Char) : List Char :=
  if "\\n".toList.isSuffixOf cs then cs.dropLast.dropLast else cs

def formatItems (format : List Char) (args : List (List Char)) : Option (List String) :=
  formatFrom [] args 0 (withoutNewline format)

/-- The backslash before the last letter is itself escaped; without it the text is never closed. -/
theorem formatItems_backslash : formatItems "a\\\\n".toList [] = some ["\"a\\\""] :=
  rfl

end AlgoLang.Lift
