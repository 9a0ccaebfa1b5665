/-
# Names and literals of C in the algorithmic language

`lift` is this library's word for the way from C to the algorithmic language.
-/
import AlgoLang.Number.Numeral
import AlgoLang.Token

namespace AlgoLang.Lift

open Text

/-- A name of C that is a reserved word of the algorithmic language gets an underscore at its end. -/
def safeName (name : String) : String :=
  if (Keyword.ofName? name).isSome then name ++ "_" else name

def truthWord? (word : String) : Option String :=
  if word == "true" then some "TRUE" else if word == "false" then some "FALSE" else none

/-! ## The shapes of literals -/

def unsigned : List Char → List Char
  | '-' :: cs => cs
  | cs => cs

def isDigits (cs : List Char) : Bool :=
  !cs.isEmpty && cs.all isDecimal

/-- Decimal digits, with a minus sign before them or not. -/
def isInteger (cs : List Char) : Bool :=
  isDigits (unsigned cs)

def hexDigits? (cs : List Char) : Option (List Char) :=
  match unsigned cs with
  | '0' :: x :: ds =>
    if (x == 'x' || x == 'X') && !ds.isEmpty && ds.all Numeral.isHexDigit then some ds else none
  | _ => none

/-- Digits, a dot, digits, and a letter for single precision or not. -/
def isReal (cs : List Char) : Bool :=
  let body := unsigned cs
  let whole := body.takeWhile isDecimal
  match body.dropWhile isDecimal with
  | '.' :: rest =>
    let fraction := rest.takeWhile isDecimal
    let tail := rest.dropWhile isDecimal
    !whole.isEmpty && !fraction.isEmpty && (tail == [] || tail == ['f'] || tail == ['F'])
  | _ => false

/-- What stands behind the opening quote of a complete string literal. -/
def isStringTail : List Char → Bool
  | [] => false
  | ['"'] => true
  | '\\' :: c :: cs => c != '\n' && isStringTail cs
  | c :: cs => c != '"' && c != '\\' && isStringTail cs

def isString : List Char → Bool
  | '"' :: cs => isStringTail cs
  | _ => false

def isChar : List Char → Bool
  | ['\'', '\\', c, '\''] => c != '\n'
  | ['\'', c, '\''] => c != '\'' && c != '\\'
  | _ => false

/-! ## Literals -/

/-- The value of hexadecimal digits, with a minus sign before the whole literal or not. -/
def signedHex (cs digits : List Char) : Int :=
  if cs.head? == some '-' then -(Numeral.readHex digits : Int) else Numeral.readHex digits

/-- A literal of C as the algorithmic language writes it; none if the text is no literal. -/
def literal? (cs : List Char) : Except NumeralFault (Option String) := do
  let cs := trim cs
  if isInteger cs then
    return some (← Numeral.write (← Numeral.readSigned cs))
  match hexDigits? cs with
  | some digits => return some (← Numeral.write (signedHex cs digits))
  | none =>
    if isReal cs then
      return some (String.ofList (dropEnd (fun c => c == 'f' || c == 'F') cs))
    else if isString cs || isChar cs then
      return some (String.ofList cs)
    else
      return truthWord? (String.ofList cs)

/-- Octal digits are read as decimal ones. -/
theorem literal_octal : (literal? "010".toList).toOption = some (some "10") := by
  decide +kernel

end AlgoLang.Lift
