/-
# Whole numbers in decimal digits, up to a limit

A numeral of more than `maxDigits` digits is refused with its number of digits when it is read, and without it
when it would have to be written.  Hexadecimal numerals are read without a limit.
-/
import AlgoLang.Text.Blank
import AlgoLang.Text.Digit

namespace AlgoLang

/-- The longest decimal numeral that is read or written. -/
def maxDigits : Nat := 4300

/-- A whole number that is too great for its use. -/
inductive NumeralFault where
  | reading (digits : Nat)
  | writing
  | counting
  /-- So many characters cannot be held. -/
  | holding
  /-- Its half is too great for a floating point number. -/
  | halving
  | floating
  deriving DecidableEq

def NumeralFault.message : NumeralFault → String
  | reading digits =>
    s!"Exceeds the limit ({maxDigits} digits) for integer string conversion: value has {digits} " ++
      "digits; use sys.set_int_max_str_digits() to increase the limit"
  | writing =>
    s!"Exceeds the limit ({maxDigits} digits) for integer string conversion; " ++
      "use sys.set_int_max_str_digits() to increase the limit"
  | counting => "cannot fit 'int' into an index-sized integer"
  | holding => ""
  | halving => "integer division result too large for a float"
  | floating => "int too large to convert to float"

namespace Numeral

def read (digits : List Char) : Except NumeralFault Nat :=
  if digits.length ≤ maxDigits then .ok (Text.decimalValue digits) else .error (.reading digits.length)

/-- The value of decimal digits, with a minus sign before them or not. -/
def readSigned : List Char → Except NumeralFault Int
  | '-' :: digits => (read digits).map fun n => -(n : Int)
  | digits => (read digits).map Int.ofNat

def write (n : Int) : Except NumeralFault String :=
  if n.natAbs < Nat.pow 10 maxDigits then .ok (toString n) else .error .writing

/-- The value of one hexadecimal digit; zero for anything else. -/
def hexValue (c : Char) : Nat :=
  if c.isDigit then c.toNat - 48
  else if 'a' ≤ c && c ≤ 'f' then c.toNat - 87
  else if 'A' ≤ c && c ≤ 'F' then c.toNat - 55
  else 0

def readHex (digits : List Char) : Nat :=
  digits.foldl (fun n c => 16 * n + hexValue c) 0

def isHexDigit (c : Char) : Bool :=
  c.isDigit || ('a' ≤ c && c ≤ 'f') || ('A' ≤ c && c ≤ 'F')

/-- Digits in groups, an underscore between two groups: the digits alone. -/
def ungroup? : List Char → Option (List Char)
  | [] => none
  | [c] => if Text.isDecimal c then some [c] else none
  | c :: '_' :: cs => if Text.isDecimal c then (ungroup? cs).map (c :: ·) else none
  | c :: cs => if Text.isDecimal c then (ungroup? cs).map (c :: ·) else none

/-- A whole number as a person may write it in a setting: white space around it, a sign, and single
underscores between digits.  Information separators are no white space here.  None if it is anything
else or too long. -/
def setting? (text : String) : Option Int :=
  let body := Text.dropEnd Text.isWhiteSpace (text.toList.dropWhile Text.isWhiteSpace)
  let (negative, digits) := match body with
    | '-' :: rest => (true, rest)
    | '+' :: rest => (false, rest)
    | _ => (false, body)
  (ungroup? digits).bind fun ds =>
    match read ds with
    | .ok n => some (if negative then -(n : Int) else n)
    | .error _ => none

/-- The numbers that can count something are less than this one, and not less than its opposite. -/
def countLimit : Nat := Nat.pow 2 63

/-- A text has fewer characters than this. -/
def holdLimit : Nat := Nat.pow 2 36

/-- Whether a text can have so many characters; a negative number stands for none. -/
def checkLength (width : Int) : Except NumeralFault Unit :=
  if width < -(countLimit : Int) || (countLimit : Int) ≤ width then .error .counting
  else if (holdLimit : Int) ≤ width then .error .holding
  else .ok ()

def spaces (width : Int) : Except NumeralFault String :=
  (checkLength width).map fun _ => String.ofList (List.replicate width.toNat ' ')

end Numeral

end AlgoLang
