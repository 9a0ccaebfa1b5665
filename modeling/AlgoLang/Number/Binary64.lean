/-
# Real literals as binary floating point numbers of 64 bits

A finite number is a sign and `significand * 2 ^ exponent`, in the one form in which the significand has all its
53 bits or the exponent is the least one.  `ofRatio` rounds an exact quotient to the nearest such number, a tie
to the even significand.
-/
import AlgoLang.Text.Digit

namespace AlgoLang

inductive Binary64 where
  | finite (negative : Bool) (significand : Nat) (exponent : Int)
  | infinite (negative : Bool)
  | undefined
  deriving DecidableEq

namespace Binary64

def minExponent : Int := -1074

def maxExponent : Int := 971

def zero (negative : Bool) : Binary64 :=
  finite negative 0 minExponent

/-- A power of two or of ten as a quotient: the power itself, or one over it. -/
def powRatio (base : Nat) (e : Int) : Nat × Nat :=
  if 0 ≤ e then (Nat.pow base e.toNat, 1) else (1, Nat.pow base (-e).toNat)

/-- The quotient rounded to the nearest whole number, a tie to the even one. -/
def roundDiv (num den : Nat) : Nat :=
  let q := num / den
  let r := num % den
  if 2 * r < den then q
  else if den < 2 * r then q + 1
  else if q % 2 == 0 then q else q + 1

/-- The exponent at which the quotient of two positive numbers has 53 bits before the point, or the
least exponent if that is greater. -/
def exponentOf (num den : Nat) : Int :=
  let guess : Int := (Nat.log2 num : Int) - (Nat.log2 den : Int) - 52
  let (up, down) := powRatio 2 guess
  let exact := if num * down < den * up * Nat.pow 2 52 then guess - 1 else guess
  max exact minExponent

/-- The number nearest to a quotient; the denominator is not zero. -/
def ofRatio (negative : Bool) (num den : Nat) : Binary64 :=
  if num == 0 then zero negative
  else
    let e := exponentOf num den
    let (up, down) := powRatio 2 e
    let m := roundDiv (num * down) (den * up)
    let (m, e) := if m == Nat.pow 2 53 then (Nat.pow 2 52, e + 1) else (m, e)
    if e ≤ maxExponent then finite negative m e else infinite negative

/-- The whole number nearest to a given one among those that a significand of 53 bits can hold, a tie
to the even significand. -/
def nearestWhole (n : Int) : Int :=
  let unit := Nat.pow 2 (Nat.log2 n.natAbs - 52)
  let m := roundDiv n.natAbs unit * unit
  if n < 0 then -(m : Int) else m

/-- The number nearest to `digits * 10 ^ exponent`.  Far outside the range of finite numbers the
answer is known without raising ten to the exponent. -/
def ofDecimal (negative : Bool) (digits : Nat) (exponent : Int) : Binary64 :=
  let size : Int := Nat.log2 digits / 4 + exponent
  if digits == 0 then zero negative
  else if 400 < size then infinite negative
  else if exponent < -400 - (Nat.log2 digits : Int) then zero negative
  else
    let (up, down) := powRatio 10 exponent
    ofRatio negative (digits * up) down

def ofLiteral (text : String) : Binary64 :=
  let cs := text.toList
  let whole := cs.takeWhile (· != '.')
  let fraction := (cs.dropWhile (· != '.')).drop 1
  ofDecimal false (Text.decimalValue (whole ++ fraction)) (-(fraction.length : Int))

/-- A number in the forms in which numbers are written: a sign, digits with a point or without, and
an exponent; or the names of the numbers that are not finite. -/
def read? (text : String) : Option Binary64 :=
  let (negative, body) := match text.toList with
    | '-' :: rest => (true, rest)
    | rest => (false, rest)
  if body == "inf".toList then some (infinite negative)
  else if body == "nan".toList then some undefined
  else
    let mantissa := body.takeWhile fun c => c != 'e' && c != 'E'
    let scale := (body.dropWhile fun c => c != 'e' && c != 'E').drop 1
    let whole := mantissa.takeWhile (· != '.')
    let fraction := (mantissa.dropWhile (· != '.')).drop 1
    let (down, power) := match scale with
      | '-' :: rest => (true, rest)
      | '+' :: rest => (false, rest)
      | rest => (false, rest)
    if (whole ++ fraction ++ power).all Char.isDigit && !(whole ++ fraction).isEmpty then
      let p : Int := Text.decimalValue power
      let e := (if down then -p else p) - fraction.length
      some (ofDecimal negative (Text.decimalValue (whole ++ fraction)) e)
    else none

def negate : Binary64 → Binary64
  | finite negative m e => finite (!negative) m e
  | infinite negative => infinite (!negative)
  | undefined => undefined

def isNegative : Binary64 → Bool
  | finite negative m _ => negative && m != 0
  | infinite negative => negative
  | undefined => false

def isPositive : Binary64 → Bool
  | finite negative m _ => !negative && m != 0
  | infinite negative => !negative
  | undefined => false

/-- Equal as numbers: the two zeros are, and what is no number equals nothing. -/
def sameNumber : Binary64 → Binary64 → Bool
  | undefined, _ => false
  | finite s m e, finite s' m' e' => (m == 0 && m' == 0) || (s == s' && m == m' && e == e')
  | infinite s, infinite s' => s == s'
  | _, _ => false

end Binary64

end AlgoLang
