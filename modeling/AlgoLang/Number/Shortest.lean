/-
# The shortest decimal text of a floating point number

Every number owns an interval of reals, those that round to it.  For one digit, two digits, and so on, the two
neighbours of the number on that decimal grid are tried; the first grid with a neighbour inside the interval
gives the digits.  The text is positional for decimal exponents from -4 to 15, otherwise scientific.
-/
import AlgoLang.Number.Binary64

namespace AlgoLang.Binary64

/-- Decimal digits, as a whole number, times a power of ten. -/
structure Decimal where
  digits : Nat
  exponent : Int
  deriving DecidableEq

/-- The greatest `k` with `10 ^ k` at most the quotient of two positive numbers. -/
def decimalOrder (num den : Nat) : Int :=
  if den ≤ num then ((toString (num / den)).length : Int) - 1
  else
    let l := (toString (den / num)).length
    if den ≤ num * Nat.pow 10 (l - 1) then -((l : Int) - 1) else -(l : Int)

/-- A positive finite number with the ends of its interval, all over one common unit: the number is
`value * num / den`, and the ends belong to the interval if `closed` says so. -/
structure Interval where
  low : Nat
  value : Nat
  high : Nat
  closed : Bool
  num : Nat
  den : Nat

/-- The interval of `significand * 2 ^ exponent`, in quarters of the last place.  Below a power of
two the neighbour is half as far away. -/
def intervalOf (m : Nat) (e : Int) : Interval :=
  let (num, den) := powRatio 2 (e - 2)
  let low := if m == Nat.pow 2 52 && minExponent < e then 4 * m - 1 else 4 * m - 2
  ⟨low, 4 * m, 4 * m + 2, m % 2 == 0, num, den⟩

def Interval.holds (i : Interval) (n up down : Nat) : Bool :=
  let x := n * up * i.den
  let low := i.low * i.num * down
  let high := i.high * i.num * down
  if i.closed then low ≤ x && x ≤ high else low < x && x < high

/-- The neighbour of the number on the grid of multiples of `10 ^ p` that lies in the interval. -/
def Interval.onGrid? (i : Interval) (p : Int) : Option Nat :=
  let (up, down) := powRatio 10 p
  let num := i.value * i.num * down
  let den := i.den * up
  let below := num / den
  match i.holds below up down, i.holds (below + 1) up down with
  | true, true => some (roundDiv num den)
  | true, false => some below
  | false, true => some (below + 1)
  | false, false => none

def dropZeros (fuel : Nat) (d : Decimal) : Decimal :=
  match fuel with
  | 0 => d
  | fuel + 1 => if d.digits != 0 && d.digits % 10 == 0 then dropZeros fuel ⟨d.digits / 10, d.exponent + 1⟩ else d

/-- The first grid from the given number of digits on that has a neighbour in the interval. -/
def Interval.firstGrid (i : Interval) (order : Int) (fuel : Nat) (n : Nat) : Decimal :=
  match fuel with
  | 0 => ⟨i.value, 0⟩
  | fuel + 1 =>
    let p := order + 1 - n
    match i.onGrid? p with
    | some d => dropZeros 20 ⟨d, p⟩
    | none => i.firstGrid order fuel (n + 1)

/-- The shortest decimal of a positive finite number; seventeen digits always suffice. -/
def shortest (m : Nat) (e : Int) : Decimal :=
  let (num, den) := powRatio 2 e
  (intervalOf m e).firstGrid (decimalOrder (m * num) den) 17 1

/-- The text of digits and exponent: positional if the decimal exponent is from -4 to 15. -/
def Decimal.text (d : Decimal) : String :=
  let ds := toString d.digits
  let size : Int := ds.length
  let point := size + d.exponent
  if -4 < point && point ≤ 16 then
    if point ≤ 0 then "0." ++ "".pushn '0' (-point).toNat ++ ds
    else if size ≤ point then ds ++ "".pushn '0' (point - size).toNat ++ ".0"
    else
      let cs := ds.toList
      String.ofList (cs.take point.toNat ++ '.' :: cs.drop point.toNat)
  else
    let power := point - 1
    let sign := if power < 0 then "-" else "+"
    let magnitude := toString power.natAbs
    let padded := if magnitude.length < 2 then "0" ++ magnitude else magnitude
    let rest := ds.toList.drop 1
    let mantissa := String.ofList (ds.toList.take 1 ++ if rest.isEmpty then [] else '.' :: rest)
    mantissa ++ "e" ++ sign ++ padded

def text : Binary64 → String
  | finite negative m e =>
    let body := if m == 0 then "0.0" else (shortest m e).text
    if negative then "-" ++ body else body
  | infinite negative => if negative then "-inf" else "inf"
  | undefined => "nan"

end AlgoLang.Binary64
