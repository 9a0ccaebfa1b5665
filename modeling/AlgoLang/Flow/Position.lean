/-
# Coordinates on the page

A coordinate is kept as its number of halves.  After every step the result is rounded to a floating point
number of 64 bits, and a result beyond all such numbers is infinite, from where no step leads back.
`Rounding.exact` is the arithmetic without it.
-/
import AlgoLang.Number.Shortest

namespace AlgoLang.Flow

/-- A coordinate: so many halves, infinite, or not defined. -/
inductive Position where
  | halves (n : Int)
  | infinite (negative : Bool)
  | undefined
  deriving DecidableEq

namespace Position

def negate : Position → Position
  | halves n => halves (-n)
  | infinite negative => infinite !negative
  | undefined => undefined

/-- The sum, not rounded; opposite infinities have none. -/
def add : Position → Position → Position
  | halves a, halves b => halves (a + b)
  | halves _, infinite s => infinite s
  | infinite s, halves _ => infinite s
  | infinite s, infinite t => if s == t then infinite s else undefined
  | _, _ => undefined

/-- Whether a coordinate lies before another; what is not defined lies nowhere. -/
def before : Position → Position → Bool
  | halves a, halves b => a < b
  | halves _, infinite negative => !negative
  | infinite negative, halves _ => negative
  | infinite s, infinite t => s && !t
  | _, _ => false

def min (a b : Position) : Position :=
  if b.before a then b else a

def max (a b : Position) : Position :=
  if a.before b then b else a

def least (first : Position) (others : List Position) : Position :=
  others.foldl min first

def greatest (first : Position) (others : List Position) : Position :=
  others.foldl max first

def toBinary64 : Position → Binary64
  | halves n => Binary64.ofRatio (n < 0) n.natAbs 2
  | infinite negative => .infinite negative
  | undefined => .undefined

def text (p : Position) : String :=
  p.toBinary64.text

end Position

/-- How coordinates are reckoned: exactly, or rounded to a floating point number after every step. -/
inductive Rounding where
  | exact
  | binary64
  deriving DecidableEq

namespace Rounding

def nearest : Rounding → Int → Int
  | exact, n => n
  | binary64, n => Binary64.nearestWhole n

/-- The number of bits that the halves of a finite floating point number have at most. -/
def maxBits : Nat := 1025

/-- Finite floating point numbers have fewer halves than this. -/
def limit : Nat := Nat.pow 2 maxBits

def reaches : Rounding → Int → Bool
  | exact, _ => true
  | binary64, n => (Binary64.nearestWhole n).natAbs < limit

def halves (r : Rounding) (n : Int) : Position :=
  if r.reaches n then .halves (r.nearest n) else .infinite (n < 0)

def round (r : Rounding) : Position → Position
  | .halves n => r.halves n
  | p => p

end Rounding

end AlgoLang.Flow
