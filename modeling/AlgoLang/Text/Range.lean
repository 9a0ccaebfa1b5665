/-
# Classes of characters given as ranges of code points

A table holds lengths: so many code points lie outside of the class, so many inside, and so on in
turn, from the first code point on.
-/

namespace AlgoLang.Text

/-- Whether the code point that lies `n` behind the present one is in the class. -/
def inTurnsFrom (inside : Bool) : List Nat → Nat → Bool
  | [], _ => false
  | length :: lengths, n => if n < length then inside else inTurnsFrom (!inside) lengths (n - length)

def inTurns (lengths : List Nat) (c : Char) : Bool :=
  inTurnsFrom false lengths c.toNat

end AlgoLang.Text
