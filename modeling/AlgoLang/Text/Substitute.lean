/-
# Replacing stretches of a text from left to right

A `Finder` looks at one place of a text, at what lies behind it, nearest character first, and at what lies ahead,
and may take the first characters ahead.  The search goes on behind what was taken, so nothing is replaced
twice and the finder always sees the text as it was.
-/
import AlgoLang.Text.Blank

namespace AlgoLang.Text

/-- A stretch found at some place: its first character and `more` others give way to `instead`. -/
structure Found where
  more : Nat
  instead : List Char

/-- Looks at the text behind a place, nearest character first, and at the text ahead. -/
abbrev Finder := List Char → List Char → Option Found

/-- Goes on with `skip` characters still to pass over. -/
def substituteFrom (find : Finder) (behind : List Char) (skip : Nat) : List Char → List Char
  | [] => []
  | c :: cs =>
    match skip with
    | n + 1 => substituteFrom find (c :: behind) n cs
    | 0 =>
      match find behind (c :: cs) with
      | some f => f.instead ++ substituteFrom find (c :: behind) f.more cs
      | none => c :: substituteFrom find (c :: behind) 0 cs

def substitute (find : Finder) (cs : List Char) : List Char :=
  substituteFrom find [] 0 cs

/-- A stretch of the given length, with what it gives way to; none if it has no length. -/
def Found.ofLength (length : Nat) (instead : List Char) : Option Found :=
  match length with
  | 0 => none
  | n + 1 => some ⟨n, instead⟩

def Finder.text (old new : List Char) : Finder := fun _ cs =>
  if old.isPrefixOf cs then Found.ofLength old.length new else none

def replace (old new : String) (cs : List Char) : List Char :=
  substitute (Finder.text old.toList new.toList) cs

def Finder.blanks (new : List Char) : Finder := fun _ cs =>
  Found.ofLength (cs.takeWhile isBlank).length new

def squeeze (cs : List Char) : List Char :=
  substitute (Finder.blanks [' ']) cs

theorem substituteFrom_of_none {find : Finder} (h : ∀ b cs, find b cs = none) (behind cs : List Char) :
    substituteFrom find behind 0 cs = cs := by
  induction cs generalizing behind with
  | nil => rfl
  | cons c cs ih => simp [substituteFrom, h, ih]

/-- If nothing is ever found the text stays as it is. -/
theorem substitute_of_none {find : Finder} (h : ∀ b cs, find b cs = none) (cs : List Char) :
    substitute find cs = cs :=
  substituteFrom_of_none h [] cs

end AlgoLang.Text
