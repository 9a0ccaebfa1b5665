/-
# The measures of a flowchart

A box is as wide as its label needs, but not narrower than its kind demands.  Sizes are exact; the layout
says how coordinates are reckoned.
-/
import AlgoLang.Flow.Graph
import AlgoLang.Number.Numeral

namespace AlgoLang.Flow

/-- The measures; `maxLabel` is the longest label that is not cut. -/
structure Layout where
  nodeWidth : Int := 160
  nodeHeight : Int := 50
  decisionWidth : Int := 140
  decisionHeight : Int := 70
  mergeSize : Int := 20
  horizontalGap : Int := 150
  verticalGap : Int := 60
  charWidth : Int := 11
  padding : Int := 100
  maxLabel : Int := 200
  showDeclarations : Bool := true
  rounding : Rounding := .binary64
  deriving DecidableEq

/-- The first characters of a text; a negative number leaves that many out at its end. -/
def takeFront (count : Int) (cs : List Char) : List Char :=
  if count < 0 then cs.take (cs.length - count.natAbs) else cs.take count.toNat

namespace Layout

def halves (l : Layout) (n : Int) : Position :=
  l.rounding.halves n

def units (l : Layout) (n : Int) : Position :=
  l.halves (2 * n)

def add (l : Layout) (a b : Position) : Position :=
  l.rounding.round (a.add b)

def sub (l : Layout) (a b : Position) : Position :=
  l.add a b.negate

def checkHalf (l : Layout) (n : Int) : Except NumeralFault Unit :=
  if l.rounding.reaches n then .ok () else .error .halving

def checkUnits (l : Layout) (n : Int) : Except NumeralFault Unit :=
  if l.rounding.reaches (2 * n) then .ok () else .error .floating

/-- A label, cut and with dots at its end if it is too long. -/
def cut (l : Layout) (label : String) : String :=
  let cs := label.toList
  if l.maxLabel < cs.length then String.ofList (takeFront (l.maxLabel - 3) cs ++ "...".toList) else label

def size (l : Layout) (kind : NodeKind) (label : String) : Int × Int :=
  let text : Int := label.length * l.charWidth
  match kind with
  | .merge => (l.mergeSize, l.mergeSize)
  | .decision | .loop => (max l.decisionWidth (text + 20), l.decisionHeight)
  | .start | .stop => (max l.nodeWidth (text + 60), l.nodeHeight)
  | _ => (max l.nodeWidth (text + 20), l.nodeHeight)

end Layout

end AlgoLang.Flow
