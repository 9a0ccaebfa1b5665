/-
# Cutting a text into lines

`splitAt` cuts at one chosen character and keeps every piece, `splitLines` cuts at every line boundary of any
script and drops the empty piece after a final boundary, and `unifyBreaks` turns the line ends of stored files
into the single newline that the scanners count.
-/

namespace AlgoLang.Text

/-- The pieces between the places where the character stands: one more than there are places. -/
def splitAt (sep : Char) : List Char → List (List Char)
  | [] => [[]]
  | c :: cs =>
    match splitAt sep cs with
    | [] => [[c]]
    | first :: others => if c == sep then [] :: first :: others else (c :: first) :: others

/-- A character that ends a line: newline, return, vertical tab, form feed, the information
separators, next line, and the line and paragraph separators. -/
def isLineBreak (c : Char) : Bool :=
  let n := c.toNat
  (10 ≤ n && n ≤ 13) || (28 ≤ n && n ≤ 30) || n == 0x85 || n == 0x2028 || n == 0x2029

/-- The lines of a text, without their ends; `line` is what the current line holds, backwards. -/
def splitLinesFrom (line : List Char) : List Char → List (List Char)
  | [] => if line.isEmpty then [] else [line.reverse]
  | '\r' :: '\n' :: cs => line.reverse :: splitLinesFrom [] cs
  | c :: cs => if isLineBreak c then line.reverse :: splitLinesFrom [] cs else splitLinesFrom (c :: line) cs

/-- The lines of a text, without their ends.  A return and a newline together are one end, and the
text after the last end is a line only if it is not empty. -/
def splitLines (cs : List Char) : List (List Char) :=
  splitLinesFrom [] cs

/-- Every return, and every return with the newline after it, becomes one newline. -/
def unifyBreaks : List Char → List Char
  | [] => []
  | '\r' :: '\n' :: cs => '\n' :: unifyBreaks cs
  | c :: cs => (if c == '\r' then '\n' else c) :: unifyBreaks cs

/-- The text between the newline before the offset and the newline after it. -/
def lineAround (cs : List Char) (offset : Nat) : List Char :=
  let before := ((cs.take offset).reverse.takeWhile (· != '\n')).reverse
  before ++ (cs.drop offset).takeWhile (· != '\n')

end AlgoLang.Text
