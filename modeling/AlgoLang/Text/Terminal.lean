/-
# Text without the sequences that steer a terminal

Such a sequence is an escape character and an opening bracket, any digits, semicolons and question
marks, and one letter of the English alphabet that says what to do.  Sequences of other forms are text
like any other.
-/
import AlgoLang.Text.Substitute

namespace AlgoLang.Text

/-- What may stand between the bracket and the letter of a sequence. -/
def isParameterChar (c : Char) : Bool :=
  c.isDigit || c == ';' || c == '?'

def controlSequence : Finder := fun _ cs =>
  match cs with
  | '\x1b' :: '[' :: r =>
    match r.dropWhile isParameterChar with
    | c :: _ => if c.isAlpha then Found.ofLength ((r.takeWhile isParameterChar).length + 3) [] else none
    | [] => none
  | _ => none

def plain (s : String) : String :=
  String.ofList (substitute controlSequence s.toList)

end AlgoLang.Text
