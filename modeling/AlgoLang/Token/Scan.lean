/-
# From characters to tokens

`skipped` counts the blanks and comments at the front of a text, and `lexeme` reads the longest token or the
fault after them.  Nothing stops the walk of `scanFrom`: a fault is noted and the scan goes on behind the
characters it took.
-/
import AlgoLang.Diagnostic
import AlgoLang.Text.Line
import AlgoLang.Token

namespace AlgoLang.Token

/-! ## Blanks and comments -/

def isSpace (c : Char) : Bool :=
  c == ' ' || c == '\t' || c == '\n' || c == '\r'

/-- The characters of a comment up to and with the `*/` that ends it, or to the end of the text. -/
def blockCommentRest : List Char → Nat
  | [] => 0
  | '*' :: '/' :: _ => 2
  | _ :: cs => blockCommentRest cs + 1

/-- The characters of a comment up to and with the closing brace, or to the end of the text. -/
def braceCommentRest : List Char → Nat
  | [] => 0
  | '\x7d' :: _ => 1
  | _ :: cs => braceCommentRest cs + 1

/-- The number of characters of the one blank or comment at the front, zero if there is none. -/
def skipOne : List Char → Nat
  | '/' :: '/' :: cs => (cs.takeWhile (· != '\n')).length + 2
  | '/' :: '*' :: cs => blockCommentRest cs + 2
  | '\x7b' :: cs => braceCommentRest cs + 1
  | c :: _ => if isSpace c then 1 else 0
  | [] => 0

def skipped (cs : List Char) : Nat :=
  let n := skipOne cs
  if h : 0 < n ∧ cs ≠ [] then
    have := List.length_pos_iff.mpr h.2
    n + skipped (cs.drop n)
  else 0
termination_by cs.length
decreasing_by
  rw [List.length_drop]
  omega

/-! ## Lexemes -/

inductive Fault where
  | unexpected (c : Char)
  | loneBang
  | openString
  | emptyChar
  | longChar
  deriving DecidableEq

def Fault.message : Fault → String
  | unexpected c => s!"Unexpected character '{c}'"
  | loneBang => "Unexpected character '!'"
  | openString => "Unterminated string literal"
  | emptyChar => "Empty character literal"
  | longChar => "Character literal too long or missing closing quote"

def Fault.hint : Fault → Option String
  | loneBang => some "use NOT for negation or <> for inequality"
  | openString => some "add a closing '\"'"
  | _ => none

/-- What stands at the front of a text: a token's kind and value, or a fault, and its width. -/
structure Lexeme where
  outcome : Except Fault (TokenKind × String)
  width : Nat

def Lexeme.token (kind : TokenKind) (value : String) (width : Nat) : Lexeme :=
  ⟨.ok (kind, value), width⟩

def Lexeme.mark (m : Mark) (text : String) : Lexeme :=
  .token (.mark m) text text.length

/-- What a character stands for after a backslash: the usual three controls, else itself. -/
def unescape (c : Char) : Char :=
  match c with
  | 'n' => '\n'
  | 't' => '\t'
  | 'r' => '\r'
  | _ => c

/-- A string literal behind its opening quote: the value, the width, and whether it is closed.  It
has to be closed on its line, though a backslash may escape a newline too. -/
def stringRest : List Char → List Char × Nat × Bool
  | [] => ([], 0, false)
  | '"' :: _ => ([], 1, true)
  | '\n' :: _ => ([], 0, false)
  | '\\' :: c :: cs =>
    let (value, width, closed) := stringRest cs
    (unescape c :: value, width + 2, closed)
  | c :: cs =>
    let (value, width, closed) := stringRest cs
    (c :: value, width + 1, closed)

def stringLexeme (cs : List Char) : Lexeme :=
  match stringRest cs with
  | (value, width, true) => .token .string (String.ofList value) (width + 1)
  | (_, width, false) => ⟨.error .openString, width + 1⟩

/-- A character literal behind its opening quote, which is counted in the width: one character or
one escape, then the closing quote. -/
def charLexeme : List Char → Lexeme
  | '\'' :: _ => ⟨.error .emptyChar, 2⟩
  | '\\' :: c :: '\'' :: _ => .token .char (String.singleton (unescape c)) 4
  | '\\' :: _ :: _ => ⟨.error .longChar, 3⟩
  | c :: '\'' :: _ => .token .char (String.singleton c) 3
  | _ :: _ => ⟨.error .longChar, 2⟩
  | [] => ⟨.error .longChar, 1⟩

/-- A number: digits, and a fraction only if a digit follows the point. -/
def numberLexeme (cs : List Char) : Lexeme :=
  let whole := cs.takeWhile Char.isDigit
  match cs.dropWhile Char.isDigit with
  | '.' :: rest =>
    let fraction := rest.takeWhile Char.isDigit
    if fraction.isEmpty then .token .integer (String.ofList whole) whole.length
    else .token .real (String.ofList (whole ++ '.' :: fraction)) (whole.length + 1 + fraction.length)
  | _ => .token .integer (String.ofList whole) whole.length

/-- A character that a name may go on with: an ASCII letter or digit, or the underscore. -/
def isNameChar (c : Char) : Bool :=
  c.isAlphanum || c == '_'

def nameLexeme (cs : List Char) : Lexeme :=
  let name := cs.takeWhile isNameChar
  let text := String.ofList name
  match Keyword.ofName? text with
  | some k => .token (.keyword k) text name.length
  | none => .token .identifier text name.length

/-- The lexeme at the front of a text that starts with `c`. -/
def lexeme (c : Char) (cs : List Char) : Lexeme :=
  match c, cs with
  | '<', '-' :: _ => .mark .assign "<-"
  | '<', '=' :: _ => .mark .lessEqual "<="
  | '<', '>' :: _ => .mark .notEqual "<>"
  | '<', _ => .mark .less "<"
  | '>', '=' :: _ => .mark .greaterEqual ">="
  | '>', _ => .mark .greater ">"
  | '!', '=' :: _ => .mark .notEqual "!="
  | '!', _ => ⟨.error .loneBang, 1⟩
  | '"', _ => stringLexeme cs
  | '\'', _ => charLexeme cs
  | _, _ =>
    match Mark.ofChar? c with
    | some m => .mark m (String.singleton c)
    | none =>
      if c.isDigit then numberLexeme (c :: cs)
      else if c.isAlpha then nameLexeme (c :: cs)
      else ⟨.error (.unexpected c), 1⟩

/-! ## The whole text -/

/-- Everything a scan found: the tokens before the end, the end itself, and the faults. -/
structure Scanned where
  tokens : List Token
  eof : Token
  faults : List (Fault × Place)

/-- Walks over the text from the given place.  A lexeme takes at least one character. -/
def scanFrom (file : String) (here : Place) (cs : List Char) : Scanned :=
  let gap := skipped cs
  let start := here.over (cs.take gap)
  match cs.drop gap, List.length_drop (i := gap) (l := cs) with
  | [], _ => ⟨[], ⟨.eof, "", start.inFile file, 0⟩, []⟩
  | c :: rest, _ =>
    let found := lexeme c rest
    let width := max found.width 1
    let after := scanFrom file (start.over ((c :: rest).take width)) ((c :: rest).drop width)
    match found.outcome with
    | .ok (kind, value) => { after with tokens := ⟨kind, value, start.inFile file, width⟩ :: after.tokens }
    | .error fault => { after with faults := (fault, start) :: after.faults }
termination_by cs.length
decreasing_by
  rename_i h
  simp only [List.length_drop, List.length_cons] at *
  omega

def scan (source : String) (file : String := defaultFile) : Scanned :=
  scanFrom file {} source.toList

/-- A literal with a newline in it does not stop on the line where it starts. -/
theorem scan_stop_newline : (scan "'\n'").tokens.map (fun t => (t.stop.line, t.stop.column)) = [(1, 4)] := by
  decide +kernel

def Scanned.all (s : Scanned) : List Token :=
  s.tokens ++ [s.eof]

def Scanned.diagnostics (s : Scanned) (phase : Phase) (source : String) (file : String) :
    List Diagnostic :=
  s.faults.map fun (fault, place) =>
    { phase, message := fault.message, location := place.inFile file, hint := fault.hint
      sourceLine := some (String.ofList (Text.lineAround source.toList place.offset)) }

end AlgoLang.Token
