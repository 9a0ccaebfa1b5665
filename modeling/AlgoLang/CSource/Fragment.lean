/-
# C text cut into pieces of the size of a statement

A piece ends at a semicolon or an opening brace, at the end of a line, and around a closing brace, unless
parentheses are open.  Comments are dropped, lines that begin with `#` are kept whole, and a list in braces
that initialises a variable stays with it if it ends on its line.  Only a comment that is not closed and the
piece collected so far reach beyond the end of a line.
-/
import AlgoLang.CSource.Bracket

namespace AlgoLang.CSource

open Text

/-- A piece of C text, and the index of the line that its first character stands on. -/
structure Fragment where
  text : List Char
  origin : Nat
  deriving DecidableEq

/-- The pieces that are complete, and the one that is being collected. -/
structure Cutting where
  done : List Fragment := []
  buffer : List Char := []
  origin : Nat := 0
  depth : Nat := 0
  inComment : Bool := false

inductive LineMode where
  | code
  | literal (quote : Char)
  | escaped (quote : Char)
  | commentFront
  | comment
  | commentBack
  | verbatim (count : Nat)

namespace Cutting

/-- One more character; the first that is not blank says where the piece begins. -/
def push (s : Cutting) (origin : Nat) (c : Char) : Cutting :=
  { s with
    buffer := s.buffer ++ [c]
    origin := if !isBlank c && allBlank s.buffer then origin else s.origin }

/-- The piece is complete; blanks alone are no piece. -/
def flush (s : Cutting) : Cutting :=
  match trim s.buffer with
  | [] => { s with buffer := [] }
  | text => { s with done := s.done ++ [⟨text, s.origin⟩], buffer := [] }

def closeBrace (s : Cutting) (origin : Nat) : Cutting :=
  let s := s.flush
  { s with done := s.done ++ [⟨['\x7d'], origin⟩] }

def parens (s : Cutting) (c : Char) : Cutting :=
  if c == '(' then { s with depth := s.depth + 1 }
  else if c == ')' then { s with depth := s.depth - 1 }
  else s

/-- The length of a list in braces that follows an equals sign and is closed on its line. -/
def initialiserLength? (s : Cutting) (c : Char) (ahead : List Char) : Option Nat :=
  if c == '\x7b' && (trimEnd s.buffer).getLast? == some '=' then
    (closing? '\x7b' '\x7d' ahead).map fun r => r.1.length
  else none

def code (s : Cutting) (origin : Nat) (c : Char) (ahead : List Char) : Cutting × LineMode :=
  let s := s.parens c
  if s.depth == 0 && (c == ';' || c == '\x7b' || c == '\x7d') then
    match s.initialiserLength? c ahead with
    | some n => (s.push origin c, .verbatim n)
    | none => (if c == '\x7d' then s.closeBrace origin else (s.push origin c).flush, .code)
  else (s.push origin c, .code)

def chars (s : Cutting) (origin : Nat) (mode : LineMode) : List Char → Cutting
  | [] =>
    match mode with
    | .commentFront | .comment => { s with inComment := true }
    | _ => s
  | c :: cs =>
    match mode with
    | .code =>
      if isQuote c then chars (s.push origin c) origin (.literal c) cs
      else if c == '/' && cs.head? == some '/' then s
      else if c == '/' && cs.head? == some '*' then chars s origin .commentFront cs
      else
        let (s, mode) := s.code origin c cs
        chars s origin mode cs
    | .literal q =>
      let mode := if c == '\\' then LineMode.escaped q else if c == q then .code else .literal q
      chars (s.push origin c) origin mode cs
    | .escaped q => chars (s.push origin c) origin (.literal q) cs
    | .commentFront => chars s origin .comment cs
    | .comment =>
      if c == '*' && cs.head? == some '/' then chars s origin .commentBack cs
      else chars s origin .comment cs
    | .commentBack => chars (s.push origin ' ') origin .code cs
    | .verbatim 0 => chars (s.push origin c) origin .code cs
    | .verbatim (n + 1) => chars (s.push origin c) origin (.verbatim n) cs

/-- The end of a line ends the piece unless parentheses are open. -/
def endLine (s : Cutting) : Cutting :=
  if s.depth == 0 then s.flush else { s with buffer := s.buffer ++ [' '] }

def afterComment? : List Char → Option (List Char)
  | '*' :: '/' :: cs => some cs
  | _ :: cs => afterComment? cs
  | [] => none

/-- Whether a line is kept whole: it begins with `#`, and no piece has begun. -/
def isDirective (s : Cutting) (text : List Char) : Bool :=
  allBlank s.buffer && (trim text).head? == some '#'

/-- A line that is kept whole, without a comment at its end. -/
def directive (s : Cutting) (text : List Char) (origin : Nat) : Cutting :=
  match trim (cutLineComment (segments text)) with
  | [] => s
  | kept => { s with done := s.done ++ [⟨kept, origin⟩] }

/-- What is left of a line after a comment that began before it; none if it does not end here. -/
def uncommented? (s : Cutting) (text : List Char) : Option (List Char) :=
  if s.inComment then afterComment? text else some text

def line (s : Cutting) (l : List Char × Nat) : Cutting :=
  match s.uncommented? l.1 with
  | none => s
  | some rest =>
    let s := { s with inComment := false }
    if s.isDirective l.1 then s.directive l.1 l.2
    else (s.chars l.2 .code rest).endLine

end Cutting

def splitFragments (lines : List (List Char × Nat)) : List Fragment :=
  (lines.foldl Cutting.line {}).flush.done

/-- A comment behind a directive stays. -/
theorem splitFragments_directive : (splitFragments [("#define N 5 /* five */".toList, 0)]).map Fragment.text =
    ["#define N 5 /* five */".toList] :=
  rfl

end AlgoLang.CSource
