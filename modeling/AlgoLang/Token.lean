/-
# The words and signs of the algorithmic language

Keywords are recognised without regard to case and keep the spelling they were written with.  The value of a
string or character literal is what it stands for; the value of any other token is its own text.
-/
import AlgoLang.Source
import AlgoLang.Text.LetterCase
import AlgoLang.Text.Quoted

namespace AlgoLang

inductive Keyword where
  | algorithm | begin_ | end_ | const_ | var | type_ | function | procedure | return_
  | integer | real | boolean | char | string | array | of_ | structure_
  | if_ | then_ | else_ | switch | case_ | default_ | for_ | to_ | step | do_ | while_
  | or_ | and_ | not_ | div | mod | scan | print | true_ | false_
  deriving DecidableEq

namespace Keyword

def all : List Keyword :=
  [algorithm, begin_, end_, const_, var, type_, function, procedure, return_,
   integer, real, boolean, char, string, array, of_, structure_,
   if_, then_, else_, switch, case_, default_, for_, to_, step, do_, while_,
   or_, and_, not_, div, mod, scan, print, true_, false_]

def spelling : Keyword → String
  | algorithm => "algorithm" | begin_ => "begin" | end_ => "end" | const_ => "const"
  | var => "var" | type_ => "type" | function => "function" | procedure => "procedure"
  | return_ => "return" | integer => "integer" | real => "real" | boolean => "boolean"
  | char => "char" | string => "string" | array => "array" | of_ => "of"
  | structure_ => "structure" | if_ => "if" | then_ => "then" | else_ => "else"
  | switch => "switch" | case_ => "case" | default_ => "default" | for_ => "for"
  | to_ => "to" | step => "step" | do_ => "do" | while_ => "while" | or_ => "or"
  | and_ => "and" | not_ => "not" | div => "div" | mod => "mod" | scan => "scan"
  | print => "print" | true_ => "true" | false_ => "false"

def ofName? (name : String) : Option Keyword :=
  let small := Text.lower name
  all.find? fun k => k.spelling == small

end Keyword

inductive Mark where
  | assign | plus | minus | times | slash | power
  | equal | notEqual | less | greater | lessEqual | greaterEqual
  | semicolon | comma | colon | dot | lparen | rparen | lbracket | rbracket
  deriving DecidableEq

def Mark.name : Mark → String
  | assign => "ASSIGN" | plus => "PLUS" | minus => "MINUS" | times => "MULTIPLY"
  | slash => "DIVIDE" | power => "POWER" | equal => "EQUAL" | notEqual => "NOT_EQUAL"
  | less => "LESS" | greater => "GREATER" | lessEqual => "LESS_EQUAL"
  | greaterEqual => "GREATER_EQUAL" | semicolon => "SEMICOLON" | comma => "COMMA"
  | colon => "COLON" | dot => "DOT" | lparen => "LPAREN" | rparen => "RPAREN"
  | lbracket => "LBRACKET" | rbracket => "RBRACKET"

/-- The mark that a single character is, whatever follows it.  The upward arrow is another spelling
of the power sign. -/
def Mark.ofChar? (c : Char) : Option Mark :=
  match c with
  | '+' => some plus | '-' => some minus | '*' => some times | '/' => some slash
  | '^' => some power | '↑' => some power | '=' => some equal | ';' => some semicolon
  | ',' => some comma | ':' => some colon | '.' => some dot | '(' => some lparen
  | ')' => some rparen | '[' => some lbracket | ']' => some rbracket
  | _ => none

inductive TokenKind where
  | keyword (k : Keyword)
  | mark (m : Mark)
  | identifier
  | integer
  | real
  | string
  | char
  | eof
  deriving DecidableEq

def TokenKind.name : TokenKind → String
  | keyword k => Text.upper k.spelling
  | mark m => m.name
  | identifier => "IDENTIFIER"
  | integer => "INTEGER_LITERAL"
  | real => "REAL_LITERAL"
  | string => "STRING_LITERAL"
  | char => "CHAR_LITERAL"
  | eof => "EOF"

structure Token where
  kind : TokenKind
  value : String
  start : Location
  length : Nat
  deriving DecidableEq

namespace Token

/-- Just past the token, on the line where it starts. -/
def stop (t : Token) : Location :=
  { t.start with column := t.start.column + t.length, offset := t.start.offset + t.length }

/-- The token as an error message names it: its value, or its kind if the value is empty. -/
def describe (t : Token) : String :=
  if t.value.isEmpty then t.kind.name else t.value

def through (first last : Token) : Span :=
  ⟨first.start, last.stop⟩

def span (t : Token) : Span :=
  t.through t

def listing (t : Token) : String :=
  let value := Text.quoted t.value
  s!"{t.start.line}:{t.start.column}\t{t.kind.name}\t{value}"

def brief (t : Token) : String :=
  let value := Text.quoted t.value
  s!"Token({t.kind.name}, {value}, {t.start.line}:{t.start.column})"

end Token

end AlgoLang
