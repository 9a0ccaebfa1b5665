/-
# Data as JSON text

A number is kept as its text, so that whole numbers and decimals come out as they were chosen.
Objects keep the order of their fields.  Text is written in one line, or with one item per line; an
empty list or object takes no lines of its own.
-/
import AlgoLang.Text.Quoted

namespace AlgoLang

inductive Json where
  | null
  | bool (b : Bool)
  | number (text : String)
  | string (s : String)
  | array (items : List Json)
  | object (fields : List (String × Json))

namespace Json

def integer (n : Int) : Json :=
  .number (toString n)

def ofOption {α : Type} (f : α → Json) : Option α → Json
  | some a => f a
  | none => .null

/-- One character inside quotes: quotes, backslashes and control characters are escaped. -/
def escapeChar (c : Char) : List Char :=
  match c with
  | '"' => ['\\', '"']
  | '\\' => ['\\', '\\']
  | '\n' => ['\\', 'n']
  | '\r' => ['\\', 'r']
  | '\t' => ['\\', 't']
  | '\x08' => ['\\', 'b']
  | '\x0c' => ['\\', 'f']
  | _ => if c.toNat < 0x20 then '\\' :: 'u' :: Text.hexDigits 4 c.toNat else [c]

def quote (s : String) : String :=
  String.ofList ('"' :: s.toList.flatMap escapeChar ++ ['"'])

/-- The start of a line at that depth; nothing where all is written in one line. -/
def lineStart (indent : Option Nat) (depth : Nat) : String :=
  match indent with
  | none => ""
  | some width => String.ofList ('\n' :: List.replicate (width * depth) ' ')

def separator (indent : Option Nat) (depth : Nat) : String :=
  match indent with
  | none => ", "
  | some _ => "," ++ lineStart indent depth

/-- Items between brackets; `depth` is that of the brackets. -/
def enclose (indent : Option Nat) (depth : Nat) (opening closing : String) (items : List String) : String :=
  if items.isEmpty then opening ++ closing
  else opening ++ lineStart indent (depth + 1) ++ (separator indent (depth + 1)).intercalate items ++
    lineStart indent depth ++ closing

mutual

/-- The value as text; `indent` is the number of spaces per level if it takes several lines. -/
def render (indent : Option Nat) (depth : Nat) : Json → String
  | null => "null"
  | bool b => if b then "true" else "false"
  | number text => text
  | string s => quote s
  | array items => enclose indent depth "[" "]" (renderEach indent (depth + 1) items)
  | object fields => enclose indent depth "\x7b" "\x7d" (renderFields indent (depth + 1) fields)

def renderEach (indent : Option Nat) (depth : Nat) : List Json → List String
  | [] => []
  | j :: js => render indent depth j :: renderEach indent depth js

def renderFields (indent : Option Nat) (depth : Nat) : List (String × Json) → List String
  | [] => []
  | (name, j) :: fields => (quote name ++ ": " ++ render indent depth j) :: renderFields indent depth fields

end

def text (j : Json) (indent : Option Nat := none) : String :=
  render indent 0 j

end Json

end AlgoLang
