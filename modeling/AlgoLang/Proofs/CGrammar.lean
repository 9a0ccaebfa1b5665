/-
# How C reads an expression

A text is cut into lexemes from left to right, each the longest that the characters ahead can form.  Every
lexeme then becomes a terminal, and the rules derive a list of terminals together with its tree.

    expression  ::= assignment (',' assignment)*
    assignment  ::= conditional | unary ('=' | '*=' | …) assignment
    conditional ::= disjunction ['?' expression ':' conditional]
    disjunction … product: the operators of two operands, ten levels that group to the left
    cast        ::= unary | '(' type ')' cast
    unary       ::= suffixed | ('++' | '--') unary | ('&' | '*' | '+' | '-' | '~' | '!') cast
                  | 'sizeof' unary | 'sizeof' '(' type ')'
    suffixed    ::= primary | suffixed '[' expression ']' | suffixed '(' arguments ')'
                  | suffixed ('.' | '->') name | suffixed ('++' | '--')
    primary     ::= name | constant | '(' expression ')'

Names of types are made of keywords.  Compound literals are left out, and wide literals, numeric escapes,
suffixes of numbers and hexadecimal fractions become no terminal.
-/
import AlgoLang.Proofs.Number.Rounding

namespace AlgoLang.CGrammar

open Binary64

/-! ## Lexemes -/

def punctuators : List String :=
  ["[", "]", "(", ")", "\x7b", "\x7d", ".", "->", "++", "--", "&", "*", "+", "-", "~", "!", "/", "%",
   "<<", ">>", "<", ">", "<=", ">=", "==", "!=", "^", "|", "&&", "||", "?", ":", ";", "...", "=",
   "*=", "/=", "%=", "+=", "-=", "<<=", ">>=", "&=", "^=", "|=", ",", "#", "##", "<:", ":>", "<%",
   "%>", "%:", "%:%:"]

def isBlank (c : Char) : Bool :=
  c == ' ' || c == '\t' || c == '\n' || c == '\x0b' || c == '\x0c' || c == '\x0d'

/-- A character that a word may go on with. -/
def isWordChar (c : Char) : Bool :=
  c.isAlphanum || c == '_'

/-- What is read as one number, whether or not it is one: `1e+3` is, and so is `0x1F.5.a`. -/
inductive IsNumber : List Char → Prop
  | digit {c : Char} : c.isDigit = true → IsNumber [c]
  | point {c : Char} : c.isDigit = true → IsNumber ['.', c]
  | more {w : List Char} {c : Char} : IsNumber w → isWordChar c = true ∨ c = '.' → IsNumber (w ++ [c])
  | power {w : List Char} {e c : Char} : IsNumber w → e ∈ ['e', 'E', 'p', 'P'] → c ∈ ['+', '-'] → IsNumber (w ++ [e, c])

/-- The inside of a literal: a backslash takes the next character with it, and the quote and the end
of the line do not stand alone. -/
inductive IsBody (quote : Char) : List Char → Prop
  | done : IsBody quote []
  | plain {c : Char} {cs : List Char} : c ≠ quote → c ≠ '\\' → c ≠ '\n' → IsBody quote cs → IsBody quote (c :: cs)
  | escape {c : Char} {cs : List Char} : c ≠ '\n' → IsBody quote cs → IsBody quote ('\\' :: c :: cs)

/-- What a text is cut into. -/
inductive Lexeme where
  | word (text : List Char)
  | number (text : List Char)
  | char (body : List Char)
  | string (body : List Char)
  | wide (text : List Char)
  | punctuator (text : String)
  | other (c : Char)

/-- The characters that form a lexeme. -/
inductive IsLexeme : List Char → Lexeme → Prop
  | word {c : Char} {cs : List Char} : isWordChar c = true → c.isDigit = false →
      cs.all isWordChar = true → IsLexeme (c :: cs) (.word (c :: cs))
  | number {w : List Char} : IsNumber w → IsLexeme w (.number w)
  | char {b : List Char} : IsBody '\'' b → b ≠ [] → IsLexeme ('\'' :: (b ++ ['\''])) (.char b)
  | string {b : List Char} : IsBody '"' b → IsLexeme ('"' :: (b ++ ['"'])) (.string b)
  | wideChar {b : List Char} : IsBody '\'' b → b ≠ [] →
      IsLexeme ('L' :: '\'' :: (b ++ ['\''])) (.wide ('\'' :: (b ++ ['\''])))
  | wideString {b : List Char} : IsBody '"' b →
      IsLexeme ('L' :: '"' :: (b ++ ['"'])) (.wide ('"' :: (b ++ ['"'])))
  | punctuator {p : String} : p ∈ punctuators → IsLexeme p.toList (.punctuator p)
  | other {c : Char} : isBlank c = false → isWordChar c = false → (∀ p ∈ punctuators, p.toList ≠ [c]) →
      IsLexeme [c] (.other c)

/-- One blank or one comment, with what stands behind it. -/
inductive IsGap : List Char → List Char → Prop
  | blank {c : Char} {rest : List Char} : isBlank c = true → IsGap [c] rest
  | line {body rest : List Char} : '\n' ∉ body → (∀ c ∈ rest.head?, c = '\n') → IsGap ('/' :: '/' :: body) rest
  | block {body rest : List Char} : ¬ ['*', '/'] <:+: body ++ ['*'] → IsGap ('/' :: '*' :: (body ++ ['*', '/'])) rest

/-- A comment begins here. -/
def opensComment (cs : List Char) : Prop :=
  ['/', '/'] <+: cs ∨ ['/', '*'] <+: cs

/-! ## Terminals -/

/-- The reserved words, with the one that `stdbool.h` adds. -/
def keywords : List String :=
  ["auto", "break", "case", "char", "const", "continue", "default", "do", "double", "else", "enum",
   "extern", "float", "for", "goto", "if", "inline", "int", "long", "register", "restrict", "return",
   "short", "signed", "sizeof", "static", "struct", "switch", "typedef", "union", "unsigned", "void",
   "volatile", "while", "_Bool", "_Complex", "_Imaginary", "bool"]

inductive Constant where
  | truth (value : Bool)
  | integer (value : Nat)
  | floating (value : Binary64)
  | char (value : String)
  | string (value : String)
  deriving DecidableEq

/-- What the rules of the grammar speak about. -/
inductive Terminal where
  | keyword (text : String)
  | name (text : String)
  | constant (value : Constant)
  | sign (text : String)
  deriving DecidableEq

def digitOf (c : Char) : Nat :=
  if c.isDigit then c.toNat - 48 else if c.isUpper then c.toNat - 55 else c.toNat - 87

def valueIn (base : Nat) (ds : List Char) : Nat :=
  ds.foldl (fun n c => base * n + digitOf c) 0

def digits? (ds : List Char) : Option Nat :=
  if ds ≠ [] ∧ ds.all Char.isDigit then some (valueIn 10 ds) else none

/-- A whole number: decimal, octal behind a zero, or hexadecimal behind `0x`. -/
def whole? : List Char → Option Nat
  | '0' :: 'x' :: ds | '0' :: 'X' :: ds =>
    if ds ≠ [] ∧ ds.all fun c => c.isDigit || ('a' ≤ c && c ≤ 'f') || ('A' ≤ c && c ≤ 'F') then
      some (valueIn 16 ds)
    else none
  | '0' :: ds => if ds.all fun c => '0' ≤ c && c ≤ '7' then some (valueIn 8 ds) else none
  | ds => digits? ds

/-- The exponent of a decimal fraction: digits with a sign or without. -/
def power? : List Char → Option Int
  | '-' :: ds => (digits? ds).map fun n : Nat => -(n : Int)
  | '+' :: ds => (digits? ds).map fun n : Nat => (n : Int)
  | ds => (digits? ds).map fun n : Nat => (n : Int)

/-- The exact value of a decimal fraction: digits with a point or an exponent or both. -/
def fraction? (w : List Char) : Option ℚ :=
  let mantissa := w.takeWhile fun c => c != 'e' && c != 'E'
  let scale := (w.dropWhile fun c => c != 'e' && c != 'E').drop 1
  let before := mantissa.takeWhile (· != '.')
  let behind := (mantissa.dropWhile (· != '.')).drop 1
  let power := if mantissa.length < w.length then power? scale else some 0
  if before.length < w.length then do
    return (← digits? (before ++ behind)) * 10 ^ ((← power) - behind.length)
  else none

/-- The characters that stand for others behind a backslash. -/
def escapes : List (Char × Char) :=
  [('\'', '\''), ('"', '"'), ('?', '?'), ('\\', '\\'), ('a', '\x07'), ('b', '\x08'), ('f', '\x0c'),
   ('n', '\n'), ('r', '\x0d'), ('t', '\t'), ('v', '\x0b')]

/-- The text that the inside of a literal stands for. -/
def unescape? : List Char → Option (List Char)
  | '\\' :: c :: cs => do return (← escapes.lookup c) :: (← unescape? cs)
  | c :: cs => if c = '\\' then none else do return c :: (← unescape? cs)
  | [] => some []

def Terminal.ofWord (w : String) : Terminal :=
  if w ∈ keywords then .keyword w
  else if w = "true" then .constant (.truth true)
  else if w = "false" then .constant (.truth false)
  else .name w

/-- The terminal that a lexeme becomes. -/
inductive Means : Lexeme → Terminal → Prop
  | word {w : List Char} : Means (.word w) (.ofWord (String.ofList w))
  | integer {w : List Char} {n : Nat} : whole? w = some n → Means (.number w) (.constant (.integer n))
  | floating {w : List Char} {q : ℚ} {x : Binary64} : whole? w = none → fraction? w = some q →
      RoundsTo q x → Means (.number w) (.constant (.floating x))
  | char {b : List Char} {c : Char} : unescape? b = some [c] → Means (.char b) (.constant (.char (String.singleton c)))
  | string {b cs : List Char} : unescape? b = some cs → Means (.string b) (.constant (.string (String.ofList cs)))
  | sign {p : String} : Means (.punctuator p) (.sign p)

/-- A text read as terminals.  Of the lexemes that begin where the text goes on, the longest is
taken. -/
inductive Lexes : List Char → List Terminal → Prop
  | stop : Lexes [] []
  | gap {g rest : List Char} {ts : List Terminal} : IsGap g rest → Lexes rest ts → Lexes (g ++ rest) ts
  | lexeme {w rest : List Char} {l : Lexeme} {t : Terminal} {ts : List Terminal} :
      IsLexeme w l → ¬ opensComment (w ++ rest) →
      (∀ w' l', IsLexeme w' l' → w' <+: w ++ rest → w'.length ≤ w.length) → Means l t →
      Lexes rest ts → Lexes (w ++ rest) (t :: ts)

/-! ## The grammar -/

/-- What an expression means to C, without the parentheses around its parts. -/
inductive Tree where
  | name (text : String)
  | constant (value : Constant)
  | binary (op : String) (left right : Tree)
  | assign (op : String) (target value : Tree)
  | conditional (test yes no : Tree)
  | cast (type : List Terminal) (operand : Tree)
  | unary (op : String) (operand : Tree)
  | stepBefore (op : String) (operand : Tree)
  | stepBehind (op : String) (operand : Tree)
  | size (operand : Tree)
  | sizeOfType (type : List Terminal)
  | index (array position : Tree)
  | call (function : Tree) (arguments : List Tree)
  | member (op : String) (object : Tree) (field : String)

/-- The levels of expressions, loosest first. -/
inductive Level where
  | comma
  | assignment
  | conditional
  | disjunction
  | conjunction
  | bitOr
  | bitXor
  | bitAnd
  | equality
  | relation
  | shift
  | sum
  | product
  | cast
  | unary
  | suffixed
  | primary
  deriving DecidableEq

def Level.tighter : Level → Option Level
  | comma => some assignment
  | assignment => some conditional
  | conditional => some disjunction
  | disjunction => some conjunction
  | conjunction => some bitOr
  | bitOr => some bitXor
  | bitXor => some bitAnd
  | bitAnd => some equality
  | equality => some relation
  | relation => some shift
  | shift => some sum
  | sum => some product
  | product => some cast
  | cast => some unary
  | unary => some suffixed
  | suffixed => some primary
  | primary => none

/-- The operators of a level that groups to the left. -/
def Level.operators : Level → List String
  | comma => [","]
  | disjunction => ["||"]
  | conjunction => ["&&"]
  | bitOr => ["|"]
  | bitXor => ["^"]
  | bitAnd => ["&"]
  | equality => ["==", "!="]
  | relation => ["<", ">", "<=", ">="]
  | shift => ["<<", ">>"]
  | sum => ["+", "-"]
  | product => ["*", "/", "%"]
  | _ => []

def assignments : List String :=
  ["=", "*=", "/=", "%=", "+=", "-=", "<<=", ">>=", "&=", "^=", "|="]

def signs : List String :=
  ["&", "*", "+", "-", "~", "!"]

def steps : List String :=
  ["++", "--"]

/-- The words that the name of a type is made of. -/
def typeWords : List String :=
  ["void", "char", "short", "int", "long", "float", "double", "signed", "unsigned", "_Bool", "bool",
   "_Complex", "const", "volatile"]

/-- The name of a type. -/
inductive IsTypeName : List Terminal → Prop
  | words {w : String} {ws : List String} {stars : Nat} : w ∈ typeWords → (∀ v ∈ ws, v ∈ typeWords) →
      IsTypeName (.keyword w :: (ws.map .keyword ++ List.replicate stars (.sign "*")))
  | tagged {w tag : String} {stars : Nat} : w ∈ ["struct", "union", "enum"] →
      IsTypeName (.keyword w :: .name tag :: List.replicate stars (.sign "*"))

mutual

/-- An expression whose operators are of the given level or tighter. -/
inductive Derives : Level → List Terminal → Tree → Prop
  | tighten {k k' : Level} {ts : List Terminal} {T : Tree} :
      k.tighter = some k' → Derives k' ts T → Derives k ts T
  | binary {k k' : Level} {p : String} {xs ys : List Terminal} {A B : Tree} :
      k.tighter = some k' → p ∈ k.operators → Derives k xs A → Derives k' ys B →
      Derives k (xs ++ .sign p :: ys) (.binary p A B)
  | assign {p : String} {xs ys : List Terminal} {A B : Tree} :
      p ∈ assignments → Derives .unary xs A → Derives .assignment ys B →
      Derives .assignment (xs ++ .sign p :: ys) (.assign p A B)
  | conditional {xs ys zs : List Terminal} {C A B : Tree} :
      Derives .disjunction xs C → Derives .comma ys A → Derives .conditional zs B →
      Derives .conditional (xs ++ .sign "?" :: (ys ++ .sign ":" :: zs)) (.conditional C A B)
  | cast {type ts : List Terminal} {T : Tree} : IsTypeName type → Derives .cast ts T →
      Derives .cast (.sign "(" :: (type ++ .sign ")" :: ts)) (.cast type T)
  | sign {p : String} {ts : List Terminal} {T : Tree} : p ∈ signs → Derives .cast ts T →
      Derives .unary (.sign p :: ts) (.unary p T)
  | stepBefore {p : String} {ts : List Terminal} {T : Tree} : p ∈ steps → Derives .unary ts T →
      Derives .unary (.sign p :: ts) (.stepBefore p T)
  | size {ts : List Terminal} {T : Tree} : Derives .unary ts T → Derives .unary (.keyword "sizeof" :: ts) (.size T)
  | sizeOfType {type : List Terminal} : IsTypeName type →
      Derives .unary (.keyword "sizeof" :: .sign "(" :: (type ++ [.sign ")"])) (.sizeOfType type)
  | index {xs ys : List Terminal} {A I : Tree} : Derives .suffixed xs A → Derives .comma ys I →
      Derives .suffixed (xs ++ .sign "[" :: (ys ++ [.sign "]"])) (.index A I)
  | call {xs ys : List Terminal} {F : Tree} {args : List Tree} : Derives .suffixed xs F → DerivesArguments ys args →
      Derives .suffixed (xs ++ .sign "(" :: (ys ++ [.sign ")"])) (.call F args)
  | member {p f : String} {xs : List Terminal} {A : Tree} : p ∈ [".", "->"] → Derives .suffixed xs A →
      Derives .suffixed (xs ++ [.sign p, .name f]) (.member p A f)
  | stepBehind {p : String} {xs : List Terminal} {A : Tree} : p ∈ steps → Derives .suffixed xs A →
      Derives .suffixed (xs ++ [.sign p]) (.stepBehind p A)
  | paren {ts : List Terminal} {T : Tree} : Derives .comma ts T → Derives .primary (.sign "(" :: (ts ++ [.sign ")"])) T
  | name {w : String} : Derives .primary [.name w] (.name w)
  | constant {c : Constant} : Derives .primary [.constant c] (.constant c)

inductive DerivesArguments : List Terminal → List Tree → Prop
  | none : DerivesArguments [] []
  | one {ts : List Terminal} {T : Tree} : Derives .assignment ts T → DerivesArguments ts [T]
  | more {xs ys : List Terminal} {T U : Tree} {Ts : List Tree} :
      Derives .assignment xs T → DerivesArguments ys (U :: Ts) → DerivesArguments (xs ++ .sign "," :: ys) (T :: U :: Ts)

end

/-- C reads the text as an expression with this tree. -/
def Reads (text : String) (T : Tree) : Prop :=
  ∃ ts, Lexes text.toList ts ∧ Derives .comma ts T

end AlgoLang.CGrammar
