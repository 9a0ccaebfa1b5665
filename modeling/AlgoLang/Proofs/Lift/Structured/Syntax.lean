/-
# Structured programs of C

A structured program of C is one routine `main` that declares whole numbers and then has assignments,
branches and loops in braces, one line for each statement, head and brace.  Statements without a counterpart may
stand between them.  `CBlock.lines` says how a block is written in C, and `CBlock.image` which statements of the
algorithmic language it stands for.
-/
import AlgoLang.Lift.Program
import AlgoLang.Proofs.Lift.CExpr
import AlgoLang.Stmt

namespace AlgoLang.Lift

open Text CSource

/-! ## Words and expressions -/

/-- The reserved words of C, with those for truth values. -/
def cKeywords : List String :=
  ["auto", "bool", "break", "case", "char", "const", "continue", "default", "do", "double", "else", "enum",
   "extern", "false", "float", "for", "goto", "if", "inline", "int", "long", "register", "restrict", "return",
   "short", "signed", "sizeof", "static", "struct", "switch", "true", "typedef", "union", "unsigned", "void",
   "volatile", "while"]

/-- A name of C that begins with a letter and has ASCII characters only. -/
structure CName where
  text : String
  isWord : isWordPiece text.toList = true
  free : text ∉ cKeywords

/-- No words among tokens are reserved but those for truth values. -/
def IsFreeOfKeywords (ts : List CToken) : Prop :=
  ∀ w ∈ cKeywords, .word w ∈ ts → w = "true" ∨ w = "false"

instance (ts : List CToken) : Decidable (IsFreeOfKeywords ts) :=
  inferInstanceAs (Decidable (∀ w ∈ cKeywords, .word w ∈ ts → w = "true" ∨ w = "false"))

/-- An expression as it stands in a line. -/
structure CFormula where
  tokens : List CToken
  tree : Expr
  text : List Char
  derives : IsCExpr .disjunction tokens tree
  spells : Spells tokens text
  free : IsFreeOfKeywords tokens

/-- A condition behind its keyword. -/
def CFormula.heading (keyword : String) (c : CFormula) : List Char :=
  keyword.toList ++ " (".toList ++ c.text ++ [')']

/-! ## Statements without counterpart -/

/-- The depth of parentheses behind a text; none if one of them closes nothing. -/
def nestFrom (depth : Nat) : List Char → Option Nat
  | [] => some depth
  | c :: cs =>
    if c = '(' then nestFrom (depth + 1) cs
    else if c = ')' then if depth = 0 then none else nestFrom (depth - 1) cs
    else nestFrom depth cs

/-- A character that means nothing to the one who cuts lines into pieces. -/
def isInert (c : Char) : Bool :=
  !isQuote c && c != ';' && c != '\x7b' && c != '\x7d' && c != '/' && c != '#' && c != '\n'

/-- No control statement. -/
def IsUncontrolled (cs : List Char) : Prop :=
  caseLabel? cs = none ∧ defaultLabel? cs = none ∧
    (∀ k ∈ ["if", "while", "for", "switch"], startsWithHeader k cs = false) ∧
    ∀ k ∈ ["else", "do"], startsWithWord k cs = false

/-- A statement that has no counterpart, as long as it stands in no switch. -/
def HasNoCounterpart (cs : List Char) : Prop :=
  cs = "break".toList ∨ cs = "continue".toList ∨ isReturn cs = false ∧ typed? [] cs = none ∧ actionLines cs = none

/-- A simple statement that has no counterpart, without its semicolon. -/
structure CRemark where
  text : List Char
  inert : text.all isInert = true
  nested : nestFrom 0 text = some 0
  ne_nil : text ≠ []
  trimmed : trim text = text
  uncontrolled : IsUncontrolled (text ++ [';'])
  noCounterpart : HasNoCounterpart text

/-! ## Lines -/

/-- The lines of structured programs. -/
inductive CLine where
  | main
  | declare (v : CName)
  | assign (target : CName) (value : CFormula)
  | remark (r : CRemark)
  | branch (condition : CFormula)
  | otherwise
  | loop (condition : CFormula)
  | repeat
  | close
  | closeRepeat (condition : CFormula)
  | return (value : CFormula)

def CLine.text : CLine → List Char
  | main => "int main() ".toList ++ ['\x7b']
  | declare v => "int ".toList ++ v.text.toList ++ [';']
  | assign v e => v.text.toList ++ " = ".toList ++ e.text ++ [';']
  | remark r => r.text ++ [';']
  | branch c => c.heading "if" ++ [' '] ++ ['\x7b']
  | otherwise => "else ".toList ++ ['\x7b']
  | loop c => c.heading "while" ++ [' '] ++ ['\x7b']
  | .repeat => "do ".toList ++ ['\x7b']
  | close => ['\x7d']
  | closeRepeat c => ['\x7d', ' '] ++ (c.heading "while" ++ [';'])
  | .return e => "return ".toList ++ e.text ++ [';']

/-- The lines of a text as far as they say something, without the blanks around them. -/
def writtenLines (code : String) : List (List Char) :=
  ((splitAt '\n' code.toList).map trim).filter (!·.isEmpty)

/-! ## Blocks -/

/-- A list of statements, in the order of the source. -/
inductive CBlock where
  | done
  | assign (target : CName) (value : CFormula) (rest : CBlock)
  | remark (r : CRemark) (rest : CBlock)
  | branch (condition : CFormula) (yes rest : CBlock)
  | choice (condition : CFormula) (yes no rest : CBlock)
  | loop (condition : CFormula) (body rest : CBlock)
  | repeat (body : CBlock) (condition : CFormula) (rest : CBlock)

namespace CBlock

def lines : CBlock → List CLine
  | done => []
  | assign v e rest => .assign v e :: rest.lines
  | remark r rest => .remark r :: rest.lines
  | branch c yes rest => .branch c :: yes.lines ++ .close :: rest.lines
  | choice c yes no rest => .branch c :: yes.lines ++ .close :: .otherwise :: no.lines ++ .close :: rest.lines
  | loop c body rest => .loop c :: body.lines ++ .close :: rest.lines
  | .repeat body c rest => .repeat :: body.lines ++ .closeRepeat c :: rest.lines

/-- The statements that a block stands for; those without counterpart are left out. -/
def image : CBlock → List Stmt
  | done => []
  | assign v e rest => .assign none (.name none (safeName v.text)) (regrouped e.tree) :: rest.image
  | remark _ rest => rest.image
  | branch c yes rest => .ifThen none (regrouped c.tree) yes.image none :: rest.image
  | choice c yes no rest => .ifThen none (regrouped c.tree) yes.image (some no.image) :: rest.image
  | loop c body rest => .while none (regrouped c.tree) body.image :: rest.image
  | .repeat body c rest => .doWhile none body.image (regrouped c.tree) :: rest.image

def remarks : CBlock → List CRemark
  | done => []
  | assign _ _ rest => rest.remarks
  | remark r rest => r :: rest.remarks
  | branch _ yes rest => yes.remarks ++ rest.remarks
  | choice _ yes no rest => yes.remarks ++ no.remarks ++ rest.remarks
  | loop _ body rest => body.remarks ++ rest.remarks
  | .repeat body _ rest => body.remarks ++ rest.remarks

def formulas : CBlock → List CFormula
  | done => []
  | assign _ e rest => e :: rest.formulas
  | remark _ rest => rest.formulas
  | branch c yes rest => c :: yes.formulas ++ rest.formulas
  | choice c yes no rest => c :: yes.formulas ++ no.formulas ++ rest.formulas
  | loop c body rest => c :: body.formulas ++ rest.formulas
  | .repeat body c rest => body.formulas ++ c :: rest.formulas

end CBlock

/-! ## Programs -/

/-- A structured program; what it returns in the end has no counterpart and says nothing. -/
structure CProgram where
  vars : List CName
  body : CBlock
  result : Option CFormula := none

namespace CProgram

def lines (p : CProgram) : List CLine :=
  .main :: p.vars.map .declare ++ p.body.lines ++ p.result.toList.map .return ++ [.close]

/-- A text of C in which the program is written, indented in whatever way. -/
def IsWrittenAs (p : CProgram) (code : String) : Prop :=
  writtenLines code = p.lines.map CLine.text

instance (p : CProgram) (code : String) : Decidable (p.IsWrittenAs code) :=
  inferInstanceAs (Decidable (_ = _))

/-- No number has more digits than can be read. -/
def HasShortNumbers (p : CProgram) : Prop :=
  ∀ e ∈ p.body.formulas, ∀ ds, .number ds ∈ e.tokens → ds.length ≤ maxDigits

end CProgram

end AlgoLang.Lift
