/-
# Expressions of C, and the trees they stand for

Expressions of C made of names, whole numbers, truth values, parentheses, calls, indices, the signs `-` and
`!` and the operators `* / % + - < > <= >= == != && ||`.  Every rule derives a list of tokens together with the
tree that C reads, with names and operators as the algorithmic language spells them.  C has two levels where
that language has one: comparisons bind tighter than `==` and `!=`.  What is called is a name, and what is
indexed is a name, a call or something indexed.
-/
import AlgoLang.Expr
import AlgoLang.Lift.Expr
import AlgoLang.Token.Scan

namespace AlgoLang.Lift

open Text

/-! ## Tokens -/

/-- The operators and delimiters of C expressions. -/
inductive Sign where
  | lparen | rparen | lbracket | rbracket | comma
  | bang | minus | plus | times | slash | percent
  | less | greater | lessEqual | greaterEqual | equal | notEqual | and | or
  deriving DecidableEq

def Sign.text : Sign → String
  | lparen => "(" | rparen => ")" | lbracket => "[" | rbracket => "]" | comma => ","
  | bang => "!" | minus => "-" | plus => "+" | times => "*" | slash => "/" | percent => "%"
  | less => "<" | greater => ">" | lessEqual => "<=" | greaterEqual => ">=" | equal => "=="
  | notEqual => "!=" | and => "&&" | or => "||"

def Sign.lifted : Sign → String
  | bang => "NOT" | percent => "MOD" | equal => "=" | notEqual => "<>" | and => "AND" | or => "OR"
  | s => s.text

def Sign.kind : Sign → TokenKind
  | lparen => .mark .lparen | rparen => .mark .rparen | lbracket => .mark .lbracket
  | rbracket => .mark .rbracket | comma => .mark .comma | bang => .keyword .not_
  | minus => .mark .minus | plus => .mark .plus | times => .mark .times | slash => .mark .slash
  | percent => .keyword .mod | less => .mark .less | greater => .mark .greater
  | lessEqual => .mark .lessEqual | greaterEqual => .mark .greaterEqual | equal => .mark .equal
  | notEqual => .mark .notEqual | and => .keyword .and_ | or => .keyword .or_

/-- A token of a C expression. -/
inductive CToken where
  | word (text : String)
  | number (digits : String)
  | sign (s : Sign)
  deriving DecidableEq

namespace CToken

def text : CToken → List Char
  | word w => w.toList
  | number ds => ds.toList
  | sign s => s.text.toList

def lifted : CToken → List Char
  | word w => ((truthWord? w).getD (safeName w)).toList
  | number ds => ds.toList
  | sign s => s.lifted.toList

def kind : CToken → TokenKind
  | word w => if w = "true" then .keyword .true_ else if w = "false" then .keyword .false_ else .identifier
  | number _ => .integer
  | sign s => s.kind

end CToken

/-- A word: an ASCII letter, then letters, digits and underscores. -/
def isWordPiece : List Char → Bool
  | c :: cs => c.isAlpha && cs.all Token.isNameChar
  | [] => false

/-- The words that casts are made of. -/
def castWords : List String :=
  castTypes ++ castModifiers

/-- A name that C and the algorithmic language can both have. -/
def isName (w : String) : Bool :=
  isWordPiece w.toList && !castWords.contains w && (truthWord? w).isNone

/-! ## The grammar -/

/-- The levels of C expressions, loosest first. -/
inductive CLevel where
  | disjunction
  | conjunction
  | equality
  | relation
  | sum
  | product
  | sign
  | primary
  deriving DecidableEq

def CLevel.tighter : CLevel → Option CLevel
  | disjunction => some conjunction
  | conjunction => some equality
  | equality => some relation
  | relation => some sum
  | sum => some product
  | product => some sign
  | sign => some primary
  | primary => none

/-- The operators of a level, which all group to the left. -/
def CLevel.operators : CLevel → List (Sign × BinaryOp)
  | disjunction => [(.or, .or)]
  | conjunction => [(.and, .and)]
  | equality => [(.equal, .eq), (.notEqual, .ne)]
  | relation => [(.less, .lt), (.greater, .gt), (.lessEqual, .le), (.greaterEqual, .ge)]
  | sum => [(.plus, .add), (.minus, .sub)]
  | product => [(.times, .mul), (.slash, .div), (.percent, .mod)]
  | _ => []

def signsBefore : List (Sign × UnaryOp) :=
  [(.minus, .neg), (.bang, .not)]

/-- One more index; indices that follow each other directly are one access. -/
def indexed : Expr → Expr → Expr
  | .index _ array earlier, i => .index none array (earlier ++ [i])
  | e, i => .index none e [i]

mutual

/-- An expression whose operators are of the given level or tighter. -/
inductive IsCExpr : CLevel → List CToken → Expr → Prop
  | tighten {k k' : CLevel} {ts : List CToken} {e : Expr} :
      k.tighter = some k' → IsCExpr k' ts e → IsCExpr k ts e
  | binary {k k' : CLevel} {s : Sign} {op : BinaryOp} {xs ys : List CToken} {a b : Expr} :
      k.tighter = some k' → (s, op) ∈ k.operators → IsCExpr k xs a → IsCExpr k' ys b →
      IsCExpr k (xs ++ .sign s :: ys) (.binary none op a b)
  | sign {s : Sign} {op : UnaryOp} {ts : List CToken} {e : Expr} :
      (s, op) ∈ signsBefore → IsCExpr .sign ts e →
      IsCExpr .sign (.sign s :: ts) (.unary none op e)
  | paren {ts : List CToken} {e : Expr} : IsCExpr .disjunction ts e →
      IsCExpr .primary (.sign .lparen :: (ts ++ [.sign .rparen])) (.paren none e)
  | number {ds : String} : ds ≠ "" → ds.toList.all Char.isDigit = true →
      IsCExpr .primary [.number ds] (.integer none (decimalValue ds.toList))
  | yes : IsCExpr .primary [.word "true"] (.boolean none true)
  | no : IsCExpr .primary [.word "false"] (.boolean none false)
  | access {ts : List CToken} {e : Expr} : IsCAccess ts e → IsCExpr .primary ts e

/-- A name or a call with its indices. -/
inductive IsCAccess : List CToken → Expr → Prop
  | name {w : String} : isName w = true → IsCAccess [.word w] (.name none (safeName w))
  | call {w : String} {ts : List CToken} {args : List Expr} : isName w = true → w ≠ "pow" → IsCArguments ts args →
      IsCAccess (.word w :: .sign .lparen :: (ts ++ [.sign .rparen])) (.call none (safeName w) args)
  | index {ts us : List CToken} {a i : Expr} : IsCAccess ts a → IsCExpr .disjunction us i →
      IsCAccess (ts ++ .sign .lbracket :: (us ++ [.sign .rbracket])) (indexed a i)

inductive IsCArguments : List CToken → List Expr → Prop
  | none : IsCArguments [] []
  | some {ts : List CToken} {es : List Expr} : IsCExprs ts es → IsCArguments ts es

/-- One expression or more, with commas between them. -/
inductive IsCExprs : List CToken → List Expr → Prop
  | one {ts : List CToken} {e : Expr} : IsCExpr .disjunction ts e → IsCExprs ts [e]
  | more {ts us : List CToken} {e : Expr} {es : List Expr} :
      IsCExpr .disjunction ts e → IsCExprs us es → IsCExprs (ts ++ .sign .comma :: us) (e :: es)

end

/-! ## Texts -/

/-- The characters that must not stand right behind a sign: C or the algorithmic language would read
them together with it, as in `a--b` or, in the algorithmic language alone, `a<-b`. -/
def joinedTo : List Char → List Char
  | ['<'] => ['<', '=', '>', '-']
  | ['>'] => ['>', '=']
  | ['/'] => ['/', '*', '=']
  | ['-'] => ['-', '=', '>']
  | ['+'] => ['+', '=']
  | ['*'] | ['%'] | ['!'] | ['='] | ['<', '='] | ['>', '='] | ['=', '='] | ['!', '='] => ['=']
  | _ => []

/-- Whether a character right behind a token would be read together with it. -/
def joins (t : List Char) (c : Char) : Bool :=
  if t.all Token.isNameChar then isWordChar c else (joinedTo t).contains c

/-- A text does not go on with a character that would be read together with a token before it. -/
def Fits (t rest : List Char) : Prop :=
  ∀ c, rest.head? = some c → joins t c = false

/-- A text that consists of pieces.  Blanks may stand before, between and behind them, and must where
two of them would be read together. -/
inductive Laid (blank : Char → Bool) : List (List Char) → List Char → Prop
  | done {gap : List Char} : gap.all blank = true → Laid blank [] gap
  | piece {gap t rest : List Char} {ts : List (List Char)} : gap.all blank = true → Fits t rest →
      Laid blank ts rest → Laid blank (t :: ts) (gap ++ (t ++ rest))

/-- A text of C in which tokens are written. -/
def Spells (ts : List CToken) (cs : List Char) : Prop :=
  Laid isBlank (ts.map CToken.text) cs

/-! ## Groups of comparisons -/

/-- The comparisons that C groups tighter than `==` and `!=`. -/
def isOrdering : BinaryOp → Bool
  | .lt | .gt | .le | .ge => true
  | _ => false

def isEquality : BinaryOp → Bool
  | .eq | .ne => true
  | _ => false

/-- An operand that comes to stand before the first of several comparisons. -/
def graft (a : Expr) (op : BinaryOp) : Expr → Expr
  | .binary s o l r =>
    if isOrdering o then .binary none o (graft a op l) r else .binary none op a (.binary s o l r)
  | e => .binary none op a e

mutual

/-- The tree without the stretches of source. -/
def bare : Expr → Expr
  | .integer _ n => .integer none n
  | .real _ x => .real none x
  | .boolean _ b => .boolean none b
  | .char _ s => .char none s
  | .string _ s => .string none s
  | .name _ n => .name none n
  | .binary _ op l r => .binary none op (bare l) (bare r)
  | .unary _ op e => .unary none op (bare e)
  | .index _ a is => .index none (bare a) (bareEach is)
  | .field _ e f => .field none (bare e) f
  | .call _ n args => .call none n (bareEach args)
  | .paren _ e => .paren none (bare e)
  | .unknown _ => .unknown none
  | .missing => .missing

def bareEach : List Expr → List Expr
  | [] => []
  | e :: es => bare e :: bareEach es

end

mutual

/-- The bare tree, with all comparisons that stand beside each other grouped to the left. -/
def regrouped : Expr → Expr
  | .binary _ op l r =>
    if isEquality op then graft (regrouped l) op (regrouped r) else .binary none op (regrouped l) (regrouped r)
  | .unary _ op e => .unary none op (regrouped e)
  | .paren _ e => .paren none (regrouped e)
  | .index _ a is => .index none (regrouped a) (regroupedEach is)
  | .field _ e f => .field none (regrouped e) f
  | .call _ n args => .call none n (regroupedEach args)
  | e => bare e

def regroupedEach : List Expr → List Expr
  | [] => []
  | e :: es => regrouped e :: regroupedEach es

end

/-- Whether an expression is an ordering without parentheses around it. -/
def isOrderingExpr : Expr → Bool
  | .binary _ op _ _ => isOrdering op
  | _ => false

mutual

/-- No ordering without parentheses is the right operand of `==` or `!=`. -/
def isAligned : Expr → Bool
  | .binary _ op l r => !(isEquality op && isOrderingExpr r) && isAligned l && isAligned r
  | .unary _ _ e | .paren _ e | .field _ e _ => isAligned e
  | .index _ a is => isAligned a && isAlignedEach is
  | .call _ _ args => isAlignedEach args
  | _ => true

def isAlignedEach : List Expr → Bool
  | [] => true
  | e :: es => isAligned e && isAlignedEach es

end

end AlgoLang.Lift
