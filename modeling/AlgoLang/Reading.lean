/-
# Reading a program from its tokens, one step at a time

`Taken` is the result of a step that took at least one token, and carries the proof of it; `Held` that of a step
that may have taken none.  These proofs are what every reading loop ends by.  The end of the text is the empty
list, so it is never taken.
-/
import AlgoLang.Number.Numeral
import AlgoLang.Token

namespace AlgoLang

/-- What has to come next, told apart by where it is missing. -/
inductive Wanted where
  | algorithm | algorithmName | begin_ | end_ | finalDot
  | equalAfterConstant | numberAfterMinus | literal | equalAfterType
  | variableName | colonAfterVariables
  | enumValue | parenAfterEnum | type | bracketAfterArray | bracket | ofAfterDimensions
  | beginAfterStructure | endAfterFields
  | paramName | colonAfterParam | functionName | parenAfterFunction | parenAfterParams
  | colonBeforeResult | procedureName | parenAfterProcedure
  | statement | parenAfterIf | parenAfterWhile | parenAfterCondition | then_ | do_
  | whileAfterBody | loopVariable | assignAfterVariable | to_
  | beginAfterSwitch | colonAfterValues | colonAfterDefault | endAfterCases
  | parenAfterReturn | parenAfterResult | parenAfterScan | parenAfterTargets
  | parenAfterPrint | parenAfterValues | assign
  | parenAfterArguments | parenAfterExpression | expression | identifier | fieldName
  | bracketAfterIndex
  deriving DecidableEq

def Wanted.text : Wanted → String
  | algorithm => "'ALGORITHM' at start of program"
  | algorithmName => "algorithm name"
  | begin_ => "'BEGIN'"
  | end_ => "'END'"
  | finalDot => "'.' at end of program"
  | equalAfterConstant => "'=' after constant name"
  | numberAfterMinus => "number after '-'"
  | literal => "literal value"
  | equalAfterType => "'=' after type name"
  | variableName => "variable name"
  | colonAfterVariables => "':' after variable names"
  | enumValue => "enumeration value"
  | parenAfterEnum => "')' after enumeration values"
  | type => "type"
  | bracketAfterArray => "'[' after ARRAY"
  | bracket => "']'"
  | ofAfterDimensions => "'OF' after array dimensions"
  | beginAfterStructure => "'BEGIN' after STRUCTURE"
  | endAfterFields => "'END' after structure fields"
  | paramName => "parameter name"
  | colonAfterParam => "':' after parameter name"
  | functionName => "function name"
  | parenAfterFunction => "'(' after function name"
  | parenAfterParams => "')' after parameters"
  | colonBeforeResult => "':' before return type"
  | procedureName => "procedure name"
  | parenAfterProcedure => "'(' after procedure name"
  | statement => "statement"
  | parenAfterIf => "'(' after IF"
  | parenAfterWhile => "'(' after WHILE"
  | parenAfterCondition => "')' after condition"
  | then_ => "'THEN'"
  | do_ => "'DO'"
  | whileAfterBody => "'WHILE' after DO body"
  | loopVariable => "loop variable"
  | assignAfterVariable => "'<-' after loop variable"
  | to_ => "'TO'"
  | beginAfterSwitch => "'BEGIN' after SWITCH expression"
  | colonAfterValues => "':' after case values"
  | colonAfterDefault => "':' after DEFAULT"
  | endAfterCases => "'END' after switch cases"
  | parenAfterReturn => "'(' after RETURN"
  | parenAfterResult => "')' after return value"
  | parenAfterScan => "'(' after SCAN"
  | parenAfterTargets => "')' after SCAN arguments"
  | parenAfterPrint => "'(' after PRINT"
  | parenAfterValues => "')' after PRINT arguments"
  | assign => "'<-' in assignment"
  | parenAfterArguments => "')' after arguments"
  | parenAfterExpression => "')' after expression"
  | expression => "expression"
  | identifier => "identifier"
  | fieldName => "field name after '.'"
  | bracketAfterIndex => "']' after index"

/-- Why a token list is no program: a token that does not fit, none at the end of the text, or a
literal that is too long. -/
inductive ParseFault where
  | unexpected (wanted : Wanted) (found : Option Token)
  | numeral (fault : NumeralFault)
  deriving DecidableEq

/-- A value read from the front of a token list, the last token it took, and fewer tokens left. -/
structure Taken (α : Type) (toks : List Token) where
  value : α
  last : Token
  rest : List Token
  shorter : rest.length < toks.length

/-- A value read from the front of a token list that may have taken no token; `last` is the last
token taken so far. -/
structure Held (α : Type) (toks : List Token) where
  value : α
  last : Token
  rest : List Token
  notLonger : rest.length ≤ toks.length

namespace Taken

variable {α : Type} {a b : List Token}

def since (t : Taken α b) (h : b.length < a.length) : Taken α a :=
  ⟨t.value, t.last, t.rest, Nat.lt_trans t.shorter h⟩

def past (t : Taken α b) (h : b.length ≤ a.length) : Taken α a :=
  ⟨t.value, t.last, t.rest, Nat.lt_of_lt_of_le t.shorter h⟩

def behind (t : Taken α b) (front : Token) : Taken α (front :: b) :=
  t.since (Nat.lt_succ_self b.length)

def one (value : α) (t : Token) (rest : List Token) : Taken α (t :: rest) :=
  ⟨value, t, rest, Nat.lt_succ_self rest.length⟩

/-- What took something took no less than nothing. -/
def held (t : Taken α a) : Held α a :=
  ⟨t.value, t.last, t.rest, Nat.le_of_lt t.shorter⟩

end Taken

namespace Held

variable {α : Type} {a b : List Token}

def since (t : Held α b) (h : b.length < a.length) : Taken α a :=
  ⟨t.value, t.last, t.rest, Nat.lt_of_le_of_lt t.notLonger h⟩

def past (t : Held α b) (h : b.length ≤ a.length) : Held α a :=
  ⟨t.value, t.last, t.rest, Nat.le_trans t.notLonger h⟩

def behind (t : Held α b) (front : Token) : Taken α (front :: b) :=
  t.since (Nat.lt_succ_self b.length)

def stay (value : α) (last : Token) (toks : List Token) : Held α toks :=
  ⟨value, last, toks, Nat.le_refl toks.length⟩

end Held

/-- A step that takes at least one token or fails. -/
abbrev Reading (α : Type) (toks : List Token) := Except ParseFault (Taken α toks)

/-- A step that may take no token. -/
abbrev Holding (α : Type) (toks : List Token) := Except ParseFault (Held α toks)

namespace Reading

def fail {α : Type} (wanted : Wanted) (toks : List Token) : Except ParseFault α :=
  .error (.unexpected wanted toks.head?)

def take? (kind : TokenKind) : (toks : List Token) → Option (Taken Token toks)
  | t :: rest => if t.kind == kind then some (Taken.one t t rest) else none
  | [] => none

def expect (wanted : Wanted) (kind : TokenKind) (toks : List Token) : Reading Token toks :=
  match take? kind toks with
  | some t => .ok t
  | none => fail wanted toks

def expectName (wanted : Wanted) (toks : List Token) : Reading String toks :=
  (expect wanted .identifier toks).map fun t => ⟨t.value.value, t.last, t.rest, t.shorter⟩

def skip (kind : TokenKind) (last : Token) (toks : List Token) : Held Unit toks :=
  match take? kind toks with
  | some t => ⟨(), t.last, t.rest, t.held.notLonger⟩
  | none => Held.stay () last toks

/-- The names after the first one of a list with commas between them. -/
def moreNames (wanted : Wanted) (last : Token) (toks : List Token) : Holding (List String) toks :=
  match take? (.mark .comma) toks with
  | none => .ok (Held.stay [] last toks)
  | some ⟨_, _, toks₁, h₁⟩ => do
    let ⟨name, last, toks₂, h₂⟩ ← expectName wanted toks₁
    let ⟨names, last, toks₃, h₃⟩ ← moreNames wanted last toks₂
    return (Held.mk (name :: names) last toks₃ h₃).since h₂ |>.since h₁ |>.held
termination_by toks.length

end Reading

end AlgoLang
