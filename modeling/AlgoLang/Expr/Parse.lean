/-
# Reading expressions

Five levels of operators that group to the left, from `OR` to the products, then the power, which groups to the
right, then the signs before an operand, then indices and fields behind it.
-/
import AlgoLang.Expr
import AlgoLang.Reading

namespace AlgoLang.Expr

open Reading

/-- The levels of operators that group to the left, loosest first. -/
inductive Level where
  | disjunction
  | conjunction
  | comparison
  | sum
  | product
  deriving DecidableEq

namespace Level

/-- The level of the operands; none if they are powers. -/
def tighter : Level → Option Level
  | disjunction => some conjunction
  | conjunction => some comparison
  | comparison => some sum
  | sum => some product
  | product => none

/-- How many levels are tighter, powers counted as one. -/
def rank : Level → Nat
  | disjunction => 5
  | conjunction => 4
  | comparison => 3
  | sum => 2
  | product => 1

def op? : Level → TokenKind → Option BinaryOp
  | disjunction, .keyword .or_ => some .or
  | conjunction, .keyword .and_ => some .and
  | comparison, .mark .equal => some .eq
  | comparison, .mark .notEqual => some .ne
  | comparison, .mark .less => some .lt
  | comparison, .mark .greater => some .gt
  | comparison, .mark .lessEqual => some .le
  | comparison, .mark .greaterEqual => some .ge
  | sum, .mark .plus => some .add
  | sum, .mark .minus => some .sub
  | product, .mark .times => some .mul
  | product, .mark .slash => some .div
  | product, .keyword .div => some .intDiv
  | product, .keyword .mod => some .mod
  | _, _ => none

theorem rank_tighter {l l' : Level} (h : l.tighter = some l') : l'.rank < l.rank := by
  cases l <;> simp [tighter] at h <;> subst h <;> decide

theorem rank_le (l : Level) : l.rank ≤ 5 := by
  cases l <;> decide

end Level

def sign? : TokenKind → Option UnaryOp
  | .mark .minus => some .neg
  | .keyword .not_ => some .not
  | _ => none

def spanOver (left right : Expr) : Option Span :=
  match left.span, right.span with
  | some a, some b => some ⟨a.start, b.stop⟩
  | a, b => a <|> b

def literal? (t : Token) : Except ParseFault (Option Expr) :=
  match t.kind with
  | .integer =>
    match Numeral.read t.value.toList with
    | .ok n => .ok (some (.integer t.span n))
    | .error fault => .error (.numeral fault)
  | .real => .ok (some (.real t.span (Binary64.ofLiteral t.value)))
  | .string => .ok (some (.string t.span t.value))
  | .char => .ok (some (.char t.span t.value))
  | .keyword .true_ => .ok (some (.boolean t.span true))
  | .keyword .false_ => .ok (some (.boolean t.span false))
  | _ => .ok none

/-- An access with further indices: the indices of an access that is extended are added to. -/
def withIndices (e : Expr) (span : Span) (indices : List Expr) : Expr :=
  match e with
  | index _ array earlier => index span array (earlier ++ indices)
  | _ => index span e indices

mutual

def parseAt (l : Level) (toks : List Token) : Reading Expr toks :=
  match h : l.tighter with
  | some l' => do
    have := Level.rank_tighter h
    let ⟨e, last, toks₁, h₁⟩ ← parseAt l' toks
    let ⟨e, last, toks₂, h₂⟩ ← parseMore l e last toks₁
    return (Held.mk e last toks₂ h₂).since h₁
  | none => do
    let ⟨e, last, toks₁, h₁⟩ ← parsePower toks
    let ⟨e, last, toks₂, h₂⟩ ← parseMore l e last toks₁
    return (Held.mk e last toks₂ h₂).since h₁
termination_by 16 * toks.length + 3 + l.rank
decreasing_by all_goals (cases l <;> grind [Level.rank])

/-- Further operators of the level and their right operands, each taking all before it on its left. -/
def parseMore (l : Level) (left : Expr) (last : Token) (toks : List Token) : Holding Expr toks :=
  match toks with
  | [] => .ok (Held.stay left last [])
  | t :: rest =>
    match l.op? t.kind with
    | none => .ok (Held.stay left last (t :: rest))
    | some op =>
      match l.tighter with
      | some l' => do
        let ⟨right, last, toks₁, h₁⟩ ← parseAt l' rest
        let ⟨e, last, toks₂, h₂⟩ ← parseMore l (binary (spanOver left right) op left right) last toks₁
        return (Held.mk e last toks₂ h₂).since h₁ |>.behind t |>.held
      | none => do
        let ⟨right, last, toks₁, h₁⟩ ← parsePower rest
        let ⟨e, last, toks₂, h₂⟩ ← parseMore l (binary (spanOver left right) op left right) last toks₁
        return (Held.mk e last toks₂ h₂).since h₁ |>.behind t |>.held
termination_by 16 * toks.length
decreasing_by all_goals grind [Level.rank_le]

def parsePower (toks : List Token) : Reading Expr toks := do
  let ⟨left, last, toks₁, h₁⟩ ← parseSigned toks
  match take? (.mark .power) toks₁ with
  | none => return ⟨left, last, toks₁, h₁⟩
  | some ⟨_, _, toks₂, h₂⟩ => do
    let ⟨right, last, toks₃, h₃⟩ ← parsePower toks₂
    return (Taken.mk (binary (spanOver left right) .pow left right) last toks₃ h₃).since h₂ |>.since h₁
termination_by 16 * toks.length + 2

def parseSigned (toks : List Token) : Reading Expr toks :=
  match toks with
  | [] => fail .expression []
  | t :: rest =>
    match sign? t.kind with
    | some op => do
      let ⟨e, last, toks₁, h₁⟩ ← parseSigned rest
      return (Taken.mk (unary (t.through last) op e) last toks₁ h₁).behind t
    | none => parsePrimary (t :: rest)
termination_by 16 * toks.length + 1

/-- A literal, an expression in brackets, or a name or call with its indices and fields. -/
def parsePrimary (toks : List Token) : Reading Expr toks :=
  match toks with
  | [] => fail .expression []
  | t :: rest =>
    match t.kind with
    | .mark .lparen => do
      let ⟨e, _, toks₁, h₁⟩ ← parseAt .disjunction rest
      let ⟨_, last, toks₂, h₂⟩ ← expect .parenAfterExpression (.mark .rparen) toks₁
      return (Taken.mk (paren (t.through last) e) last toks₂ h₂).since h₁ |>.behind t
    | .identifier =>
      match take? (.mark .lparen) rest with
      | some ⟨_, _, toks₁, h₁⟩ => do
        let ⟨args, last, toks₂, h₂⟩ ← parseArguments toks₁
        let ⟨e, last, toks₃, h₃⟩ ← parseSuffixes (call (t.through last) t.value args) t last toks₂
        return (Held.mk e last toks₃ h₃).since h₂ |>.since h₁ |>.behind t
      | none => do
        let ⟨e, last, toks₁, h₁⟩ ← parseSuffixes (name t.span t.value) t t rest
        return (Held.mk e last toks₁ h₁).behind t
    | _ => do
      match ← literal? t with
      | some e => return Taken.one e t rest
      | none => fail .expression (t :: rest)
termination_by 16 * toks.length
decreasing_by all_goals grind [Level.rank_le]

/-- The indices and fields behind a name or call that starts with the given token. -/
def parseSuffixes (e : Expr) (start last : Token) (toks : List Token) : Holding Expr toks :=
  match toks with
  | [] => .ok (Held.stay e last [])
  | t :: rest =>
    match t.kind with
    | .mark .lbracket => do
      let ⟨indices, _, toks₁, h₁⟩ ← parseList rest
      let ⟨_, last, toks₂, h₂⟩ ← expect .bracketAfterIndex (.mark .rbracket) toks₁
      let ⟨e, last, toks₃, h₃⟩ ← parseSuffixes (withIndices e (start.through last) indices) start last toks₂
      return (Held.mk e last toks₃ h₃).since h₂ |>.since h₁ |>.behind t |>.held
    | .mark .dot => do
      let ⟨f, last, toks₁, h₁⟩ ← expectName .fieldName rest
      let ⟨e, last, toks₂, h₂⟩ ← parseSuffixes (field (start.through last) e f) start last toks₁
      return (Held.mk e last toks₂ h₂).since h₁ |>.behind t |>.held
    | _ => .ok (Held.stay e last (t :: rest))
termination_by 16 * toks.length
decreasing_by all_goals grind [Level.rank_le]

def parseList (toks : List Token) : Reading (List Expr) toks := do
  let ⟨e, last, toks₁, h₁⟩ ← parseAt .disjunction toks
  match take? (.mark .comma) toks₁ with
  | none => return ⟨[e], last, toks₁, h₁⟩
  | some ⟨_, _, toks₂, h₂⟩ => do
    let ⟨es, last, toks₃, h₃⟩ ← parseList toks₂
    return (Taken.mk (e :: es) last toks₃ h₃).since h₂ |>.since h₁
termination_by 16 * toks.length + 4 + Level.disjunction.rank

def parseArguments (toks : List Token) : Reading (List Expr) toks :=
  match take? (.mark .rparen) toks with
  | some t => .ok ⟨[], t.last, t.rest, t.shorter⟩
  | none => do
    let ⟨es, _, toks₁, h₁⟩ ← parseList toks
    let ⟨_, last, toks₂, h₂⟩ ← expect .parenAfterArguments (.mark .rparen) toks₁
    return (Taken.mk es last toks₂ h₂).since h₁
termination_by 16 * toks.length + 5 + Level.disjunction.rank

end

def parse (toks : List Token) : Reading Expr toks :=
  parseAt .disjunction toks

def parseTarget (toks : List Token) : Reading Expr toks := do
  let ⟨t, last, toks₁, h₁⟩ ← expect .identifier .identifier toks
  let ⟨e, last, toks₂, h₂⟩ ← parseSuffixes (name t.span t.value) t last toks₁
  return (Held.mk e last toks₂ h₂).since h₁

def parseTargets (toks : List Token) : Reading (List Expr) toks := do
  let ⟨e, last, toks₁, h₁⟩ ← parseTarget toks
  match take? (.mark .comma) toks₁ with
  | none => return ⟨[e], last, toks₁, h₁⟩
  | some ⟨_, _, toks₂, h₂⟩ => do
    let ⟨es, last, toks₃, h₃⟩ ← parseTargets toks₂
    return (Taken.mk (e :: es) last toks₃ h₃).since h₂ |>.since h₁
termination_by toks.length

/-- The value of a constant: a literal, or a minus sign and a number. -/
def parseConstant (toks : List Token) : Reading Expr toks :=
  match toks with
  | [] => fail .literal []
  | t :: rest =>
    if t.kind == .mark .minus then
      match rest with
      | n :: rest' => do
        match n.kind, ← literal? n with
        | .integer, some (.integer _ value) =>
          return (Taken.one (integer (t.through n) (-value)) n rest').behind t
        | .real, some (.real _ value) => return (Taken.one (real (t.through n) value.negate) n rest').behind t
        | _, _ => fail .numberAfterMinus (n :: rest')
      | [] => fail .numberAfterMinus []
    else do
      match ← literal? t with
      | some e => return Taken.one e t rest
      | none => fail .literal (t :: rest)

end AlgoLang.Expr
