/-
# Expressions of C in the algorithmic language

An expression is changed as text: in the code between its literals casts and suffixes go, reserved words are
renamed and operators are respelled.  `isLiftable` says whether it holds anything without a counterpart.
-/
import AlgoLang.CSource.Pointer
import AlgoLang.Lift.Name

namespace AlgoLang.Lift

open Text CSource

/-! ## What has no counterpart -/

/-- Whether an operator without counterpart, or `sizeof`, stands at the front of the text. -/
def unliftableAt (behind cs : List Char) : Bool :=
  match cs with
  | '?' :: _ | '^' :: _ | '~' :: _ => true
  | '-' :: '>' :: _ | '<' :: '<' :: _ | '>' :: '>' :: _ | '+' :: '+' :: _ | '-' :: '-' :: _ => true
  | '&' :: r => behind.head? != some '&' && r.head? != some '&'
  | '|' :: r => behind.head? != some '|' && r.head? != some '|'
  | 's' :: _ =>
    "sizeof".toList.isPrefixOf cs && !behind.head?.any isWordChar && !(cs.drop 6).head?.any isWordChar
  | _ => false

def unliftableFrom (behind : List Char) : List Char → Bool
  | [] => false
  | c :: cs => unliftableAt behind (c :: cs) || unliftableFrom (c :: behind) cs

def isLiftable (cs : List Char) : Bool :=
  let code := codeOnly cs
  !unliftableFrom [] code && !hasDereference code

/-! ## Powers -/

/-- A call of `pow` with two arguments at the front of the text: the arguments and what follows. -/
def powCall? (cs : List Char) : Option (List Char × List Char × List Char) :=
  if "pow".toList.isPrefixOf cs then
    match trimStart (cs.drop 3) with
    | '(' :: rest =>
      match parenthesised? rest with
      | some (inside, after) =>
        match splitTopLevel ',' inside with
        | [a, b] => some (trim a, trim b, after)
        | _ => none
      | none => none
    | _ => none
  else none

theorem powCall?_length {cs a b after : List Char} (h : powCall? cs = some (a, b, after)) :
    a.length < cs.length ∧ b.length < cs.length ∧ after.length < cs.length := by
  unfold powCall? at h
  split at h <;> try contradiction
  split at h <;> try contradiction
  next rest hrest =>
  split at h <;> try contradiction
  next inside after' hin =>
  split at h <;> try contradiction
  next x y hsplit =>
  simp only [Option.some.injEq, Prod.mk.injEq] at h
  obtain ⟨rfl, rfl, rfl⟩ := h
  have h₁ := trimStart_length_le (cs.drop 3)
  have h₂ := congrArg List.length (closing?_eq_append hin)
  have hx : x.length ≤ inside.length := (infix_of_mem_splitTopLevel (by rw [hsplit]; simp)).length_le
  have hy : y.length ≤ inside.length := (infix_of_mem_splitTopLevel (by rw [hsplit]; simp)).length_le
  have h₃ := trim_length_le x
  have h₄ := trim_length_le y
  rw [hrest] at h₁
  simp only [List.length_append, List.length_cons, List.length_drop] at h₁ h₂
  omega

/-- The same, where the scan stands in code and the name is not the end of a longer word. -/
def powHere? (m : Mode) (before : Option Char) (cs : List Char) :
    Option (List Char × List Char × List Char) :=
  if m == .code && !before.any isWordChar then powCall? cs else none

theorem powHere?_length {m : Mode} {before : Option Char} {cs a b after : List Char}
    (h : powHere? m before cs = some (a, b, after)) :
    a.length < cs.length ∧ b.length < cs.length ∧ after.length < cs.length := by
  unfold powHere? at h
  split at h
  · exact powCall?_length h
  · contradiction

/-- Calls of `pow` with two arguments become powers in parentheses, those in the arguments as well.
`m` is where the scan stands and `before` the character just passed. -/
def liftPow (m : Mode) (before : Option Char) : List Char → List Char
  | [] => []
  | c :: rest =>
    match h : powHere? m before (c :: rest) with
    | some (a, b, after) =>
      have := powHere?_length h
      '(' :: liftPow .code none a ++ " ^ ".toList ++ liftPow .code none b ++
        ')' :: liftPow .code (some ')') after
    | none => c :: liftPow (m.next c) (some c) rest
termination_by cs => cs.length
decreasing_by all_goals simp only [List.length_cons] at *; omega

/-! ## Code between literals -/

def castModifiers : List String :=
  ["unsigned", "signed", "long", "short"]

def castTypes : List String :=
  ["int", "float", "double", "char", "bool", "long"]

def isCast (ws : List String) : Bool :=
  match ws.getLast? with
  | some last => castTypes.contains last && ws.dropLast.all castModifiers.contains
  | none => false

def castFinder : Finder := fun _ cs =>
  match cs with
  | '(' :: r =>
    let inside := r.takeWhile (· != ')')
    match r.dropWhile (· != ')') with
    | ')' :: after =>
      if isCast ((words inside).map String.ofList) then stretch cs (trimStart after) [] else none
    | _ => none
  | _ => none

/-- Digits that begin a number: no word goes on into them. -/
def leadingDigits (behind cs : List Char) : List Char :=
  if behind.head?.any isWordChar then [] else cs.takeWhile isDecimal

/-- A number with a fraction and the letter for single precision; the letter goes. -/
def floatSuffixFinder : Finder := fun behind cs =>
  match leadingDigits behind cs, cs.dropWhile isDecimal with
  | d :: ds, '.' :: r =>
    let fraction := r.takeWhile isDecimal
    match r.dropWhile isDecimal with
    | f :: rest =>
      if !fraction.isEmpty && (f == 'f' || f == 'F') && !rest.head?.any isWordChar then
        stretch cs rest (d :: ds ++ '.' :: fraction)
      else none
    | [] => none
  | _, _ => none

/-- A number that ends in its dot; it gets a zero. -/
def trailingDotFinder : Finder := fun behind cs =>
  match leadingDigits behind cs, cs.dropWhile isDecimal with
  | d :: ds, '.' :: r => if r.head?.any isDecimal then none else stretch cs r (d :: ds ++ ".0".toList)
  | _, _ => none

/-- A word; truth values and reserved words are respelled. -/
def wordFinder : Finder := fun _ cs =>
  match takeWord? cs with
  | some (word, rest) =>
    let w := String.ofList word
    stretch cs rest ((truthWord? w).getD (safeName w)).toList
  | none => none

def blanksBeforeClosing : Finder := fun _ cs =>
  match cs.takeWhile isBlank, trimStart cs with
  | _ :: _, ')' :: rest => stretch cs rest [')']
  | _, _ => none

def blanksAfterOpening : Finder := fun _ cs =>
  match cs with
  | '(' :: r => if r.head?.any isBlank then stretch cs (trimStart r) ['('] else none
  | _ => none

/-- Operators of C as the algorithmic language spells them, longer ones first. -/
def respell (cs : List Char) : List Char :=
  let cs := replace "==" " = " cs
  let cs := replace "!=" " <> " cs
  let cs := replace "&&" " AND " cs
  let cs := replace "||" " OR " cs
  let cs := replace "!" " NOT " cs
  replace "%" " MOD " cs

def liftCode (cs : List Char) : List Char :=
  let cs := substitute castFinder cs
  let cs := substitute floatSuffixFinder cs
  let cs := substitute trailingDotFinder cs
  let cs := substitute wordFinder cs
  let cs := squeeze (respell cs)
  substitute blanksAfterOpening (substitute blanksBeforeClosing cs)

def liftSegment : Segment → List Char
  | .code cs => liftCode cs
  | .literal cs => cs

def liftExpr (cs : List Char) : String :=
  String.ofList (trim ((segments (liftPow .code none (trim cs))).flatMap liftSegment))

/-- The arguments of `pow` are written around the operator as they are. -/
theorem liftExpr_pow_sum : liftExpr "pow(a + b, c)".toList = "(a + b ^ c)" := by
  decide +kernel

end AlgoLang.Lift
