/-
# Counting loops of C

A loop `for (i = a; i < b; i++)` that counts by a fixed number up or down to a bound becomes a `FOR`;
the bound of a strict comparison is moved by one.  Every other loop becomes a `WHILE` with the update
at the end of its body.
-/
import AlgoLang.Lift.Statement

namespace AlgoLang.Lift

open Text CSource

structure Comparison where
  name : String
  upward : Bool
  strict : Bool
  bound : List Char
  deriving DecidableEq

/-- The comparison behind a name.  An equals sign with nothing behind it is itself the bound. -/
def comparisonOf? (name : String) : List Char → Option Comparison
  | '<' :: '=' :: c :: r => some ⟨name, true, false, trimStart (c :: r)⟩
  | '<' :: c :: r => some ⟨name, true, true, trimStart (c :: r)⟩
  | '>' :: '=' :: c :: r => some ⟨name, false, false, trimStart (c :: r)⟩
  | '>' :: c :: r => some ⟨name, false, true, trimStart (c :: r)⟩
  | _ => none

def comparison? (cs : List Char) : Option Comparison :=
  match takeWord? cs with
  | some (w, r) => comparisonOf? (String.ofList w) (trimStart r)
  | none => none

/-- The sign and the digits of an update by a fixed number, blanks taken out. -/
def stepDigits? (name update : List Char) : Option (Char × List Char) :=
  if name.isPrefixOf update then
    let r := update.drop name.length
    let found := match r with
      | '+' :: '=' :: ds => some ('+', ds)
      | '-' :: '=' :: ds => some ('-', ds)
      | '=' :: r =>
        if name.isPrefixOf r then
          match r.drop name.length with
          | '+' :: ds => some ('+', ds)
          | '-' :: ds => some ('-', ds)
          | _ => none
        else none
      | _ => none
    found.filter fun f => isDigits f.2
  else none

/-- The number that an update adds to the named variable; none if it does anything else. -/
def step? (name : String) (update : List Char) : Except NumeralFault (Option Int) :=
  let name := name.toList
  let update := update.filter (· != ' ')
  if update == name ++ ['+', '+'] || update == ['+', '+'] ++ name then .ok (some 1)
  else if update == name ++ ['-', '-'] || update == ['-', '-'] ++ name then .ok (some (-1))
  else
    match stepDigits? name update with
    | none => .ok none
    | some (sign, digits) =>
      (Numeral.read digits).map fun n =>
        if n == 0 then none else if sign == '+' then some (n : Int) else some (-(n : Int))

/-- The last value of a counter: the bound, moved by one if the comparison is strict. -/
def lastValue (c : Comparison) : Except NumeralFault String :=
  let bound := liftExpr c.bound
  if !c.strict then .ok bound
  else if isInteger bound.toList then do
    let n ← Numeral.readSigned bound.toList
    Numeral.write (if c.upward then n - 1 else n + 1)
  else .ok (bound ++ if c.upward then " - 1" else " + 1")

def forHead (name : String) (first : List Char) (c : Comparison) (step : Int) :
    Except NumeralFault (Option String) :=
  if (0 < step) != c.upward || !isLiftable first || !isLiftable c.bound then .ok none
  else do
    let last ← lastValue c
    let stepText := if step == 1 then "" else " STEP " ++ toString step
    return some ("FOR " ++ safeName name ++ " <- " ++ liftExpr first ++ " TO " ++ last ++ stepText ++ " DO")

def countedHead (init condition update : List Char) : Except NumeralFault (Option String) :=
  match named? init, comparison? condition with
  | some (name, first), some c =>
    if name != c.name then .ok none
    else do
      match ← step? name update with
      | none => return none
      | some step => forHead name first c step
  | _, _ => .ok none

/-- All that follows the comparison is the bound, and one less is written behind it. -/
theorem countedHead_conjunction : (countedHead "i=0".toList "i<n&&k".toList "i++".toList).toOption =
    some (some "FOR i <- 0 TO n AND k - 1 DO") := by
  decide +kernel

/-- The same; a counter that is declared in the loop is declared first, whatever comes of it. -/
def countedFor (s : Scene) (init condition update : List Char) :
    Except Failure (Scene × Option String) :=
  match typed? s.sketch.typeNames init with
  | none => do return (s, ← s.sketch.attempt (countedHead init condition update))
  | some t => do
    let d ← s.sketch.attempt (declaration t.type (trim (t.rest.takeWhile (· != '='))) false)
    let s := (s.declare d).1
    return (s, ← s.sketch.attempt (countedHead t.rest condition update))

/-- A loop, given the inside of its parentheses and what follows them: none if it has no counterpart,
else what is left to be read. -/
def forLoop (s : Scene) (inside rest : List Char) (origin : Nat) (elseNext : Bool) :
    Except Failure (Scene × Option (List Char)) :=
  match (splitTopLevel ';' inside).map trim with
  | [init, condition, update] => do
    let (s, head) ← countedFor s init condition update
    match head with
    | some head =>
      let (routine, left) := s.routine.openBlock .for [.plain head] [] rest origin elseNext
      return ({ s with routine }, some left)
    | none =>
      let (s, before) ← statement s init
      match before with
      | none => return (s, none)
      | some before =>
        let (s, trailer) ← statement s update
        match trailer with
        | none => return (s, none)
        | some trailer =>
          if !condition.isEmpty && !isLiftable condition then return (s, none)
          let test := if condition.isEmpty then "TRUE" else liftExpr condition
          let (routine, left) := (s.routine.emitLines before origin).openBlock .for
            [.plain ("WHILE (" ++ test ++ ") DO")] trailer rest origin elseNext
          return ({ s with routine }, some left)
  | _ => .ok (s, none)

end AlgoLang.Lift
