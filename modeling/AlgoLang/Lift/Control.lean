/-
# One fragment inside a routine

A fragment is a brace, the condition that a `DO` waits for, a label or the head of a control statement, or a
simple statement, and is tried in that order.  `step` deals with what comes first on a line and hands back what
is left, and `fragment` goes on until nothing is.
-/
import AlgoLang.Lift.Loop

namespace AlgoLang.Lift

open Text CSource

/-- What came of a control statement: none if the text is none, else what is left to be read. -/
abbrev Handled := Scene × Option (List Char)

/-! ## Labels and heads -/

def labelled (s : Scene) (value : Option String) (rest : List Char) (origin : Nat) : Handled :=
  match s.routine.label? value origin with
  | some routine => ({ s with routine }, some rest)
  | none =>
    let text := (value.elim Content.default fun v => .case [v]).text
    (s.comment "Case label outside a switch kept as comment" text origin, some rest)

def conditional (s : Scene) (kind : BlockKind) (head : String → String) (h : Option (List Char × List Char))
    (origin : Nat) (elseNext : Bool) : Handled :=
  match h with
  | some (condition, rest) =>
    if isLiftable condition then
      let (routine, left) := s.routine.openBlock kind [.plain (head (liftExpr condition))] [] rest origin elseNext
      ({ s with routine }, some left)
    else (s, none)
  | none => (s, none)

/-- A head with a bit operator opens no block, so the brace behind its body ends the block around it. -/
theorem conditional_bitwise :
    let s : Scene := ⟨{}, { draft := { name := "main", origin := 0 }, isMain := true, awaiting := false }⟩
    (conditional s .branch id (headerOf? "if" "if (x & 1) \x7b".toList) 0 false).2 = none := by
  decide +kernel

/-- An `else`: an `if` behind it needs no block of its own. -/
def otherwise (s : Scene) (rest : List Char) (origin : Nat) (elseNext : Bool) : Handled :=
  let r := s.routine.emitLines ["ELSE"] origin
  if startsWithHeader "if" rest then ({ s with routine := r }, some rest)
  else
    let (routine, left) := r.openBlock .otherwise [] [] rest origin elseNext
    ({ s with routine }, some left)

def switchOn (s : Scene) (h : Option (List Char × List Char)) (origin : Nat) : Handled :=
  match h with
  | some (selector, rest) =>
    if isLiftable selector then
      (s.update fun r => r.openSwitch (liftExpr selector) rest origin, some [])
    else (s, none)
  | none => (s, none)

def control (s : Scene) (text : List Char) (origin : Nat) (elseNext : Bool) : Except Failure Handled :=
  match caseLabel? text, defaultLabel? text with
  | some (value, rest), _ => .ok (labelled s (some (liftExpr value)) rest origin)
  | none, some rest => .ok (labelled s none rest origin)
  | none, none =>
    if startsWithHeader "if" text then
      .ok (conditional s .branch (fun c => "IF (" ++ c ++ ") THEN") (headerOf? "if" text) origin elseNext)
    else if startsWithWord "else" text then .ok (otherwise s (trim (text.drop 4)) origin elseNext)
    else if startsWithHeader "while" text then
      .ok (conditional s .while (fun c => "WHILE (" ++ c ++ ") DO") (headerOf? "while" text) origin elseNext)
    else if startsWithHeader "for" text then
      match headerOf? "for" text with
      | some (inside, rest) => forLoop s inside rest origin elseNext
      | none => .ok (s, none)
    else if startsWithWord "do" text then
      let (routine, left) := s.routine.openBlock .do [.plain "DO"] [] (trim (text.drop 2)) origin elseNext
      .ok ({ s with routine }, some left)
    else if startsWithHeader "switch" text then .ok (switchOn s (headerOf? "switch" text) origin)
    else .ok (s, none)

/-! ## Fragments -/

/-- Where a fragment leads: it stays inside the routine with something left to be read, or the
routine is complete. -/
inductive Progress where
  | inside (s : Scene) (left : List Char)
  | outside (sk : Sketch)

/-- The condition that a `DO` waits for; anything else means that there is none. -/
def closeDo (s : Scene) (text : List Char) (origin : Nat) (elseNext : Bool) : Scene × List Char :=
  let s := s.update fun r => { r with pendingDo := false }
  let condition := if startsWithWord "while" text then header? (text.drop 5) else none
  match condition with
  | some (c, _) =>
    (s.update fun r =>
      (r.emit (.plain ("WHILE (" ++ liftExpr c ++ ")")) (some origin)).afterStatement elseNext, [])
  | none =>
    ((s.warn "DO block without a closing while condition").update fun r =>
      r.emit (.plain "WHILE (FALSE)") none, text)

def simple (s : Scene) (text : List Char) (origin : Nat) (elseNext : Bool) : Except Failure Scene := do
  let (s, lines) ← statement s (trim (dropEnd (· == ';') text))
  let s := match lines with
    | some lines => s.update fun r => r.emitLines lines origin
    | none => s.keepAsComment text origin
  return s.update fun r => r.afterStatement elseNext

/-- What is neither a brace nor a condition that is waited for. -/
def controlOrSimple (s : Scene) (text : List Char) (origin : Nat) (elseNext : Bool) :
    Except Failure Progress := do
  let (s, handled) ← control s text origin elseNext
  match handled with
  | some left => return .inside s left
  | none => return .inside (← simple s text origin elseNext) []

def step (s : Scene) (text : List Char) (origin : Nat) (elseNext : Bool) : Except Failure Progress :=
  let text := stripDereferences s.routine.pointers (stripAddressOf s.sketch.byPointer text)
  if text == ['\x7b'] then .ok (.inside (s.update fun r => r.openBrace origin) [])
  else if text == ['\x7d'] then
    match s.routine.closeBrace origin elseNext with
    | .inside routine => .ok (.inside { s with routine } [])
    | .outside draft => .ok (.outside (s.sketch.store s.routine.isMain draft))
  else if s.routine.blocks.isEmpty && s.routine.awaiting then .ok (.inside (s.keepAsComment text origin) [])
  else
    let s := s.update fun r => r.settle .single
    if s.routine.pendingDo then
      let (s, left) := closeDo s text origin elseNext
      .ok (.inside s left)
    else controlOrSimple s text origin elseNext

/-- Goes on until nothing is left of a fragment.  Every step either takes a word or a label off the
text or settles a `DO`, so `fuel` is never used up if it is twice the length of the text. -/
def fragmentWith (fuel : Nat) (s : Scene) (text : List Char) (origin : Nat) (elseNext : Bool) :
    Except Failure Progress :=
  match fuel with
  | 0 => .ok (.inside s [])
  | n + 1 => do
    match ← step s text origin elseNext with
    | .outside sk => return .outside sk
    | .inside s [] => return .inside s []
    | .inside s left => fragmentWith n s left origin elseNext

def fragment (s : Scene) (text : List Char) (origin : Nat) (elseNext : Bool) : Except Failure Progress :=
  fragmentWith (2 * text.length + 2) s text origin elseNext

end AlgoLang.Lift
