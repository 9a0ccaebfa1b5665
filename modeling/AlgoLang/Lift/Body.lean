/-
# The body of a routine while it is being lifted

Every block of C becomes `BEGIN … END`, whether it was written in braces or is a single statement.
`OpenRoutine.emit` is the only way a row comes into the body, and depth changes only where a `BEGIN` or an `END`
is emitted.
-/
import AlgoLang.Lift.Declaration
import AlgoLang.Lift.Shape

namespace AlgoLang.Lift

inductive Content where
  | begin_
  | end_
  | switch (selector : String)
  | case (values : List String)
  | default
  | plain (text : String)
  deriving DecidableEq

def Content.text : Content → String
  | begin_ => "BEGIN"
  | end_ => "END"
  | switch selector => "SWITCH " ++ selector ++ " BEGIN"
  | case values => "CASE " ++ ", ".intercalate values ++ " :"
  | default => "DEFAULT :"
  | plain text => text

/-- A row, its depth, and the line of C it came from; some come from none. -/
structure Row where
  content : Content
  depth : Nat
  origin : Option Nat
  deriving DecidableEq

inductive BlockKind where
  | branch
  | otherwise
  | while
  | for
  | do
  | switch
  | plain
  deriving DecidableEq

/-- How far a block reaches: its braces or its statement are still to come, it is a single statement,
or it is in braces. -/
inductive Extent where
  | awaiting
  | single
  | braced
  deriving DecidableEq

/-- The clause of a switch that is open: its row, and whether it has got a statement. -/
structure OpenCase where
  row : Nat
  hasBody : Bool
  deriving DecidableEq

/-- An open block.  `trailer` comes just before its end. -/
structure Block where
  kind : BlockKind
  extent : Extent
  trailer : List String := []
  openCase : Option OpenCase := none
  deriving DecidableEq

structure Draft where
  name : String
  origin : Nat
  result : Option String := none
  params : List String := []
  constants : List (String × String) := []
  vars : List Variable := []
  body : List Row := []
  stop : Option Nat := none
  deriving DecidableEq

/-- A routine that is being lifted.  `blocks` are the open blocks inside it, innermost first;
`awaiting` says that its opening brace is still to come, and `pendingDo` that a `DO` block waits for
its condition. -/
structure OpenRoutine where
  draft : Draft
  isMain : Bool
  pointers : List String := []
  blocks : List Block := []
  awaiting : Bool
  pendingDo : Bool := false
  depth : Nat := 0

namespace OpenRoutine

def emit (r : OpenRoutine) (content : Content) (origin : Option Nat) : OpenRoutine :=
  { r with draft := { r.draft with body := r.draft.body ++ [⟨content, r.depth, origin⟩] } }

def deeper (r : OpenRoutine) : OpenRoutine :=
  { r with depth := r.depth + 1 }

def emitEnd (r : OpenRoutine) (origin : Option Nat) : OpenRoutine :=
  emit { r with depth := r.depth - 1 } .end_ origin

def emitBegin (r : OpenRoutine) : OpenRoutine :=
  (r.emit .begin_ none).deeper

def fillCase (b : Block) : Block :=
  { b with openCase := b.openCase.map fun c => { c with hasBody := true } }

/-- If the innermost block is a switch, its open clause has got a statement. -/
def fillInnermost (r : OpenRoutine) : OpenRoutine :=
  match r.blocks with
  | b :: bs => if b.kind == .switch then { r with blocks := fillCase b :: bs } else r
  | [] => r

def emitStatement (r : OpenRoutine) (contents : List Content) (origin : Nat) : OpenRoutine :=
  match contents with
  | [] => r
  | _ => contents.foldl (fun r c => r.emit c (some origin)) r.fillInnermost

def emitLines (r : OpenRoutine) (lines : List String) (origin : Nat) : OpenRoutine :=
  r.emitStatement (lines.map .plain) origin

/-! ## Closing -/

def closeBlock (r : OpenRoutine) (b : Block) (origin : Option Nat) : OpenRoutine :=
  if b.kind == .switch then
    let r := if b.openCase.isSome then r.emitEnd none else r
    r.emitEnd origin
  else
    (b.trailer.foldl (fun r t => r.emit (.plain t) none) r).emitEnd origin

/-- After a statement: closes the blocks that were waiting for just this statement.  A `DO` then
waits for its condition, and a branch stays last if an `else` comes next. -/
def closeSingles (elseNext : Bool) (r : OpenRoutine) : List Block → OpenRoutine
  | [] => { r with blocks := [] }
  | b :: bs =>
    if b.extent == .single then
      let r := closeBlock { r with blocks := bs } b none
      if b.kind == .do then { r with pendingDo := true }
      else if b.kind == .branch && elseNext then r
      else closeSingles elseNext r bs
    else { r with blocks := b :: bs }

def afterStatement (r : OpenRoutine) (elseNext : Bool) : OpenRoutine :=
  closeSingles elseNext r r.blocks

def afterBlock (r : OpenRoutine) (b : Block) (elseNext : Bool) : OpenRoutine :=
  if b.kind == .do then { r with pendingDo := true }
  else if b.kind == .branch && elseNext then r
  else r.afterStatement elseNext

def closeUnbraced (r : OpenRoutine) : List Block → OpenRoutine
  | [] => { r with blocks := [] }
  | b :: bs =>
    if b.extent == .braced then { r with blocks := b :: bs }
    else closeUnbraced (closeBlock { r with blocks := bs } b none) bs

def closeAll (r : OpenRoutine) : List Block → OpenRoutine
  | [] => { r with blocks := [] }
  | b :: bs => closeAll (closeBlock { r with blocks := bs } b none) bs

def finish (r : OpenRoutine) (origin : Option Nat) : Draft :=
  { r.draft with stop := origin }

/-! ## Opening -/

/-- Opens a block below its head.  What follows the head is a brace, nothing yet, an empty statement,
or a statement on the same line; that statement is handed back. -/
def openBlock (r : OpenRoutine) (kind : BlockKind) (head : List Content) (trailer : List String)
    (rest : List Char) (origin : Nat) (elseNext : Bool) : OpenRoutine × List Char :=
  let r := (r.emitStatement head origin).emitBegin
  let push (extent : Extent) : OpenRoutine := { r with blocks := { kind, extent, trailer } :: r.blocks }
  match rest with
  | ['\x7b'] => (push .braced, [])
  | [] => (push .awaiting, [])
  | [';'] =>
    let b : Block := { kind, extent := .single, trailer }
    ((r.closeBlock b (some origin)).afterBlock b elseNext, [])
  | _ => (push .single, rest)

/-- Opens a switch; only a brace right behind its head counts. -/
def openSwitch (r : OpenRoutine) (selector : String) (rest : List Char) (origin : Nat) : OpenRoutine :=
  let r := (r.emitStatement [.switch selector] origin).deeper
  let extent := if rest == ['\x7b'] then Extent.braced else .awaiting
  { r with blocks := { kind := .switch, extent } :: r.blocks }

/-- The values of the open clause, as long as it is a `CASE` without a statement. -/
def emptyCase? (r : OpenRoutine) (b : Block) : Option (Nat × Row × List String) :=
  match b.openCase with
  | none => none
  | some c =>
    if c.hasBody then none
    else
      match r.draft.body[c.row]? with
      | some row =>
        match row.content with
        | .case values => some (c.row, row, values)
        | _ => none
      | none => none

/-- Opens a clause of the switch `b`, which is the innermost block; an open one ends before. -/
def openCase (r : OpenRoutine) (b : Block) (bs : List Block) (head : Content) (origin : Nat) :
    OpenRoutine :=
  let r := if b.openCase.isSome then r.emitEnd none else r
  let row := r.draft.body.length
  let r := (r.emit head (some origin)).emitBegin
  { r with blocks := { b with openCase := some ⟨row, false⟩ } :: bs }

/-- A label: another value of an open clause without a statement, or a clause of its own.  None if
the innermost block is no switch. -/
def label? (r : OpenRoutine) (value : Option String) (origin : Nat) : Option OpenRoutine :=
  match r.blocks with
  | [] => none
  | b :: bs =>
    if b.kind != .switch then none
    else
      match value, r.emptyCase? b with
      | some v, some (i, row, values) =>
        let body := r.draft.body.set i { row with content := .case (values ++ [v]) }
        some { r with draft := { r.draft with body } }
      | some v, none => some (r.openCase b bs (.case [v]) origin)
      | none, _ => some (r.openCase b bs .default origin)

/-- A label behind a statement ends the clause, with a `break` or without. -/
theorem label_behind_statement :
    let r : OpenRoutine :=
      { draft := { name := "main", origin := 0 }, isMain := true, awaiting := false
        blocks := [{ kind := .switch, extent := .braced, openCase := some ⟨0, true⟩ }] }
    (r.label? (some "2") 0).map (·.draft.body.map Row.content) = some [.end_, .case ["2"], .begin_] :=
  rfl

/-- A `break` ends the clause of the nearest switch, unless a loop is nearer. -/
def breakSwitch? : List Block → Option (List Block)
  | [] => none
  | b :: bs =>
    match b.kind with
    | .switch => some (fillCase b :: bs)
    | .while | .for | .do => none
    | _ => (breakSwitch? bs).map (b :: ·)

/-- Whether the brace of the innermost block, or of the routine itself, is still to come. -/
def isAwaiting (r : OpenRoutine) : Bool :=
  match r.blocks with
  | b :: _ => b.extent == .awaiting
  | [] => r.awaiting

/-- The innermost block reaches as far as said if that was still to come. -/
def settle (r : OpenRoutine) (extent : Extent) : OpenRoutine :=
  match r.blocks with
  | b :: bs => if b.extent == .awaiting then { r with blocks := { b with extent } :: bs } else r
  | [] => r

/-- An opening brace by itself: awaited, or a block of its own. -/
def openBrace (r : OpenRoutine) (origin : Nat) : OpenRoutine :=
  if r.isAwaiting then
    match r.blocks with
    | [] => { r with awaiting := false }
    | _ => r.settle .braced
  else (r.openBlock .plain [] [] ['\x7b'] origin false).1

/-- Where a closing brace leads: it stays inside the routine, or completes it. -/
inductive AfterBrace where
  | inside (r : OpenRoutine)
  | outside (d : Draft)

def closeBrace (r : OpenRoutine) (origin : Nat) (elseNext : Bool) : AfterBrace :=
  let r := closeUnbraced r r.blocks
  match r.blocks with
  | [] => .outside (r.finish (some origin))
  | b :: bs => .inside ((closeBlock { r with blocks := bs } b (some origin)).afterBlock b elseNext)

end OpenRoutine

end AlgoLang.Lift
