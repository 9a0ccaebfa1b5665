/-
# Simple statements of C

A simple statement becomes rows of the algorithmic language, possibly none, or has no counterpart.
Only declarations change what is known; all other statements are plain functions of their text.
-/
import AlgoLang.Lift.Format
import AlgoLang.Lift.Sketch

namespace AlgoLang.Lift

open Text CSource

/-! ## Reading and printing -/

def wordCall (word : String) (items : List String) : String :=
  word ++ "(" ++ ", ".intercalate items ++ ")"

/-- `scanf`: all arguments but the format, without their ampersands. -/
def scanLines (args : List (List Char)) : Option (List String) :=
  let targets := args.tail.map fun a => trim (a.dropWhile (· == '&'))
  if targets.isEmpty || !targets.all isLiftable then none
  else some [wordCall "SCAN" (targets.map liftExpr)]

def putLines : List (List Char) → Option (List String)
  | [a] => if isLiftable a then some [wordCall "PRINT" [liftExpr a]] else none
  | _ => none

/-- `printf`: the text of the format with the other arguments in it. -/
def printLines : List (List Char) → Option (List String)
  | [] => none
  | format :: args =>
    if !args.all isLiftable then none
    else if isString format then
      (formatItems (inner format) args).map fun items =>
        [wordCall "PRINT" (if items.isEmpty then ["\"\""] else items)]
    else some [wordCall "PRINT" ((format :: args).map liftExpr)]

def inOutNames : List String :=
  ["printf", "puts", "putchar", "scanf"]

def inOutLines (c : Call) : Option (List String) :=
  let args := ((splitTopLevel ',' c.args).map trim).filter (!·.isEmpty)
  if c.name == "scanf" then scanLines args
  else if c.name == "puts" || c.name == "putchar" then putLines args
  else printLines args

/-! ## Assignments and calls -/

def incrementLines (sign : Char) (target : List Char) : Option (List String) :=
  if isTarget (trim target) then
    let t := liftExpr target
    some [t ++ " <- " ++ t ++ " " ++ sign.toString ++ " 1"]
  else none

/-- A value that needs no parentheses behind an operator: words, dots and indices only. -/
def isSimpleOperand (value : String) : Bool :=
  let cs := value.toList.filter (· != ' ')
  !cs.isEmpty && cs.all fun c => isWordChar c || c == '.' || c == '[' || c == ']'

def operatorWord (op : Char) : String :=
  if op == '%' then "MOD" else op.toString

def assignmentLines (a : Assignment) : Option (List String) :=
  if isLiftable a.value && isLiftable a.target then
    let target := liftExpr a.target
    let value := liftExpr a.value
    match a.op with
    | none => some [target ++ " <- " ++ value]
    | some op =>
      let operand := if isSimpleOperand value then value else "(" ++ value ++ ")"
      some [target ++ " <- " ++ target ++ " " ++ operatorWord op ++ " " ++ operand]
  else none

def callLines (c : Call) : Option (List String) :=
  if c.closed && isLiftable c.args then some [safeName c.name ++ "(" ++ liftExpr c.args ++ ")"] else none

/-- A statement that changes nothing that is known: a call, a step or an assignment. -/
def actionLines (text : List Char) : Option (List String) :=
  let call := call? text
  match call.filter fun c => inOutNames.contains c.name && c.closed with
  | some c => inOutLines c
  | none =>
    match increment? text with
    | some (sign, target) => incrementLines sign target
    | none =>
      match assignment? text with
      | some a => assignmentLines a
      | none => call.bind callLines

/-! ## Statements -/

def isReturn (text : List Char) : Bool :=
  text == "return".toList || "return ".toList.isPrefixOf text || "return(".toList.isPrefixOf text

/-- A `return`: without a value, and always in `main`, it says nothing if no block is open and has no
counterpart otherwise. -/
def returnLines (r : OpenRoutine) (value : List Char) : Option (List String) :=
  if value.isEmpty || r.isMain then
    if r.blocks.isEmpty then some [] else none
  else if isLiftable value then some ["RETURN(" ++ liftExpr value ++ ")"]
  else none

/-- A `break`: it says nothing in a switch and has no counterpart in a loop. -/
def breakLines (s : Scene) : Scene × Option (List String) :=
  match OpenRoutine.breakSwitch? s.routine.blocks with
  | some blocks => (s.update fun r => { r with blocks }, some [])
  | none => (s, none)

def statement (s : Scene) (text : List Char) : Except Failure (Scene × Option (List String)) :=
  if text.isEmpty then .ok (s, some [])
  else if isReturn text then .ok (s, returnLines s.routine (trim (text.drop 6)))
  else if text == "break".toList then .ok (breakLines s)
  else if text == "continue".toList then .ok (s, none)
  else
    match typed? s.sketch.typeNames text with
    | some t => do
      let d ← s.sketch.attempt (declaration t.type t.rest t.isConst)
      let (s, lines) := s.declare d
      return (s, some lines)
    | none => .ok (s, actionLines text)

end AlgoLang.Lift
