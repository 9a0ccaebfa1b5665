/-
# Stars and ampersands that only pass a variable by reference

A pointer parameter of C becomes a parameter by reference.  So the star before it is dropped, an arrow after it
becomes a dot, and the ampersand before an argument goes where the callee takes that argument through a
pointer.  A star is a multiplication unless it has nothing to its left that could be an operand.
-/
import AlgoLang.CSource.Bracket
import AlgoLang.Keyed
import AlgoLang.Text.Substitute
import AlgoLang.Text.Word

namespace AlgoLang.CSource

open Text

/-- The characters after which an operator has no left operand. -/
def prefixMarks : List Char :=
  "([\x7b,=+-*/%<>!&|?:;~".toList

/-- Whether the text behind, nearest character first, ends in the word `return`. -/
def endsInReturn (behind : List Char) : Bool :=
  "nruter".toList.isPrefixOf behind && !(behind.drop 6).head?.any isWordChar

/-- Whether an operator with this text behind it, nearest character first, has no left operand. -/
def isPrefixPlace (behind : List Char) : Bool :=
  match trimStart behind with
  | [] => true
  | c :: rest => prefixMarks.contains c || endsInReturn (c :: rest)

/-- Whether a star ahead is a dereference; `behind` is the text before, nearest character first. -/
def dereferencesFrom (behind : List Char) : List Char → Bool
  | [] => false
  | c :: cs => (c == '*' && isPrefixPlace behind) || dereferencesFrom (c :: behind) cs

def hasDereference (cs : List Char) : Bool :=
  dereferencesFrom [] cs

/-! ## Dereferences -/

/-- The first of the names that the text starts with and whose rest fits, with that rest. -/
def firstName? (names : List (List Char)) (fits : List Char → List Char → Option (List Char))
    (cs : List Char) : Option (List Char × List Char) :=
  names.findSome? fun n =>
    if n.isPrefixOf cs then (fits n (cs.drop n.length)).map fun rest => (n, rest) else none

/-- The stretch from `cs` to the shorter text `rest`, with what stands in its stead. -/
def stretch (cs rest instead : List Char) : Option Found :=
  Found.ofLength (cs.length - rest.length) instead

/-- A dereferenced name in parentheses that hold nothing else. -/
def groupedDereference (names : List (List Char)) : Finder := fun _ cs =>
  match cs with
  | '(' :: r =>
    match trimStart r with
    | '*' :: r =>
      let fits (_ : List Char) (rest : List Char) : Option (List Char) :=
        match trimStart rest with
        | ')' :: after => some after
        | _ => none
      (firstName? names fits (trimStart r)).bind fun (n, rest) => stretch cs rest n
    | _ => none
  | _ => none

def plainDereference (names : List (List Char)) : Finder := fun _ cs =>
  match cs with
  | '*' :: r =>
    let blanks := r.takeWhile isBlank
    let fits (n : List Char) (rest : List Char) : Option (List Char) :=
      if isWordEdge (('*' :: blanks ++ n).getLast?) rest.head? then some rest else none
    (firstName? names fits (trimStart r)).bind fun (n, rest) => stretch cs rest n
  | _ => none

def arrowAccess (names : List (List Char)) : Finder := fun behind cs =>
  let fits (_ : List Char) (rest : List Char) : Option (List Char) :=
    match trimStart rest with
    | '-' :: '>' :: after => some (trimStart after)
    | _ => none
  if isWordEdge behind.head? cs.head? then
    (firstName? names fits cs).bind fun (n, rest) => stretch cs rest (n ++ ['.'])
  else none

/-- Leaves a stretch as it is, though passed over, where it may not be replaced. -/
def guarded (allowed : List Char → Bool) (find : Finder) : Finder := fun behind cs =>
  (find behind cs).map fun f => if allowed behind then f else ⟨f.more, cs.take (f.more + 1)⟩

def stripDereferences (names : List String) (cs : List Char) : List Char :=
  let names := (names.mergeSort (· ≤ ·)).map String.toList
  let inCode (cs behind : List Char) : Bool := !inLiteral cs behind.length
  let unary (cs behind : List Char) : Bool := inCode cs behind && isPrefixPlace behind
  let cs := substitute (guarded (unary cs) (groupedDereference names)) cs
  let cs := substitute (guarded (unary cs) (plainDereference names)) cs
  substitute (guarded (inCode cs) (arrowAccess names)) cs

/-! ## Addresses -/

/-- The name at the front of a text if it is called there, and how far the parenthesis is. -/
def callAt? (cs : List Char) : Option (List Char × Nat) :=
  match takeWord? cs with
  | some (name, rest) =>
    match trimStart rest with
    | '(' :: after => some (name, cs.length - after.length - 1)
    | _ => none
  | none => none

/-- The calls in a text that begin outside literals: the name, and the index of the parenthesis.  `m` is
where the scan stands, and `before` the character just passed. -/
def callsFrom (m : Mode) (before : Option Char) (index : Nat) : List Char → List (List Char × Nat)
  | [] => []
  | c :: rest =>
    let here := if m.spot c == .code && isWordEdge before (some c) then
        (callAt? (c :: rest)).toList.map fun (n, away) => (n, index + away)
      else []
    here ++ callsFrom (m.next c) (some c) (index + 1) rest

def withoutAddress? (arg : List Char) : Option (List Char) :=
  match trim arg with
  | '&' :: '&' :: _ => none
  | '&' :: rest => some (trim rest)
  | _ => none

/-- The arguments, those that go through a pointer without their ampersands; none if there is no such
argument. -/
def passByName? (flags : List Bool) (args : List (List Char)) : Option (List (List Char)) :=
  let stripped := args.zipIdx.map fun (a, i) => if flags[i]?.getD false then withoutAddress? a else none
  if stripped.any Option.isSome then
    some ((args.zip stripped).map fun (a, s) => s.getD (trim a))
  else none

def stripCall (byPointer : Keyed (List Bool)) (call : List Char × Nat) (cs : List Char) : List Char :=
  match byPointer.get? (String.ofList call.1), parenthesised? (cs.drop (call.2 + 1)) with
  | some flags, some (inside, after) =>
    match passByName? flags (splitTopLevel ',' inside) with
    | some args => cs.take (call.2 + 1) ++ [',', ' '].intercalate args ++ ')' :: after
    | none => cs
  | _, _ => cs

/-- The text without the ampersands of arguments that their callee takes through a pointer.  Later
calls come first, so that the places of earlier ones stay where they are. -/
def stripAddressOf (byPointer : Keyed (List Bool)) (cs : List Char) : List Char :=
  (callsFrom .code none 0 cs).foldr (stripCall byPointer) cs

end AlgoLang.CSource
