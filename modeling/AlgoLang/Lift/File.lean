/-
# The outer level of a C file

Here stand constants, types, variables, and the heads of routines.  A compound type takes several
fragments: its head, its members, a closing brace and a last piece with a name.
-/
import AlgoLang.CSource.Fragment
import AlgoLang.Lift.Control

namespace AlgoLang.Lift

open Text CSource

/-! ## Constants -/

/-- A `#define`: its name, whether it has parameters, and its value. -/
structure Definition where
  name : String
  hasParams : Bool
  value : List Char

/-- Parameters of a definition, and the rest behind them. -/
def afterParams? : List Char → Option (List Char)
  | '(' :: r =>
    match r.dropWhile (· != ')') with
    | _ :: rest => some rest
    | [] => none
  | _ => none

def definition? (cs : List Char) : Option Definition :=
  match cs with
  | '#' :: r =>
    let directive := trimStart r
    let blanks := (directive.drop 6).takeWhile isBlank
    let body := trimStart (directive.drop 6)
    let name := body.takeWhile isWordChar
    if "define".toList.isPrefixOf directive && !blanks.isEmpty && !name.isEmpty then
      let rest := body.dropWhile isWordChar
      match afterParams? rest with
      | some value => some ⟨String.ofList name, true, trimStart value⟩
      | none => some ⟨String.ofList name, false, trimStart rest⟩
    else none
  | _ => none

/-- A definition without parameters whose value is a literal is a constant; one without a value is
nothing. -/
def Sketch.define (sk : Sketch) (m : Definition) : Except Failure Sketch := do
  if m.value.isEmpty && !m.hasParams then return sk
  match ← sk.attempt (if m.hasParams then .ok none else literal? m.value) with
  | some value => return { sk with constants := sk.constants ++ [(safeName m.name, value)] }
  | none => return sk.warn ["Macro '" ++ m.name ++ "' is not a simple constant, skipped"]

/-! ## Types -/

def aliasable : List String :=
  ["INTEGER", "REAL", "CHAR", "BOOLEAN", "STRING"]

def onlyName? (cs : List Char) : Option String :=
  match takeWord? cs with
  | some (w, r) =>
    let tail := trimStart r
    if tail.isEmpty || tail == [';'] then some (String.ofList w) else none
  | none => none

/-- A `typedef` of a type that is known; names of compound types are only noted. -/
def Sketch.typedef (sk : Sketch) (text : List Char) : Sketch :=
  let found := (typed? sk.typeNames (text.drop 7)).bind fun t => (onlyName? t.rest).map fun n => (t.type, n)
  match found with
  | none => sk.warn ["Unsupported typedef skipped: " ++ String.ofList text]
  | some (type, name) =>
    if aliasable.contains type then
      { sk with
        types := sk.types ++ [.synonym (safeName name) type]
        typeNames := sk.typeNames.put name (safeName name) }
    else { sk with typeNames := sk.typeNames.put name type }

/-- The head of a compound type: whether it is an enumeration, and its tag. -/
structure CompoundHead where
  isEnum : Bool
  tag : Option String

def afterTypedef (cs : List Char) : List Char :=
  if "typedef".toList.isPrefixOf cs && (cs.drop 7).head?.any isBlank then trimStart (cs.drop 7) else cs

def compoundHead? (cs : List Char) : Option CompoundHead :=
  match takeWord? (afterTypedef cs) with
  | some (w, r) =>
    let word := String.ofList w
    if tagWords.contains word then
      let tag := if r.head?.any isBlank then (leadingWord? r).map fun t => String.ofList t.1 else none
      some ⟨word == "enum", tag⟩
    else none
  | none => none

def upcoming : List Fragment → List Char
  | f :: _ => f.text
  | [] => []

def endsWith (c : Char) (cs : List Char) : Bool :=
  cs.getLast? == some c

/-- Whether the members of a compound type follow its head. -/
def startsCompound (head : List Char) (next : List Fragment) : Bool :=
  !head.contains '(' &&
    (endsWith '\x7b' head || (upcoming next == ['\x7b'] && !endsWith ';' head))

/-- The members of a compound type inside `depth + 1` braces, and how many fragments they take with
their closing brace. -/
def members (depth : Nat) : List Fragment → List (List Char) × Nat
  | [] => ([], 0)
  | f :: fs =>
    if f.text == ['\x7d'] then
      match depth with
      | 0 => ([], 1)
      | d + 1 =>
        let (ms, n) := members d fs
        (ms, n + 1)
    else if endsWith '\x7b' f.text then
      let (ms, n) := members (depth + 1) fs
      (ms, n + 1)
    else
      let (ms, n) := members depth fs
      (if depth == 0 then f.text :: ms else ms, n + 1)

/-- The last piece of a compound type: a name or nothing, and a semicolon. -/
def compoundTail? (cs : List Char) : Option (Option String) :=
  let (name, r) := match takeWord? cs with
    | some (w, r) => (some (String.ofList w), r)
    | none => (none, cs)
  if trimStart r == [';'] then some name else none

/-- The values of an enumeration; what is no name is left out. -/
def enumValues (ms : List (List Char)) : List String :=
  (ms.flatMap (splitTopLevel ',')).filterMap fun item =>
    let value := trim (item.takeWhile (· != '='))
    if isWord value then some (safeName (String.ofList value)) else none

/-- The fields that a member of a structure declares; what is no declaration is left out. -/
def memberFields (names : Keyed String) (m : List Char) : Declared :=
  match typed? names m with
  | some t => declareList false t.type (dropEnd (· == ';') t.rest)
  | none => {}

def Sketch.recordFields (sk : Sketch) (ms : List (List Char)) : Except Failure (Sketch × List Variable) :=
  ms.foldlM (fun (sk, fields) m =>
    let d := memberFields sk.typeNames m
    let sk := sk.warn d.warnings
    match sk.indentFault, d.vars with
    | some fault, _ :: _ => .error ⟨fault, sk.warnings⟩
    | _, vars => .ok (sk, fields ++ vars)) (sk, [])

/-- Adds a compound type under its name; its tag stands for it as well. -/
def Sketch.addCompound (sk : Sketch) (head : CompoundHead) (name : String) (entry : TypeEntry) : Sketch :=
  let typeNames := sk.typeNames.put name (safeName name)
  { sk with
    types := sk.types ++ [entry]
    typeNames := head.tag.elim typeNames fun tag => typeNames.put tag (safeName name) }

/-- A compound type with the given name and members; one without members is nothing. -/
def Sketch.compoundNamed (sk : Sketch) (head : CompoundHead) (name : String) (ms : List (List Char)) :
    Except Failure Sketch :=
  if head.isEnum then
    match enumValues ms with
    | [] => .ok sk
    | values => .ok (sk.addCompound head name (.enumeration (safeName name) values))
  else
    (sk.recordFields ms).map fun
      | (sk, []) => sk
      | (sk, fields) => sk.addCompound head name (.record (safeName name) fields)

/-- A compound type, and how many of the fragments behind its head it takes. -/
def Sketch.compound (sk : Sketch) (head : CompoundHead) (text : List Char) (next : List Fragment) :
    Except Failure (Sketch × Nat) :=
  let brace := if endsWith '\x7b' text then 0 else 1
  let (ms, count) := members 0 (next.drop brace)
  let taken := brace + count
  let tail := compoundTail? (upcoming (next.drop taken))
  let name := tail.join.or head.tag
  (name.elim (.ok sk) fun n => sk.compoundNamed head n ms).map fun sk =>
    (sk, taken + if tail.isSome then 1 else 0)

/-! ## Routines -/

/-- The head of a routine: whether stars stand before its name, its parameters, and what follows. -/
structure RoutineHead where
  starred : Bool
  name : String
  params : List Char
  terminator : Option Char

/-- The text before the last closing parenthesis, and the text after it. -/
def aroundLastParen? (cs : List Char) : Option (List Char × List Char) :=
  match cs.reverse.dropWhile (· != ')') with
  | _ :: before => some (before.reverse, (cs.reverse.takeWhile (· != ')')).reverse)
  | [] => none

def routineHead? (cs : List Char) : Option RoutineHead :=
  let starred := cs.head? == some '*'
  match takeWord? (trimStart (cs.dropWhile (· == '*'))) with
  | none => none
  | some (w, r) =>
    match trimStart r with
    | '(' :: r =>
      match aroundLastParen? r with
      | some (params, tail) =>
        match trimStart tail with
        | [] => some ⟨starred, String.ofList w, params, none⟩
        | [c] => if c == '\x7b' || c == ';' then some ⟨starred, String.ofList w, params, some c⟩ else none
        | _ => none
      | none => none
    | _ => none

def Sketch.notePointers (sk : Sketch) (h : RoutineHead) : Sketch :=
  if h.name == "main" then sk
  else { sk with byPointer := sk.byPointer.put h.name ((pointerParams sk.typeNames h.params).map Option.isSome) }

def Sketch.openRoutine (sk : Sketch) (h : RoutineHead) (type : String) (origin : Nat) : Scene :=
  let awaiting := h.terminator != some '\x7b'
  if h.name == "main" then ⟨sk, { draft := { name := "main", origin }, isMain := true, awaiting }⟩
  else
    let (params, warnings) := liftParams sk.typeNames h.params
    let result := if type == "VOID" then none else some type
    ⟨sk.warn warnings,
      { draft := { name := safeName h.name, origin, result, params }
        isMain := false
        pointers := (pointerParams sk.typeNames h.params).filterMap id
        awaiting }⟩

/-! ## Fragments -/

/-- Where a fragment of the outer level leads: it stays there and takes further fragments, or opens a
routine. -/
inductive Level where
  | outer (sk : Sketch) (taken : Nat)
  | routine (s : Scene)

def Sketch.typedFragment (sk : Sketch) (t : Typed) (origin : Nat) : Except Failure Level :=
  match routineHead? t.rest with
  | some h =>
    let sk := sk.notePointers h
    if h.terminator == some ';' then .ok (.outer sk 0)
    else
      let type := if h.starred && t.type == "CHAR" then "STRING" else t.type
      .ok (.routine (sk.openRoutine h type origin))
  | none => do
    let d ← sk.attempt (declaration t.type (dropEnd (· == ';') t.rest) t.isConst)
    let (sk, initials) := sk.declare d
    return .outer { sk with initials := sk.initials ++ initials.map (·, origin) } 0

/-- A fragment of the outer level; `next` are the fragments behind it. -/
def Sketch.fragment (sk : Sketch) (f : Fragment) (next : List Fragment) : Except Failure Level := do
  if f.text.head? == some '#' then
    match definition? f.text with
    | some m => return .outer (← sk.define m) 0
    | none => return .outer sk 0
  if f.text == [';'] || f.text == ['\x7d'] then return .outer sk 0
  match (compoundHead? f.text).filter fun _ => startsCompound f.text next with
  | some head =>
    let (sk, taken) ← sk.compound head f.text next
    return .outer sk taken
  | none =>
    if "typedef".toList.isPrefixOf f.text then return .outer (sk.typedef f.text) 0
    match typed? sk.typeNames f.text with
    | none => return .outer (sk.warn ["Unsupported top-level line skipped: " ++ String.ofList f.text]) 0
    | some t => sk.typedFragment t f.origin

def Scene.abandon (s : Scene) : Sketch :=
  let sk := s.sketch.warn ["Missing '\x7d' at end of '" ++ s.routine.draft.name ++ "'"]
  sk.store s.routine.isMain ((OpenRoutine.closeAll s.routine s.routine.blocks).finish none)

def elseNext (next : List Fragment) : Bool :=
  startsWithWord "else" (upcoming next)

/-- Goes through fragments on either level; `taken` of them have been dealt with. -/
def fragments (level : Level) : List Fragment → Except Failure Sketch
  | [] =>
    match level with
    | .outer sk _ => .ok sk
    | .routine s => .ok s.abandon
  | f :: fs =>
    match level with
    | .outer sk (n + 1) => fragments (.outer sk n) fs
    | .outer sk 0 => do fragments (← sk.fragment f fs) fs
    | .routine s => do
      match ← Lift.fragment s f.text f.origin (elseNext fs) with
      | .inside s _ => fragments (.routine s) fs
      | .outside sk => fragments (.outer sk 0) fs

end AlgoLang.Lift
