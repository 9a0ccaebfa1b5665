/-
# Files held in memory

A folder is there if it was put there or if something lies in it.  A path is followed name by name: each step
needs a folder to stand in, and two dots lead back.  Outside the store there are folders around it up to the
root, and one device that holds nothing and takes everything.
-/
import AlgoLang.Host

namespace AlgoLang

inductive Entry where
  | file (bytes : List UInt8)
  | folder
  deriving DecidableEq

/-- Files and folders under the names that lead to them; a later entry hides an earlier one. -/
structure Store where
  entries : List (List String × Entry) := []

namespace Store

def bytes? (s : Store) (names : List String) : Option (List UInt8) :=
  match s.entries.find? fun e => e.1 == names with
  | some (_, .file bytes) => some bytes
  | _ => none

def kindAt? (s : Store) (names : List String) : Option EntryKind :=
  match s.entries.find? fun e => e.1 == names with
  | some (_, .file _) => some .file
  | some (_, .folder) => some .folder
  | none => if names.isEmpty || s.entries.any (fun e => names.isPrefixOf e.1) then some .folder else none

def put (s : Store) (names : List String) (e : Entry) : Store :=
  ⟨(names, e) :: s.entries.filter fun old => old.1 != names⟩

/-- Where a path leads: to a place in the store, where nothing need be; to a folder around it; or to
the device that holds nothing. -/
inductive Target where
  | inside (names : List String)
  | around
  | device
  deriving DecidableEq

def maxName : Nat := 255

/-- A path has fewer bytes than this. -/
def pathLimit : Nat := 4096

def isOutward (step : String) : Bool :=
  step == "" || step == "." || step == ".."

def followAround (steps : List String) : Except FileFault Target :=
  if steps.all isOutward then .ok .around else .error .missing

def followRoot (steps : List String) : Except FileFault Target :=
  match steps.filter fun step => !isOutward step with
  | [] => .ok .around
  | ["dev"] | ["tmp"] => .ok .around
  | ["dev", "null"] => .ok .device
  | _ => .error .missing

/-- Where the steps of a path lead from a place in the store. -/
def follow (s : Store) (here : List String) : List String → Except FileFault Target
  | [] => .ok (.inside here)
  | step :: steps =>
    match s.kindAt? here with
    | some .folder =>
      if step == "" || step == "." then s.follow here steps
      else if step == ".." then
        if here.isEmpty then followAround steps else s.follow here.dropLast steps
      else if maxName < step.utf8ByteSize then .error .nameTooLong
      else s.follow (here ++ [step]) steps
    | some .file => .error .notFolder
    | none => .error .missing

def locate (s : Store) (path : String) : Except FileFault Target :=
  let steps := (Text.splitAt '/' path.toList).map String.ofList
  if path.isEmpty then .error .missing
  else if pathLimit ≤ path.utf8ByteSize then .error .nameTooLong
  else if path.startsWith "/" then followRoot steps
  else s.follow [] steps

def kind? (s : Store) : Target → Option EntryKind
  | .inside names => s.kindAt? names
  | .around => some .folder
  | .device => some .file

def read (s : Store) (path : String) : Except FileFault (List UInt8) := do
  match ← s.locate path with
  | .around => .error .isFolder
  | .device => .ok []
  | .inside names =>
    match s.bytes? names, s.kindAt? names with
    | some bytes, _ => .ok bytes
    | none, some _ => .error .isFolder
    | none, none => .error .missing

def write (s : Store) (path text : String) : Except FileFault Store := do
  match ← s.locate path with
  | .around => .error .isFolder
  | .device => .ok s
  | .inside names =>
    if s.kindAt? names == some .folder then .error .isFolder
    else .ok (s.put names (.file text.toUTF8.toList))

/-- The files in a folder and in those in it, by the names that lead to them from there. -/
def filesIn (s : Store) (names : List String) : List (List String) :=
  s.entries.filterMap fun
    | (place, .file _) => if names.isPrefixOf place then some (place.drop names.length) else none
    | (_, .folder) => none

/-- The files below the folder that a path leads to; none if it leads to no folder of the store. -/
def filesBelow (s : Store) (path : String) : List (List String) :=
  match s.locate path with
  | .ok (.inside names) => if s.kindAt? names == some .folder then s.filesIn names else []
  | _ => []

def host : Host (StateM Store) where
  kind? path := do
    let s ← get
    return (s.locate path).toOption.bind s.kind?
  read path := return (← get).read path
  write path text := do
    match (← get).write path text with
    | .ok s => set s; return .ok ()
    | .error f => return .error f
  filesBelow path := return (← get).filesBelow path
  sameFile a b := do
    let s ← get
    return (s.locate a).toOption == (s.locate b).toOption

/-- The files that are new or other than before, by their paths in order, with their bytes. -/
def changedSince (after before : Store) : List (String × List UInt8) :=
  let files := after.entries.filterMap fun
    | (names, .file bytes) =>
      if before.bytes? names == some bytes then none else some ("/".intercalate names, bytes)
    | (_, .folder) => none
  files.mergeSort fun a b => a.1 ≤ b.1

end Store

end AlgoLang
