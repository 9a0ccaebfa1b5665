/-
# The tools on the files of this machine

The first argument names the tool, the others are its own.
-/
import AlgoLang.Command

namespace AlgoLang

/-- What is at fault when the system refuses something at a path. -/
def faultOf (isFolder : Bool) : IO.Error → FileFault
  | .noFileOrDirectory .. => .missing
  | .permissionDenied .. => .denied
  | .invalidArgument .. => .nameTooLong
  | _ => if isFolder then .isFolder else .notFolder

def kindOnDisk? (path : String) : IO (Option EntryKind) := do
  if path.isEmpty then return none
  try
    match (← ((← IO.currentDir) / path).metadata).type with
    | .dir => return some .folder
    | _ => return some .file
  catch _ => return none

/-- Does something to a path and says what was at fault if that fails. -/
def attempt {α : Type} (path : String) (action : IO α) : IO (Except FileFault α) := do
  try return .ok (← action)
  catch e => return .error (faultOf ((← kindOnDisk? path) == some .folder) e)

partial def filesOnDisk (folder : String) : IO (List (List String)) := do
  let mut found := []
  for entry in ← ((← IO.currentDir) / folder).readDir do
    match ← kindOnDisk? (folder ++ "/" ++ entry.fileName) with
    | some .folder =>
      let inside ← filesOnDisk (folder ++ "/" ++ entry.fileName)
      found := found ++ inside.map (entry.fileName :: ·)
    | some .file => found := [entry.fileName] :: found
    | none => pure ()
  return found

def disk : Host IO where
  kind? := kindOnDisk?
  read path := attempt path (return (← IO.FS.readBinFile path).toList)
  write path text := attempt path (IO.FS.writeBinFile path text.toUTF8)
  filesBelow folder := try filesOnDisk folder catch _ => return []
  sameFile a b := do
    try return (← IO.FS.realPath a).toString == (← IO.FS.realPath b).toString
    catch _ => return false

def currentSettings : IO Settings := do
  let found ← Settings.keys.filterMapM fun key => do
    return (← IO.getEnv key).map (key, ·)
  return Settings.ofEnv (Keyed.get? found)

/-- Shows what a tool said on either channel, in its plain form unless a terminal is there. -/
def present (s : Command.Spoken) : IO Unit := do
  IO.print (if ← (← IO.getStdout).isTty then s.out else s.plain.out)
  IO.eprint (if ← (← IO.getStderr).isTty then s.err else s.plain.err)

def Command.onDisk (c : Command) (args : List String) : IO UInt32 := do
  match ← c.run disk (← currentSettings) args with
  | .ok r =>
    present r.spoken
    return r.ending.code.toUInt32
  | .error fault =>
    IO.eprintln ("Usage: " ++ c.name ++ " [OPTIONS] " ++ Command.operandName ++ "\n\nError: " ++ fault.message)
    return Command.Ending.misuse.code.toUInt32

end AlgoLang

def main (args : List String) : IO UInt32 := do
  match args with
  | name :: rest =>
    match AlgoLang.Command.ofName? name with
    | some c => c.onDisk rest
    | none =>
      IO.eprintln ("No such tool: " ++ name)
      return 2
  | [] =>
    IO.eprintln "Usage: algoc | c2algo | algoflow [OPTIONS] INPUT_FILE"
    return 2
