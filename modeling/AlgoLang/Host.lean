/-
# What the tools ask of the files around them

The tools are written against a `Host`, so that the same text runs on the files of a machine and on files that
are only held in memory.  Texts are read as UTF-8, and every line break is read as a plain one.
-/
import AlgoLang.Text.Line
import AlgoLang.Text.Utf8

namespace AlgoLang

inductive EntryKind where
  | file
  | folder
  deriving DecidableEq

inductive FileFault where
  | missing
  | denied
  | notFolder
  | isFolder
  | nameTooLong
  deriving DecidableEq

namespace FileFault

def number : FileFault → Nat
  | missing => 2
  | denied => 13
  | notFolder => 20
  | isFolder => 21
  | nameTooLong => 36

def reason : FileFault → String
  | missing => "No such file or directory"
  | denied => "Permission denied"
  | notFolder => "Not a directory"
  | isFolder => "Is a directory"
  | nameTooLong => "File name too long"

def message (f : FileFault) (path : String) : String :=
  "[Errno " ++ toString f.number ++ "] " ++ f.reason ++ ": " ++ Text.quoted path

end FileFault

/-- Questions about files, and the one thing that is done to them.  `filesBelow` lists the files of a
folder and of those in it, each by the names that lead to it, in any order. -/
structure Host (m : Type → Type) where
  kind? : String → m (Option EntryKind)
  read : String → m (Except FileFault (List UInt8))
  write : String → String → m (Except FileFault Unit)
  filesBelow : String → m (List (List String))
  sameFile : String → String → m Bool

inductive ReadFault where
  | file (path : String) (fault : FileFault)
  | encoding (fault : Text.Utf8Fault)
  deriving DecidableEq

def ReadFault.message : ReadFault → String
  | file path fault => fault.message path
  | encoding fault => fault.message

def textOf (bytes : List UInt8) : Except Text.Utf8Fault String :=
  (Text.decode bytes).map fun cs => String.ofList (Text.unifyBreaks cs)

def Host.readText {m : Type → Type} [Monad m] (h : Host m) (path : String) : m (Except ReadFault String) := do
  match ← h.read path with
  | .error f => return .error (.file path f)
  | .ok bytes =>
    match textOf bytes with
    | .ok text => return .ok text
    | .error f => return .error (.encoding f)

end AlgoLang
