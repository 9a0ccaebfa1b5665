/-
# The C texts that a program may include

They are looked for in the folder of the program, in further folders, and in the folders in those.  Of two with
the same path the one found first stays; the program itself and files that hold no text are left out.
-/
import AlgoLang.Host
import AlgoLang.Path

namespace AlgoLang.Workspace

def addFile {m : Type → Type} [Monad m] (h : Host m) (input folder : Path) (files : CSource.Files)
    (names : List String) : m CSource.Files := do
  let path : Path := { folder with parts := folder.parts ++ names }
  let key := "/".intercalate names
  if !path.isC || (files.get? key).isSome then return files
  if ← h.sameFile path.text input.text then return files
  match ← h.readText path.text with
  | .ok text => return files.put key text
  | .error _ => return files

/-- Whether the first list of names comes before the second one or is the same; names are compared
one by one, by their characters. -/
def notAfter : List String → List String → Bool
  | [], _ => true
  | _ :: _, [] => false
  | a :: as, b :: bs => if a == b then notAfter as bs else a < b

/-- Adds the files below a folder, in the order of the names that lead to them. -/
def addFolder {m : Type → Type} [Monad m] (h : Host m) (input : Path) (files : CSource.Files)
    (folder : Path) : m CSource.Files := do
  let found := (← h.filesBelow folder.text).mergeSort notAfter
  found.foldlM (addFile h input folder) files

def load {m : Type → Type} [Monad m] (h : Host m) (input : Path) (folders : List Path) : m CSource.Files :=
  (input.parent :: folders).foldlM (addFolder h input) []

end AlgoLang.Workspace
