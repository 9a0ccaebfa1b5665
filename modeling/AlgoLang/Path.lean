/-
# Names of files

Empty parts and single dots are dropped when a path is read, so that writing it gives a tidy form.  The suffix
of a name is what follows its last dot, with the dot; a dot at either end of the name starts none.
-/
import AlgoLang.Flow.Program

namespace AlgoLang

/-- A path; the root is empty for one that starts from the working directory. -/
structure Path where
  root : String := ""
  parts : List String
  deriving DecidableEq

namespace Path

/-- The root that a text starts with: two slashes are kept, more of them count as one. -/
def rootOf (cs : List Char) : String :=
  match (cs.takeWhile (· == '/')).length with
  | 0 => ""
  | 2 => "//"
  | _ => "/"

def ofText (s : String) : Path :=
  { root := rootOf s.toList
    parts := ((Text.splitAt '/' s.toList).map String.ofList).filter fun p => p != "" && p != "." }

def text (p : Path) : String :=
  if p.parts.isEmpty then (if p.root.isEmpty then "." else p.root)
  else p.root ++ "/".intercalate p.parts

def name (p : Path) : String :=
  p.parts.getLast?.getD ""

def parent (p : Path) : Path :=
  { p with parts := p.parts.dropLast }

/-- A name as what stands before its suffix, and the suffix. -/
def splitSuffix (name : List Char) : List Char × List Char :=
  let ending := (name.reverse.takeWhile (· != '.')).reverse
  let stem := name.take (name.length - ending.length - 1)
  if ending.isEmpty || stem.isEmpty then (name, []) else (stem, '.' :: ending)

def suffix (p : Path) : String :=
  String.ofList (splitSuffix p.name.toList).2

def withSuffix (p : Path) (suffix : String) : Path :=
  { p with parts := p.parts.dropLast ++ [String.ofList (splitSuffix p.name.toList).1 ++ suffix] }

def isAlgoName (name : String) : Bool :=
  (Text.lower name).endsWith ".algo"

def isC (p : Path) : Bool :=
  [".c", ".h"].contains (Text.lower p.suffix)

def language (p : Path) : Flow.Language :=
  if isAlgoName p.name then .algo else if p.isC then .c else .algo

end Path

end AlgoLang
