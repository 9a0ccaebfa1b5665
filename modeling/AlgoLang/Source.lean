/-
# Places in a source text

A `Place` is where a scanner stands, and a `Location` is a place together with the name of its source.  Lines and
columns count from one, offsets from zero, and all of them count characters.
-/

namespace AlgoLang

def defaultFile : String := "<input>"

/-- A line and a column, counted from one, and the number of characters before them.  A caller may
hand in any numbers, so they are whole numbers and not only naturals. -/
structure Location where
  line : Int
  column : Int
  offset : Int := 0
  file : String := defaultFile
  deriving DecidableEq

def Location.start : Location := ⟨1, 1, 0, defaultFile⟩

instance : Inhabited Location := ⟨Location.start⟩

def Location.text (l : Location) : String :=
  s!"{l.file}:{l.line}:{l.column}"

/-- Whether the first location comes before the second one or stands at the same line and column. -/
def Location.notAfter (a b : Location) : Bool :=
  a.line < b.line || (a.line == b.line && a.column ≤ b.column)

/-- A stretch of source; `stop` is just past its last character. -/
structure Span where
  start : Location
  stop : Location
  deriving DecidableEq

def Span.containsLine (s : Span) (line : Int) : Bool :=
  s.start.line ≤ line && line ≤ s.stop.line

structure Place where
  line : Nat := 1
  column : Nat := 1
  offset : Nat := 0
  deriving DecidableEq

def Place.step (p : Place) (c : Char) : Place :=
  if c == '\n' then ⟨p.line + 1, 1, p.offset + 1⟩ else ⟨p.line, p.column + 1, p.offset + 1⟩

def Place.over (p : Place) (cs : List Char) : Place :=
  cs.foldl Place.step p

def Place.inFile (p : Place) (file : String) : Location :=
  ⟨p.line, p.column, p.offset, file⟩

@[simp] theorem Place.over_nil (p : Place) : p.over [] = p := rfl

@[simp] theorem Place.over_cons (p : Place) (c : Char) (cs : List Char) :
    p.over (c :: cs) = (p.step c).over cs := rfl

theorem Place.over_append (p : Place) (xs ys : List Char) :
    p.over (xs ++ ys) = (p.over xs).over ys :=
  List.foldl_append

end AlgoLang
