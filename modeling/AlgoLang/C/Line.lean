/-
# Lines of C, and what has no counterpart in C

A line is kept as its text and the number of blocks around it; how far a block is indented is decided
when the lines are written out.
-/
import AlgoLang.Diagnostic

namespace AlgoLang.C

structure Line where
  depth : Nat := 0
  text : String := ""
  deriving DecidableEq

def Line.empty : Line := {}

def Line.render (indent : String) (l : Line) : String :=
  String.join (List.replicate l.depth indent) ++ l.text

def render (indent : String) (ls : List Line) : String :=
  "\n".intercalate (ls.map (Line.render indent))

/-- A part of a program that cannot be written in C: its kind, and where it stands. -/
structure Unsupported where
  kind : String
  span : Option Span

def Unsupported.diagnostic (u : Unsupported) : Diagnostic :=
  { phase := .generation, message := s!"Cannot generate code for {u.kind}"
    location := u.span.elim Location.start (·.start) }

end AlgoLang.C
