/-
# Flowcharts as graphs of boxes and arrows

Nodes and edges are numbered from one in the order in which they were made.  The place of a node is that
of its upper left corner; sizes of nodes are whole numbers.
-/
import AlgoLang.Flow.Position
import AlgoLang.Source

namespace AlgoLang.Flow

inductive NodeKind where
  | start
  | stop
  | process
  | decision
  | loop
  | call
  | return
  | merge
  | declaration
  deriving DecidableEq

def NodeKind.name : NodeKind → String
  | start => "start"
  | stop => "end"
  | process => "process"
  | decision => "decision"
  | loop => "loop"
  | call => "call"
  | .return => "return"
  | merge => "merge"
  | declaration => "declaration"

inductive EdgeKind where
  | normal
  | whenTrue
  | whenFalse
  | loop
  | case
  deriving DecidableEq

def EdgeKind.name : EdgeKind → String
  | normal => "normal"
  | whenTrue => "true"
  | whenFalse => "false"
  | loop => "loop"
  | case => "case"

/-- A box; `links` are the routines of the program that it calls. -/
structure Node where
  id : Nat
  kind : NodeKind
  label : String
  span : Option Span := none
  x : Position := .halves 0
  y : Position := .halves 0
  width : Int := 0
  height : Int := 0
  links : List String := []

structure Edge where
  id : Nat
  source : Nat
  target : Nat
  label : Option String := none
  kind : EdgeKind := .normal

def nodeName (id : Nat) : String := s!"n{id}"

def edgeName (id : Nat) : String := s!"e{id}"

inductive Role where
  | main
  | function
  | procedure
  deriving DecidableEq

def Role.name : Role → String
  | main => "main"
  | function => "function"
  | procedure => "procedure"

structure Chart where
  name : String
  role : Role
  nodes : List Node := []
  edges : List Edge := []
  width : Position := .halves 0
  height : Position := .halves 0

namespace Chart

def node? (c : Chart) (name : String) : Option Node :=
  c.nodes.find? fun n => nodeName n.id == name

def nodesOfKind (c : Chart) (kind : NodeKind) : List Node :=
  c.nodes.filter fun n => n.kind == kind

def outgoing (c : Chart) (name : String) : List Edge :=
  c.edges.filter fun e => nodeName e.source == name

def incoming (c : Chart) (name : String) : List Edge :=
  c.edges.filter fun e => nodeName e.target == name

def start? (c : Chart) : Option Node :=
  c.nodes.head?

def stop? (c : Chart) : Option Node :=
  (c.nodesOfKind .stop).getLast?

end Chart

end AlgoLang.Flow
