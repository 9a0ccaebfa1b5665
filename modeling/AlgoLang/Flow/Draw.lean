/-
# Statements as parts of a flowchart

Drawing a statement takes the exits that wait for their next node, and gives the exits that wait after it: a
branch without statements hands its exit on, and a `RETURN` leaves none.  Branches lie side by side and meet in
a merge node; loops are stacked.  The drawing keeps the first measure too great for a coordinate.
-/
import AlgoLang.Flow.Layout
import AlgoLang.Keyed
import AlgoLang.Stmt
import AlgoLang.Text.LetterCase

namespace AlgoLang.Flow

/-- The end of an arrow that has no head yet. -/
structure Exit where
  source : Nat
  label : Option String := none
  kind : EdgeKind := .normal
  deriving DecidableEq

/-- A flowchart under way, and the place for the next node: its middle and its top.  `routines` are the
routines of the program under small letters; `returns` are the nodes that lead straight to the end;
`fault` is the first measure that was too great. -/
structure Drawing where
  layout : Layout
  routines : Keyed String := []
  nodes : List Node := []
  edges : List Edge := []
  x : Position := .halves 0
  y : Position := .halves 0
  returns : List Nat := []
  fault : Option NumeralFault := none

/-- The routines of the program among called names, each once. -/
def linksOf (routines : Keyed String) (calls : List String) : List String :=
  calls.foldl (fun links name =>
    match routines.get? (Text.lower name) with
    | some r => if links.contains r then links else links ++ [r]
    | none => links) []

namespace Drawing

def require (d : Drawing) : Except NumeralFault Unit → Drawing
  | .ok _ => d
  | .error f => { d with fault := d.fault.or (some f) }

def nextId (d : Drawing) : Nat :=
  d.nodes.length + 1

/-- One more node below the others; its number is the old `nextId`. -/
def addNode (d : Drawing) (kind : NodeKind) (label : String) (span : Option Span) (calls : List String) :
    Drawing :=
  let label := d.layout.cut label
  let (width, height) := d.layout.size kind label
  let step := height + d.layout.verticalGap
  let node : Node :=
    { id := d.nextId, kind, label, span, x := d.layout.sub d.x (d.layout.halves width), y := d.y, width, height
      links := linksOf d.routines calls }
  let d := (d.require (d.layout.checkHalf width)).require (d.layout.checkUnits step)
  { d with nodes := d.nodes ++ [node], y := d.layout.add d.y (d.layout.units step) }

def addEdge (d : Drawing) (source target : Nat) (label : Option String) (kind : EdgeKind) : Drawing :=
  { d with edges := d.edges ++ [⟨d.edges.length + 1, source, target, label, kind⟩] }

def connect (d : Drawing) (exits : List Exit) (target : Nat) : Drawing :=
  exits.foldl (fun d e => d.addEdge e.source target e.label e.kind) d

def connectBack (d : Drawing) (exits : List Exit) (target : Nat) : Drawing :=
  exits.foldl (fun d e => d.addEdge e.source target e.label .loop) d

def place (d : Drawing) (kind : NodeKind) (label : String) (span : Option Span) (calls : List String)
    (exits : List Exit) : Drawing :=
  (d.addNode kind label span calls).connect exits d.nextId

def simple (d : Drawing) (kind : NodeKind) (label : String) (span : Option Span) (calls : List String)
    (exits : List Exit) : Drawing × List Exit :=
  (d.place kind label span calls exits, [{ source := d.nextId }])

/-- Where branches meet; nothing meets if they all end in a `RETURN`. -/
def merge (d : Drawing) (exits : List Exit) : Drawing × List Exit :=
  match exits with
  | [] => (d, [])
  | _ => d.simple .merge "" none [] exits

/-- How far the two branches of an `IF` lie from the center. -/
def branchOffset (d : Drawing) : Position :=
  d.layout.add (d.layout.units d.layout.horizontalGap) (d.layout.halves d.layout.nodeWidth)

def requireBranches (d : Drawing) : Drawing :=
  (d.require (d.layout.checkHalf d.layout.nodeWidth)).require (d.layout.checkUnits d.layout.horizontalGap)

def columnWidth (d : Drawing) : Int :=
  d.layout.nodeWidth + d.layout.horizontalGap

/-- The middle of the column that lies so many half columns from the center. -/
def columnAt (d : Drawing) (center : Position) (column : Int) : Position :=
  d.layout.add center (d.layout.halves (column * d.layout.rounding.nearest d.columnWidth))

def requireColumns (d : Drawing) : Drawing :=
  d.require (d.layout.checkUnits d.columnWidth)

def moveTo (d : Drawing) (x y : Position) : Drawing :=
  { d with x, y }

end Drawing

def stepText : Option Expr → String
  | none => "+ 1"
  | some step =>
    if step.isNegativeLiteral then
      let inner := match step with
        | .paren _ e => e
        | e => e
      match inner with
      | .unary _ _ e => "- " ++ e.format
      | e => "- " ++ String.ofList (e.format.toList.dropWhile (· == '-'))
    else "+ " ++ step.format

/-- Of two pairs of parentheses one is left, and the sign in it. -/
theorem stepText_nested : stepText (some (.paren none (.paren none (.unary none .neg (.integer none 1))))) = "- (- 1)" :=
  rfl

mutual

/-- Draws a statement.  One of an unknown kind is not drawn. -/
def draw (d : Drawing) (exits : List Exit) : Stmt → Drawing × List Exit
  | .assign span t v => d.simple .process (t.format ++ " ← " ++ v.format) span (t.calls ++ v.calls) exits
  | .print span es => d.simple .process ("Print(" ++ Expr.formatList es ++ ")") span (Expr.callsEach es) exits
  | .scan span ts => d.simple .process ("Read(" ++ Expr.formatList ts ++ ")") span (Expr.callsEach ts) exits
  | .call span n args =>
    d.simple .call (n ++ "(" ++ Expr.formatList args ++ ")") span (n :: Expr.callsEach args) exits
  | .return span e =>
    let drawn := d.place .return ("Return " ++ e.format) span e.calls exits
    ({ drawn with returns := drawn.returns ++ [d.nextId] }, [])
  | .ifThen span c yes no =>
    let decision := d.nextId
    let d := (d.place .decision c.format span c.calls exits).requireBranches
    let center := d.x
    let top := d.y
    let left := d.layout.sub center d.branchOffset
    let right := d.layout.add center d.branchOffset
    let (d, whenTrue) := drawEach (d.moveTo left top) [⟨decision, some "true", .whenTrue⟩] yes
    let bottom := top.max d.y
    let entry := [⟨decision, some "false", .whenFalse⟩]
    let (d, whenFalse) := match no with
      | some body => drawEach (d.moveTo right top) entry body
      | none => (d.moveTo right top, entry)
    (d.moveTo center (bottom.max d.y)).merge (whenTrue ++ whenFalse)
  | .while span c body =>
    let loop := d.nextId
    let d := d.place .loop c.format span c.calls exits
    let (d, back) := drawEach d [⟨loop, some "true", .whenTrue⟩] body
    (d.connectBack back loop, [⟨loop, some "false", .whenFalse⟩])
  | .doWhile span body c =>
    let head := d.nextId
    let (d, bodyExits) := drawEach d exits body
    let loop := d.nextId
    let d := d.place .loop c.format span c.calls bodyExits
    (d.addEdge loop head (some "true") .loop, [⟨loop, some "false", .whenFalse⟩])
  | .for span n a b step body =>
    let first := d.nextId
    let d := d.place .process (n ++ " ← " ++ a.format) span a.calls exits
    let loop := d.nextId
    let d := d.place .loop (n ++ " ≤ " ++ b.format) span b.calls [{ source := first }]
    let (d, bodyExits) := drawEach d [⟨loop, some "true", .whenTrue⟩] body
    let next := d.nextId
    let d := d.place .process (n ++ " ← " ++ n ++ " " ++ stepText step) span [] bodyExits
    (d.addEdge next loop none .loop, [⟨loop, some "false", .whenFalse⟩])
  | .switch span e cases default =>
    let decision := d.nextId
    let d := (d.place .decision ("Switch " ++ e.format) span e.calls exits).requireColumns
    let center := d.x
    let top := d.y
    let (d, bottom, clauseExits) := drawCases d decision center top (-cases.length) top cases
    let x := d.columnAt center cases.length
    let entry := [⟨decision, some "default", .case⟩]
    let (d, otherExits) := match default with
      | some body => drawEach (d.moveTo x top) entry body
      | none => (d.moveTo x top, entry)
    (d.moveTo center (bottom.max d.y)).merge (clauseExits ++ otherExits)
  | .block _ body => drawEach d exits body
  | .unknown _ => (d, exits)

def drawEach (d : Drawing) (exits : List Exit) : List Stmt → Drawing × List Exit
  | [] => (d, exits)
  | s :: ss =>
    let (d, exits) := draw d exits s
    drawEach d exits ss

/-- Draws the clauses of a switch side by side, the first one `column` half columns from the center
and the others a column apart, all from `top` on; `bottom` is how far down they reach. -/
def drawCases (d : Drawing) (decision : Nat) (center top : Position) (column : Int) (bottom : Position) :
    List CaseClause → Drawing × Position × List Exit
  | [] => (d, bottom, [])
  | ⟨_, values, body⟩ :: cs =>
    let entry := [⟨decision, some (Expr.formatList values), .case⟩]
    let (d, exits) := drawEach (d.moveTo (d.columnAt center column) top) entry body
    let (d, bottom, others) := drawCases d decision center top (column + 2) (bottom.max d.y) cs
    (d, bottom, exits ++ others)

end

/-- Calls in the step of a loop are linked to no node. -/
theorem draw_step_unlinked : (draw { layout := {}, routines := [("f", "f")] } []
    (.for none "i" (.integer none 1) (.integer none 9) (some (.call none "f" [])) [])).1.nodes.map Node.links =
      [[], [], []] := by
  decide +kernel

/-- Every selection moves its branches equally far, so those of two neighbours meet. -/
theorem draw_overlaps :
    let choice (yes no : Stmt) := Stmt.ifThen none (.boolean none true) [yes] (some [no])
    let inner := choice (.scan none []) (.scan none [])
    ¬((draw { layout := {} } [] (choice inner inner)).1.nodes.map fun n => (n.x, n.y)).Nodup := by
  decide +kernel

/-! ## Whole charts -/

namespace Drawing

def rightOf (d : Drawing) (n : Node) : Position :=
  d.layout.add n.x (d.layout.units n.width)

def bottomOf (d : Drawing) (n : Node) : Position :=
  d.layout.add n.y (d.layout.units n.height)

/-- The drawing as a chart, moved so that it has the padding on all sides. -/
def chart (d : Drawing) (name : String) (role : Role) : Chart :=
  match d.nodes with
  | [] => { name, role }
  | n :: ns =>
    let l := d.layout
    let left := Position.least n.x (ns.map Node.x)
    let top := Position.least n.y (ns.map Node.y)
    let right := Position.greatest (d.rightOf n) (ns.map d.rightOf)
    let bottom := Position.greatest (d.bottomOf n) (ns.map d.bottomOf)
    let moveX := l.sub (l.units l.padding) left
    let moveY := l.sub (l.units l.padding) top
    { name, role
      nodes := (n :: ns).map fun n => { n with x := l.add n.x moveX, y := l.add n.y moveY }
      edges := d.edges
      width := l.add (l.sub right left) (l.units (2 * l.padding))
      height := l.add (l.sub bottom top) (l.units (2 * l.padding)) }

/-- Whether all measures are coordinates: those of the drawing under way, then the sizes of the nodes and
the padding. -/
def check (d : Drawing) : Except NumeralFault Unit := do
  if let some f := d.fault then throw f
  d.nodes.forM fun n => do
    d.layout.checkUnits n.width
    d.layout.checkUnits n.height
  d.layout.checkUnits d.layout.padding
  d.layout.checkUnits (2 * d.layout.padding)

def declarations (d : Drawing) (exits : List Exit) : List (String × Option Span) → Drawing × List Exit
  | [] => (d, exits)
  | (label, span) :: ds =>
    let (d, exits) := d.simple .declaration label span [] exits
    declarations d exits ds

def finish (d : Drawing) (label : String) (exits : List Exit) : Drawing :=
  let drawn := d.place .stop label none [] exits
  drawn.connect (drawn.returns.map fun r => { source := r }) d.nextId

def ofBody (layout : Layout) (routines : Keyed String) (startLabel stopLabel : String)
    (declared : List (String × Option Span)) (body : List Stmt) : Drawing :=
  let d : Drawing := { layout, routines }
  let (d, exits) := d.simple .start startLabel none [] []
  let (d, exits) := if layout.showDeclarations then d.declarations exits declared else (d, exits)
  let (d, exits) := drawEach d exits body
  d.finish stopLabel exits

end Drawing

end AlgoLang.Flow
