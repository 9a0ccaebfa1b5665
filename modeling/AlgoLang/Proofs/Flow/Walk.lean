/-
# Traces of statements and walks through a flowchart

How a test comes out is left open, so a list of statements stands for a language of traces: those that run
through to its end, and those that stop at a `RETURN`.  `look` is what a flowchart shows of a step: a box, with
the outcome of a test on the arrow that leaves it.

A walk goes from box to box along the arrows.  Two facts carry all that follows: arrows to new boxes change no
walk to an old one, and arrows from exits `X` back to a box `h` add, to the walks from `a` to `b`, those that go
from `a` to an exit, any number of times around from `h` to an exit, and from `h` to `b`.
-/
import AlgoLang.Flow.Draw
import Mathlib

namespace AlgoLang.Flow

open Computability List

/-! ## Steps -/

/-- What one step does.  `branch` is the condition of an `IF`, `repeat` that of a loop; a counting loop
sets its counter `first`, compares it with its `bound` and goes on to the `next` value. -/
inductive Act where
  | assign (span : Option Span) (target value : Expr)
  | print (span : Option Span) (values : List Expr)
  | scan (span : Option Span) (targets : List Expr)
  | call (span : Option Span) (name : String) (arguments : List Expr)
  | return (span : Option Span) (value : Expr)
  | branch (span : Option Span) (condition : Expr)
  | repeat (span : Option Span) (condition : Expr)
  | select (span : Option Span) (selector : Expr)
  | first (span : Option Span) (counter : String) (value : Expr)
  | bound (span : Option Span) (counter : String) (last : Expr)
  | next (span : Option Span) (counter : String) (step : Option Expr)

/-- How a test comes out. -/
inductive Outcome where
  | holds
  | fails
  | clause (values : List Expr)
  | default

/-- One step of a trace; only tests have an outcome. -/
structure Event where
  act : Act
  outcome : Option Outcome := none

def once (act : Act) (outcome : Option Outcome := none) : Language Event :=
  {[⟨act, outcome⟩]}

/-! ## Traces -/

mutual

/-- The traces that run through a statement; one of an unknown kind does nothing. -/
def through : Stmt → Language Event
  | .assign span t v => once (.assign span t v)
  | .print span es => once (.print span es)
  | .scan span ts => once (.scan span ts)
  | .call span n args => once (.call span n args)
  | .return _ _ => 0
  | .ifThen span c yes no =>
    once (.branch span c) (some .holds) * throughEach yes + once (.branch span c) (some .fails) * (match no with
        | some body => throughEach body
        | none => 1)
  | .while span c body =>
    (once (.repeat span c) (some .holds) * throughEach body)∗ * once (.repeat span c) (some .fails)
  | .doWhile span body c =>
    (throughEach body * once (.repeat span c) (some .holds))∗ * (throughEach body * once (.repeat span c) (some .fails))
  | .for span n a b step body =>
    once (.first span n a) * ((once (.bound span n b) (some .holds) * throughEach body * once (.next span n step))∗ *
        once (.bound span n b) (some .fails))
  | .switch span e cases default =>
    throughCases (.select span e) cases + once (.select span e) (some .default) * (match default with
        | some body => throughEach body
        | none => 1)
  | .block _ body => throughEach body
  | .unknown _ => 1

/-- The traces that run through statements one after the other. -/
def throughEach : List Stmt → Language Event
  | [] => 1
  | s :: ss => through s * throughEach ss

/-- The traces that run through one of the clauses which `test` selects from. -/
def throughCases (test : Act) : List CaseClause → Language Event
  | [] => 0
  | ⟨_, values, body⟩ :: cs => once test (some (.clause values)) * throughEach body + throughCases test cs

end

mutual

/-- The traces that stop at a `RETURN` inside a statement. -/
def returned : Stmt → Language Event
  | .return span e => once (.return span e)
  | .ifThen span c yes no =>
    once (.branch span c) (some .holds) * returnedEach yes + once (.branch span c) (some .fails) * (match no with
        | some body => returnedEach body
        | none => 0)
  | .while span c body =>
    (once (.repeat span c) (some .holds) * throughEach body)∗ *
      (once (.repeat span c) (some .holds) * returnedEach body)
  | .doWhile span body c => (throughEach body * once (.repeat span c) (some .holds))∗ * returnedEach body
  | .for span n a b step body =>
    once (.first span n a) * ((once (.bound span n b) (some .holds) * throughEach body * once (.next span n step))∗ *
        (once (.bound span n b) (some .holds) * returnedEach body))
  | .switch span e cases default =>
    returnedCases (.select span e) cases + once (.select span e) (some .default) * (match default with
        | some body => returnedEach body
        | none => 0)
  | .block _ body => returnedEach body
  | .assign .. | .print .. | .scan .. | .call .. | .unknown .. => 0

def returnedEach : List Stmt → Language Event
  | [] => 0
  | s :: ss => returned s + through s * returnedEach ss

def returnedCases (test : Act) : List CaseClause → Language Event
  | [] => 0
  | ⟨_, values, body⟩ :: cs => once test (some (.clause values)) * returnedEach body + returnedCases test cs

end

def traces (body : List Stmt) : Language Event :=
  throughEach body + returnedEach body

/-! ## Looks -/

namespace Act

def kind : Act → NodeKind
  | assign .. | print .. | scan .. | first .. | next .. => .process
  | call .. => .call
  | .return .. => .return
  | branch .. | select .. => .decision
  | .repeat .. | bound .. => .loop

def text : Act → String
  | assign _ t v => t.format ++ " ← " ++ v.format
  | print _ es => "Print(" ++ Expr.formatList es ++ ")"
  | scan _ ts => "Read(" ++ Expr.formatList ts ++ ")"
  | call _ n args => n ++ "(" ++ Expr.formatList args ++ ")"
  | .return _ e => "Return " ++ e.format
  | branch _ c | .repeat _ c => c.format
  | select _ e => "Switch " ++ e.format
  | first _ n a => n ++ " ← " ++ a.format
  | bound _ n b => n ++ " ≤ " ++ b.format
  | next _ n step => n ++ " ← " ++ n ++ " " ++ stepText step

def span : Act → Option Span
  | assign s _ _ | print s _ | scan s _ | call s _ _ | .return s _ | branch s _ | .repeat s _ | select s _
  | first s _ _ | bound s _ _ | next s _ _ => s

def calls : Act → List String
  | assign _ t v => t.calls ++ v.calls
  | print _ es | scan _ es => Expr.callsEach es
  | call _ n args => n :: Expr.callsEach args
  | .return _ e | branch _ e | .repeat _ e | select _ e | first _ _ e | bound _ _ e => e.calls
  | next .. => []

end Act

def Outcome.label : Outcome → String
  | holds => "true"
  | fails => "false"
  | clause values => Expr.formatList values
  | default => "default"

/-- What a flowchart shows of a step: a box, and the text on the arrow that leaves it. -/
structure Look where
  kind : NodeKind
  label : String
  span : Option Span
  links : List String
  outcome : Option String
  deriving DecidableEq

/-- What is seen of a step: labels are cut, and only routines of the program are linked. -/
def look (layout : Layout) (routines : Keyed String) (e : Event) : Look where
  kind := e.act.kind
  label := layout.cut e.act.text
  span := e.act.span
  links := linksOf routines e.act.calls
  outcome := e.outcome.map Outcome.label

variable {e : Edge} {seen : List Look}

/-! ## Walks -/

/-- Whether nodes of a kind stand for no step. -/
def NodeKind.isSilent : NodeKind → Bool
  | start | stop | merge | declaration => true
  | _ => false

/-- What is seen when a node is left by an edge with the given label. -/
def Node.shown (n : Node) (outcome : Option String) : List Look :=
  if n.kind.isSilent then [] else [⟨n.kind, n.label, n.span, n.links, outcome⟩]

/-- Walks along edges from one node to another, with what they show. -/
inductive Walk (nodes : List Node) (edges : List Edge) : Nat → List Look → Nat → Prop where
  | stay (a : Nat) : Walk nodes edges a [] a
  | step {e : Edge} {n : Node} {seen : List Look} {b : Nat} (he : e ∈ edges) (hn : n ∈ nodes)
      (hid : n.id = e.source) (rest : Walk nodes edges e.target seen b) :
      Walk nodes edges e.source (n.shown e.label ++ seen) b

/-- What the walks of a chart from its start to its end show. -/
def Chart.paths (c : Chart) : Language Look :=
  {seen | ∃ start stop, c.start? = some start ∧ c.stop? = some stop ∧ Walk c.nodes c.edges start.id seen stop.id}

section

variable {nodes nodes' : List Node} {edges edges' : List Edge} {a b c : Nat}

lemma Walk.trans {u v : List Look} (h : Walk nodes edges a u b) (h' : Walk nodes edges b v c) :
    Walk nodes edges a (u ++ v) c := by
  induction h with
  | stay a => exact h'
  | step he hn hid rest ih =>
    rw [append_assoc]
    exact .step he hn hid (ih h')

lemma Walk.mono (hn : ∀ n ∈ nodes, n ∈ nodes') (he : ∀ e ∈ edges, e ∈ edges')
    (h : Walk nodes edges a seen b) : Walk nodes' edges' a seen b := by
  induction h with
  | stay a => exact .stay a
  | step hmem hnode hid rest ih => exact .step (he _ hmem) (hn _ hnode) hid ih

/-- Nodes that show the same under the same numbers can stand for each other. -/
lemma walk_map {f : Node → Node} (hid : ∀ n, (f n).id = n.id)
    (hshown : ∀ n outcome, (f n).shown outcome = n.shown outcome) :
    Walk (nodes.map f) edges a seen b ↔ Walk nodes edges a seen b := by
  constructor
  · intro h
    induction h with
    | stay a => exact .stay a
    | step he hn hn' rest ih =>
      obtain ⟨n, hmem, rfl⟩ := mem_map.mp hn
      rw [hshown]
      exact .step he hmem ((hid n).symm.trans hn') ih
  · intro h
    induction h with
    | stay a => exact .stay a
    | @step e n seen b he hn hn' rest ih =>
      rw [← hshown]
      exact .step he (mem_map_of_mem hn) ((hid n).trans hn') ih

end

namespace Drawing

variable {d d' : Drawing} {a b h : Nat} {X Y : List Exit}

def walks (d : Drawing) (a b : Nat) : Language Look :=
  {seen | Walk d.nodes d.edges a seen b}

def shows (d : Drawing) (id : Nat) (outcome : Option String) : Language Look :=
  {seen | ∃ n ∈ d.nodes, n.id = id ∧ seen = n.shown outcome}

/-- What the walks from a node out of one of the exits show. -/
def reach (d : Drawing) (a : Nat) (X : List Exit) : Language Look :=
  {seen | ∃ x ∈ X, seen ∈ d.walks a x.source * d.shows x.source x.label}

/-- What the walks from a node to the place of the next node show, if exits lead there; the next node
itself is there already. -/
def arrive (d : Drawing) (X : List Exit) (a : Nat) : Language Look :=
  if a < d.nextId then d.reach a X else 1

lemma arrive_of_lt (ha : a < d.nextId) : d.arrive X a = d.reach a X :=
  if_pos ha

section

variable (d : Drawing)

lemma arrive_nextId (X : List Exit) : d.arrive X d.nextId = 1 :=
  if_neg (Nat.lt_irrefl _)

lemma one_le_walks (a : Nat) : 1 ≤ d.walks a a := by
  rintro seen rfl
  exact .stay a

lemma walks_mul_walks_le (a b c : Nat) : d.walks a b * d.walks b c ≤ d.walks a c := by
  rintro seen ⟨u, hu, v, hv, rfl⟩
  exact .trans hu hv

lemma reach_nil (a : Nat) : d.reach a [] = 0 := by
  ext seen
  constructor
  · rintro ⟨x, hx, -⟩
    cases hx
  · exact fun hseen => absurd hseen (Language.notMem_zero seen)

lemma reach_append (a : Nat) (X Y : List Exit) : d.reach a (X ++ Y) = d.reach a X + d.reach a Y := by
  ext seen
  constructor
  · rintro ⟨x, hx, hseen⟩
    rcases mem_append.mp hx with hx | hx
    · exact .inl ⟨x, hx, hseen⟩
    · exact .inr ⟨x, hx, hseen⟩
  · rintro (⟨x, hx, hseen⟩ | ⟨x, hx, hseen⟩)
    · exact ⟨x, mem_append_left _ hx, hseen⟩
    · exact ⟨x, mem_append_right _ hx, hseen⟩

lemma reach_singleton (a : Nat) (x : Exit) : d.reach a [x] = d.walks a x.source * d.shows x.source x.label := by
  ext seen
  constructor
  · rintro ⟨y, hy, hseen⟩
    obtain rfl := mem_singleton.mp hy
    exact hseen
  · exact fun hseen => ⟨x, mem_singleton.mpr rfl, hseen⟩

end

/-! ## Exits that lead to a node -/

/-- The drawing with an edge from each exit to a node added, whatever their kinds. -/
def Linked (d : Drawing) (X : List Exit) (h : Nat) (d' : Drawing) : Prop :=
  ∃ es : List Edge, d' = { d with edges := d.edges ++ es } ∧
    es.map (fun e => (e.source, e.label, e.target)) = X.map fun x => (x.source, x.label, h)

lemma linked_addEdge (d : Drawing) (x : Exit) (h : Nat) (kind : EdgeKind) :
    Linked d [x] h (d.addEdge x.source h x.label kind) :=
  ⟨_, rfl, rfl⟩

def join (d : Drawing) (X : List Exit) (h : Nat) (role : Exit → EdgeKind) : Drawing :=
  { d with edges := d.edges ++ X.mapIdx fun i x => ⟨d.edges.length + 1 + i, x.source, h, x.label, role x⟩ }

lemma linked_join (d : Drawing) (X : List Exit) (h : Nat) (role : Exit → EdgeKind) : Linked d X h (d.join X h role) :=
  ⟨_, rfl, ext_getElem? fun i => by simp [Function.comp_def]⟩

lemma foldl_addEdge (h : Nat) (role : Exit → EdgeKind) (X : List Exit) (d : Drawing) :
    X.foldl (fun d x => d.addEdge x.source h x.label (role x)) d = d.join X h role := by
  induction X generalizing d with
  | nil => simp [join]
  | cons x X ih =>
    have hnext (i : Nat) : d.edges.length + 1 + 1 + i = d.edges.length + 1 + (i + 1) := by omega
    rw [foldl_cons, ih]
    simp [join, addEdge, mapIdx_cons, hnext]

lemma connect_eq_join (d : Drawing) (X : List Exit) (h : Nat) : d.connect X h = d.join X h Exit.kind :=
  foldl_addEdge h Exit.kind X d

lemma connectBack_eq_join (d : Drawing) (X : List Exit) (h : Nat) : d.connectBack X h = d.join X h fun _ => .loop :=
  foldl_addEdge h (fun _ => .loop) X d

lemma linked_connect (d : Drawing) (X : List Exit) (h : Nat) : Linked d X h (d.connect X h) :=
  d.connect_eq_join X h ▸ linked_join ..

lemma linked_connectBack (d : Drawing) (X : List Exit) (h : Nat) : Linked d X h (d.connectBack X h) :=
  d.connectBack_eq_join X h ▸ linked_join ..

namespace Linked

lemma nodes (hl : Linked d X h d') : d'.nodes = d.nodes := by
  obtain ⟨es, rfl, -⟩ := hl
  rfl

lemma nextId (hl : Linked d X h d') : d'.nextId = d.nextId := by
  rw [Drawing.nextId, Drawing.nextId, hl.nodes]

variable (hl : Linked d X h d')
include hl

lemma mem_edges (he : e ∈ d'.edges) :
    e ∈ d.edges ∨ e.target = h ∧ ∃ x ∈ X, x.source = e.source ∧ x.label = e.label := by
  obtain ⟨es, rfl, hcourses⟩ := hl
  rcases mem_append.mp he with he | he
  · exact .inl he
  · have hmem := mem_map_of_mem (f := fun e : Edge => (e.source, e.label, e.target)) he
    rw [hcourses] at hmem
    obtain ⟨x, hx, hcourse⟩ := mem_map.mp hmem
    simp only [Prod.mk.injEq] at hcourse
    exact .inr ⟨hcourse.2.2.symm, x, hx, hcourse.1, hcourse.2.1⟩

lemma mem_of_mem (he : e ∈ d.edges) : e ∈ d'.edges := by
  obtain ⟨es, rfl, -⟩ := hl
  exact mem_append_left es he

lemma exists_edge {x : Exit} (hx : x ∈ X) :
    ∃ e ∈ d'.edges, e.source = x.source ∧ e.label = x.label ∧ e.target = h := by
  obtain ⟨es, rfl, hcourses⟩ := hl
  have hmem := mem_map_of_mem (f := fun x : Exit => (x.source, x.label, h)) hx
  rw [← hcourses] at hmem
  obtain ⟨e, he, hcourse⟩ := mem_map.mp hmem
  simp only [Prod.mk.injEq] at hcourse
  exact ⟨e, mem_append_right _ he, hcourse⟩

lemma walks_le (a b : Nat) : d.walks a b ≤ d'.walks a b := by
  intro seen hseen
  exact .mono (fun n hn => hl.nodes ▸ hn) (fun e he => hl.mem_of_mem he) hseen

lemma reach_le (a : Nat) : d.reach a X ≤ d'.walks a h := by
  rintro seen ⟨x, hx, u, hu, v, ⟨n, hn, hid, rfl⟩, rfl⟩
  obtain ⟨e, he, hsource, hlabel, rfl⟩ := hl.exists_edge hx
  have hlast : Walk d'.nodes d'.edges e.source (n.shown e.label ++ []) e.target :=
    .step he (hl.nodes ▸ hn) (hid.trans hsource.symm) (.stay _)
  rw [append_nil, hsource, hlabel] at hlast
  exact .trans (hl.walks_le a x.source hu) hlast

lemma kstar_reach_le : (d.reach h X)∗ ≤ d'.walks h h := by
  refine kstar_le_of_mul_le_left (d'.one_le_walks h) ?_
  calc d'.walks h h * d.reach h X ≤ d'.walks h h * d'.walks h h := by gcongr; exact hl.reach_le h
    _ ≤ d'.walks h h := d'.walks_mul_walks_le h h h

/-- A walk uses the new edges any number of times, and before, between and after them only old ones. -/
lemma walks_eq (a b : Nat) : d'.walks a b = d.walks a b + d.reach a X * ((d.reach h X)∗ * d.walks h b) := by
  apply le_antisymm
  · intro seen hseen
    -- from the head on, the right side is closed under going around once more
    have hhead : d.walks h b + d.reach h X * ((d.reach h X)∗ * d.walks h b) = (d.reach h X)∗ * d.walks h b := by
      rw [← mul_assoc, ← one_add_mul, Language.one_add_self_mul_kstar_eq_kstar]
    induction hseen with
    | stay a => exact .inl (.stay a)
    | @step e n seen b he hn hid rest ih =>
      replace ih := ih hhead
      have hshown : n.shown e.label ∈ d.shows e.source e.label := ⟨n, hl.nodes ▸ hn, hid, rfl⟩
      rcases hl.mem_edges he with hold | ⟨htarget, x, hx, hsource, hlabel⟩
      · have hone : n.shown e.label ∈ d.walks e.source e.target := by
          rw [← append_nil (n.shown e.label)]
          exact Walk.step hold (hl.nodes ▸ hn) hid (.stay _)
        rcases ih with ih | ⟨u, hu, v, hv, rfl⟩
        · exact .inl (d.walks_mul_walks_le _ e.target _ ⟨_, hone, _, ih, rfl⟩)
        · refine .inr ⟨n.shown e.label ++ u, ?_, v, hv, append_assoc _ u v⟩
          obtain ⟨x', hx', w, hw, z, hz, rfl⟩ := hu
          exact ⟨x', hx', _, .trans hone hw, z, hz, append_assoc _ w z⟩
      · rw [htarget, hhead] at ih
        refine .inr ⟨n.shown e.label, ⟨x, hx, [], ?_, _, ?_, rfl⟩, seen, ih, rfl⟩
        · rw [hsource]
          exact .stay _
        · rw [hsource, hlabel]
          exact hshown
  · apply add_le (hl.walks_le a b)
    calc d.reach a X * ((d.reach h X)∗ * d.walks h b) ≤ d'.walks a h * (d'.walks h h * d'.walks h b) := by
          gcongr
          · exact hl.reach_le a
          · exact hl.kstar_reach_le
          · exact hl.walks_le h b
      _ ≤ d'.walks a h * d'.walks h b := by gcongr; exact d'.walks_mul_walks_le h h b
      _ ≤ d'.walks a b := d'.walks_mul_walks_le a h b

lemma shows_eq (id : Nat) (outcome : Option String) : d'.shows id outcome = d.shows id outcome := by
  unfold shows
  rw [hl.nodes]

lemma reach_eq (a : Nat) (Y : List Exit) :
    d'.reach a Y = d.reach a Y + d.reach a X * ((d.reach h X)∗ * d.reach h Y) := by
  induction Y with
  | nil => simp [reach_nil]
  | cons y Y ih =>
    rw [← singleton_append]
    simp only [reach_append, reach_singleton, ih, hl.walks_eq, hl.shows_eq, add_mul, mul_add, mul_assoc]
    exact add_add_add_comm _ _ _ _

end Linked

end Drawing

end AlgoLang.Flow
