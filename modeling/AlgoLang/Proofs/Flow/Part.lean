/-
# The parts of a flowchart and their languages

A part is what a drawing `d` with open exits grew by.  `Serves d E d' X L` says that the walks from an old node,
or from the first new one, out of the exits `X` show what arrives at the part, and then a word of `L`.  Parts
that follow each other multiply their languages, parts side by side add them, and a part whose exits lead back
to its first node is a Kleene star.
-/
import AlgoLang.Proofs.Flow.Walk

namespace AlgoLang.Flow.Drawing

open Computability List Nat

variable {seen : List Look}

/-! ## Drawings that grow -/

/-- Nodes are numbered in their order, and edges go from node to node. -/
structure Formed (d : Drawing) : Prop where
  ids : d.nodes.map Node.id = range' 1 d.nodes.length
  edges : ∀ e ∈ d.edges, e.source < d.nextId ∧ e.target < d.nextId

/-- Exits that may be connected: they leave nodes of the drawing. -/
structure Ready (d : Drawing) (E : List Exit) : Prop where
  formed : d.Formed
  exits : ∀ x ∈ E, x.source < d.nextId

/-- The drawing has grown: edges that are new lead to new nodes. -/
structure Extends (d d' : Drawing) : Prop where
  layout : d'.layout = d.layout
  routines : d'.routines = d.routines
  nodes : d.nodes <+: d'.nodes
  edges : ∀ e ∈ d.edges, e ∈ d'.edges
  added : ∀ e ∈ d'.edges, e ∈ d.edges ∨ d.nextId ≤ e.target
  formed : d'.Formed

variable {d d' d'' d₃ : Drawing} {a b : Nat} {E X Y : List Exit} {K L : Language Look}

lemma Extends.refl (hd : d.Formed) : Extends d d :=
  ⟨rfl, rfl, prefix_rfl, fun _ he => he, fun _ he => .inl he, hd⟩

section

variable (h : Extends d d')
include h

lemma Extends.nextId_le : d.nextId ≤ d'.nextId :=
  succ_le_succ h.nodes.length_le

lemma Extends.trans (h' : Extends d' d'') : Extends d d'' where
  layout := h'.layout.trans h.layout
  routines := h'.routines.trans h.routines
  nodes := h.nodes.trans h'.nodes
  edges := fun e he => h'.edges e (h.edges e he)
  added := fun e he => by
    rcases h'.added e he with he | htarget
    · exact h.added e he
    · exact .inr (h.nextId_le.trans htarget)
  formed := h'.formed

lemma Extends.mem_nodes {n : Node} (hn : n ∈ d'.nodes) (hid : n.id < d.nextId) : n ∈ d.nodes := by
  obtain ⟨more, hmore⟩ := h.nodes
  have hids := h.formed.ids
  rw [← hmore, map_append, length_append, ← range'_append_1] at hids
  rw [← hmore] at hn
  refine (mem_append.mp hn).resolve_right fun hn => ?_
  have hnew := mem_map_of_mem (f := Node.id) hn
  rw [append_inj_right hids (by simp), mem_range'_1] at hnew
  unfold nextId at hid
  omega

/-- What is drawn later changes no walk to an old node. -/
lemma Extends.walks_eq (hd : d.Formed) (a : Nat) (hb : b < d.nextId) : d'.walks a b = d.walks a b := by
  ext seen
  constructor
  · intro hseen
    have hold : a < d.nextId ∧ Walk d.nodes d.edges a seen b := by
      induction hseen with
      | stay a => exact ⟨hb, .stay a⟩
      | @step e n seen b he hn hid rest ih =>
        obtain ⟨htarget, hrest⟩ := ih hb
        have hedge : e ∈ d.edges := (h.added e he).resolve_right (not_le.mpr htarget)
        have hsource := (hd.edges e hedge).1
        exact ⟨hsource, .step hedge (h.mem_nodes hn (hid ▸ hsource)) hid hrest⟩
    exact hold.2
  · exact fun hseen => .mono (fun n hn => h.nodes.subset hn) h.edges hseen

lemma Extends.shows_eq {id : Nat} (hid : id < d.nextId) (outcome : Option String) :
    d'.shows id outcome = d.shows id outcome := by
  ext seen
  constructor
  · rintro ⟨n, hn, rfl, rfl⟩
    exact ⟨n, h.mem_nodes hn hid, rfl, rfl⟩
  · rintro ⟨n, hn, rfl, rfl⟩
    exact ⟨n, h.nodes.subset hn, rfl, rfl⟩

lemma Extends.reach_eq (hd : d.Formed) (a : Nat)
    (hX : ∀ x ∈ X, x.source < d.nextId) : d'.reach a X = d.reach a X := by
  ext seen
  constructor
  · rintro ⟨x, hx, hseen⟩
    rw [h.walks_eq hd a (hX x hx), h.shows_eq (hX x hx)] at hseen
    exact ⟨x, hx, hseen⟩
  · rintro ⟨x, hx, hseen⟩
    rw [← h.walks_eq hd a (hX x hx), ← h.shows_eq (hX x hx)] at hseen
    exact ⟨x, hx, hseen⟩

end

lemma walks_of_no_edge_from (h : ∀ e ∈ d.edges, e.source ≠ a) (hseen : seen ∈ d.walks a b) : a = b ∧ seen = [] := by
  generalize ha : a = a' at hseen
  cases hseen with
  | stay => exact ⟨rfl, rfl⟩
  | step he hn hid rest => exact absurd ha.symm (h _ he)

lemma eq_of_no_edge_to (h : ∀ e ∈ d.edges, e.target ≠ b) (hseen : seen ∈ d.walks a b) : a = b := by
  induction hseen with
  | stay a => rfl
  | step he hn hid rest ih => exact absurd (ih h) (h _ he)

lemma reach_of_no_edge_from (h : ∀ e ∈ d.edges, e.source ≠ a) (hX : ∀ x ∈ X, x.source ≠ a) : d.reach a X = 0 := by
  ext seen
  constructor
  · rintro ⟨x, hx, u, hu, -⟩
    exact absurd (walks_of_no_edge_from h hu).1.symm (hX x hx)
  · exact fun hseen => absurd hseen (Language.notMem_zero seen)

lemma Formed.reach_of_le (hd : d.Formed) (ha : d.nextId ≤ a) (hX : ∀ x ∈ X, x.source < d.nextId) : d.reach a X = 0 :=
  reach_of_no_edge_from (fun e he => ((hd.edges e he).1.trans_le ha).ne) fun x hx => ((hX x hx).trans_le ha).ne

/-! ## Languages of parts -/

/-- The exits `X` of what was drawn behind the exits `E`, and what is shown on the way to them. -/
structure Serves (d : Drawing) (E : List Exit) (d' : Drawing) (X : List Exit) (L : Language Look) : Prop where
  exits : ∀ x ∈ X, x.source < d'.nextId
  reach : ∀ a ≤ d.nextId, a < d'.nextId → d'.reach a X = d.arrive E a * L

namespace Serves

lemma nil (d : Drawing) (E : List Exit) (d' : Drawing) : Serves d E d' [] 0 where
  exits := by simp
  reach := fun a _ _ => by rw [reach_nil, mul_zero]

lemma append (h : Serves d E d' X L) (h' : Serves d E d' Y K) : Serves d E d' (X ++ Y) (L + K) where
  exits := fun x hx => (mem_append.mp hx).elim (h.exits x) (h'.exits x)
  reach := fun a ha ha' => by rw [reach_append, h.reach a ha ha', h'.reach a ha ha', mul_add]

/-- Exits stay what they are when more is drawn.  If nothing had been drawn behind `E` before, the first
new node is one that they do not come from. -/
lemma mono (h : Serves d E d' X L) (hd : Extends d d') (hd' : Extends d' d'')
    (hidle : d'.nextId = d.nextId → L = 0) : Serves d E d'' X L where
  exits := fun x hx => (h.exits x hx).trans_le hd'.nextId_le
  reach := fun a ha _ => by
    rw [hd'.reach_eq hd.formed a h.exits]
    rcases lt_or_ge a d'.nextId with hlt | hge
    · exact h.reach a ha hlt
    · have hsame : d'.nextId = d.nextId := le_antisymm (hge.trans ha) hd.nextId_le
      rw [hidle hsame, mul_zero, hd.formed.reach_of_le hge h.exits]

/-- What arrives behind a part is what arrives before it, and then what the part shows. -/
lemma arrive_eq (h : Serves d E d' X L) (hd : Extends d d') (hidle : d'.nextId = d.nextId → L = 1)
    (ha : a ≤ d.nextId) : d'.arrive X a = d.arrive E a * L := by
  rcases lt_or_ge a d'.nextId with hlt | hge
  · rw [arrive_of_lt hlt]
    exact h.reach a ha hlt
  · obtain rfl : a = d'.nextId := le_antisymm (ha.trans hd.nextId_le) hge
    have hsame : d'.nextId = d.nextId := le_antisymm ha hd.nextId_le
    rw [arrive_nextId, hsame, arrive_nextId, hidle hsame, mul_one]

lemma trans (h : Serves d E d' X L) (hd : Extends d d') (hidle : d'.nextId = d.nextId → L = 1)
    (h' : Serves d' X d'' Y K) : Serves d E d'' Y (L * K) where
  exits := h'.exits
  reach := fun a ha ha' => by
    rw [h'.reach a (ha.trans hd.nextId_le) ha', h.arrive_eq hd hidle ha, mul_assoc]

lemma loop (hX : Serves d E d' X L) (hY : Serves d E d' Y K) (hlt : d.nextId < d'.nextId)
    (hl : Linked d' X d.nextId d'') : Serves d E d'' Y (L∗ * K) where
  exits := fun y hy => by
    rw [hl.nextId]
    exact hY.exits y hy
  reach := fun a ha ha' => by
    rw [hl.nextId] at ha'
    rw [hl.reach_eq, hX.reach a ha ha', hY.reach a ha ha', hX.reach _ le_rfl hlt,
      hY.reach _ le_rfl hlt, arrive_nextId, one_mul, one_mul]
    calc d.arrive E a * K + d.arrive E a * L * (L∗ * K)
        = d.arrive E a * ((1 + L * L∗) * K) := by simp only [one_add_mul, mul_add, mul_assoc]
      _ = d.arrive E a * (L∗ * K) := by rw [Language.one_add_self_mul_kstar_eq_kstar]

end Serves

/-! ## Single nodes -/

lemma exists_require_eq (d : Drawing) (r : Except NumeralFault Unit) : ∃ fault, d.require r = { d with fault } := by
  cases r with
  | ok u => exact ⟨d.fault, rfl⟩
  | error f => exact ⟨d.fault.or (some f), rfl⟩

/-- A chart has the nodes and edges of its drawing; only the places of the nodes are moved. -/
lemma exists_chart_eq (d : Drawing) (hd : d.nodes ≠ []) (name : String) (role : Role) :
    ∃ f : Node → Node, (∀ n, (f n).id = n.id ∧ (f n).kind = n.kind ∧ (f n).span = n.span ∧
        ∀ outcome, (f n).shown outcome = n.shown outcome) ∧
      (d.chart name role).nodes = d.nodes.map f ∧ (d.chart name role).edges = d.edges := by
  unfold chart
  split
  · contradiction
  · next n ns hnodes =>
    refine ⟨?f, ?_, ?h, rfl⟩
    case h => rw [hnodes]
    exact fun _ => ⟨rfl, rfl, rfl, fun _ => rfl⟩

/-- The node is the next one of the drawing, and `y` is the line below it. -/
def Lays (d : Drawing) (n : Node) (y : Position) : Prop :=
  n.id = d.nextId ∧ n.y = d.y ∧
    y = d.layout.add d.y (d.layout.units ((d.layout.size n.kind n.label).2 + d.layout.verticalGap))

/-- What is seen of a node that was drawn with these values. -/
def shownAs (d : Drawing) (kind : NodeKind) (label : String) (span : Option Span) (calls : List String)
    (outcome : Option String) : List Look :=
  if kind.isSilent then [] else [⟨kind, d.layout.cut label, span, linksOf d.routines calls, outcome⟩]

variable (kind : NodeKind) (label : String) (span : Option Span) (calls : List String)

lemma exists_addNode_eq (d : Drawing) :
    ∃ n y fault, d.addNode kind label span calls = { d with nodes := d.nodes ++ [n], y, fault } ∧
      d.Lays n y ∧ n.kind = kind ∧ n.span = span ∧
      ∀ outcome, n.shown outcome = d.shownAs kind label span calls outcome := by
  unfold addNode
  dsimp only
  generalize d.layout.checkUnits _ = r
  generalize d.layout.checkHalf _ = r'
  obtain ⟨f, hf⟩ := d.exists_require_eq r'
  rw [hf]
  obtain ⟨f', hf'⟩ := { d with fault := f }.exists_require_eq r
  rw [hf']
  exact ⟨_, _, _, rfl, ⟨rfl, rfl, rfl⟩, rfl, rfl, fun _ => rfl⟩

lemma ids_concat {ns : List Node} {n : Node} (h : ns.map Node.id = range' 1 ns.length) (hn : n.id = ns.length + 1) :
    (ns ++ [n]).map Node.id = range' 1 (ns ++ [n]).length := by
  rw [map_append, h, length_append, length_singleton, range'_1_concat, add_comm 1, map_singleton, hn]

lemma extends_addNode (hd : d.Formed) : Extends d (d.addNode kind label span calls) := by
  obtain ⟨n, y, fault, heq, hid, -⟩ := d.exists_addNode_eq kind label span calls
  rw [heq]
  refine ⟨rfl, rfl, prefix_append _ _, fun e he => he, fun e he => .inl he, ids_concat hd.ids hid.1, fun e he => ?_⟩
  have := hd.edges e he
  simp only [nextId, length_append, length_singleton] at this ⊢
  omega

lemma nextId_addNode (d : Drawing) : (d.addNode kind label span calls).nextId = d.nextId + 1 := by
  obtain ⟨n, y, fault, heq, -⟩ := d.exists_addNode_eq kind label span calls
  rw [heq]
  simp [nextId]

lemma nextId_place (d : Drawing) (E : List Exit) : (d.place kind label span calls E).nextId = d.nextId + 1 :=
  (linked_connect _ E d.nextId).nextId.trans (d.nextId_addNode kind label span calls)

lemma returns_place (d : Drawing) (E : List Exit) : (d.place kind label span calls E).returns = d.returns := by
  obtain ⟨es, heq, -⟩ := linked_connect (d.addNode kind label span calls) E d.nextId
  obtain ⟨n, y, fault, heq', -⟩ := d.exists_addNode_eq kind label span calls
  rw [place, heq, heq']

lemma Extends.link (h : Extends d d') (hl : Linked d' X b d'') (hX : ∀ x ∈ X, x.source < d'.nextId)
    (hb : d.nextId ≤ b) (hb' : b < d'.nextId) : Extends d d'' := by
  have hadded := fun e he => hl.mem_edges (e := e) he
  obtain ⟨es, rfl, -⟩ := hl
  refine ⟨h.layout, h.routines, h.nodes, fun e he => mem_append_left es (h.edges e he), ?_, h.formed.ids, ?_⟩
  · intro e he
    rcases hadded e he with hold | ⟨htarget, -⟩
    · exact h.added e hold
    · exact .inr (htarget ▸ hb)
  · intro e he
    rcases hadded e he with hold | ⟨htarget, x, hx, hsource, -⟩
    · exact h.formed.edges e hold
    · exact ⟨hsource ▸ hX x hx, htarget ▸ hb'⟩

lemma extends_place (hd : d.Ready E) : Extends d (d.place kind label span calls E) := by
  have hadd := extends_addNode kind label span calls hd.formed
  have hnext := d.nextId_addNode kind label span calls
  refine hadd.link (linked_connect _ E d.nextId) (fun x hx => ?_) le_rfl ?_
  · exact (hd.exits x hx).trans_le hadd.nextId_le
  · omega

lemma walks_place (hd : d.Ready E) (ha : a ≤ d.nextId) :
    (d.place kind label span calls E).walks a d.nextId = d.arrive E a := by
  have hadd := extends_addNode kind label span calls hd.formed
  have hedges : (d.addNode kind label span calls).edges = d.edges := by
    obtain ⟨n, y, fault, heq, -⟩ := d.exists_addNode_eq kind label span calls
    rw [heq]
  rw [place, (linked_connect _ E d.nextId).walks_eq]
  -- before it is connected, nothing leads from the new node or to it
  have hfrom : ∀ e ∈ (d.addNode kind label span calls).edges, e.source ≠ d.nextId :=
    fun e he => (hd.formed.edges e (hedges ▸ he)).1.ne
  have hto : ∀ e ∈ (d.addNode kind label span calls).edges, e.target ≠ d.nextId :=
    fun e he => (hd.formed.edges e (hedges ▸ he)).2.ne
  have hself : (d.addNode kind label span calls).walks d.nextId d.nextId = 1 := by
    refine le_antisymm ?_ (one_le_walks _ _)
    intro seen hseen
    exact (walks_of_no_edge_from hfrom hseen).2
  rw [reach_of_no_edge_from hfrom fun x hx => (hd.exits x hx).ne, kstar_zero, one_mul, hself, mul_one,
    hadd.reach_eq hd.formed a hd.exits]
  rcases lt_or_eq_of_le ha with hlt | rfl
  · have hnone : (d.addNode kind label span calls).walks a d.nextId = 0 := by
      refine le_bot_iff.mp fun seen hseen => ?_
      exact absurd (eq_of_no_edge_to hto hseen) hlt.ne
    rw [arrive_of_lt hlt, hnone, zero_add]
  · rw [arrive_nextId, hself, hd.formed.reach_of_le le_rfl hd.exits, add_zero]

lemma serves_place (hd : d.Ready E) (outcome : Option String)
    (role : EdgeKind) : Serves d E (d.place kind label span calls E) [⟨d.nextId, outcome, role⟩]
      {d.shownAs kind label span calls outcome} where
  exits := fun x hx => by
    rw [mem_singleton.mp hx, nextId_place]
    exact lt_succ_self _
  reach := fun a ha _ => by
    rw [reach_singleton, walks_place kind label span calls hd ha]
    congr 1
    rw [place, (linked_connect _ E d.nextId).shows_eq]
    obtain ⟨n, y, fault, heq, hid, -, -, hshown⟩ := d.exists_addNode_eq kind label span calls
    ext seen
    constructor
    · rintro ⟨m, hm, hmid, rfl⟩
      rw [heq] at hm
      rcases mem_append.mp hm with hold | hnew
      · have hmem := mem_map_of_mem (f := Node.id) hold
        rw [hd.formed.ids, mem_range'_1, hmid] at hmem
        simp only [nextId] at hmem
        omega
      · rw [mem_singleton.mp hnew, hshown]
        rfl
    · rintro rfl
      refine ⟨n, ?_, hid.1, (hshown outcome).symm⟩
      rw [heq]
      exact mem_append_right _ (mem_singleton.mpr rfl)

/-! ## Parts -/

/-- What was drawn behind the exits `E`: its exits, what is shown on the way to them, and what is shown
on the way to the end by those walks that return.  Something that draws no node does nothing. -/
structure Draws (d : Drawing) (E : List Exit) (d' : Drawing) (X : List Exit) (T R : Language Look) : Prop where
  grown : Extends d d'
  through : Serves d E d' X T
  returned : ∃ new, d'.returns = d.returns ++ new ∧ Serves d E d' (new.map ({ source := · })) R
  idle : d'.nextId = d.nextId → T = 1 ∧ R = 0

namespace Draws

variable {T T' R R' : Language Look}

lemma refl (hd : d.Ready E) : Draws d E d E 1 0 where
  grown := .refl hd.formed
  through := ⟨hd.exits, fun a _ ha => by rw [arrive_of_lt ha, mul_one]⟩
  returned := ⟨[], (append_nil _).symm, .nil d E d⟩
  idle := fun _ => ⟨rfl, rfl⟩

lemma ready (h : Draws d E d' X T R) : d'.Ready X :=
  ⟨h.grown.formed, h.through.exits⟩

lemma adjust (h : Draws d E d' X T R) (x y : Position) (fault : Option NumeralFault) :
    Draws d E { d' with x, y, fault } X T R := by
  obtain ⟨new, hnew, hserves⟩ := h.returned
  have hg := h.grown
  exact ⟨⟨hg.layout, hg.routines, hg.nodes, hg.edges, hg.added, hg.formed.ids, hg.formed.edges⟩,
    ⟨h.through.exits, h.through.reach⟩, ⟨new, hnew, hserves.exits, hserves.reach⟩, h.idle⟩

lemma trans (h : Draws d E d' X T R) (h' : Draws d' X d'' Y T' R') : Draws d E d'' Y (T * T') (R + T * R') := by
  obtain ⟨new, hnew, hserves⟩ := h.returned
  obtain ⟨new', hnew', hserves'⟩ := h'.returned
  have hone : d'.nextId = d.nextId → T = 1 := fun hsame => (h.idle hsame).1
  have hzero : d'.nextId = d.nextId → R = 0 := fun hsame => (h.idle hsame).2
  refine ⟨h.grown.trans h'.grown, h.through.trans h.grown hone h'.through, ⟨new ++ new', ?_, ?_⟩, ?_⟩
  · rw [hnew', hnew, append_assoc]
  · rw [map_append]
    exact (hserves.mono h.grown h'.grown hzero).append (h.through.trans h.grown hone hserves')
  · intro hsame
    have hle := h.grown.nextId_le
    have hle' := h'.grown.nextId_le
    obtain ⟨rfl, rfl⟩ := h.idle (by omega)
    obtain ⟨rfl, rfl⟩ := h'.idle (by omega)
    exact ⟨mul_one 1, by rw [mul_zero, add_zero]⟩

lemma loop (h : Draws d E d' X L R) (hY : Serves d E d' Y K) (hlt : d.nextId < d'.nextId)
    (hl : Linked d' X d.nextId d'') : Draws d E d'' Y (L∗ * K) (L∗ * R) := by
  obtain ⟨new, hnew, hserves⟩ := h.returned
  refine ⟨h.grown.link hl h.through.exits le_rfl hlt, h.through.loop hY hlt hl, ⟨new, ?_, ?_⟩, ?_⟩
  · obtain ⟨es, rfl, -⟩ := hl
    exact hnew
  · exact h.through.loop hserves hlt hl
  · intro hsame
    rw [hl.nextId] at hsame
    omega

end Draws

lemma draws_place (hd : d.Ready E) (outcome : Option String)
    (role : EdgeKind) : Draws d E (d.place kind label span calls E) [⟨d.nextId, outcome, role⟩]
      {d.shownAs kind label span calls outcome} 0 where
  grown := extends_place kind label span calls hd
  through := serves_place kind label span calls hd outcome role
  returned := ⟨[], by rw [returns_place, append_nil], .nil _ _ _⟩
  idle := fun hsame => by
    rw [nextId_place] at hsame
    omega

lemma ofBody_eq (layout : Layout) (routines : Keyed String) (startLabel stopLabel : String)
    (declared : List (String × Option Span)) (body : List Stmt) :
    ofBody layout routines startLabel stopLabel declared body =
      let start := simple { layout, routines } .start startLabel none [] []
      let opened := start.1.declarations start.2 (if layout.showDeclarations then declared else [])
      let drawn := drawEach opened.1 opened.2 body
      drawn.1.finish stopLabel drawn.2 := by
  rw [ofBody]
  cases layout.showDeclarations with
  | true => rfl
  | false => rfl

end AlgoLang.Flow.Drawing
