/-
# Flowcharts are well-formed graphs

Nodes and edges are numbered in their order, there is one start that nothing leads to and one end that nothing
leaves, and every other node has exactly the ways out that its kind calls for.  The last is a balance that
every assembly keeps: the edges that leave a node, the returns and the open exits are together what the boxes
ask for (`Assembly.tally`).
-/
import AlgoLang.Proofs.Compile.Success
import AlgoLang.Proofs.Flow.Assembly

namespace AlgoLang

open List Nat

variable {i k : Nat} {ns : List Node} {e : Edge} {α : Type}

namespace Flow

/-! ## Well-formed charts -/

lemma nodeName_inj {a b : Nat} : nodeName a = nodeName b ↔ a = b := by
  refine ⟨fun h => ?_, congrArg nodeName⟩
  have hrepr : a.repr = b.repr := by simpa [nodeName] using h
  have hdigits : toDigits 10 a = toDigits 10 b := by rw [← toList_repr, ← toList_repr, hrepr]
  have hvalue := congrArg (ofDigitChars 10 · 0) hdigits
  simpa only [ofDigitChars_ten_toDigits] using hvalue

def Chart.exitLabels (c : Chart) (n : Node) : List (Option String) :=
  (c.outgoing (nodeName n.id)).map Edge.label

/-- A well-formed chart of a body.  Its decisions are the choices of the body in the order of the text. -/
structure Chart.WellFormed (c : Chart) (body : List Stmt) : Prop where
  nodeIds : c.nodes.map Node.id = List.range' 1 c.nodes.length
  edgeIds : c.edges.map Edge.id = List.range' 1 c.edges.length
  joins : ∀ e ∈ c.edges, (∃ n ∈ c.nodes, n.id = e.source) ∧ ∃ n ∈ c.nodes, n.id = e.target
  start : ∃ n, c.nodesOfKind .start = [n] ∧ c.nodes.head? = some n ∧ c.incoming (nodeName n.id) = []
  stop : ∃ n, c.nodesOfKind .stop = [n] ∧ c.nodes.getLast? = some n ∧ c.outgoing (nodeName n.id) = []
  single : ∀ n ∈ c.nodes, n.kind ∈ [.start, .process, .call, .return, .merge, .declaration] →
    (c.outgoing (nodeName n.id)).length = 1
  loops : ∀ n ∈ c.nodes, n.kind = .loop → (c.exitLabels n).Perm [some "true", some "false"]
  decisions : List.Forall₂ (fun n choice => n.span = choice.1 ∧ (c.exitLabels n).Perm choice.2)
    (c.nodesOfKind .decision) (choicesEach body)

/-! ## Numbers -/

namespace Drawing

/-- Nodes and edges are numbered in their order. -/
structure Numbered (d : Drawing) : Prop where
  nodes : d.nodes.map Node.id = range' 1 d.nodes.length
  edges : d.edges.map Edge.id = range' 1 d.edges.length

variable {d : Drawing}

lemma Numbered.addNode (h : d.Numbered) {n : Node} (hn : n.id = d.nextId) (y : Position)
    (fault : Option NumeralFault) : { d with nodes := d.nodes ++ [n], y, fault }.Numbered where
  nodes := ids_concat h.nodes hn
  edges := h.edges

lemma Numbered.join (h : d.Numbered) (X : List Exit) (t : Nat) (role : Exit → EdgeKind) :
    (d.join X t role).Numbered where
  nodes := h.nodes
  edges := by
    have hnew : (X.mapIdx fun i x => (⟨d.edges.length + 1 + i, x.source, t, x.label, role x⟩ : Edge)).map Edge.id =
        range' (1 + d.edges.length) X.length :=
      ext_getElem (by simp) fun i _ _ => by simp [add_comm 1]
    rw [Drawing.join, map_append, h.edges, hnew, length_append, length_mapIdx, range'_append_1]

lemma mem_join {X : List Exit} {t : Nat} {role : Exit → EdgeKind} (he : e ∈ (d.join X t role).edges) :
    e ∈ d.edges ∨ e.target = t ∧ ∃ x ∈ X, e.source = x.source ∧ e.kind = role x := by
  rcases mem_append.mp he with he | he
  · exact .inl he
  · obtain ⟨i, hi, rfl⟩ := mem_mapIdx.mp he
    exact .inr ⟨rfl, X[i], getElem_mem hi, rfl, rfl⟩

end Drawing

namespace Assembly

variable {d d' : Drawing} {l l' : Position} {E X : List Exit} {bs : List Box}

variable (h : Assembly d l E d' l' X bs)
include h

lemma numbered (hd : d.Numbered) : d'.Numbered := by
  induction h with
  | idle => exact ⟨hd.nodes, hd.edges⟩
  | box y fault hn => exact (hd.addNode hn.1 y fault).join _ _ _
  | @halt d E n y fault hn =>
    have hdrawn := (hd.addNode hn.1 y fault).join E d.nextId Exit.kind
    exact ⟨hdrawn.nodes, hdrawn.edges⟩
  | seq _ _ ih ih' | beside _ _ _ _ _ ih ih' => exact ih' (ih hd)
  | back _ _ _ ih => exact (ih hd).join _ _ _

lemma nodes_eq : ∃ new, d'.nodes = d.nodes ++ new ∧ Forall₂ Box.Fits bs new := by
  induction h with
  | idle => exact ⟨[], (append_nil _).symm, .nil⟩
  | @box _ _ _ n _ _ _ _ hb | @halt _ _ n _ _ _ hb => exact ⟨[n], rfl, .cons hb .nil⟩
  | seq _ _ ih ih' | beside _ _ _ _ _ ih ih' =>
    obtain ⟨new, hnew, hfits⟩ := ih
    obtain ⟨new', hnew', hfits'⟩ := ih'
    exact ⟨new ++ new', by rw [hnew', hnew, append_assoc], rel_append hfits hfits'⟩
  | back _ _ _ ih => exact ih

lemma target_of_mem (he : e ∈ d'.edges) : e ∈ d.edges ∨ d.nextId ≤ e.target ∧ e.target < d'.nextId := by
  induction h with
  | idle => exact .inl he
  | box | halt =>
    rcases Drawing.mem_join he with he | ⟨htarget, -⟩
    · exact .inl he
    · simp [htarget, Drawing.nextId, Drawing.join]
  | seq hfirst hsecond ih ih' | beside _ _ _ hfirst hsecond ih ih' =>
    have := hfirst.nextId_eq
    have := hsecond.nextId_eq
    rcases ih' he with he | htarget
    · rcases ih he with he | htarget
      · exact .inl he
      · exact .inr ⟨htarget.1, by omega⟩
    · exact .inr ⟨by omega, htarget.2⟩
  | back _ hlt _ ih =>
    rcases Drawing.mem_join he with he | ⟨htarget, -⟩
    · exact ih he
    · exact .inr ⟨htarget.ge, htarget ▸ hlt⟩

end Assembly

/-! ## The balance of exits -/

def countExits (X : List Exit) (p : Nat × Option String) : Nat :=
  (X.map fun x => (x.source, x.label)).count p

lemma countExits_append (X Y : List Exit) (p : Nat × Option String) :
    countExits (X ++ Y) p = countExits X p + countExits Y p := by
  simp [countExits]

/-- How many exits with the given source and label the boxes ask for that are numbered from `k` on. -/
def countLabels (k : Nat) : List Box → Nat × Option String → Nat
  | [], _ => 0
  | b :: bs, p => (if p.1 = k then b.labels.count p.2 else 0) + countLabels (k + 1) bs p

lemma countLabels_append (bs cs : List Box) (k : Nat) (p : Nat × Option String) :
    countLabels k (bs ++ cs) p = countLabels k bs p + countLabels (k + bs.length) cs p := by
  induction bs generalizing k with
  | nil => simp [countLabels]
  | cons b bs ih =>
    simp [countLabels, ih, add_assoc, add_comm 1]

lemma countExits_eq_countLabels {X : List Exit} {b : Box} (hlabels : X.map Exit.label = b.labels)
    (hsource : ∀ x ∈ X, x.source = k) (p : Nat × Option String) : countExits X p = countLabels k [b] p := by
  obtain ⟨i, label⟩ := p
  have hpairs : X.map (fun x => (x.source, x.label)) = b.labels.map fun l => (k, l) := by
    rw [← hlabels, map_map]
    exact map_congr_left fun x hx => by rw [hsource x hx]; rfl
  rw [countExits, hpairs, countLabels, countLabels, add_zero]
  split
  · next hi =>
    obtain rfl : i = k := hi
    exact count_map_of_injective _ _ (Prod.mk_right_injective i) label
  · next hi =>
    rw [count_eq_zero]
    simp [Ne.symm hi]

/-- How many of the edges have the given source and label. -/
def countEdges (edges : List Edge) (p : Nat × Option String) : Nat :=
  (edges.map fun e => (e.source, e.label)).count p

lemma countEdges_join (d : Drawing) (X : List Exit) (t : Nat) (role : Exit → EdgeKind)
    (p : Nat × Option String) : countEdges (d.join X t role).edges p = countEdges d.edges p + countExits X p := by
  have hnew : (X.mapIdx fun i x => (⟨d.edges.length + 1 + i, x.source, t, x.label, role x⟩ : Edge)).map
      (fun e => (e.source, e.label)) = X.map fun x => (x.source, x.label) := by
    refine ext_getElem? fun i => ?_
    simp [Function.comp_def]
  rw [countEdges, Drawing.join, map_append, count_append, hnew]
  rfl

/-- How many edges have the given source and label, with those that the returns are going to get. -/
def Drawing.tally (d : Drawing) (p : Nat × Option String) : Nat :=
  countEdges d.edges p + countExits (d.returns.map ({ source := · })) p

/-- The edges that leave nodes, the returns and the open exits are together what there was before and
what the boxes ask for. -/
lemma Assembly.tally {d d' : Drawing} {l l' : Position} {E X : List Exit} {bs : List Box}
    (h : Assembly d l E d' l' X bs)
    (p : Nat × Option String) :
    d'.tally p + countExits X p = d.tally p + countExits E p + countLabels d.nextId bs p := by
  induction h with
  | idle => rfl
  | @box d E X n b y fault _ _ _ hlabels hsource =>
    have hedges := countEdges_join { d with nodes := d.nodes ++ [n], y, fault } E d.nextId Exit.kind p
    have hbox := countExits_eq_countLabels hlabels (fun x hx => (hsource x hx).1) p
    simp only [Drawing.tally, hedges, hbox]
    simp only [Drawing.join]
    omega
  | @halt d E n y fault =>
    have hedges := countEdges_join { d with nodes := d.nodes ++ [n], y, fault } E d.nextId Exit.kind p
    have hbox : countExits [{ source := d.nextId }] p = countLabels d.nextId [.return] p :=
      countExits_eq_countLabels rfl (by simp) p
    have hnone : countExits [] p = 0 := rfl
    simp only [Drawing.tally, hedges, map_append, map_cons, map_nil, countExits_append, hbox, hnone]
    omega
  | seq hfirst _ ih ih' =>
    rw [countLabels_append, ← hfirst.nextId_eq]
    omega
  | beside _ _ _ hfirst _ ih ih' =>
    rw [countLabels_append, ← hfirst.nextId_eq, countExits_append, countExits_append]
    omega
  | @back d d₁ _ _ _ X _ _ _ _ _ ih =>
    have hedges := countEdges_join d₁ X d.nextId (fun _ => .loop) p
    rw [countExits_append] at ih
    simp only [Drawing.tally, hedges] at ih ⊢
    simp only [Drawing.join]
    omega

lemma countLabels_of_lt (bs : List Box) (hi : i < k) (label : Option String) : countLabels k bs (i, label) = 0 := by
  induction bs generalizing k with
  | nil => rfl
  | cons b bs ih => rw [countLabels, if_neg (Nat.ne_of_lt hi), ih (Nat.lt_succ_of_lt hi)]

lemma countLabels_of_le (bs : List Box) (hi : k + bs.length ≤ i) (label : Option String) :
    countLabels k bs (i, label) = 0 := by
  induction bs generalizing k with
  | nil => rfl
  | cons b bs ih =>
    rw [length_cons] at hi
    rw [countLabels, if_neg (show i ≠ k by omega), ih (by omega)]

lemma Chart.count_exitLabels (c : Chart) (n : Node) (label : Option String) :
    (c.exitLabels n).count label = countEdges c.edges (n.id, label) := by
  unfold exitLabels outgoing countEdges
  rw [count_eq_countP, count_eq_countP, countP_map, countP_map, countP_filter]
  refine countP_congr fun e _ => ?_
  simp [nodeName_inj, and_comm]

lemma forall₂_exitLabels {c : Chart} {bs : List Box} (hfits : Forall₂ Box.Fits bs ns) (hids : ns.map Node.id =
    range' k ns.length) (hcount : ∀ i label, k ≤ i → countEdges c.edges (i, label) = countLabels k bs (i, label)) :
    Forall₂ (fun b n => Box.Fits b n ∧ (c.exitLabels n).Perm b.labels) bs ns := by
  induction hfits generalizing k with
  | nil => exact .nil
  | @cons b n bs ns hb _ ih =>
    obtain ⟨hn, hrest⟩ : n.id = k ∧ ns.map Node.id = range' (k + 1) ns.length := cons.inj hids
    refine .cons ⟨hb, perm_iff_count.mpr fun label => ?_⟩ (ih hrest ?_)
    · rw [c.count_exitLabels, hn, hcount k label le_rfl, countLabels, if_pos rfl,
        countLabels_of_lt bs (lt_succ_self k), add_zero]
    · intro i label hi
      rw [hcount i label (by omega), countLabels, if_neg (show i ≠ k by omega), zero_add]

/-! ## Whole charts -/

namespace Blueprint

variable {layout : Layout} {c : Chart} {body : List Stmt}
variable {bs : List Box}

lemma nextId_opened (b : Blueprint layout c body) : b.opened.nextId = 2 := by
  simp [Drawing.nextId, b.opened_nodes]

lemma numbered (b : Blueprint layout c body) : (b.drawn.ended b.exits b.stop b.y b.fault).Numbered := by
  have hopened : b.opened.Numbered := ⟨by simp [b.opened_nodes, b.start_id], by simp [b.opened_edges]⟩
  exact (((b.assembly.numbered hopened).addNode b.stop_lays.1 b.y b.fault).join _ _ _).join _ _ _

section

variable (b : Blueprint layout c body)
include b

/-- All edges: one from the start, and those that the boxes ask for. -/
lemma countEdges_eq (p : Nat × Option String) :
    countEdges c.edges p = countExits [{ source := 1 }] p + countLabels 2 b.boxes p := by
  have htally := b.assembly.tally p
  have hopened : b.opened.tally p = 0 := by
    rw [Drawing.tally, b.opened_edges, b.opened_returns]
    rfl
  rw [hopened, b.nextId_opened] at htally
  rw [b.edges, Drawing.ended, countEdges_join, countEdges_join]
  rw [Drawing.tally] at htally
  dsimp only
  omega

lemma countEdges_of_two_le (hi : 2 ≤ i) (label : Option String) :
    countEdges c.edges (i, label) = countLabels 2 b.boxes (i, label) := by
  have hstart : countExits [{ source := 1 }] (i, label) = 0 := by
    rw [countExits, count_eq_zero]
    simp [show i ≠ 1 by omega]
  rw [b.countEdges_eq, hstart, zero_add]

/-- The start, the nodes that stand for boxes with their exits, and the end. -/
lemma exists_middle : ∃ middle, c.nodes = b.moved b.start :: (middle ++ [b.moved b.stop]) ∧
      Forall₂ (fun b n => Box.Fits b n ∧ (c.exitLabels n).Perm b.labels) b.boxes middle := by
  obtain ⟨new, hnew, hfits⟩ := b.assembly.nodes_eq
  rw [b.opened_nodes] at hnew
  refine ⟨new.map b.moved, by rw [b.nodes, hnew]; simp, forall₂_exitLabels (k := 2) ?_ ?_ ?_⟩
  · refine forall₂_map_right_iff.mpr (hfits.imp fun box n h => ?_)
    obtain ⟨-, hkind, hspan⟩ := b.moved_eq n
    exact ⟨hkind.trans h.1, fun s labels heq => hspan.trans (h.2 s labels heq)⟩
  · have hids : (b.drawn.nodes ++ [b.stop]).map Node.id = range' 1 (b.drawn.nodes ++ [b.stop]).length :=
      b.numbered.nodes
    rw [hnew, append_assoc, singleton_append, length_cons, length_append, range'_succ, length_singleton,
      range'_1_concat, map_cons, map_append] at hids
    rw [map_map, length_map, ← append_inj_left (cons.inj hids).2 (by simp)]
    exact map_congr_left fun n _ => (b.moved_eq n).1
  · exact fun i label hi => b.countEdges_of_two_le hi label

lemma nodeIds : c.nodes.map Node.id = range' 1 c.nodes.length := by
  have hmoved : c.nodes.map Node.id = (b.drawn.nodes ++ [b.stop]).map Node.id := by
    rw [b.nodes, map_map]
    exact map_congr_left fun n _ => (b.moved_eq n).1
  rw [hmoved, b.nodes, length_map]
  exact b.numbered.nodes

lemma length_nodes : c.nodes.length = b.drawn.nextId := by
  rw [b.nodes, length_map, length_append]
  rfl

lemma exists_node (hi : 1 ≤ i) (hle : i ≤ b.drawn.nextId) : ∃ n ∈ c.nodes, n.id = i := by
  have hmem : i ∈ c.nodes.map Node.id := by
    rw [b.nodeIds, b.length_nodes, mem_range'_1]
    omega
  exact mem_map.mp hmem

lemma ends_of_mem (he : e ∈ c.edges) :
    1 ≤ e.source ∧ e.source < b.drawn.nextId ∧ 2 ≤ e.target ∧ e.target ≤ b.drawn.nextId := by
  have hopened := b.nextId_opened
  have hdrawn : b.drawn.nextId = 2 + b.boxes.length := by rw [b.assembly.nextId_eq, b.nextId_opened]
  have hsource : 1 ≤ e.source ∧ e.source < b.drawn.nextId := by
    have hpos : 0 < countEdges c.edges (e.source, e.label) := count_pos_iff.mpr (mem_map_of_mem he)
    rw [b.countEdges_eq] at hpos
    by_contra hout
    have hlabels : countLabels 2 b.boxes (e.source, e.label) = 0 := by
      rcases lt_or_ge e.source 2 with hlt | hge
      · exact countLabels_of_lt _ hlt _
      · exact countLabels_of_le _ (by omega) _
    have hstart : countExits [{ source := 1 }] (e.source, e.label) = 0 := by
      rw [countExits, count_eq_zero]
      simp [show e.source ≠ 1 by omega]
    omega
  have htarget : 2 ≤ e.target ∧ e.target ≤ b.drawn.nextId := by
    rw [b.edges, Drawing.ended] at he
    rcases Drawing.mem_join he with he | ⟨htarget, -⟩
    · rcases Drawing.mem_join he with he | ⟨htarget, -⟩
      · rcases b.assembly.target_of_mem he with he | htarget
        · rw [b.opened_edges] at he
          cases he
        · omega
      · omega
    · omega
  exact ⟨hsource.1, hsource.2, htarget⟩

end

lemma forall₂_choices (h : Forall₂ (fun b n => Box.Fits b n ∧ (c.exitLabels n).Perm b.labels) bs ns) :
    Forall₂ (fun n choice => n.span = choice.1 ∧ (c.exitLabels n).Perm choice.2)
      (ns.filter fun n => n.kind == .decision) (bs.filterMap Box.choice?) := by
  induction h with
  | nil => exact .nil
  | @cons box n bs ns hb _ ih =>
    obtain ⟨⟨hkind, hspan⟩, hlabels⟩ := hb
    cases box with
    | choice span labels =>
      simp only [filter_cons, hkind, filterMap_cons, Box.choice?]
      exact .cons ⟨hspan span labels rfl, hlabels⟩ ih
    | _ =>
      rw [filter_cons, hkind]
      exact ih

lemma exists_box_of_mem (h : Forall₂ (fun b n => Box.Fits b n ∧ (c.exitLabels n).Perm b.labels) bs ns)
    {n : Node} (hn : n ∈ ns) : ∃ box : Box, n.kind = box.kind ∧ (c.exitLabels n).Perm box.labels := by
  induction h with
  | nil => cases hn
  | cons hb _ ih =>
    rcases mem_cons.mp hn with rfl | hn
    · exact ⟨_, hb.1.1, hb.2⟩
    · exact ih hn

lemma filter_kind_eq_nil (h : Forall₂ (fun b n => Box.Fits b n ∧ (c.exitLabels n).Perm b.labels) bs ns)
    {kind : NodeKind} (hkind : ∀ box : Box, box.kind ≠ kind) : (ns.filter fun n => n.kind == kind) = [] := by
  rw [filter_eq_nil_iff]
  intro n hn
  obtain ⟨box, hbox, -⟩ := exists_box_of_mem h hn
  simpa [hbox] using hkind box

lemma exitLabels_start (b : Blueprint layout c body) : (c.exitLabels (b.moved b.start)).Perm [none] := by
  refine perm_iff_count.mpr fun label => ?_
  have hstart : countExits [{ source := 1 }] (1, label) = [none].count label :=
    count_map_of_injective [none] (Prod.mk 1) (Prod.mk_right_injective 1) label
  rw [c.count_exitLabels, (b.moved_eq b.start).1, b.start_id, b.countEdges_eq, hstart,
    countLabels_of_lt _ (lt_succ_self 1), add_zero]

lemma wellFormed (b : Blueprint layout c body) : c.WellFormed body := by
  obtain ⟨middle, hnodes, hmiddle⟩ := b.exists_middle
  obtain ⟨hstartId, hstartKind, -⟩ := b.moved_eq b.start
  obtain ⟨hstopId, hstopKind, -⟩ := b.moved_eq b.stop
  rw [b.start_id] at hstartId
  rw [b.start_kind] at hstartKind
  rw [b.stop_lays.1] at hstopId
  rw [b.stop_kind] at hstopKind
  have hofKind (kind : NodeKind) : c.nodesOfKind kind =
      (if kind = .start then [b.moved b.start] else []) ++ (middle.filter fun n => n.kind == kind) ++
        (if kind = .stop then [b.moved b.stop] else []) := by
    rw [Chart.nodesOfKind, hnodes]
    simp only [filter_cons, filter_append, filter_nil, hstartKind, hstopKind, beq_iff_eq, eq_comm (b := kind)]
    split <;> rfl
  refine ⟨b.nodeIds, ?_, ?_, ?_, ?_, ?_, ?_, ?_⟩
  · rw [b.edges]
    exact b.numbered.edges
  · intro e he
    obtain ⟨hpos, hlt, htarget, hle⟩ := b.ends_of_mem he
    exact ⟨b.exists_node hpos hlt.le, b.exists_node (by omega) hle⟩
  · refine ⟨b.moved b.start, ?_, by rw [hnodes]; rfl, ?_⟩
    · rw [hofKind, filter_kind_eq_nil hmiddle (by rintro ⟨⟩ <;> simp [Box.kind])]
      rfl
    · rw [Chart.incoming, filter_eq_nil_iff]
      intro e he
      have := (b.ends_of_mem he).2.2.1
      rw [beq_iff_eq, nodeName_inj, hstartId]
      omega
  · refine ⟨b.moved b.stop, ?_, by rw [hnodes, ← cons_append]; exact getLast?_concat, ?_⟩
    · rw [hofKind, filter_kind_eq_nil hmiddle (by rintro ⟨⟩ <;> simp [Box.kind])]
      rfl
    · rw [Chart.outgoing, filter_eq_nil_iff]
      intro e he
      have := (b.ends_of_mem he).2.1
      rw [beq_iff_eq, nodeName_inj, hstopId]
      omega
  · intro n hn hkind
    have hlabels : (c.exitLabels n).Perm [none] := by
      rw [hnodes] at hn
      rcases mem_cons.mp hn with rfl | hn
      · exact b.exitLabels_start
      · rcases mem_append.mp hn with hn | hn
        · obtain ⟨box, hbox, hlabels⟩ := exists_box_of_mem hmiddle hn
          rw [hbox] at hkind
          cases box with
          | loop | choice => simp [Box.kind] at hkind
          | _ => exact hlabels
        · rw [mem_singleton.mp hn, hstopKind] at hkind
          simp at hkind
    exact (length_map Edge.label).symm.trans hlabels.length_eq
  · intro n hn hkind
    rw [hnodes] at hn
    rcases mem_cons.mp hn with rfl | hn
    · cases hstartKind.symm.trans hkind
    · rcases mem_append.mp hn with hn | hn
      · obtain ⟨box, hbox, hlabels⟩ := exists_box_of_mem hmiddle hn
        cases box with
        | loop => exact hlabels
        | _ => cases hbox.symm.trans hkind
      · rw [mem_singleton.mp hn, hstopKind] at hkind
        cases hkind
  · have hdecisions := forall₂_choices hmiddle
    rw [b.choices] at hdecisions
    rw [hofKind]
    simpa using hdecisions

end Blueprint

end Flow

/-! ## The flowcharts of a program -/

namespace Flow

lemma mem_of_mem_ofList {entries : List (String × α)} {e : String × α}
    (h : e ∈ Keyed.ofList entries) : e ∈ entries := by
  have hfold : ∀ (entries : List (String × α)) (acc : Keyed α),
      e ∈ entries.foldl (fun acc e => .put acc e.1 e.2) acc → e ∈ acc ∨ e ∈ entries := by
    intro entries
    induction entries with
    | nil => exact fun acc h => .inl h
    | cons first rest ih =>
      intro acc h
      rcases ih _ h with h | h
      · rcases Keyed.mem_of_mem_put h with h | h
        · exact .inl h
        · exact .inr (h ▸ mem_cons_self)
      · exact .inr (mem_cons_of_mem _ h)
  exact (hfold entries [] h).resolve_left (by simp)

/-- A program that comes out of the reader has flowcharts, whatever the layout.  What holds of every chart that is
drawn for a body holds of that of the main body, and of the others, each of which is that of a routine. -/
lemma exists_charts {P : Layout → Chart → List Stmt → Prop}
    (hP : ∀ {layout c body}, Blueprint layout c body → P layout c body)
    {toks : List Token} {taken : Taken Program toks} (h : Program.parse toks = .ok taken) (layout : Layout) :
    ∃ charts, Charts.ofProgram? taken.value layout = some charts ∧ P layout charts.main taken.value.body ∧
      ∀ entry ∈ charts.routines, ∃ r ∈ taken.value.routines, r.name = entry.1 ∧ P layout entry.2 r.body := by
  obtain ⟨ts, -, -, hprogram⟩ := Grammar.exists_isProgram_of_parse h
  obtain ⟨charts, hcharts⟩ := Option.isSome_iff_exists.mp (hprogram.closed.isSome_charts layout)
  refine ⟨charts, hcharts, ?_⟩
  unfold Charts.ofProgram? at hcharts
  split at hcharts
  · cases hcharts
    obtain ⟨b⟩ : Nonempty (Blueprint layout (taken.value.mainChart layout) taken.value.body) := nonempty_blueprint ..
    refine ⟨hP b, fun entry hentry => ?_⟩
    obtain ⟨r, hr, rfl⟩ := mem_map.mp (mem_of_mem_ofList hentry)
    obtain ⟨b⟩ : Nonempty (Blueprint layout (r.chart layout taken.value.routineNames) r.body) := nonempty_blueprint ..
    exact ⟨r, hr, rfl, hP b⟩
  · cases hcharts

/-- The flowcharts of a program that comes out of the reader are well-formed graphs, in every layout. -/
theorem charts_wellFormed (toks : List Token) (taken : Taken Program toks)
    (h : Program.parse toks = .ok taken) (layout : Layout) :
    ∃ charts, Charts.ofProgram? taken.value layout = some charts ∧
      charts.main.WellFormed taken.value.body ∧
      ∀ entry ∈ charts.routines, ∃ r ∈ taken.value.routines, r.name = entry.1 ∧
        entry.2.WellFormed r.body :=
  exists_charts Blueprint.wellFormed h layout

/-- `ALGORITHM x BEGIN SWITCH x BEGIN CASE x : x END WHILE (x) DO RETURN (x) END.` -/
def selection : List Token :=
  [.keyword .algorithm, .identifier, .keyword .begin_,
   .keyword .switch, .identifier, .keyword .begin_, .keyword .case_, .identifier, .mark .colon, .identifier,
   .keyword .end_,
   .keyword .while_, .mark .lparen, .identifier, .mark .rparen, .keyword .do_,
   .keyword .return_, .mark .lparen, .identifier, .mark .rparen,
   .keyword .end_, .mark .dot].map (Token.mk · "x" .start 1)

lemma exists_parse_selection : ∃ taken, Program.parse selection = .ok taken := by
  have hread : ∃ taken ∈ (Program.parse selection).toOption, taken.rest = [] := by decide +kernel
  obtain ⟨taken, htaken, -⟩ := exists_ok hread
  exact ⟨taken, htaken⟩

/-- A switch, and a loop with a `RETURN` in it. -/
theorem charts_wellFormed_selection :
    ∃ taken, Program.parse selection = .ok taken ∧
      ∃ charts, Charts.ofProgram? taken.value {} = some charts ∧
        charts.main.WellFormed taken.value.body ∧
        ∀ entry ∈ charts.routines, ∃ r ∈ taken.value.routines, r.name = entry.1 ∧
          entry.2.WellFormed r.body := by
  obtain ⟨taken, htaken⟩ := exists_parse_selection
  exact ⟨taken, htaken, charts_wellFormed selection taken htaken {}⟩

end Flow

end AlgoLang
