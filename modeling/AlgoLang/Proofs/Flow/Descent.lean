/-
# Flowcharts go down

An edge that closes no loop leads from an earlier node to a later one, which lies further down on the page if the
layout is upright; one that closes a loop leads to its own node or to an earlier one.  The exits of a part wait above
the line that the next box stands on (`Drawing.Hangs`), and this is kept by assemblies.
-/
import AlgoLang.Proofs.Flow.WellFormed

namespace AlgoLang.Flow

open List Position

variable {d d' d'' : Drawing} {y y' y'' : Position} {E X : List Exit} {n : Node} {s : Nat}

/-- The drawing has the edge from one node to a later one that is further down, or to one that is not later if it
closes a loop. -/
def Edge.Goes (e : Edge) (l : Layout) (ns : List Node) : Prop :=
  (e.kind = .loop → e.target ≤ e.source) ∧ (e.kind ≠ .loop → e.source < e.target ∧
    ∃ m ∈ ns, ∃ n ∈ ns, m.id = e.source ∧ n.id = e.target ∧ l.Drops 1 m.y n.y)

lemma Edge.Goes.mono {e : Edge} {l : Layout} {ns ms : List Node} (h : e.Goes l ns) (hsub : ns ⊆ ms) :
    e.Goes l ms := by
  refine ⟨h.1, fun hkind => ?_⟩
  obtain ⟨hlt, m, hm, n, hn, hends⟩ := h.2 hkind
  exact ⟨hlt, m, hsub hm, n, hsub hn, hends⟩

namespace Drawing

/-- The node lies above the line. -/
def Bears (d : Drawing) (y : Position) (s : Nat) : Prop :=
  s < d.nextId ∧ ∃ n ∈ d.nodes, n.id = s ∧ d.layout.Drops 1 n.y y

/-- All edges go as they should, and the exits leave nodes above the line. -/
structure Hangs (d : Drawing) (y : Position) (E : List Exit) : Prop where
  line : d.layout.Drops 0 y y
  nodes : ∀ n ∈ d.nodes, d.layout.Drops 0 n.y n.y
  edges : ∀ e ∈ d.edges, e.Goes d.layout d.nodes
  exits : ∀ x ∈ E, x.kind ≠ .loop ∧ d.Bears y x.source

/-- The drawing has grown, and the line has gone down, below all new returns. -/
structure Grows (d : Drawing) (y : Position) (d' : Drawing) (y' : Position) : Prop where
  layout : d'.layout = d.layout
  nodes : d.nodes <+: d'.nodes
  line : d.layout.Drops 0 y y'
  returns : ∀ r ∈ d'.returns, r ∈ d.returns ∨ d'.Bears y' r

lemma Bears.mono (h : d.Bears y s) (hlayout : d'.layout = d.layout) (hnodes : d.nodes <+: d'.nodes)
    (hy : d.layout.Drops 0 y y') : d'.Bears y' s := by
  obtain ⟨hs, n, hn, hid, hdrop⟩ := h
  exact ⟨hs.trans_le (Nat.succ_le_succ hnodes.length_le), n, hnodes.subset hn, hid, hlayout ▸ hdrop.trans hy⟩

lemma Grows.trans (h : d.Grows y d' y') (h' : d'.Grows y' d'' y'') : d.Grows y d'' y'' where
  layout := h'.layout.trans h.layout
  nodes := h.nodes.trans h'.nodes
  line := h.line.trans (h.layout ▸ h'.line)
  returns r hr := by
    rcases h'.returns r hr with hr | hr
    · exact (h.returns r hr).imp_right fun hbears => hbears.mono h'.layout h'.nodes h'.line
    · exact .inr hr

lemma Lays.drops (hn : d.Lays n y) (hfinite : d.layout.Drops 0 d.y d.y) : d.layout.Drops 1 n.y y := by
  intro hl
  obtain ⟨-, hy, rfl⟩ := hn
  obtain ⟨a, -, ha, -⟩ := hfinite hl
  have hheight : 0 < (d.layout.size n.kind n.label).2 := by
    cases n.kind <;> simp [Layout.size, hl.node, hl.decision, hl.merge]
  have hgap := hl.gap
  exact ⟨a, _, hy.trans ha, by rw [ha, hl.units_eq, hl.add_halves], by omega⟩

/-- A box that the exits lead to. -/
lemma Hangs.box (h : d.Hangs d.y E) (hn : d.Lays n y) (fault : Option NumeralFault) :
    Hangs ({ d with nodes := d.nodes ++ [n], y, fault }.join E d.nextId Exit.kind) y [] ∧
      d.Grows d.y ({ d with nodes := d.nodes ++ [n], y, fault }.join E d.nextId Exit.kind) y ∧
      Bears ({ d with nodes := d.nodes ++ [n], y, fault }.join E d.nextId Exit.kind) y d.nextId := by
  have hdrop := hn.drops h.line
  have hmem : n ∈ d.nodes ++ [n] := mem_append_right _ (mem_singleton.mpr rfl)
  refine ⟨⟨hdrop.finite, ?_, fun e he => ?_, by simp⟩, ⟨rfl, prefix_append _ _, ?_, fun _ hr => .inl hr⟩, ?_⟩
  · exact forall_mem_append.mpr ⟨h.nodes, forall_mem_singleton.mpr (hn.2.1 ▸ h.line)⟩
  · rcases mem_join he with he | ⟨htarget, x, hx, hsource, hkind⟩
    · exact (h.edges e he).mono (subset_append_left _ _)
    · obtain ⟨hloop, hlt, m, hm, hid, hm'⟩ := h.exits x hx
      refine ⟨fun hback => absurd (hkind.symm.trans hback) hloop, fun _ => ⟨?_, m, mem_append_left _ hm, n, hmem, ?_⟩⟩
      · rwa [hsource, htarget]
      · rw [hid, hsource, hn.1, htarget, hn.2.1]
        exact ⟨rfl, rfl, hm'⟩
  · exact hn.2.1 ▸ .mono hdrop (by decide)
  · exact ⟨by simp [nextId, join], n, hmem, hn.1, hdrop⟩

end Drawing

/-- What hangs above a line still does when more has been drawn, and the line has gone down. -/
lemma Assembly.hangs {bs : List Box} (h : Assembly d y E d' y' X bs) (hd : d.Hangs y E) :
    d'.Hangs y' X ∧ d.Grows y d' y' := by
  induction h with
  | idle => exact ⟨⟨hd.line, hd.nodes, hd.edges, hd.exits⟩, rfl, prefix_rfl, hd.line, fun _ hr => .inl hr⟩
  | box y fault hn _ _ _ hX =>
    obtain ⟨hbox, hgrows, hbears⟩ := hd.box hn fault
    refine ⟨⟨hbox.line, hbox.nodes, hbox.edges, fun x hx => ⟨(hX x hx).2, ?_⟩⟩, hgrows⟩
    rwa [(hX x hx).1]
  | halt y fault hn =>
    obtain ⟨hbox, hgrows, hbears⟩ := hd.box hn fault
    refine ⟨⟨hbox.line, hbox.nodes, hbox.edges, hbox.exits⟩, hgrows.layout, hgrows.nodes, hgrows.line, fun r hr => ?_⟩
    exact (mem_append.mp hr).imp_right fun hr => by rwa [mem_singleton.mp hr]
  | seq _ _ ih ih' =>
    obtain ⟨hX, hgrows⟩ := ih hd
    obtain ⟨hY, hgrows'⟩ := ih' hX
    exact ⟨hY, hgrows.trans hgrows'⟩
  | beside _ _ hline _ _ ih ih' =>
    obtain ⟨hE, hF⟩ := forall_mem_append.mp hd.exits
    obtain ⟨hX, hg⟩ := ih ⟨hd.line, hd.nodes, hd.edges, hE⟩
    have hstay := fun x hx => (hF x hx).imp_right fun hbears => hbears.mono hg.layout hg.nodes hd.line
    obtain ⟨hY, hg'⟩ := ih' ⟨hg.layout ▸ hd.line, hX.nodes, hX.edges, hstay⟩
    have hlayout := hg'.layout.trans hg.layout
    obtain ⟨hmax, hmax'⟩ := hline hg.line (hg.layout ▸ hg'.line)
    have hfirst := fun s (h : Drawing.Bears _ _ s) => h.mono hg'.layout hg'.nodes (hg.layout ▸ hmax)
    have hsecond := fun s (h : Drawing.Bears _ _ s) => h.mono rfl prefix_rfl (hlayout ▸ hmax')
    refine ⟨⟨hlayout ▸ hmax.finite, hY.nodes, hY.edges, ?_⟩, hlayout, hg.nodes.trans hg'.nodes, hg.line.trans hmax, ?_⟩
    · refine forall_mem_append.mpr ⟨fun x hx => ?_, fun x hx => ?_⟩
      · exact (hX.exits x hx).imp_right (hfirst _)
      · exact (hY.exits x hx).imp_right (hsecond _)
    · intro r hr
      rcases hg'.returns r hr with hr | hr
      · exact (hg.returns r hr).imp_right (hfirst r)
      · exact .inr (hsecond r hr)
  | back _ _ hback ih =>
    obtain ⟨hXY, hg⟩ := ih hd
    refine ⟨⟨hXY.line, hXY.nodes, fun e he => ?_, (forall_mem_append.mp hXY.exits).2⟩, hg.layout, hg.nodes, hg.line,
      hg.returns⟩
    rcases Drawing.mem_join he with he | ⟨htarget, x, hx, hsource, hkind⟩
    · exact hXY.edges e he
    · refine ⟨fun _ => ?_, fun hne => absurd hkind hne⟩
      rw [htarget, hsource]
      exact (hback x hx).1

/-! ## Whole charts -/

lemma Position.least_mem (p : Position) (ps : List Position) : p.least ps ∈ p :: ps := by
  induction ps generalizing p with
  | nil => exact mem_singleton.mpr rfl
  | cons q qs ih =>
    have hmin : p.min q = p ∨ p.min q = q := by
      unfold min
      split <;> simp
    rcases mem_cons.mp (ih (p.min q)) with h | h
    · rcases hmin with hmin | hmin <;> simp_all [least]
    · exact mem_cons_of_mem _ (mem_cons_of_mem _ h)

/-- The nodes of a chart are those of its drawing, all moved alike. -/
lemma Drawing.exists_chart_nodes (d : Drawing) (hd : ∀ n ∈ d.nodes, d.layout.Drops 0 n.y n.y) (name : String)
    (role : Role) : ∃ f : Node → Node, (d.chart name role).nodes = d.nodes.map f ∧
      ∀ m n, (f m).id = m.id ∧ (d.layout.Drops 1 m.y n.y → d.layout.Drops 1 (f m).y (f n).y) := by
  unfold chart
  split
  · next hnodes => exact ⟨id, by rw [hnodes]; rfl, fun _ _ => ⟨rfl, id⟩⟩
  · next k ns hnodes =>
    have hleast : k.y.least (ns.map Node.y) ∈ (k :: ns).map Node.y := least_mem ..
    obtain ⟨top, htop, heq⟩ := mem_map.mp hleast
    refine ⟨?f, ?h, ?_⟩
    case h => rw [hnodes]
    refine fun m n => ⟨rfl, fun hdrop hl => ?_⟩
    obtain ⟨a, b, ha, hb, hab⟩ := hdrop hl
    obtain ⟨t, -, ht, -⟩ := hd top (hnodes ▸ htop) hl
    simp only [← heq, ha, hb, ht, Layout.sub, negate, hl.units_eq, hl.add_halves]
    exact ⟨_, _, rfl, rfl, by omega⟩

lemma Drawing.ended_eq (d : Drawing) (X : List Exit) (stop : Node) (y : Position) (fault : Option NumeralFault) :
    d.ended X stop y fault = { d with nodes := d.nodes ++ [stop], y, fault }.join
      (X ++ d.returns.map (Exit.mk · none .normal)) d.nextId Exit.kind := by
  simp only [ended, ← connect_eq_join]
  exact foldl_append.symm

/-- In the chart the edges go from node to later node and down, but for those of loops, which go back. -/
structure Chart.Descends (c : Chart) (layout : Layout) : Prop where
  nodeIds : c.nodes.map Node.id = List.range' 1 c.nodes.length
  forward : ∀ e ∈ c.edges, e.kind ≠ .loop → e.source < e.target ∧ ∃ m ∈ c.nodes, ∃ n ∈ c.nodes,
    m.id = e.source ∧ n.id = e.target ∧ (layout.Upright → m.y.before n.y = true)
  back : ∀ e ∈ c.edges, e.kind = .loop → e.target ≤ e.source
  cycle : ∀ a, ¬Relation.TransGen (fun a b => ∃ e ∈ c.edges, e.kind ≠ .loop ∧ e.source = a ∧ e.target = b) a a

namespace Blueprint

variable {layout : Layout} {c : Chart} {body : List Stmt}

lemma hangs_opened (b : Blueprint layout c body) : b.opened.Hangs b.opened.y [{ source := 1 }] := by
  have hzero : layout.Drops 0 (.halves 0) (.halves 0) := fun _ => ⟨0, 0, rfl, rfl, le_rfl⟩
  have hdrop : b.opened.layout.Drops 1 b.start.y b.opened.y := by
    rw [b.opened_layout]
    exact b.start_lays.drops hzero
  refine ⟨hdrop.finite, ?_, by simp [b.opened_edges], ?_⟩
  · rw [b.opened_nodes, forall_mem_singleton, b.start_lays.2.1, b.opened_layout]
    exact hzero
  · rw [forall_mem_singleton]
    exact ⟨nofun, by simp [b.nextId_opened], b.start, by simp [b.opened_nodes], b.start_id, hdrop⟩

lemma hangs_ended (b : Blueprint layout c body) : (b.drawn.ended b.exits b.stop b.y b.fault).Hangs b.y [] ∧
      (b.drawn.ended b.exits b.stop b.y b.fault).layout = layout := by
  obtain ⟨hdrawn, hgrows⟩ := b.assembly.hangs b.hangs_opened
  rw [Drawing.ended_eq]
  refine ⟨(Drawing.Hangs.box ⟨hdrawn.line, hdrawn.nodes, hdrawn.edges, ?_⟩ b.stop_lays b.fault).1,
    hgrows.layout.trans b.opened_layout⟩
  refine forall_mem_append.mpr ⟨hdrawn.exits, forall_mem_map.mpr fun r hr => ⟨by simp, ?_⟩⟩
  exact (hgrows.returns r hr).resolve_left (by simp [b.opened_returns])

lemma descends (b : Blueprint layout c body) : c.Descends layout := by
  obtain ⟨hhangs, hlayout⟩ := b.hangs_ended
  obtain ⟨name, role, hc⟩ := b.chart
  obtain ⟨f, hnodes, hf⟩ := Drawing.exists_chart_nodes _ hhangs.nodes name role
  rw [← hc] at hnodes
  have hforward {e : Edge} (he : e ∈ c.edges) (hkind : e.kind ≠ .loop) := (hhangs.edges e (b.edges ▸ he)).2 hkind
  refine ⟨b.nodeIds, fun e he hkind => ?_, fun e he hkind => (hhangs.edges e (b.edges ▸ he)).1 hkind, ?_⟩
  · obtain ⟨hlt, m, hm, n, hn, hsource, htarget, hdrop⟩ := hforward he hkind
    rw [hnodes]
    refine ⟨hlt, f m, mem_map_of_mem hm, f n, mem_map_of_mem hn, (hf m n).1.trans hsource, (hf n n).1.trans htarget,
      fun hl => ?_⟩
    obtain ⟨i, j, hi, hj, hij⟩ := (hf m n).2 hdrop (by rwa [hlayout])
    rw [hi, hj, before, decide_eq_true_eq]
    omega
  · intro a hcycle
    have hlt : Relation.TransGen (· < ·) a a := by
      refine Relation.TransGen.mono (fun _ _ hedge => ?_) _ _ hcycle
      obtain ⟨e, he, hkind, rfl, rfl⟩ := hedge
      exact (hforward he hkind).1
    rw [Relation.transGen_eq_self] at hlt
    exact lt_irrefl a hlt

end Blueprint

/-- In the flowcharts of a program that comes out of the reader every edge that closes no loop leads to a later node,
and, if the layout is upright, further down; one that closes a loop does not.  So every cycle closes a loop. -/
theorem charts_descend (toks : List Token) (taken : Taken Program toks) (h : Program.parse toks = .ok taken)
    (layout : Layout) : ∃ charts, Charts.ofProgram? taken.value layout = some charts ∧
      ∀ c ∈ charts.all, c.Descends layout := by
  obtain ⟨charts, hcharts, hmain, hroutines⟩ := exists_charts Blueprint.descends h layout
  refine ⟨charts, hcharts, forall_mem_cons.mpr ⟨hmain, forall_mem_map.mpr fun entry hentry => ?_⟩⟩
  obtain ⟨_, -, -, hdescends⟩ := hroutines entry hentry
  exact hdescends

theorem charts_descend_selection : ∃ taken, Program.parse selection = .ok taken ∧
    Layout.Upright { rounding := .exact } ∧
    ∃ charts, Charts.ofProgram? taken.value { rounding := .exact } = some charts ∧
      ∀ c ∈ charts.all, c.Descends { rounding := .exact } := by
  obtain ⟨taken, htaken⟩ := exists_parse_selection
  exact ⟨taken, htaken, by constructor <;> decide, charts_descend selection taken htaken { rounding := .exact }⟩

end AlgoLang.Flow
