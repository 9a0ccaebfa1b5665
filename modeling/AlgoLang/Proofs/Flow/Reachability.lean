/-
# The end can be reached, and all from the start

From every node of a part one gets to an exit of the part or to a return, and a part that returns nowhere can
be reached as a whole from the exits that lead into it.  Both are kept by assemblies.
-/
import AlgoLang.Proofs.Flow.WellFormed

namespace AlgoLang.Flow

open Drawing List

variable {a : Nat}

/-- One gets from one node to another along edges. -/
def Leads (edges : List Edge) : Nat → Nat → Prop :=
  Relation.ReflTransGen fun a b => ∃ e ∈ edges, e.source = a ∧ e.target = b

/-- The end can be reached from every node, and if the body has no `RETURN`, every node from the start. -/
structure Chart.Connected (c : Chart) (body : List Stmt) : Prop where
  toStop : ∃ stop, c.stop? = some stop ∧ stop.kind = .stop ∧ ∀ n ∈ c.nodes, Leads c.edges n.id stop.id
  fromStart : Stmt.returnsAny body = false →
    ∃ start, c.start? = some start ∧ start.kind = .start ∧ ∀ n ∈ c.nodes, Leads c.edges start.id n.id

lemma Leads.mono {edges edges' : List Edge} (h : edges ⊆ edges') {b : Nat} (hab : Leads edges a b) :
    Leads edges' a b :=
  Relation.ReflTransGen.mono (fun _ _ ⟨e, he, hends⟩ => ⟨e, h he, hends⟩) _ _ hab

lemma Drawing.subset_join (d : Drawing) (X : List Exit) (t : Nat) (role : Exit → EdgeKind) :
    d.edges ⊆ (d.join X t role).edges :=
  subset_append_left _ _

lemma Drawing.leads_join (d : Drawing) {X : List Exit} (t : Nat) (role : Exit → EdgeKind) {x : Exit}
    (hx : x ∈ X) : Leads (d.join X t role).edges x.source t := by
  obtain ⟨i, hi, rfl⟩ := getElem_of_mem hx
  refine .single ⟨_, mem_append_right _ (mem_mapIdx.mpr ⟨i, hi, rfl⟩), rfl, rfl⟩

namespace Assembly

variable {d d' : Drawing} {l l' : Position} {E X : List Exit} {bs : List Box}

lemma edges_subset (h : Assembly d l E d' l' X bs) : d.edges ⊆ d'.edges := by
  induction h with
  | idle => exact fun _ he => he
  | box | halt => exact subset_join _ _ _ _
  | seq _ _ ih ih' | beside _ _ _ _ _ ih ih' => exact fun _ he => ih' (ih he)
  | back _ _ _ ih => exact fun _ he => subset_join _ _ _ _ (ih he)

lemma returns_subset (h : Assembly d l E d' l' X bs) : d.returns ⊆ d'.returns := by
  induction h with
  | idle | box => exact fun _ hr => hr
  | halt => exact subset_append_left _ _
  | seq _ _ ih ih' | beside _ _ _ _ _ ih ih' => exact fun _ hr => ih' (ih hr)
  | back _ _ _ ih => exact ih

/-- One of the nodes that were drawn between the two drawings, or a node with one of the exits. -/
def Within (d d' : Drawing) (X : List Exit) (a : Nat) : Prop :=
  d.nextId ≤ a ∧ a < d'.nextId ∨ ∃ x ∈ X, x.source = a

lemma Within.split {d₂ : Drawing} {Y : List Exit} (h : Within d d₂ (X ++ Y) a) (d₁ : Drawing) :
    Within d d₁ X a ∨ Within d₁ d₂ Y a := by
  rcases h with h | ⟨x, hx, rfl⟩
  · by_cases hnew : d₁.nextId ≤ a
    · exact .inr (.inl ⟨hnew, h.2⟩)
    · exact .inl (.inl ⟨h.1, by omega⟩)
  · exact (mem_append.mp hx).imp (fun hx => .inr ⟨x, hx, rfl⟩) fun hx => .inr ⟨x, hx, rfl⟩

lemma Within.leads_nextId (h : Within d d' E a) (hnext : d'.nextId = d.nextId + 1)
    (hE : ∀ x ∈ E, Leads d'.edges x.source d.nextId) : Leads d'.edges a d.nextId := by
  rcases h with h | ⟨x, hx, rfl⟩
  · obtain rfl : a = d.nextId := by omega
    exact .refl
  · exact hE x hx

/-- From the new nodes, and from the nodes whose exits led to them, one gets to an exit or a return. -/
lemma leads_on (h : Assembly d l E d' l' X bs) (ha : Within d d' E a) :
    ∃ z, Leads d'.edges a z ∧ ((∃ x ∈ X, x.source = z) ∨ z ∈ d'.returns) := by
  induction h generalizing a with
  | idle =>
    rcases ha with ha | ha
    · exact absurd ha.2 (Nat.not_lt.mpr ha.1)
    · exact ⟨a, .refl, .inl ha⟩
  | @box d E X n b y fault _ _ hX _ hsource =>
    obtain ⟨x, hx⟩ := exists_mem_of_ne_nil X hX
    refine ⟨d.nextId, ha.leads_nextId ?_ fun x hx => ?_, .inl ⟨x, hx, (hsource x hx).1⟩⟩
    · simp [nextId, join]
    · exact leads_join _ _ _ hx
  | @halt d E n y fault _ _ =>
    refine ⟨d.nextId, ha.leads_nextId ?_ fun x hx => ?_, .inr (mem_append_right _ mem_cons_self)⟩
    · simp [nextId, join]
    · exact leads_join _ _ _ hx
  | @seq d d₁ d₂ _ _ _ E X Y bs cs hfirst hsecond ih ih' =>
    by_cases hnew : d₁.nextId ≤ a ∧ a < d₂.nextId
    · exact ih' (.inl hnew)
    · have hold : Within d d₁ E a := ha.imp_left fun ha => by omega
      obtain ⟨z, hz, hexit | hreturn⟩ := ih hold
      · obtain ⟨z', hz', hend⟩ := ih' (.inr hexit)
        exact ⟨z', (hz.mono hsecond.edges_subset).trans hz', hend⟩
      · exact ⟨z, hz.mono hsecond.edges_subset, .inr (hsecond.returns_subset hreturn)⟩
  | @beside d d₁ d₂ _ _ _ _ E F X Y bs cs _ _ _ hfirst hsecond ih ih' =>
    rcases ha.split d₁ with ha | ha
    · obtain ⟨z, hz, ⟨x, hx, rfl⟩ | hreturn⟩ := ih ha
      · exact ⟨_, hz.mono hsecond.edges_subset, .inl ⟨x, mem_append_left _ hx, rfl⟩⟩
      · exact ⟨z, hz.mono hsecond.edges_subset, .inr (hsecond.returns_subset hreturn)⟩
    · obtain ⟨z, hz, ⟨x, hx, rfl⟩ | hreturn⟩ := ih' ha
      · exact ⟨_, hz, .inl ⟨x, mem_append_right _ hx, rfl⟩⟩
      · exact ⟨z, hz, .inr hreturn⟩
  | @back d d₁ _ _ E X Y bs _ _ hX ih =>
    obtain ⟨z, hz, ⟨x, hx, rfl⟩ | hreturn⟩ := ih ha
    · have hz := hz.mono (d₁.subset_join X d.nextId fun _ => .loop)
      rcases mem_append.mp hx with hx | hx
      · -- around the loop, or out of it where the exit belongs
        obtain ⟨-, y, hy, hsource | hsource⟩ := hX x hx
        · exact ⟨d.nextId, hz.trans (d₁.leads_join _ _ hx), .inl ⟨y, hy, hsource⟩⟩
        · exact ⟨x.source, hz, .inl ⟨y, hy, hsource⟩⟩
      · exact ⟨x.source, hz, .inl ⟨x, hx, rfl⟩⟩
    · exact ⟨z, hz.mono (d₁.subset_join X d.nextId _), .inr hreturn⟩

/-- If nothing returns, there are exits again, and one gets to them and to the new nodes from the nodes
whose exits led there. -/
lemma comes_from (h : Assembly d l E d' l' X bs) (hbs : .return ∉ bs) (hE : E ≠ []) :
    X ≠ [] ∧ ∀ a, Within d d' X a → ∃ x ∈ E, Leads d'.edges x.source a := by
  induction h with
  | idle =>
    refine ⟨hE, fun a ha => ?_⟩
    rcases ha with ha | ⟨x, hx, rfl⟩
    · exact absurd ha.2 (Nat.not_lt.mpr ha.1)
    · exact ⟨x, hx, .refl⟩
  | @box d E X n b y fault _ _ hX _ hsource =>
    obtain ⟨x, hx⟩ := exists_mem_of_ne_nil E hE
    refine ⟨hX, fun a ha => ⟨x, hx, ?_⟩⟩
    have hnew : a = d.nextId := by
      rcases ha with ha | ⟨y, hy, rfl⟩
      · simp only [nextId, join, length_append, length_singleton] at ha ⊢
        omega
      · exact (hsource y hy).1
    rw [hnew]
    exact leads_join _ _ _ hx
  | halt => exact absurd mem_cons_self hbs
  | @seq d d₁ d₂ _ _ _ E X Y bs cs hfirst hsecond ih ih' =>
    rw [mem_append, not_or] at hbs
    obtain ⟨hX, hold⟩ := ih hbs.1 hE
    obtain ⟨hY, hnew⟩ := ih' hbs.2 hX
    refine ⟨hY, fun a ha => ?_⟩
    by_cases hfirst : d.nextId ≤ a ∧ a < d₁.nextId
    · obtain ⟨x, hx, hleads⟩ := hold a (.inl hfirst)
      exact ⟨x, hx, hleads.mono hsecond.edges_subset⟩
    · obtain ⟨x, hx, hleads⟩ := hnew a (ha.imp_left fun ha => by omega)
      obtain ⟨x', hx', hleads'⟩ := hold x.source (.inr ⟨x, hx, rfl⟩)
      exact ⟨x', hx', (hleads'.mono hsecond.edges_subset).trans hleads⟩
  | @beside d d₁ d₂ _ _ _ _ E F X Y bs cs hE' hF _ hfirst hsecond ih ih' =>
    rw [mem_append, not_or] at hbs
    obtain ⟨hY, hnew⟩ := ih' hbs.2 hF
    refine ⟨by simp [hY], fun a ha => ?_⟩
    rcases ha.split d₁ with ha | ha
    · have hE : E ≠ [] := by
        refine hE'.resolve_right ?_
        rintro ⟨hsame, rfl⟩
        rcases ha with ha | ⟨x, hx, -⟩
        · omega
        · cases hx
      obtain ⟨x, hx, hleads⟩ := (ih hbs.1 hE).2 a ha
      exact ⟨x, mem_append_left _ hx, hleads.mono hsecond.edges_subset⟩
    · obtain ⟨x, hx, hleads⟩ := hnew a ha
      exact ⟨x, mem_append_right _ hx, hleads⟩
  | @back d d₁ _ _ E X Y bs _ _ hX ih =>
    obtain ⟨hXY, hold⟩ := ih hbs hE
    refine ⟨?_, fun a ha => ?_⟩
    · rintro rfl
      obtain ⟨x, hx⟩ := exists_mem_of_ne_nil X (by simpa using hXY)
      obtain ⟨-, y, hy, -⟩ := hX x hx
      cases hy
    · have ha : Within d d₁ (X ++ Y) a :=
        ha.imp_right (Exists.imp fun _ hy => ⟨mem_append_right _ hy.1, hy.2⟩)
      obtain ⟨x, hx, hleads⟩ := hold a ha
      exact ⟨x, hx, hleads.mono (d₁.subset_join X d.nextId _)⟩

end Assembly

/-! ## Whole charts -/

namespace Blueprint

variable {layout : Layout} {c : Chart} {body : List Stmt}

variable (b : Blueprint layout c body)
include b

lemma edges_subset : b.drawn.edges ⊆ c.edges := by
  rw [b.edges, ended]
  exact fun _ he => subset_join _ _ _ _ (subset_join _ _ _ _ he)

lemma leads_stop (ha : (∃ x ∈ b.exits, x.source = a) ∨ a ∈ b.drawn.returns) : Leads c.edges a b.drawn.nextId := by
  rw [b.edges, ended]
  rcases ha with ⟨x, hx, rfl⟩ | ha
  · exact .mono (subset_join _ _ _ _) (leads_join _ _ _ hx)
  · exact leads_join (x := { source := a }) _ _ _ (mem_map_of_mem ha)

/-- The number of a node: that of the start, of the end or of one that was drawn between them. -/
lemma id_cases {n : Node} (hn : n ∈ c.nodes) :
    n.id = 1 ∨ (b.opened.nextId ≤ n.id ∧ n.id < b.drawn.nextId) ∨ n.id = b.drawn.nextId := by
  have hmem : n.id ∈ c.nodes.map Node.id := mem_map_of_mem hn
  rw [b.nodeIds, b.length_nodes, mem_range'_1] at hmem
  have := b.nextId_opened
  omega

lemma connected : c.Connected body where
  toStop := by
    obtain ⟨stop, hofKind, hlast, -⟩ := b.wellFormed.stop
    have hstop : stop = b.moved b.stop := by
      rw [b.nodes, map_append, map_singleton, getLast?_concat] at hlast
      exact (Option.some.inj hlast).symm
    have hid : stop.id = b.drawn.nextId := by rw [hstop, (b.moved_eq b.stop).1, b.stop_lays.1]
    have hkind : stop.kind = .stop := by rw [hstop, (b.moved_eq b.stop).2.1, b.stop_kind]
    refine ⟨stop, by rw [Chart.stop?, hofKind]; rfl, hkind, fun n hn => ?_⟩
    rw [hid]
    have hon (hin : Assembly.Within b.opened b.drawn [{ source := 1 }] n.id) : Leads c.edges n.id b.drawn.nextId := by
      obtain ⟨z, hz, hend⟩ := b.assembly.leads_on hin
      exact (hz.mono b.edges_subset).trans (b.leads_stop hend)
    rcases b.id_cases hn with hstart | hnew | hstop
    · exact hon (.inr ⟨_, mem_cons_self, hstart.symm⟩)
    · exact hon (.inl hnew)
    · rw [hstop]
      exact .refl
  fromStart := by
    intro hreturns
    obtain ⟨start, hofKind, hhead, -⟩ := b.wellFormed.start
    have hnone : .return ∉ b.boxes := by
      intro hmem
      rw [b.returns hmem] at hreturns
      cases hreturns
    obtain ⟨hexits, hfrom⟩ := b.assembly.comes_from hnone (by simp)
    have hdrawn (a : Nat) (ha : Assembly.Within b.opened b.drawn b.exits a) : Leads c.edges 1 a := by
      obtain ⟨x, hx, hleads⟩ := hfrom a ha
      rw [mem_singleton.mp hx] at hleads
      exact hleads.mono b.edges_subset
    have hstart : start = b.moved b.start := by
      obtain ⟨middle, hnodes, -⟩ := b.exists_middle
      rw [hnodes, head?_cons] at hhead
      exact (Option.some.inj hhead).symm
    have hid : start.id = 1 := by rw [hstart, (b.moved_eq b.start).1, b.start_id]
    have hkind : start.kind = .start := by rw [hstart, (b.moved_eq b.start).2.1, b.start_kind]
    refine ⟨start, hhead, hkind, fun n hn => ?_⟩
    rw [hid]
    rcases b.id_cases hn with hone | hnew | hstop
    · rw [hone]
      exact .refl
    · exact hdrawn _ (.inl hnew)
    · obtain ⟨x, hx⟩ := exists_mem_of_ne_nil _ hexits
      rw [hstop]
      exact (hdrawn x.source (.inr ⟨x, hx, rfl⟩)).trans (b.leads_stop (.inl ⟨x, hx, rfl⟩))

end Blueprint

/-- In the flowcharts of a program that comes out of the reader the end can be reached from every node, and
if the body has no `RETURN`, every node can be reached from the start. -/
theorem charts_connected (toks : List Token) (taken : Taken Program toks)
    (h : Program.parse toks = .ok taken) (layout : Layout) :
    ∃ charts, Charts.ofProgram? taken.value layout = some charts ∧
      charts.main.Connected taken.value.body ∧
      ∀ entry ∈ charts.routines, ∃ r ∈ taken.value.routines, r.name = entry.1 ∧
        entry.2.Connected r.body :=
  exists_charts Blueprint.connected h layout

/-- A switch, and a loop with a `RETURN` in it. -/
theorem charts_connected_selection :
    ∃ taken, Program.parse selection = .ok taken ∧
      ∃ charts, Charts.ofProgram? taken.value {} = some charts ∧
        charts.main.Connected taken.value.body ∧
        ∀ entry ∈ charts.routines, ∃ r ∈ taken.value.routines, r.name = entry.1 ∧
          entry.2.Connected r.body := by
  obtain ⟨taken, htaken⟩ := exists_parse_selection
  exact ⟨taken, htaken, charts_connected selection taken htaken {}⟩

end AlgoLang.Flow
