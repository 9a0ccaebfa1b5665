/-
# A flowchart shows the traces of its statements

The drawing of a statement is a part whose language is that of the statement.  The induction carries both
languages of a part, that of its exits and that of its returns; branches and clauses are added to a fork one
by one.
-/
import AlgoLang.Proofs.Flow.Assembly

namespace AlgoLang.Flow

open Computability List

namespace Drawing

variable {d d' d'' : Drawing} {E X Y : List Exit} {K T T' R R' : Language Event}

/-- Traces as the drawing shows them. -/
def sees (d : Drawing) : Language Event →+* Language Look :=
  Language.map (look d.layout d.routines)

lemma Extends.sees_eq (h : Extends d d') : d'.sees = d.sees := by
  unfold sees
  rw [h.layout, h.routines]

/-- What was drawn behind the exits `E` shows traces: those of `T` on the way to its exits, those of `R`
on the way to its returns. -/
def Renders (d : Drawing) (E : List Exit) (d' : Drawing) (X : List Exit) (T R : Language Event) : Prop :=
  Draws d E d' X (d.sees T) (d.sees R)

namespace Renders

lemma refl (hd : d.Ready E) : Renders d E d E 1 0 := by
  rw [Renders, map_one, map_zero]
  exact .refl hd

lemma trans (h : Renders d E d' X T R) (h' : Renders d' X d'' Y T' R') : Renders d E d'' Y (T * T') (R + T * R') := by
  rw [Renders, h.grown.sees_eq] at h'
  rw [Renders, map_mul, map_add, map_mul]
  exact .trans h h'

lemma loop (h : Renders d E d' X T R) (hY : Serves d E d' Y (d.sees K)) (hlt : d.nextId < d'.nextId)
    (hl : Linked d' X d.nextId d'') : Renders d E d'' Y (T∗ * K) (T∗ * R) := by
  have hstar : d.sees T∗ = (d.sees T)∗ := Language.map_kstar _ T
  rw [Renders, map_mul, map_mul, hstar]
  exact .loop h hY hlt hl

end Renders

/-! ## Boxes -/

/-- The box for a step that exits lead to. -/
def placeAct (d : Drawing) (act : Act) (E : List Exit) : Drawing :=
  d.place act.kind act.text act.span act.calls E

lemma nextId_placeAct (d : Drawing) (act : Act) (E : List Exit) : (d.placeAct act E).nextId = d.nextId + 1 :=
  d.nextId_place act.kind act.text act.span act.calls E

lemma nextId_lt_placeAct (d : Drawing) (act : Act) (E : List Exit) : d.nextId < (d.placeAct act E).nextId := by
  rw [nextId_placeAct]
  exact Nat.lt_succ_self _

lemma renders_placeAct (hd : d.Ready E) (act : Act) (outcome : Option Outcome) (role : EdgeKind) :
    Renders d E (d.placeAct act E) [⟨d.nextId, outcome.map Outcome.label, role⟩] (once act outcome) 0 := by
  have h := draws_place act.kind act.text act.span act.calls hd (outcome.map Outcome.label) role
  have honce : d.sees (once act outcome) = {[look d.layout d.routines ⟨act, outcome⟩]} := Set.image_singleton
  rw [Renders, honce, map_zero]
  cases act <;> exact h

lemma renders_return (hd : d.Ready E) (act : Act) :
    Renders d E { d.placeAct act E with returns := (d.placeAct act E).returns ++ [d.nextId] } [] 0 (once act) := by
  have h := renders_placeAct hd act none .normal
  have hg := h.grown
  have hreturns : (d.placeAct act E).returns = d.returns := returns_place _ _ _ _ d E
  rw [Renders, map_zero]
  refine ⟨⟨hg.layout, hg.routines, hg.nodes, hg.edges, hg.added, hg.formed.ids, hg.formed.edges⟩,
    .nil _ _ _, ⟨[d.nextId], ?_, h.through.exits, h.through.reach⟩, ?_⟩
  · rw [hreturns]
  · intro hsame
    exact absurd hsame (d.nextId_lt_placeAct act E).ne'

lemma renders_silent (hd : d.Ready E) {kind : NodeKind}
    (hkind : kind.isSilent) (label : String) (span : Option Span) :
    Renders d E (d.simple kind label span [] E).1 (d.simple kind label span [] E).2 1 0 := by
  have h := draws_place kind label span [] hd none .normal
  rw [shownAs, if_pos hkind] at h
  rw [Renders, map_one, map_zero]
  exact h

lemma Renders.merge (h : Renders d E d' X T R) : Renders d E (d'.merge X).1 (d'.merge X).2 T R := by
  cases X with
  | nil => exact h
  | cons x X =>
    have hsilent : NodeKind.merge.isSilent := rfl
    have hmerge := h.trans (renders_silent h.ready hsilent "" none)
    rw [mul_one, mul_zero, add_zero] at hmerge
    exact hmerge

/-! ## Loops -/

/-- A loop that tests first: what is drawn for its body leads back to the test. -/
lemma renders_while (hd : d.Ready E) (act : Act) (h : Renders (d.placeAct act E) [⟨d.nextId, some "true",
    .whenTrue⟩] d' X T R) (hl : Linked d' X d.nextId d'') : Renders d E d'' [⟨d.nextId, some "false", .whenFalse⟩]
      ((once act (some .holds) * T)∗ * once act (some .fails))
      ((once act (some .holds) * T)∗ * (once act (some .holds) * R)) := by
  have hholds := renders_placeAct hd act (some .holds) .whenTrue
  have hfails := renders_placeAct hd act (some .fails) .whenFalse
  have hlater := d.nextId_lt_placeAct act E
  have hround := hholds.trans h
  rw [zero_add] at hround
  refine hround.loop ?_ (hlater.trans_le h.grown.nextId_le) hl
  exact hfails.through.mono hfails.grown h.grown fun hsame => absurd hsame hlater.ne'

/-- The condition of a `DO` leads back to the first node of the body, or to itself if there is none. -/
lemma renders_doWhile (act : Act) (h : Renders d E d' X T R) :
    Renders d E ((d'.placeAct act X).addEdge d'.nextId d.nextId (some "true") .loop)
      [⟨d'.nextId, some "false", .whenFalse⟩]
      ((T * once act (some .holds))∗ * (T * once act (some .fails)))
      ((T * once act (some .holds))∗ * R) := by
  have hholds := h.trans (renders_placeAct h.ready act (some .holds) .loop)
  have hfails := h.trans (renders_placeAct h.ready act (some .fails) .whenFalse)
  rw [mul_zero, add_zero] at hholds hfails
  refine hholds.loop hfails.through ?_ (linked_addEdge _ ⟨d'.nextId, some "true", .loop⟩ d.nextId .loop)
  rw [nextId_placeAct]
  exact Nat.lt_succ_of_le h.grown.nextId_le

lemma renders_count (hd : d.Ready E) (bound next : Act) (h : Renders (d.placeAct bound E) [⟨d.nextId, some "true",
    .whenTrue⟩] d' X T R) : Renders d E ((d'.placeAct next X).addEdge d'.nextId d.nextId none .loop)
      [⟨d.nextId, some "false", .whenFalse⟩]
      ((once bound (some .holds) * T * once next)∗ * once bound (some .fails))
      ((once bound (some .holds) * T * once next)∗ * (once bound (some .holds) * R)) := by
  have hround := h.trans (renders_placeAct h.ready next none .normal)
  rw [mul_zero, add_zero] at hround
  rw [mul_assoc (once bound (some .holds))]
  exact renders_while hd bound hround (linked_addEdge _ ⟨d'.nextId, none, .normal⟩ d.nextId .loop)

/-! ## Forks -/

/-- A test drawn as the node `t`, and the branches that have been drawn for some of its outcomes. -/
structure Forks (d : Drawing) (E : List Exit) (d' : Drawing) (t : Nat) (act : Act) (X : List Exit)
    (T R : Language Event) : Prop where
  renders : Renders d E d' X T R
  later : d.nextId < d'.nextId
  test : ∀ outcome role, Serves d E d' [⟨t, outcome.map Outcome.label, role⟩] (d.sees (once act outcome))

namespace Forks

variable {t : Nat} {act : Act}

lemma start (hd : d.Ready E) (act : Act) : Forks d E (d.placeAct act E) d.nextId act [] 0 0 := by
  have h := renders_placeAct hd act none .normal
  have hlater := d.nextId_lt_placeAct act E
  refine ⟨?_, hlater, fun outcome role => (renders_placeAct hd act outcome role).through⟩
  rw [Renders, map_zero]
  exact ⟨h.grown, .nil _ _ _, map_zero d.sees ▸ h.returned, fun hsame => absurd hsame hlater.ne'⟩

lemma adjust (h : Forks d E d' t act X T R) (x y : Position) (fault : Option NumeralFault) :
    Forks d E { d' with x, y, fault } t act X T R :=
  ⟨.adjust h.renders x y fault, h.later, fun outcome role =>
    ⟨(h.test outcome role).exits, (h.test outcome role).reach⟩⟩

lemma require (h : Forks d E d' t act X T R) (r : Except NumeralFault Unit) :
    Forks d E (d'.require r) t act X T R := by
  obtain ⟨fault, heq⟩ := d'.exists_require_eq r
  rw [heq]
  exact h.adjust d'.x d'.y fault

lemma requireBranches (h : Forks d E d' t act X T R) : Forks d E d'.requireBranches t act X T R :=
  (h.require _).require _

lemma requireColumns (h : Forks d E d' t act X T R) : Forks d E d'.requireColumns t act X T R :=
  h.require _

lemma branch (h : Forks d E d' t act X T R) {outcome : Option Outcome} {role : EdgeKind}
    (h' : Renders d' [⟨t, outcome.map Outcome.label, role⟩] d'' Y T' R') :
    Forks d E d'' t act (X ++ Y) (T + once act outcome * T') (R + once act outcome * R') := by
  have hgrown := h.renders.grown
  have hnot {P : Prop} : d'.nextId = d.nextId → P := fun hsame => absurd hsame h.later.ne'
  have hlater : d.nextId < d''.nextId := h.later.trans_le h'.grown.nextId_le
  have htest := h.test outcome role
  refine ⟨?_, hlater, fun o r => (h.test o r).mono hgrown h'.grown hnot⟩
  rw [Renders, hgrown.sees_eq] at h'
  rw [Renders, map_add, map_add, map_mul, map_mul]
  obtain ⟨new, hnew, hserves⟩ := h.renders.returned
  obtain ⟨new', hnew', hserves'⟩ := h'.returned
  refine ⟨hgrown.trans h'.grown, ?_, ⟨new ++ new', ?_, ?_⟩, fun hsame => absurd hsame hlater.ne'⟩
  · exact (h.renders.through.mono hgrown h'.grown hnot).append (htest.trans hgrown hnot h'.through)
  · rw [hnew', hnew, append_assoc]
  · rw [map_append]
    exact (hserves.mono hgrown h'.grown hnot).append (htest.trans hgrown hnot hserves')

lemma draw {f : Drawing → List Exit → Drawing × List Exit} (h : Forks d E d' t act X T R)
    (hf : ∀ {d : Drawing} {E : List Exit}, d.Ready E →
      Renders d E (f d E).1 (f d E).2 T' R') (outcome : Option Outcome) (role : EdgeKind)
    (x y : Position) :
    Forks d E (f (d'.moveTo x y) [⟨t, outcome.map Outcome.label, role⟩]).1 t act (X ++ (f (d'.moveTo x y) [⟨t,
      outcome.map Outcome.label, role⟩]).2) (T + once act outcome * T') (R + once act outcome * R') := by
  have hmoved := h.adjust x y d'.fault
  exact hmoved.branch (hf ⟨hmoved.renders.grown.formed, (hmoved.test outcome role).exits⟩)

lemma merge (h : Forks d E d' t act X T R) (x y : Position) :
    Renders d E ((d'.moveTo x y).merge X).1 ((d'.moveTo x y).merge X).2 T R :=
  .merge (h.adjust x y d'.fault).renders

end Forks

/-! ## Statements -/

mutual

lemma renders_draw : ∀ (s : Stmt) {d E}, d.Ready E → Renders d E (draw d E s).1 (draw d E s).2 (through s) (returned s)
  | .assign span t v, d, E, hd => by
    rw [draw, through, returned]
    exact renders_placeAct hd (.assign span t v) none .normal
  | .print span es, d, E, hd => by
    rw [draw, through, returned]
    exact renders_placeAct hd (.print span es) none .normal
  | .scan span ts, d, E, hd => by
    rw [draw, through, returned]
    exact renders_placeAct hd (.scan span ts) none .normal
  | .call span n args, d, E, hd => by
    rw [draw, through, returned]
    exact renders_placeAct hd (.call span n args) none .normal
  | .return span e, d, E, hd => by
    rw [draw, through, returned]
    exact renders_return hd (.return span e)
  | .ifThen span c yes no, d, E, hd => by
    have hfork := (Forks.start hd (.branch span c)).requireBranches
    have hyes := fun x y => hfork.draw (renders_drawEach yes) (some .holds) .whenTrue x y
    cases no with
    | none =>
      rw [draw, through, returned, ← zero_add (_ * throughEach yes), ← zero_add (_ * returnedEach yes)]
      exact ((hyes _ _).draw (f := Prod.mk) .refl (some .fails) .whenFalse _ _).merge _ _
    | some no =>
      rw [draw, through, returned, ← zero_add (_ * throughEach yes), ← zero_add (_ * returnedEach yes)]
      exact ((hyes _ _).draw (renders_drawEach no) (some .fails) .whenFalse _ _).merge _ _
  | .while span c body, d, E, hd => by
    have hholds := renders_placeAct hd (.repeat span c) (some .holds) .whenTrue
    have hbody := renders_drawEach body hholds.ready
    rw [draw, through, returned]
    exact renders_while hd (.repeat span c) hbody (linked_connectBack ..)
  | .doWhile span body c, d, E, hd => by
    rw [draw, through, returned]
    exact renders_doWhile (.repeat span c) (renders_drawEach body hd)
  | .for span n a b step body, d, E, hd => by
    have hfirst := renders_placeAct hd (.first span n a) none .normal
    have hholds := renders_placeAct hfirst.ready (.bound span n b) (some .holds) .whenTrue
    have hbody := renders_drawEach body hholds.ready
    have hfor := hfirst.trans (renders_count hfirst.ready (.bound span n b) (.next span n step) hbody)
    rw [zero_add] at hfor
    rw [draw, through, returned]
    exact hfor
  | .switch span e cases default, d, E, hd => by
    have hfork := (Forks.start hd (.select span e)).requireColumns
    have hcases := fun center top column bottom => forks_drawCases cases hfork center top column bottom
    cases default with
    | none =>
      rw [draw, through, returned, ← zero_add (throughCases _ cases), ← zero_add (returnedCases _ cases)]
      exact ((hcases _ _ _ _).draw (f := .mk) .refl (some .default) .case _ _).merge _ _
    | some body =>
      rw [draw, through, returned, ← zero_add (throughCases _ cases), ← zero_add (returnedCases _ cases)]
      exact ((hcases _ _ _ _).draw (renders_drawEach body) (some .default) .case _ _).merge _ _
  | .block _ body, d, E, hd => by
    rw [draw, through, returned]
    exact renders_drawEach body hd
  | .unknown _, d, E, hd => by
    rw [draw, through, returned]
    exact .refl hd

lemma renders_drawEach : ∀ (ss : List Stmt) {d E}, d.Ready E →
    Renders d E (drawEach d E ss).1 (drawEach d E ss).2 (throughEach ss) (returnedEach ss)
  | [], d, E, hd => by
    rw [drawEach, throughEach, returnedEach]
    exact .refl hd
  | s :: ss, d, E, hd => by
    have hs := renders_draw s hd
    rw [drawEach, throughEach, returnedEach]
    exact hs.trans (renders_drawEach ss hs.ready)

lemma forks_drawCases : ∀ (cs : List CaseClause) {d d' E X t act T R}, Forks d E d' t act X T R →
    ∀ (center top : Position) (column : Int) (bottom : Position), Forks d E (drawCases d' t center top column bottom cs).1 t act
      (X ++ (drawCases d' t center top column bottom cs).2.2) (T + throughCases act cs) (R + returnedCases act cs)
  | [], d, d', E, X, t, act, T, R, h, center, top, column, bottom => by
    rw [drawCases, throughCases, returnedCases, append_nil, add_zero, add_zero]
    exact h
  | ⟨_, values, body⟩ :: cs, d, d', E, X, t, act, T, R, h, center, top, column, bottom => by
    have hclause := h.draw (renders_drawEach body) (some (.clause values)) .case (d'.columnAt center column) top
    have hcases := forks_drawCases cs hclause center top (column + 2)
    rw [drawCases, throughCases, returnedCases]
    simp only [append_assoc, add_assoc] at hcases
    exact hcases _

end

/-! ## Whole charts -/

lemma renders_declarations : ∀ (declared : List (String × Option Span)) {d : Drawing} {E : List Exit}, d.Ready E →
    Renders d E (d.declarations E declared).1 (d.declarations E declared).2 1 0
  | [], d, E, hd => .refl hd
  | (label, span) :: declared, d, E, hd => by
    have hsilent : NodeKind.declaration.isSilent := rfl
    have hfirst := renders_silent hd hsilent label span
    have h := hfirst.trans (renders_declarations declared hfirst.ready)
    rw [one_mul, mul_zero, add_zero] at h
    exact h

/-- The walks from the first node of a drawing to its end are those through it and those that return. -/
lemma walks_finish (h : Renders d [] d' X T R) (hfirst : d.nextId < d'.nextId) (hreturns : d.returns = [])
    (label : String) : (d'.finish label X).walks d.nextId d'.nextId = d.sees (T + R) := by
  obtain ⟨new, hnew, hserves⟩ := h.returned
  rw [hreturns, nil_append] at hnew
  have hd' := h.grown.formed
  have hplace := extends_place .stop label none [] h.ready
  have hto (a : Nat) (ha : a ≤ d'.nextId) := walks_place .stop label none [] h.ready ha
  have hthrough : d'.arrive X d.nextId = d.sees T := by
    rw [arrive_of_lt hfirst, h.through.reach _ le_rfl hfirst, arrive_nextId, one_mul]
  have hback : d'.reach d.nextId (new.map ({ source := · })) = d.sees R := by
    rw [hserves.reach _ le_rfl hfirst, arrive_nextId, one_mul]
  -- nothing leads away from the end, so nothing goes around
  have hend : d'.reach d'.nextId (new.map ({ source := · })) = 0 := hd'.reach_of_le le_rfl hserves.exits
  rw [finish, returns_place, hnew, (linked_connect _ _ _).walks_eq, hto _ hfirst.le, hto _ le_rfl,
    hplace.reach_eq hd' _ hserves.exits, hplace.reach_eq hd' _ hserves.exits, hend, hthrough, hback,
    arrive_nextId, kstar_zero, mul_one, mul_one, map_add]

/-- What is drawn before the end of a body: its start first. -/
lemma exists_ofBody_eq (layout : Layout) (routines : Keyed String) (startLabel stopLabel : String)
    (declared : List (String × Option Span)) (body : List Stmt) :
    ∃ d' X start more, ofBody layout routines startLabel stopLabel declared body = d'.finish stopLabel X ∧
      Renders { layout, routines } [] d' X (throughEach body) (returnedEach body) ∧
      d'.nodes = start :: more ∧ start.id = 1 ∧ start.kind = .start := by
  generalize hd : ({ layout, routines } : Drawing) = d
  have hempty : d.Ready [] := by
    subst hd
    exact ⟨⟨rfl, by simp⟩, by simp⟩
  have hsilent : NodeKind.start.isSilent := rfl
  have hstart := renders_silent hempty hsilent startLabel none
  have hdeclared := renders_declarations (if layout.showDeclarations then declared else []) hstart.ready
  have hbody := renders_drawEach body hdeclared.ready
  have hall := (hstart.trans hdeclared).trans hbody
  simp only [one_mul, mul_zero, add_zero, zero_add] at hall
  -- the start is still there when all is drawn
  obtain ⟨more, hmore⟩ := (hdeclared.grown.trans hbody.grown).nodes
  obtain ⟨start, y, fault, heq, hid, hkind, -⟩ := d.exists_addNode_eq .start startLabel none []
  have hfirst : (d.simple .start startLabel none [] []).1.nodes = [start] := by
    rw [simple, place, (linked_connect _ _ _).nodes, heq, ← hd]
    rfl
  rw [hfirst] at hmore
  refine ⟨_, _, start, more, ?_, hall, hmore.symm, ?_, hkind⟩
  · rw [ofBody_eq, hd]
  · rw [hid.1, ← hd]
    rfl

end Drawing

/-- The paths of a flowchart from its start to its end show the traces of its statements: each of them,
and nothing else. -/
theorem paths_chart_ofBody (layout : Layout) (routines : Keyed String) (startLabel stopLabel : String)
    (declared : List (String × Option Span)) (body : List Stmt) (name : String) (role : Role) :
    (∃ start stop,
      ((Drawing.ofBody layout routines startLabel stopLabel declared body).chart name role).start? = some start ∧
      ((Drawing.ofBody layout routines startLabel stopLabel declared body).chart name role).stop? = some stop ∧
      start.kind = .start ∧ stop.kind = .stop) ∧
    ((Drawing.ofBody layout routines startLabel stopLabel declared body).chart name role).paths =
      Language.map (look layout routines) (traces body) := by
  obtain ⟨d, X, start, more, hbody, h, hnodes, hstart, hstartKind⟩ :=
    Drawing.exists_ofBody_eq layout routines startLabel stopLabel declared body
  obtain ⟨stop, y, fault, hfinish, ⟨hstop, -⟩, hstopKind⟩ := d.exists_ended stopLabel X
  have hstopNodes : (d.finish stopLabel X).nodes = d.nodes ++ [stop] := by
    rw [hfinish]
    rfl
  rw [hbody]
  obtain ⟨f, hf, hchart, hedges⟩ := (d.finish stopLabel X).exists_chart_eq (by simp [hstopNodes]) name role
  have hstart? : ((d.finish stopLabel X).chart name role).start? = some (f start) := by
    rw [Chart.start?, hchart, hstopNodes, hnodes]
    rfl
  have hstop? : ((d.finish stopLabel X).chart name role).stop? = some (f stop) := by
    rw [Chart.stop?, Chart.nodesOfKind, hchart, hstopNodes, List.map_append, List.filter_append]
    simp [(hf stop).2.1, hstopKind]
  refine ⟨⟨_, _, hstart?, hstop?, (hf start).2.1.trans hstartKind, (hf stop).2.1.trans hstopKind⟩, ?_⟩
  have hfirst : 1 < d.nextId := by simp [Drawing.nextId, hnodes]
  have hwalks := Drawing.walks_finish h hfirst rfl stopLabel
  refine Eq.trans ?_ hwalks
  ext seen
  have hwalk : Walk ((d.finish stopLabel X).chart name role).nodes ((d.finish stopLabel X).chart name role).edges
      (f start).id seen (f stop).id ↔ seen ∈ (d.finish stopLabel X).walks 1 d.nextId := by
    rw [hchart, hedges, walk_map (fun n => (hf n).1) (fun n => (hf n).2.2.2), (hf start).1, (hf stop).1, hstart,
      hstop]
    rfl
  constructor
  · rintro ⟨s, t, hs, ht, hseen⟩
    obtain rfl := Option.some.inj (hstart?.symm.trans hs)
    obtain rfl := Option.some.inj (hstop?.symm.trans ht)
    exact hwalk.mp hseen
  · exact fun hseen => ⟨f start, f stop, hstart?, hstop?, hwalk.mpr hseen⟩

end AlgoLang.Flow
