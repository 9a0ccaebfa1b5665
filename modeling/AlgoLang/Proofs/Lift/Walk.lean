/-
# What a fragment can do to a routine

Every step is made of a few moves: it writes rows, declares something, opens a block or completes a statement.
So whatever the lifting of a body keeps is said of the moves and of the end of a routine.

Steps are taken as long as something of the fragment is left, which a supply of fuel bounds.  The length of what is
left is no measure, since an argument that loses its ampersand may gain a blank; but every step takes letters off the
text or settles a `DO` (`Scene.effort`).  So the fuel is always enough, and no part of what the lifter does.
-/
import AlgoLang.Lift.Program
import AlgoLang.Proofs.Lift.Work

namespace AlgoLang.Lift

open Text CSource List

variable {rest : List Char} {keyword : String}

/-! ## Sketches and scenes -/

/-- The routines that are complete, `main` among them. -/
def Sketch.drafts (sk : Sketch) : List Draft :=
  sk.routines ++ sk.main.toList

lemma Sketch.mem_drafts_store {sk : Sketch} {d e : Draft} {isMain : Bool}
    (h : e ∈ (sk.store isMain d).drafts) : e ∈ sk.drafts ∨ e = d := by
  cases isMain <;> simp [store, drafts] at h ⊢ <;> grind

def TypeEntry.OneLine : TypeEntry → Prop
  | .synonym name type => Text.OneLine name.toList ∧ Text.OneLine type.toList
  | .enumeration name values => Text.OneLine name.toList ∧ OneLineRows values
  | .record name fields => Text.OneLine name.toList ∧ ∀ v ∈ fields, v.OneLine

/-- All that is complete is of one line and comes from lines up to `now`, and the rows of routines are nested with
nothing unmatched. -/
structure Sketch.Tidy (sk : Sketch) (now : Nat) : Prop where
  constants : ∀ c ∈ sk.constants, OneLine c.1.toList ∧ OneLine c.2.toList
  types : ∀ t ∈ sk.types, t.OneLine
  typeNames : OneLineValues sk.typeNames
  vars : TidyVariables sk.vars
  initials : ∀ i ∈ sk.initials, OneLine i.1.toList ∧ i.2 ≤ now
  drafts : ∀ d ∈ sk.drafts, d.Tidy now ∧ unmatched? d.body = some 0

structure Scene.Tidy (s : Scene) (now : Nat) : Prop where
  routine : s.routine.Tidy now (OpenRoutine.levels s.routine.blocks)
  sketch : s.sketch.Tidy now

namespace Sketch.Tidy

variable {sk : Sketch} {now : Nat}

lemma later {now' : Nat} (h : sk.Tidy now) (hle : now ≤ now') : sk.Tidy now' :=
  { h with
    initials := fun i hi => ⟨(h.initials i hi).1, Nat.le_trans (h.initials i hi).2 hle⟩
    drafts := fun d hd => (h.drafts d hd).imp_left (·.later hle) }

lemma warn (h : sk.Tidy now) (warnings : List String) : (sk.warn warnings).Tidy now :=
  { h with }

lemma store {d : Draft} (h : sk.Tidy now) (isMain : Bool) (hd : d.Tidy now) (hbody : unmatched? d.body = some 0) :
    (sk.store isMain d).Tidy now := by
  have hdrafts : ∀ e ∈ (sk.store isMain d).drafts, e.Tidy now ∧ unmatched? e.body = some 0 := by
    intro e he
    rcases mem_drafts_store he with hmem | rfl
    · exact h.drafts e hmem
    · exact ⟨hd, hbody⟩
  cases isMain with
  | true => exact { h with drafts := hdrafts }
  | false => exact { h with drafts := hdrafts }

lemma declare {d : Declaration} (h : sk.Tidy now) (hd : d.OneLine) :
    (sk.declare d).1.Tidy now ∧ OneLineRows (sk.declare d).2 := by
  cases d with
  | constant name value =>
    refine ⟨{ h with constants := ?_ }, .nil⟩
    exact forall_mem_append.mpr ⟨h.constants, forall_mem_singleton.mpr hd⟩
  | vars d => exact ⟨{ h with vars := h.vars.add hd.vars }, hd.initials⟩

end Sketch.Tidy

namespace Scene.Tidy

variable {s : Scene} {now : Nat}

lemma later {now' : Nat} (h : s.Tidy now) (hle : now ≤ now') : s.Tidy now' :=
  ⟨h.routine.later hle, h.sketch.later hle⟩

lemma declare {d : Declaration} (h : s.Tidy now) (hd : d.OneLine) :
    (s.declare d).1.Tidy now ∧ OneLineRows (s.declare d).2 := by
  unfold Scene.declare
  split
  · obtain ⟨hsketch, hinitials⟩ := h.sketch.declare hd
    exact ⟨⟨h.routine, hsketch⟩, hinitials⟩
  · have hr := h.routine
    cases d with
    | constant name value =>
      refine ⟨⟨{ hr with draft := { hr.draft with constants := ?_ } }, h.sketch⟩, .nil⟩
      exact forall_mem_append.mpr ⟨hr.draft.constants, forall_mem_singleton.mpr hd⟩
    | vars d =>
      have hvars := hr.draft.vars.add hd.vars
      exact ⟨⟨{ hr with draft := { hr.draft with vars := hvars } }, h.sketch.warn _⟩, hd.initials⟩

end Scene.Tidy

lemma attempt_ensures {α : Type} {P : α → Prop} {sk : Sketch} {x : Except NumeralFault α}
    (h : Ensures x P) : Ensures (sk.attempt x) P := by
  intro a ha
  cases x with
  | error fault => cases ha
  | ok b => exact h a (congrArg Except.ok (Except.ok.inj ha))

/-! ## Moves -/

/-- What a step can do to a scene while line `now` is read; all that is written is of one line. -/
inductive Move (now : Nat) : Scene → Scene → Prop where
  | refl (s : Scene) : Move now s s
  | trans {s₁ s₂ s₃ : Scene} (h : Move now s₁ s₂) (h' : Move now s₂ s₃) : Move now s₁ s₃
  | warn (s : Scene) (warning : String) : Move now s (s.warn warning)
  | declare (s : Scene) {d : Declaration} (hd : d.OneLine) : Move now s (s.declare d).1
  | work (s : Scene) {r : OpenRoutine} (h : OpenRoutine.Work now s.routine r) : Move now s { s with routine := r }

section

variable {now : Nat} {s s' : Scene} {text : List Char}

lemma Move.tidy (m : Move now s s') (h : s.Tidy now) : s'.Tidy now := by
  induction m with
  | refl s => exact h
  | trans _ _ ih ih' => exact ih' (ih h)
  | warn s warning => exact ⟨h.routine, h.sketch.warn [warning]⟩
  | declare s hd => exact (h.declare hd).1
  | work s w => exact ⟨w.tidy h.routine, h.sketch⟩

lemma Move.comment (s : Scene) (reason : String) {text : String} (htext : OneLine text.toList) :
    Move now s (s.comment reason text now) := by
  refine (warn s _).trans (.work _ (.lines _ (.one ?_)))
  simp [htext]

lemma Move.keepAsComment (s : Scene) (htext : OneLine text) : Move now s (s.keepAsComment text now) :=
  .comment s _ (by rw [String.toList_ofList]; exact htext)

/-! ## Statements -/

/-- What is known behind a step that may have given rows. -/
def Writes (now : Nat) (s : Scene) (r : Scene × Option (List String)) : Prop :=
  Move now s r.1 ∧ (∀ rows ∈ r.2, OneLineRows rows)

lemma Writes.none (m : Move now s s') : Writes now s (s', none) :=
  ⟨m, fun _ hrows => nomatch hrows⟩

lemma Writes.some {rows : List String} (m : Move now s s') (hrows : OneLineRows rows) :
    Writes now s (s', some rows) :=
  ⟨m, fun _ hmem => Option.mem_some.mp hmem ▸ hrows⟩

lemma breakLines_writes (s : Scene) : Writes now s (breakLines s) := by
  unfold breakLines
  split
  · next blocks hbreak => exact .some (.work s (.breakSwitch hbreak)) .nil
  · exact .none (.refl s)

lemma statement_writes (h : s.Tidy now) (htext : OneLine text) :
    Ensures (statement s text) (Writes now s) := by
  unfold statement
  split
  · exact .ok (.some (.refl s) .nil)
  · split
    · exact .ok ⟨.refl s, fun rows hrows => oneLine_returnLines (htext.drop 6).trim hrows⟩
    · split
      · exact .ok (breakLines_writes s)
      · split
        · exact .ok (.none (.refl s))
        · split
          · next t ht =>
            have htyped := oneLine_typed? h.sketch.typeNames htext ht
            have hd : Ensures (declaration t.type t.rest t.isConst) fun d => d.OneLine := fun d hd =>
              oneLine_declaration t.isConst htyped.1 htyped.2 d hd
            refine (attempt_ensures hd).bind fun d hd => ?_
            exact .ok (.some (.declare s hd) (h.declare hd).2)
          · exact .ok ⟨.refl s, fun rows hrows => oneLine_actionLines htext hrows⟩

lemma countedFor_moves {init condition : List Char} (h : s.Tidy now) (hinit : OneLine init)
    (hcondition : OneLine condition) (update : List Char) : Ensures (countedFor s init condition update) fun r =>
      Move now s r.1 ∧ (∀ head ∈ r.2, OneLine head.toList) := by
  have hhead {init : List Char} (hinit : OneLine init) :
      Ensures (countedHead init condition update) fun r => ∀ head ∈ r, OneLine head.toList :=
    fun r hr => oneLine_countedHead hinit hcondition r hr
  unfold countedFor
  split
  · exact (attempt_ensures (hhead hinit)).bind fun head hhead => .ok ⟨.refl s, hhead⟩
  · next t ht =>
    have htyped := oneLine_typed? h.sketch.typeNames hinit ht
    have hd : Ensures (declaration t.type (trim (t.rest.takeWhile (· != '='))) false) fun d => d.OneLine :=
      fun d hd => oneLine_declaration false htyped.1 (htyped.2.takeWhile _).trim d hd
    refine (attempt_ensures hd).bind fun d hd => ?_
    refine (attempt_ensures (hhead htyped.2)).bind fun head hhead => ?_
    exact .ok ⟨.declare s hd, hhead⟩

/-! ## Control statements -/

def letters (text : List Char) : Nat :=
  text.countP Char.isAlpha

/-- What is left to be read of a text: nothing, or fewer letters. -/
structure Left (text left : List Char) : Prop where
  oneLine : OneLine left
  fewer : left = [] ∨ letters left < letters text

lemma Left.nil : Left text [] :=
  ⟨.nil, .inl rfl⟩

lemma Left.of_follows (h : Follows keyword text rest) (htext : OneLine text) (hkeyword : 0 < letters keyword.toList) :
    Left text rest := by
  refine ⟨h.oneLine htext, .inr ?_⟩
  obtain ⟨behind, rfl, hrest⟩ := h
  have hle : letters rest ≤ letters behind := hrest.countP_le
  have hsum : letters (keyword.toList ++ behind) = letters keyword.toList + letters behind := countP_append
  omega

/-- What is known behind a step that may have left something to be read. -/
inductive Leads (now : Nat) (s : Scene) (text : List Char) : Handled → Prop where
  | refused {s₁ : Scene} (m : Move now s s₁) : Leads now s text (s₁, none)
  | inside {s₁ : Scene} {left : List Char} (m : Move now s s₁) (hleft : Left text left) :
      Leads now s text (s₁, some left)

lemma Leads.block {trailer : List String} (m : Move now s s') (kind : BlockKind) (head : List String)
    (hhead : OneLineRows head) (htrailer : OneLineRows trailer) (hrest : Left text rest) (elseNext : Bool) :
    Leads now s text
      ({ s' with routine := (s'.routine.openBlock kind (head.map .plain) trailer rest now elseNext).1 },
        some (s'.routine.openBlock kind (head.map .plain) trailer rest now elseNext).2) := by
  refine .inside (m.trans (.work s' (.openBlock _ kind hhead htrailer rest elseNext))) ?_
  unfold OpenRoutine.openBlock
  split
  · exact .nil
  · exact .nil
  · exact .nil
  · exact hrest

lemma oneLine_between {before condition behind : String} (h : OneLine condition.toList)
    (hbefore : OneLine before.toList := by decide) (hbehind : OneLine behind.toList := by decide) :
    OneLine (before ++ condition ++ behind).toList := by
  simp [h, hbefore, hbehind]

lemma forLoop_leads {inside : List Char} (h : s.Tidy now) (hinside : OneLine inside)
    (hrest : Left text rest) (elseNext : Bool) : Ensures (forLoop s inside rest now elseNext) (Leads now s text) := by
  unfold forLoop
  split
  · next init condition update hparts =>
    have hpart : ∀ p ∈ [init, condition, update], OneLine p := by
      intro p hp
      rw [← hparts] at hp
      obtain ⟨q, hq, rfl⟩ := mem_map.mp hp
      exact (hinside.splitTopLevel hq).trim
    have hinit := hpart init (by simp)
    have hcondition := hpart condition (by simp)
    refine (countedFor_moves h hinit hcondition update).bind ?_
    rintro ⟨s', head⟩ ⟨m', hhead⟩
    dsimp only
    split
    · next head =>
      exact .ok (.block m' .for [head] (.one (hhead head rfl)) .nil hrest elseNext)
    · refine (statement_writes (m'.tidy h) hinit).bind ?_
      rintro ⟨s'', before⟩ ⟨m'', hbefore⟩
      dsimp only
      split
      · exact .ok (.refused (m'.trans m''))
      · next before =>
        have m := m'.trans m''
        refine (statement_writes (m.tidy h) (hpart update (by simp))).bind ?_
        rintro ⟨s₃, trailer⟩ ⟨m₃, htrailer⟩
        dsimp only
        split
        · exact .ok (.refused (m.trans m₃))
        · next trailer =>
          split
          · exact .ok (.refused (m.trans m₃))
          · have htest : OneLine (if condition.isEmpty then "TRUE" else liftExpr condition).toList := by
              split
              · decide
              · exact oneLine_liftExpr hcondition
            have mbefore := (m.trans m₃).trans (.work s₃ (.lines _ (hbefore before rfl)))
            exact .ok (.block mbefore .for [_] (.one (oneLine_between htest))
              (htrailer trailer rfl) hrest elseNext)
  · exact .ok (.refused (.refl s))

lemma labelled_leads {value : Option String} (hvalue : ∀ v ∈ value, OneLine v.toList)
    (hrest : Left text rest) : Leads now s text (labelled s value rest now) := by
  unfold labelled
  split
  · next routine hlabel => exact .inside (.work s (.label hvalue hlabel)) hrest
  · refine .inside (.comment s _ (Content.OneLine.text ?_)) hrest
    cases value with
    | none => trivial
    | some v => exact .one (hvalue v rfl)

lemma conditional_leads {head : String → String} (htext : OneLine text) (hkeyword : 0 < letters keyword.toList)
    (kind : BlockKind) (hhead : ∀ c, OneLine c.toList → OneLine (head c).toList) (elseNext : Bool) :
    Leads now s text (conditional s kind head (headerOf? keyword text) now elseNext) := by
  unfold conditional
  split
  · next condition rest hheader =>
    obtain ⟨hcondition, hrest⟩ := headerOf?_follows hheader
    split
    · have hhead := hhead _ (oneLine_liftExpr (hcondition.oneLine htext))
      exact .block (.refl s) kind [_] (.one hhead) .nil (.of_follows hrest htext hkeyword) elseNext
    · exact .refused (.refl s)
  · exact .refused (.refl s)

lemma otherwise_leads (hrest : Left text rest) (elseNext : Bool) :
    Leads now s text (otherwise s rest now elseNext) := by
  have m : Move now s (s.update (·.emitLines ["ELSE"] now)) :=
    .work s (.lines _ (.one (s := "ELSE") (by decide)))
  unfold otherwise
  dsimp only
  split
  · exact .inside m hrest
  · exact .block m .otherwise [] .nil .nil hrest elseNext

lemma switchOn_leads (htext : OneLine text) : Leads now s text (switchOn s (headerOf? keyword text) now) := by
  unfold switchOn
  split
  · next selector rest hheader =>
    split
    · refine .inside (.work s ((OpenRoutine.Work.fillInnermost _).trans (.switch _ ?_ _))) .nil
      exact oneLine_liftExpr ((headerOf?_follows hheader).1.oneLine htext)
    · exact .refused (.refl s)
  · exact .refused (.refl s)

lemma control_leads (h : s.Tidy now) (htext : OneLine text) (elseNext : Bool) :
    Ensures (control s text now elseNext) (Leads now s text) := by
  have hword {word : String} (hword : startsWithWord word text) (hletters : 0 < letters word.toList) :
      Left text (trim (text.drop word.length)) :=
    .of_follows (.of_isPrefixOf (Bool.and_eq_true_iff.mp hword).1 (trim_sublist _)) htext hletters
  unfold control
  split
  · next value rest _ hlabel =>
    obtain ⟨hvalue, hrest⟩ := caseLabel?_follows hlabel
    refine .ok (labelled_leads (fun v hv => ?_) (.of_follows hrest htext (by decide)))
    exact Option.mem_some.mp hv ▸ oneLine_liftExpr (hvalue.oneLine htext)
  · next rest _ hlabel =>
    have hrest := Left.of_follows (defaultLabel?_follows hlabel) htext (by decide)
    exact .ok (labelled_leads (fun _ hv => nomatch hv) hrest)
  · split
    · exact .ok (conditional_leads htext (by decide) .branch (fun _ hc => oneLine_between hc) elseNext)
    · split
      · next helse => exact .ok (otherwise_leads (hword helse (by decide)) elseNext)
      · split
        · exact .ok (conditional_leads htext (by decide) .while (fun _ hc => oneLine_between hc) elseNext)
        · split
          · split
            · next inside rest hfor =>
              obtain ⟨hinside, hrest⟩ := headerOf?_follows hfor
              exact forLoop_leads h (hinside.oneLine htext) (.of_follows hrest htext (by decide)) elseNext
            · exact .ok (.refused (.refl s))
          · split
            · next hdo =>
              exact .ok (.block (.refl s) .do ["DO"] (.one (by decide)) .nil (hword hdo (by decide)) elseNext)
            · split
              · exact .ok (switchOn_leads htext)
              · exact .ok (.refused (.refl s))

lemma simple_moves (h : s.Tidy now) (htext : OneLine text) (elseNext : Bool) :
    Ensures (simple s text now elseNext) (Move now s) := by
  unfold simple
  refine (statement_writes h (htext.dropEnd _).trim).bind ?_
  rintro ⟨s', lines⟩ ⟨m, hlines⟩
  cases lines with
  | some lines =>
    have hlines : Move now s' _ := .work s' (.lines _ (hlines lines rfl))
    exact .ok (m.trans (hlines.trans (.work _ (.afterStatement _ elseNext))))
  | none => exact .ok (m.trans (.trans (.keepAsComment s' htext) (.work _ (.afterStatement _ elseNext))))

/-! ## Fragments -/

lemma pendingDo_settle (r : OpenRoutine) (extent : Extent) : (r.settle extent).pendingDo = r.pendingDo := by
  unfold OpenRoutine.settle
  split
  · split <;> rfl
  · rfl

/-- The text as it is read in a scene, where pointers are used like variables. -/
def Scene.read (s : Scene) (text : List Char) : List Char :=
  stripDereferences s.routine.pointers (stripAddressOf s.sketch.byPointer text)

lemma letters_read_le (s : Scene) (text : List Char) : letters (s.read text) ≤ letters text :=
  (countP_stripDereferences_le (by decide) _ _).trans (countP_stripAddressOf_le (by decide) (by decide) _ text)

/-- What a text still asks for: every step takes letters off it or settles a `DO`. -/
def Scene.effort (s : Scene) (text : List Char) : Nat :=
  2 * letters text + s.routine.pendingDo.toNat

/-- Where a fragment leads: it stays inside the routine, with less than `n` still asked for if anything is left, or
completes it. -/
inductive Stride (now : Nat) (s : Scene) (n : Nat) : Progress → Prop where
  | inside {s₁ : Scene} {left : List Char} (m : Move now s s₁) (hleft : OneLine left)
      (hless : left = [] ∨ s₁.effort left < n) : Stride now s n (.inside s₁ left)
  | done {s₁ : Scene} (m : Move now s s₁) (hblocks : s₁.routine.blocks = []) (isMain : Bool) :
      Stride now s n (.outside (s₁.sketch.store isMain (s₁.routine.finish (some now))))

lemma Stride.behind {n n' : Nat} {p : Progress} (m : Move now s s') (hle : n ≤ n') (h : Stride now s' n p) :
    Stride now s n' p := by
  cases h with
  | inside m' hleft hless => exact .inside (m.trans m') hleft (hless.imp_right (Nat.lt_of_lt_of_le · hle))
  | done m' hblocks isMain => exact .done (m.trans m') hblocks isMain

/-- A `DO` that has found its condition, or has none, waits no longer. -/
lemma closeDo_stride (htext : OneLine text) (elseNext : Bool) :
    let p := closeDo s text now elseNext
    Stride now s (2 * letters text + 1) (.inside p.1 p.2) := by
  unfold closeDo
  dsimp only
  split
  · next c _ hcondition =>
    have hc : c <+ text.drop 5 := by
      split at hcondition
      · exact (header?_sublist hcondition).1
      · cases hcondition
    refine .inside (.work s (.trans (.flags _) (.trans (.row _ ?_ (isPresent_some now))
      (.afterStatement _ elseNext)))) .nil (.inl rfl)
    exact oneLine_between (oneLine_liftExpr ((htext.drop 5).of_subset hc.subset))
  · have hrow : OneLine "WHILE (FALSE)".toList := by decide
    exact .inside (.trans (.work s (.flags _)) (.trans (.warn _ _) (.work _ (.row _ hrow (isPresent_none now)))))
      htext (.inr (Nat.lt_succ_self _))

lemma controlOrSimple_stride (h : s.Tidy now) (htext : OneLine text) (elseNext : Bool) :
    Ensures (controlOrSimple s text now elseNext) (Stride now s (2 * letters text)) := by
  unfold controlOrSimple
  refine (control_leads h htext elseNext).bind ?_
  rintro ⟨s', handled⟩ hleads
  cases hleads with
  | refused m =>
    exact (simple_moves (m.tidy h) htext elseNext).bind fun s'' m'' => .ok (.inside (m.trans m'') .nil (.inl rfl))
  | inside m hleft =>
    refine .ok (.inside m hleft.oneLine (hleft.fewer.imp_right fun hfewer => ?_))
    have hwaits := s'.routine.pendingDo.toNat_le
    unfold Scene.effort
    omega

lemma step_stride (h : s.Tidy now) (htext : OneLine text) (elseNext : Bool) :
    Ensures (step s text now elseNext) (Stride now s (s.effort text)) := by
  have hread : OneLine (s.read text) := (htext.stripAddressOf _).stripDereferences _
  have hfewer := letters_read_le s text
  have hbrace := OpenRoutine.Work.closeBrace now s.routine elseNext
  show Ensures (if s.read text == ['\x7b'] then _ else if s.read text == ['\x7d'] then _ else _) _
  split
  · exact .ok (.inside (.work s (.openBrace _)) .nil (.inl rfl))
  · split
    · split
      · next routine hinside =>
        rw [hinside] at hbrace
        exact .ok (.inside (.work s hbrace) .nil (.inl rfl))
      · next d houtside =>
        rw [houtside] at hbrace
        obtain ⟨r₁, hwork, hblocks, rfl⟩ := hbrace
        exact .ok (.done (.work s hwork) hblocks _)
    · split
      · exact .ok (.inside (.keepAsComment s hread) .nil (.inl rfl))
      · have m : Move now s (s.update (·.settle .single)) := .work s (.settle _ .single)
        dsimp only
        split
        · next hwaits =>
          refine .ok (.behind m ?_ (closeDo_stride hread elseNext))
          rw [Scene.effort, (pendingDo_settle s.routine .single).symm.trans hwaits, Bool.toNat_true]
          omega
        · intro p hp
          refine .behind m ?_ (controlOrSimple_stride (m.tidy h) hread elseNext p hp)
          unfold Scene.effort
          omega

lemma fragmentWith_stride (n : Nat) (elseNext : Bool) : ∀ (fuel : Nat) {s : Scene} {text : List Char}, (s.Tidy now) →
    (OneLine text) → Ensures (fragmentWith fuel s text now elseNext) (Stride now s n) := by
  intro fuel
  induction fuel with
  | zero => exact fun {s text} _ _ => .ok (.inside (.refl s) .nil (.inl rfl))
  | succ fuel ih =>
    intro s text h htext
    unfold fragmentWith
    refine (step_stride h htext elseNext).bind ?_
    intro progress hstride
    cases hstride with
    | done m hblocks isMain => exact .ok (.done m hblocks isMain)
    | @inside s₁ left m hleft _ =>
      cases left with
      | nil => exact .ok (.inside m hleft (.inl rfl))
      | cons c left => exact fun p hp => .behind m le_rfl (ih (m.tidy h) hleft p hp)

/-! ## Fuel -/

/-- Fuel that covers what the text asks for is never used up. -/
lemma fragmentWith_congr (elseNext : Bool) : ∀ (fuel fuel' : Nat) {s : Scene} {text : List Char}, s.Tidy now →
    OneLine text → s.effort text < fuel → s.effort text < fuel' →
      fragmentWith fuel s text now elseNext = fragmentWith fuel' s text now elseNext := by
  intro fuel
  induction fuel with
  | zero => exact fun _ _ _ _ _ hfuel => absurd hfuel (Nat.not_lt_zero _)
  | succ fuel ih =>
    intro fuel' s text h htext hfuel hfuel'
    obtain ⟨fuel', rfl⟩ := Nat.exists_eq_add_one_of_ne_zero (Nat.ne_zero_of_lt hfuel')
    rw [fragmentWith, fragmentWith]
    cases hstep : step s text now elseNext with
    | error failure => rfl
    | ok p =>
      cases step_stride h htext elseNext p hstep with
      | done => rfl
      | @inside s₁ left m hleft hless =>
        cases left with
        | nil => rfl
        | cons c left =>
          have hless := hless.resolve_left (cons_ne_nil c left)
          exact ih fuel' (m.tidy h) hleft (by omega) (by omega)

/-- The fuel of a fragment has no part in what comes of it. -/
theorem fragmentWith_eq_fragment {fuel : Nat} (h : s.Tidy now) (htext : OneLine text) (elseNext : Bool)
    (hfuel : 2 * text.length + 2 ≤ fuel) : fragmentWith fuel s text now elseNext = fragment s text now elseNext := by
  have hcovers : s.effort text < 2 * text.length + 2 := by
    have hletters : letters text ≤ text.length := countP_le_length
    have hwaits := s.routine.pendingDo.toNat_le
    unfold Scene.effort
    omega
  exact fragmentWith_congr elseNext _ _ h htext (Nat.lt_of_lt_of_le hcovers hfuel) hcovers

end

/-! ## Levels -/

def startLevel (code : String) (files : CSource.Files) (style : Style) : Level :=
  .outer { warnings := (CSource.expand files code).warnings
           indentFault := match Numeral.checkLength style.indentWidth with
             | .error fault => some fault
             | .ok _ => none } 0

/-- One fragment on either level; `next` are the fragments behind it. -/
def Level.step (level : Level) (f : CSource.Fragment) (next : List CSource.Fragment) : Except Failure Level :=
  match level with
  | .outer sk (n + 1) => .ok (.outer sk n)
  | .outer sk 0 => sk.fragment f next
  | .routine s => do
    match ← fragment s f.text f.origin (elseNext next) with
    | .inside s _ => return .routine s
    | .outside sk => return .outer sk 0

/-- The level where the fragments of the `past` have led, with `next` still to come. -/
def Level.after (level : Level) (next : List CSource.Fragment) : List CSource.Fragment → Except Failure Level
  | [] => .ok level
  | f :: past => do (← level.step f (past ++ next)).after next past

/-- The walk over the fragments goes through these levels. -/
lemma fragments_append (past next : List Fragment) : ∀ (level : Level),
    fragments level (past ++ next) = level.after next past >>= (fragments · next) := by
  induction past with
  | nil => exact fun level => rfl
  | cons f past ih =>
    intro level
    rw [cons_append, Level.after]
    cases level with
    | outer sk taken =>
      cases taken with
      | zero => simp only [fragments, Level.step, bind_assoc, ih]
      | succ n => exact ih (.outer sk n)
    | routine s =>
      simp only [fragments, Level.step, bind_assoc]
      refine bind_congr fun p => ?_
      cases p with
      | inside s₁ left => exact ih (.routine s₁)
      | outside sk => exact ih (.outer sk 0)

end AlgoLang.Lift
