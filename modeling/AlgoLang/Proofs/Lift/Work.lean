/-
# What is done to a routine while it is lifted

Every operation on the open routine is made of a few kinds of work, so whatever the operations keep is said of
these.  They are as coarse as the invariant asks for: when the `END` of a clause has been written and the next
clause has not, the rows do not fit the blocks, so that opening a clause is one piece of work and not two.
-/
import AlgoLang.Proofs.Lift.Trail

namespace AlgoLang.Lift

open Text CSource List

namespace OpenRoutine

/-- What is written of a block, however far it reaches. -/
def form (b : Block) : BlockKind × List String × Bool :=
  (b.kind, b.trailer, b.openCase.isSome)

/-- What is done to a routine while line `now` is read; all that is written is of one line. -/
inductive Work (now : Nat) : OpenRoutine → OpenRoutine → Prop where
  | refl (r : OpenRoutine) : Work now r r
  | trans {r₁ r₂ r₃ : OpenRoutine} (h : Work now r₁ r₂) (h' : Work now r₂ r₃) : Work now r₁ r₃
  | row (r : OpenRoutine) {text : String} {origin : Option Nat} (htext : OneLine text.toList)
      (horigin : IsPresent now origin) : Work now r (r.emit (.plain text) origin)
  | note (r : OpenRoutine) {blocks : List Block} {awaiting pendingDo : Bool}
      (hform : blocks.map form = r.blocks.map form) : Work now r { r with blocks, awaiting, pendingDo }
  | block (r : OpenRoutine) (kind : BlockKind) (extent : Extent) {trailer : List String}
      (htrailer : OneLineRows trailer) :
      Work now r { r.emitBegin with blocks := { kind, extent, trailer } :: r.blocks }
  | switch (r : OpenRoutine) {selector : String} (hselector : OneLine selector.toList) (extent : Extent) :
      Work now r
        { (r.emit (.switch selector) (some now)).deeper with blocks := { kind := .switch, extent } :: r.blocks }
  | clause (r : OpenRoutine) {bl : Block} {bs : List Block} {value : Option String}
      (hblocks : r.blocks = bl :: bs) (hkind : bl.kind = .switch) (hvalue : ∀ v ∈ value, OneLine v.toList) :
      Work now r (r.openCase bl bs (value.elim .default fun v => .case [v]) now)
  | value (r : OpenRoutine) {i : Nat} {row : Row} {values : List String} {v : String}
      (hrow : r.draft.body[i]? = some row) (hcase : row.content = .case values) (hv : OneLine v.toList) :
      Work now r
        { r with draft.body := r.draft.body.set i { row with content := .case (values ++ [v]) } }
  | close (r : OpenRoutine) {bl : Block} {bs : List Block} {origin : Option Nat} (hblocks : r.blocks = bl :: bs)
      (horigin : IsPresent now origin) : Work now r (closeBlock { r with blocks := bs } bl origin)

namespace Work

variable {now : Nat} {r : OpenRoutine}

lemma flags (r : OpenRoutine) {awaiting pendingDo : Bool} : Work now r { r with awaiting, pendingDo } :=
  .note r rfl

lemma rows {origin : Option Nat} (horigin : IsPresent now origin) (lines : List String) : ∀ r : OpenRoutine,
    (OneLineRows lines) → Work now r (lines.foldl (fun r t => r.emit (.plain t) origin) r) := by
  induction lines with
  | nil => exact fun r _ => .refl r
  | cons t ts ih =>
    intro r h
    have hall := forall_mem_cons.mp h
    exact .trans (.row r hall.1 horigin) (ih _ hall.2)

lemma innermost {bl bl' : Block} {bs : List Block} (hblocks : r.blocks = bl :: bs)
    (hform : form bl' = form bl) : Work now r { r with blocks := bl' :: bs } :=
  .note r (by rw [hblocks, map_cons, map_cons, hform])

lemma fillInnermost (r : OpenRoutine) : Work now r r.fillInnermost := by
  unfold OpenRoutine.fillInnermost
  split
  · next bl bs hblocks =>
    split
    · exact innermost hblocks (by simp [form, OpenRoutine.fillCase])
    · exact .refl r
  · exact .refl r

lemma lines (r : OpenRoutine) {lines : List String} (h : OneLineRows lines) :
    Work now r (r.emitLines lines now) := by
  unfold emitLines emitStatement
  split
  · exact .refl r
  · rw [foldl_map]
    exact (fillInnermost r).trans (rows (isPresent_some now) lines _ h)

lemma breakSwitch {bs : List Block} (h : breakSwitch? r.blocks = some bs) : Work now r { r with blocks := bs } := by
  have hsame {bs bs' : List Block} (h : breakSwitch? bs = some bs') : bs'.map form = bs.map form := by
    induction bs generalizing bs' with
    | nil => cases h
    | cons bl bs ih =>
      unfold breakSwitch? at h
      split at h
      · cases h
        simp [form, fillCase]
      · cases h
      · cases h
      · cases h
      · obtain ⟨rest, hrest, rfl⟩ := Option.map_eq_some_iff.mp h
        rw [map_cons, map_cons, ih hrest]
  exact .note r (hsame h)

lemma settle (r : OpenRoutine) (extent : Extent) : Work now r (r.settle extent) := by
  unfold OpenRoutine.settle
  split
  · next bl bs hblocks =>
    split
    · exact innermost hblocks rfl
    · exact .refl r
  · exact .refl r

/-! ## Closing -/

lemma closeSingles (elseNext : Bool) (bs : List Block) : ∀ {r : OpenRoutine}, r.blocks = bs →
    Work now r (closeSingles elseNext r bs) := by
  induction bs with
  | nil => exact fun {r} h => by rw [OpenRoutine.closeSingles, ← h]; exact .refl r
  | cons bl bs ih =>
    intro r h
    unfold OpenRoutine.closeSingles
    split
    · have hclose : Work now r (closeBlock { r with blocks := bs } bl none) := .close r h (isPresent_none now)
      split
      · exact hclose.trans (.flags _)
      · split
        · exact hclose
        · exact hclose.trans (ih (blocks_closeBlock _ bl none))
    · rw [← h]
      exact .refl r

lemma afterStatement (r : OpenRoutine) (elseNext : Bool) : Work now r (r.afterStatement elseNext) :=
  closeSingles elseNext r.blocks rfl

lemma afterBlock (r : OpenRoutine) (bl : Block) (elseNext : Bool) : Work now r (r.afterBlock bl elseNext) := by
  unfold OpenRoutine.afterBlock
  split
  · exact .flags r
  · split
    · exact .refl r
    · exact afterStatement r elseNext

lemma closeUnbraced (bs : List Block) : ∀ {r : OpenRoutine}, r.blocks = bs → Work now r (closeUnbraced r bs) := by
  induction bs with
  | nil => exact fun {r} h => by rw [OpenRoutine.closeUnbraced, ← h]; exact .refl r
  | cons bl bs ih =>
    intro r h
    unfold OpenRoutine.closeUnbraced
    split
    · rw [← h]
      exact .refl r
    · exact .trans (.close r h (isPresent_none now)) (ih (blocks_closeBlock { r with blocks := bs } bl none))

lemma closeAll (now : Nat) (bs : List Block) : ∀ {r : OpenRoutine}, r.blocks = bs →
    Work now r (closeAll r bs) ∧ (closeAll r bs).blocks = [] := by
  induction bs with
  | nil => exact fun {r} h => ⟨by rw [OpenRoutine.closeAll, ← h]; exact .refl r, rfl⟩
  | cons bl bs ih =>
    intro r h
    have hrest := ih (blocks_closeBlock { r with blocks := bs } bl none)
    exact ⟨.trans (.close r h (isPresent_none now)) hrest.1, hrest.2⟩

/-- A closing brace ends the innermost block in braces, or the routine if there is none. -/
lemma closeBrace (now : Nat) (r : OpenRoutine) (elseNext : Bool) : match r.closeBrace now elseNext with
    | .inside r' => Work now r r'
    | .outside d => ∃ r', Work now r r' ∧ r'.blocks = [] ∧ d = r'.finish (some now) := by
  have hwork : Work now r _ := closeUnbraced r.blocks rfl
  unfold OpenRoutine.closeBrace
  generalize OpenRoutine.closeUnbraced r r.blocks = r' at hwork
  dsimp only
  cases hblocks : r'.blocks with
  | nil => exact ⟨r', hwork, hblocks, rfl⟩
  | cons bl bs => exact hwork.trans (.trans (.close r' hblocks (isPresent_some now)) (afterBlock _ bl elseNext))

/-! ## Opening -/

lemma openBlock (r : OpenRoutine) (kind : BlockKind) {head trailer : List String} (hhead : OneLineRows head)
    (htrailer : OneLineRows trailer) (rest : List Char) (elseNext : Bool) :
    Work now r (r.openBlock kind (head.map .plain) trailer rest now elseNext).1 := by
  have hhead : Work now r _ := lines r hhead
  have hpush (extent : Extent) := hhead.trans (.block _ kind extent htrailer)
  unfold OpenRoutine.openBlock
  split
  · exact hpush .braced
  · exact hpush .awaiting
  · exact (hpush .single).trans (.trans (.close _ rfl (isPresent_some now)) (afterBlock _ _ elseNext))
  · exact hpush .single

lemma label {r' : OpenRoutine} {value : Option String} (hvalue : ∀ v ∈ value, OneLine v.toList)
    (h : r.label? value now = some r') : Work now r r' := by
  unfold label? at h
  split at h
  · cases h
  · next bl bs hblocks =>
    split at h
    · cases h
    · next hkind =>
      have hclause : Work now r _ := .clause r hblocks (by simpa using hkind) hvalue
      split at h
      · next v i row values hempty =>
        obtain ⟨hrow, hcase⟩ := row_of_emptyCase? hempty
        cases h
        exact .value r hrow hcase (hvalue v rfl)
      · cases h
        exact hclause
      · cases h
        exact hclause

lemma openBrace (r : OpenRoutine) : Work now r (r.openBrace now) := by
  unfold OpenRoutine.openBrace
  split
  · split
    · exact .flags r
    · exact settle r .braced
  · exact openBlock r .plain .nil .nil ['\x7b'] false

/-! ## Trails -/

lemma levels_of_form {bs bs' : List Block} (h : bs'.map form = bs.map form) : levels bs' = levels bs := by
  have hcount (bs : List Block) : bs.countP inCase = (bs.map form).countP fun f => f.1 == .switch && f.2.2 := by
    rw [countP_map]
    rfl
  have hlength := congrArg length h
  rw [length_map, length_map] at hlength
  rw [levels, levels, hcount, hcount, h, hlength]

lemma tidy {r' : OpenRoutine} (w : Work now r r') (h : r.Tidy now (levels r.blocks)) :
    r'.Tidy now (levels r'.blocks) := by
  induction w with
  | refl r => exact h
  | trans _ _ ih ih' => exact ih' (ih h)
  | row r htext horigin => exact h.emit (c := .plain _) htext horigin (by simp [Row.openAfter?, Row.opens, Row.ends])
  | note r hform =>
    rw [← levels_of_form hform] at h
    refine h.withBlocks fun bl hbl => ?_
    obtain ⟨bl', hbl', heq⟩ := mem_map.mp (hform ▸ mem_map_of_mem hbl)
    exact (Prod.mk.inj (Prod.mk.inj heq).2).1 ▸ h.trailers bl' hbl'
  | block r kind extent htrailer => exact h.emitBegin.push htrailer (by simp [inCase])
  | switch r hselector extent =>
    exact (h.emitOpening (c := .switch _) hselector (isPresent_some now) rfl).push .nil (by simp [inCase])
  | @clause r bl bs value hblocks hkind hvalue =>
    cases value with
    | none => exact h.openCase hblocks hkind trivial (by simp [Row.openAfter?, Row.opens, Row.ends])
    | some v =>
      exact h.openCase hblocks hkind (.one (hvalue v rfl)) (by simp [Row.openAfter?, Row.opens, Row.ends])
  | value r hrow hcase hv => exact h.addValue hrow hcase hv
  | close r hblocks horigin =>
    rw [blocks_closeBlock]
    exact h.pop hblocks horigin

end Work

end OpenRoutine

end AlgoLang.Lift
