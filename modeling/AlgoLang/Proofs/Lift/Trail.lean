/-
# Rows follow the text they come from

What a routine has been made of so far are lines of C in the order in which they were met.  An operation adds
rows that come from the present fragment or from none, so the trail of a routine stays in order; once it is
complete it is never touched again.  The same operations keep the rows nested, as deep as the open blocks account for.
-/
import AlgoLang.Proofs.Lift.Nesting
import AlgoLang.Proofs.Lift.StatementLine

namespace AlgoLang.Lift

open Text CSource List

variable {origin : Option Nat} {b : Block} {c : Content} {d : Draft} {i : Nat} {row : Row}

/-! ## Routines -/

/-- All parts of a row are of one line. -/
def Content.OneLine : Content → Prop
  | .switch selector => Text.OneLine selector.toList
  | .case values => OneLineRows values
  | .plain text => Text.OneLine text.toList
  | _ => True

lemma Content.OneLine.text (h : c.OneLine) : Text.OneLine c.text.toList := by
  cases c with
  | begin_ => show Text.OneLine "BEGIN".toList; decide
  | end_ => show Text.OneLine "END".toList; decide
  | default => show Text.OneLine "DEFAULT :".toList; decide
  | plain text => exact h
  | switch selector =>
    have hselector : Text.OneLine selector.toList := h
    simp [Content.text, hselector]
  | case values =>
    have hvalues := oneLine_commaList h
    simp [Content.text, -String.toList_intercalate, hvalues]

/-- The lines of C that a routine comes from, in the order in which they are written. -/
def Draft.trail (d : Draft) : List Nat :=
  d.origin :: d.body.filterMap Row.origin ++ d.stop.toList

/-- What is written comes from line `now` or from none. -/
def IsPresent (now : Nat) (origin : Option Nat) : Prop :=
  ∀ n ∈ origin, n = now

lemma isPresent_none (now : Nat) : IsPresent now none :=
  fun _ h => nomatch h

lemma isPresent_some (now : Nat) : IsPresent now (some now) :=
  fun _ h => (Option.mem_some.mp h).symm

/-- All that is written of a routine is of one line, and its trail is in order and ends at line `now`
or before. -/
structure Draft.Tidy (d : Draft) (now : Nat) : Prop where
  name : OneLine d.name.toList
  result : ∀ s ∈ d.result, OneLine s.toList
  params : OneLineRows d.params
  constants : ∀ c ∈ d.constants, OneLine c.1.toList ∧ OneLine c.2.toList
  vars : TidyVariables d.vars
  rows : ∀ r ∈ d.body, r.content.OneLine
  sorted : d.trail.Pairwise (· ≤ ·)
  past : ∀ n ∈ d.trail, n ≤ now

lemma Draft.Tidy.later {now now' : Nat} (h : d.Tidy now) (hle : now ≤ now') : d.Tidy now' :=
  { h with past := fun n hn => Nat.le_trans (h.past n hn) hle }

/-- Something of the present line, or of none, comes last. -/
lemma Draft.Tidy.extend {d' : Draft} {now : Nat} (h : d.Tidy now)
    (horigin : IsPresent now origin) (htrail : d'.trail = d.trail ++ origin.toList) :
    d'.trail.Pairwise (· ≤ ·) ∧ ∀ n ∈ d'.trail, n ≤ now := by
  have hnow : ∀ n ∈ origin.toList, n = now := fun n hn => horigin n (Option.mem_toList.mp hn)
  rw [htrail]
  refine ⟨?_, ?_⟩
  · rw [pairwise_append]
    refine ⟨h.sorted, ?_, fun a ha b hb => hnow b hb ▸ h.past a ha⟩
    cases origin with
    | none => exact .nil
    | some n => exact pairwise_singleton _ n
  · refine forall_mem_append.mpr ⟨h.past, fun n hn => ?_⟩
    exact Nat.le_of_eq (hnow n hn)

namespace OpenRoutine

/-- The routine is tidy and has no end yet, and what is kept for later is of one line.  Its rows are nested, `n`
opening ones are unmatched, and that is the depth. -/
structure Tidy (r : OpenRoutine) (now n : Nat) : Prop where
  draft : r.draft.Tidy now
  unended : r.draft.stop = none
  trailers : ∀ b ∈ r.blocks, OneLineRows b.trailer
  unmatched : unmatched? r.draft.body = some n
  depth : r.depth = n

section

variable {r : OpenRoutine} {now n : Nat}

section

variable (h : r.Tidy now n)
include h

lemma Tidy.later {now' : Nat} (hle : now ≤ now') : r.Tidy now' n :=
  { h with draft := h.draft.later hle }

lemma Tidy.withBlocks {blocks : List Block} {awaiting pendingDo : Bool}
    (htrailers : ∀ b ∈ blocks, OneLineRows b.trailer) :
    ({ r with blocks, awaiting, pendingDo } : OpenRoutine).Tidy now n :=
  ⟨h.draft, h.unended, htrailers, h.unmatched, h.depth⟩

/-- A row at depth `d`, behind which `m` opening ones are unmatched. -/
lemma Tidy.append {d m : Nat} (hc : c.OneLine) (horigin : IsPresent now origin)
    (hopen : (Row.mk c d origin).openAfter? n = some m) :
    ({ emit { r with depth := d } c origin with depth := m } : OpenRoutine).Tidy now m := by
  have htrail : (emit { r with depth := d } c origin).draft.trail = r.draft.trail ++ origin.toList := by
    simp only [OpenRoutine.emit, Draft.trail, h.unended, Option.toList_none, append_nil, filterMap_append, cons_append]
    cases origin <;> rfl
  obtain ⟨hsorted, hpast⟩ := h.draft.extend horigin htrail
  refine ⟨{ h.draft with rows := ?_, sorted := hsorted, past := hpast }, h.unended, h.trailers, ?_, rfl⟩
  · exact forall_mem_append.mpr ⟨h.draft.rows, forall_mem_singleton.mpr hc⟩
  · show unmatched? (r.draft.body ++ [⟨c, d, origin⟩]) = some m
    rw [unmatched?_append_singleton, h.unmatched]
    exact hopen

lemma Tidy.emit (hc : c.OneLine) (horigin : IsPresent now origin)
    (hflat : (Row.mk c n origin).openAfter? n = some n) : (r.emit c origin).Tidy now n := by
  obtain rfl := h.depth
  exact h.append hc horigin hflat

lemma Tidy.emitOpening (hc : c.OneLine) (horigin : IsPresent now origin) (hopens : (Row.mk c n origin).opens) :
    (r.emit c origin).deeper.Tidy now (n + 1) := by
  obtain rfl := h.depth
  exact h.append (m := r.depth + 1) hc horigin (by simp [Row.openAfter?, hopens])

lemma Tidy.emitBegin : r.emitBegin.Tidy now (n + 1) :=
  h.emitOpening trivial (isPresent_none now) rfl

end

lemma Tidy.emitEnd (h : r.Tidy now (n + 1)) (horigin : IsPresent now origin) : (r.emitEnd origin).Tidy now n := by
  obtain rfl : r.depth - 1 = n := by rw [h.depth, Nat.add_sub_cancel]
  exact h.append trivial horigin (by simp [Row.openAfter?, Row.opens, Row.ends])

lemma Tidy.emit_plains (horigin : IsPresent now origin) (texts : List String) :
    ∀ {r : OpenRoutine}, r.Tidy now n → OneLineRows texts →
      (texts.foldl (fun r t => r.emit (.plain t) origin) r).Tidy now n := by
  induction texts with
  | nil => exact fun h _ => h
  | cons t ts ih =>
    intro r h htexts
    obtain ⟨ht, hts⟩ := forall_mem_cons.mp htexts
    exact ih (h.emit (c := .plain t) ht horigin (by simp [Row.openAfter?, Row.opens, Row.ends])) hts

/-! ## Closing -/

lemma Tidy.closeBlock (h : r.Tidy now (n + 1 + if inCase b then 1 else 0)) (hb : OneLineRows b.trailer)
    (horigin : IsPresent now origin) : (r.closeBlock b origin).Tidy now n := by
  unfold OpenRoutine.closeBlock
  split
  · next hk =>
    cases hc : b.openCase.isSome with
    | false =>
      have hin : inCase b = false := by simp [inCase, hc]
      rw [hin] at h
      exact .emitEnd h horigin
    | true =>
      have hin : inCase b := by simp [inCase, hc, hk]
      rw [hin] at h
      exact (Tidy.emitEnd h (isPresent_none now)).emitEnd horigin
  · next hk =>
    have hin : inCase b = false := by simp [inCase, hk]
    rw [hin] at h
    exact (Tidy.emit_plains (isPresent_none now) b.trailer h hb).emitEnd horigin

lemma Tidy.pop {bs : List Block} (h : r.Tidy now (levels r.blocks)) (hblocks : r.blocks = b :: bs)
    (horigin : IsPresent now origin) :
    (OpenRoutine.closeBlock { r with blocks := bs } b origin).Tidy now (levels bs) := by
  rw [hblocks, levels_cons] at h
  obtain ⟨hb, hbs⟩ := forall_mem_cons.mp (hblocks ▸ h.trailers)
  exact (h.withBlocks hbs).closeBlock hb horigin

lemma Tidy.finish (h : r.Tidy now n) (horigin : IsPresent now origin) : (r.finish origin).Tidy now := by
  have htrail : (r.finish origin).trail = r.draft.trail ++ origin.toList := by
    simp [OpenRoutine.finish, Draft.trail, h.unended]
  obtain ⟨hsorted, hpast⟩ := h.draft.extend horigin htrail
  exact { h.draft with sorted := hsorted, past := hpast }

/-! ## Opening -/

lemma Tidy.push (h : r.Tidy now (levels r.blocks + 1)) (hb : OneLineRows b.trailer) (hin : inCase b = false) :
    ({ r with blocks := b :: r.blocks } : OpenRoutine).Tidy now (levels (b :: r.blocks)) := by
  rw [levels_cons, hin]
  exact h.withBlocks (forall_mem_cons.mpr ⟨hb, h.trailers⟩)

lemma Tidy.openCase {bs : List Block} {head : Content} (h : r.Tidy now (levels r.blocks)) (hblocks : r.blocks = b :: bs)
    (hkind : b.kind = .switch) (hhead : head.OneLine)
    (hflat : ∀ n, (Row.mk head n (some now)).openAfter? n = some n) :
    (r.openCase b bs head now).Tidy now (levels (r.openCase b bs head now).blocks) := by
  rw [hblocks, levels_cons] at h
  have hbefore : (if b.openCase.isSome then r.emitEnd none else r).Tidy now (levels bs + 1) := by
    cases hc : b.openCase.isSome with
    | false =>
      have hin : inCase b = false := by simp [inCase, hc]
      rw [hin] at h
      exact h
    | true =>
      have hin : inCase b := by simp [inCase, hc, hkind]
      rw [hin] at h
      exact .emitEnd h (isPresent_none now)
  have hbegin := (hbefore.emit hhead (isPresent_some now) (hflat _)).emitBegin
  have hlevels (clause : OpenCase) : levels ({ b with openCase := some clause } :: bs) = levels bs + 1 + 1 := by
    simp [levels_cons, inCase, hkind]
  show OpenRoutine.Tidy _ now (levels (_ :: bs))
  rw [hlevels]
  exact hbegin.withBlocks (forall_mem_cons.mpr (forall_mem_cons.mp (hblocks ▸ h.trailers)))

lemma filterMap_origin_set {rows : List Row} (hrow : rows[i]? = some row) (content : Content) :
    (rows.set i { row with content }).filterMap Row.origin = rows.filterMap Row.origin := by
  have hmap : (rows.set i { row with content }).map Row.origin = rows.map Row.origin := by
    refine ext_getElem? fun j => ?_
    grind
  calc (rows.set i { row with content }).filterMap Row.origin
      = ((rows.set i { row with content }).map Row.origin).filterMap id := by rw [filterMap_map]; rfl
    _ = (rows.map Row.origin).filterMap id := by rw [hmap]
    _ = rows.filterMap Row.origin := by rw [filterMap_map]; rfl

lemma Tidy.addValue {values : List String} {v : String} (h : r.Tidy now n)
    (hrow : r.draft.body[i]? = some row) (hcase : row.content = .case values) (hv : OneLine v.toList) :
    ({ r with draft.body := r.draft.body.set i { row with content := .case (values ++ [v]) } } : OpenRoutine).Tidy
      now n := by
  have hold : OneLineRows values := by
    have hmem := h.draft.rows row (mem_of_getElem? hrow)
    rwa [hcase] at hmem
  have hnew : (Content.case (values ++ [v])).OneLine :=
    forall_mem_append.mpr ⟨hold, forall_mem_singleton.mpr hv⟩
  refine { h with draft := { h.draft with rows := ?_, sorted := ?_, past := ?_ }, unmatched := ?_ }
  · intro row' hrow'
    rcases mem_or_eq_of_mem_set hrow' with hrow' | rfl
    · exact h.draft.rows row' hrow'
    · exact hnew
  · simpa only [Draft.trail, filterMap_origin_set hrow] using h.draft.sorted
  · simpa only [Draft.trail, filterMap_origin_set hrow] using h.draft.past
  · rw [unmatched?_set hrow fun n => by simp [Row.openAfter?, Row.opens, Row.ends, hcase]]
    exact h.unmatched

end

end OpenRoutine

end AlgoLang.Lift
