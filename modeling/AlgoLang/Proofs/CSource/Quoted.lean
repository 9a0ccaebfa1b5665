/-
# What stands inside the literals of a text

A scan of C text is a walk through three modes, so a text may be scanned in parts.  The literals of a text are
determined by the characters that are marked as quoted: whatever keeps those characters and their marks keeps
the literals.
-/
import AlgoLang.CSource.Bracket
import Mathlib

namespace AlgoLang.CSource

open Mode Segment Text List

/-! ## Scanning in parts -/

/-- The mode in which the scan of a text ends. -/
def Mode.over (m : Mode) (cs : List Char) : Mode :=
  cs.foldl next m

/-- The characters of a text that stand in literals, quotes included. -/
def quoted (m : Mode) (cs : List Char) : List (Char × Spot) :=
  (markedFrom m cs).filter (·.2 != .code)

def Plain (cs : List Char) : Prop :=
  ∀ c ∈ cs, isQuote c = false

instance (cs : List Char) : Decidable (Plain cs) :=
  List.decidableBAll (fun c => isQuote c = false) cs

/-- A mode in which a scan of code can stand. -/
def Mode.IsReal : Mode → Prop
  | code => True
  | literal q | escaped q => isQuote q = true

section

variable {m : Mode} {c : Char} {cs ds : List Char}

@[simp] lemma Mode.over_nil : m.over [] = m :=
  rfl

@[simp] lemma Mode.over_cons : m.over (c :: cs) = (m.next c).over cs :=
  rfl

@[simp] lemma Mode.over_append : m.over (cs ++ ds) = (m.over cs).over ds :=
  foldl_append

lemma markedFrom_append : markedFrom m (cs ++ ds) = markedFrom m cs ++ markedFrom (m.over cs) ds := by
  induction cs generalizing m with
  | nil => rfl
  | cons c cs ih => rw [cons_append, markedFrom, markedFrom, ih, over_cons, cons_append]

@[simp] lemma quoted_nil : quoted m [] = [] :=
  rfl

@[simp] lemma quoted_append : quoted m (cs ++ ds) = quoted m cs ++ quoted (m.over cs) ds := by
  rw [quoted, markedFrom_append, filter_append]
  rfl

lemma quoted_cons : quoted m (c :: cs) = quoted m [c] ++ quoted (m.next c) cs := by
  rw [← singleton_append, quoted_append]
  rfl

lemma Mode.next_code (h : isQuote c = false) : code.next c = .code := by
  simp [next, h]

lemma markedFrom_plain (h : Plain cs) : markedFrom .code cs = cs.map (·, .code) := by
  induction cs with
  | nil => rfl
  | cons c cs ih =>
    obtain ⟨hc, hcs⟩ := forall_mem_cons.mp h
    rw [markedFrom, next_code hc, ih hcs, map_cons]
    simp [spot, hc]

@[simp] lemma Mode.over_plain (h : Plain cs) : code.over cs = .code := by
  induction cs with
  | nil => rfl
  | cons c cs ih =>
    obtain ⟨hc, hcs⟩ := forall_mem_cons.mp h
    rw [over_cons, next_code hc, ih hcs]

@[simp] lemma quoted_plain (h : Plain cs) : quoted .code cs = [] := by
  simp [quoted, markedFrom_plain h]

lemma quoted_cons_plain (h : isQuote c = false) : quoted .code (c :: cs) = quoted .code cs := by
  simp [quoted, markedFrom, spot, Mode.next, h]

lemma Mode.eq_code_of_spot (h : m.spot c = .code) : m = .code ∧ isQuote c = false := by
  cases m with
  | code =>
    cases hc : isQuote c with
    | false => exact ⟨rfl, rfl⟩
    | true => simp [spot, hc] at h
  | literal q => cases h
  | escaped q => cases h

lemma Mode.IsReal.next (h : m.IsReal) (c : Char) : (m.next c).IsReal := by
  cases m with
  | code =>
    rw [next]
    split
    · assumption
    · trivial
  | literal q =>
    rw [next]
    split
    · exact h
    · split
      · trivial
      · exact h
  | escaped q => exact h

lemma Mode.IsReal.over (h : m.IsReal) (cs : List Char) : (m.over cs).IsReal := by
  induction cs generalizing m with
  | nil => exact h
  | cons c cs ih => exact ih (h.next c)

end

/-! ## Blanks -/

section

variable {m : Mode} {cs : List Char}

lemma isQuote_of_isBlank {c : Char} (h : isBlank c) : isQuote c = false := by
  cases hc : isQuote c with
  | false => rfl
  | true =>
    rcases Bool.or_eq_true_iff.mp hc with hc | hc
    all_goals
      rw [beq_iff_eq.mp hc] at h
      exact absurd h (by decide)

lemma plain_of_allBlank (h : allBlank cs) : Plain cs :=
  fun c hc => isQuote_of_isBlank (all_eq_true.mp h c hc)

lemma Mode.eq_code_of_over_blank (hm : m.IsReal) (h : allBlank cs) (hover : m.over cs = .code) : m = .code := by
  induction cs generalizing m with
  | nil => exact hover
  | cons c cs ih =>
    rw [allBlank, all_cons, Bool.and_eq_true] at h
    have hnext : m.next c = .code := ih (hm.next c) h.2 hover
    cases m with
    | code => rfl
    | literal q =>
      rw [next] at hnext
      split at hnext
      · cases hnext
      · split at hnext
        · next hc =>
          have hquote := isQuote_of_isBlank h.1
          rw [beq_iff_eq.mp hc] at hquote
          exact absurd hm (by simp [IsReal, hquote])
        · cases hnext
    | escaped q => cases hnext

lemma quoted_trimStart (cs : List Char) :
    quoted .code (trimStart cs) = quoted .code cs ∧ Mode.code.over (trimStart cs) = Mode.code.over cs := by
  obtain ⟨gap, hgap, heq⟩ := exists_eq_append_trimStart cs
  have hplain := plain_of_allBlank hgap
  have hquoted : quoted .code (gap ++ trimStart cs) = quoted .code (trimStart cs) := by
    rw [quoted_append, quoted_plain hplain, over_plain hplain, nil_append]
  have hover : Mode.code.over (gap ++ trimStart cs) = Mode.code.over (trimStart cs) := by
    rw [over_append, over_plain hplain]
  rw [← heq] at hquoted hover
  exact ⟨hquoted.symm, hover.symm⟩

lemma quoted_trimEnd (h : Mode.code.over cs = .code) :
    quoted .code (trimEnd cs) = quoted .code cs ∧ Mode.code.over (trimEnd cs) = .code := by
  obtain ⟨gap, hgap, heq⟩ := exists_eq_trimEnd_append cs
  have hover : Mode.code.over (trimEnd cs) = .code := by
    rw [heq, over_append] at h
    exact eq_code_of_over_blank (.over (m := .code) trivial _) hgap h
  have hquoted : quoted .code (trimEnd cs ++ gap) = quoted .code (trimEnd cs) := by
    rw [quoted_append, hover, quoted_plain (plain_of_allBlank hgap), append_nil]
  rw [← heq] at hquoted
  exact ⟨hquoted.symm, hover⟩

lemma quoted_trim (h : Mode.code.over cs = .code) :
    quoted .code (trim cs) = quoted .code cs ∧ Mode.code.over (trim cs) = .code := by
  obtain ⟨hquoted, hover⟩ := quoted_trimStart cs
  rw [← hquoted]
  exact quoted_trimEnd (hover.trans h)

lemma marked_trim_infix (cs : List Char) : marked (trim cs) <:+: marked cs := by
  obtain ⟨front, hfront, hstart⟩ := exists_eq_append_trimStart cs
  obtain ⟨back, -, hend⟩ := exists_eq_trimEnd_append (trimStart cs)
  have hover := over_plain (plain_of_allBlank hfront)
  refine ⟨markedFrom .code front, markedFrom (Mode.code.over (trim cs)) back, ?_⟩
  rw [marked, marked, append_assoc, ← markedFrom_append, trim, ← hend]
  conv => rhs; rw [hstart, markedFrom_append, hover]

lemma getLast?_quoted (h : Mode.code.over cs ≠ .code) : (quoted .code cs).getLast?.map Prod.fst = cs.getLast? := by
  rcases eq_nil_or_concat cs with rfl | ⟨front, c, hcs⟩
  · exact absurd rfl h
  · rw [concat_eq_append] at hcs
    subst hcs
    have hspot : ((Mode.code.over front).spot c != .code) := by
      rw [bne_iff_ne]
      intro hspot
      obtain ⟨hfront, hc⟩ := eq_code_of_spot hspot
      rw [over_append, hfront] at h
      exact h (next_code hc)
    have hlast : quoted (Mode.code.over front) [c] = [(c, (Mode.code.over front).spot c)] := by
      simp [quoted, markedFrom, hspot]
    rw [quoted_append, hlast, getLast?_concat, getLast?_concat]
    rfl

end

/-! ## Brackets and separators -/

section

variable {m : Mode} {cs : List Char}

/-- Where a character is marked as code, the scan stands in code before it and behind it. -/
lemma of_markedFrom_eq_append {c : Char} {before behind : List (Char × Spot)}
    (h : markedFrom m cs = before ++ (c, .code) :: behind) :
    cs = before.map Prod.fst ++ c :: behind.map Prod.fst ∧ m.over (before.map Prod.fst) = .code ∧
      isQuote c = false ∧ markedFrom .code (behind.map Prod.fst) = behind := by
  induction cs generalizing m before with
  | nil => simp [markedFrom] at h
  | cons x cs ih =>
    cases before with
    | nil =>
      obtain ⟨hx, rfl⟩ := cons.inj h
      obtain ⟨rfl, hspot⟩ := Prod.mk.inj hx
      obtain ⟨rfl, hquote⟩ := eq_code_of_spot hspot
      rw [map_fst_markedFrom, next_code hquote]
      exact ⟨rfl, rfl, hquote, rfl⟩
    | cons p before =>
      obtain ⟨rfl, htail⟩ := cons.inj h
      obtain ⟨heq, hrest⟩ := ih htail
      exact ⟨congrArg (x :: ·) heq, hrest⟩

lemma splitTopLevel_pair {sep : Char} {x y : List Char} (h : splitTopLevel sep cs = [x, y]) :
    cs = x ++ sep :: y ∧ Mode.code.over x = .code ∧ isQuote sep = false := by
  obtain ⟨first, others, heq, -, hcases⟩ := exists_splitMarked sep 0 (marked cs)
  obtain ⟨rfl, rfl⟩ := cons.inj (heq.symm.trans h)
  rcases hcases with ⟨hothers, -⟩ | ⟨rest, hms, hrest⟩
  · cases hothers
  · obtain ⟨last, others, heq, -, hcases⟩ := exists_splitMarked sep 0 rest
    obtain ⟨rfl, rfl⟩ := cons.inj (hrest.trans heq)
    rcases hcases with ⟨-, rfl⟩ | ⟨more, -, hmore⟩
    · obtain ⟨hcs, hover, hquote, -⟩ := of_markedFrom_eq_append hms
      exact ⟨hcs, hover, hquote⟩
    · obtain ⟨_, _, heq, -⟩ := exists_splitMarked sep 0 more
      cases hmore.trans heq

end

/-! ## Segments -/

/-- A literal among segments. -/
def Segment.literal? : Segment → Option (List Char)
  | code _ => none
  | literal cs => some cs

/-- A way to cut a text: code without quotes, never twice in a row, and literals.  Only the last literal may
be left open. -/
inductive Cut : List Char → List Segment → Prop
  | nil : Cut [] []
  | code {cs rest : List Char} {ss : List Segment} (hplain : Plain cs) (hrest : Cut rest ss)
      (hnext : ∀ ds, ss.head? ≠ some (.code ds)) : Cut (cs ++ rest) (.code cs :: ss)
  | literal {cs rest : List Char} {ss : List Segment} (hmarks : ∀ p ∈ marked cs, p.2 ≠ .code) (hne : cs ≠ [])
      (hover : Mode.code.over cs = .code) (hrest : Cut rest ss) : Cut (cs ++ rest) (.literal cs :: ss)
  | unclosed {cs : List Char} (hmarks : ∀ p ∈ marked cs, p.2 ≠ .code) (hne : cs ≠ [])
      (hover : Mode.code.over cs ≠ .code) : Cut cs [.literal cs]

lemma Segment.prepend_code_fst (c : Char) (acc : List Char × List Segment) : (prepend (c, .code) acc).1 = [] := by
  obtain ⟨inside, ss⟩ := acc
  cases ss with
  | nil => rfl
  | cons s ss => cases s <;> rfl

lemma Cut.prepend {c : Char} {cs inside : List Char} {ss : List Segment} (hc : isQuote c = false) (h : Cut cs ss) :
    Cut (c :: cs) (prepend (c, .code) (inside, ss)).2 := by
  have hplain : Plain [c] := forall_mem_singleton.mpr hc
  cases h with
  | nil => exact .code hplain .nil (by simp)
  | code hcs hrest hnext => exact .code (forall_mem_cons.mpr ⟨hc, hcs⟩) hrest hnext
  | literal hmarks hne hover hrest => exact .code hplain (.literal hmarks hne hover hrest) (by simp)
  | unclosed hmarks hne hover => exact .code hplain (.unclosed hmarks hne hover) (by simp)

/-- The segments of a text are a way to cut it. -/
lemma cut_segments (cs : List Char) : Cut cs (segments cs) := by
  -- `inside` is what belongs to a literal that has been opened before
  have hall : ∀ (cs : List Char) (m : Mode), ∃ inside rest ss, (markedFrom m cs).foldr prepend ([], []) =
      (inside, ss) ∧ cs = inside ++ rest ∧ (m = .code → inside = []) ∧ (∀ p ∈ markedFrom m inside, p.2 ≠ .code) ∧
      (m.over inside = .code ∧ Cut rest ss ∨ m.over inside ≠ .code ∧ rest = [] ∧ ss = []) := by
    intro cs
    induction cs with
    | nil =>
      intro m
      refine ⟨[], [], [], rfl, rfl, fun _ => rfl, forall_mem_nil _, ?_⟩
      by_cases hm : m = .code
      · exact .inl ⟨hm, .nil⟩
      · exact .inr ⟨hm, rfl, rfl⟩
    | cons c cs ih =>
      intro m
      obtain ⟨inside, rest, ss, hfold, hcs, hcode, hmarks, hend⟩ := ih (m.next c)
      rw [markedFrom, foldr_cons, hfold]
      cases hspot : m.spot c with
      | code =>
        obtain ⟨rfl, hc⟩ := eq_code_of_spot hspot
        obtain rfl := hcode (next_code hc)
        rw [next_code hc] at hend
        rcases hend with ⟨-, hcut⟩ | ⟨hne, -, -⟩
        · refine ⟨[], c :: rest, _, Prod.ext (prepend_code_fst _ _) rfl, congrArg (c :: ·) hcs, fun _ => rfl,
            forall_mem_nil _, .inl ⟨rfl, hcut.prepend hc⟩⟩
        · exact absurd rfl hne
      | opening =>
        have hm : m = .code := by
          cases m with
          | code => rfl
          | literal q => cases hspot
          | escaped q => cases hspot
        subst hm
        have hliteral : ∀ p ∈ marked (c :: inside), p.2 ≠ .code := by
          rw [marked, markedFrom, hspot]
          exact forall_mem_cons.mpr ⟨by simp, hmarks⟩
        refine ⟨[], c :: cs, _, rfl, rfl, fun _ => rfl, forall_mem_nil _, .inl ⟨rfl, ?_⟩⟩
        rw [hcs]
        rcases hend with ⟨hover, hcut⟩ | ⟨hover, rfl, rfl⟩
        · exact .literal hliteral (cons_ne_nil _ _) hover hcut
        · rw [append_nil]
          exact .unclosed hliteral (cons_ne_nil _ _) hover
      | inside =>
        refine ⟨c :: inside, rest, ss, rfl, congrArg (c :: ·) hcs, ?_, ?_, hend⟩
        · rintro rfl
          rw [spot] at hspot
          split at hspot <;> cases hspot
        · rw [markedFrom, hspot]
          exact forall_mem_cons.mpr ⟨by simp, hmarks⟩
  obtain ⟨inside, rest, ss, hfold, hcs, hcode, -, hend⟩ := hall cs .code
  obtain rfl := hcode rfl
  rcases hend with ⟨-, hcut⟩ | ⟨hne, -, -⟩
  · rw [segments, marked, hfold, hcs]
    exact hcut
  · exact absurd rfl hne

section

variable {cs : List Char} {ss : List Segment}

lemma Cut.flatMap_text (h : Cut cs ss) : ss.flatMap text = cs := by
  induction h with
  | nil => rfl
  | code _ _ _ ih => rw [flatMap_cons, ih, text]
  | literal _ _ _ _ ih => rw [flatMap_cons, ih, text]
  | unclosed => exact append_nil _

lemma flatMap_text_segments (cs : List Char) : (segments cs).flatMap text = cs :=
  (cut_segments cs).flatMap_text

lemma Cut.infix_marked (h : Cut cs ss) {ds : List Char} (hds : .code ds ∈ ss) : ds.map (·, .code) <:+: marked cs := by
  induction h with
  | nil => cases hds
  | @code ds' rest ss hplain hrest hnext ih =>
    rw [marked, markedFrom_append, markedFrom_plain hplain, over_plain hplain]
    rcases mem_cons.mp hds with heq | hds
    · cases heq
      exact (prefix_append _ _).isInfix
    · exact (ih hds).trans (suffix_append _ _).isInfix
  | @literal ds' rest ss hmarks hne hover hrest ih =>
    rw [marked, markedFrom_append, hover]
    rcases mem_cons.mp hds with heq | hds
    · cases heq
    · exact (ih hds).trans (suffix_append _ _).isInfix
  | unclosed hmarks hne hover => simp at hds

end

section

variable {w : List Char} {a b : List (Char × Spot)}

lemma infix_of_code_append (hb : ∀ p ∈ b.head?, p.2 ≠ .code) (h : w.map (·, .code) <:+: a ++ b) :
    w.map (·, .code) <:+: a ∨ w.map (·, .code) <:+: b := by
  rcases infix_append_iff.mp h with h | h | ⟨x, y, heq, hx, hy⟩
  · exact .inl h
  · exact .inr h
  · cases y with
    | nil =>
      rw [heq, append_nil]
      exact .inl hx.isInfix
    | cons p y =>
      have hp : p ∈ w.map (·, .code) := by simp [heq]
      obtain ⟨c, -, rfl⟩ := mem_map.mp hp
      obtain ⟨rest, rfl⟩ := hy
      exact absurd rfl (hb _ rfl)

lemma infix_of_literal_append (hne : w ≠ []) (ha : ∀ p ∈ a, p.2 ≠ .code) (h : w.map (·, .code) <:+: a ++ b) :
    w.map (·, .code) <:+: b := by
  have hout {p : Char × Spot} (hp : p ∈ w.map (·, .code)) : p ∉ a := by
    obtain ⟨c, -, rfl⟩ := mem_map.mp hp
    exact fun hin => ha _ hin rfl
  rcases infix_append_iff.mp h with h | h | ⟨x, y, heq, hx, hy⟩
  · obtain ⟨c, w, rfl⟩ := exists_cons_of_ne_nil hne
    exact absurd (h.subset mem_cons_self) (hout mem_cons_self)
  · exact h
  · cases x with
    | nil =>
      rw [heq]
      exact hy.isInfix
    | cons p x => exact absurd (hx.subset mem_cons_self) (hout (by simp [heq]))

end

section

variable {cs : List Char} {ss : List Segment} {f : Segment → List Char} (hliteral : ∀ ds, f (.literal ds) = ds)
include hliteral

lemma Cut.head?_marked (h : Cut cs ss) (hnext : ∀ ds, ss.head? ≠ some (.code ds)) :
    ∀ p ∈ (marked (ss.flatMap f)).head?, p.2 ≠ .code := by
  intro p hp
  have hfront {ds rest : List Char} (hmarks : ∀ p ∈ marked ds, p.2 ≠ .code) (hne : ds ≠ [])
      (hp : p ∈ (marked (ds ++ rest)).head?) : p.2 ≠ .code := by
    obtain ⟨d, ds, rfl⟩ := exists_cons_of_ne_nil hne
    cases hp
    exact hmarks _ mem_cons_self
  cases h with
  | nil => cases hp
  | code => exact absurd rfl (hnext _)
  | literal hmarks hne hover hrest =>
    rw [flatMap_cons, hliteral] at hp
    exact hfront hmarks hne hp
  | unclosed hmarks hne hover =>
    rw [flatMap_cons, hliteral] at hp
    exact hfront hmarks hne hp

variable (hcode : ∀ ds, Plain ds → Plain (f (.code ds)))
include hcode

/-- Segments that stay as they are, if they are literals, and without quotes, if they are code, keep all that
is quoted. -/
lemma Cut.quoted_flatMap (h : Cut cs ss) :
    quoted .code (ss.flatMap f) = quoted .code cs ∧ Mode.code.over (ss.flatMap f) = Mode.code.over cs := by
  induction h with
  | nil => exact ⟨rfl, rfl⟩
  | @code ds rest ss hplain hrest hnext ih =>
    have hds := hcode ds hplain
    simp only [flatMap_cons, quoted_append, over_append, quoted_plain hds, over_plain hds,
      quoted_plain hplain, over_plain hplain, nil_append]
    exact ih
  | @literal ds rest ss hmarks hne hover hrest ih =>
    simp only [flatMap_cons, hliteral, quoted_append, over_append, hover]
    exact ⟨congrArg _ ih.1, ih.2⟩
  | unclosed hmarks hne hover => simp [hliteral]

/-- Code that stands in a text of such segments stands in one of them. -/
lemma Cut.exists_infix_cut (h : Cut cs ss) {w : List Char} (hne : w ≠ [])
    (hw : w.map (·, .code) <:+: marked (ss.flatMap f)) : ∃ ds, .code ds ∈ ss ∧ w <:+: f (.code ds) := by
  induction h with
  | nil => exact absurd (infix_nil.mp hw) (by simpa using hne)
  | @code ds rest ss hplain hrest hnext ih =>
    have hds := hcode ds hplain
    rw [flatMap_cons, marked, markedFrom_append, markedFrom_plain hds, over_plain hds] at hw
    rcases infix_of_code_append (hrest.head?_marked hliteral hnext) hw with hw | hw
    · have hmap := hw.map Prod.fst
      simp only [map_map, Function.comp_def, map_id'] at hmap
      exact ⟨ds, mem_cons_self, hmap⟩
    · obtain ⟨es, hes, hin⟩ := ih hw
      exact ⟨es, mem_cons_of_mem _ hes, hin⟩
  | @literal ds rest ss hmarks hne' hover hrest ih =>
    rw [flatMap_cons, hliteral, marked, markedFrom_append, hover] at hw
    obtain ⟨es, hes, hin⟩ := ih (infix_of_literal_append hne hmarks hw)
    exact ⟨es, mem_cons_of_mem _ hes, hin⟩
  | @unclosed ds hmarks hne' hover =>
    rw [flatMap_singleton, hliteral, ← append_nil (marked ds)] at hw
    exact absurd (infix_nil.mp (infix_of_literal_append hne hmarks hw)) (by simpa using hne)

end

/-! ## Literals -/

lemma Segment.literals_prepend_code (c : Char) (acc : List Char × List Segment) :
    (prepend (c, .code) acc).2.filterMap literal? = acc.2.filterMap literal? := by
  obtain ⟨inside, ss⟩ := acc
  cases ss with
  | nil => rfl
  | cons s ss => cases s <;> rfl

/-- Marks that are gathered into segments, with the tail of a literal that was opened before them. -/
def gather (ms : List (Char × Spot)) : List Char × List Segment :=
  ms.foldr Segment.prepend ([], [])

/-- Only the code between literals depends on what is not quoted. -/
lemma gather_quoted (m : Mode) (cs : List Char) : (m = .code → (gather (markedFrom m cs)).1 = []) ∧
      (gather (quoted m cs)).1 = (gather (markedFrom m cs)).1 ∧ (gather (quoted m cs)).2.filterMap literal? =
        (gather (markedFrom m cs)).2.filterMap literal? := by
  induction cs generalizing m with
  | nil => exact ⟨fun _ => rfl, rfl, rfl⟩
  | cons c cs ih =>
    obtain ⟨hcode, hinside, hliterals⟩ := ih (m.next c)
    have hstep : gather (markedFrom m (c :: cs)) = prepend (c, m.spot c) (gather (markedFrom (m.next c) cs)) := rfl
    by_cases hspot : m.spot c = .code
    · obtain ⟨rfl, hc⟩ := eq_code_of_spot hspot
      have hfst : (gather (markedFrom .code (c :: cs))).1 = [] := by
        rw [hstep, hspot]
        exact prepend_code_fst _ _
      have hquoted : quoted .code (c :: cs) = quoted (Mode.code.next c) cs := by simp [quoted, markedFrom, hspot]
      refine ⟨fun _ => hfst, ?_, ?_⟩
      · rw [hquoted, hfst, hinside, hcode (next_code hc)]
      · rw [hquoted, hliterals, hstep, hspot, literals_prepend_code]
    · have hkept : gather (quoted m (c :: cs)) = prepend (c, m.spot c) (gather (quoted (m.next c) cs)) := by
        rw [show quoted m (c :: cs) = (c, m.spot c) :: quoted (m.next c) cs by simp [quoted, markedFrom, hspot]]
        rfl
      rw [hstep, hkept]
      cases hmark : m.spot c with
      | code => exact absurd hmark hspot
      | opening =>
        refine ⟨fun _ => rfl, rfl, ?_⟩
        simp only [prepend, filterMap_cons, literal?, hinside, hliterals]
      | inside =>
        refine ⟨?_, congrArg (c :: ·) hinside, hliterals⟩
        rintro rfl
        rw [spot] at hmark
        split at hmark <;> cases hmark

/-- The literals of a text are made of what is quoted in it. -/
lemma literals_segments (cs : List Char) :
    (segments cs).filterMap literal? = (gather (quoted .code cs)).2.filterMap literal? :=
  (gather_quoted .code cs).2.2.symm

end AlgoLang.CSource
