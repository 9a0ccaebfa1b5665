/-
# Where the pieces of a C text come from

The lines of an expanded text keep the order of the lines they came from, and a fragment begins no earlier
than the one before it.  No fragment holds a newline.
-/
import AlgoLang.Proofs.CSource.Inlining

namespace AlgoLang.CSource

open Text List

variable {c : Char} {cs : List Char}

lemma trim_of_allBlank (h : allBlank cs) : trim cs = [] := by
  rw [trim, trimStart_of_allBlank h]
  rfl

/-! ## Steps of the machine -/

/-- How many parentheses are open behind a character. -/
def openAfter (depth : Nat) (c : Char) : Nat :=
  if c == '(' then depth + 1 else if c == ')' then depth - 1 else depth

lemma openAfter_eq {depth : Nat} (hopen : c ≠ '(') (hclose : c ≠ ')') : openAfter depth c = depth := by
  simp [openAfter, hopen, hclose]

/-- Outside of parentheses such a character ends a piece. -/
def endsPiece (c : Char) : Bool :=
  c == ';' || c == '\x7b' || c == '\x7d'

lemma openAfter_of_endsPiece (h : endsPiece c) (depth : Nat) : openAfter depth c = depth := by
  have hall : ∀ c ∈ [';', '\x7b', '\x7d'], c ≠ '(' ∧ c ≠ ')' := by simp
  obtain ⟨hopen, hclose⟩ := hall c (by simpa [endsPiece, or_assoc] using h)
  exact openAfter_eq hopen hclose

namespace Cutting

variable {s : Cutting}

lemma parens_eq (s : Cutting) (c : Char) : s.parens c = { s with depth := openAfter s.depth c } := by
  unfold parens openAfter
  split
  · rfl
  · split <;> rfl

lemma flush_eq (s : Cutting) : s.flush = { s with done := s.flush.done, buffer := [] } := by
  unfold flush
  split <;> rfl

lemma flush_of_allBlank (h : allBlank s.buffer) : s.flush = { s with buffer := [] } := by
  rw [flush, trim_of_allBlank h]

lemma code_of_not_endsPiece (h : (openAfter s.depth c == 0 && endsPiece c) = false) (origin : Nat) (ahead : List Char) :
    s.code origin c ahead = ((s.parens c).push origin c, .code) := by
  simp only [code, parens_eq]
  exact if_neg (Bool.eq_false_iff.mp h)

lemma code_of_endsPiece (h : endsPiece c) (hdepth : s.depth = 0) (origin : Nat) (ahead : List Char) :
    s.code origin c ahead = match s.initialiserLength? c ahead with
      | some n => (s.push origin c, .verbatim n)
      | none => (if c == '\x7d' then s.closeBrace origin else (s.push origin c).flush, .code) := by
  have hparens : s.parens c = s := by rw [parens_eq, openAfter_of_endsPiece h]
  simp only [code, hparens]
  exact if_pos (by rw [hdepth]; exact h)

lemma chars_code {origin : Nat} (hquote : isQuote c = false) (hslash : c = '/' → ∀ d ∈ cs.head?, d ≠ '/' ∧ d ≠ '*') :
    s.chars origin .code (c :: cs) = (s.code origin c cs).1.chars origin (s.code origin c cs).2 cs := by
  have hopens : ∀ d ∈ ['/', '*'], (c == '/' && cs.head? == some d) = false := by
    intro d hd
    rw [Bool.and_eq_false_imp, beq_iff_eq, beq_eq_false_iff_ne]
    intro hc hfirst
    have hne := hslash hc d hfirst
    simp only [mem_cons, not_mem_nil, or_false] at hd
    exact hd.elim hne.1 hne.2
  rw [chars, hquote, hopens '/' (by simp), hopens '*' (by simp)]
  rfl

end Cutting

/-! ## Order -/

lemma cutLineComment_subset (segs : List Segment) : cutLineComment segs ⊆ segs.flatMap Segment.text := by
  have hbefore : ∀ (cs kept : List Char), cutLineComment.beforeSlashes cs = some kept → kept ⊆ cs := by
    intro cs
    induction cs with
    | nil => exact fun _ h => nomatch h
    | cons c cs ih =>
      intro kept h
      unfold cutLineComment.beforeSlashes at h
      split at h
      · cases h
      · cases h
        exact nil_subset _
      · next heq =>
        cases heq
        obtain ⟨rest, hrest, rfl⟩ := Option.map_eq_some_iff.mp h
        exact cons_subset_cons c (ih rest hrest)
  induction segs with
  | nil => exact nil_subset _
  | cons seg segs ih =>
    cases seg with
    | literal cs =>
      exact append_subset.mpr ⟨subset_append_left _ _, subset_append_of_subset_right _ ih⟩
    | code cs =>
      rw [cutLineComment]
      split
      · next kept hkept => exact subset_append_of_subset_left _ (hbefore cs kept hkept)
      · exact append_subset.mpr ⟨subset_append_left _ _, subset_append_of_subset_right _ ih⟩

/-- What is known of the machine while it reads the line with index `now`: the complete pieces are in
order and the piece that has begun, if there is one, began behind them. -/
structure Cutting.Ordered (s : Cutting) (now : Nat) : Prop where
  sorted : (s.done.map Fragment.origin).Pairwise (· ≤ ·)
  past : ∀ f ∈ s.done, f.origin ≤ now
  texts : ∀ f ∈ s.done, OneLine f.text
  buffer : OneLine s.buffer
  begun : allBlank s.buffer = false → (∀ f ∈ s.done, f.origin ≤ s.origin) ∧ s.origin ≤ now

namespace Cutting.Ordered

variable {s : Cutting} {now : Nat}

lemma later {now' : Nat} (h : s.Ordered now) (hle : now ≤ now') : s.Ordered now' where
  sorted := h.sorted
  past := fun f hf => Nat.le_trans (h.past f hf) hle
  texts := h.texts
  buffer := h.buffer
  begun := fun hb => ⟨(h.begun hb).1, Nat.le_trans (h.begun hb).2 hle⟩

lemma push (h : s.Ordered now) (hc : c ≠ '\n') : (s.push now c).Ordered now where
  sorted := h.sorted
  past := h.past
  texts := h.texts
  buffer := h.buffer.append (by simp [hc, OneLine.nil])
  begun := by
    intro hb
    have happend : allBlank (s.buffer ++ [c]) = (allBlank s.buffer && isBlank c) := by simp [allBlank]
    show _ ∧ (if !isBlank c && allBlank s.buffer then now else s.origin) ≤ now
    cases hblank : allBlank s.buffer with
    | false => simpa [Cutting.push, hblank] using h.begun hblank
    | true =>
      have hc' : isBlank c = false := by
        rw [Cutting.push, happend, hblank] at hb
        exact hb
      simpa [Cutting.push, hblank, hc'] using h.past

lemma add (h : s.Ordered now) {f : Fragment} (hf : ∀ g ∈ s.done, g.origin ≤ f.origin)
    (hnow : f.origin ≤ now) (htext : OneLine f.text) {s' : Cutting} (hdone : s'.done = s.done ++ [f])
    (hbuffer : s'.buffer = []) : s'.Ordered now where
  sorted := by
    rw [hdone, map_append, pairwise_append]
    refine ⟨h.sorted, pairwise_singleton _ _, ?_⟩
    intro a ha b hb
    obtain ⟨g, hg, rfl⟩ := mem_map.mp ha
    obtain rfl := mem_singleton.mp hb
    exact hf g hg
  past := by
    rw [hdone]
    exact forall_mem_append.mpr ⟨h.past, forall_mem_singleton.mpr hnow⟩
  texts := by
    rw [hdone]
    exact forall_mem_append.mpr ⟨h.texts, forall_mem_singleton.mpr htext⟩
  buffer := hbuffer ▸ .nil
  begun := fun hb => by simp [hbuffer, allBlank] at hb

lemma flush (h : s.Ordered now) : s.flush.Ordered now := by
  have hdrop : ∀ s' : Cutting, s'.done = s.done → s'.buffer = [] → s'.Ordered now := by
    intro s' hdone hbuffer
    exact ⟨hdone ▸ h.sorted, hdone ▸ h.past, hdone ▸ h.texts, hbuffer ▸ .nil,
      fun hb => by simp [hbuffer, allBlank] at hb⟩
  unfold Cutting.flush
  split
  · exact hdrop _ rfl rfl
  · next text htrim =>
    have hbegun : allBlank s.buffer = false := by
      cases hblank : allBlank s.buffer with
      | false => rfl
      | true => exact absurd (trim_of_allBlank hblank) htrim
    obtain ⟨hfirst, hnow⟩ := h.begun hbegun
    exact h.add hfirst hnow h.buffer.trim rfl rfl

lemma closeBrace (h : s.Ordered now) : (s.closeBrace now).Ordered now := by
  have hflush := h.flush
  have hbrace : OneLine ['\x7d'] := by decide
  exact hflush.add hflush.past (Nat.le_refl now) hbrace rfl (by rw [Cutting.closeBrace, flush_eq])

lemma parens (h : s.Ordered now) (c : Char) : (s.parens c).Ordered now := by
  rw [parens_eq]
  exact ⟨h.sorted, h.past, h.texts, h.buffer, h.begun⟩

lemma code (h : s.Ordered now) (hc : c ≠ '\n') (ahead : List Char) : (s.code now c ahead).1.Ordered now := by
  have hparens := h.parens c
  unfold Cutting.code
  dsimp only
  split
  · split
    · exact hparens.push hc
    · split
      · exact hparens.closeBrace
      · exact (hparens.push hc).flush
  · exact hparens.push hc

lemma chars (cs : List Char) : ∀ {s : Cutting} (mode : LineMode), s.Ordered now → OneLine cs →
    (s.chars now mode cs).Ordered now := by
  induction cs with
  | nil =>
    intro s mode h _
    unfold Cutting.chars
    split
    · exact ⟨h.sorted, h.past, h.texts, h.buffer, h.begun⟩
    · exact ⟨h.sorted, h.past, h.texts, h.buffer, h.begun⟩
    · exact h
  | cons c cs ih =>
    intro s mode h hcs
    have hc : c ≠ '\n' := (OneLine.cons_iff.mp hcs).1
    have hpush := h.push hc
    have hrest := hcs.tail
    unfold Cutting.chars
    split
    · split
      · exact ih _ hpush hrest
      · split
        · exact h
        · split
          · exact ih _ h hrest
          · exact ih _ (h.code hc cs) hrest
    · exact ih _ hpush hrest
    · exact ih _ hpush hrest
    · exact ih _ h hrest
    · split
      · exact ih _ h hrest
      · exact ih _ h hrest
    · exact ih _ (h.push (by decide)) hrest
    · exact ih _ hpush hrest
    · exact ih _ hpush hrest

lemma endLine (h : s.Ordered now) : s.endLine.Ordered now := by
  unfold Cutting.endLine
  split
  · exact h.flush
  · refine ⟨h.sorted, h.past, h.texts, h.buffer.append (by decide), fun hb => h.begun ?_⟩
    simpa [allBlank, isBlank, isWhiteSpace] using hb

lemma directive (h : s.Ordered now) {text : List Char} (htext : OneLine text)
    (hdirective : s.isDirective text) : (s.directive text now).Ordered now := by
  have hblank : allBlank s.buffer := by
    exact (Bool.and_eq_true_iff.mp hdirective).1
  have hkept : OneLine (trim (cutLineComment (segments text))) := by
    refine .trim (.of_subset ?_ (cutLineComment_subset _))
    rwa [flatMap_text_segments]
  unfold Cutting.directive
  split
  · exact h
  · have hadd : ({ s with done := s.done ++ [⟨trim (cutLineComment (segments text)), now⟩], buffer := [] } :
        Cutting).Ordered now := h.add h.past (Nat.le_refl now) hkept rfl rfl
    exact ⟨hadd.sorted, hadd.past, hadd.texts, h.buffer, fun hb => by simp [hblank] at hb⟩

lemma afterComment?_subset {rest : List Char} (h : afterComment? cs = some rest) : rest ⊆ cs := by
  induction cs with
  | nil => cases h
  | cons c cs ih =>
    unfold afterComment? at h
    split at h
    · next heq =>
      cases h
      cases heq
      exact subset_cons_of_subset _ (subset_cons_of_subset _ (List.Subset.refl _))
    · next heq =>
      cases heq
      exact subset_cons_of_subset _ (ih h)
    · cases h

lemma line {l : List Char × Nat} (h : s.Ordered now) (hle : now ≤ l.2) (hl : OneLine l.1) :
    (s.line l).Ordered l.2 := by
  have hlater := h.later hle
  have hstart : ({ s with inComment := false } : Cutting).Ordered l.2 :=
    ⟨hlater.sorted, hlater.past, hlater.texts, hlater.buffer, hlater.begun⟩
  unfold Cutting.line
  split
  · exact hlater
  · next rest hrest =>
    have hone : OneLine rest := by
      unfold Cutting.uncommented? at hrest
      split at hrest
      · exact hl.of_subset (afterComment?_subset hrest)
      · cases hrest
        exact hl
    dsimp only
    split
    · next hdirective => exact hstart.directive hl hdirective
    · exact (hstart.chars rest .code hone).endLine

lemma lines {last : Nat} (ls : List (List Char × Nat)) : ∀ {s : Cutting} {now : Nat}, s.Ordered now →
    now ≤ last → (ls.map Prod.snd).Pairwise (· ≤ ·) →
    (∀ l ∈ ls, OneLine l.1 ∧ now ≤ l.2 ∧ l.2 ≤ last) → (ls.foldl .line s).Ordered last := by
  induction ls with
  | nil => exact fun h hle _ _ => h.later hle
  | cons l ls ih =>
    intro s now h hle hsorted hls
    obtain ⟨hone, hlow, hhigh⟩ := hls l mem_cons_self
    rw [map_cons, pairwise_cons] at hsorted
    refine ih (h.line hlow hone) hhigh hsorted.2 fun m hm => ?_
    obtain ⟨hone', -, hhigh'⟩ := hls m (mem_cons_of_mem _ hm)
    exact ⟨hone', hsorted.1 m.2 (mem_map_of_mem hm), hhigh'⟩

end Cutting.Ordered

/-- The fragments of a text are in order, each begins on a line of the text, and none holds a
newline. -/
lemma splitFragments_origins (files : Files) (code : String) :
    ((splitFragments (expand files code).lines).map Fragment.origin).Pairwise (· ≤ ·) ∧
      ∀ f ∈ splitFragments (expand files code).lines,
        f.origin < (splitAt '\n' code.toList).length ∧ OneLine f.text := by
  have hpos := length_pos_iff.mpr (splitAt_ne_nil '\n' code.toList)
  obtain ⟨hsorted, hone, horigins⟩ := expand_origins files code
  have hempty : ({} : Cutting).Ordered 0 :=
    ⟨List.Pairwise.nil, forall_mem_nil _, forall_mem_nil _, .nil, fun h => by simp [allBlank] at h⟩
  have hcut : ((expand files code).lines.foldl Cutting.line {}).Ordered ((splitAt '\n' code.toList).length - 1) := by
    refine Cutting.Ordered.lines _ hempty (Nat.zero_le _) hsorted fun l hl => ?_
    have hlt := (horigins l.2).mp (mem_map_of_mem hl)
    exact ⟨hone l hl, Nat.zero_le _, by omega⟩
  have hdone := hcut.flush
  refine ⟨hdone.sorted, fun f hf => ⟨?_, hdone.texts f hf⟩⟩
  have hpast := hdone.past f hf
  omega

end AlgoLang.CSource
