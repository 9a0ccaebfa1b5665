/-
# Texts as pieces with blanks between them

Between two passes the text of an expression consists of words, numbers and signs, with blanks around them, and
no piece runs into the next one.  A pass that can be described piece by piece keeps this.
-/
import AlgoLang.Proofs.Lift.CExpr
import Mathlib

namespace AlgoLang.Lift

open Token Text List Char Bool

variable {t gap rest : List Char} {c : Char}

/-! ## Pieces -/

def signPieces : List (List Char) :=
  [['('], [')'], ['['], [']'], [','], ['!'], ['-'], ['+'], ['*'], ['/'], ['%'], ['<'], ['>'], ['<', '='],
   ['>', '='], ['=', '='], ['!', '='], ['&', '&'], ['|', '|'], ['='], ['<', '>']]

/-- A word, a number in decimal digits, or a sign. -/
inductive IsPiece (t : List Char) : Prop
  | word : isWordPiece t = true → IsPiece t
  | number : t ≠ [] → t.all isDigit = true → IsPiece t
  | sign : t ∈ signPieces → IsPiece t

def signChars : List Char :=
  ['(', ')', '[', ']', ',', '!', '-', '+', '*', '/', '%', '<', '>', '=', '&', '|']

lemma isNameChar_of_isAlpha (h : c.isAlpha) : isNameChar c := by
  simp [isNameChar, isAlphanum, h]

lemma isNameChar_of_isDigit (h : c.isDigit) : isNameChar c := by
  simp [isNameChar, isAlphanum, h]

lemma all_isNameChar_of_isWordPiece (h : isWordPiece t) : t.all isNameChar := by
  cases t with
  | nil => cases h
  | cons c cs =>
    simp only [isWordPiece, and_eq_true] at h
    simp only [all_cons, and_eq_true]
    exact ⟨isNameChar_of_isAlpha h.1, h.2⟩

lemma all_isNameChar_of_isDigit (h : t.all isDigit) : t.all isNameChar := by
  rw [all_eq_true] at h ⊢
  exact fun c hc => isNameChar_of_isDigit (h c hc)

lemma mem_signChars_of_mem (ht : t ∈ signPieces) (hc : c ∈ t) : c ∈ signChars := by
  have hall : (signPieces.all fun t => t.all fun c => signChars.contains c) := by decide
  simpa using all_eq_true.mp (all_eq_true.mp hall t ht) c hc

lemma IsPiece.ne_nil (h : IsPiece t) : t ≠ [] := by
  cases h with
  | word h =>
    rintro rfl
    cases h
  | number h _ => exact h
  | sign h =>
    rintro rfl
    exact absurd h (by decide)

lemma IsPiece.all_isNameChar_or_mem (h : IsPiece t) : t.all isNameChar ∨ t ∈ signPieces := by
  cases h with
  | word h => exact .inl (all_isNameChar_of_isWordPiece h)
  | number _ h => exact .inl (all_isNameChar_of_isDigit h)
  | sign h => exact .inr h

lemma IsPiece.char (h : IsPiece t) (hc : c ∈ t) : isNameChar c ∨ c ∈ signChars := by
  rcases h.all_isNameChar_or_mem with hname | hsign
  · exact .inl (all_eq_true.mp hname c hc)
  · exact .inr (mem_signChars_of_mem hsign hc)

/-- A fact about the members of a list can be checked one by one, also where `decide` would go through all
characters. -/
lemma forall_mem_of_all {α : Type} {P : α → Prop} [DecidablePred P] {as : List α}
    (h : (as.all fun a => decide (P a))) : ∀ a ∈ as, P a :=
  fun a ha => of_decide_eq_true (all_eq_true.mp h a ha)

lemma forall_ascii {P : Char → Bool} (h : ∀ n < 128, P (ofNat n)) (hc : c.toNat < 128) : P c := by
  rw [← ofNat_toNat c]
  exact h c.toNat hc

lemma toNat_lt_of_isNameChar (h : isNameChar c) : c.toNat < 128 := by
  simp only [isNameChar, isAlphanum, isAlpha, isUpper, isLower, isDigit,
    or_eq_true, and_eq_true, decide_eq_true_eq, beq_iff_eq] at h
  rcases h with ((⟨-, h⟩ | ⟨-, h⟩) | ⟨-, h⟩) | rfl
  · exact Nat.lt_of_le_of_lt (UInt32.le_iff_toNat_le.mp h) (by decide)
  · exact Nat.lt_of_le_of_lt (UInt32.le_iff_toNat_le.mp h) (by decide)
  · exact Nat.lt_of_le_of_lt (UInt32.le_iff_toNat_le.mp h) (by decide)
  · decide

def isPlain (c : Char) : Bool :=
  !isBlank c && !CSource.isQuote c && c != '.'

lemma isPlain_of_isNameChar (h : isNameChar c) : isPlain c := by
  have hall : ∀ n < 128, (!isNameChar (ofNat n) || isPlain (ofNat n)) := by
    decide +kernel
  have hc := forall_ascii (P := fun c => !isNameChar c || isPlain c) hall (toNat_lt_of_isNameChar h)
  simpa [h] using hc

lemma isPlain_of_mem_signChars (h : c ∈ signChars) : isPlain c := by
  have hall : signChars.all isPlain := by decide
  exact all_eq_true.mp hall c h

lemma isNameChar_of_mem_signChars (h : c ∈ signChars) : isNameChar c = false := by
  have hall : (signChars.all fun c => !isNameChar c) := by decide
  simpa using all_eq_true.mp hall c h

lemma IsPiece.isPlain (h : IsPiece t) (hc : c ∈ t) : isPlain c := by
  rcases h.char hc with hname | hsign
  · exact isPlain_of_isNameChar hname
  · exact isPlain_of_mem_signChars hsign

lemma isBlank_of_isPlain (h : isPlain c) : isBlank c = false := by
  simp only [isPlain, and_eq_true, not_eq_true'] at h
  exact h.1.1

lemma isBlank_of_mem (h : IsPiece t) (hc : c ∈ t) : isBlank c = false :=
  isBlank_of_isPlain (h.isPlain hc)

/-- A character runs into no piece if it does not run into words, numbers and signs. -/
lemma IsPiece.joins_eq_false (h : IsPiece t) (hword : isWordChar c = false)
    (hsigns : (signPieces.all fun t => !joins t c)) : joins t c = false := by
  rcases h.all_isNameChar_or_mem with hname | hsign
  · rw [joins, if_pos hname, hword]
  · simpa using all_eq_true.mp hsigns t hsign

/-! ## Texts in pieces -/

section

variable {blank : Char → Bool} {ts : List (List Char)} {cs : List Char}

lemma fits_cons (h : joins t c = false) : Fits t (c :: rest) := by
  rintro _ ⟨⟩
  exact h

lemma Fits.of_head? {rest' : List Char} (h : Fits t rest)
    (hhead : ∀ c, rest'.head? = some c → rest.head? = some c ∨ joins t c = false) : Fits t rest' := by
  intro c hc
  rcases hhead c hc with hold | hnew
  · exact h c hold
  · exact hnew

lemma Laid.append (h : Laid blank ts cs) (hgap : gap.all blank) : Laid blank ts (gap ++ cs) := by
  cases h with
  | done hcs => exact .done (by rw [all_append, hgap, hcs]; rfl)
  | piece hgap' hfits hrest =>
    rw [← append_assoc]
    exact .piece (by rw [all_append, hgap, hgap']; rfl) hfits hrest

/-- Every character of the text is blank or in a piece. -/
lemma Laid.char (h : Laid blank ts cs) (hc : c ∈ cs) : blank c ∨ ∃ t ∈ ts, c ∈ t := by
  induction h with
  | done hgap => exact .inl (all_eq_true.mp hgap c hc)
  | @piece gap t rest ts hgap hfits hrest ih =>
    rcases mem_append.mp hc with hmem | hmem
    · exact .inl (all_eq_true.mp hgap c hmem)
    · rcases mem_append.mp hmem with hmem | hmem
      · exact .inr ⟨t, mem_cons_self, hmem⟩
      · rcases ih hmem with hblank | ⟨u, hu, hcu⟩
        · exact .inl hblank
        · exact .inr ⟨u, mem_cons_of_mem t hu, hcu⟩

/-- Whether a text consists of the pieces; blanks are taken to the gaps. -/
def isLaid (blank : Char → Bool) : List (List Char) → List Char → Bool
  | [], cs => cs.all blank
  | t :: ts, cs =>
    let rest := cs.dropWhile blank
    t.isPrefixOf rest && !(rest.drop t.length).head?.any (joins t) && isLaid blank ts (rest.drop t.length)

lemma laid_of_isLaid (h : isLaid blank ts cs) : Laid blank ts cs := by
  induction ts generalizing cs with
  | nil => exact .done h
  | cons t ts ih =>
    simp only [isLaid, and_eq_true, not_eq_true', List.isPrefixOf_iff_prefix] at h
    obtain ⟨⟨⟨rest, hrest⟩, hjoins⟩, hlaid⟩ := h
    rw [← hrest, drop_left] at hjoins hlaid
    rw [← takeWhile_append_dropWhile (p := blank) (l := cs), ← hrest]
    refine .piece (all_takeWhile) ?_ (ih hlaid)
    intro c hc
    rw [hc] at hjoins
    exact hjoins

lemma IsPiece.isBlank_front (ht : IsPiece t) (rest : List Char) : ∀ c ∈ (t ++ rest).head?, isBlank c = false := by
  cases t with
  | nil => exact absurd rfl ht.ne_nil
  | cons c t =>
    rintro _ ⟨⟩
    exact isBlank_of_mem ht mem_cons_self

lemma trimStart_gap (hgap : allBlank gap) (ht : IsPiece t)
    (rest : List Char) : trimStart (gap ++ (t ++ rest)) = t ++ rest :=
  trimStart_append hgap (ht.isBlank_front rest)

lemma takeWhile_gap (hgap : allBlank gap) (ht : IsPiece t)
    (rest : List Char) : (gap ++ (t ++ rest)).takeWhile isBlank = gap :=
  takeWhile_append_stop hgap (ht.isBlank_front rest)

lemma trimEnd_piece (ht : IsPiece t) (gap rest : List Char) :
    trimEnd (gap ++ (t ++ rest)) = gap ++ (t ++ trimEnd rest) := by
  -- The last character before the rest is one of the piece.
  rcases eq_nil_or_concat t with rfl | ⟨t, c, rfl⟩
  · exact absurd rfl ht.ne_nil
  · simpa using trimEnd_cons (isBlank_of_mem ht (c := c) (by simp)) (gap ++ t) rest

lemma allBlank_of_all (hblank : ∀ c, blank c → isBlank c) (hgap : gap.all blank) : allBlank gap :=
  all_eq_true.mpr fun c hc => hblank c (all_eq_true.mp hgap c hc)

lemma Laid.trimEnd (hblank : ∀ c, blank c → isBlank c) (h : Laid blank ts cs)
    (hts : ∀ t ∈ ts, IsPiece t) : Laid blank ts (trimEnd cs) := by
  induction h with
  | @done gap hgap =>
    rw [trimEnd_of_allBlank (allBlank_of_all hblank hgap)]
    exact .done rfl
  | @piece gap t rest ts hgap hfits hrest ih =>
    rw [trimEnd_piece (hts t mem_cons_self)]
    refine .piece hgap (hfits.of_head? fun c hc => .inl ?_) (ih fun u hu => hts u (mem_cons_of_mem t hu))
    obtain ⟨cut, -, hcut⟩ := exists_eq_trimEnd_append rest
    rw [hcut, head?_append, hc]
    rfl

lemma Laid.trim (hblank : ∀ c, blank c → isBlank c) (h : Laid blank ts cs)
    (hts : ∀ t ∈ ts, IsPiece t) : Laid blank ts (trim cs) := by
  cases h with
  | done hgap =>
    rw [Text.trim, trimStart_of_allBlank (allBlank_of_all hblank hgap)]
    exact .done rfl
  | @piece gap t rest ts hgap hfits hrest =>
    rw [Text.trim, trimStart_gap (allBlank_of_all hblank hgap) (hts t mem_cons_self)]
    exact .trimEnd hblank (.piece (all_nil (f := blank)) hfits hrest) hts

/-! ## Passes -/

/-- A pass that can be described piece by piece: blanks stay blanks, and a piece becomes a piece with
further blanks around it, that what the pass makes of the rest does not run into. -/
structure PieceWise (blank blank' : Char → Bool) (P : List Char → Prop) (m f : List Char → List Char) : Prop where
  ending : ∀ gap, gap.all blank = true → (f gap).all blank' = true
  gap : ∀ gap t rest, gap.all blank = true → P t →
    ∃ gap', gap'.all blank' = true ∧ f (gap ++ (t ++ rest)) = gap' ++ f (t ++ rest)
  piece : ∀ t rest, P t → Fits t rest → ∃ before after, before.all blank' = true ∧ after.all blank' = true ∧
      f (t ++ rest) = before ++ (m t ++ (after ++ f rest)) ∧ Fits (m t) (after ++ f rest)

lemma PieceWise.laid {blank' : Char → Bool} {P : List Char → Prop} {m f : List Char → List Char}
    (hf : PieceWise blank blank' P m f) (h : Laid blank ts cs) (hts : ∀ t ∈ ts, P t) :
    Laid blank' (ts.map m) (f cs) := by
  induction h with
  | done hgap => exact .done (hf.ending _ hgap)
  | @piece gap t rest ts hgap hfits hrest ih =>
    have ht := hts t mem_cons_self
    have hlaid := ih fun u hu => hts u (mem_cons_of_mem t hu)
    obtain ⟨gap', hgap', heq⟩ := hf.gap gap t rest hgap ht
    obtain ⟨before, after, hbefore, hafter, heq', hfits'⟩ := hf.piece t rest ht hfits
    rw [heq, heq', ← append_assoc]
    exact .piece (by rw [all_append, hgap', hbefore]; rfl) hfits' (hlaid.append hafter)

end

end AlgoLang.Lift
