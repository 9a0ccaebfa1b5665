/-
# Texts that differ in the case of letters

Names are compared by `Text.lower`, and messages with the letters between their apostrophes made small.
`Text.smallName` changes names in a way that neither can tell.
-/
import AlgoLang.Proofs.Lift.Pieces

namespace AlgoLang

open Token List Char

variable {c x : Char} {n : String}

namespace Text

open Lift (forall_ascii isNameChar_of_isAlpha toNat_lt_of_isNameChar)

/-! ## Letters -/

lemma toLower_of_not_isUpper (h : c.isUpper = false) : c.toLower = c := by
  rw [toLower, dif_neg (of_decide_eq_false h)]

lemma isAlpha_toLower (h : c.isUpper) : c.toLower.isAlpha ∧ c.toLower.isUpper = false := by
  have hall : ∀ n < 128, (!(ofNat n).isUpper || ((ofNat n).toLower.isAlpha && !(ofNat n).toLower.isUpper)) := by
    decide +kernel
  have halpha : c.isAlpha := by rw [isAlpha, h, Bool.true_or]
  have hc := forall_ascii (P := fun c => !c.isUpper || (c.toLower.isAlpha && !c.toLower.isUpper)) hall
    (toNat_lt_of_isNameChar (isNameChar_of_isAlpha halpha))
  simpa [h] using hc

lemma toLower_toLower (c : Char) : c.toLower.toLower = c.toLower := by
  cases hupper : c.isUpper with
  | true => exact toLower_of_not_isUpper (isAlpha_toLower hupper).2
  | false => rw [toLower_of_not_isUpper hupper, toLower_of_not_isUpper hupper]

lemma apply_toLower {α : Type} {p : Char → α} {v : α} (hp : ∀ c, c.isAlpha → p c = v) (c : Char) :
    p c.toLower = p c := by
  cases hupper : c.isUpper with
  | true => rw [hp _ (isAlpha_toLower hupper).1, hp c (by rw [isAlpha, hupper, Bool.true_or])]
  | false => rw [toLower_of_not_isUpper hupper]

lemma eq_false_of_isAlpha {p : Char → Bool}
    (h : ∀ n < 128, (!(ofNat n).isAlpha || !p (ofNat n))) (hc : c.isAlpha) : p c = false := by
  have hascii := forall_ascii (P := fun c => !c.isAlpha || !p c) h (toNat_lt_of_isNameChar (isNameChar_of_isAlpha hc))
  simpa [hc] using hascii

lemma toLower_eq_iff (hx : x.isAlpha = false) (c : Char) : c.toLower = x ↔ c = x := by
  refine iff_of_eq (apply_toLower (p := (· = x)) (v := False) (fun d hd => eq_false ?_) c)
  rintro rfl
  exact Bool.false_ne_true (hx.symm.trans hd)

lemma not_front_map {y : Char} {cs : List Char} (hx : x.isAlpha = false) (hy : y.isAlpha = false)
    (h : ∀ tail, c = x → cs = y :: tail → False) : ∀ tail, c.toLower = x → cs.map toLower = y :: tail → False := by
  intro tail hc hcs
  obtain ⟨d, ds, rfl, hd, -⟩ := map_eq_cons_iff.mp hcs
  exact h ds ((toLower_eq_iff hx c).mp hc) (by rw [(toLower_eq_iff hy d).mp hd])

lemma isNameChar_toLower (c : Char) : isNameChar c.toLower = isNameChar c :=
  apply_toLower (fun _ => isNameChar_of_isAlpha) c

/-- The same characters up to the case of letters. -/
def SameLetters (cs ds : List Char) : Prop :=
  cs.map toLower = ds.map toLower

namespace SameLetters

variable {cs ds cs' ds' : List Char}

lemma append (h : SameLetters cs ds) (h' : SameLetters cs' ds') : SameLetters (cs ++ cs') (ds ++ ds') := by
  unfold SameLetters at *
  rw [map_append, map_append, h, h']

lemma take (h : SameLetters cs ds) (n : Nat) : SameLetters (cs.take n) (ds.take n) := by
  unfold SameLetters at *
  rw [map_take, map_take, h]

lemma drop (h : SameLetters cs ds) (n : Nat) : SameLetters (cs.drop n) (ds.drop n) := by
  unfold SameLetters at *
  rw [map_drop, map_drop, h]

end SameLetters

/-! ## Names -/

/-- A name in small letters; what is no name stays as it is. -/
def smallName (n : String) : String :=
  if n.toList.all Token.isNameChar then n.toLower else n

section

variable (h : n.toList.all isNameChar = true)
include h

lemma smallName_of_all : smallName n = n.toLower :=
  if_pos h

lemma all_isNameChar_toLower : n.toLower.toList.all isNameChar := by
  rw [String.toLower, String.toList_map, all_map]
  exact all_eq_true.mpr fun c hc => (isNameChar_toLower c).trans (all_eq_true.mp h c hc)

lemma lower_of_all : lower n = n.toLower := by
  have hascii : ∀ c ∈ n.toList, c.toNat < 128 := fun c hc =>
    toNat_lt_of_isNameChar (all_eq_true.mp h c hc)
  rw [lower, lowerFrom_of_ascii hascii, ← String.toList_inj, String.toList_ofList, String.toLower, String.toList_map]

end

lemma lower_smallName (n : String) : lower (smallName n) = lower n := by
  cases hname : n.toList.all isNameChar with
  | true =>
    rw [smallName_of_all hname, lower_of_all (all_isNameChar_toLower hname), lower_of_all hname, ← String.toList_inj]
    simp only [String.toLower, String.toList_map, map_map]
    exact map_congr_left fun c _ => toLower_toLower c
  | false => rw [smallName, hname, if_neg Bool.false_ne_true]

/-! ## Quoted names -/

/-- The characters with the letters between apostrophes made small; `inside` tells whether the first one
stands between them. -/
def lowerQuotedFrom (inside : Bool) : List Char → List Char
  | [] => []
  | c :: cs => (if inside then c.toLower else c) :: lowerQuotedFrom (inside != (c == '\'')) cs

def lowerQuoted (s : String) : String :=
  String.ofList (lowerQuotedFrom false s.toList)

/-- Whether what follows the characters stands between apostrophes. -/
def quoteAfter (inside : Bool) (cs : List Char) : Bool :=
  cs.foldl (fun inside c => inside != (c == '\'')) inside

/-- A text that ends in an open quotation. -/
def OpensQuote (s : String) : Prop :=
  quoteAfter false s.toList = true

lemma lowerQuotedFrom_append (inside : Bool) (xs ys : List Char) : lowerQuotedFrom inside (xs ++ ys) =
      lowerQuotedFrom inside xs ++ lowerQuotedFrom (quoteAfter inside xs) ys := by
  induction xs generalizing inside with
  | nil => rfl
  | cons x xs ih =>
    rw [cons_append, lowerQuotedFrom, ih, lowerQuotedFrom, cons_append]
    rfl

lemma quoteAfter_append (inside : Bool) (xs ys : List Char) :
    quoteAfter inside (xs ++ ys) = quoteAfter (quoteAfter inside xs) ys :=
  foldl_append

lemma lowerQuotedFrom_of_notMem {cs : List Char} (h : '\'' ∉ cs) :
    lowerQuotedFrom true cs = cs.map toLower ∧ quoteAfter true cs := by
  induction cs with
  | nil => exact ⟨rfl, rfl⟩
  | cons c cs ih =>
    have hc : (true != (c == '\'')) := by
      rw [beq_eq_false_iff_ne.mpr (ne_of_mem_of_not_mem mem_cons_self h)]
      rfl
    obtain ⟨hlower, hafter⟩ := ih fun hmem => h (mem_cons_of_mem c hmem)
    refine ⟨?_, ?_⟩
    · rw [lowerQuotedFrom, hc, hlower, if_pos rfl, map_cons]
    · rw [quoteAfter, foldl_cons, hc]
      exact hafter

lemma notMem_of_all (h : n.toList.all isNameChar) : '\'' ∉ n.toList :=
  fun hmem => Bool.false_ne_true (all_eq_true.mp h _ hmem)

lemma lowerQuoted_smallName {before : String} (hopen : OpensQuote before) (n after : String) :
    lowerQuoted (before ++ smallName n ++ after) = lowerQuoted (before ++ n ++ after) := by
  cases hname : n.toList.all isNameChar with
  | true =>
    have hsmall := lowerQuotedFrom_of_notMem (notMem_of_all (all_isNameChar_toLower hname))
    have hgiven := lowerQuotedFrom_of_notMem (notMem_of_all hname)
    have hletters : n.toLower.toList.map toLower = n.toList.map toLower := by
      rw [String.toLower, String.toList_map, map_map]
      exact map_congr_left fun c _ => toLower_toLower c
    unfold OpensQuote at hopen
    rw [smallName_of_all hname, lowerQuoted, lowerQuoted]
    simp [lowerQuotedFrom_append, hopen, hsmall, hgiven, hletters]
  | false => rw [smallName, hname, if_neg Bool.false_ne_true]

end Text

/-! ## Diagnostics -/

/-- The diagnostic with the names it quotes, and the source line it shows, in small letters. -/
def Diagnostic.lowered (d : Diagnostic) : Diagnostic :=
  { d with message := Text.lowerQuoted d.message, sourceLine := d.sourceLine.map String.toLower }

end AlgoLang
