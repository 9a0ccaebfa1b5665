/-
# What lifting an expression keeps and what it removes

Literals pass through untouched: powers are rebuilt from parts that end in code, every pass over code puts in
no quotes, and blanks are cut off only outside of literals.  Between the literals no operator is left that the
passes respell, for what takes the place of one begins and ends with characters that no operator holds.
-/
import AlgoLang.Proofs.Lift.OneLine
import AlgoLang.Proofs.Lift.Passes

namespace AlgoLang.Lift

open Text CSource List Mode

variable {cs : List Char} {op : Respelling}

/-! ## Powers -/

lemma exists_of_powCall? {a b after : List Char} (h : powCall? cs = some (a, b, after)) :
    ∃ gap x y, allBlank gap ∧ cs = "pow".toList ++ (gap ++ '(' :: (x ++ ',' :: (y ++ ')' :: after))) ∧
      a = trim x ∧ b = trim y ∧ code.over x = .code ∧ code.over y = .code := by
  unfold powCall? at h
  split at h
  · next hpow =>
    split at h
    · next rest hrest =>
      split at h
      · next inside after' hclosing =>
        split at h
        · next x y hsplit =>
          cases h
          obtain ⟨gap, hgap, hdrop⟩ := exists_eq_append_trimStart (cs.drop 3)
          obtain ⟨before, behind, hms, ⟨⟩⟩ := exists_of_closingMarked hclosing
          obtain ⟨hinside, hover, -⟩ := of_markedFrom_eq_append hms
          obtain ⟨hparts, hx, -⟩ := splitTopLevel_pair hsplit
          refine ⟨gap, x, y, hgap, ?_, rfl, rfl, hx, ?_⟩
          · obtain ⟨tail, rfl⟩ := isPrefixOf_iff_prefix.mp hpow
            have htail : tail = gap ++ '(' :: rest := by
              rw [hrest] at hdrop
              simpa using hdrop
            rw [htail, hinside, hparts]
            simp
          · rw [hparts, over_append, hx] at hover
            exact hover
        · cases h
      · cases h
    · cases h
  · cases h

lemma quoted_liftPow (m : Mode) (before : Option Char) (cs : List Char) :
    quoted m (liftPow m before cs) = quoted m cs ∧ m.over (liftPow m before cs) = m.over cs := by
  induction m, before, cs using liftPow.induct with
  | case1 m before =>
    rw [liftPow]
    exact ⟨rfl, rfl⟩
  | case2 m before c rest a b after hpow _ iha ihb ihafter =>
    rw [liftPow]
    split
    · next a' b' after' heq =>
      cases hpow.symm.trans heq
      unfold powHere? at hpow
      split at hpow
      · next hcode =>
        rw [Bool.and_eq_true, beq_iff_eq] at hcode
        obtain ⟨rfl, -⟩ := hcode
        obtain ⟨gap, x, y, hgap, hcs, rfl, rfl, hx, hy⟩ := exists_of_powCall? hpow
        obtain ⟨hquotedx, hoverx⟩ := quoted_trim hx
        obtain ⟨hquotedy, hovery⟩ := quoted_trim hy
        have hblank := plain_of_allBlank hgap
        have hname : Plain "pow".toList := by decide
        have hpower : Plain " ^ ".toList := by decide
        have hopen : isQuote '(' = false := rfl
        have hcomma : isQuote ',' = false := rfl
        have hclose : isQuote ')' = false := rfl
        dsimp only
        rw [hcs]
        simp only [cons_append, append_assoc, quoted_append, over_append, over_cons, quoted_cons_plain hopen,
          quoted_cons_plain hcomma, quoted_cons_plain hclose, next_code hopen, next_code hcomma,
          next_code hclose, quoted_plain hblank, over_plain hblank, quoted_plain hname,
          over_plain hname, quoted_plain hpower, over_plain hpower, iha, ihb, ihafter, hquotedx, hoverx,
          hquotedy, hovery, hx, hy, nil_append, and_self]
      · cases hpow
    · next heq => cases hpow.symm.trans heq
  | case3 m before c rest hpow ih =>
    rw [liftPow]
    split
    · next heq => cases hpow.symm.trans heq
    · rw [quoted_cons, ih.1, ← quoted_cons]
      exact ⟨rfl, ih.2⟩

/-! ## Literals -/

lemma plain_liftCode (h : Plain cs) : Plain (liftCode cs) := by
  intro c hc
  rcases mem_append.mp (liftCode_subset cs hc) with hin | hput
  · exact h c hin
  · have hall : Plain putIn := by decide
    exact hall c hput

/-- Lifting loses nothing that is quoted; where the text ends inside a literal it still does. -/
lemma quoted_lifted (cs : List Char) :
    quoted .code ((segments (liftPow .code none cs)).flatMap liftSegment) = quoted .code cs ∧
      code.over ((segments (liftPow .code none cs)).flatMap liftSegment) = code.over cs := by
  obtain ⟨hquoted, hover⟩ := quoted_liftPow .code none cs
  rw [← hquoted, ← hover]
  exact (cut_segments _).quoted_flatMap (fun _ => rfl) fun _ => plain_liftCode

lemma quoted_liftExpr (e : List Char) : quoted .code (liftExpr e).toList = quoted .code (trim e) := by
  obtain ⟨hquoted, hover⟩ := quoted_lifted (trim e)
  obtain ⟨hstart, hoverStart⟩ := quoted_trimStart ((segments (liftPow .code none (trim e))).flatMap liftSegment)
  rw [liftExpr, String.toList_ofList, trim, ← hquoted, ← hstart]
  by_cases hcode : code.over (trim e) = .code
  · exact (quoted_trimEnd (hoverStart.trans (hover.trans hcode))).1
  · -- the text ends inside a literal, and its last character is that of the expression, which is no blank
    rw [trimEnd_eq_self]
    intro c hc
    refine isBlank_of_getLast?_trimEnd (c := c) (?_ : (trim e).getLast? = some c)
    have hlast := getLast?_quoted (hoverStart.trans hover ▸ hcode)
    rw [← getLast?_quoted hcode, ← hquoted, ← hstart, hlast]
    exact hc

/-! ## Operators -/

/-- A text that begins and ends apart from an operator, and does not hold it. -/
def Separates (op new : List Char) : Prop :=
  (∀ c ∈ new.head?, c ∉ op) ∧ (∀ c ∈ new.getLast?, c ∉ op) ∧ new ≠ [] ∧ ¬ op <:+: new

instance (op new : List Char) : Decidable (Separates op new) :=
  have (c : Option Char) : Decidable (∀ d ∈ c, d ∉ op) := c.decidableForallMem
  inferInstanceAs (Decidable (_ ∧ _))

section

variable {find : Finder} {op : List Char}
  (hnew : ∀ behind cs f, find behind cs = some f → Separates op f.instead)
variable {cs : List Char}
include hnew

/-- What stands first afterwards stood there before, as far as it is part of an operator. -/
lemma prefix_of_prefix_substituteFrom {w : List Char} (hw : w ⊆ op) {behind : List Char}
    (h : w <+: substituteFrom find behind 0 cs) : w <+: cs := by
  induction cs generalizing w behind with
  | nil => exact h
  | cons c cs ih =>
    cases w with
    | nil => exact nil_prefix
    | cons d w =>
      obtain ⟨hd, hw⟩ := cons_subset.mp hw
      rw [substituteFrom] at h
      cases hfind : find behind (c :: cs) with
      | none =>
        rw [hfind] at h
        obtain ⟨rfl, hrest⟩ := cons_prefix_cons.mp h
        exact cons_prefix_cons.mpr ⟨rfl, ih hw hrest⟩
      | some f =>
        rw [hfind] at h
        obtain ⟨hhead, -, hne, -⟩ := hnew _ _ f hfind
        obtain ⟨e, instead, heq⟩ := exists_cons_of_ne_nil hne
        dsimp only at h
        rw [heq] at h hhead
        obtain ⟨rfl, -⟩ := cons_prefix_cons.mp h
        exact absurd hd (hhead d rfl)

/-- An operator is not there afterwards if none is passed over. -/
lemma not_infix_substituteFrom (hnone : ∀ behind ds, ds <:+ cs → find behind ds = none → ¬ op <+: ds)
    (hop : op ≠ []) (behind : List Char) (skip : Nat) : ¬ op <:+: substituteFrom find behind skip cs := by
  induction cs generalizing behind skip with
  | nil =>
    exact fun h => hop (infix_nil.mp h)
  | cons c cs ih =>
    have hrest := ih fun behind ds hds => hnone behind ds (hds.trans (suffix_cons c cs))
    cases skip with
    | succ n => exact hrest _ n
    | zero =>
      rw [substituteFrom]
      cases hfind : find behind (c :: cs) with
      | none =>
        intro h
        rcases infix_cons_iff.mp h with h | h
        · have hout : op <+: substituteFrom find behind 0 (c :: cs) := by
            rw [substituteFrom, hfind]
            exact h
          exact hnone behind _ (suffix_refl _) hfind (prefix_of_prefix_substituteFrom hnew (Subset.refl _) hout)
        · exact hrest _ 0 h
      | some f =>
        intro h
        obtain ⟨-, hlast, hne, hfree⟩ := hnew _ _ f hfind
        rcases infix_append_iff.mp h with h | h | ⟨x, y, heq, hx, hy⟩
        · exact hfree h
        · exact hrest _ _ h
        · rcases eq_nil_or_concat x with rfl | ⟨front, d, hconcat⟩
          · rw [nil_append] at heq
            exact hrest _ _ (heq ▸ hy.isInfix)
          · -- the last character put in would belong to the operator
            rw [concat_eq_append] at hconcat
            obtain ⟨before, hbefore⟩ := hx
            rw [← hbefore, hconcat, ← append_assoc] at hlast
            exact hlast d (by simp) (by simp [heq, hconcat])

lemma not_infix_substitute (hop : op ≠ [])
    (hnone : ∀ behind ds, ds <:+ cs → find behind ds = none → ¬ op <+: ds) : ¬ op <:+: substitute find cs :=
  not_infix_substituteFrom hnew hnone hop [] 0

lemma not_infix_substitute_of_free (hop : op ≠ []) (h : ¬ op <:+: cs) : ¬ op <:+: substitute find cs :=
  not_infix_substitute hnew hop fun _ _ hds _ hfront => h (hfront.isInfix.trans hds.isInfix)

end

section

variable {r op : Respelling} (hr : r ∈ respellings) (hop : op ∈ respellings)
include hop

lemma ne_nil_of_mem_respellings : op.1 ≠ [] := by
  have hall : ∀ op ∈ respellings, op.1 ≠ [] := by decide
  exact hall op hop

include hr

lemma separates_text (behind cs : List Char) (f : Found)
    (h : Finder.text r.1 (' ' :: (r.2 ++ [' '])) behind cs = some f) : Separates op.1 f.instead := by
  have hall : ∀ r ∈ respellings, ∀ op ∈ respellings, Separates op.1 (' ' :: (r.2 ++ [' '])) := by decide
  rw [Finder.text] at h
  split at h
  · rw [instead_of_ofLength h]
    exact hall r hr op hop
  · cases h

end

section

variable (hop : op ∈ respellings)
include hop

lemma not_infix_text (cs : List Char) : ¬ op.1 <:+: op.text cs := by
  have hne := ne_nil_of_mem_respellings hop
  refine not_infix_substitute (separates_text hop hop) hne fun behind ds _ hnone hfront => ?_
  rw [Finder.text, if_pos (List.isPrefixOf_iff_prefix.mpr hfront)] at hnone
  obtain ⟨c, rest, heq⟩ := exists_cons_of_ne_nil hne
  rw [heq] at hnone
  cases hnone

lemma not_infix_foldl_text {rs : List Respelling} (hrs : rs ⊆ respellings)
    (h : ¬ op.1 <:+: cs) : ¬ op.1 <:+: rs.foldl (fun cs r => r.text cs) cs := by
  induction rs generalizing cs with
  | nil => exact h
  | cons r rs ih =>
    obtain ⟨hr, hrs⟩ := cons_subset.mp hrs
    exact ih hrs (not_infix_substitute_of_free (separates_text hr hop) (ne_nil_of_mem_respellings hop) h)

lemma not_infix_respell (cs : List Char) : ¬ op.1 <:+: respell cs := by
  obtain ⟨before, after, heq⟩ := append_of_mem hop
  have hafter : after ⊆ respellings := by
    rw [heq]
    exact subset_append_of_subset_right _ (subset_cons_self _ _)
  rw [respell_eq_foldl, heq, foldl_append, foldl_cons]
  exact not_infix_foldl_text hop hafter (not_infix_text hop _)

lemma not_infix_liftCode (cs : List Char) : ¬ op.1 <:+: liftCode cs := by
  have hne := ne_nil_of_mem_respellings hop
  have hseparates : ∀ new ∈ [[' '], [')'], ['(']], Separates op.1 new := by
    have hall : ∀ op ∈ respellings, ∀ new ∈ [[' '], [')'], ['(']], Separates op.1 new := by decide
    exact hall op hop
  have hfound {n : Nat} {new : List Char} {f : Found} (hnew : new ∈ [[' '], [')'], ['(']])
      (hf : Found.ofLength n new = some f) : Separates op.1 f.instead := by
    rw [instead_of_ofLength hf]
    exact hseparates new hnew
  refine not_infix_substitute_of_free (fun behind ds f hf => ?_) hne
    (not_infix_substitute_of_free (fun behind ds f hf => ?_) hne
      (not_infix_substitute_of_free (fun behind ds f hf => ?_) hne (not_infix_respell hop _)))
  · unfold blanksAfterOpening at hf
    split at hf
    · split at hf
      · exact hfound (by decide) hf
      · cases hf
    · cases hf
  · unfold blanksBeforeClosing at hf
    split at hf
    · exact hfound (by decide) hf
    · cases hf
  · exact hfound (by decide) hf

end

/-- **Literals and operators of a lifted expression.**  The literals of an expression, in order, are those of the
expression in C, and the code between them holds none of the operators that are spelled in another way. -/
theorem literals_liftExpr (e : List Char) :
    (segments (liftExpr e).toList).filterMap Segment.literal? = (segments (trim e)).filterMap Segment.literal? ∧
      ∀ cs, .code cs ∈ segments (liftExpr e).toList →
        ∀ op ∈ ["==", "!=", "&&", "||", "!", "%"], ¬ op.toList <:+: cs := by
  refine ⟨by rw [literals_segments, literals_segments, quoted_liftExpr], ?_⟩
  intro cs hcs op hop hin
  obtain ⟨r, hr, heq⟩ : ∃ r ∈ respellings, r.1 = op.toList := by
    have hall : ∀ op ∈ ["==", "!=", "&&", "||", "!", "%"], ∃ r ∈ respellings, r.1 = op.toList := by decide
    exact hall op hop
  rw [← heq] at hin
  -- the operator stands in the code of the lifted text before blanks were cut off, and so in lifted code
  have hmarked : r.1.map (·, .code) <:+: marked ((segments (liftPow .code none (trim e))).flatMap liftSegment) := by
    refine ((hin.map _).trans ((cut_segments _).infix_marked hcs)).trans ?_
    rw [liftExpr, String.toList_ofList]
    exact marked_trim_infix _
  obtain ⟨ds, -, hds⟩ := (cut_segments _).exists_infix_cut (fun _ => rfl) (fun _ => plain_liftCode)
    (ne_nil_of_mem_respellings hr) hmarked
  exact not_infix_liftCode hr ds hds

end AlgoLang.Lift
