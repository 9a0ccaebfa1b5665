/-
# The text of a lifted expression

An expression of the grammar holds no call of `pow`, no literal in quotes, no cast and no fraction.  What the
other passes make of it are its tokens again, each as the algorithmic language writes it.
-/
import AlgoLang.Proofs.CSource.Quoted
import AlgoLang.Proofs.Lift.Passes

namespace AlgoLang.Lift

open CToken Text CSource List Token
open Bool (and_eq_true)
open String (ofList toList_ofList)

variable {ts : List (List Char)} {t : List Char} {w : String}
variable {c : Char} {cs : List Char}

/-! ## Casts -/

section

variable {c : Char} {cs : List Char}

lemma words_gap {gap} (hgap : allBlank gap) : words (gap ++ cs) = words cs := by
  induction gap with
  | nil => rfl
  | cons c gap ih =>
    simp only [allBlank, all_cons, and_eq_true] at hgap
    rw [cons_append, ← ih hgap.2]
    simp [words, hgap.1]

lemma head?_words (h : isBlank c = false) :
    (words (c :: cs)).head? = some (c :: cs.takeWhile fun d => !isBlank d) := by
  have hfirst : ∀ cs : List Char, (cs.foldr (fun c (acc : List Char × List (List Char)) =>
        if isBlank c then ([], if acc.1.isEmpty then acc.2 else acc.1 :: acc.2) else (c :: acc.1, acc.2))
      ([], [])).1 = cs.takeWhile fun d => !isBlank d := by
    intro cs
    induction cs with
    | nil => rfl
    | cons d cs ih =>
      rw [foldr_cons]
      by_cases hd : isBlank d
      · rw [if_pos hd, takeWhile_cons_of_neg (by simp [hd])]
      · rw [if_neg hd, takeWhile_cons_of_pos (by simpa using hd), ih]
  simp only [words, foldr_cons, h, Bool.false_eq_true, if_false, isEmpty_cons, head?_cons, hfirst]

end

lemma mem_castWords_of_isCast {ws} (h : isCast ws) (hw : ws.head? = some w) : w ∈ castWords := by
  unfold isCast at h
  split at h
  · next last hlast =>
    simp only [and_eq_true, contains_iff_mem, all_eq_true] at h
    have hmem : w ∈ ws.dropLast ++ [last] := by
      rw [dropLast_append_getLast? last hlast]
      exact mem_of_head? hw
    rcases mem_append.mp hmem with hmem | hmem
    · exact mem_append_right _ (h.2 w hmem)
    · rw [mem_singleton.mp hmem]
      exact mem_append_left _ h.1
  · cases h

lemma isNameChar_of_mem_castWords (h : ofList t ∈ castWords) : t.all isNameChar := by
  have hall : ∀ w ∈ castWords, w.toList.all isNameChar := by decide
  have := hall _ h
  rwa [toList_ofList] at this

lemma castFinder_of_ne (h : c ≠ '(') (behind cs : List Char) : castFinder behind (c :: cs) = none := by
  rw [castFinder]
  rintro r ⟨⟩
  exact h rfl

lemma castFinder_ahead : castFinder.Ahead := fun _ _ => rfl

/-- The first word behind a parenthesis is a piece or more, so it is none of a cast. -/
lemma isCast_eq_false {rest} (ht : IsPiece t) (hfits : Fits t rest)
    (hcast : ofList t ∉ castWords) : isCast ((words (t ++ rest.takeWhile (· != ')'))).map ofList) = false := by
  generalize hinside : rest.takeWhile (· != ')') = inside
  cases hbool : isCast ((words (t ++ inside)).map ofList) with
  | false => rfl
  | true =>
    exfalso
    -- The first word is the piece and what stands right behind it.
    have hhead : (words (t ++ inside)).head? = some (t ++ inside.takeWhile fun d => !isBlank d) := by
      cases t with
      | nil => exact absurd rfl ht.ne_nil
      | cons c t =>
        have hplain : ∀ d ∈ t, (!isBlank d) := fun d hd => by
          simp [isBlank_of_mem ht (mem_cons_of_mem c hd)]
        rw [cons_append, head?_words (isBlank_of_mem ht mem_cons_self), takeWhile_append_of_pos hplain, cons_append]
    have hword : ofList (t ++ inside.takeWhile fun d => !isBlank d) ∈ castWords := by
      refine mem_castWords_of_isCast hbool ?_
      rw [head?_map, hhead]
      rfl
    have hname := isNameChar_of_mem_castWords hword
    rw [all_append, and_eq_true] at hname
    -- Nothing stands right behind it: a letter there would belong to the piece.
    cases inside with
    | nil => exact hcast (by simpa using hword)
    | cons d inside =>
      by_cases hblank : isBlank d
      · rw [takeWhile_cons_of_neg (by simp [hblank]), append_nil] at hword
        exact hcast hword
      · have hd : isNameChar d := by
          have := hname.2
          rw [takeWhile_cons_of_pos (by simpa using hblank), all_cons, and_eq_true] at this
          exact this.1
        have hprefix : (d :: inside) <+: rest := hinside ▸ takeWhile_prefix _
        obtain ⟨more, rfl⟩ := hprefix
        have hjoins := hfits d rfl
        rw [joins_of_all_isNameChar hname.1, isWordChar_of_isNameChar hd] at hjoins
        cases hjoins

lemma Laid.castFinder_eq_none (h : Laid isBlank ts cs) (hts : ∀ t ∈ ts, IsPiece t)
    (hcast : ∀ t ∈ ts, ofList t ∉ castWords) : castFinder [] ('(' :: cs) = none := by
  rw [castFinder]
  split
  · next after hafter =>
    rw [if_neg]
    rw [Bool.not_eq_true]
    cases h with
    | done hgap =>
      have hmem : ')' ∈ cs := (dropWhile_suffix _).subset (by rw [hafter]; exact mem_cons_self)
      exact absurd (all_eq_true.mp hgap _ hmem) (by decide)
    | @piece gap t rest ts hgap hfits hrest =>
      have ht := hts t mem_cons_self
      have hopen : ∀ d ∈ gap, (d != ')') := fun d hd =>
        bne_iff_ne.mpr (ne_of_class (all_eq_true.mp hgap d hd) (by decide))
      rw [takeWhile_append_of_pos hopen, words_gap hgap]
      by_cases hclosing : ')' ∈ t
      · obtain rfl := ht.eq_of_mem hclosing (by simp)
        rfl
      · have hstay : ∀ d ∈ t, (d != ')') := fun d hd => bne_iff_ne.mpr fun heq => hclosing (heq ▸ hd)
        rw [takeWhile_append_of_pos hstay]
        exact isCast_eq_false ht hfits (hcast t mem_cons_self)
  · rfl

lemma Laid.substitute_castFinder (h : Laid isBlank ts cs) (hts : ∀ t ∈ ts, IsPiece t)
    (hcast : ∀ t ∈ ts, ofList t ∉ castWords) : substitute castFinder cs = cs := by
  have hne : ∀ {gap : List Char}, allBlank gap → ∀ c ∈ gap, ∀ cs, castFinder [] (c :: cs) = none := by
    intro gap hgap c hc
    exact castFinder_of_ne (ne_of_class (all_eq_true.mp hgap c hc) (by decide)) []
  induction h with
  | done hgap => exact substitute_of_chars castFinder_ahead (hne hgap)
  | @piece gap t rest ts hgap hfits hrest ih =>
    have hts' : ∀ u ∈ ts, IsPiece u := fun u hu => hts u (mem_cons_of_mem t hu)
    have hcast' : ∀ u ∈ ts, ofList u ∉ castWords := fun u hu => hcast u (mem_cons_of_mem t hu)
    rw [substitute_append_of_chars castFinder_ahead (hne hgap)]
    by_cases hopening : '(' ∈ t
    · obtain rfl := (hts t mem_cons_self).eq_of_mem hopening (by simp)
      rw [singleton_append, substitute_of_find_none castFinder_ahead (hrest.castFinder_eq_none hts' hcast'),
        ih hts' hcast']
    · rw [substitute_append_of_chars castFinder_ahead fun c hc => castFinder_of_ne
        (fun heq => hopening (heq ▸ hc)) [], ih hts' hcast']

/-! ## Fractions and literals -/

section

variable {cs : List Char}

lemma dropWhile_ne_dot (h : '.' ∉ cs) (rest : List Char) : cs.dropWhile isDecimal ≠ '.' :: rest := by
  intro heq
  have hsuffix : ('.' :: rest) <:+ cs := heq ▸ dropWhile_suffix isDecimal
  exact h (hsuffix.subset mem_cons_self)

lemma floatSuffixFinder_eq_none (h : '.' ∉ cs) (behind : List Char) : floatSuffixFinder behind cs = none := by
  rw [floatSuffixFinder]
  split
  · next hdot => exact absurd hdot (dropWhile_ne_dot h _)
  · rfl

lemma trailingDotFinder_eq_none (h : '.' ∉ cs) (behind : List Char) : trailingDotFinder behind cs = none := by
  rw [trailingDotFinder]
  split
  · next hdot => exact absurd hdot (dropWhile_ne_dot h _)
  · rfl

lemma segments_eq_of_no_quote (h : Plain cs) (hne : cs ≠ []) : segments cs = [.code cs] := by
  have hfold : ∀ cs : List Char, cs ≠ [] →
      (cs.map fun c => (c, .code)).foldr Segment.prepend ([], []) = ([], [.code cs]) := by
    intro cs hne
    induction cs with
    | nil => exact absurd rfl hne
    | cons c cs ih =>
      cases cs with
      | nil => rfl
      | cons d cs =>
        rw [map_cons, foldr_cons, ih (by simp)]
        rfl
  rw [segments, marked, markedFrom_plain h, hfold cs hne]

lemma flatMap_liftSegment (h : Plain cs) : (segments cs).flatMap liftSegment = liftCode cs := by
  cases cs with
  | nil => rfl
  | cons c cs =>
    rw [segments_eq_of_no_quote h (by simp), flatMap_singleton]
    rfl

end

lemma isQuote_of_isPlain (h : isPlain c) : isQuote c = false := by
  simp only [isPlain, and_eq_true, Bool.not_eq_true'] at h
  exact h.1.2

lemma Laid.no_quote (h : Laid isBlank ts cs) (hts : ∀ t ∈ ts, IsPiece t) : Plain cs := by
  intro c hc
  rcases h.char hc with hblank | ⟨t, ht, hct⟩
  · exact isQuote_of_isBlank hblank
  · exact isQuote_of_isPlain ((hts t ht).isPlain hct)

lemma Laid.no_dot (h : Laid isBlank ts cs) (hts : ∀ t ∈ ts, IsPiece t) : '.' ∉ cs := by
  intro hc
  rcases h.char hc with hblank | ⟨t, ht, hct⟩
  · exact absurd hblank (by decide)
  · exact absurd ((hts t ht).isPlain hct) (by decide)

/-! ## Powers -/

/-- No opening parenthesis follows the name `pow`. -/
def NoPowCall (ts : List (List Char)) : Prop :=
  ts.IsChain fun t u => ¬(t = ['p', 'o', 'w'] ∧ u = ['('])

lemma liftPow_cons {before} (hquote : isQuote c = false) (h : powHere? .code before (c :: cs) = none) :
    liftPow .code before (c :: cs) = c :: liftPow .code (some c) cs := by
  rw [liftPow]
  split
  · next hpow =>
    rw [h] at hpow
    cases hpow
  · rw [Mode.next, if_neg (by simp [hquote])]

lemma powCall?_of_ne (h : c ≠ 'p') (cs : List Char) : powCall? (c :: cs) = none := by
  have hne : ('p' == c) = false := beq_eq_false_iff_ne.mpr (.symm h)
  rw [powCall?, if_neg]
  show ¬(('p' == c) && _)
  simp [hne]

/-- Within a word, or where there is no `p`, no call of `pow` begins. -/
lemma liftPow_append (hquote : Plain t) (rest : List Char) : ∀ before : Option Char,
      (∀ c ∈ t, c ≠ 'p') ∨ before.any isWordChar ∧ t.all isNameChar →
      ∃ before', liftPow .code before (t ++ rest) = t ++ liftPow .code before' rest := by
  induction t with
  | nil => exact fun before _ => ⟨before, rfl⟩
  | cons c t ih =>
    intro before h
    have hnone : powHere? .code before (c :: (t ++ rest)) = none := by
      rcases h with hne | ⟨hbefore, -⟩
      · rw [powHere?, powCall?_of_ne (hne c mem_cons_self), ite_self]
      · rw [powHere?, if_neg (by simp [hbefore])]
    have hnext : (∀ d ∈ t, d ≠ 'p') ∨ (some c).any isWordChar ∧ t.all isNameChar := by
      rcases h with hne | ⟨-, hname⟩
      · exact .inl fun d hd => hne d (mem_cons_of_mem c hd)
      · rw [all_cons, and_eq_true] at hname
        exact .inr ⟨isWordChar_of_isNameChar hname.1, hname.2⟩
    obtain ⟨before', heq⟩ := ih (fun d hd => hquote d (mem_cons_of_mem c hd)) (some c) hnext
    refine ⟨before', ?_⟩
    rw [cons_append, liftPow_cons (hquote c mem_cons_self) hnone, heq, cons_append]

/-- The name `pow` is called only if an opening parenthesis is the next piece. -/
lemma powCall?_word {rest} (ht : isWordPiece t)
    (hfits : Fits t rest) (hrest : Laid isBlank ts rest) (hts : ∀ u ∈ ts, IsPiece u)
    (hpow : NoPowCall (t :: ts)) : powCall? (t ++ rest) = none := by
  have hname := all_isNameChar_of_isWordPiece ht
  rw [powCall?]
  split
  · next hprefix =>
    -- The three letters lie within the word, for no letter stands behind it.
    have hin : ['p', 'o', 'w'] <+: t := by
      rw [List.isPrefixOf_iff_prefix] at hprefix
      rcases prefix_or_prefix_of_prefix hprefix (prefix_append t rest) with hin | ⟨more, hmore⟩
      · exact hin
      · rw [← hmore] at hprefix
        cases more with
        | nil =>
          rw [append_nil] at hmore
          exact hmore ▸ prefix_refl _
        | cons d more =>
          obtain ⟨after, rfl⟩ := (prefix_append_right_inj _).mp hprefix
          have hd : d ∈ "pow".toList := hmore ▸ by simp
          have hword : "pow".toList.all isWordChar := by decide
          have hjoins := hfits d rfl
          rw [joins_of_all_isNameChar hname, all_eq_true.mp hword d hd] at hjoins
          cases hjoins
    obtain ⟨t', rfl⟩ := hin
    have hdrop : (['p', 'o', 'w'] ++ t' ++ rest).drop 3 = t' ++ rest := rfl
    rw [hdrop]
    split
    · next rest' hopening =>
      exfalso
      cases t' with
      | cons d t' =>
        have hd : isNameChar d := all_eq_true.mp hname d (by simp)
        have hplain := isBlank_of_isPlain (isPlain_of_isNameChar hd)
        rw [trimStart, cons_append, dropWhile_cons_of_neg (by simp [hplain])] at hopening
        rw [(List.cons.inj hopening).1] at hd
        exact absurd hd (by decide)
      | nil =>
        rw [nil_append] at hopening
        cases hrest with
        | done hgap =>
          rw [trimStart_of_allBlank hgap] at hopening
          cases hopening
        | @piece gap u after us hgap _ _ =>
          have hu := hts u mem_cons_self
          rw [trimStart_gap hgap hu] at hopening
          have hmem : '(' ∈ u := by
            cases u with
            | nil => exact absurd rfl hu.ne_nil
            | cons d u =>
              rw [(List.cons.inj hopening).1]
              exact mem_cons_self
          exact (isChain_cons_cons.mp hpow).1 ⟨rfl, hu.eq_of_mem hmem (by simp)⟩
    · rfl
  · rfl

lemma Laid.liftPow_eq (h : Laid isBlank ts cs) (hts : ∀ t ∈ ts, IsPiece t) (hpow : NoPowCall ts)
    (before : Option Char) : liftPow .code before cs = cs := by
  have hgaps : ∀ {gap : List Char}, allBlank gap → ∀ (rest : List Char) (before : Option Char),
      ∃ before', liftPow .code before (gap ++ rest) = gap ++ liftPow .code before' rest := by
    intro gap hgap rest before
    have hall := all_eq_true.mp hgap
    exact liftPow_append (fun c hc => isQuote_of_isBlank (hall c hc)) rest before
      (.inl fun c hc => ne_of_class (hall c hc) (by decide))
  induction h generalizing before with
  | @done gap hgap =>
    obtain ⟨before', heq⟩ := hgaps hgap [] before
    rwa [liftPow, append_nil] at heq
  | @piece gap t rest ts hgap hfits hrest ih =>
    have ht := hts t mem_cons_self
    have hts' : ∀ u ∈ ts, IsPiece u := fun u hu => hts u (mem_cons_of_mem t hu)
    have hquote : Plain t := fun c hc => isQuote_of_isPlain (ht.isPlain hc)
    obtain ⟨before₁, heq₁⟩ := hgaps hgap (t ++ rest) before
    have hpiece : ∃ before', liftPow .code before₁ (t ++ rest) = t ++ liftPow .code before' rest := by
      by_cases hword : isWordPiece t
      · have hcall := powCall?_word hword hfits hrest hts' hpow
        have hname := all_isNameChar_of_isWordPiece hword
        cases t with
        | nil => cases hword
        | cons c t =>
          have hnone : powHere? .code before₁ (c :: (t ++ rest)) = none := by
            rw [powHere?, ← cons_append, hcall, ite_self]
          rw [all_cons, and_eq_true] at hname
          obtain ⟨before', heq⟩ := liftPow_append (fun d hd => hquote d (mem_cons_of_mem c hd)) rest
            (some c) (.inr ⟨isWordChar_of_isNameChar hname.1, hname.2⟩)
          refine ⟨before', ?_⟩
          rw [cons_append, liftPow_cons (hquote c mem_cons_self) hnone, heq, cons_append]
      · refine liftPow_append hquote rest before₁ (.inl ?_)
        rintro c hc rfl
        exact absurd (ht.isWordStart_eq_false (by simpa using hword) hc) (by decide)
    obtain ⟨before₂, heq₂⟩ := hpiece
    rw [heq₁, heq₂, ih hts' (isChain_cons.mp hpow).2]

/-! ## The whole -/

lemma Laid.liftCode (h : Laid isBlank ts cs) (hts : ∀ t ∈ ts, IsPiece t) (hcast : ∀ t ∈ ts, ofList t ∉ castWords) :
    Laid isPlainBlank (ts.map fun t => respelledPiece respellings (liftWord t)) (liftCode cs) ∧
      ∀ t ∈ ts.map fun t => respelledPiece respellings (liftWord t), IsPiece t := by
  have hdot := h.no_dot hts
  have hwords := pieceWise_words.laid h hts
  have hrespelled := hwords.respelled (fun _ => proper_of_mem_respellings) fun u hu => by
    obtain ⟨t, ht, rfl⟩ := mem_map.mp hu
    exact ⟨(hts t ht).liftWord, (hts t ht).liftWord.isClearOf⟩
  rw [map_map] at hrespelled
  obtain ⟨hlaid, hpieces⟩ := hrespelled
  rw [← respell_eq_foldl] at hlaid
  have hsqueezed := pieceWise_squeeze.laid hlaid hpieces
  rw [map_id] at hsqueezed
  have hclosed := pieceWise_blanksBeforeClosing.laid hsqueezed hpieces
  rw [map_id] at hclosed
  have hfloat : substitute floatSuffixFinder cs = cs :=
    substituteFrom_eq_self [] fun behind u hu => floatSuffixFinder_eq_none (fun hmem => hdot (hu.subset hmem)) behind
  have htrailing : substitute trailingDotFinder cs = cs :=
    substituteFrom_eq_self [] fun behind u hu => trailingDotFinder_eq_none (fun hmem => hdot (hu.subset hmem)) behind
  rw [Lift.liftCode, h.substitute_castFinder hts hcast, hfloat, htrailing]
  exact ⟨(hclosed.blanksAfterOpening hpieces).1, hpieces⟩

lemma Laid.liftExpr (h : Laid isBlank ts cs)
    (hts : ∀ t ∈ ts, IsPiece t) (hcast : ∀ t ∈ ts, ofList t ∉ castWords) (hpow : NoPowCall ts) :
    Laid isPlainBlank (ts.map fun t => respelledPiece respellings (liftWord t)) (liftExpr cs).toList := by
  have htrim := h.trim (fun _ hc => hc) hts
  have hcode := htrim.liftCode hts hcast
  rw [Lift.liftExpr, toList_ofList, htrim.liftPow_eq hts hpow, flatMap_liftSegment (htrim.no_quote hts)]
  exact hcode.1.trim isBlank_of_isPlainBlank hcode.2

/-! ## The tokens of an expression -/

/-- What holds of the tokens of an expression: a word is a name or a truth value, and a number has
digits. -/
def CToken.IsProper : CToken → Prop
  | .word w => isName w = true ∨ w ∈ ["true", "false"]
  | .number ds => ds ≠ "" ∧ ds.toList.all Char.isDigit = true
  | .sign _ => True

/-- What holds of the list of them: `pow` is not called. -/
structure Regular (ts : List CToken) : Prop where
  proper : ∀ t ∈ ts, t.IsProper
  calls : NoPowCall (ts.map CToken.text)

namespace Regular

lemma nil : Regular [] where
  proper := by simp
  calls := .nil

lemma cons {t ts} (ht : t.IsProper) (hpow : t.text ≠ ['p', 'o', 'w']) (h : Regular ts) : Regular (t :: ts) where
  proper := forall_mem_cons.mpr ⟨ht, h.proper⟩
  calls := isChain_cons.mpr ⟨fun _ _ hcall => hpow hcall.1, h.calls⟩

lemma sign (s : Sign) {ts} (h : Regular ts) : Regular (.sign s :: ts) :=
  h.cons trivial (by cases s <;> decide)

/-- Two lists with a sign between them that is no opening parenthesis. -/
lemma append {s} (hs : s ≠ .lparen) {ts us} (h : Regular ts) (h' : Regular us) : Regular (ts ++ .sign s :: us) where
  proper := forall_mem_append.mpr ⟨h.proper, (h'.sign s).proper⟩
  calls := by
    rw [map_append]
    refine isChain_append.mpr ⟨h.calls, (h'.sign s).calls, ?_⟩
    rintro t - u ⟨⟩ ⟨-, hopen⟩
    cases s <;> first | exact hs rfl | exact absurd hopen (by decide)

lemma one {t} (ht : t.IsProper) : Regular [t] where
  proper := by simpa using ht
  calls := .singleton t.text

end Regular

lemma ne_lparen_of_mem_operators {k : CLevel} {s : Sign} {op : BinaryOp} (h : (s, op) ∈ k.operators) :
    s ≠ .lparen := by
  rintro rfl
  cases k <;> simp [CLevel.operators] at h

mutual

lemma IsCExpr.regular {k ts e} : IsCExpr k ts e → Regular ts
  | .tighten _ h => h.regular
  | .binary _ hop h h' => h.regular.append (ne_lparen_of_mem_operators hop) h'.regular
  | .sign _ h => h.regular.sign _
  | .paren h => (h.regular.append (by simp) .nil).sign _
  | .number hne hdigits => .one ⟨hne, hdigits⟩
  | .yes => .one (.inr (by simp))
  | .no => .one (.inr (by simp))
  | .access h => h.regular

lemma IsCAccess.regular {ts e} : IsCAccess ts e → Regular ts
  | .name h => .one (.inl h)
  | .call h hpow h' => ((h'.regular.append (by simp) .nil).sign _).cons (.inl h) fun heq =>
    hpow (String.toList_inj.mp heq)
  | .index h h' => h.regular.append (by simp) (h'.regular.append (by simp) .nil)

lemma IsCArguments.regular {ts es} : IsCArguments ts es → Regular ts
  | .none => .nil
  | .some h => h.regular

lemma IsCExprs.regular {ts es} : IsCExprs ts es → Regular ts
  | .one h => h.regular
  | .more h h' => h.regular.append (by simp) h'.regular

end

lemma isName_cases (h : isName w) : isWordPiece w.toList ∧ w ∉ castWords ∧ truthWord? w = none := by
  simp only [isName, and_eq_true, Bool.not_eq_true', contains_eq_mem, decide_eq_false_iff_not,
    Option.isNone_iff_eq_none] at h
  exact ⟨h.1.1, h.1.2, h.2⟩

lemma CToken.IsProper.word_cases (h : (CToken.word w).IsProper) : isWordPiece w.toList ∧ w ∉ castWords := by
  rcases h with hname | htruth
  · exact ⟨(isName_cases hname).1, (isName_cases hname).2.1⟩
  · have hall : ∀ w ∈ ["true", "false"], isWordPiece w.toList ∧ w ∉ castWords := by decide
    exact hall w htruth

lemma CToken.IsProper.isPiece {t : CToken} (h : t.IsProper) : IsPiece t.text := by
  cases t with
  | word w => exact .word h.word_cases.1
  | number ds => exact .number (fun heq => h.1 (String.toList_eq_nil_iff.mp heq)) h.2
  | sign s =>
    refine .sign ?_
    cases s <;> decide

lemma CToken.IsProper.not_cast {t : CToken} (h : t.IsProper) : ofList t.text ∉ castWords := by
  cases t with
  | word w =>
    rw [text, String.ofList_toList]
    exact h.word_cases.2
  | number ds =>
    intro hcast
    have hall : ∀ w ∈ castWords, w.toList.any (fun c => !c.isDigit) := by decide
    have := hall _ hcast
    rw [toList_ofList, any_eq_true] at this
    obtain ⟨c, hc, hdigit⟩ := this
    rw [all_eq_true.mp h.2 c hc] at hdigit
    cases hdigit
  | sign s => cases s <;> decide

lemma CToken.IsProper.lifted_eq {t : CToken} (h : t.IsProper) :
    respelledPiece respellings (liftWord t.text) = t.lifted := by
  cases t with
  | word w =>
    have hword := h.word_cases.1
    have hname := all_isNameChar_of_isWordPiece (isWordPiece_liftWord hword)
    rw [text, (isClearOf_of_all_isNameChar hname fun _ => proper_of_mem_respellings).2, liftWord,
      if_pos hword, String.ofList_toList, lifted]
  | number ds =>
    have hnot : isWordPiece ds.toList ≠ true := by
      intro hword
      cases hds : ds.toList with
      | nil => rw [hds] at hword; cases hword
      | cons c cs =>
        rw [hds, isWordPiece, and_eq_true] at hword
        have hstart := isWordStart_of_isDigit (all_eq_true.mp h.2 c (by rw [hds]; exact mem_cons_self))
        simp [isWordStart, hword.1] at hstart
    have hname := all_isNameChar_of_isDigit h.2
    rw [text, liftWord, if_neg hnot, (isClearOf_of_all_isNameChar hname fun _ => proper_of_mem_respellings).2, lifted]
  | sign s => cases s <;> rfl

/-- The lifted text of an expression has its tokens, as the algorithmic language writes them. -/
lemma Regular.liftExpr {ts : List CToken} (h : Regular ts) (htext : Spells ts cs) :
    Laid isPlainBlank (ts.map lifted) (liftExpr cs).toList := by
  have hpieces : ∀ t ∈ ts.map text, IsPiece t := by
    intro t ht
    obtain ⟨c, hc, rfl⟩ := mem_map.mp ht
    exact (h.proper c hc).isPiece
  have hcast : ∀ t ∈ ts.map text, ofList t ∉ castWords := by
    intro t ht
    obtain ⟨c, hc, rfl⟩ := mem_map.mp ht
    exact (h.proper c hc).not_cast
  have hlaid := Laid.liftExpr htext hpieces hcast h.calls
  have hmap : (ts.map text).map (fun t => respelledPiece respellings (liftWord t)) = ts.map lifted := by
    rw [map_map]
    exact map_congr_left fun c hc => (h.proper c hc).lifted_eq
  rwa [hmap] at hlaid

end AlgoLang.Lift
