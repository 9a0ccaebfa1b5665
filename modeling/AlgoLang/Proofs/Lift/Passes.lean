/-
# What each pass makes of an expression

The passes that look for powers, quotes, casts and fractions find nothing in the expressions at hand.  The
others work piece by piece, and together they lift the tokens of an expression one by one.
-/
import AlgoLang.Proofs.Lift.Pieces

namespace AlgoLang.Text

open List

variable {new : List Char} {d : Char} {rs : List Respelling} {ts : List (List Char)}

/-! ## Substitution -/

section

variable {find : Finder} {c : Char} {cs t rest : List Char}

/-- A finder that only looks ahead. -/
def Finder.Ahead (find : Finder) : Prop :=
  ∀ behind cs, find behind cs = find [] cs

lemma substituteFrom_of_ahead (hfind : find.Ahead) (behind : List Char) (n : Nat) (cs : List Char) :
    substituteFrom find behind n cs = substitute find (cs.drop n) := by
  induction cs generalizing behind n with
  | nil => rw [drop_nil, substitute, substituteFrom, substituteFrom]
  | cons c cs ih =>
    cases n with
    | succ n => rw [substituteFrom, drop_succ_cons, ih]
    | zero =>
      rw [drop_zero, substitute, substituteFrom, substituteFrom, hfind]
      cases find [] (c :: cs) with
      | none => rw [ih, ih]
      | some f =>
        dsimp only
        rw [ih, ih]

lemma substitute_nil (find : Finder) : substitute find [] = [] := by
  rw [substitute, substituteFrom]

lemma substitute_of_some (hfind : find.Ahead) {f : Found} (h : find [] (c :: cs) = some f) :
    substitute find (c :: cs) = f.instead ++ substitute find (cs.drop f.more) := by
  rw [substitute, substituteFrom, h]
  dsimp only
  rw [substituteFrom_of_ahead hfind]

lemma substitute_of_find_none (hfind : find.Ahead) (h : find [] (c :: cs) = none) :
    substitute find (c :: cs) = c :: substitute find cs := by
  rw [substitute, substituteFrom, h]
  rw [substituteFrom_of_ahead hfind, drop_zero]

lemma instead_of_ofLength {n : Nat} {f : Found} (h : Found.ofLength n new = some f) : f.instead = new := by
  cases n with
  | zero => cases h
  | succ n => rw [← Option.some.inj h]

section

variable (hfind : find.Ahead)
include hfind

lemma head?_substitute {b : Char} (hnew : ∀ cs f, find [] cs = some f → f.instead.head? = some b)
    (h : (substitute find cs).head? = some d) : cs.head? = some d ∨ d = b := by
  cases cs with
  | nil => exact .inl h
  | cons c cs =>
    cases hfound : find [] (c :: cs) with
    | none =>
      rw [substitute_of_find_none hfind hfound] at h
      exact .inl h
    | some f =>
      rw [substitute_of_some hfind hfound, head?_append, hnew _ f hfound] at h
      exact .inr (Option.some.inj h).symm

/-- A stretch that is found gives way, and the search goes on behind it. -/
lemma substitute_stretch (ht : t ≠ []) (h : find [] (t ++ rest) = Found.ofLength t.length new) :
    substitute find (t ++ rest) = new ++ substitute find rest := by
  cases t with
  | nil => exact absurd rfl ht
  | cons c t =>
    rw [cons_append] at h ⊢
    rw [substitute_of_some hfind h]
    rw [drop_left]

lemma substitute_append (h : ∀ u, u ≠ [] → u <:+ t → find [] (u ++ rest) = none) :
    substitute find (t ++ rest) = t ++ substitute find rest := by
  induction t with
  | nil => rfl
  | cons c t ih =>
    have hhere : find [] (c :: (t ++ rest)) = none := h (c :: t) (by simp) (suffix_refl _)
    have hthere := ih fun u hu hsuffix => h u hu (hsuffix.trans (suffix_cons c t))
    rw [cons_append, substitute_of_find_none hfind hhere, hthere, cons_append]

variable (h : ∀ c ∈ t, ∀ cs, find [] (c :: cs) = none)
include h

lemma substitute_append_of_chars : substitute find (t ++ rest) = t ++ substitute find rest := by
  refine substitute_append hfind fun u hu hsuffix => ?_
  cases u with
  | nil => exact absurd rfl hu
  | cons c u => exact h c (hsuffix.subset mem_cons_self) (u ++ rest)

lemma substitute_of_chars : substitute find t = t := by
  rw [← append_nil t, substitute_append_of_chars hfind h, substitute_nil]

end

lemma substituteFrom_eq_self (behind : List Char)
    (h : ∀ behind u, u <:+ cs → find behind u = none) : substituteFrom find behind 0 cs = cs := by
  induction cs generalizing behind with
  | nil => rw [substituteFrom]
  | cons c cs ih =>
    rw [substituteFrom, h behind (c :: cs) (suffix_refl _)]
    rw [ih _ fun behind u hu => h behind u (hu.trans (suffix_cons c cs))]

end

end AlgoLang.Text

namespace AlgoLang.Lift

open Text CSource List

variable {c : Char} {t cs rest : List Char}

lemma PieceWise.ofFinder {find : Finder} (hfind : find.Ahead)
    (hblank : ∀ c, isBlank c → ∀ cs, find [] (c :: cs) = none) {P : List Char → Prop}
    {m : List Char → List Char} (hpiece : ∀ t rest, P t → Fits t rest → ∃ before after,
      before.all isBlank ∧ after.all isBlank ∧
        substitute find (t ++ rest) = before ++ (m t ++ (after ++ substitute find rest)) ∧
        Fits (m t) (after ++ substitute find rest)) : PieceWise isBlank isBlank P m (substitute find) where
  ending gap hgap := by
    rwa [substitute_of_chars hfind fun c hc => hblank c (all_eq_true.mp hgap c hc)]
  gap gap t rest hgap _ :=
    ⟨gap, hgap, substitute_append_of_chars hfind fun c hc => hblank c (all_eq_true.mp hgap c hc)⟩
  piece := hpiece

/-- The piece still fits if what is put in begins with a character that it does not join. -/
lemma Fits.substituted {find : Finder} (h : Fits t rest) (b : Char) (hfind : find.Ahead)
    (hnew : ∀ cs f, find [] cs = some f → f.instead.head? = some b) (hb : joins t b = false) :
    Fits t (substitute find rest) := by
  refine h.of_head? fun d hd => (head?_substitute hfind hnew hd).imp_right ?_
  rintro rfl
  exact hb

/-! ## Words -/

/-- A word as the algorithmic language spells it; other pieces stay. -/
def liftWord (t : List Char) : List Char :=
  if isWordPiece t then ((truthWord? (String.ofList t)).getD (safeName (String.ofList t))).toList else t

lemma isWordChar_of_isNameChar (h : Token.isNameChar c) : isWordChar c := by
  rw [isWordChar, if_pos (toNat_lt_of_isNameChar h)]
  exact h

lemma isNameChar_of_isWordStart (h : isWordStart c) : Token.isNameChar c := by
  rcases Bool.or_eq_true_iff.mp h with halpha | hline
  · exact isNameChar_of_isAlpha halpha
  · rw [beq_iff_eq.mp hline]
    rfl

/-- What words become: another word, or the same with an underscore behind it. -/
lemma respelled_cases (w : String) :
    (truthWord? w).getD (safeName w) = "TRUE" ∨ (truthWord? w).getD (safeName w) = "FALSE" ∨
      (truthWord? w).getD (safeName w) = w ∨ (truthWord? w).getD (safeName w) = w ++ "_" := by
  unfold truthWord? safeName
  split
  · exact .inl rfl
  · split
    · exact .inr (.inl rfl)
    · split
      · exact .inr (.inr (.inr rfl))
      · exact .inr (.inr (.inl rfl))

lemma isWordPiece_liftWord (h : isWordPiece t) : isWordPiece (liftWord t) := by
  rw [liftWord, if_pos h]
  rcases respelled_cases (.ofList t) with heq | heq | heq | heq
  · rw [heq]
    decide
  · rw [heq]
    decide
  · rw [heq, String.toList_ofList]
    exact h
  · rw [heq, String.toList_append, String.toList_ofList]
    cases t with
    | nil => cases h
    | cons c t =>
      simp only [isWordPiece, Bool.and_eq_true, cons_append, all_append] at h ⊢
      exact ⟨h.1, h.2, by decide⟩

lemma IsPiece.liftWord {t : List Char} (h : IsPiece t) : IsPiece (liftWord t) := by
  by_cases hword : isWordPiece t
  · exact .word (isWordPiece_liftWord hword)
  · rw [Lift.liftWord, if_neg hword]
    exact h

lemma wordFinder_ahead : wordFinder.Ahead := fun _ _ => rfl

lemma wordFinder_of_not_start (h : isWordStart c = false) : wordFinder [] (c :: cs) = none := by
  simp [wordFinder, takeWord?, h]

lemma joins_of_all_isNameChar (h : t.all Token.isNameChar) (c : Char) : joins t c = isWordChar c := by
  rw [joins, if_pos h]

lemma all_isWordChar_of_all_isNameChar (h : t.all Token.isNameChar) : t.all isWordChar :=
  all_eq_true.mpr fun c hc => isWordChar_of_isNameChar (all_eq_true.mp h c hc)

lemma Fits.stop {t rest : List Char} (h : Fits t rest) (ht : t.all Token.isNameChar) (c : Char)
    (hc : rest.head? = some c) : isWordChar c = false := by
  rw [← joins_of_all_isNameChar ht]
  exact h c hc

lemma wordFinder_word (ht : isWordPiece t) (hfits : Fits t rest) :
    wordFinder [] (t ++ rest) = Found.ofLength t.length (liftWord t) := by
  cases t with
  | nil => cases ht
  | cons c t =>
    have hname := all_isNameChar_of_isWordPiece ht
    have hstop := hfits.stop hname
    have hword := all_isWordChar_of_all_isNameChar hname
    rw [all_cons, Bool.and_eq_true] at hword
    simp only [isWordPiece, Bool.and_eq_true] at ht
    have hstart : isWordStart c := by simp [isWordStart, ht.1]
    simp only [wordFinder, takeWord?, cons_append, hstart, if_true, takeWhile_append_stop hword.2 hstop,
      dropWhile_append_stop hword.2 hstop, stretch, length_cons, length_append]
    rw [liftWord, if_pos (by simp [isWordPiece, ht]), Nat.add_right_comm, Nat.add_sub_cancel]

lemma isWordStart_of_isDigit (h : c.isDigit) : isWordStart c = false := by
  have hall : ∀ n < 128, (!(Char.ofNat n).isDigit || !isWordStart (Char.ofNat n)) := by decide +kernel
  have hc := forall_ascii (P := fun c => !c.isDigit || !isWordStart c) hall
    (toNat_lt_of_isNameChar (isNameChar_of_isDigit h))
  simpa [h] using hc

lemma IsPiece.isWordStart_eq_false (h : IsPiece t) (hword : isWordPiece t = false) (hc : c ∈ t) :
    isWordStart c = false := by
  cases h with
  | word h => exact absurd h (by simp [hword])
  | number _ h => exact isWordStart_of_isDigit (all_eq_true.mp h c hc)
  | sign h =>
    have hall : (signChars.all fun c => !isWordStart c) := by decide
    simpa using all_eq_true.mp hall c (mem_signChars_of_mem h hc)

lemma isWordStart_of_isBlank (h : isBlank c) : isWordStart c = false := by
  cases hstart : isWordStart c with
  | false => rfl
  | true =>
    have hplain := isPlain_of_isNameChar (isNameChar_of_isWordStart hstart)
    exact absurd h (by simp [isBlank_of_isPlain hplain])

lemma head?_substitute_wordFinder (h : (substitute wordFinder cs).head? = some d) :
    cs.head? = some d ∨ d ∈ ['T', 'F'] ∧ ∃ c, cs.head? = some c ∧ isWordChar c := by
  cases cs with
  | nil => exact .inl h
  | cons c cs =>
    by_cases hstart : isWordStart c
    · cases hfound : wordFinder [] (c :: cs) with
      | none =>
        rw [substitute_of_find_none wordFinder_ahead hfound] at h
        exact .inl h
      | some f =>
        rw [substitute_of_some wordFinder_ahead hfound] at h
        simp only [wordFinder, takeWord?, hstart, if_true] at hfound
        have hword := isWordChar_of_isNameChar (isNameChar_of_isWordStart hstart)
        rw [instead_of_ofLength hfound] at h
        rcases respelled_cases (.ofList (c :: cs.takeWhile isWordChar)) with heq | heq | heq | heq
        · rw [heq] at h
          exact .inr ⟨by rw [← Option.some.inj h]; decide, c, rfl, hword⟩
        · rw [heq] at h
          exact .inr ⟨by rw [← Option.some.inj h]; decide, c, rfl, hword⟩
        · rw [heq, String.toList_ofList] at h
          exact .inl h
        · rw [heq, String.toList_append, String.toList_ofList] at h
          exact .inl h
    · rw [substitute_of_find_none wordFinder_ahead (wordFinder_of_not_start (by simpa using hstart))] at h
      exact .inl h

lemma Fits.lifted_word {u : List Char} (ht : t.all Token.isNameChar)
    (hu : u.all Token.isNameChar) (h : Fits t rest) : Fits u (substitute wordFinder rest) := by
  intro d hd
  rw [joins_of_all_isNameChar hu]
  rcases head?_substitute_wordFinder hd with hhead | ⟨-, c, hc, hword⟩
  · rw [← joins_of_all_isNameChar ht]
    exact h d hhead
  · have := h c hc
    rw [joins_of_all_isNameChar ht, hword] at this
    cases this

lemma pieceWise_words : PieceWise isBlank isBlank IsPiece liftWord (substitute wordFinder) := by
  refine .ofFinder wordFinder_ahead (fun c hc cs => wordFinder_of_not_start (isWordStart_of_isBlank hc)) ?_
  intro t rest ht hfits
  refine ⟨[], [], rfl, rfl, ?_⟩
  by_cases hword : isWordPiece t
  · refine ⟨substitute_stretch wordFinder_ahead ht.ne_nil (wordFinder_word hword hfits), ?_⟩
    exact hfits.lifted_word (all_isNameChar_of_isWordPiece hword)
      (all_isNameChar_of_isWordPiece (isWordPiece_liftWord hword))
  · have hstay : liftWord t = t := by rw [liftWord, if_neg hword]
    rw [hstay]
    refine ⟨substitute_append_of_chars wordFinder_ahead fun c hc cs => ?_, ?_⟩
    · exact wordFinder_of_not_start (ht.isWordStart_eq_false (by simpa using hword) hc)
    · rcases ht.all_isNameChar_or_mem with hname | hsign
      · exact hfits.lifted_word hname hname
      · refine hfits.of_head? fun d hd => ?_
        rcases head?_substitute_wordFinder hd with hhead | ⟨hletter, -⟩
        · exact .inl hhead
        · have hall : (signPieces.all fun t => ['T', 'F'].all fun d => !joins t d) := by decide
          have hd := all_eq_true.mp (all_eq_true.mp hall t hsign) d hletter
          exact .inr (by simpa using hd)

/-! ## Operators -/

/-- Whether an occurrence of a text can begin within `u`, which is the end of the piece `t`: it may lie
within `u`, or go on into what stands behind it, if that can be there. -/
def touches (old t : List Char) : List Char → Bool
  | [] => false
  | c :: u =>
    old.isPrefixOf (c :: u) || (c :: u).isPrefixOf old && (old.drop (u.length + 1)).head?.any (fun d => !joins t d) ||
      touches old t u

lemma touches_eq_true_of_isPrefixOf {old : List Char} (hfits : Fits t rest) :
    ∀ {u v : List Char}, u ≠ [] → u <:+ v → old.isPrefixOf (u ++ rest) → touches old t v := by
  intro u v hu hsuffix hold
  induction v with
  | nil => exact absurd (suffix_nil.mp hsuffix) hu
  | cons c v ih =>
    rcases suffix_cons_iff.mp hsuffix with rfl | hsuffix
    · rw [List.isPrefixOf_iff_prefix] at hold
      rcases prefix_or_prefix_of_prefix hold (prefix_append (c :: v) rest) with hin | hout
      · simp [touches, isPrefixOf_iff_prefix.mpr hin]
      · obtain ⟨more, rfl⟩ := hout
        have hmore := (prefix_append_right_inj _).mp hold
        cases more with
        | nil => simp [touches]
        | cons d more =>
          obtain ⟨after, rfl⟩ := hmore
          simp [touches, hfits d rfl]
    · simp [touches, ih hsuffix]

/-- An operator and how it is respelled. -/
abbrev Respelling := List Char × List Char

/-- A piece after an operator was respelled. -/
def Respelling.piece (r : Respelling) (t : List Char) : List Char :=
  if t = r.1 then r.2 else t

def Respelling.text (r : Respelling) (cs : List Char) : List Char :=
  substitute (Finder.text r.1 (' ' :: (r.2 ++ [' ']))) cs

/-- What holds of the operators at hand: they are signs, and become pieces. -/
structure Respelling.Proper (r : Respelling) : Prop where
  sign : r.1 ∈ signPieces
  becomes : IsPiece r.2

/-- A piece is the operator or does not hold it. -/
def Respelling.isClear (r : Respelling) (t : List Char) : Bool :=
  t == r.1 || !touches r.1 t t

lemma text_ahead (old new : List Char) : (Finder.text old new).Ahead := fun _ _ => rfl

section

variable {r : Respelling}
variable {t : List Char}

lemma Respelling.Proper.first (hr : r.Proper) : ∃ c cs, r.1 = c :: cs ∧ c ∈ signChars := by
  cases hsign : r.1 with
  | nil => exact absurd hsign (IsPiece.sign hr.sign).ne_nil
  | cons c cs => exact ⟨c, cs, rfl, mem_signChars_of_mem hr.sign (by rw [hsign]; exact mem_cons_self)⟩

lemma Respelling.find_eq_none (hr : r.Proper) {c : Char} (hc : c ∉ signChars)
    (cs : List Char) : Finder.text r.1 new [] (c :: cs) = none := by
  obtain ⟨d, ds, heq, hd⟩ := hr.first
  have hne : (d == c) = false := beq_eq_false_iff_ne.mpr fun h => hc (h ▸ hd)
  simp [Finder.text, heq, isPrefixOf, hne]

variable (hr : r.Proper)
include hr

lemma pieceWise_respelling : PieceWise isBlank isBlank (fun t => IsPiece t ∧ r.isClear t) r.piece r.text := by
  refine .ofFinder (text_ahead _ _) (fun c hc => r.find_eq_none hr fun hsign => ?_) ?_
  · exact absurd hc (by simp [isBlank_of_isPlain (isPlain_of_mem_signChars hsign)])
  intro t rest ht hfits
  by_cases heq : t = r.1
  · subst heq
    refine ⟨[' '], [' '], rfl, rfl, ?_, fits_cons ?_⟩
    · have hfind : Finder.text r.1 (' ' :: (r.2 ++ [' '])) [] (r.1 ++ rest) =
          Found.ofLength r.1.length (' ' :: (r.2 ++ [' '])) := by
        simp [Finder.text]
      rw [substitute_stretch (text_ahead _ _) ht.1.ne_nil hfind]
      simp [Respelling.piece]
    · rw [Respelling.piece, if_pos rfl]
      exact hr.becomes.joins_eq_false (by decide) (by decide)
  · have hclear : touches r.1 t t = false := by simpa [Respelling.isClear, heq] using ht.2
    refine ⟨[], [], rfl, rfl, ?_, ?_⟩
    · rw [Respelling.piece, if_neg heq]
      refine substitute_append (text_ahead _ _) fun u hu hsuffix => ?_
      rw [Finder.text, if_neg]
      intro hold
      rw [touches_eq_true_of_isPrefixOf hfits hu hsuffix hold] at hclear
      cases hclear
    · rw [Respelling.piece, if_neg heq]
      refine hfits.substituted ' ' (text_ahead _ _) (fun cs f hfound => ?_) (ht.1.joins_eq_false (by decide) (by decide))
      rw [Finder.text] at hfound
      split at hfound
      · rw [instead_of_ofLength hfound]
        rfl
      · cases hfound

lemma Respelling.Proper.isPiece (ht : IsPiece t) : IsPiece (r.piece t) := by
  unfold Respelling.piece
  split
  · exact hr.becomes
  · exact ht

lemma touches_of_all_isNameChar {u : List Char} (hu : u.all Token.isNameChar) : touches r.1 t u = false := by
  obtain ⟨d, ds, heq, hd⟩ := hr.first
  induction u with
  | nil => rfl
  | cons c u ih =>
    simp only [all_cons, Bool.and_eq_true] at hu
    have hne : d ≠ c := (ne_of_class hu.1 (isNameChar_of_mem_signChars hd)).symm
    have hrest := ih hu.2
    rw [heq] at hrest ⊢
    simp [touches, hrest, isPrefixOf, beq_eq_false_iff_ne.mpr hne, beq_eq_false_iff_ne.mpr hne.symm]

lemma Respelling.piece_of_all_isNameChar (ht : t.all Token.isNameChar) : r.piece t = t := by
  rw [piece, if_neg]
  rintro rfl
  obtain ⟨d, ds, heq, hd⟩ := hr.first
  have := all_eq_true.mp ht d (by rw [heq]; exact mem_cons_self)
  rw [isNameChar_of_mem_signChars hd] at this
  cases this

end

/-- The operators that are respelled, in the order of the passes. -/
def respellings : List Respelling :=
  [(['=', '='], ['=']), (['!', '='], ['<', '>']), (['&', '&'], ['A', 'N', 'D']), (['|', '|'], ['O', 'R']),
   (['!'], ['N', 'O', 'T']), (['%'], ['M', 'O', 'D'])]

/-- A piece after all of several passes. -/
def respelledPiece (rs : List Respelling) (t : List Char) : List Char :=
  rs.foldl (fun t r => r.piece t) t

/-- At every pass the piece is the operator or does not hold it. -/
def isClearOf : List Respelling → List Char → Bool
  | [], _ => true
  | r :: rs, t => r.isClear t && isClearOf rs (r.piece t)

lemma respell_eq_foldl (cs : List Char) : respell cs = respellings.foldl (fun cs r => r.text cs) cs :=
  rfl

lemma proper_of_mem_respellings {r : Respelling} (hr : r ∈ respellings) : r.Proper := by
  have hsign : ∀ r ∈ respellings, r.1 ∈ signPieces := by decide
  have hbecomes : ∀ r ∈ respellings, isWordPiece r.2 ∨ r.2 ∈ signPieces := by decide
  exact ⟨hsign r hr, (hbecomes r hr).elim .word .sign⟩

lemma isClearOf_of_all_isNameChar (ht : t.all Token.isNameChar)
    (hrs : ∀ r ∈ rs, r.Proper) : isClearOf rs t ∧ respelledPiece rs t = t := by
  induction rs with
  | nil => exact ⟨rfl, rfl⟩
  | cons r rs ih =>
    have hr := hrs r mem_cons_self
    have hrest := ih fun r' hr' => hrs r' (mem_cons_of_mem r hr')
    have hpiece := r.piece_of_all_isNameChar hr ht
    have hclear : r.isClear t := by simp [Respelling.isClear, touches_of_all_isNameChar hr ht]
    constructor
    · rw [isClearOf, hclear, hpiece, hrest.1]
      rfl
    · rw [respelledPiece, foldl_cons, hpiece]
      exact hrest.2

lemma IsPiece.isClearOf {t : List Char} (h : IsPiece t) : isClearOf respellings t := by
  rcases h.all_isNameChar_or_mem with hname | hsign
  · exact (isClearOf_of_all_isNameChar hname fun _ => proper_of_mem_respellings).1
  · have hall : ∀ t ∈ signPieces, Lift.isClearOf respellings t := by decide
    exact hall t hsign

lemma Laid.respelled (hrs : ∀ r ∈ rs, r.Proper)
    (h : Laid isBlank ts cs) (hts : ∀ t ∈ ts, IsPiece t ∧ isClearOf rs t) :
    Laid isBlank (ts.map (respelledPiece rs)) (rs.foldl (fun cs r => r.text cs) cs) ∧
      ∀ t ∈ ts.map (respelledPiece rs), IsPiece t := by
  induction rs generalizing ts cs with
  | nil =>
    have hid : ts.map (respelledPiece []) = ts := map_id ts
    rw [hid]
    exact ⟨h, fun t ht => (hts t ht).1⟩
  | cons r rs ih =>
    have hr := hrs r mem_cons_self
    simp only [isClearOf, Bool.and_eq_true] at hts
    have hone := (pieceWise_respelling hr).laid h fun t ht => ⟨(hts t ht).1, (hts t ht).2.1⟩
    have hmap : ts.map (respelledPiece (r :: rs)) = (ts.map r.piece).map (respelledPiece rs) := by
      rw [map_map]
      rfl
    rw [hmap, foldl_cons]
    refine ih (fun r' hr' => hrs r' (mem_cons_of_mem r hr')) hone fun u hu => ?_
    obtain ⟨t, ht, rfl⟩ := mem_map.mp hu
    exact ⟨hr.isPiece (hts t ht).1, (hts t ht).2.2⟩

/-! ## Blanks -/

/-- The plain blank, which all others become. -/
def isPlainBlank (c : Char) : Bool :=
  c == ' '

lemma isBlank_of_isPlainBlank (c : Char) (h : isPlainBlank c) : isBlank c := by
  rw [beq_iff_eq.mp h]
  decide

lemma blanks_ahead : (Finder.blanks [' ']).Ahead := fun _ _ => rfl

lemma pieceWise_squeeze : PieceWise isBlank isPlainBlank IsPiece id squeeze where
  ending gap hgap := by
    cases gap with
    | nil => rfl
    | cons c gap =>
      have htake : ((c :: gap) ++ []).takeWhile isBlank = c :: gap := takeWhile_append_stop hgap (by simp)
      have hfind : Finder.blanks [' '] [] ((c :: gap) ++ []) = Found.ofLength (c :: gap).length [' '] := by
        rw [Finder.blanks, htake]
      rw [← append_nil (c :: gap), squeeze, substitute_stretch blanks_ahead (by simp) hfind, substitute_nil]
      rfl
  gap gap t rest hgap ht := by
    cases gap with
    | nil => exact ⟨[], rfl, rfl⟩
    | cons c gap =>
      refine ⟨[' '], rfl, substitute_stretch blanks_ahead (by simp) ?_⟩
      rw [Finder.blanks, takeWhile_gap hgap ht]
  piece t rest ht hfits := by
    refine ⟨[], [], rfl, rfl, ?_, ?_⟩
    · exact substitute_append_of_chars blanks_ahead fun c hc cs => by
        rw [Finder.blanks, takeWhile_cons_of_neg (by simp [isBlank_of_mem ht hc])]
        rfl
    · refine hfits.substituted ' ' blanks_ahead (fun cs f hfound => ?_) (ht.joins_eq_false (by decide) (by decide))
      rw [instead_of_ofLength hfound]
      rfl

/-- Some signs are always pieces of their own. -/
lemma IsPiece.eq_of_mem (h : IsPiece t) (hc : c ∈ t) (hown : c ∈ ['(', ')', '/']) : t = [c] := by
  rcases h.all_isNameChar_or_mem with hname | hsign
  · have hall : (['(', ')', '/'].all fun c => !Token.isNameChar c) := by decide
    have hnot := all_eq_true.mp hall c hown
    rw [all_eq_true.mp hname c hc] at hnot
    cases hnot
  · have hall : (signPieces.all fun t => t.all fun c => !(['(', ')', '/'].contains c) || t == [c]) := by
      decide
    have heq := all_eq_true.mp (all_eq_true.mp hall t hsign) c hc
    rw [contains_iff_mem.mpr hown] at heq
    simpa using heq

lemma closing_ahead : blanksBeforeClosing.Ahead := fun _ _ => rfl

lemma blanksBeforeClosing_of_not_blank (h : isBlank c = false) (cs : List Char) :
    blanksBeforeClosing [] (c :: cs) = none := by
  rw [blanksBeforeClosing, takeWhile_cons_of_neg (by simp [h])]

lemma blanksBeforeClosing_eq_none (h : (trimStart cs).head? ≠ some ')') : blanksBeforeClosing [] cs = none := by
  rw [blanksBeforeClosing]
  split
  · next hclosing => exact absurd (by rw [hclosing]; rfl) h
  · rfl

lemma pieceWise_blanksBeforeClosing :
    PieceWise isPlainBlank isPlainBlank IsPiece id (substitute blanksBeforeClosing) where
  ending gap hgap := by
    have hall := allBlank_of_all isBlank_of_isPlainBlank hgap
    have hstay : substitute blanksBeforeClosing (gap ++ []) = gap ++ substitute blanksBeforeClosing [] := by
      refine substitute_append closing_ahead fun u _ hsuffix => blanksBeforeClosing_eq_none ?_
      rw [append_nil, trimStart_of_allBlank (all_eq_true.mpr fun c hc => all_eq_true.mp hall c (hsuffix.subset hc))]
      simp
    rw [append_nil, substitute_nil, append_nil] at hstay
    rwa [hstay]
  gap gap t rest hgap ht := by
    have hall := allBlank_of_all isBlank_of_isPlainBlank hgap
    by_cases hclosing : t = [')']
    · -- The blanks go, together with the parenthesis that stands again behind them.
      refine ⟨[], rfl, ?_⟩
      cases gap with
      | nil => rfl
      | cons c gap =>
        have hfind : blanksBeforeClosing [] ((c :: gap ++ [')']) ++ rest) =
            Found.ofLength (c :: gap ++ [')']).length [')'] := by
          rw [append_assoc, blanksBeforeClosing, ← hclosing, takeWhile_gap hall ht, trimStart_gap hall ht, hclosing]
          have hlength : (c :: gap ++ ([')'] ++ rest)).length - rest.length = (c :: gap ++ [')']).length := by
            simp only [length_append, length_cons, length_nil]
            omega
          exact congrArg (fun n => Found.ofLength n [')']) hlength
        rw [hclosing, ← append_assoc, substitute_stretch closing_ahead (by simp) hfind]
        exact (substitute_of_find_none closing_ahead (blanksBeforeClosing_of_not_blank (by decide) rest)).symm
    · refine ⟨gap, hgap, substitute_append closing_ahead fun u _ hsuffix => ?_⟩
      apply blanksBeforeClosing_eq_none
      have hu : allBlank u := all_eq_true.mpr fun c hc => all_eq_true.mp hall c (hsuffix.subset hc)
      rw [trimStart_gap hu ht]
      cases t with
      | nil => exact absurd rfl ht.ne_nil
      | cons c t =>
        intro hhead
        have hc : c = ')' := Option.some.inj hhead
        exact hclosing (hc ▸ ht.eq_of_mem mem_cons_self (by simp [hc]))
  piece t rest ht hfits := by
    refine ⟨[], [], rfl, rfl, ?_, ?_⟩
    · exact substitute_append_of_chars closing_ahead fun c hc cs =>
        blanksBeforeClosing_of_not_blank (isBlank_of_mem ht hc) cs
    · refine hfits.substituted ')' closing_ahead (fun cs f hfound => ?_) (ht.joins_eq_false (by decide) (by decide))
      rw [blanksBeforeClosing] at hfound
      split at hfound
      · rw [instead_of_ofLength hfound]
        rfl
      · cases hfound

lemma opening_ahead : blanksAfterOpening.Ahead := fun _ _ => rfl

lemma blanksAfterOpening_of_ne {c : Char} (h : c ≠ '(') (cs : List Char) :
    blanksAfterOpening [] (c :: cs) = none := by
  rw [blanksAfterOpening]
  rintro rest ⟨⟩
  exact h rfl

lemma substitute_blanksAfterOpening (rest : List Char) :
    substitute blanksAfterOpening ('(' :: rest) = '(' :: substitute blanksAfterOpening (trimStart rest) := by
  by_cases hblank : rest.head?.any isBlank
  · have hsplit : rest.takeWhile isBlank ++ trimStart rest = rest := takeWhile_append_dropWhile
    have hfind : blanksAfterOpening [] (('(' :: rest.takeWhile isBlank) ++ trimStart rest) =
        Found.ofLength ('(' :: rest.takeWhile isBlank).length ['('] := by
      rw [cons_append, hsplit, blanksAfterOpening, if_pos hblank, stretch, length_cons, length_cons]
      have hlength := congrArg length hsplit
      rw [length_append] at hlength
      have : rest.length + 1 - (trimStart rest).length = (rest.takeWhile isBlank).length + 1 := by omega
      rw [this]
    have := substitute_stretch opening_ahead (by simp) hfind
    rwa [cons_append, hsplit] at this
  · have hnone : blanksAfterOpening [] ('(' :: rest) = none := by rw [blanksAfterOpening, if_neg hblank]
    have htrim : trimStart rest = rest :=
      trimStart_append (show allBlank [] from rfl) fun c (hc : rest.head? = some c) => by simpa [hc] using hblank
    rw [substitute_of_find_none opening_ahead hnone, htrim]

lemma head?_blanksAfterOpening (cs : List Char) : (substitute blanksAfterOpening cs).head? = cs.head? := by
  cases cs with
  | nil => rfl
  | cons c cs =>
    by_cases hopening : c = '('
    · rw [hopening, substitute_blanksAfterOpening]
      rfl
    · rw [substitute_of_find_none opening_ahead (blanksAfterOpening_of_ne hopening cs)]
      rfl

/-- The pass does the same whether or not the text begins with blanks. -/
lemma Laid.blanksAfterOpening {cs : List Char} (h : Laid isPlainBlank ts cs)
    (hts : ∀ t ∈ ts, IsPiece t) : Laid isPlainBlank ts (substitute blanksAfterOpening cs) ∧
      Laid isPlainBlank ts (substitute blanksAfterOpening (trimStart cs)) := by
  have hne : ∀ c, isPlainBlank c → c ≠ '(' := by
    rintro c hc rfl
    cases hc
  induction h with
  | @done gap hgap =>
    have hall := allBlank_of_all isBlank_of_isPlainBlank hgap
    have hnone : ∀ c ∈ gap, ∀ cs, Lift.blanksAfterOpening [] (c :: cs) = none := fun c hc =>
      blanksAfterOpening_of_ne (hne c (all_eq_true.mp hgap c hc))
    rw [substitute_of_chars opening_ahead hnone, trimStart_of_allBlank hall, substitute_nil]
    exact ⟨.done hgap, .done rfl⟩
  | @piece gap t rest ts hgap hfits hrest ih =>
    have ht := hts t mem_cons_self
    have hall := allBlank_of_all isBlank_of_isPlainBlank hgap
    have hrest := ih fun u hu => hts u (mem_cons_of_mem t hu)
    have hlaid : Laid isPlainBlank (t :: ts) (substitute Lift.blanksAfterOpening (t ++ rest)) := by
      by_cases hopening : '(' ∈ t
      · obtain rfl := ht.eq_of_mem hopening (by simp)
        rw [singleton_append, substitute_blanksAfterOpening]
        exact .piece (all_nil (f := isPlainBlank)) (fun _ _ => rfl) hrest.2
      · rw [substitute_append_of_chars opening_ahead fun c hc =>
          blanksAfterOpening_of_ne fun heq => hopening (heq ▸ hc)]
        refine .piece (all_nil (f := isPlainBlank)) (hfits.of_head? fun c hc => .inl ?_) hrest.1
        rwa [head?_blanksAfterOpening] at hc
    have hnone : ∀ c ∈ gap, ∀ cs, Lift.blanksAfterOpening [] (c :: cs) = none := fun c hc =>
      blanksAfterOpening_of_ne (hne c (all_eq_true.mp hgap c hc))
    rw [trimStart_gap hall ht, substitute_append_of_chars opening_ahead hnone]
    exact ⟨hlaid.append hgap, hlaid⟩

end AlgoLang.Lift
