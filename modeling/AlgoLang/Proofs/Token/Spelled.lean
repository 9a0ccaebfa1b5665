/-
# Texts put together from words

A text that is written word by word, with blanks and remarks between the words, scans without a fault
into exactly these words, wherever it stands in its source.
-/
import AlgoLang.Proofs.Lift.Scanning

namespace AlgoLang.Lift

open List Nat

open Text (decimalValue digitValue?)

variable {c : Char}

lemma all_isDigit_toString (n : Nat) : (toString n).toList.all Char.isDigit := by
  have htext : (toString n).toList = toDigits 10 n := toList_repr
  rw [htext, all_eq_true]
  exact fun c hc => isDigit_of_mem_toDigits (by decide) (by decide) hc

lemma toString_ne_empty (n : Nat) : toString n ≠ "" := by
  have htext : (toString n).toList = toDigits 10 n := toList_repr
  exact fun heq => toDigits_ne_nil (htext.symm.trans (congrArg String.toList heq))

lemma decimalValue_toString (n : Nat) : decimalValue (toString n).toList = n := by
  have hvalue : ∀ cs : List Char, (∀ c ∈ cs, c.isDigit) → ∀ acc,
      cs.foldl (fun n c => 10 * n + (digitValue? c).getD 0) acc = ofDigitChars 10 cs acc := by
    intro cs hcs
    induction cs with
    | nil => exact fun _ => rfl
    | cons c cs ih =>
      intro acc
      have hdigit := hcs c mem_cons_self
      have hsmall : c.toNat < 128 := toNat_lt_of_isNameChar (isNameChar_of_isDigit hdigit)
      have hc : (digitValue? c).getD 0 = c.toNat - 48 := by simp [digitValue?, hsmall, hdigit]
      rw [foldl_cons, hc, ih fun d hd => hcs d (mem_cons_of_mem c hd)]
      rfl
  have htext : (toString n).toList = toDigits 10 n := toList_repr
  rw [decimalValue, hvalue _ (all_eq_true.mp (all_isDigit_toString n)), htext,
    ofDigitChars_toDigits (by decide) (by decide)]

end AlgoLang.Lift

namespace AlgoLang.Token

open List

open Lift (Fits Laid CToken isPlainBlank isWordPiece)

variable {cs rest : List Char}

/-- What a token is, wherever it stands. -/
def word (t : Token) : TokenKind × String :=
  (t.kind, t.value)

/-! ## What the scanner passes over -/

variable (file : String)

lemma scanFrom_of_drop_nil (h : cs.drop (skipped cs) = []) (here : Place) :
    scanFrom file here cs = ⟨[], ⟨.eof, "", (here.over (cs.take (skipped cs))).inFile file, 0⟩, []⟩ := by
  rw [scanFrom]
  split
  · rfl
  · next hcons _ => exact nomatch h.symm.trans hcons

lemma scanFrom_of_drop_cons (h : cs.drop (skipped cs) = c :: rest) (here : Place) : scanFrom file here cs =
      let start := here.over (cs.take (skipped cs))
      let width := max (lexeme c rest).width 1
      let after := scanFrom file (start.over ((c :: rest).take width)) ((c :: rest).drop width)
      match (lexeme c rest).outcome with
      | .ok (kind, value) => { after with tokens := ⟨kind, value, start.inFile file, width⟩ :: after.tokens }
      | .error fault => { after with faults := (fault, start) :: after.faults } := by
  rw [scanFrom]
  split
  · next hnil _ => exact nomatch h.symm.trans hnil
  · next c' rest' hcons _ =>
    obtain ⟨rfl, rfl⟩ := List.cons.inj (h.symm.trans hcons)
    rfl

lemma scanFrom_skip (h : 0 < skipOne cs) (here : Place) : scanFrom file here cs =
      scanFrom file (here.over (cs.take (skipOne cs))) (cs.drop (skipOne cs)) := by
  have hne : cs ≠ [] := by
    rintro rfl
    exact absurd h (by decide)
  have hskipped : skipped cs = skipOne cs + skipped (cs.drop (skipOne cs)) := by
    rw [skipped, dif_pos ⟨h, hne⟩]
  have hdrop : cs.drop (skipped cs) = (cs.drop (skipOne cs)).drop (skipped (cs.drop (skipOne cs))) := by
    rw [drop_drop, hskipped]
  have hplace : here.over (cs.take (skipped cs)) =
        (here.over (cs.take (skipOne cs))).over ((cs.drop (skipOne cs)).take (skipped (cs.drop (skipOne cs)))) := by
    rw [hskipped, take_add, Place.over_append]
  cases hrest : cs.drop (skipped cs) with
  | nil => rw [scanFrom_of_drop_nil file hrest, scanFrom_of_drop_nil file (hdrop ▸ hrest), hplace]
  | cons c rest => rw [scanFrom_of_drop_cons file hrest, scanFrom_of_drop_cons file (hdrop ▸ hrest), hplace]

/-! ## Texts of words -/

/-- A text that consists of words, with blanks and remarks between them. -/
inductive Spelled : List (TokenKind × String) → List Char → Prop
  | done : Spelled [] []
  | space {ws : List (TokenKind × String)} {c : Char} {cs : List Char} :
      isSpace c = true → Spelled ws cs → Spelled ws (c :: cs)
  | remark {ws : List (TokenKind × String)} {cs rest : List Char} :
      '\n' ∉ cs → Spelled ws ('\n' :: rest) → Spelled ws ('/' :: '/' :: (cs ++ '\n' :: rest))
  | word {ws : List (TokenKind × String)} {kind : TokenKind} {value : String} {c : Char} {cs rest : List Char} :
      skipOne (c :: cs ++ rest) = 0 → lexeme c (cs ++ rest) = .token kind value (c :: cs).length →
      Spelled ws rest → Spelled ((kind, value) :: ws) (c :: cs ++ rest)

variable {kind : TokenKind} {w : String}

namespace Spelled

variable {ws : List (TokenKind × String)} {cs rest : List Char}

lemma scanFrom (h : Spelled ws cs) (here : Place) :
    ∃ tokens eof, scanFrom file here cs = ⟨tokens, eof, []⟩ ∧ eof.kind = .eof ∧ tokens.map Token.word = ws := by
  induction h generalizing here with
  | done =>
    obtain ⟨eof, hkind, heq⟩ := scanFrom_blank file (show [].all isPlainBlank from rfl) here
    exact ⟨[], eof, heq, hkind, rfl⟩
  | @space ws c cs hc _ ih =>
    have hskip : skipOne (c :: cs) = 1 := by
      simp only [isSpace, Bool.or_eq_true, beq_iff_eq] at hc
      rcases hc with ((rfl | rfl) | rfl) | rfl <;> rfl
    rw [scanFrom_skip file (by rw [hskip]; exact Nat.one_pos), hskip]
    exact ih _
  | @remark ws cs rest hcs _ ih =>
    have hall : cs.all (· != '\n') := all_eq_true.mpr fun c hc => bne_iff_ne.mpr fun heq => hcs (heq ▸ hc)
    have hskip : skipOne ('/' :: '/' :: (cs ++ '\n' :: rest)) = cs.length + 2 := by
      show ((cs ++ '\n' :: rest).takeWhile (· != '\n')).length + 2 = cs.length + 2
      rw [Text.takeWhile_append_stop hall (by simp)]
    have hdrop : ('/' :: '/' :: (cs ++ '\n' :: rest)).drop (cs.length + 2) = '\n' :: rest := by simp
    rw [scanFrom_skip file (by rw [hskip]; exact Nat.succ_pos _), hskip, hdrop]
    exact ih _
  | @word ws kind value c cs rest hskip hlex _ ih =>
    obtain ⟨token, there, hkind, hvalue, heq⟩ :=
      scanFrom_token file (show [].all isPlainBlank from rfl) hskip ⟨c, cs, rfl, hlex⟩ here
    obtain ⟨tokens, eof, hscan, heof, hwords⟩ := ih there
    refine ⟨token :: tokens, eof, ?_, heof, ?_⟩
    · rw [nil_append] at heq
      rw [heq, hscan]
    · rw [map_cons, hwords, Token.word, hkind, hvalue]

lemma gap {blanks : List Char} (hblanks : blanks.all isSpace) (h : Spelled ws cs) : Spelled ws (blanks ++ cs) := by
  induction blanks with
  | nil => exact h
  | cons c blanks ih =>
    rw [all_cons, Bool.and_eq_true] at hblanks
    exact .space hblanks.1 (ih hblanks.2)

lemma name (hw : isWordPiece w.toList) (hkind : ((Keyword.ofName? w).elim .identifier .keyword : TokenKind) =
    kind) (hfits : Fits w.toList rest) (h : Spelled ws rest) : Spelled ((kind, w) :: ws) (w.toList ++ rest) := by
  have hskip := (Lift.IsPiece.word hw).skipOne hfits
  obtain ⟨c, t, heq, hlex⟩ := Lift.lexeme_word hw hfits rfl
  rw [String.ofList_toList, hkind] at hlex
  rw [heq] at hskip hlex ⊢
  exact .word hskip hlex h

lemma one {value : String} {c : Char} (hskip : skipOne (c :: rest) = 0)
    (hlex : lexeme c rest = .token kind value 1) (h : Spelled ws rest) : Spelled ((kind, value) :: ws) (c :: rest) :=
  word (show skipOne ([c] ++ rest) = 0 from hskip) hlex h

end Spelled

/-! ## What may stand behind a word -/

/-- A text does not go on with a character that belongs to a word before it, whatever word that is. -/
def Apart (rest : List Char) : Prop :=
  ∀ c, rest.head? = some c → c ∈ [' ', '\n', ')', ']', ',', ';']

lemma Apart.fits (h : Apart rest) (t : List Char) : Fits t rest := by
  intro c hc
  have hmem := h c hc
  have hword : ∀ c ∈ [' ', '\n', ')', ']', ',', ';'], Text.isWordChar c = false := Lift.forall_mem_of_all rfl
  have hsign : ∀ c ∈ [' ', '\n', ')', ']', ',', ';'], ∀ t, (Lift.joinedTo t).contains c = false := by
    intro c hc t
    unfold Lift.joinedTo
    split <;> revert c hc <;> exact Lift.forall_mem_of_all rfl
  unfold Lift.joins
  split
  · exact hword c hmem
  · exact hsign c hmem t

lemma Apart.head?_ne_dot (h : Apart rest) : rest.head? ≠ some '.' :=
  fun hhead => absurd (h '.' hhead) (by decide)

lemma apart_cons {rest : List Char} (h : [' ', '\n', ')', ']', ',', ';'].contains c) : Apart (c :: rest) := by
  rintro d ⟨⟩
  exact contains_iff_mem.mp h

lemma Spelled.spaced (hw : isWordPiece w.toList)
    (hkind : ((Keyword.ofName? w).elim .identifier .keyword : TokenKind) = kind)
    {ws : List (TokenKind × String)} (h : Spelled ws rest) : Spelled ((kind, w) :: ws) (w.toList ++ ' ' :: rest) :=
  .name hw hkind (Apart.fits (apart_cons rfl) _) (.space rfl h)

lemma Spelled.number {ds : List Char} (hdigits : ds.all Char.isDigit) (hne : ds ≠ []) {rest : List Char}
    (hrest : Apart rest) {ws : List (TokenKind × String)} (h : Spelled ws rest) :
    Spelled ((.integer, String.ofList ds) :: ws) (ds ++ rest) := by
  have hlex := Lift.numberLexeme_of_fits hdigits (hrest.fits ds) hrest.head?_ne_dot
  have hskip := (Lift.IsPiece.number hne hdigits).skipOne (hrest.fits ds)
  cases ds with
  | nil => exact absurd rfl hne
  | cons c cs =>
    have hdigit : c.isDigit := all_eq_true.mp hdigits c mem_cons_self
    have halphanum : c.isAlphanum := by simp [Char.isAlphanum, hdigit]
    refine .word hskip ?_ h
    rw [lexeme_of_isAlphanum halphanum, if_pos hdigit, ← cons_append, hlex]

def liftedWord (t : CToken) : TokenKind × String :=
  (t.kind, String.ofList t.lifted)

lemma head?_ne_dot_of_laid {ts : List CToken} (hts : ∀ t ∈ ts, t.IsProper)
    (h : Laid isPlainBlank (ts.map CToken.lifted) cs) : cs.head? ≠ some '.' := by
  intro hhead
  rcases h.char (mem_of_head? hhead) with hblank | ⟨u, hu, hmem⟩
  · cases hblank
  · obtain ⟨t, ht, rfl⟩ := mem_map.mp hu
    exact absurd ((hts t ht).isPiece_lifted.isPlain hmem) (by decide)

/-- A lifted expression before something that stands apart from it. -/
lemma Spelled.lifted {ts : List CToken} (hts : ∀ t ∈ ts, t.IsProper) {cs rest : List Char}
    (htext : Laid isPlainBlank (ts.map CToken.lifted) cs) (hrest : Apart rest)
    {ws : List (TokenKind × String)} (h : Spelled ws rest) : Spelled (ts.map liftedWord ++ ws) (cs ++ rest) := by
  induction ts generalizing cs with
  | nil =>
    cases htext with
    | done hgap =>
      refine h.gap (all_eq_true.mpr fun c hc => ?_)
      rw [beq_iff_eq.mp (all_eq_true.mp hgap c hc)]
      rfl
  | cons t ts ih =>
    cases htext with
    | @piece gap _ cs _ hgap hfits htext =>
      have ht := hts t mem_cons_self
      have hts' : ∀ u ∈ ts, u.IsProper := fun u hu => hts u (mem_cons_of_mem t hu)
      have hfits' : Fits t.lifted (cs ++ rest) := by
        cases cs with
        | nil => exact hrest.fits _
        | cons c cs => exact hfits
      have hdot : (cs ++ rest).head? ≠ some '.' := by
        cases cs with
        | nil => exact hrest.head?_ne_dot
        | cons c cs =>
          have hhead := head?_ne_dot_of_laid hts' htext
          exact hhead
      obtain ⟨c, t', heq, hlex⟩ := ht.lexeme hfits' hdot
      have hskip := ht.isPiece_lifted.skipOne hfits'
      have hgap' : gap.all isSpace := all_eq_true.mpr fun c hc => by
        rw [beq_iff_eq.mp (all_eq_true.mp hgap c hc)]
        rfl
      have hword : liftedWord t = (t.kind, .ofList (c :: t')) := by rw [liftedWord, heq]
      rw [heq] at hskip hlex
      rw [append_assoc, append_assoc, map_cons, hword, heq]
      exact (word hskip hlex (ih hts' htext)).gap hgap'

end AlgoLang.Token
