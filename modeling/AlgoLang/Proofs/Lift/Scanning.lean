/-
# Scanning a lifted expression

The text of a lifted expression scans without a fault into the tokens that were written.
-/
import AlgoLang.Proofs.Lift.Spelling

namespace AlgoLang.Token

open List

variable {gap cs : List Char}

/-! ## Single tokens -/

lemma lexeme_of_isAlphanum {c : Char} (h : c.isAlphanum) (cs : List Char) :
    lexeme c cs = if c.isDigit then numberLexeme (c :: cs) else nameLexeme (c :: cs) := by
  have hmark : Mark.ofChar? c = none := by
    unfold Mark.ofChar?
    split <;> first | rfl | exact absurd rfl (Text.ne_of_class h rfl)
  unfold lexeme
  split <;> try exact absurd rfl (Text.ne_of_class h rfl)
  simp only [hmark]
  by_cases hdigit : c.isDigit
  · rw [if_pos hdigit, if_pos hdigit]
  · have halpha : c.isAlpha := by simpa [Char.isAlphanum, hdigit] using h
    rw [if_neg hdigit, if_pos halpha, if_neg hdigit]

/-! ## Steps of the scan -/

lemma skipped_of_skipOne_eq_zero (h : skipOne cs = 0) : skipped cs = 0 := by
  rw [skipped]
  simp [h]

lemma skipped_gap (hgap : gap.all Lift.isPlainBlank) (h : skipOne cs = 0) : skipped (gap ++ cs) = gap.length := by
  induction gap with
  | nil => exact skipped_of_skipOne_eq_zero h
  | cons c gap ih =>
    rw [all_cons, Bool.and_eq_true] at hgap
    obtain rfl := beq_iff_eq.mp hgap.1
    have hone : 0 < skipOne (' ' :: (gap ++ cs)) ∧ ' ' :: (gap ++ cs) ≠ [] := ⟨Nat.one_pos, by simp⟩
    rw [cons_append, skipped, dif_pos hone]
    show 1 + skipped (gap ++ cs) = (' ' :: gap).length
    rw [ih hgap.2, length_cons, Nat.add_comm]

variable (file : String)

lemma scanFrom_blank (hgap : gap.all Lift.isPlainBlank) (here : Place) :
    ∃ eof, eof.kind = .eof ∧ scanFrom file here gap = ⟨[], eof, []⟩ := by
  have hskip : skipped gap = gap.length := by
    have : skipped (gap ++ []) = gap.length := skipped_gap hgap rfl
    rwa [append_nil] at this
  rw [scanFrom]
  split
  · exact ⟨_, rfl, rfl⟩
  · next hcons _ =>
    rw [hskip, drop_length] at hcons
    cases hcons

lemma scanFrom_token {t rest : List Char} {kind : TokenKind} {value : String}
    (hgap : gap.all Lift.isPlainBlank) (hskip : skipOne (t ++ rest) = 0)
    (hlex : ∃ c t', t = c :: t' ∧ lexeme c (t' ++ rest) = .token kind value t.length) (here : Place) :
    ∃ token there, token.kind = kind ∧ token.value = value ∧ scanFrom file here (gap ++ (t ++ rest)) =
        { scanFrom file there rest with tokens := token :: (scanFrom file there rest).tokens } := by
  obtain ⟨c, t', rfl, hlex⟩ := hlex
  have hskipped := skipped_gap hgap hskip
  rw [scanFrom]
  split
  · next hnil _ =>
    rw [hskipped, drop_left] at hnil
    cases hnil
  · next c' rest' hcons _ =>
    rw [hskipped, drop_left, cons_append] at hcons
    obtain ⟨rfl, rfl⟩ := cons.inj hcons
    have hwidth : max (Lexeme.token kind value (c :: t').length).width 1 = (c :: t').length :=
      Nat.max_eq_left (by simp [Lexeme.token])
    have hdrop : (c :: (t' ++ rest)).drop (c :: t').length = rest := drop_left
    dsimp only
    rw [hlex, hwidth, hdrop]
    exact ⟨_, _, rfl, rfl, rfl⟩

end AlgoLang.Token

namespace AlgoLang.Lift

open Text List

variable {w : String} {t rest : List Char}

/-! ## Keywords -/

lemma ofName?_append_underscore (h : w.toList.all Token.isNameChar) : Keyword.ofName? (w ++ "_") = none := by
  have hascii : ∀ c ∈ (w ++ "_").toList, c.toNat < 128 := by
    intro c hc
    rw [String.toList_append] at hc
    rcases mem_append.mp hc with hmem | hmem
    · exact toNat_lt_of_isNameChar (all_eq_true.mp h c hmem)
    · rw [mem_singleton.mp hmem]
      decide
  have hmem : '_' ∈ (lower (w ++ "_")).toList := by
    rw [lower, String.toList_ofList, lowerFrom_of_ascii hascii, String.toList_append, map_append]
    exact mem_append_right _ (by decide)
  rw [Keyword.ofName?, find?_eq_none]
  intro k _ hk
  have hspelling : '_' ∉ k.spelling.toList := by cases k <;> decide
  rw [beq_iff_eq.mp hk] at hspelling
  exact hspelling hmem

lemma ofName?_safeName (h : w.toList.all Token.isNameChar) : Keyword.ofName? (safeName w) = none := by
  rw [safeName]
  split
  · exact ofName?_append_underscore h
  · next hnone => simpa using hnone

lemma Fits.ends (h : Fits t rest) (ht : t.all Token.isNameChar) :
    ∀ c ∈ rest.head?, Token.isNameChar c = false := fun c hc => Bool.eq_false_iff.mpr fun hname => by
  have hword := h.stop ht c hc
  rw [isWordChar_of_isNameChar hname] at hword
  cases hword

lemma nameLexeme_of_fits (ht : t.all Token.isNameChar) (hfits : Fits t rest) : Token.nameLexeme (t ++ rest) =
      .token ((Keyword.ofName? (.ofList t)).elim .identifier .keyword) (.ofList t) t.length := by
  have htake : (t ++ rest).takeWhile Token.isNameChar = t := takeWhile_append_stop ht (hfits.ends ht)
  simp only [Token.nameLexeme, htake]
  cases Keyword.ofName? (.ofList t) with
  | none => rfl
  | some k => rfl

lemma numberLexeme_of_fits (ht : t.all Char.isDigit) (hfits : Fits t rest) (hdot : rest.head? ≠ some '.') :
    Token.numberLexeme (t ++ rest) = .token .integer (.ofList t) t.length := by
  have hrest : ∀ d ∈ rest.head?, d.isDigit = false := fun d hd => Bool.eq_false_iff.mpr fun hdigit => by
    have hname := hfits.ends (all_isNameChar_of_isDigit ht) d hd
    rw [isNameChar_of_isDigit hdigit] at hname
    cases hname
  simp only [Token.numberLexeme, takeWhile_append_stop ht hrest, dropWhile_append_stop ht hrest]
  split
  · exact absurd rfl hdot
  · rfl

/-! ## The tokens of an expression -/

lemma lexeme_word (ht : isWordPiece t) (hfits : Fits t rest) {kind : TokenKind}
    (hkind : ((Keyword.ofName? (.ofList t)).elim .identifier .keyword : TokenKind) = kind) :
    ∃ c t', t = c :: t' ∧ Token.lexeme c (t' ++ rest) = .token kind (.ofList t) t.length := by
  have hname := nameLexeme_of_fits (all_isNameChar_of_isWordPiece ht) hfits
  cases t with
  | nil => cases ht
  | cons c t =>
    rw [isWordPiece, Bool.and_eq_true] at ht
    have halphanum : c.isAlphanum := by simp [Char.isAlphanum, ht.1]
    have hdigit : ¬c.isDigit := fun hdigit => by
      simpa [isWordStart, ht.1] using isWordStart_of_isDigit hdigit
    refine ⟨c, t, rfl, ?_⟩
    rw [Token.lexeme_of_isAlphanum halphanum, if_neg hdigit, ← cons_append, hname, hkind]

lemma lexeme_less (hfits : Fits ['<'] rest) : Token.lexeme '<' rest = .token (.mark .less) "<" 1 := by
  rw [Token.lexeme]
  · rfl
  all_goals
    rintro cs rfl
    exact absurd (hfits _ rfl) (by decide)

lemma lexeme_greater (hfits : Fits ['>'] rest) : Token.lexeme '>' rest = .token (.mark .greater) ">" 1 := by
  rw [Token.lexeme]
  · rfl
  · rintro cs rfl
    exact absurd (hfits _ rfl) (by decide)

lemma lexeme_sign (s : Sign) (hfits : Fits (CToken.sign s).lifted rest) : ∃ c t', (CToken.sign s).lifted = c :: t' ∧
      Token.lexeme c (t' ++ rest) = .token s.kind (String.ofList (CToken.sign s).lifted)
        (CToken.sign s).lifted.length := by
  by_cases hword : isWordPiece (CToken.sign s).lifted
  · refine lexeme_word hword hfits ?_
    cases s <;> first | exact absurd hword (by decide) | decide +kernel
  · cases s <;> first
      | exact absurd (by decide) hword
      | exact ⟨_, _, rfl, lexeme_less hfits⟩
      | exact ⟨_, _, rfl, lexeme_greater hfits⟩
      | exact ⟨_, _, rfl, rfl⟩

lemma lifted_of_isName (h : isName w) : (CToken.word w).lifted = (safeName w).toList := by
  rw [CToken.lifted, (isName_cases h).2.2]
  rfl

lemma kind_of_isName (h : isName w) : (CToken.word w).kind = .identifier := by
  have htruth := (isName_cases h).2.2
  unfold truthWord? at htruth
  rw [CToken.kind]
  split at htruth
  · cases htruth
  · next htrue =>
    split at htruth
    · cases htruth
    · next hfalse => rw [if_neg (by simpa using htrue), if_neg (by simpa using hfalse)]

lemma CToken.IsProper.lexeme {t : CToken} (h : t.IsProper) {rest : List Char} (hfits : Fits t.lifted rest)
    (hdot : rest.head? ≠ some '.') : ∃ c t', t.lifted = c :: t' ∧
      Token.lexeme c (t' ++ rest) = .token t.kind (.ofList t.lifted) t.lifted.length := by
  cases t with
  | sign s => exact lexeme_sign s hfits
  | number ds =>
    have hlex := numberLexeme_of_fits h.2 hfits hdot
    cases hds : ds.toList with
    | nil => exact absurd (String.toList_eq_nil_iff.mp hds) h.1
    | cons c cs =>
      refine ⟨c, cs, hds, ?_⟩
      have hdigit : c.isDigit := all_eq_true.mp h.2 c (by rw [hds]; exact mem_cons_self)
      have halphanum : c.isAlphanum := by simp [Char.isAlphanum, hdigit]
      rw [Token.lexeme_of_isAlphanum halphanum, if_pos hdigit, ← cons_append, ← hds, hlex]
      rfl
  | word w =>
    rcases h with hname | htruth
    · have hword := (isName_cases hname).1
      have hlifted : (CToken.word w).lifted = liftWord w.toList := by
        rw [liftWord, if_pos hword, String.ofList_toList, CToken.lifted]
      refine lexeme_word (by rw [hlifted]; exact isWordPiece_liftWord hword) hfits ?_
      rw [lifted_of_isName hname, String.ofList_toList, ofName?_safeName (all_isNameChar_of_isWordPiece hword),
        kind_of_isName hname]
      rfl
    · rcases mem_cons.mp htruth with rfl | htruth
      · exact lexeme_word rfl hfits (by rfl)
      · obtain rfl := mem_singleton.mp htruth
        exact lexeme_word rfl hfits (by rfl)

lemma skipOne_of_ne {c : Char} (hslash : c ≠ '/') (hbrace : c ≠ '\x7b') (hspace : Token.isSpace c = false)
    (cs : List Char) : Token.skipOne (c :: cs) = 0 := by
  unfold Token.skipOne
  split
  · next heq => exact absurd (cons.inj heq).1 hslash
  · next heq => exact absurd (cons.inj heq).1 hslash
  · next heq => exact absurd (cons.inj heq).1 hbrace
  · next heq =>
    obtain ⟨rfl, -⟩ := cons.inj heq
    rw [hspace]
    rfl
  · rfl

lemma IsPiece.skipOne {t rest : List Char} (h : IsPiece t) (hfits : Fits t rest) : Token.skipOne (t ++ rest) = 0 := by
  cases t with
  | nil => exact absurd rfl h.ne_nil
  | cons c t =>
    have hmem : c ∈ c :: t := mem_cons_self
    by_cases hslash : c = '/'
    · subst hslash
      obtain rfl := (cons.inj (h.eq_of_mem hmem (by simp))).2
      rw [singleton_append]
      unfold Token.skipOne
      split
      · next heq => exact absurd (hfits '/' (by rw [(cons.inj heq).2]; rfl)) (by decide)
      · next heq => exact absurd (hfits '*' (by rw [(cons.inj heq).2]; rfl)) (by decide)
      · next heq => exact absurd (cons.inj heq).1 (by decide)
      · next heq =>
        rw [← (cons.inj heq).1]
        rfl
      · rfl
    · refine skipOne_of_ne hslash ?_ ?_ (t ++ rest)
      · rintro rfl
        rcases h.char hmem with hname | hsign
        · exact absurd hname (by decide)
        · exact absurd hsign (by decide)
      · have hblank := isBlank_of_mem h hmem
        have hne : ∀ d, isBlank d → c ≠ d := fun d hd => (ne_of_class hd hblank).symm
        simp [Token.isSpace, hne ' ' rfl, hne '\t' rfl, hne '\n' rfl, hne '\r' rfl]

lemma CToken.IsProper.isPiece_lifted {t : CToken} (h : t.IsProper) : IsPiece t.lifted := by
  cases t with
  | word w =>
    have hword := h.word_cases.1
    have hlifted := isWordPiece_liftWord hword
    rw [liftWord, if_pos hword, String.ofList_toList] at hlifted
    exact .word hlifted
  | number ds => exact h.isPiece
  | sign s =>
    have hcases : isWordPiece (CToken.sign s).lifted ∨ (CToken.sign s).lifted ∈ signPieces := by
      cases s <;> decide
    exact hcases.elim .word .sign

/-- A token of the algorithmic language is what a token of C is lifted to. -/
def IsLifted (token : Token) (t : CToken) : Prop :=
  token.kind = t.kind ∧ token.value = String.ofList t.lifted

lemma IsLifted.of_isName {token : Token} (h : IsLifted token (.word w)) (hw : isName w) :
    token.kind = .identifier ∧ token.value = safeName w := by
  refine ⟨h.1.trans (kind_of_isName hw), ?_⟩
  rw [h.2, lifted_of_isName hw, String.ofList_toList]

lemma scanFrom_lifted (file : String) {ts : List CToken} (hts : ∀ t ∈ ts, t.IsProper)
    (h : Laid isPlainBlank (ts.map CToken.lifted) cs) (here : Place) :
    ∃ tokens eof, Token.scanFrom file here cs = ⟨tokens, eof, []⟩ ∧ eof.kind = .eof ∧ Forall₂ IsLifted tokens ts := by
  induction ts generalizing cs here with
  | nil =>
    cases h with
    | done hgap =>
      obtain ⟨eof, hkind, heq⟩ := Token.scanFrom_blank file hgap here
      exact ⟨[], eof, heq, hkind, .nil⟩
  | cons t ts ih =>
    cases h with
    | @piece gap _ rest _ hgap hfits hrest =>
      have ht := hts t mem_cons_self
      have hts' : ∀ u ∈ ts, u.IsProper := fun u hu => hts u (mem_cons_of_mem t hu)
      have hdot : rest.head? ≠ some '.' := by
        intro hhead
        rcases hrest.char (mem_of_head? hhead) with hblank | ⟨u, hu, hmem⟩
        · cases hblank
        · obtain ⟨c, hc, rfl⟩ := mem_map.mp hu
          exact absurd ((hts' c hc).isPiece_lifted.isPlain hmem) (by decide)
      obtain ⟨token, there, hkind, hvalue, heq⟩ :=
        Token.scanFrom_token file hgap (ht.isPiece_lifted.skipOne hfits) (ht.lexeme hfits hdot) here
      obtain ⟨tokens, eof, hscan, heof, htokens⟩ := ih hts' hrest there
      refine ⟨token :: tokens, eof, ?_, heof, .cons ⟨hkind, hvalue⟩ htokens⟩
      rw [heq, hscan]

end AlgoLang.Lift
