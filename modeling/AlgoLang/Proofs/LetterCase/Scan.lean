/-
# Scanning a text in other letters

Outside literals the scanner asks of a character only what all letters have in common, and it looks up a
reserved word in small letters.  A literal is read from its own characters alone, so it stays the same if these
do.
-/
import AlgoLang.Proofs.Revision
import AlgoLang.Proofs.Token.Spelled
import AlgoLang.Proofs.Token.Tiling

namespace AlgoLang.Token

open Keyword Place List Lexeme Token
open Char (isAlphanum isDigit toLower)

open Text (SameLetters apply_toLower eq_false_of_isAlpha isNameChar_toLower not_front_map smallName
  toLower_eq_iff toLower_of_not_isUpper)

variable {c : Char} {cs ds rest : List Char} {kind : TokenKind} {value : String} {word : TokenKind × String}

/-! ## Characters -/

lemma not_isDigit_of_isAlpha (h : c.isAlpha) : c.isDigit = false :=
  eq_false_of_isAlpha (by decide +kernel) h

lemma isDigit_toLower (c : Char) : c.toLower.isDigit = c.isDigit :=
  apply_toLower (fun _ => not_isDigit_of_isAlpha) c

lemma toLower_of_isDigit (h : c.isDigit) : c.toLower = c := by
  cases hupper : c.isUpper with
  | true =>
    have halpha : c.isAlpha := by rw [Char.isAlpha, hupper, Bool.true_or]
    exact absurd ((not_isDigit_of_isAlpha halpha).symm.trans h) Bool.false_ne_true
  | false => exact toLower_of_not_isUpper hupper

lemma beq_toLower {x : Char} (hx : x.isAlpha = false) (c : Char) : (c.toLower == x) = (c == x) := by
  rw [Bool.eq_iff_iff, beq_iff_eq, beq_iff_eq, toLower_eq_iff hx]

lemma isSpace_toLower (c : Char) : isSpace c.toLower = isSpace c := by
  simp only [isSpace, beq_toLower (show ' '.isAlpha = false from rfl),
    beq_toLower (show '\t'.isAlpha = false from rfl), beq_toLower (show '\n'.isAlpha = false from rfl),
    beq_toLower (show '\r'.isAlpha = false from rfl)]

/-! ## Blanks and comments -/

lemma length_takeWhile_map {p : Char → Bool} (hp : ∀ c : Char, p c.toLower = p c) (cs : List Char) :
    ((cs.map toLower).takeWhile p).length = (cs.takeWhile p).length := by
  rw [takeWhile_map, length_map, show p ∘ toLower = p from funext hp]

section

variable (cs : List Char)

lemma blockCommentRest_map : blockCommentRest (cs.map toLower) = blockCommentRest cs := by
  fun_induction blockCommentRest cs with
  | case1 => rfl
  | case2 cs => rfl
  | case3 c cs hne ih =>
    rw [map_cons, blockCommentRest, ih]
    exact not_front_map rfl rfl hne

lemma braceCommentRest_map : braceCommentRest (cs.map toLower) = braceCommentRest cs := by
  fun_induction braceCommentRest cs with
  | case1 => rfl
  | case2 cs => rfl
  | case3 c cs hne ih =>
    rw [map_cons, braceCommentRest, ih]
    intro hc
    exact hne ((toLower_eq_iff rfl c).mp hc)

lemma skipOne_map : skipOne (cs.map toLower) = skipOne cs := by
  fun_cases skipOne cs with
  | case1 cs =>
    change ((cs.map toLower).takeWhile (· != '\n')).length + 2 = _
    rw [length_takeWhile_map fun c => congrArg Bool.not (beq_toLower rfl c)]
  | case2 cs => exact congrArg (· + 2) (blockCommentRest_map cs)
  | case3 cs => exact congrArg (· + 1) (braceCommentRest_map cs)
  | case4 c cs hline hblock hbrace hspace =>
    rw [map_cons, skipOne, isSpace_toLower, if_pos hspace]
    · exact not_front_map rfl rfl hline
    · exact not_front_map rfl rfl hblock
    · exact fun hc => hbrace ((toLower_eq_iff rfl c).mp hc)
  | case5 c cs hline hblock hbrace hspace =>
    rw [map_cons, skipOne, isSpace_toLower, if_neg hspace]
    · exact not_front_map rfl rfl hline
    · exact not_front_map rfl rfl hblock
    · exact fun hc => hbrace ((toLower_eq_iff rfl c).mp hc)
  | case6 => rfl

lemma skipped_map : skipped (cs.map toLower) = skipped cs := by
  fun_induction skipped cs with
  | case1 cs n hn _ ih =>
    have hskip : 0 < skipOne (cs.map toLower) ∧ cs.map toLower ≠ [] := by
      rw [skipOne_map]
      exact ⟨hn.1, fun hnil => hn.2 (map_eq_nil_iff.mp hnil)⟩
    rw [skipped, dif_pos hskip, skipOne_map, ← map_drop, ih]
  | case2 cs n hn =>
    rw [skipped, dif_neg]
    rw [skipOne_map]
    exact fun h => hn ⟨h.1, fun hnil => h.2 (map_eq_nil_iff.mpr hnil)⟩

end

/-! ## Words, numbers and signs -/

/-- A lexeme with another spelling if it is a word. -/
def Lexeme.rename (f : String → String) (l : Lexeme) : Lexeme :=
  { l with outcome := l.outcome.map fun (kind, value) => (kind, if kind.isWord then f value else value) }

lemma takeWhile_isDigit_map (cs : List Char) : (cs.map toLower).takeWhile isDigit = cs.takeWhile isDigit := by
  rw [takeWhile_map, show isDigit ∘ toLower = isDigit from funext isDigit_toLower]
  refine (map_congr_left fun c hc => ?_).trans (map_id _)
  exact toLower_of_isDigit (all_eq_true.mp all_takeWhile c hc)

lemma numberLexeme_map (cs : List Char) : numberLexeme (cs.map toLower) = numberLexeme cs := by
  have hrest : (cs.map toLower).dropWhile isDigit = (cs.dropWhile isDigit).map toLower := by
    rw [dropWhile_map, show isDigit ∘ toLower = isDigit from funext isDigit_toLower]
  unfold numberLexeme
  rw [takeWhile_isDigit_map, hrest]
  cases cs.dropWhile isDigit with
  | nil => rfl
  | cons c rest =>
    by_cases hc : c = '.'
    · subst hc
      rw [map_cons, show '.'.toLower = '.' from rfl]
      simp only [takeWhile_isDigit_map]
    · have hlower : c.toLower ≠ '.' := fun h => hc ((toLower_eq_iff rfl c).mp h)
      simp [hc, hlower]

lemma ofName?_toLower {n : String} (h : n.toList.all isNameChar) : ofName? n.toLower = ofName? n := by
  rw [ofName?, ofName?, ← Text.smallName_of_all h, Text.lower_smallName]

lemma nameLexeme_map (cs : List Char) : nameLexeme (cs.map toLower) = (nameLexeme cs).rename smallName := by
  have hname : (String.ofList (cs.takeWhile isNameChar)).toList.all isNameChar := by
    rw [String.toList_ofList]
    exact all_takeWhile
  have htext : String.ofList ((cs.map toLower).takeWhile isNameChar) =
      (String.ofList (cs.takeWhile isNameChar)).toLower := by
    rw [takeWhile_map, show isNameChar ∘ toLower = isNameChar from funext isNameChar_toLower,
      ← String.toList_inj, String.toLower, String.toList_map, String.toList_ofList, String.toList_ofList]
  unfold nameLexeme
  dsimp only
  rw [htext, ofName?_toLower hname, length_takeWhile_map isNameChar_toLower]
  cases ofName? (.ofList (cs.takeWhile isNameChar)) with
  | some k => exact congrArg (token (.keyword k) · _) (Text.smallName_of_all hname).symm
  | none => exact congrArg (token .identifier · _) (Text.smallName_of_all hname).symm

lemma numberLexeme_rename (f : String → String) (cs : List Char) : (numberLexeme cs).rename f = numberLexeme cs := by
  unfold numberLexeme
  dsimp only
  split
  · split <;> rfl
  · rfl

lemma lexeme_of_single (hc : c.isAlphanum = false) (h : c ∉ ['<', '>', '!', '"', '\'']) (cs : List Char) :
    lexeme c cs = (Mark.ofChar? c).elim ⟨.error (.unexpected c), 1⟩ (mark · (.singleton c)) := by
  rw [isAlphanum, Bool.or_eq_false_iff] at hc
  unfold lexeme
  split
  case h_11 =>
    cases Mark.ofChar? c with
    | some m => rfl
    | none => simp [hc.1, hc.2]
  all_goals exact absurd h (by decide)

lemma not_cons_map {y : Char} (hy : y.isAlpha = false) (h : ∀ tail, cs = y :: tail → False) :
    ∀ tail, cs.map toLower = y :: tail → False :=
  fun tail => not_front_map (c := y) hy hy (fun tail _ => h tail) tail ((toLower_eq_iff hy y).mpr rfl)

lemma lexeme_sign_map (h : c ∈ ['<', '>', '!']) (cs : List Char) :
    lexeme c (cs.map toLower) = (lexeme c cs).rename smallName := by
  fun_cases lexeme c cs with
  | case1 | case2 | case3 | case5 | case7 => rfl
  | case4 _ hminus hequal hgreater =>
    rw [lexeme]
    · rfl
    · exact not_cons_map rfl hminus
    · exact not_cons_map rfl hequal
    · exact not_cons_map rfl hgreater
  | case6 _ hequal | case8 _ hequal =>
    rw [lexeme]
    · rfl
    · exact not_cons_map rfl hequal
  | case9 | case10 => exact absurd h (by decide)
  | case11 | case12 | case13 | case14 => simp_all

lemma lexeme_map (cs : List Char) (hstring : c ≠ '"') (hchar : c ≠ '\'') :
    lexeme c.toLower (cs.map toLower) = (lexeme c cs).rename smallName := by
  cases halphanum : c.isAlphanum with
  | true =>
    have hlower : c.toLower.isAlphanum := by
      rw [← halphanum]
      exact apply_toLower (fun d hd => by rw [isAlphanum, hd, Bool.true_or]) c
    rw [lexeme_of_isAlphanum hlower, lexeme_of_isAlphanum halphanum, isDigit_toLower, ← map_cons]
    split
    · rw [numberLexeme_map, numberLexeme_rename]
    · exact nameLexeme_map (c :: cs)
  | false =>
    have hlower : c.toLower = c := by
      refine toLower_of_not_isUpper ?_
      simp only [isAlphanum, Char.isAlpha, Bool.or_eq_false_iff] at halphanum
      exact halphanum.1.1
    rw [hlower]
    by_cases hsign : c ∈ ['<', '>', '!']
    · exact lexeme_sign_map hsign cs
    · have hsingle : c ∉ ['<', '>', '!', '"', '\''] := by simp_all
      rw [lexeme_of_single halphanum hsingle, lexeme_of_single halphanum hsingle]
      cases Mark.ofChar? c <;> rfl

/-! ## Literals -/

lemma exists_cons_of_take {n : Nat} (h : c :: cs = ds.take (n + 1)) : ∃ es, ds = c :: es ∧ cs = es.take n := by
  cases ds with
  | nil => cases h
  | cons d es =>
    obtain ⟨rfl, hes⟩ := cons.inj h
    exact ⟨es, rfl, hes⟩

lemma stringRest_of_take (hclosed : (stringRest cs).2.2)
    (h : cs.take (stringRest cs).2.1 = ds.take (stringRest cs).2.1) : stringRest ds = stringRest cs := by
  fun_induction stringRest cs generalizing ds with
  | case1 => cases hclosed
  | case2 rest =>
    obtain ⟨es, rfl, -⟩ := exists_cons_of_take h
    rfl
  | case3 => cases hclosed
  | case4 c cs value width closed hrest ih =>
    rw [hrest] at ih
    obtain ⟨es, rfl, hes⟩ := exists_cons_of_take h
    obtain ⟨fs, rfl, hfs⟩ := exists_cons_of_take hes
    rw [stringRest, ih hclosed hfs]
  | case5 c cs hquote hnewline hescape value width closed hrest ih =>
    rw [hrest] at ih
    obtain ⟨es, rfl, hes⟩ := exists_cons_of_take h
    rw [stringRest, ih hclosed hes]
    · exact hquote
    · exact hnewline
    · -- a backslash in front of nothing would leave the string open
      rintro d tail rfl rfl
      cases cs with
      | nil => cases hrest; cases hclosed
      | cons d' cs => exact hescape d' cs rfl rfl

lemma stringLexeme_of_take (hok : (stringLexeme cs).outcome = .ok word)
    (h : cs.take ((stringLexeme cs).width - 1) = ds.take ((stringLexeme cs).width - 1)) :
    stringLexeme ds = stringLexeme cs := by
  have hrest : (stringRest cs).2.2 → cs.take (stringRest cs).2.1 = ds.take (stringRest cs).2.1 →
      stringRest ds = stringRest cs := stringRest_of_take
  unfold stringLexeme at hok h ⊢
  split at hok
  · next value width heq =>
    rw [heq] at hrest h
    rw [hrest rfl h]
  · cases hok

lemma charLexeme_of_take (hok : (charLexeme cs).outcome = .ok word)
    (h : cs.take ((charLexeme cs).width - 1) = ds.take ((charLexeme cs).width - 1)) :
    charLexeme ds = charLexeme cs := by
  revert hok h
  fun_cases charLexeme cs with
  | case2 c cs =>
    intro _ h
    obtain ⟨es, rfl, hes⟩ := exists_cons_of_take h
    obtain ⟨fs, rfl, hfs⟩ := exists_cons_of_take hes
    obtain ⟨gs, rfl, -⟩ := exists_cons_of_take hfs
    rfl
  | case4 c cs hquote hescaped hescape =>
    intro _ h
    obtain ⟨es, rfl, hes⟩ := exists_cons_of_take h
    obtain ⟨fs, rfl, -⟩ := exists_cons_of_take hes
    rw [charLexeme]
    · exact hquote
    · exact fun tail hc _ => hescape hc
    · exact hescape
  | case1 | case3 | case5 | case6 =>
    intro hok
    cases hok

lemma lexeme_of_take (hc : c = '"' ∨ c = '\'') (hok : (lexeme c cs).outcome = .ok word)
    (h : cs.take ((lexeme c cs).width - 1) = ds.take ((lexeme c cs).width - 1)) : lexeme c ds = lexeme c cs := by
  rcases hc with rfl | rfl
  · exact stringLexeme_of_take hok h
  · exact charLexeme_of_take hok h

lemma kind_of_quote (hc : c = '"' ∨ c = '\'')
    (hok : (lexeme c cs).outcome = .ok (kind, value)) : kind = .string ∨ kind = .char := by
  rcases hc with rfl | rfl
  · change (stringLexeme cs).outcome = .ok (kind, value) at hok
    unfold stringLexeme at hok
    split at hok
    · cases hok
      exact .inl rfl
    · cases hok
  · change (charLexeme cs).outcome = .ok (kind, value) at hok
    revert hok
    fun_cases charLexeme cs with
    | case2 | case4 =>
      intro hok
      cases hok
      exact .inr rfl
    | case1 | case3 | case5 | case6 =>
      intro hok
      cases hok

/-! ## The whole text -/

/-- The characters that a token takes in a text. -/
def stretch (t : Token) (cs : List Char) : List Char :=
  (cs.drop t.offset).take t.length

lemma Lexeme.eq_of_rename_eq {l l' : Lexeme} (h : l.rename smallName = l'.rename smallName)
    (hok : l.outcome = .ok (kind, value)) :
    l'.width = l.width ∧ ∃ value', l'.outcome = .ok (kind, value') ∧ ∀ start length,
      revise .small ⟨kind, value', start, length⟩ = revise .small ⟨kind, value, start, length⟩ := by
  obtain ⟨outcome, width⟩ := l
  obtain ⟨outcome', width'⟩ := l'
  obtain rfl : outcome = .ok (kind, value) := hok
  obtain ⟨houtcome, hwidth⟩ := mk.inj h
  cases outcome' with
  | error fault => cases houtcome
  | ok word =>
    obtain ⟨kind', value'⟩ := word
    obtain ⟨rfl, hvalue⟩ := Prod.mk.inj (Except.ok.inj houtcome)
    refine ⟨hwidth.symm, value', rfl, fun start length => ?_⟩
    simp only [revise, Revision.small, hvalue]

lemma behind_map (cs : List Char) : behind (cs.map toLower) = behind cs := by
  have hnewline (c : Char) : (c.toLower == '\n') = (c == '\n') := beq_toLower rfl c
  have hcount : (cs.map toLower).count '\n' = cs.count '\n' := by
    rw [count_eq_countP, count_eq_countP, countP_map]
    exact countP_congr fun c _ => by rw [Function.comp_apply, hnewline]
  unfold behind
  rw [hcount, ← map_reverse, length_takeWhile_map fun c => congrArg Bool.not (hnewline c), length_map]

lemma behind_of_sameLetters (h : SameLetters cs ds) : behind cs = behind ds := by
  rw [← behind_map cs, ← behind_map ds, h]

lemma stretch_at_behind (before ahead : List Char) (kind : TokenKind) (value file : String) (width : Nat) :
    stretch ⟨kind, value, (behind before).inFile file, width⟩ (before ++ ahead) = ahead.take width := by
  rw [stretch, offset_at_behind, drop_left]

/-- The next lexeme of two texts, of which the first one has a token there. -/
lemma lexeme_of_sameLetters {d : Char}
    (hcd : c.toLower = d.toLower) (hcs : SameLetters cs ds) (hok : (lexeme c cs).outcome = .ok (kind, value))
    (hliteral : kind = .string ∨ kind = .char →
      (c :: cs).take (max (lexeme c cs).width 1) = (d :: ds).take (max (lexeme c cs).width 1)) :
    (lexeme c cs).rename smallName = (lexeme d ds).rename smallName := by
  by_cases hc : c = '"' ∨ c = '\''
  · have htake := hliteral (kind_of_quote hc hok)
    rw [show max (lexeme c cs).width 1 = (lexeme c cs).width - 1 + 1 by omega, take_succ_cons, take_succ_cons] at htake
    obtain ⟨rfl, hrest⟩ := cons.inj htake
    rw [lexeme_of_take hc hok hrest]
  · have hd : ¬(d = '"' ∨ d = '\'') := by
      rintro (rfl | rfl)
      · exact hc (.inl ((toLower_eq_iff rfl c).mp hcd))
      · exact hc (.inr ((toLower_eq_iff rfl c).mp hcd))
    rw [not_or] at hc hd
    rw [← lexeme_map cs hc.1 hc.2, ← lexeme_map ds hd.1 hd.2, hcd, hcs]

lemma scanFrom_behind_token (h : cs.drop (skipped cs) = c :: rest) (hok : (lexeme c rest).outcome = .ok (kind, value))
    (file : String) (done : List Char) : scanFrom file (behind done) cs = let before := done ++ cs.take (skipped cs)
      let width := max (lexeme c rest).width 1
      let after := scanFrom file (behind (before ++ (c :: rest).take width)) ((c :: rest).drop width)
      { after with tokens := ⟨kind, value, (behind before).inFile file, width⟩ :: after.tokens } := by
  rw [scanFrom_of_drop_cons file h, over_behind]
  dsimp only
  rw [hok, over_behind]

lemma exists_token_of_faults (h : cs.drop (skipped cs) = c :: rest) {file : String} {here : Place}
    (hfaults : (scanFrom file here cs).faults = []) : ∃ kind value, (lexeme c rest).outcome = .ok (kind, value) := by
  rw [scanFrom_of_drop_cons file h] at hfaults
  cases houtcome : (lexeme c rest).outcome with
  | ok word => exact ⟨word.1, word.2, rfl⟩
  | error fault =>
    rw [houtcome] at hfaults
    cases hfaults

/-- Two texts that differ in the case of letters outside literals have the same tokens at the same places,
up to the case of words. -/
lemma scanFrom_of_sameLetters (file : String) {done done' cs cs' : List Char} (hdone : SameLetters done done')
    (hcs : SameLetters cs cs') (hfaults : (scanFrom file (behind done) cs).faults = [])
    (hliterals : ∀ t ∈ (scanFrom file (behind done) cs).tokens, t.kind = .string ∨ t.kind = .char →
      t.stretch (done ++ cs) = t.stretch (done' ++ cs')) :
    (scanFrom file (behind done') cs').faults = [] ∧ (scanFrom file (behind done) cs).tokens.map (revise .small) =
        (scanFrom file (behind done') cs').tokens.map (revise .small) ∧
      (scanFrom file (behind done) cs).eof = (scanFrom file (behind done') cs').eof := by
  have hgap : skipped cs' = skipped cs := by rw [← skipped_map cs', ← hcs, skipped_map]
  have hdrop := hcs.drop (skipped cs)
  have hbefore := hdone.append (hcs.take (skipped cs))
  have hplace := behind_of_sameLetters hbefore
  cases hrest : cs.drop (skipped cs) with
  | nil =>
    have hrest' : cs'.drop (skipped cs') = [] := by
      rw [hrest] at hdrop
      rw [hgap]
      exact map_eq_nil_iff.mp hdrop.symm
    rw [scanFrom_of_drop_nil file hrest, scanFrom_of_drop_nil file hrest', over_behind, over_behind, hgap, hplace]
    exact ⟨rfl, rfl, rfl⟩
  | cons c rest =>
    have htext : done ++ cs = done ++ cs.take (skipped cs) ++ c :: rest := by
      rw [append_assoc, ← hrest, take_append_drop]
    rw [hrest] at hdrop
    obtain ⟨c', rest', hrest', hc, hrests⟩ := map_eq_cons_iff.mp hdrop.symm
    have htext' : done' ++ cs' = done' ++ cs'.take (skipped cs) ++ c' :: rest' := by
      rw [append_assoc, ← hrest', take_append_drop]
    rw [htext, htext'] at hliterals
    rw [hrest'] at hdrop
    obtain ⟨kind, value, hok⟩ := exists_token_of_faults hrest hfaults
    rw [scanFrom_behind_token hrest hok] at hfaults hliterals ⊢
    dsimp only at hfaults hliterals ⊢
    have hliteral : kind = .string ∨ kind = .char →
        (c :: rest).take (max (lexeme c rest).width 1) = (c' :: rest').take (max (lexeme c rest).width 1) := by
      intro hkind
      have hstretch := hliterals _ mem_cons_self hkind
      rwa [stretch_at_behind, hplace, stretch_at_behind] at hstretch
    obtain ⟨hwidth, value', hok', hrename⟩ :=
      eq_of_rename_eq (lexeme_of_sameLetters hc.symm hrests.symm hok hliteral) hok
    rw [← hgap] at hrest'
    rw [scanFrom_behind_token hrest' hok', hwidth, hgap, hplace]
    dsimp only
    have hpos : 1 ≤ max (lexeme c rest).width 1 := Nat.le_max_right _ 1
    generalize max (lexeme c rest).width 1 = width at *
    have hshorter : ((c :: rest).drop width).length < cs.length := by
      rw [length_drop, ← hrest, length_drop]
      have := congrArg List.length hrest
      rw [length_drop, length_cons] at this
      omega
    obtain ⟨hnone, htokens, heof⟩ := scanFrom_of_sameLetters file (hbefore.append (hdrop.take width))
      (hdrop.drop width) hfaults fun t ht hkind => by
        rw [append_assoc _ (take width _), append_assoc _ (take width _), take_append_drop, take_append_drop]
        exact hliterals t (mem_cons_of_mem _ ht) hkind
    refine ⟨hnone, ?_, heof⟩
    rw [map_cons, map_cons, hrename, htokens]
termination_by cs.length
decreasing_by exact hshorter

end AlgoLang.Token
