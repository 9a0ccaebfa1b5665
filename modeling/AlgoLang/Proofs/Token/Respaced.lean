/-
# Words with single blanks between them

What a token is depends on no character behind it but the first one, and not on that one if it is a blank.
So the words of a text, cut out and joined with single blanks, are the same words again.
-/
import AlgoLang.Proofs.LetterCase.Scan

namespace AlgoLang.Token

open Lexeme List Text
open Char (isDigit)

variable {c : Char} {cs rest tail : List Char} {word : TokenKind × String} {ts : List Token} {file : String}

/-- The text ends here or goes on with a blank. -/
def Spaced (tail : List Char) : Prop :=
  ∀ d ∈ tail.head?, d = ' '

lemma spaced_cons (rest : List Char) : Spaced (' ' :: rest) := by
  rintro d ⟨⟩
  rfl

lemma Spaced.stops (h : Spaced tail) {p : Char → Bool} (hp : p ' ' = false) : ∀ d ∈ tail.head?, p d = false := by
  intro d hd
  rw [h d hd, hp]

/-! ## Lexemes before a blank -/

lemma nameLexeme_spaced (htail : Spaced tail) (cs : List Char) :
    nameLexeme (cs.take (nameLexeme cs).width ++ tail) = nameLexeme cs := by
  have hwidth : (nameLexeme cs).width = (cs.takeWhile isNameChar).length := by
    unfold nameLexeme
    dsimp only
    split <;> rfl
  have hfront : cs.take (nameLexeme cs).width = cs.takeWhile isNameChar := by
    rw [hwidth]
    exact (prefix_iff_eq_take.mp <| takeWhile_prefix _).symm
  have hname : (cs.takeWhile isNameChar ++ tail).takeWhile isNameChar = cs.takeWhile isNameChar :=
    takeWhile_append_stop all_takeWhile (htail.stops rfl)
  rw [hfront]
  unfold nameLexeme
  rw [hname]

lemma numberLexeme_whole {whole more : List Char} (hwhole : whole.all isDigit)
    (hmore : ∀ d ∈ more.head?, d.isDigit = false) (hpoint : ∀ r, more = '.' :: r → r.takeWhile isDigit = []) :
    numberLexeme (whole ++ more) = .token .integer (.ofList whole) whole.length := by
  unfold numberLexeme
  rw [takeWhile_append_stop hwhole hmore, dropWhile_append_stop hwhole hmore]
  dsimp only
  split
  · next r => rw [hpoint r rfl, isEmpty_nil, if_pos rfl]
  · rfl

lemma numberLexeme_fraction {whole r : List Char} (hwhole : whole.all isDigit) (hr : r.takeWhile isDigit ≠ []) :
    numberLexeme (whole ++ '.' :: r) = .token .real (.ofList (whole ++ '.' :: r.takeWhile isDigit))
      (whole.length + 1 + (r.takeWhile isDigit).length) := by
  have hpoint : ∀ d ∈ ('.' :: r).head?, d.isDigit = false := by simp
  unfold numberLexeme
  rw [takeWhile_append_stop hwhole hpoint, dropWhile_append_stop hwhole hpoint]
  exact if_neg (by simpa using hr)

lemma numberLexeme_spaced (htail : Spaced tail) (cs : List Char) :
    numberLexeme (cs.take (numberLexeme cs).width ++ tail) = numberLexeme cs := by
  have hwhole : (cs.takeWhile isDigit).all isDigit := all_takeWhile
  have hbehind : ∀ d ∈ (cs.dropWhile isDigit).head?, d.isDigit = false := by
    intro d hd
    simpa [Option.mem_def.mp hd] using head?_dropWhile_not isDigit cs
  rw [← takeWhile_append_dropWhile (p := isDigit) (l := cs)]
  generalize cs.takeWhile isDigit = whole, cs.dropWhile isDigit = behind at hwhole hbehind ⊢
  by_cases hreal : ∃ r, behind = '.' :: r ∧ r.takeWhile isDigit ≠ []
  · obtain ⟨r, rfl, hr⟩ := hreal
    have hstop : (r.takeWhile isDigit ++ tail).takeWhile isDigit = r.takeWhile isDigit :=
      takeWhile_append_stop all_takeWhile (htail.stops rfl)
    have hfront : r.take (r.takeWhile isDigit).length = r.takeWhile isDigit :=
      (prefix_iff_eq_take.mp <| takeWhile_prefix _).symm
    rw [numberLexeme_fraction hwhole hr, token, Nat.add_assoc, take_length_add_append, Nat.add_comm 1,
      take_succ_cons, hfront, append_assoc, cons_append, numberLexeme_fraction hwhole (by rwa [hstop]), hstop,
      token, Nat.add_assoc, Nat.add_comm 1]
  · have hpoint : ∀ r, behind = '.' :: r → r.takeWhile isDigit = [] :=
      fun r hr => not_not.mp fun hne => hreal ⟨r, hr, hne⟩
    rw [numberLexeme_whole hwhole hbehind hpoint, token, take_left, numberLexeme_whole hwhole (htail.stops rfl), token]
    rintro r rfl
    exact absurd (htail '.' rfl) (by decide)

lemma width_pos (c : Char) (cs : List Char) : 1 ≤ (lexeme c cs).width := by
  have hnumber (hc : c.isDigit) : 1 ≤ (numberLexeme (c :: cs)).width := by
    unfold numberLexeme
    rw [takeWhile_cons_of_pos hc]
    dsimp only
    split
    · split <;> simp only [token, length_cons] <;> omega
    · exact Nat.le_add_left 1 _
  have hname (hc : c.isAlpha) : 1 ≤ (nameLexeme (c :: cs)).width := by
    unfold nameLexeme
    rw [takeWhile_cons_of_pos (by simp [isNameChar, Char.isAlphanum, hc])]
    dsimp only
    split <;> exact Nat.le_add_left 1 _
  unfold lexeme
  split
  case h_9 => unfold stringLexeme; split <;> exact Nat.le_add_left 1 _
  case h_10 => fun_cases charLexeme cs <;> simp [token]
  case h_11 =>
    split
    · simp [mark, token]
    · split
      · next hc => exact hnumber hc
      · split
        · next hc => exact hname hc
        · exact Nat.le_refl 1
  all_goals decide

lemma lexeme_sign_spaced (htail : Spaced tail) (h : c ∈ ['<', '>', '!']) (hok : (lexeme c cs).outcome = .ok word) :
    lexeme c (cs.take ((lexeme c cs).width - 1) ++ tail) = lexeme c cs := by
  have hcases : tail = [] ∨ ∃ more, tail = ' ' :: more := by
    cases tail with
    | nil => exact .inl rfl
    | cons d more => exact .inr ⟨more, by rw [htail d rfl]⟩
  revert hok
  fun_cases lexeme c cs with
  | case1 | case2 | case3 | case5 | case7 => exact fun _ => rfl
  | case4 | case6 =>
    intro _
    rcases hcases with rfl | ⟨more, rfl⟩ <;> rfl
  | case8 => simp
  | case9 | case10 => exact absurd h (by decide)
  | case11 | case12 | case13 | case14 => simp_all

/-- A lexeme is read again from its own characters, if a blank follows them or nothing. -/
lemma lexeme_spaced (htail : Spaced tail) (hok : (lexeme c cs).outcome = .ok word) :
    lexeme c (cs.take ((lexeme c cs).width - 1) ++ tail) = lexeme c cs := by
  have hle : (lexeme c cs).width - 1 ≤ cs.length := by
    have := lexeme_width_le c cs
    omega
  by_cases hquote : c = '"' ∨ c = '\''
  · refine lexeme_of_take hquote hok ?_
    rw [take_append_of_le_length (by rw [length_take]; omega), take_take, Nat.min_self]
  cases halphanum : c.isAlphanum with
  | true =>
    have hfront : c :: (cs.take ((lexeme c cs).width - 1) ++ tail) = (c :: cs).take (lexeme c cs).width ++ tail := by
      rw [← cons_append, ← take_succ_cons, Nat.sub_add_cancel (width_pos c cs)]
    rw [lexeme_of_isAlphanum halphanum, hfront, lexeme_of_isAlphanum halphanum]
    split
    · exact numberLexeme_spaced htail _
    · exact nameLexeme_spaced htail _
  | false =>
    by_cases hsign : c ∈ ['<', '>', '!']
    · exact lexeme_sign_spaced htail hsign hok
    · have hsingle : c ∉ ['<', '>', '!', '"', '\''] := by simp_all
      rw [lexeme_of_single halphanum hsingle, lexeme_of_single halphanum hsingle]

/-- No token begins with a blank or a comment. -/
lemma skipOne_spaced (htail : Spaced tail) (hok : (lexeme c cs).outcome = .ok word) :
    skipOne (c :: (cs.take ((lexeme c cs).width - 1) ++ tail)) = 0 := by
  by_cases hslash : c = '/'
  · subst hslash
    cases tail with
    | nil => rfl
    | cons d more =>
      obtain rfl := htail d rfl
      rfl
  · refine Lift.skipOne_of_ne hslash (fun hbrace => ?_) (Bool.eq_false_iff.mpr fun hspace => ?_) _
    · subst hbrace
      cases hok
    · simp only [isSpace, Bool.or_eq_true, beq_iff_eq] at hspace
      rcases hspace with ((rfl | rfl) | rfl) | rfl <;> cases hok

/-! ## Words on their own -/

/-- The text is read as the word before a blank and at the end of a text. -/
def Reads (word : TokenKind × String) (text : List Char) : Prop :=
  ∀ tail ws, Spaced tail → Spelled ws tail → Spelled (word :: ws) (text ++ tail)

lemma reads_lexeme (hok : (lexeme c cs).outcome = .ok word) : Reads word ((c :: cs).take (max (lexeme c cs).width 1)) := by
  intro tail ws htail hws
  have hpos := width_pos c cs
  have hle := lexeme_width_le c cs
  rw [Nat.max_eq_left hpos, show (lexeme c cs).width = (lexeme c cs).width - 1 + 1 by omega, take_succ_cons]
  refine .word (skipOne_spaced htail hok) ?_ hws
  rw [lexeme_spaced htail hok, token, ← hok, length_cons, length_take_of_le (by omega), Nat.sub_add_cancel hpos]

lemma reads_of_mem (done cs : List Char) (hfaults : (scanFrom file (.behind done) cs).faults = []) :
    ∀ t ∈ (scanFrom file (.behind done) cs).tokens, Reads t.word (t.stretch (done ++ cs)) := by
  cases hrest : cs.drop (skipped cs) with
  | nil =>
    rw [scanFrom_of_drop_nil file hrest]
    exact forall_mem_nil _
  | cons c rest =>
    have htext : done ++ cs = done ++ cs.take (skipped cs) ++ c :: rest := by
      rw [append_assoc, ← hrest, take_append_drop]
    obtain ⟨kind, value, hok⟩ := exists_token_of_faults hrest hfaults
    rw [scanFrom_behind_token hrest hok] at hfaults ⊢
    rw [htext]
    have hshorter : ((c :: rest).drop (max (lexeme c rest).width 1)).length < cs.length := by
      have hlength := congrArg List.length hrest
      rw [length_drop, length_cons] at hlength
      rw [length_drop, length_cons]
      omega
    refine forall_mem_cons.mpr ⟨?_, ?_⟩
    · rw [stretch_at_behind]
      exact reads_lexeme hok
    · have ih := reads_of_mem _ _ hfaults
      rwa [append_assoc (done ++ _), take_append_drop] at ih
termination_by cs.length
decreasing_by exact hshorter

lemma spelled_intercalate {f : Token → List Char} (h : ∀ t ∈ ts, Reads t.word (f t)) {more : List (List Char)}
    (hmore : more ∈ [[], [[]]]) : Spelled (ts.map Token.word) ([' '].intercalate (ts.map f ++ more)) := by
  induction ts with
  | nil =>
    rcases mem_pair.mp hmore with rfl | rfl <;> exact .done
  | cons t ts ih =>
    obtain ⟨ht, hts⟩ := forall_mem_cons.mp h
    have hrest := ih hts
    rw [map_cons, map_cons, cons_append]
    cases htexts : ts.map f ++ more with
    | nil =>
      obtain rfl := map_eq_nil_iff.mp (append_eq_nil_iff.mp htexts).1
      simpa using ht [] [] nofun .done
    | cons u us =>
      rw [htexts] at hrest
      rw [intercalate_cons_cons, append_assoc, singleton_append]
      exact ht _ _ (spaced_cons _) (.space rfl hrest)

/-- The words of some tokens of a text, cut out of it and joined with single blanks. -/
def respaced (source : String) (ts : List Token) : String :=
  " ".intercalate (ts.map fun t => String.ofList (t.stretch source.toList))

lemma toList_respaced (source : String) (ts : List Token) :
    (respaced source ts).toList = [' '].intercalate (ts.map (·.stretch source.toList)) := by
  simp [respaced, String.toList_intercalate, Function.comp_def]

/-- **Respacing changes no word.**  A text without faults is cut into the words of its tokens, and these are
joined with single blanks, with or without the empty word of the end.  Scanning the outcome finds no fault
and the same tokens, by kind and value. -/
theorem scan_respaced (source file file' : String) (h : (scan source file).faults = []) :
    ∀ ts ∈ [(scan source file).tokens, (scan source file).all],
      (scan (respaced source ts) file').faults = [] ∧
        (scan (respaced source ts) file').all.map Token.word = (scan source file).all.map Token.word := by
  -- The text is spelled by the words, and nothing else can be scanned then.
  have hreads : ∀ t ∈ (scan source file).tokens, Reads t.word (t.stretch source.toList) :=
    reads_of_mem [] source.toList h
  have hscan (ts : List Token) (more : List (List Char)) (hmore : more ∈ [[], [[]]])
      (hts : ts.map (·.stretch source.toList) = (scan source file).tokens.map (·.stretch source.toList) ++ more) :
      (scan (respaced source ts) file').faults = [] ∧
        (scan (respaced source ts) file').all.map Token.word = (scan source file).all.map Token.word := by
    have hspelled := spelled_intercalate hreads hmore
    rw [← hts, ← toList_respaced] at hspelled
    obtain ⟨tokens, eof, heq, -, hwords⟩ := hspelled.scanFrom file' {}
    have heof := (scan_run (respaced source ts) file').eof_eq
    have heof' := (scan_run source file).eof_eq
    rw [scan, heq] at heof ⊢
    refine ⟨rfl, ?_⟩
    rw [Scanned.all, Scanned.all, map_append, map_append, hwords, heof', heof]
    rfl
  have hend : (scan source file).eof.stretch source.toList = [] := by
    rw [(scan_run source file).eof_eq]
    exact take_zero
  refine forall_mem_cons.mpr ⟨hscan _ [] (by simp) (by simp), forall_mem_singleton.mpr ?_⟩
  exact hscan _ [[]] (by simp) (by rw [Scanned.all, map_append, map_singleton, hend])

theorem scan_respaced_crowded :
    respaced "x<--1.5//n\n'a'<=y" (scan "x<--1.5//n\n'a'<=y").all = "x <- - 1.5 'a' <= y " ∧
      (scan "x <- - 1.5 'a' <= y ").all.map Token.word = (scan "x<--1.5//n\n'a'<=y").all.map Token.word := by
  have htext : respaced "x<--1.5//n\n'a'<=y" (scan "x<--1.5//n\n'a'<=y").all = "x <- - 1.5 'a' <= y " := by
    decide +kernel
  have hsame := scan_respaced "x<--1.5//n\n'a'<=y" defaultFile defaultFile (by decide +kernel) _
    (mem_cons_of_mem _ (mem_singleton_self _))
  exact ⟨htext, htext ▸ hsame.2⟩

end AlgoLang.Token
