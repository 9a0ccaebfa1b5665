/-
# Compiling a text laid out in another way

Any text with the same words is read as one program, revised to stand where the tokens of the text stand.
Tokens follow each other strictly, so findings sorted by place come out in the same order in all of them.
-/
import AlgoLang.Proofs.Relocation.Generation
import AlgoLang.Proofs.Revision.Analysis
import AlgoLang.Proofs.Revision.Compile
import AlgoLang.Proofs.Token.Spelled

namespace AlgoLang

open Place Token Analysis List Prod Revision Reading Diagnostic

variable {digits : List Char} {toks : List Token}

/-! ## The order of places -/

/-- On an earlier line, or further to the left on the same one. -/
def Place.Before (p q : Place) : Prop :=
  p.line < q.line ∨ p.line = q.line ∧ p.column < q.column

lemma Place.before_step (p : Place) (c : Char) : p.Before (p.step c) := by
  unfold step
  split
  · exact .inl (Nat.lt_succ_self p.line)
  · exact .inr ⟨rfl, Nat.lt_succ_self p.column⟩

lemma Place.Before.trans {p q r : Place} (h : p.Before q) (h' : q.Before r) : p.Before r := by
  unfold Before at *
  omega

lemma Place.before_over (p : Place) (c : Char) (cs : List Char) : p.Before (p.over (c :: cs)) := by
  induction cs generalizing p c with
  | nil => exact p.before_step c
  | cons d cs ih => exact (p.before_step c).trans (ih (p.step c) d)

lemma Place.Before.notAfter {p q : Place} (h : p.Before q) (file : String) :
    (p.inFile file).notAfter (q.inFile file) ∧ (q.inFile file).notAfter (p.inFile file) = false := by
  unfold Before at h
  simp only [Location.notAfter, Bool.or_eq_true, Bool.and_eq_true, Bool.or_eq_false_iff, Bool.and_eq_false_iff,
    decide_eq_true_eq, decide_eq_false_iff_not, beq_iff_eq, beq_eq_false_iff_ne]
  simp only [inFile]
  omega

lemma Location.notAfter_self (l : Location) : l.notAfter l := by
  simp [Location.notAfter]

namespace Token

/-- The first token stands strictly before the second one. -/
def StandsBefore (t u : Token) : Prop :=
  t.start.notAfter u.start = true ∧ u.start.notAfter t.start = false

/-- The tokens of a run follow each other strictly. -/
lemma Run.follow {file : String} {done ahead : List Char} {s : Scanned} (h : Run file done ahead s) :
    (∀ t ∈ s.tokens, ∃ front, t.start = (behind (done ++ front)).inFile file) ∧ s.tokens.Pairwise StandsBefore := by
  induction h with
  | stop _ => exact ⟨forall_mem_nil _, .nil⟩
  | @token done gap word rest c _ _ _ _ _ _ ih =>
    obtain ⟨hplaced, hpairs⟩ := ih
    refine ⟨forall_mem_cons.mpr ⟨⟨gap, rfl⟩, fun t ht => ?_⟩, pairwise_cons.mpr ⟨fun t ht => ?_, hpairs⟩⟩
    · obtain ⟨front, hstart⟩ := hplaced t ht
      exact ⟨gap ++ c :: word ++ front, by rw [hstart, append_assoc]⟩
    · obtain ⟨front, hstart⟩ := hplaced t ht
      have hbehind : done ++ (gap ++ c :: word) ++ front = done ++ gap ++ c :: (word ++ front) := by simp
      rw [hbehind, ← over_behind] at hstart
      unfold StandsBefore
      rw [hstart]
      exact (before_over _ c _).notAfter file
  | @fault done gap word rest c _ _ _ _ _ ih =>
    obtain ⟨hplaced, hpairs⟩ := ih
    refine ⟨fun t ht => ?_, hpairs⟩
    obtain ⟨front, hstart⟩ := hplaced t ht
    exact ⟨gap ++ c :: word ++ front, by rw [hstart, append_assoc]⟩

lemma describe_eq_of_word {t t' : Token} (h : t.word = t'.word) : t.describe = t'.describe := by
  obtain ⟨hkind, hvalue⟩ := Prod.mk.inj h
  rw [describe, describe, hkind, hvalue]

end Token

/-! ## Numbered tokens -/

/-- The words as tokens, each on a line of its own that has the number of the word. -/
def numbered (ws : List (TokenKind × String)) : List Token :=
  ws.mapIdx fun i w => ⟨w.1, w.2, { line := i, column := 0 }, 0⟩

lemma tokenAt_of_lt {i : Nat} (h : i < toks.length) : tokenAt toks i = toks[i] := by
  rw [tokenAt, Int.toNat_natCast, Nat.min_eq_left (by omega), getD_eq_getElem _ _ h]

/-- The numbered tokens can be moved to where the tokens of any text with the same words stand. -/
lemma revise_numbered (toks : List Token) : (numbered (toks.map word)).map (revise (.onto toks)) = toks := by
  refine ext_getElem (by simp [numbered]) fun i hi hlt => ?_
  simp [numbered, revise, onto, tokenAt_of_lt hlt, word]

lemma notAfter_tokenAt (h : toks.Pairwise StandsBefore) (m n : Int) :
    (tokenAt toks m).start.notAfter (tokenAt toks n).start =
      decide (min m.toNat (toks.length - 1) ≤ min n.toNat (toks.length - 1)) := by
  cases hempty : toks with
  | nil => simp [tokenAt, Location.notAfter_self]
  | cons t rest =>
    rw [← hempty]
    have hpos : 0 < toks.length := by simp [hempty]
    generalize hi : min m.toNat (toks.length - 1) = i, hj : min n.toNat (toks.length - 1) = j
    have hi' : i < toks.length := by omega
    have hj' : j < toks.length := by omega
    rw [tokenAt, tokenAt, hi, hj, getD_eq_getElem _ _ hi', getD_eq_getElem _ _ hj']
    rw [pairwise_iff_getElem] at h
    rcases Nat.lt_trichotomy i j with hlt | rfl | hlt
    · rw [(h i j hi' hj' hlt).1, decide_eq_true hlt.le]
    · rw [Location.notAfter_self, decide_eq_true le_rfl]
    · rw [(h j i hj' hi' hlt).2, decide_eq_false (Nat.not_le.mpr hlt)]

/-! ## Reading -/

/-- Texts with the same words are read as one program at two places, or are refused with the same words, or
fail on the same literal. -/
lemma Program.ofScanned_of_same_words {a b : Scanned}
    (hwords : a.tokens.map word = b.tokens.map word) (heof : a.eof.describe = b.eof.describe)
    (source source' : String) : (∃ p : Program, ofScanned a source = .ok (.ok (p.revise (.onto a.tokens))) ∧
      ofScanned b source' = .ok (.ok (p.revise (.onto b.tokens))) ∧ p.Closed ∧ ∀ ρ, (p.revise ρ).Closed) ∨
    (∃ d d', ofScanned a source = .ok (.error d) ∧ ofScanned b source' = .ok (.error d') ∧
      (d.phase, d.message, d.severity) = (d'.phase, d'.message, d'.severity) ∧ d.phase = .parsing) ∨
    ∃ fault, ofScanned a source = .error fault ∧ ofScanned b source' = .error fault := by
  have ha := revise_numbered a.tokens
  have hb := revise_numbered b.tokens
  rw [← hwords] at hb
  unfold ofScanned
  cases hparse : parse (numbered (a.tokens.map word)) with
  | ok taken =>
    obtain ⟨_, -, -, hprogram⟩ := Grammar.exists_isProgram_of_parse hparse
    have hx := parse_revise_of_ok (.onto a.tokens) hparse
    have hy := parse_revise_of_ok (.onto b.tokens) hparse
    rw [ha] at hx
    rw [hb] at hy
    obtain ⟨x, hx, hvalue⟩ := hx
    obtain ⟨y, hy, hvalue'⟩ := hy
    rw [hx, hy]
    exact .inl ⟨taken.value, congrArg (Except.ok ∘ Except.ok) hvalue, congrArg (Except.ok ∘ Except.ok) hvalue',
      hprogram.closed, fun ρ => (hprogram.revise ρ).closed⟩
  | error fault =>
    have hx := parse_revise_of_error (.onto a.tokens) hparse
    have hy := parse_revise_of_error (.onto b.tokens) hparse
    rw [ha] at hx
    rw [hb] at hy
    rw [hx, hy]
    cases fault with
    | numeral fault => exact .inr (.inr ⟨fault, rfl, rfl⟩)
    | unexpected wanted found =>
      refine .inr (.inl ⟨_, _, rfl, rfl, ?_, rfl⟩)
      cases found with
      | none => simp [unexpected, heof]
      | some t => rfl

/-! ## Findings -/

/-- One finding at the places of two texts. -/
def AtPlaces (xs ys : List Token) (d d' : Diagnostic) : Prop :=
  ∃ e : Diagnostic, d = e.seen id (onto xs).place ∧ d' = e.seen id (onto ys).place

lemma parallel_atPlaces {xs ys : List Token} (hlength : xs.length = ys.length)
    (hxs : xs.Pairwise StandsBefore) (hys : ys.Pairwise StandsBefore) : Parallel (AtPlaces xs ys) where
  isWarning := by
    rintro _ _ ⟨d, rfl, rfl⟩
    rfl
  notAfter := by
    rintro _ _ _ _ ⟨d, rfl, rfl⟩ ⟨e, rfl, rfl⟩
    exact (notAfter_tokenAt hxs _ _).trans (hlength ▸ (notAfter_tokenAt hys _ _).symm)

lemma found_atPlaces (xs ys : List Token) (p : Program) :
    List.Forall₂ (AtPlaces xs ys) (ofProgram (p.revise (.onto xs))).found
      (ofProgram (p.revise (.onto ys))).found := by
  have hfound (toks : List Token) : (ofProgram (p.revise (.onto toks))).found =
      (ofProgram p).found.map (seen id (onto toks).place) :=
    (map_id _).symm.trans (ofProgram_revise (ρ := .onto toks) p).found.symm
  rw [hfound, hfound, forall₂_map_left_iff, forall₂_map_right_iff, forall₂_same]
  exact fun e _ => ⟨e, rfl, rfl⟩

/-! ## Compilations -/

/-- What a diagnostic says, wherever it says it. -/
def Diagnostic.gist (d : Diagnostic) : Phase × String × Severity :=
  (d.phase, d.message, d.severity)

lemma gists_eq {xs ys : List Token} {ds ds' : List Diagnostic} (h : List.Forall₂ (AtPlaces xs ys) ds ds') :
    ds.map gist = ds'.map gist :=
  map_eq_map_iff.mpr (h.imp fun _ _ ⟨_, hd, hd'⟩ => by
    rw [hd, hd']
    rfl)

/-- **Where tokens stand does not matter.**  Let two texts have the same tokens and no fault of the
scanner.  Unless a whole number in them is too long to be read or the code is to be indented by too
many blanks, which then stops both in the same way,

* both are read, as programs that differ only in the stretches of source they carry, or both are
  refused with one diagnostic that says the same;
* both are compiled with the same success to the same code, with the same errors and the same
  warnings in the same order. -/
theorem compile_of_same_tokens (source source' file file' : String) (indentWidth : Int)
    (hfaults : (Token.scan source file).faults = []) (hfaults' : (Token.scan source' file').faults = [])
    (hsame : (Token.scan source file).all.map Token.word = (Token.scan source' file').all.map Token.word) :
    ((∃ p q, Program.ofSource source file = .ok (.ok p) ∧ Program.ofSource source' file' = .ok (.ok q) ∧
        p.alike q = true) ∨
      (∃ d d', Program.ofSource source file = .ok (.error [d]) ∧
        Program.ofSource source' file' = .ok (.error [d']) ∧
        d.phase = .parsing ∧ d'.phase = .parsing ∧ d.message = d'.message) ∨
      ∃ fault, Program.ofSource source file = .error fault ∧
        Program.ofSource source' file' = .error fault ∧ ¬Short (Token.scan source file).tokens) ∧
    ((∃ c c', compile source file indentWidth = .ok c ∧ compile source' file' indentWidth = .ok c' ∧
        c.success = c'.success ∧ c.code = c'.code ∧
        c.errors.map Diagnostic.gist = c'.errors.map Diagnostic.gist ∧
        c.warnings.map Diagnostic.gist = c'.warnings.map Diagnostic.gist) ∨
      ∃ fault, compile source file indentWidth = .error fault ∧
        compile source' file' indentWidth = .error fault ∧
        (¬Short (Token.scan source file).tokens ∨ Numeral.spaces indentWidth = .error fault)) := by
  obtain ⟨hwords, hend⟩ : (Token.scan source file).tokens.map Token.word =
      (Token.scan source' file').tokens.map Token.word ∧
      [(Token.scan source file).eof].map Token.word = [(Token.scan source' file').eof].map Token.word := by
    rw [Token.Scanned.all, Token.Scanned.all, List.map_append, List.map_append] at hsame
    exact List.append_inj' hsame rfl
  have hread := Program.ofScanned_of_same_words hwords (Token.describe_eq_of_word (List.singleton_inj.mp hend))
    source source'
  have hlong : ∀ fault, Program.ofScanned (Token.scan source file) source = .error fault →
      ¬Short (Token.scan source file).tokens := by
    intro fault hfault hshort
    rcases Grammar.ofScanned_cases _ source hshort with ⟨p, ts, hp, -⟩ | ⟨d, hd, -⟩
    · cases hp.symm.trans hfault
    · cases hd.symm.trans hfault
  unfold Program.ofSource compile
  dsimp only
  rw [hfaults, hfaults', List.isEmpty_nil, if_pos rfl, if_pos rfl, if_pos rfl, if_pos rfl]
  rcases hread with ⟨p, hp, hq, hclosed, hrevised⟩ | ⟨d, d', hd, hd', hgist, hphase⟩ | ⟨fault, hf, hf'⟩
  · rw [hp, hq]
    refine ⟨.inl ⟨_, _, rfl, rfl, hclosed.alike _ _⟩, ?_⟩
    have hlength : (Token.scan source file).tokens.length = (Token.scan source' file').tokens.length := by
      simpa using congrArg List.length hwords
    have hparallel := parallel_atPlaces hlength (Token.scan_run source file).follow.2
      (Token.scan_run source' file').follow.2
    rcases hparallel.ofProgram (hrevised _) (hrevised _) (found_atPlaces _ _ p)
      { file, tokenCount := (Token.scan source file).all.length }
      { file := file', tokenCount := (Token.scan source' file').all.length } ⟨rfl, rfl⟩ .nil indentWidth with
      ⟨c, c', hc, hc', herrors, hwarnings, hcode⟩ | ⟨fault, hf, hf', hspaces⟩
    · have hcodes : c.code = c'.code := by
        rcases hcode with ⟨hnone, hnone'⟩ | ⟨indent, code, code', hgenerate, hgenerate', hcode, hcode'⟩
        · rw [hnone, hnone']
        · rw [hclosed.generate_revise] at hgenerate hgenerate'
          rw [hcode, hcode', Except.ok.inj (hgenerate.symm.trans hgenerate')]
      exact .inl ⟨c, c', hc, hc', congrArg Option.isSome hcodes, hcodes, gists_eq herrors, gists_eq hwarnings⟩
    · exact .inr ⟨fault, hf, hf', .inr hspaces⟩
  · rw [hd, hd']
    have hphases : d.phase = d'.phase := congrArg Prod.fst hgist
    have hmessages : d.message = d'.message := congrArg (fun g => g.2.1) hgist
    refine ⟨.inr (.inl ⟨d, d', rfl, rfl, hphase, hphases.symm.trans hphase, hmessages⟩),
      .inl ⟨_, _, rfl, rfl, rfl, rfl, ?_, rfl⟩⟩
    exact congrArg (fun g => [g]) hgist
  · rw [hf, hf']
    exact ⟨.inr (.inr ⟨fault, rfl, rfl, hlong fault hf⟩), .inr ⟨fault, rfl, rfl, .inl (hlong fault hf)⟩⟩

/-- One program on one line, and on several with a remark. -/
theorem compile_of_same_tokens_reflowed :
    ∃ c c', compile "ALGORITHM p BEGIN x <- y END." = .ok c ∧
      compile "ALGORITHM p\nBEGIN\n  x <- y // z\nEND.\n" = .ok c' ∧ c.success = c'.success ∧ c.code = c'.code ∧
      c.errors.map Diagnostic.gist = c'.errors.map Diagnostic.gist := by
  have hsame := compile_of_same_tokens "ALGORITHM p BEGIN x <- y END."
    "ALGORITHM p\nBEGIN\n  x <- y // z\nEND.\n" defaultFile defaultFile 4 (by decide +kernel) (by decide +kernel)
    (by decide +kernel)
  have hshort : Short (Token.scan "ALGORITHM p BEGIN x <- y END.").tokens := by
    unfold Short
    decide +kernel
  rcases hsame.2 with ⟨c, c', hc, hc', hsuccess, hcode, herrors, -⟩ | ⟨fault, -, -, hlong | hspaces⟩
  · exact ⟨c, c', hc, hc', hsuccess, hcode, herrors⟩
  · exact absurd hshort hlong
  · exact nomatch hspaces

def constantText (digits : List Char) : String :=
  String.ofList ("ALGORITHM a CONST n = ".toList ++ digits ++ " BEGIN END.".toList)

lemma spelled_constantText (hdigits : digits.all Char.isDigit) (hne : digits ≠ []) :
    Spelled [(.keyword .algorithm, "ALGORITHM"), (.identifier, "a"), (.keyword .const_, "CONST"),
        (.identifier, "n"), (.mark .equal, "="), (.integer, .ofList digits), (.keyword .begin_, "BEGIN"),
        (.keyword .end_, "END"), (.mark .dot, ".")]
      (constantText digits).toList := by
  have htext : (constantText digits).toList = "ALGORITHM".toList ++ ' ' :: ("a".toList ++ ' ' :: ("CONST".toList ++
      ' ' :: ("n".toList ++ ' ' :: '=' :: ' ' :: (digits ++ ' ' :: ("BEGIN".toList ++ ' ' :: ("END".toList ++
      ['.'])))))) := by
    have hlist : (constantText digits).toList =
        "ALGORITHM a CONST n = ".toList ++ digits ++ " BEGIN END.".toList := String.toList_ofList
    rw [hlist]
    simp
  have hend : Spelled [(.keyword .begin_, "BEGIN"), (.keyword .end_, "END"), (.mark .dot, ".")]
      (' ' :: ("BEGIN".toList ++ ' ' :: ("END".toList ++ ['.']))) := by
    refine .space rfl (.spaced rfl (by rfl) (.name rfl (by rfl) ?_ (.one rfl rfl .done)))
    rintro c ⟨⟩
    decide
  rw [htext]
  refine .spaced rfl (by rfl) (.spaced rfl (by rfl) (.spaced rfl (by rfl)
    (.spaced rfl (by rfl) ?_)))
  exact .one rfl rfl (.space rfl (.number hdigits hne (apart_cons rfl) hend))

lemma parse_constant {t₁ t₂ t₃ t₄ t₅ t₆ : Token} (h₁ : t₁.kind = .keyword .algorithm)
    (h₂ : t₂.kind = .identifier) (h₃ : t₃.kind = .keyword .const_) (h₄ : t₄.kind = .identifier)
    (h₅ : t₅.kind = .mark .equal) (h₆ : t₆.kind = .integer) (hlong : maxDigits < t₆.value.length) (rest : List Token) :
    Program.parse (t₁ :: t₂ :: t₃ :: t₄ :: t₅ :: t₆ :: rest) = .error (.numeral (.reading t₆.value.length)) := by
  have hread : Expr.parseConstant (t₆ :: rest) = .error (.numeral (.reading t₆.value.length)) := by
    have hnumeral : Numeral.read t₆.value.toList = .error (.reading t₆.value.length) := by
      rw [Numeral.read, String.length_toList, if_neg (by omega)]
    simp [Expr.parseConstant, Expr.literal?, h₆, hnumeral, bind, Except.bind]
  have hconstants : Declarations.parseConstants t₃ (t₄ :: t₅ :: t₆ :: rest) =
      .error (.numeral (.reading t₆.value.length)) := by
    rw [Declarations.parseConstants, take?_cons _ h₄]
    simp only [Taken.one, expect_cons _ _ h₅, hread, bind, Except.bind]
  have hdecls : Declarations.parse {} t₂ (t₃ :: t₄ :: t₅ :: t₆ :: rest) =
      .error (.numeral (.reading t₆.value.length)) := by
    rw [Declarations.parse]
    simp only [h₃, hconstants, bind, Except.bind]
  unfold Program.parse
  simp only [expect_cons _ _ h₁, Taken.one, expectName_cons _ _ h₂, hdecls, bind, Except.bind]

lemma ofScanned_constantText (hdigits : digits.all Char.isDigit) (hlong : maxDigits < digits.length) :
    (scan (constantText digits)).faults = [] ∧
      Program.ofScanned (scan (constantText digits)) (constantText digits) = .error (.reading digits.length) := by
  have hne : digits ≠ [] := ne_nil_of_length_pos (Nat.zero_lt_of_lt hlong)
  obtain ⟨tokens, eof, hscan, -, hwords⟩ := (spelled_constantText hdigits hne).scanFrom defaultFile {}
  have hscan' : scan (constantText digits) = ⟨tokens, eof, []⟩ := hscan
  obtain ⟨t₁, _, rfl, h₁, hwords⟩ := map_eq_cons_iff.mp hwords
  obtain ⟨t₂, _, rfl, h₂, hwords⟩ := map_eq_cons_iff.mp hwords
  obtain ⟨t₃, _, rfl, h₃, hwords⟩ := map_eq_cons_iff.mp hwords
  obtain ⟨t₄, _, rfl, h₄, hwords⟩ := map_eq_cons_iff.mp hwords
  obtain ⟨t₅, _, rfl, h₅, hwords⟩ := map_eq_cons_iff.mp hwords
  obtain ⟨t₆, rest, rfl, h₆, -⟩ := map_eq_cons_iff.mp hwords
  have hvalue : t₆.value = .ofList digits := congrArg snd h₆
  have hlength : t₆.value.length = digits.length := by rw [hvalue, String.length_ofList]
  have hparse := parse_constant (congrArg fst h₁) (congrArg fst h₂) (congrArg fst h₃)
    (congrArg fst h₄) (congrArg fst h₅) (congrArg fst h₆) (hlength ▸ hlong) rest
  rw [hscan', Program.ofScanned, hparse, hlength]
  exact ⟨rfl, rfl⟩

/-- A number of more digits than can be read is no fault of the scanner, yet there is neither a program
nor a diagnostic. -/
theorem ofSource_too_many_digits :
    (Token.scan (constantText (List.replicate (maxDigits + 1) '1'))).faults = [] ∧
      (∀ answer, Program.ofSource (constantText (List.replicate (maxDigits + 1) '1')) ≠ .ok answer) ∧
      ∀ c, compile (constantText (List.replicate (maxDigits + 1) '1')) ≠ .ok c := by
  have hdigits (n : Nat) : (List.replicate n '1').all Char.isDigit = true := by
    rw [List.all_replicate]
    exact ite_self true
  obtain ⟨hfaults, hread⟩ := ofScanned_constantText (hdigits (maxDigits + 1))
    (by rw [List.length_replicate]; exact Nat.lt_succ_self maxDigits)
  refine ⟨hfaults, fun answer hanswer => ?_, fun c hc => ?_⟩
  · rw [Program.ofSource, hfaults, hread] at hanswer
    cases hanswer
  · rw [compile, hfaults, hread] at hc
    cases hc

end AlgoLang
