/-
# Compiling a text in other letters

Texts that differ in the case of letters outside literals are read as programs that are the same up to the
case of names, or refused at the same place; and the analysis, which compares names in small letters, finds
the same in either.
-/
import AlgoLang.Proofs.LetterCase.Scan
import AlgoLang.Proofs.Revision.Analysis
import AlgoLang.Proofs.Revision.Compile

namespace AlgoLang

open Token Text List Diagnostic
open Char (toLower)

open Text (SameLetters smallName)

variable {p p' : Program}

/-! ## Lines -/

namespace Text

lemma isLineBreak_toLower (c : Char) : isLineBreak c.toLower = isLineBreak c :=
  apply_toLower (fun _ => eq_false_of_isAlpha (by decide +kernel)) c

lemma splitLinesFrom_map (line cs : List Char) : splitLinesFrom (line.map toLower) (cs.map toLower) =
      (splitLinesFrom line cs).map (map toLower) := by
  fun_induction splitLinesFrom line cs with
  | case1 line hempty =>
    rw [isEmpty_iff.mp hempty]
    rfl
  | case2 line hempty =>
    rw [map_nil, splitLinesFrom, isEmpty_map, if_neg hempty, ← map_reverse]
    rfl
  | case3 line cs ih => exact congrArg₂ cons map_reverse.symm ih
  | case4 line c cs hreturn hbreak ih =>
    rw [map_cons, splitLinesFrom, isLineBreak_toLower, if_pos hbreak]
    · exact congrArg₂ cons map_reverse.symm ih
    · exact not_front_map rfl rfl hreturn
  | case5 line c cs hreturn hbreak ih =>
    rw [map_cons, splitLinesFrom, isLineBreak_toLower, if_neg hbreak]
    · exact ih
    · exact not_front_map rfl rfl hreturn

lemma SameLetters.splitLines {cs ds : List Char} (h : SameLetters cs ds) :
    (Text.splitLines cs).map (map toLower) = (Text.splitLines ds).map (map toLower) := by
  have hcut (es : List Char) : splitLinesFrom [] (es.map toLower) =
      (Text.splitLines es).map (map toLower) := splitLinesFrom_map [] es
  rw [← hcut cs, ← hcut ds, h]

lemma isEmpty_smallName (n : String) : (smallName n).isEmpty = n.isEmpty := by
  unfold smallName
  split
  · rw [Bool.eq_iff_iff, String.isEmpty_iff, String.isEmpty_iff, ← String.toList_inj, ← String.toList_inj,
      String.toLower, String.toList_map, String.toList_empty, map_eq_nil_iff]
  · rfl

end Text

/-! ## Reading -/

lemma Token.describe_revise (t : Token) :
    (t.revise .small).describe = t.describe ∨ (t.revise .small).describe = smallName t.describe := by
  have hkind : (t.revise .small).kind = t.kind := rfl
  cases hword : t.kind.isWord with
  | false => exact .inl (by rw [describe, value_revise_of_not_isWord _ hword, hkind, describe])
  | true =>
    have hvalue : (t.revise .small).value = smallName t.value := by
      rw [revise, hword, if_pos rfl]
      rfl
    rw [describe, hvalue, Text.isEmpty_smallName, hkind, describe]
    split
    · exact .inl rfl
    · exact .inr rfl

namespace Program

lemma quoteAfter_text (wanted : Wanted) : quoteAfter false wanted.text.toList = false := by
  cases wanted <;> exact (congrArg (quoteAfter false) String.toList_ofList).trans rfl

lemma opensQuote_expected (wanted : Wanted) : OpensQuote ("Expected " ++ wanted.text ++ ", got '") := by
  have hbefore : quoteAfter false "Expected ".toList = false := by decide +kernel
  unfold OpensQuote
  rw [String.toList_append, String.toList_append, quoteAfter_append, quoteAfter_append, hbefore, quoteAfter_text]
  decide +kernel

lemma lowered_unexpected_revise (lines : List (List Char)) (eof : Token) (wanted : Wanted)
    (found : Option Token) : (unexpected lines eof wanted (found.map (.revise .small))).lowered =
      (unexpected lines eof wanted found).lowered := by
  cases found with
  | none => rfl
  | some t =>
    have hmessage : lowerQuoted s!"Expected {wanted.text}, got '{(t.revise .small).describe}'" =
        lowerQuoted s!"Expected {wanted.text}, got '{t.describe}'" := by
      rcases t.describe_revise with heq | heq
      · rw [heq]
      · rw [heq]
        exact lowerQuoted_smallName (opensQuote_expected wanted) t.describe "'"
    simp only [unexpected, lowered, Option.map_some, Option.getD_some, hmessage]
    rfl

lemma toLower_sourceLine? (lines : List (List Char)) (line : Int) :
    (sourceLine? lines line).map String.toLower = sourceLine? (lines.map (map toLower)) line := by
  have htext (cs : List Char) : (String.ofList cs).toLower = String.ofList (cs.map toLower) := by
    rw [← String.toList_inj, String.toLower, String.toList_map, String.toList_ofList, String.toList_ofList]
  unfold sourceLine?
  split
  · rw [getElem?_map, Option.map_map, Option.map_map]
    exact congrArg₂ Option.map (funext htext) rfl
  · rfl

/-- What is said of a token that does not fit depends on the letters of the text and on the token up to
case. -/
lemma lowered_unexpected {lines lines' : List (List Char)}
    (hlines : lines.map (map toLower) = lines'.map (map toLower)) (eof : Token) (wanted : Wanted)
    {found found' : Option Token} (hfound : found.map (Token.revise .small) = found'.map (Token.revise .small)) :
    (unexpected lines eof wanted found).lowered = (unexpected lines' eof wanted found').lowered := by
  rw [← lowered_unexpected_revise lines, ← lowered_unexpected_revise lines', hfound]
  simp only [unexpected, lowered, toLower_sourceLine?, hlines]

/-- What is read of a text, up to the case of names. -/
def loweredOutcome (r : Except (List Diagnostic) Program) : Except (List Diagnostic) Program :=
  (r.map (revise .small)).mapError (List.map lowered)

/-- Tokens that are the same up to the case of words, in texts of the same letters, are read alike: as
programs with the same findings, or with the same fault. -/
lemma ofScanned_of_recased {s s' : Scanned} {source source' : String} (htokens : s.tokens.map (Token.revise .small) =
    s'.tokens.map (Token.revise .small)) (heof : s.eof = s'.eof) (hletters : SameLetters source.toList source'.toList) :
    (∃ p p', ofScanned s source = .ok (.ok p) ∧ ofScanned s' source' = .ok (.ok p') ∧
      p.revise .small = p'.revise .small ∧ p.Closed ∧ p'.Closed) ∨
    (∃ d d', ofScanned s source = .ok (.error d) ∧ ofScanned s' source' = .ok (.error d') ∧ d.lowered = d'.lowered) ∨
    ∃ fault, ofScanned s source = .error fault ∧ ofScanned s' source' = .error fault := by
  rcases parse_of_same_revised .small htokens with ⟨taken, taken', hok, hok', hsame⟩ |
    ⟨fault, fault', herror, herror', hsame⟩
  · obtain ⟨_, -, -, hprogram⟩ := Grammar.exists_isProgram_of_parse hok
    obtain ⟨_, -, -, hprogram'⟩ := Grammar.exists_isProgram_of_parse hok'
    exact .inl ⟨taken.value, taken'.value, by rw [ofScanned, hok], by rw [ofScanned, hok'], hsame,
      hprogram.closed, hprogram'.closed⟩
  · right
    cases fault with
    | unexpected wanted found =>
      cases fault' with
      | numeral => cases hsame
      | unexpected wanted' found' =>
        injection hsame with hwanted hfound
        subst hwanted
        refine .inl ⟨_, _, by rw [ofScanned, herror], by rw [ofScanned, herror'], ?_⟩
        rw [heof]
        exact lowered_unexpected hletters.splitLines s'.eof wanted hfound
    | numeral fault =>
      cases fault' with
      | unexpected => cases hsame
      | numeral fault' =>
        injection hsame with hfault
        subst hfault
        exact .inr ⟨fault, by rw [ofScanned, herror], by rw [ofScanned, herror']⟩

end Program

/-! ## Findings -/

/-- Findings that are the same up to the case of the names they quote. -/
def SameUpToCase (d d' : Diagnostic) : Prop :=
  d.lowered = d'.lowered

lemma parallel_sameUpToCase : Parallel SameUpToCase where
  isWarning {d d'} h := (congrArg isWarning h : d.lowered.isWarning = d'.lowered.isWarning)
  notAfter {d d' e e'} h h' :=
    (congrArg₂ notAfter h h' : d.lowered.notAfter e.lowered = d'.lowered.notAfter e'.lowered)

/-- Programs that are the same up to the case of names are found at fault for the same reasons. -/
lemma Analysis.found_of_same_revised (h : p.revise .small = p'.revise .small) :
    Forall₂ SameUpToCase (ofProgram p).found (ofProgram p').found := by
  have hp := (ofProgram_revise (ρ := .small) p).found
  have hp' := (ofProgram_revise (ρ := .small) p').found
  rw [h] at hp
  have hseen := map_eq_map_iff.mp (.trans hp hp'.symm)
  exact hseen.imp fun d d' hd =>
    congrArg (fun d : Diagnostic => { d with sourceLine := d.sourceLine.map .toLower }) hd

/-! ## Compilations -/

namespace Compilation

/-- What a compilation shows of itself, up to the case of names: whether there is code, the errors and the
warnings. -/
def loweredOutcome (c : Compilation) : Bool × List Diagnostic × List Diagnostic :=
  (c.success, c.errors.map lowered, c.warnings.map lowered)

lemma loweredOutcome_ofProgram (hp : p.Closed)
    (hp' : p'.Closed) (h : p.revise .small = p'.revise .small) {c c' : Compilation}
    (hcode : c.code = none ∧ c'.code = none) (herrors : Forall₂ SameUpToCase c.errors c'.errors)
    (width : Int) : (c.ofProgram p width).map loweredOutcome = (c'.ofProgram p' width).map loweredOutcome := by
  rcases parallel_sameUpToCase.ofProgram hp hp' (Analysis.found_of_same_revised h) c c' hcode herrors width with
    ⟨d, d', hd, hd', herrors, hwarnings, hcode⟩ | ⟨fault, hfault, hfault', -⟩
  · have hsuccess : d.success = d'.success := by
      rcases hcode with ⟨hnone, hnone'⟩ | ⟨_, _, _, -, -, hsome, hsome'⟩
      · rw [success, success, hnone, hnone']
      · rw [success, success, hsome, hsome', Option.isSome_some, Option.isSome_some]
    rw [hd, hd', Except.map, Except.map, loweredOutcome, loweredOutcome, hsuccess, map_eq_map_iff.mpr herrors,
      map_eq_map_iff.mpr hwarnings]
  · rw [hfault, hfault']

end Compilation

/-! ## Texts in other letters -/

/-- The second text is the first one with other cases of letters outside its string and character
literals. -/
structure Recased (file source source' : String) : Prop where
  letters : SameLetters source.toList source'.toList
  literals : ∀ t ∈ (Token.scan source file).tokens, t.kind = .string ∨ t.kind = .char →
    t.stretch source.toList = t.stretch source'.toList

def Token.site (t : Token) : TokenKind × Location × Nat :=
  (t.kind, t.start, t.length)

section

variable {file source source' : String}

lemma Recased.scan (h : Recased file source source') (hfaults : (scan source file).faults = []) :
    (scan source' file).faults = [] ∧
      (scan source file).tokens.map (Token.revise .small) = (scan source' file).tokens.map (Token.revise .small) ∧
      (scan source file).eof = (scan source' file).eof :=
  scanFrom_of_sameLetters file (show SameLetters [] [] from rfl) h.letters hfaults h.literals

lemma Token.site_revise (ts : List Token) : (ts.map (revise .small)).map site = ts.map site :=
  map_map

/-- **Names are the same in any letters.**  Let a text have no faults of scanning, and let a second one
differ from it only in the case of letters outside literals.

* The second text has no faults of scanning either, and its tokens are of the same kinds at the same
  places.
* Either text is read as a program or neither is, and the two programs, or what is said against the texts,
  are the same up to the case of names.
* Compiling the two gives code for both or for neither, and the same errors and warnings, up to the case
  of what they quote. -/
theorem compile_of_recased (h : Recased file source source') (hfaults : (Token.scan source file).faults = [])
    (width : Int) :
    (Token.scan source' file).faults = [] ∧
    (Token.scan source file).all.map Token.site = (Token.scan source' file).all.map Token.site ∧
    (Program.ofSource source file).map Program.loweredOutcome =
      (Program.ofSource source' file).map Program.loweredOutcome ∧
    (compile source file width).map Compilation.loweredOutcome =
      (compile source' file width).map Compilation.loweredOutcome := by
  obtain ⟨hfaults', htokens, heof⟩ := h.scan hfaults
  refine ⟨hfaults', ?_, ?_⟩
  · rw [Token.Scanned.all, Token.Scanned.all, List.map_append, List.map_append, heof,
      ← Token.site_revise, htokens, Token.site_revise]
  · simp only [Program.ofSource, compile, hfaults, hfaults', List.isEmpty_nil, if_true]
    rcases Program.ofScanned_of_recased htokens heof h.letters with ⟨p, p', hread, hread', hsame, hp, hp'⟩ |
      ⟨d, d', hread, hread', hsame⟩ | ⟨fault, hread, hread'⟩
    · rw [hread, hread']
      exact ⟨congrArg (Except.ok ∘ Except.ok) hsame,
        Compilation.loweredOutcome_ofProgram hp hp' hsame ⟨rfl, rfl⟩ .nil width⟩
    · rw [hread, hread']
      exact ⟨congrArg (fun d => Except.ok (Except.error [d])) hsame,
        congrArg (fun d => Except.ok (false, [d], [])) hsame⟩
    · rw [hread, hread']
      exact ⟨rfl, rfl⟩

/-- A text with a comment, a literal and a name that is declared nowhere. -/
def mixedLetters : String :=
  "ALGORITHM Demo VAR Sum : INTEGER BEGIN \x7b Note \x7d Sum <- Total PRINT(\"Sum\", SUM) END."

/-- The same text in other letters; what stands between the quotation marks is the same. -/
def otherLetters : String :=
  "algorithm DEMO var sum : Integer begin \x7b nOTE \x7d SUM <- tOTAL print(\"Sum\", sum) end."

theorem compile_of_recased_mixedLetters :
    Recased defaultFile mixedLetters otherLetters ∧ (Token.scan mixedLetters).faults = [] ∧
      (Token.scan otherLetters).faults = [] ∧
      (Token.scan mixedLetters).all.map Token.site = (Token.scan otherLetters).all.map Token.site ∧
      (Program.ofSource mixedLetters).map Program.loweredOutcome =
        (Program.ofSource otherLetters).map Program.loweredOutcome ∧
      (compile mixedLetters).map Compilation.loweredOutcome =
        (compile otherLetters).map Compilation.loweredOutcome := by
  have hrecased : Recased defaultFile mixedLetters otherLetters :=
    ⟨by unfold SameLetters; decide +kernel, by decide +kernel⟩
  have hfaults : (Token.scan mixedLetters).faults = [] := by decide +kernel
  exact ⟨hrecased, hfaults, compile_of_recased hrecased hfaults 4⟩

end

end AlgoLang
