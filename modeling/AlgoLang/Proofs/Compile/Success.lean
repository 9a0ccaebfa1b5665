/-
# After the analysis nothing fails

Generation and drawing refuse only nodes that the language does not have.  In a closed program there is none,
so whether a text compiles is decided by scanning, reading and analysis.

Both have errors of their own all the same, and their types do not rule them out.  What does is that the reader
leaves nothing unknown in a tree, and that the value of a constant it reads is a literal.
-/
import AlgoLang.Compile
import AlgoLang.Flow.Program
import AlgoLang.Proofs.CText.Emitted
import AlgoLang.Proofs.Ensures
import AlgoLang.Proofs.Grammar.ProgramComplete

namespace AlgoLang

variable {width : Int} {c : Compilation} {code : String}

/-! ## Success of a computation that may fail -/

/-- The computation gives a value. -/
def Succeeds {ε α : Type} (x : Except ε α) : Prop :=
  ∃ a, x = .ok a

/-! ## Statements -/

namespace Stmt

lemma allKnown_iff {body : List Stmt} : allKnown body ↔ ∀ s ∈ body, s.isKnown := by
  induction body with
  | nil => simp [allKnown]
  | cons s body ih => simp [allKnown, ih]

lemma casesKnown_iff {cases : List CaseClause} : casesKnown cases ↔ ∀ c ∈ cases, ∀ s ∈ c.body, s.isKnown := by
  induction cases with
  | nil => simp [casesKnown]
  | cons c cases ih =>
    obtain ⟨s, values, body⟩ := c
    simp [casesKnown, allKnown_iff, ih]

lemma Made.isKnown {S : Stock} {s : Stmt} (h : s.Made S) : s.isKnown := by
  induction h with
  | assign | call | scan | print | «return» => rfl
  | «while» _ _ ih | doWhile _ _ ih | «for» _ _ _ _ ih | block _ ih => exact allKnown_iff.mpr ih
  | @ifThen _ _ _ no _ _ _ ihyes ihno =>
    cases no with
    | none => exact allKnown_iff.mpr ihyes
    | some body => exact Bool.and_eq_true_iff.mpr ⟨allKnown_iff.mpr ihyes, allKnown_iff.mpr (ihno body rfl)⟩
  | @switch _ _ _ default _ _ _ _ ihcases ihdefault =>
    cases default with
    | none => exact casesKnown_iff.mpr ihcases
    | some body =>
      exact Bool.and_eq_true_iff.mpr ⟨casesKnown_iff.mpr ihcases, allKnown_iff.mpr (ihdefault body rfl)⟩

end Stmt

/-! ## Programs -/

namespace Program.Closed

variable {p : Program}

/-- A closed program has a C text, whatever the indentation. -/
lemma succeeds_generate (h : p.Closed) (indent : String) : Succeeds (p.generate indent) := by
  obtain ⟨lines, hlines, -⟩ := h.toC
  exact ⟨_, by rw [generate, hlines]⟩

/-- A closed program has flowcharts, whatever the layout. -/
lemma isSome_charts (h : p.Closed) (layout : Flow.Layout) : (Flow.Charts.ofProgram? p layout).isSome := by
  have hbody : Stmt.allKnown p.body := Stmt.allKnown_iff.mpr fun s hs => (h.body s hs).isKnown
  have hroutines : p.routines.all fun r => Stmt.allKnown r.body :=
    List.all_eq_true.mpr fun r hr => Stmt.allKnown_iff.mpr fun s hs => ((h.routines r hr).body s hs).isKnown
  rw [Flow.Charts.ofProgram?, if_pos (Bool.and_eq_true_iff.mpr ⟨hbody, hroutines⟩)]
  rfl

end Program.Closed

/-! ## Compilation -/

/-- With an indentation that can be held, a closed program is compiled iff its analysis has no
errors. -/
lemma Compilation.ofProgram_success {p : Program} (h : p.Closed)
    (hwidth : Succeeds (Numeral.spaces width)) (c : Compilation) (hcode : c.code = none) :
    ∃ c', c.ofProgram p width = .ok c' ∧ (c'.success ↔ ∀ d ∈ (Analysis.ofProgram p).diagnostics, d.isWarning) := by
  obtain ⟨indent, hindent⟩ := hwidth
  obtain ⟨code, hgenerate⟩ := h.succeeds_generate indent
  have hfilter : (Analysis.ofProgram p).diagnostics.filter (fun d => !d.isWarning) = [] ↔
      ∀ d ∈ (Analysis.ofProgram p).diagnostics, d.isWarning := by
    simp [List.filter_eq_nil_iff]
  simp only [ofProgram]
  split
  · next hnone =>
    refine ⟨_, by rw [hindent]; rfl, ?_⟩
    simp only [hgenerate]
    exact ⟨fun _ => hfilter.mp hnone, fun _ => rfl⟩
  · next hsome =>
    refine ⟨_, rfl, ?_⟩
    simp only [success, hcode]
    exact ⟨nofun, fun hall => absurd (hfilter.mpr hall) hsome⟩

/-- The code of a program comes from an analysis without errors. -/
lemma Compilation.ofProgram_code {p : Program} {c' : Compilation}
    (hc : c.ofProgram p width = .ok c') (hcode : c'.code = some code) (hnone : c.code = none) :
    ∃ indent, Numeral.spaces width = .ok indent ∧ p.generate indent = .ok code ∧
      ∀ d ∈ (Analysis.ofProgram p).diagnostics, d.isWarning := by
  simp only [ofProgram] at hc
  split at hc
  · next hpasses =>
    cases hindent : Numeral.spaces width with
    | error fault => rw [hindent] at hc; cases hc
    | ok indent =>
      rw [hindent] at hc
      cases hgenerate : p.generate indent with
      | error d => simp only [Except.map, hgenerate] at hc; cases hc; rw [hnone] at hcode; cases hcode
      | ok text =>
        simp only [Except.map, hgenerate] at hc
        cases hc
        cases hcode
        exact ⟨indent, rfl, hgenerate, by simpa [List.filter_eq_nil_iff] using hpasses⟩
  · cases hc
    rw [hnone] at hcode
    cases hcode

lemma compile_code {source file : String} (hc : compile source file width = .ok c) (hcode : c.code = some code) :
    ∃ p indent lines, Program.ofScanned (Token.scan source file) source = .ok (.ok p) ∧
      Numeral.spaces width = .ok indent ∧ p.toC = .ok lines ∧ code = C.render indent lines ∧
      ∀ d ∈ (Analysis.ofProgram p).diagnostics, d.isWarning := by
  simp only [compile] at hc
  split at hc
  case isFalse =>
    cases hc
    cases hcode
  cases hread : Program.ofScanned (Token.scan source file) source with
  | error fault => rw [hread] at hc; cases hc
  | ok outcome =>
    rw [hread] at hc
    cases outcome with
    | error d => cases hc; cases hcode
    | ok p =>
      obtain ⟨indent, hindent, hgenerate, hpasses⟩ := Compilation.ofProgram_code hc hcode rfl
      unfold Program.generate at hgenerate
      split at hgenerate
      · next lines hlines =>
        cases hgenerate
        exact ⟨p, indent, lines, rfl, hindent, hlines, rfl, hpasses⟩
      · cases hgenerate

/-- **Scanning, reading and analysis decide whether a text compiles.**  Let no numeral be too long,
and let the indentation be one that can be held.

* The compilation comes to an end, and it has C code iff the scan has no faults, a program is read,
  and its analysis finds nothing but warnings.
* Whatever program is read has a C text and flowcharts. -/
theorem compile_success_iff (source file : String) (width : Int)
    (hs : Short (Token.scan source file).tokens) (hwidth : Numeral.checkLength width = .ok ()) :
    (∃ c, compile source file width = .ok c ∧
      (c.success ↔ (Token.scan source file).faults = [] ∧
        ∃ p, Program.ofScanned (Token.scan source file) source = .ok (.ok p) ∧
          ∀ d ∈ (Analysis.ofProgram p).diagnostics, d.isWarning)) ∧
    ∀ p, Program.ofScanned (Token.scan source file) source = .ok (.ok p) →
      (∀ indent, ∃ code, p.generate indent = .ok code) ∧
      ∀ layout, (Flow.Charts.ofProgram? p layout).isSome := by
  have hspaces : Succeeds (Numeral.spaces width) := ⟨_, by rw [Numeral.spaces, hwidth]; rfl⟩
  have hclosed : ∀ p, Program.ofScanned (Token.scan source file) source = .ok (.ok p) → p.Closed := by
    intro p hp
    rcases Grammar.ofScanned_cases (Token.scan source file) source hs with ⟨p', ts, hp', -, hprogram⟩ | ⟨d, hd, -⟩
    · obtain rfl : p = p' := by simpa [hp] using hp'
      exact hprogram.closed
    · simp [hp] at hd
  refine ⟨?_, fun p hp => ⟨(hclosed p hp).succeeds_generate, (hclosed p hp).isSome_charts⟩⟩
  unfold compile
  by_cases hfaults : (Token.scan source file).faults = []
  · simp only [hfaults, List.isEmpty_nil, if_true, true_and]
    rcases Grammar.ofScanned_cases (Token.scan source file) source hs with ⟨p, ts, hp, -, -⟩ | ⟨d, hd, -⟩
    · obtain ⟨c, hc, hsuccess⟩ := Compilation.ofProgram_success (hclosed p hp) hspaces
        { file, tokenCount := (Token.scan source file).all.length } rfl
      refine ⟨c, by rw [hp]; exact hc, ?_⟩
      rw [hsuccess]
      simp [hp]
    · refine ⟨_, by rw [hd]; rfl, ?_⟩
      simp [hd, Compilation.success]
  · refine ⟨_, by rw [if_neg (by simpa using hfaults)], ?_⟩
    simp [hfaults, Compilation.success]

/-- All three phases pass, so there is C code. -/
theorem compile_success_assignment :
    Short (Token.scan "ALGORITHM a VAR x : REAL BEGIN x <- 2 END.").tokens ∧
      Numeral.checkLength 4 = .ok () ∧
      ∃ c, compile "ALGORITHM a VAR x : REAL BEGIN x <- 2 END." = .ok c ∧ c.success := by
  have hshort : Short (Token.scan "ALGORITHM a VAR x : REAL BEGIN x <- 2 END.").tokens := by
    unfold Short
    decide +kernel
  obtain ⟨⟨c, hc, hsuccess⟩, -⟩ :=
    compile_success_iff "ALGORITHM a VAR x : REAL BEGIN x <- 2 END." defaultFile 4 hshort rfl
  exact ⟨hshort, rfl, c, hc, hsuccess.mpr ⟨by decide +kernel, exists_ok_ok (by decide +kernel)⟩⟩

end AlgoLang
