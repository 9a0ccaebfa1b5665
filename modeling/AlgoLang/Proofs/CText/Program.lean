/-
# The code of a program is well nested, and the functions it defines

The names and characters of a program that was read come from its tokens, so its lines are a stretch of C.
Outside of the brackets there is one function for each routine, and `main` behind them; a routine may be called
`main` as well.
-/
import AlgoLang.Proofs.CGrammar.Image
import AlgoLang.Proofs.Compile.Success

namespace AlgoLang

open CText List CGrammar

variable {source file code : String} {width : Int} {c : Compilation}

/-- What scanned tokens are spelled like. -/
def Stock.scanned : Stock where
  name n := n.toList.all isWordChar = true
  char s := ∃ c, s = String.singleton c

lemma Stock.spelled_scanned : Stock.scanned.Spelled :=
  ⟨id, id⟩

lemma Token.has_scan (source file : String) : Stock.scanned.Has (scan source file).tokens := by
  intro t ht
  refine ⟨fun hkind => ?_, singleton_of_mem_scan ht⟩
  obtain ⟨c, cs, hvalue, hc, hcs⟩ := (isWord_of_mem_scan ht hkind).1.spelled
  have hfirst : isWordChar c := by simp [isWordChar, Char.isAlphanum, hc]
  show t.value.toList.all isWordChar
  rw [hvalue, all_cons, hfirst, hcs]
  rfl

/-- The code of a text is a stretch of C that shows one function for each routine and the main one. -/
lemma stretch_code (hc : compile source file width = .ok c) (hcode : c.code = some code) :
    ∃ p shown, Program.ofScanned (Token.scan source file) source = .ok (.ok p) ∧ Stretch code.toList shown ∧
      functionsFrom [] shown = p.routines.map (·.name) ++ ["main"] := by
  obtain ⟨p, indent, lines, hread, hindent, hlines, rfl, -⟩ := compile_code hc hcode
  have hp : p.Made .scanned := by
    unfold Program.ofScanned at hread
    split at hread
    · next taken hparse =>
      cases hread
      obtain ⟨ts, htokens, -, hprogram⟩ := Grammar.exists_isProgram_of_parse hparse
      exact hprogram.made fun t ht => Token.has_scan source file t (htokens ▸ mem_append_left _ ht)
    all_goals cases hread
  obtain ⟨_, hlines', hshape⟩ := hp.toC
  obtain rfl : lines = _ := Except.ok.inj (hlines.symm.trans hlines')
  obtain ⟨front, body, rfl, hfront, hbody⟩ := hshape Stock.spelled_scanned
  obtain ⟨shown, hs, hfunctions⟩ := functions_render width.toNat hfront hbody
  obtain rfl : indent = .ofList (.replicate width.toNat ' ') := by
    unfold Numeral.spaces at hindent
    cases hlength : Numeral.checkLength width with
    | error fault => rw [hlength] at hindent; cases hindent
    | ok => rw [hlength] at hindent; exact (Except.ok.inj hindent).symm
  exact ⟨p, shown, hread, hs, hfunctions⟩

/-- **The code is well nested.**  If a text compiles, a reader comes to the end of its code: every literal
closes on the line it opens, every bracket by its counterpart, and at the end none is open. -/
theorem compile_nested {source file : String} {width : Int} {c : Compilation} {code : String}
    (hc : compile source file width = .ok c) (hcode : c.code = some code) :
    ∃ r, Reader.read {} code.toList = some r ∧ r.mode = .code ∧ r.awaited = [] := by
  obtain ⟨p, shown, -, hs, -⟩ := stretch_code hc hcode
  exact ⟨_, hs [] [], rfl, rfl⟩

/-- A program with brackets in its literals and a procedure that is called `main`. -/
def twoMains : String :=
  "ALGORITHM a PROCEDURE main() BEGIN PRINT(\"(]\", '\"') END BEGIN END."

lemma exists_code_twoMains : ∃ c code, compile twoMains = .ok c ∧ c.code = some code := by
  have hsome : ∃ c, compile twoMains = .ok c ∧ c.code.isSome := exists_ok (by decide +kernel)
  obtain ⟨c, hc, hsome⟩ := hsome
  obtain ⟨code, hcode⟩ := Option.isSome_iff_exists.mp hsome
  exact ⟨c, code, hc, hcode⟩

theorem compile_nested_quotes : ∃ c code, compile twoMains = .ok c ∧ c.code = some code ∧
    ∃ r, Reader.read {} code.toList = some r ∧ r.mode = .code ∧ r.awaited = [] := by
  obtain ⟨c, code, hc, hcode⟩ := exists_code_twoMains
  exact ⟨c, code, hc, hcode, compile_nested hc hcode⟩

lemma functions_code (hc : compile source file width = .ok c) (hcode : c.code = some code) :
    ∃ p, Program.ofScanned (Token.scan source file) source = .ok (.ok p) ∧
      functions code = p.routines.map (·.name) ++ ["main"] := by
  obtain ⟨p, shown, hread, hs, hshown⟩ := stretch_code hc hcode
  refine ⟨p, hread, ?_⟩
  unfold functions
  rw [hs [] []]
  exact hshown

/-- **The functions of the code.**  If a text compiles, its code defines a function for each routine of the
program and then `main`.  So there is just one `main` iff no routine is called that. -/
theorem compile_functions {source file : String} {width : Int} {c : Compilation} {code : String}
    (hc : compile source file width = .ok c) (hcode : c.code = some code) :
    ∃ p, Program.ofScanned (Token.scan source file) source = .ok (.ok p) ∧
      functions code = p.routines.map (·.name) ++ ["main"] ∧
      ((functions code).count "main" = 1 ↔ ∀ r ∈ p.routines, r.name ≠ "main") := by
  obtain ⟨p, hread, hfunctions⟩ := functions_code hc hcode
  refine ⟨p, hread, hfunctions, ?_⟩
  rw [hfunctions, count_append, count_singleton_self, Nat.add_eq_right, count_eq_zero]
  simp

theorem compile_functions_procedure : ∃ c code, compile twoMains = .ok c ∧ c.code = some code ∧
    ∃ p, Program.ofScanned (Token.scan twoMains) twoMains = .ok (.ok p) ∧
      functions code = p.routines.map (·.name) ++ ["main"] ∧
      ((functions code).count "main" = 1 ↔ ∀ r ∈ p.routines, r.name ≠ "main") := by
  obtain ⟨c, code, hc, hcode⟩ := exists_code_twoMains
  exact ⟨c, code, hc, hcode, compile_functions hc hcode⟩

/-- A procedure called `main` is no error, and there are two functions of that name. -/
theorem compile_main_twice : ∃ c code, compile twoMains = .ok c ∧ c.code = some code ∧
    functions code = ["main", "main"] := by
  obtain ⟨c, code, hc, hcode⟩ := exists_code_twoMains
  have hroutines : ∃ p, Program.ofScanned (Token.scan twoMains) twoMains = .ok (.ok p) ∧
      p.routines.map (·.name) = ["main"] := exists_ok_ok (by decide +kernel)
  obtain ⟨p, hp, hname⟩ := hroutines
  obtain ⟨p', hp', hfunctions⟩ := functions_code hc hcode
  obtain rfl : p = p' := Except.ok.inj (Except.ok.inj (hp.symm.trans hp'))
  rw [hname] at hfunctions
  exact ⟨c, code, hc, hcode, hfunctions⟩

/-- A name is written as it is used, though it is declared in other letters. -/
theorem compile_keeps_letters : ∃ c, compile "ALGORITHM a VAR x : REAL BEGIN X <- 1 END." = .ok c ∧
    ∃ code ∈ c.code, "double x;".toList <:+: code.toList ∧ "X = 1;".toList <:+: code.toList :=
  exists_ok (by decide +kernel)

end AlgoLang
