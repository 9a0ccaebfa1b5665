/-
# Local includes, inlined from a map of files

A line `#include "f"` gives way to the lines of `f` between two marker lines, and these are expanded in turn.
After a header `x.h` comes its companion `x.c` if there is one.  A name is inlined once and only mentioned from
then on, so cycles end: `remaining` counts the names still to come.  Every line keeps the index of the
outermost line that it came from.
-/
import AlgoLang.Keyed
import AlgoLang.Text.Line
import AlgoLang.Text.Blank

namespace AlgoLang.CSource

open Text

abbrev Files := Keyed String

/-- The text of a file: of the one with just that name, else of the first whose path ends in it. -/
def Files.find? (files : Files) (name : String) : Option String :=
  match files.get? name with
  | some text => some text
  | none => (List.find? (fun f => ('/' :: name.toList).isSuffixOf f.1.toList) files).map (·.2)

def includeName? (line : List Char) : Option String :=
  match trimStart line with
  | '#' :: r =>
    let directive := trimStart r
    if "include".toList.isPrefixOf directive then
      match (directive.drop 7).takeWhile isBlank, trimStart (directive.drop 7) with
      | _ :: _, '"' :: r =>
        match r.takeWhile (· != '"'), r.dropWhile (· != '"') with
        | c :: cs, _ :: _ => some (String.ofList (c :: cs))
        | _, _ => none
      | _, _ => none
    else none
  | _ => none

/-- The companion of a header: the same name with the ending of a source file. -/
def companion? (name : String) : Option String :=
  match name.toList.reverse with
  | 'h' :: '.' :: r => some (String.ofList r.reverse ++ ".c")
  | _ => none

/-- The companion is looked up by its bare name, and may be that of another header. -/
theorem find_companion : companion? "x.h" = some "x.c" ∧
    Files.find? [("a/x.c", "int a;"), ("b/x.c", "int b;"), ("b/x.h", "int b(void);")] "x.c" = some "int a;" := by
  decide +kernel

/-! ## What is still to come -/

/-- Every name by which some file can be found, and more. -/
def candidates (files : Files) : List String :=
  files.flatMap fun f => (List.range (f.1.length + 1)).map fun n => String.ofList (f.1.toList.drop n)

def remaining (files : Files) (names : List String) : Nat :=
  (candidates files).countP fun n => !names.contains n

theorem mem_of_lookup {α : Type} {l : List (String × α)} {k : String} {v : α} (h : l.lookup k = some v) :
    (k, v) ∈ l := by
  induction l with
  | nil => simp at h
  | cons e l ih =>
    obtain ⟨k', v'⟩ := e
    rw [List.lookup_cons] at h
    split at h
    · next hk =>
      simp only [Option.some.injEq] at h
      simp [beq_iff_eq.mp hk, h]
    · exact List.mem_cons_of_mem _ (ih h)

theorem mem_candidates_of_find? {files : Files} {name text : String}
    (h : files.find? name = some text) : name ∈ candidates files := by
  have hsuffix {f : String × String} (hf : f ∈ files) (h : name.toList <:+ f.1.toList) : name ∈ candidates files := by
    refine List.mem_flatMap.mpr ⟨f, hf, List.mem_map.mpr ⟨f.1.length - name.length, ?_, ?_⟩⟩
    · exact List.mem_range.mpr (by omega)
    · have hdrop := List.suffix_iff_eq_drop.mp h
      rw [String.length_toList, String.length_toList] at hdrop
      rw [← hdrop, String.ofList_toList]
  unfold Files.find? at h
  split at h
  · next ht => exact hsuffix (mem_of_lookup ht) (List.suffix_refl _)
  · obtain ⟨f, hf, -⟩ := Option.map_eq_some_iff.mp h
    have hend := List.find?_some hf
    exact hsuffix (List.mem_of_find?_eq_some hf) ((List.suffix_cons '/' _).trans (List.isSuffixOf_iff_suffix.mp hend))

theorem countP_lt_of_mem {α : Type} {p q : α → Bool} {l : List α} (h : ∀ x, p x = true → q x = true)
    {a : α} (ha : a ∈ l) (hp : p a = false) (hq : q a = true) : l.countP p < l.countP q := by
  induction l with
  | nil => simp at ha
  | cons x l ih =>
    rcases List.mem_cons.mp ha with rfl | ha
    · rw [List.countP_cons_of_neg (by simp [hp]), List.countP_cons_of_pos hq]
      exact Nat.lt_succ_of_le (List.countP_mono_left fun x _ => h x)
    · have := ih ha
      rw [List.countP_cons, List.countP_cons]
      by_cases hx : p x = true
      · simp [hx, h x hx, this]
      · rw [if_neg hx]
        omega

/-- Inlining a file that has not been inlined leaves fewer to come. -/
theorem remaining_cons_lt {files : Files} {names : List String} {name text : String}
    (hfind : files.find? name = some text) (hnew : names.contains name = false) :
    remaining files (name :: names) < remaining files names := by
  refine countP_lt_of_mem ?_ (mem_candidates_of_find? hfind) ?_ ?_
  · intro x hx
    simp only [List.contains_cons, Bool.not_or, Bool.and_eq_true] at hx
    exact hx.2
  · simp
  · simp only [hnew, Bool.not_false]

/-! ## Expansion -/

structure Inlined where
  names : List String := []
  warnings : List String := []

structure Expanded (files : Files) (start : Inlined) where
  lines : List (List Char)
  stop : Inlined
  le : remaining files stop.names ≤ remaining files start.names

def between (name : String) (lines : List (List Char)) : List (List Char) :=
  ("// --- Begin include: " ++ name ++ " ---").toList :: lines ++
    [("// --- End include: " ++ name ++ " ---").toList]

mutual

def expandLine (files : Files) (s : Inlined) (line : List Char) : Expanded files s :=
  match includeName? line with
  | none => ⟨[line], s, Nat.le_refl _⟩
  | some name =>
    if files.isEmpty then ⟨[line], s, Nat.le_refl _⟩
    else
      match hn : s.names.contains name with
      | true => ⟨[("// Already included: " ++ name).toList], s, Nat.le_refl _⟩
      | false =>
        match hf : files.find? name with
        | none =>
          ⟨[line], { s with warnings := s.warnings ++ ["Could not find included file: " ++ name] },
            Nat.le_refl _⟩
        | some text =>
          have := remaining_cons_lt hf hn
          let ⟨body, s₁, _⟩ := expandLines files { s with names := name :: s.names } (splitAt '\n' text.toList)
          match companion? name with
          | none => ⟨between name body, s₁, by simp only at *; omega⟩
          | some other =>
            match hn' : s₁.names.contains other, hf' : files.find? other with
            | false, some text' =>
              have := remaining_cons_lt hf' hn'
              let ⟨body', s₂, _⟩ :=
                expandLines files { s₁ with names := other :: s₁.names } (splitAt '\n' text'.toList)
              ⟨between name body ++ between other body', s₂, by simp only at *; omega⟩
            | _, _ => ⟨between name body, s₁, by simp only at *; omega⟩
termination_by (remaining files s.names, 0)
decreasing_by
  · exact Prod.Lex.left _ _ this
  · exact Prod.Lex.left _ _ (by simp only at *; omega)

def expandLines (files : Files) (s : Inlined) : (lines : List (List Char)) → Expanded files s
  | [] => ⟨[], s, Nat.le_refl _⟩
  | line :: lines =>
    let ⟨first, s₁, h₁⟩ := expandLine files s line
    let ⟨rest, s₂, h₂⟩ := expandLines files s₁ lines
    ⟨first ++ rest, s₂, Nat.le_trans h₂ h₁⟩
termination_by lines => (remaining files s.names, lines.length + 1)
decreasing_by
  · exact Prod.Lex.right _ (by omega)
  · rcases Nat.lt_or_eq_of_le h₁ with h | h
    · exact Prod.Lex.left _ _ h
    · rw [h]
      exact Prod.Lex.right _ (by simp)

end

/-- Expanded text: every line with the index of the outermost line it came from. -/
structure Expansion where
  lines : List (List Char × Nat) := []
  warnings : List String := []

/-- Expands the lines of a text, the first of which has the given index. -/
def expandFrom (files : Files) (s : Inlined) (index : Nat) : List (List Char) → Expansion
  | [] => ⟨[], s.warnings⟩
  | line :: lines =>
    let here := expandLine files s line
    let rest := expandFrom files here.stop (index + 1) lines
    ⟨here.lines.map (·, index) ++ rest.lines, rest.warnings⟩

def expand (files : Files) (code : String) : Expansion :=
  expandFrom files {} 0 (splitAt '\n' code.toList)

def Expansion.code (e : Expansion) : String :=
  "\n".intercalate (e.lines.map fun l => String.ofList l.1)

end AlgoLang.CSource
