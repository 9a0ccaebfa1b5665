/-
# What includes give way to

`Inlines` has the rules by which a line gives way to others, without an order of work or a measure.  That some
lines come of every text by these rules is the termination of the expansion.

The names that have been inlined are distinct, and all of them lead to some file, so only so many can come up.  It is
names that count, not files: one that is found under two names may come twice.
-/
import AlgoLang.CSource.Include
import AlgoLang.Proofs.CSource.OneLine

namespace AlgoLang.CSource

open Text List Prod.Lex

/-- The line includes no file that can be found. -/
def Files.Leaves (files : Files) (line : List Char) : Prop :=
  ∀ name, includeName? line = some name → files.find? name = none

def alreadyIncluded (name : String) : List Char :=
  ("// Already included: " ++ name).toList

/-- What comes of lines behind files with the names `seen`, and the names in the end, latest first.  Right behind
a header stands its companion, if there is one and it has not been seen. -/
inductive Inlines (files : Files) :
    List String → Option String → List (List Char) → List (List Char) → List String → Prop
  | done {seen} : Inlines files seen none [] [] seen
  | keep {seen line lines out names} : files.Leaves line → Inlines files seen none lines out names →
      Inlines files seen none (line :: lines) (line :: out) names
  | mention {seen line lines out names name} : includeName? line = some name → name ∈ seen →
      Inlines files seen none lines out names →
      Inlines files seen none (line :: lines) (alreadyIncluded name :: out) names
  | inline {seen line lines body inner out names name text} : includeName? line = some name → name ∉ seen →
      files.find? name = some text → Inlines files (name :: seen) none (splitAt '\n' text.toList) body inner →
      Inlines files inner (companion? name) lines out names →
      Inlines files seen none (line :: lines) (between name body ++ out) names
  | accompany {seen lines body inner out names other text} : other ∉ seen → files.find? other = some text →
      Inlines files (other :: seen) none (splitAt '\n' text.toList) body inner →
      Inlines files inner none lines out names → Inlines files seen (some other) lines (between other body ++ out) names
  | alone {seen lines out names other} : (other ∉ seen → files.find? other = none) →
      Inlines files seen none lines out names → Inlines files seen (some other) lines out names

variable {files : Files} {seen names : List String} {line : List Char} {lines out : List (List Char)} {name : String}
  {pending : Option String}

/-! ## Something comes of every text -/

/-- What the expansion of a line gives is what comes of the line, whatever comes of the lines behind it. -/
def Expanded.Follows {s : Inlined} (r : Expanded files s) (line : List Char) : Prop :=
  ∀ lines out names, Inlines files r.stop.names none lines out names →
    Inlines files s.names none (line :: lines) (r.lines ++ out) names

mutual

lemma follows_expandLine (files : Files) (s : Inlined) (line : List Char) :
    (expandLine files s line).Follows line := by
  rw [expandLine]
  split
  · next hnone => exact fun _ _ _ => .keep (by simp [Files.Leaves, hnone])
  · next name hname =>
    split
    · next hempty =>
      obtain rfl := isEmpty_iff.mp hempty
      exact fun _ _ _ => .keep fun _ _ => rfl
    · split
      · next hseen => exact fun _ _ _ => .mention hname (by simpa using hseen)
      · next hnew =>
        split
        · next hfind => exact fun _ _ _ => .keep (by simp [Files.Leaves, hname, hfind])
        · next text hfind =>
          have hfewer := remaining_cons_lt hfind hnew
          have hbody := inlines_expandLines files { s with names := name :: s.names } (splitAt '\n' text.toList)
          have hle : _ ≤ remaining files (name :: s.names) :=
            (expandLines files { s with names := name :: s.names } (splitAt '\n' text.toList)).le
          dsimp only
          generalize expandLines files { s with names := name :: s.names } (splitAt '\n' text.toList) = r at *
          have hinline {lines out names} := @Inlines.inline files s.names line lines _ _ out names name text hname
            (by simpa using hnew) hfind hbody
          split
          · next hnone =>
            rw [hnone] at hinline
            exact fun _ _ _ => hinline
          · next other hother =>
            rw [hother] at hinline
            split
            · next text' hnew' hfind' =>
              have hfewer' := remaining_cons_lt hfind' hnew'
              have hbody' := inlines_expandLines files { r.stop with names := other :: r.stop.names }
                (splitAt '\n' text'.toList)
              intro lines out names hrest
              rw [append_assoc]
              exact hinline (.accompany (by simpa using hnew') hfind' hbody' hrest)
            · next hnone =>
              refine fun _ _ _ hrest => hinline (.alone (fun hnew' => ?_) hrest)
              cases hfind' : files.find? other with
              | none => rfl
              | some text' => exact (hnone text' (by simpa using hnew') hfind').elim
termination_by (remaining files s.names, 0)
decreasing_by
  · exact left _ _ hfewer
  · exact left _ _ (Nat.lt_trans (Nat.lt_of_lt_of_le hfewer' hle) hfewer)

lemma inlines_expandLines (files : Files) (s : Inlined) : (lines : List (List Char)) →
    Inlines files s.names none lines (expandLines files s lines).lines (expandLines files s lines).stop.names
  | [] => by
    rw [expandLines]
    exact .done
  | line :: lines => by
    have hfirst := follows_expandLine files s line
    have hle := (expandLine files s line).le
    have hrest := inlines_expandLines files (expandLine files s line).stop lines
    rw [expandLines]
    exact hfirst _ _ _ hrest
termination_by lines => (remaining files s.names, lines.length + 1)
decreasing_by
  · exact right _ (by omega)
  · rcases Nat.lt_or_eq_of_le hle with hlt | heq
    · exact left _ _ hlt
    · rw [heq]
      exact right _ (by simp)

end

/-! ## What the rules give -/

lemma oneLine_includeName? (h : OneLine line) (hname : includeName? line = some name) : OneLine name.toList := by
  have htrim := h.trimStart
  unfold includeName? at hname
  split at hname
  · next r hr =>
    rw [hr] at htrim
    have hdirective := (htrim.tail.trimStart.drop 7).trimStart
    dsimp only at hname
    split at hname
    · split at hname
      · next quoted _ hquoted =>
        rw [hquoted] at hdirective
        have hinside := hdirective.tail.takeWhile (· != '"')
        split at hname
        · next c cs _ _ hcs _ =>
          cases hname
          rwa [String.toList_ofList, ← hcs]
        · cases hname
      · cases hname
    · cases hname
  · cases hname

lemma oneLine_companion? {other : String} (h : OneLine name.toList)
    (hother : companion? name = some other) : OneLine other.toList := by
  have hreverse := h.reverse
  unfold companion? at hother
  split at hother
  · next r hr =>
    rw [hr] at hreverse
    cases hother
    rw [String.toList_append, String.toList_ofList]
    exact hreverse.tail.tail.reverse.append (by decide)
  · cases hother

lemma oneLine_between (hname : OneLine name.toList) (h : ∀ l ∈ lines, OneLine l) :
    ∀ l ∈ between name lines, OneLine l := by
  have hbegin : OneLine "// --- Begin include: ".toList := by decide
  have hend : OneLine "// --- End include: ".toList := by decide
  have hdashes : OneLine " ---".toList := by decide
  unfold between
  simp only [cons_append, forall_mem_cons, forall_mem_append, String.toList_append]
  exact ⟨(hbegin.append hname).append hdashes, h, (hend.append hname).append hdashes, forall_mem_nil _⟩

namespace Inlines

lemma oneLine (h : Inlines files seen pending lines out names) (hlines : ∀ l ∈ lines, OneLine l)
    (hpending : ∀ other ∈ pending, OneLine other.toList) : ∀ l ∈ out, OneLine l := by
  have hbody (text : String) : ∀ l ∈ splitAt '\n' text.toList, OneLine l :=
    fun l hl => .of_mem_splitAt (.inr rfl) hl
  induction h with
  | done => exact hlines
  | keep _ _ ih =>
    obtain ⟨hline, hlines⟩ := forall_mem_cons.mp hlines
    exact forall_mem_cons.mpr ⟨hline, ih hlines nofun⟩
  | mention hname _ _ ih =>
    obtain ⟨hline, hlines⟩ := forall_mem_cons.mp hlines
    refine forall_mem_cons.mpr ⟨?_, ih hlines nofun⟩
    rw [alreadyIncluded, String.toList_append]
    exact .append (by decide) (oneLine_includeName? hline hname)
  | inline hname _ _ _ _ ihbody ih =>
    obtain ⟨hline, hlines⟩ := forall_mem_cons.mp hlines
    have hname := oneLine_includeName? hline hname
    exact forall_mem_append.mpr ⟨oneLine_between hname (ihbody (hbody _) nofun),
      ih hlines fun _ => oneLine_companion? hname⟩
  | accompany _ _ _ _ ihbody ih =>
    exact forall_mem_append.mpr ⟨oneLine_between (hpending _ rfl) (ihbody (hbody _) nofun), ih hlines nofun⟩
  | alone _ _ ih => exact ih hlines nofun

/-- What holds of the names at first, and stays so with every new name of a file, holds in the end. -/
lemma names_of_step {P : List String → Prop}
    (hstep : ∀ {seen name text}, P seen → name ∉ seen → files.find? name = some text → P (name :: seen))
    (h : Inlines files seen pending lines out names) (hseen : P seen) : P names := by
  induction h with
  | done => exact hseen
  | keep _ _ ih | mention _ _ _ ih | alone _ _ ih => exact ih hseen
  | inline _ hnew hfind _ _ ihbody ih | accompany hnew hfind _ _ ihbody ih =>
    exact ih (ihbody (hstep hseen hnew hfind))

lemma find?_ne_none (h : Inlines files seen pending lines out names)
    (hseen : ∀ n ∈ seen, files.find? n ≠ none) : ∀ n ∈ names, files.find? n ≠ none :=
  h.names_of_step (P := fun names => ∀ n ∈ names, files.find? n ≠ none)
    (fun hseen _ hfind => forall_mem_cons.mpr ⟨by simp [hfind], hseen⟩) hseen

/-- Something comes of a line.  If all names seen are of files, a line that includes no file is kept. -/
lemma ne_nil (h : Inlines files seen none [line] out names) (hseen : ∀ n ∈ seen, files.find? n ≠ none) :
    out ≠ [] ∧ (files.Leaves line → out = [line]) := by
  cases h with
  | keep _ hrest =>
    cases hrest
    exact ⟨nofun, fun _ => rfl⟩
  | mention hname hmem => exact ⟨nofun, fun hline => absurd (hline _ hname) (hseen _ hmem)⟩
  | inline hname _ hfind =>
    refine ⟨by simp [between], fun hline => ?_⟩
    cases (hline _ hname).symm.trans hfind

end Inlines

/-! ## The expansion of a text -/

/-- A text is expanded line by line: `parts` has what comes of each. -/
lemma exists_parts (files : Files) (lines : List (List Char)) : ∀ (s : Inlined) (index : Nat),
    (∀ n ∈ s.names, files.find? n ≠ none) → ∃ parts names,
      Inlines files s.names none lines ((expandFrom files s index lines).lines.map Prod.fst) names ∧
      (expandFrom files s index lines).lines = (parts.zipIdx index).flatMap (fun p => p.1.map (·, p.2)) ∧
      Forall₂ (fun line part => (∃ seen after, Inlines files seen none [line] part after) ∧ part ≠ [] ∧
        (files.Leaves line → part = [line])) lines parts := by
  induction lines with
  | nil => exact fun s index _ => ⟨[], s.names, .done, rfl, .nil⟩
  | cons line lines ih =>
    intro s index hseen
    have hfirst := follows_expandLine files s line
    have hline := hfirst [] [] _ .done
    rw [append_nil] at hline
    obtain ⟨parts, names, hrest, heq, hparts⟩ :=
      ih (expandLine files s line).stop (index + 1) (hline.find?_ne_none hseen)
    refine ⟨_ :: parts, names, ?_, ?_, .cons ⟨⟨_, _, hline⟩, hline.ne_nil hseen⟩ hparts⟩
    · simpa [expandFrom, Function.comp_def] using hfirst _ _ _ hrest
    · simp [expandFrom, heq]

/-- The lines of an expanded text are in order, and they come from all the lines of the text. -/
lemma expand_origins (files : Files) (code : String) : ((expand files code).lines.map Prod.snd).Pairwise (· ≤ ·) ∧
      (∀ l ∈ (expand files code).lines, OneLine l.1) ∧
      ∀ i, i ∈ (expand files code).lines.map Prod.snd ↔ i < (splitAt '\n' code.toList).length := by
  obtain ⟨parts, names, hinlines, heq, hparts⟩ := exists_parts files (splitAt '\n' code.toList) {} 0 nofun
  have hone := hinlines.oneLine (fun l hl => .of_mem_splitAt (.inr rfl) hl) nofun
  refine ⟨?_, fun l hl => hone l.1 (mem_map_of_mem hl), fun i => ?_⟩
  · have hindices : (parts.zipIdx.map Prod.snd).Pairwise (· < ·) := by
      rw [zipIdx_map_snd]
      exact pairwise_lt_range'
    rw [expand, heq, map_flatMap, pairwise_flatMap]
    refine ⟨fun p _ => ?_, (pairwise_map.mp hindices).imp fun hlt x hx y hy => ?_⟩
    · rw [map_map, pairwise_map]
      exact pairwise_of_forall fun _ _ => Nat.le_refl p.2
    · simp at hx hy
      omega
  · rw [expand, heq]
    simp only [mem_map, mem_flatMap]
    constructor
    · rintro ⟨_, ⟨p, hp, l, hl, rfl⟩, rfl⟩
      rw [hparts.length_eq]
      simpa using snd_lt_of_mem_zipIdx hp
    · intro hi
      have hpart : i < parts.length := hparts.length_eq ▸ hi
      obtain ⟨l, hl⟩ := exists_mem_of_ne_nil _ (hparts.get hi hpart).2.1
      exact ⟨_, ⟨_, mk_mem_zipIdx_iff_getElem?.mpr (getElem?_eq_getElem hpart), l, hl, rfl⟩, rfl⟩

/-- Every text is expanded by the rules.  No file is inlined twice under the same name, and no more are inlined
than there are names by which files can be found.  The origins are in order, and they are the indices of all
lines.  A line that includes no file comes out unchanged. -/
theorem expand_inlines (files : Files) (code : String) :
    ∃ parts names, Inlines files [] none (splitAt '\n' code.toList) ((expand files code).lines.map Prod.fst) names ∧
      names.Nodup ∧ names.length ≤ (candidates files).length ∧
      (expand files code).lines = parts.zipIdx.flatMap (fun p => p.1.map (·, p.2)) ∧
      Forall₂ (fun line part => (∃ seen after, Inlines files seen none [line] part after) ∧ part ≠ [] ∧
        (files.Leaves line → part = [line])) (splitAt '\n' code.toList) parts ∧
      ((expand files code).lines.map Prod.snd).Pairwise (· ≤ ·) ∧
      ∀ i, i ∈ (expand files code).lines.map Prod.snd ↔ i < (splitAt '\n' code.toList).length := by
  obtain ⟨parts, names, hinlines, heq, hparts⟩ := exists_parts files (splitAt '\n' code.toList) {} 0 nofun
  obtain ⟨hsorted, -, hall⟩ := expand_origins files code
  have hsub : names ⊆ candidates files := by
    intro n hn
    obtain ⟨text, hfind⟩ := Option.ne_none_iff_exists'.mp (hinlines.find?_ne_none nofun n hn)
    exact mem_candidates_of_find? hfind
  have hnodup : names.Nodup := hinlines.names_of_step (fun hseen hnew _ => nodup_cons.mpr ⟨hnew, hseen⟩) nodup_nil
  exact ⟨parts, names, hinlines, hnodup, (subperm_of_subset hnodup hsub).length_le, heq, hparts, hsorted, hall⟩

/-- What has been inlined is known by its name: a file with two names comes twice. -/
theorem expand_two_names : (expand [("d/a", "x;")] "#include \"a\"\n#include \"d/a\"").lines =
    (between "a" ["x;".toList]).map (·, 0) ++ (between "d/a" ["x;".toList]).map (·, 1) := by
  cbv

end AlgoLang.CSource
