/-
# Lifted programs are balanced

The depth that the lifter keeps for its indentation is a counter of its own, and nothing in the code ties it to the
rows or to the stack of blocks.  That the three agree is said here of every level that the fragments of a text lead
to, and of the drafts in the end, where nothing is left open: not even by a text that never closes a brace.
-/
import AlgoLang.Proofs.Lift.Chronicle

namespace AlgoLang.Lift

open CSource Sketch List Numeral

variable {code : String} {files : Files} {style : Style}

/-- A program comes from a sketch that all fragments have been put into, and is indented by spaces. -/
lemma exists_indent_of_success (h : (program code files style).success) : ∃ sk indent,
      fragments (startLevel code files style) (splitFragments (expand files code).lines) = .ok sk ∧
      spaces style.indentWidth = .ok indent ∧
      (program code files style).lines = some (sk.lines style.programName indent) := by
  unfold program at h ⊢
  split
  · next hblank => simp [hblank, Lifted.success] at h
  · next hblank =>
    rw [if_neg hblank] at h
    have hlines : programLines code files style = fragments (startLevel code files style)
            (splitFragments (expand files code).lines) >>= fun sk =>
          sk.attempt (spaces style.indentWidth) >>= fun indent =>
            .ok (sk.lines style.programName indent, sk.warnings) := rfl
    rw [hlines] at h ⊢
    cases hsk : fragments (startLevel code files style) (splitFragments (expand files code).lines) with
    | error e =>
      rw [hsk] at h
      cases h
    | ok sk =>
      rw [hsk] at h
      cases hindent : spaces style.indentWidth with
      | error e =>
        simp only [hindent, attempt, Except.mapError, bind, Except.bind] at h
        cases h
      | ok indent => exact ⟨sk, indent, rfl, rfl, rfl⟩

/-- While a text is lifted, what is open in the rows of a routine is its depth and what its blocks
have open; in the program that comes of it the rows of every routine are balanced and stand at their
depth. -/
theorem depth_is_nesting (code : String) (files : CSource.Files) (style : Style)
    (h : (program code files style).success = true) :
    (∀ past next, CSource.splitFragments (CSource.expand files code).lines = past ++ next →
      ∃ level, (startLevel code files style).after next past = .ok level ∧
        ∀ s, level = .routine s →
          unmatched? s.routine.draft.body = some s.routine.depth ∧
          s.routine.draft.body.countP Row.opens = s.routine.draft.body.countP Row.ends + s.routine.depth ∧
          s.routine.depth = s.routine.blocks.length +
            s.routine.blocks.countP fun b => b.kind == .switch && b.openCase.isSome) ∧
    ∃ sk indent,
      fragments (startLevel code files style) (CSource.splitFragments (CSource.expand files code).lines) =
        .ok sk ∧
      (program code files style).lines = some (sk.lines style.programName indent) ∧
      ∀ d ∈ sk.routines ++ sk.main.toList,
        unmatched? d.body = some 0 ∧
        d.body.countP Row.opens = d.body.countP Row.ends ∧
        ∀ i row, d.body[i]? = some row →
          unmatched? (d.body.take i) = some (row.depth + if row.ends then 1 else 0) := by
  obtain ⟨sk, indent, hsk, -, hlines⟩ := exists_indent_of_success h
  refine ⟨?_, sk, indent, hsk, hlines, ?_⟩
  · intro past next hsplit
    rw [hsplit, fragments_append] at hsk
    cases hlevel : (startLevel code files style).after next past with
    | error e =>
      rw [hlevel] at hsk
      cases hsk
    | ok level =>
      refine ⟨level, rfl, ?_⟩
      rintro s rfl
      have hs : s.Tidy _ := after_tidy hsplit _ hlevel
      have hdepth := hs.routine.depth
      have hunmatched := hs.routine.unmatched
      rw [← hdepth] at hunmatched
      exact ⟨hunmatched, countP_opens_of_unmatched? hunmatched, hdepth⟩
  · intro d hd
    have hbalanced := ((fragments_tidy _ hsk).drafts d hd).2
    exact ⟨hbalanced, countP_opens_of_unmatched? hbalanced, fun i row => unmatched?_take hbalanced⟩

/-- A `do` inside a `case` inside a `switch`, and no closing braces at all. -/
def unclosedDo : String :=
  "int main()\x7bswitch(1)\x7bcase 2:do\x7b"

lemma fragment_main_head {text rest : List Char} (hhead : routineHead? rest = some ⟨false, "main", [], some '\x7b'⟩)
    (htyped : typed? [] text = some ⟨"INTEGER", rest, false⟩) (hcompound : compoundHead? text = none)
    (hplain : (text.head? == some '#' || text == [';'] || text == ['\x7d'] || "typedef".toList.isPrefixOf text) = false)
    (sk : Sketch) (hnames : sk.typeNames = []) (origin : Nat) (next : List Fragment) :
    sk.fragment ⟨text, origin⟩ next =
      .ok (.routine (sk.openRoutine ⟨false, "main", [], some '\x7b'⟩ "INTEGER" origin)) := by
  simp only [Bool.or_eq_false_iff] at hplain
  simp only [Sketch.fragment, hplain, hcompound, hnames, htyped, typedFragment, hhead, Option.filter_none,
    Bool.or_false]
  rfl

lemma fragment_main (sk : Sketch) (hnames : sk.typeNames = []) (next : List Fragment) :
    sk.fragment ⟨"int main()\x7b".toList, 0⟩ next =
      .ok (.routine (sk.openRoutine ⟨false, "main", [], some '\x7b'⟩ "INTEGER" 0)) :=
  fragment_main_head (show routineHead? "main()\x7b".toList = _ by cbv) (by cbv) (by decide +kernel)
    (by decide +kernel) sk hnames 0 next

lemma splitFragments_unclosedDo : splitFragments (expand [] unclosedDo).lines =
      [⟨"int main()\x7b".toList, 0⟩, ⟨"switch(1)\x7b".toList, 0⟩, ⟨"case 2:do\x7b".toList, 0⟩] := by
  have hexpand : (expand [] unclosedDo).lines = [(unclosedDo.toList, 0)] := by cbv
  rw [hexpand]
  decide +kernel

/-- How many levels are open, in a routine. -/
def Level.openDepth? : Level → Option Nat
  | .outer .. => none
  | .routine s => some s.routine.depth

/-- Three levels are open when the text ends, and none in the program. -/
theorem depth_is_nesting_unclosedDo :
    (program unclosedDo).success = true ∧
    ∃ s sk, (startLevel unclosedDo [] {}).after []
        (CSource.splitFragments (CSource.expand [] unclosedDo).lines) = .ok (.routine s) ∧
      s.routine.depth = 3 ∧ unmatched? s.routine.draft.body = some s.routine.depth ∧
      fragments (startLevel unclosedDo [] {})
        (CSource.splitFragments (CSource.expand [] unclosedDo).lines) = .ok sk ∧
      ∀ d ∈ sk.routines ++ sk.main.toList, unmatched? d.body = some 0 := by
  have hsuccess : (program unclosedDo).success = true := by
    unfold program
    rw [if_neg (by decide +kernel)]
    unfold programLines
    dsimp only
    rw [splitFragments_unclosedDo]
    dsimp only [fragments]
    rw [fragment_main _ rfl]
    decide +kernel
  have hafter : ∃ s, (startLevel unclosedDo [] {}).after []
      (CSource.splitFragments (CSource.expand [] unclosedDo).lines) = .ok (.routine s) ∧
        s.routine.depth = 3 := by
    have heval : ((startLevel unclosedDo [] {}).after []
        (CSource.splitFragments (CSource.expand [] unclosedDo).lines)).toOption.bind Level.openDepth? = some 3 := by
      rw [splitFragments_unclosedDo]
      dsimp only [Level.after, startLevel, Level.step]
      rw [fragment_main _ rfl]
      decide +kernel
    rcases hlevel : (startLevel unclosedDo [] {}).after []
        (CSource.splitFragments (CSource.expand [] unclosedDo).lines) with _ | _ | s
    all_goals rw [hlevel] at heval
    · cases heval
    · cases heval
    · exact ⟨s, rfl, Option.some.inj heval⟩
  obtain ⟨s, hs, hdepth⟩ := hafter
  obtain ⟨hlevels, sk, -, hsk, -, hbalanced⟩ := depth_is_nesting unclosedDo [] {} hsuccess
  obtain ⟨level, hlevel, hroutine⟩ := hlevels _ [] (List.append_nil _).symm
  exact ⟨hsuccess, s, sk, hs, hdepth,
    (hroutine s (Except.ok.inj (hlevel.symm.trans hs))).1, hsk, fun d hd => (hbalanced d hd).1⟩

end AlgoLang.Lift
