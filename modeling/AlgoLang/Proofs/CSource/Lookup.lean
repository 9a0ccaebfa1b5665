/-
# Parts of a text, and where its literals are looked up

The parts between separators and the segments cover a text: put together again they give it back.  So there is one
flag for each character, and whoever asks at a place of the text whether it lies in a literal gets an answer.
-/
import AlgoLang.CSource.Pointer
import AlgoLang.Proofs.CSource.Quoted

namespace AlgoLang.CSource

open Mode Segment Text List

variable {cs p : List Char} {sep : Char} {ss : List Segment} {look : List Char → Nat → Bool}

lemma length_markedFrom (m : Mode) (cs : List Char) : (markedFrom m cs).length = cs.length := by
  simpa using congrArg length (map_fst_markedFrom m cs)

/-! ## Parts -/

lemma intercalate_splitMarked (sep : Char) (depth : Int) (ms : List (Char × Spot)) :
    [sep].intercalate (splitMarked sep depth ms) = ms.map Prod.fst := by
  obtain ⟨first, others, heq, -, ⟨rfl, rfl⟩ | ⟨rest, hms, rfl⟩⟩ := exists_splitMarked sep depth ms
  · simp [heq]
  · have hshorter : rest.length < ms.length := by grind
    have ih := intercalate_splitMarked sep 0 rest
    obtain ⟨p, ps, hrest, -⟩ := exists_splitMarked sep 0 rest
    rw [hrest] at ih
    rw [heq, hrest, intercalate_cons_cons, ih, hms]
    simp
termination_by ms.length

/-- No separator splits a part: where one stands in its code, brackets are open. -/
lemma whole_of_mem_splitTopLevel {cs : List Char} (h : p ∈ splitTopLevel sep cs) (before after : List (Char × Spot))
    (hp : marked p = before ++ (sep, .code) :: after) : depthAfter (depthOver 0 before) sep ≠ 0 := by
  obtain ⟨first, others, heq, hwhole, hcases⟩ := exists_splitMarked sep 0 (marked cs)
  -- a part begins in code, so that it is marked alone as it is in the text
  have hfirst : marked (first.map Prod.fst) = first := by
    rcases hcases with ⟨-, rfl⟩ | ⟨rest, hms, -⟩
    · rw [map_fst_marked]
    · have hlength : (marked (first.map Prod.fst)).length = first.length := by simp [marked, length_markedFrom]
      rw [marked, (of_markedFrom_eq_append hms).1, markedFrom_append] at hms
      exact append_inj_left hms hlength
  rw [splitTopLevel, heq] at h
  rcases mem_cons.mp h with rfl | h
  · exact hwhole before after (hfirst.symm.trans hp)
  · rcases hcases with ⟨rfl, -⟩ | ⟨rest, hms, rfl⟩
    · cases h
    · obtain ⟨hcs, -, -, hrest⟩ := of_markedFrom_eq_append hms
      have hshorter : (rest.map Prod.fst).length < cs.length := by
        rw [hcs, length_append, length_cons]
        omega
      rw [← hrest] at h
      exact whole_of_mem_splitTopLevel h before after hp
termination_by cs.length

/-! ## Flags -/

/-- For each character whether it stands inside a literal, segment by segment. -/
def flags (ss : List Segment) : List Bool :=
  ss.flatMap fun s => replicate s.text.length s.literal?.isSome

lemma Cut.flags_eq (h : Cut cs ss) : flags ss = (marked cs).map (·.2 != .code) := by
  have hliteral {ds : List Char} (hmarks : ∀ p ∈ marked ds, p.2 ≠ .code) :
      replicate ds.length true = (marked ds).map (·.2 != .code) := by
    refine (eq_replicate_iff.mpr ⟨by rw [length_map, marked, length_markedFrom], fun b hb => ?_⟩).symm
    obtain ⟨p, hp, rfl⟩ := mem_map.mp hb
    exact bne_iff_ne.mpr (hmarks p hp)
  induction h with
  | nil => rfl
  | @code ds rest ss hplain _ _ ih =>
    rw [marked, markedFrom_append, over_plain hplain, markedFrom_plain hplain, map_append, map_map, ← marked, ← ih]
    simp [flags, text, literal?, Function.comp_def, map_const']
  | @literal ds rest ss hmarks _ hover _ ih =>
    rw [marked, markedFrom_append, hover, map_append, ← marked, ← marked, ← ih, ← hliteral hmarks]
    simp [flags, text, literal?]
  | unclosed hmarks => simpa [flags, text, literal?] using hliteral hmarks

lemma flags_segments (cs : List Char) : flags (segments cs) = (marked cs).map (·.2 != .code) :=
  (cut_segments cs).flags_eq

/-- The answers of `look` are those of the flags, wherever there is a flag. -/
def LooksUp (look : List Char → Nat → Bool) : Prop :=
  ∀ cs i, i < cs.length → (flags (segments cs))[i]? = some (look cs i)

lemma looksUp_inLiteral : LooksUp inLiteral := by
  intro cs i hi
  have hlt : i < (marked cs).length := by rwa [marked, length_markedFrom]
  rw [flags_segments, getElem?_map, inLiteral, getElem?_eq_getElem hlt]
  rfl

/-! ## Lookups -/

lemma substituteFrom_congr {find find' : Finder} {n : Nat}
    (h : ∀ behind rest, behind.length < n → find behind rest = find' behind rest) {behind cs : List Char} (skip : Nat)
    (hn : behind.length + cs.length ≤ n) : substituteFrom find behind skip cs = substituteFrom find' behind skip cs := by
  induction cs generalizing behind skip with
  | nil => rfl
  | cons c cs ih =>
    have hrest (k : Nat) : substituteFrom find (c :: behind) k cs = substituteFrom find' (c :: behind) k cs :=
      ih k (by simpa [Nat.add_assoc, Nat.add_comm 1] using hn)
    cases skip with
    | succ k => exact hrest k
    | zero =>
      have hlt : behind.length < n := by
        rw [length_cons] at hn
        omega
      simp only [substituteFrom, h behind (c :: cs) hlt, hrest]

/-- One pass that replaces what a finder finds in code, and only before an operand if it is `unary`. -/
def stripPass (look : List Char → Nat → Bool) (unary : Bool) (find : Finder) (cs : List Char) : List Char :=
  substitute (guarded (fun behind => !look cs behind.length && (!unary || isPrefixPlace behind)) find) cs

/-- `stripDereferences` with its own way to look up literals. -/
def stripDereferencesBy (look : List Char → Nat → Bool) (names : List String) (cs : List Char) : List Char :=
  let names := (names.mergeSort (· ≤ ·)).map String.toList
  stripPass look false (arrowAccess names)
    (stripPass look true (plainDereference names) (stripPass look true (groupedDereference names) cs))

/-- The calls that begin where `inside` says no, as `callsFrom` gives them. -/
def callsBy (inside : Nat → Bool) (before : Option Char) (index : Nat) : List Char → List (List Char × Nat)
  | [] => []
  | c :: rest =>
    let here := if !inside index && isWordEdge before (some c) then
        (callAt? (c :: rest)).toList.map fun (n, away) => (n, index + away)
      else []
    here ++ callsBy inside (some c) (index + 1) rest

lemma LooksUp.stripPass_eq (h : LooksUp look) (unary : Bool) (find : Finder) (cs : List Char) :
    stripPass look unary find cs = stripPass inLiteral unary find cs := by
  refine substituteFrom_congr (n := cs.length) (fun behind rest hlt => ?_) 0 (by simp)
  have hlook : look cs behind.length = inLiteral cs behind.length :=
    Option.some.inj ((h cs _ hlt).symm.trans (looksUp_inLiteral cs _ hlt))
  simp only [guarded, hlook]

lemma callsFrom_eq_callsBy {inside : Nat → Bool} {m : Mode} {index : Nat} (before : Option Char)
    (h : ∀ i, i < cs.length → ((markedFrom m cs).map (·.2 != .code))[i]? = some (inside (index + i))) :
    callsFrom m before index cs = callsBy inside before index cs := by
  induction cs generalizing m before index with
  | nil => rfl
  | cons c cs ih =>
    have hc : (m.spot c != .code) = inside index := by simpa [markedFrom] using h 0 (by simp)
    have hrest : callsFrom (m.next c) (some c) (index + 1) cs = callsBy inside (some c) (index + 1) cs := by
      refine ih (some c) fun i hi => ?_
      simpa [markedFrom, Nat.add_assoc, Nat.add_comm 1] using h (i + 1) (by simpa using hi)
    rw [callsFrom, callsBy, hrest, ← hc]
    simp [bne]

/-- **Texts are covered by their parts.**

* The parts of a text between commas or semicolons give it back, joined by the separator, and in none of them the
  separator stands outside literals while no bracket is open.
* The segments give the text back, so that there is one flag for each of its characters.
* Dereferences and addresses are stripped in the same way whatever a lookup beyond the flags would give. -/
theorem texts_covered (cs : List Char) :
    (∀ sep, sep = ',' ∨ sep = ';' → [sep].intercalate (splitTopLevel sep cs) = cs ∧
      ∀ p ∈ splitTopLevel sep cs, ∀ before after, marked p = before ++ (sep, .code) :: after → depthOver 0 before ≠ 0) ∧
    (segments cs).flatMap text = cs ∧ (flags (segments cs)).length = cs.length ∧
    ∀ look, LooksUp look → (∀ names, stripDereferencesBy look names cs = stripDereferences names cs) ∧
      ∀ byPointer, (callsBy (look cs) none 0 cs).foldr (stripCall byPointer) cs = stripAddressOf byPointer cs := by
  refine ⟨fun sep hsep => ⟨?_, fun p hp before after heq => ?_⟩, flatMap_text_segments cs, ?_, fun look h => ⟨?_, ?_⟩⟩
  · rw [splitTopLevel, intercalate_splitMarked, map_fst_marked]
  · have hdepth := whole_of_mem_splitTopLevel hp before after heq
    rcases hsep with rfl | rfl <;> exact hdepth
  · rw [flags_segments, length_map, marked, length_markedFrom]
  · intro names
    simp only [stripDereferencesBy, h.stripPass_eq]
    simp [stripDereferences, stripPass]
  · intro byPointer
    rw [stripAddressOf, callsFrom_eq_callsBy none fun i hi => ?_]
    rw [Nat.zero_add, ← marked, ← flags_segments]
    exact h cs i hi

theorem texts_covered_call :
    [','].intercalate (splitTopLevel ',' "f(a, ','), b)".toList) = "f(a, ','), b)".toList ∧
      stripDereferencesBy inLiteral ["b"] "f(a, ','), *b".toList = stripDereferences ["b"] "f(a, ','), *b".toList :=
  ⟨((texts_covered _).1 ',' (.inl rfl)).1, ((texts_covered _).2.2.2 inLiteral looksUp_inLiteral).1 _⟩

end AlgoLang.CSource
