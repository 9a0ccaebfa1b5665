/-
# Names of programs

The settings take a text for the name of a program by its characters, the scanner by reading it.  Both agree: such
a text is one identifier, so a heading with that name is read, and no other text is the name of a program.
-/
import AlgoLang.Proofs.Grammar.Format
import AlgoLang.Proofs.Grammar.Spans
import AlgoLang.Settings

namespace AlgoLang

open List Token

variable {name file : String}

lemma isProgramName_iff_isName : isProgramName name ↔ IsName name := by
  unfold isProgramName IsName Lift.isWordPiece
  cases name.toList with
  | nil => simp
  | cons c cs => simp [isNameChar]

lemma IsName.scan_eq (h : IsName name) (file : String) :
    (scan name file).faults = [] ∧ (scan name file).all.map Token.word = [(.identifier, name), (.eof, "")] := by
  obtain ⟨hfaults, -, -, t, htokens, hkind, hvalue⟩ := h.writes.apart.parses file
  refine ⟨hfaults, ?_⟩
  rw [Scanned.all, htokens, (scan_run name file).eof_eq]
  simp [Token.word, hkind, hvalue]

/-- The shortest program with that name. -/
def emptyProgram (name : String) : String :=
  "ALGORITHM " ++ name ++ " BEGIN END."

lemma IsName.exists_ofSource (h : IsName name) (file : String) :
    ∃ p, Program.ofSource (emptyProgram name) file = .ok (.ok p) ∧ p.name = name := by
  have halgorithm : Writes _ (fun _ => True) _ := (Writes.keyword "ALGORITHM" .algorithm rfl rfl).apart.spaced ' ' rfl
  have hname : Writes _ (fun _ => True) _ := h.writes.apart.spaced ' ' rfl
  have hbegin : Writes _ (fun _ => True) _ := (Writes.keyword "BEGIN" .begin_ rfl rfl).apart.spaced ' ' rfl
  have hdot : Writes ['.'] Apart (IsToken (.mark .dot)) := .mark fun _ => ⟨rfl, rfl⟩
  have hend := (Writes.keyword "END" .end_ rfl rfl).append hdot fun _ _ => parted_cons (by decide)
  have hrest := hname.before (hbegin.before hend)
  have hall : Writes (emptyProgram name).toList Apart _ :=
    (halgorithm.before hrest).reads (by simp [emptyProgram]) fun _ h => h
  obtain ⟨hfaults, -, hshort, _, _, heq, ⟨a, rfl, ha⟩, _, _, rfl, ⟨n, rfl, hn, hvalue⟩, _, _, rfl, ⟨b, rfl, hb⟩, _, _,
    rfl, ⟨e, rfl, he⟩, d, rfl, hd⟩ := hall.parses file
  have hprogram : Grammar.IsProgram .resolved _ _ := .mk ha hn .nil .nil hb .nil he hd
  have hread := hprogram.ofScanned_eq (emptyProgram name)
    (show _ <+: (scan (emptyProgram name) file).tokens by simp [heq]) hshort
  have hsource := congrArg (Except.map (Except.mapError fun d => [d])) hread
  exact ⟨_, (if_pos (by rw [hfaults]; rfl)).trans hsource, hvalue⟩

/-- The name of a program that is read is an identifier of its text. -/
lemma Program.isName_of_ofSource {source : String} {p : Program} (h : ofSource source file = .ok (.ok p)) :
    IsName p.name := by
  obtain ⟨taken, hparse, rfl⟩ := exists_parse_of_ofSource h
  obtain ⟨ts, htoks, -, hprogram⟩ := Grammar.exists_isProgram_of_parse hparse
  generalize taken.value = p at hprogram
  cases hprogram with
  | @mk _ n _ _ _ _ _ _ _ _ _ _ _ hn =>
    have hmem : n ∈ (scan source file).tokens := by simp [htoks]
    exact isName_of_mem_scan hmem hn

/-- **Names of programs.**  A text is the name of a program exactly if it scans without a fault into one identifier
that is spelled like it, and exactly if the empty program of that name is read as one that has it. -/
theorem isProgramName_iff (name file : String) :
    (isProgramName name = true ↔ (scan name file).faults = [] ∧
      (scan name file).all.map Token.word = [(.identifier, name), (.eof, "")]) ∧
    (isProgramName name = true ↔
      ∃ p, Program.ofSource (emptyProgram name) file = .ok (.ok p) ∧ p.name = name) := by
  rw [isProgramName_iff_isName]
  refine ⟨⟨fun h => h.scan_eq file, fun ⟨_, hwords⟩ => ?_⟩, fun h => h.exists_ofSource file, ?_⟩
  · have htokens : (scan name file).tokens.map Token.word = [(.identifier, name)] := by
      rw [Scanned.all, map_append] at hwords
      exact append_inj_left' hwords rfl
    obtain ⟨t, rest, heq, ht, -⟩ := map_eq_cons_iff.mp htokens
    obtain ⟨hkind, rfl⟩ := Prod.mk.inj ht
    exact isName_of_mem_scan (heq ▸ mem_cons_self) hkind
  · rintro ⟨p, hp, rfl⟩
    exact Program.isName_of_ofSource hp

end AlgoLang
