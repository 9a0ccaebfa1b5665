/-
# Brackets and separators outside literals

A closing bracket is looked for with its own kind alone: other kinds may stand between in any number.
A separator splits only where all three kinds of brackets are closed; there all kinds count alike, and
surplus closing brackets count below zero.
-/
import AlgoLang.CSource.Literal
import AlgoLang.Text.Blank

namespace AlgoLang.CSource

def isOpener (c : Char) : Bool :=
  c == '(' || c == '[' || c == '\x7b'

def isCloser (c : Char) : Bool :=
  c == ')' || c == ']' || c == '\x7d'

def depthAfter (depth : Int) (c : Char) : Int :=
  if isOpener c then depth + 1 else if isCloser c then depth - 1 else depth

def prependFirst (c : Char) : List (List Char) → List (List Char)
  | [] => [[c]]
  | p :: ps => (c :: p) :: ps

/-- Splits marked text; `depth` brackets are open. -/
def splitMarked (separator : Char) (depth : Int) : List (Char × Spot) → List (List Char)
  | [] => [[]]
  | (c, .code) :: cs =>
    if c == separator && depthAfter depth c == 0 then [] :: splitMarked separator (depthAfter depth c) cs
    else prependFirst c (splitMarked separator (depthAfter depth c) cs)
  | (c, _) :: cs => prependFirst c (splitMarked separator depth cs)

/-- The parts of a text between separators that stand outside literals and brackets. -/
def splitTopLevel (separator : Char) (cs : List Char) : List (List Char) :=
  splitMarked separator 0 (marked cs)

/-- The text up to the bracket that closes `depth + 1` open ones, and the text after it. -/
def closingMarked (opener closer : Char) (depth : Nat) :
    List (Char × Spot) → Option (List Char × List Char)
  | [] => none
  | (c, .code) :: cs =>
    if c == opener then (closingMarked opener closer (depth + 1) cs).map fun r => (c :: r.1, r.2)
    else if c == closer then
      match depth with
      | 0 => some ([], cs.map Prod.fst)
      | n + 1 => (closingMarked opener closer n cs).map fun r => (c :: r.1, r.2)
    else (closingMarked opener closer depth cs).map fun r => (c :: r.1, r.2)
  | (c, _) :: cs => (closingMarked opener closer depth cs).map fun r => (c :: r.1, r.2)

/-- After an opening bracket: the text up to the one that closes it, and the text after that. -/
def closing? (opener closer : Char) (cs : List Char) : Option (List Char × List Char) :=
  closingMarked opener closer 0 (marked cs)

def parenthesised? (cs : List Char) : Option (List Char × List Char) :=
  closing? '(' ')' cs

/-- After a keyword: blanks, then something in parentheses, then a rest; both without the blanks
around them. -/
def header? (cs : List Char) : Option (List Char × List Char) :=
  match Text.trimStart cs with
  | '(' :: rest => (parenthesised? rest).map fun r => (Text.trim r.1, Text.trim r.2)
  | _ => none

open List

/-- How many brackets are open behind marked text. -/
def depthOver (depth : Int) (ms : List (Char × Spot)) : Int :=
  ms.foldl (fun d m => if m.2 = .code then depthAfter d m.1 else d) depth

/-- The first part of marked text is all of it, or a separator in code stands behind it; no separator splits it. -/
theorem exists_splitMarked (sep : Char) (depth : Int) (ms : List (Char × Spot)) :
    ∃ first others, splitMarked sep depth ms = first.map Prod.fst :: others ∧
      (∀ before after, first = before ++ (sep, .code) :: after → depthAfter (depthOver depth before) sep ≠ 0) ∧
      (others = [] ∧ ms = first ∨ ∃ rest, ms = first ++ (sep, .code) :: rest ∧ others = splitMarked sep 0 rest) := by
  induction ms generalizing depth with
  | nil => exact ⟨[], [], rfl, by simp, .inl ⟨rfl, rfl⟩⟩
  | cons m ms ih =>
    obtain ⟨c, spot⟩ := m
    have hstep {d : Int} (hd : ∀ before, depthOver depth ((c, spot) :: before) = depthOver d before)
        (hc : (c, spot) = (sep, .code) → depthAfter depth sep ≠ 0) : ∃ first others,
        prependFirst c (splitMarked sep d ms) = first.map Prod.fst :: others ∧
          (∀ before after, first = before ++ (sep, .code) :: after → depthAfter (depthOver depth before) sep ≠ 0) ∧
          (others = [] ∧ (c, spot) :: ms = first ∨
            ∃ rest, (c, spot) :: ms = first ++ (sep, .code) :: rest ∧ others = splitMarked sep 0 rest) := by
      obtain ⟨first, others, heq, hwhole, hcases⟩ := ih d
      refine ⟨(c, spot) :: first, others, by rw [heq, prependFirst, map_cons], fun before after h => ?_, ?_⟩
      · rcases cons_eq_append_iff.mp h with ⟨rfl, heq⟩ | ⟨before, rfl, hfirst⟩
        · exact hc (cons.inj heq).1.symm
        · exact hd before ▸ hwhole before after hfirst
      · rcases hcases with ⟨hothers, rfl⟩ | ⟨rest, rfl, hrest⟩
        · exact .inl ⟨hothers, rfl⟩
        · exact .inr ⟨rest, rfl, hrest⟩
    cases spot with
    | code =>
      rw [splitMarked]
      split
      · next hsep =>
        rw [Bool.and_eq_true, beq_iff_eq, beq_iff_eq] at hsep
        exact ⟨[], _, rfl, by simp, .inr ⟨ms, by rw [hsep.1, nil_append], by rw [hsep.2]⟩⟩
      · next hsep => exact hstep (fun _ => rfl) fun h => by simp_all
    | opening => exact hstep (fun _ => rfl) nofun
    | inside => exact hstep (fun _ => rfl) nofun

theorem infix_of_mem_splitMarked {sep : Char} {depth : Int} {ms : List (Char × Spot)} {p : List Char}
    (h : p ∈ splitMarked sep depth ms) : p <:+: ms.map Prod.fst := by
  obtain ⟨first, others, heq, -, hcases⟩ := exists_splitMarked sep depth ms
  rw [heq] at h
  rcases hcases with ⟨rfl, rfl⟩ | ⟨rest, hms, rfl⟩
  · obtain rfl := mem_singleton.mp h
    exact infix_rfl
  · have hshorter : rest.length < ms.length := by grind
    rw [hms]
    rcases mem_cons.mp h with rfl | h
    · exact ((prefix_append _ _).map _).isInfix
    · exact (infix_of_mem_splitMarked h).trans (((suffix_cons _ _).trans (suffix_append _ _)).map _).isInfix
termination_by ms.length

theorem infix_of_mem_splitTopLevel {sep : Char} {cs p : List Char} (h : p ∈ splitTopLevel sep cs) : p <:+: cs := by
  simpa [map_fst_marked] using infix_of_mem_splitMarked h

variable {r : List Char × List Char} {opener closer : Char}

/-- A closing bracket that is found stands in code. -/
theorem exists_of_closingMarked {depth : Nat} {ms : List (Char × Spot)}
    (h : closingMarked opener closer depth ms = some r) :
    ∃ before behind, ms = before ++ (closer, .code) :: behind ∧ r = (before.map Prod.fst, behind.map Prod.fst) := by
  induction ms generalizing depth r with
  | nil => cases h
  | cons m ms ih =>
    obtain ⟨c, spot⟩ := m
    have hstep {d : Nat} (hmap : (closingMarked opener closer d ms).map (fun r => (c :: r.1, r.2)) = some r) :
        ∃ before behind, (c, spot) :: ms = before ++ (closer, .code) :: behind ∧
          r = (before.map Prod.fst, behind.map Prod.fst) := by
      obtain ⟨r', hr', rfl⟩ := Option.map_eq_some_iff.mp hmap
      obtain ⟨before, behind, rfl, rfl⟩ := ih hr'
      exact ⟨(c, spot) :: before, behind, rfl, rfl⟩
    cases spot with
    | code =>
      unfold closingMarked at h
      split at h
      · exact hstep h
      · split at h
        · next hcloser =>
          cases depth with
          | zero =>
            cases h
            exact ⟨[], ms, by rw [beq_iff_eq.mp hcloser, nil_append], rfl⟩
          | succ n => exact hstep h
        · exact hstep h
    | opening => exact hstep h
    | inside => exact hstep h

theorem closing?_eq_append {cs : List Char} (h : closing? opener closer cs = some r) : cs = r.1 ++ closer :: r.2 := by
  obtain ⟨before, behind, hms, rfl⟩ := exists_of_closingMarked h
  rw [← map_fst_marked cs, hms, map_append, map_cons]

end AlgoLang.CSource
