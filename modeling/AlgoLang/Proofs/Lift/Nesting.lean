/-
# Nested rows

A row that opens something adds a level, an `END` takes one away, and every row has to stand at the depth that is
open before it.  `unmatched?` goes over the rows of a routine and says how many levels are left open, or that the
rows are not nested.  The stack of blocks accounts for these levels: one for each block, and one more for each
switch that is inside a case.
-/
import AlgoLang.Lift.Body
import Mathlib

namespace AlgoLang.Lift

open List Row

variable {b : Block} {i m : Nat} {rows : List Row}

/-! ## Nested rows -/

def Row.opens (r : Row) : Bool :=
  match r.content with
  | .begin_ | .switch _ => true
  | _ => false

def Row.ends (r : Row) : Bool :=
  r.content == .end_

/-- How many `BEGIN … END` are open behind a row if `n` are open before it: none if it is an `END`
with nothing to end, or if it does not stand at its depth.  An opening row and its `END` stand
outside, the rows between them one level deeper. -/
def Row.openAfter? (n : Nat) (r : Row) : Option Nat :=
  if r.opens then
    if r.depth = n then some (n + 1) else none
  else if r.ends then
    if r.depth + 1 = n then some r.depth else none
  else if r.depth = n then some n
  else none

/-- How many opening rows no `END` has matched so far; none if the rows are not nested, or if one of
them does not stand at its depth. -/
def unmatched? (rows : List Row) : Option Nat :=
  rows.foldlM openAfter? 0

@[simp] lemma unmatched?_nil : unmatched? [] = some 0 := rfl

lemma unmatched?_append_singleton (rows : List Row) (r : Row) :
    unmatched? (rows ++ [r]) = (unmatched? rows).bind (r.openAfter? ·) := by
  simp [unmatched?, foldlM_append]

lemma unmatched?_set {old new : Row} (hold : rows[i]? = some old)
    (hsame : ∀ n, new.openAfter? n = old.openAfter? n) : unmatched? (rows.set i new) = unmatched? rows := by
  have hall : ∀ (rows : List Row) (i n : Nat), rows[i]? = some old →
      (rows.set i new).foldlM openAfter? n = rows.foldlM openAfter? n := by
    intro rows
    induction rows with
    | nil => simp
    | cons r rows ih =>
      intro i n hi
      cases i with
      | zero =>
        obtain rfl : r = old := by simpa using hi
        simp [hsame]
      | succ i =>
        exact bind_congr fun m => ih i m (by simpa using hi)
  exact hall rows i 0 hold

lemma Row.openAfter?_eq_some {r : Row} {n : Nat} (h : r.openAfter? n = some m) :
    n = r.depth + (if r.ends then 1 else 0) ∧ n + (if r.opens then 1 else 0) = (if r.ends then 1 else 0) + m := by
  have hboth : r.opens → r.ends = false := by cases hc : r.content <;> simp [opens, ends, hc]
  unfold openAfter? at h
  constructor <;> grind

/-- Each of nested rows stands as deep as rows are open before it, an `END` one less. -/
lemma unmatched?_take {n : Nat} (h : unmatched? rows = some n) {r : Row} (hr : rows[i]? = some r) :
    unmatched? (rows.take i) = some (r.depth + if r.ends then 1 else 0) := by
  obtain ⟨hi, hget⟩ := List.getElem?_eq_some_iff.mp hr
  have hsplit : rows = (rows.take i ++ [r]) ++ rows.drop (i + 1) := by
    rw [append_assoc, singleton_append, ← hget, getElem_cons_drop, take_append_drop]
  rw [hsplit, unmatched?, foldlM_append, ← unmatched?] at h
  obtain ⟨m, hm, -⟩ := Option.bind_eq_some_iff.mp h
  rw [unmatched?_append_singleton] at hm
  obtain ⟨k, hk, hkm⟩ := Option.bind_eq_some_iff.mp hm
  rw [hk, (openAfter?_eq_some hkm).1]

/-- What is unmatched is the number of opening rows less that of the ends. -/
lemma countP_opens_of_unmatched? {n : Nat} (h : unmatched? rows = some n) :
    rows.countP opens = rows.countP ends + n := by
  have hall : ∀ (rows : List Row) (k n : Nat), rows.foldlM openAfter? k = some n →
      k + rows.countP opens = rows.countP ends + n := by
    intro rows
    induction rows with
    | nil => simp
    | cons r rows ih =>
      intro k n h
      obtain ⟨m, hm, hrest⟩ := Option.bind_eq_some_iff.mp h
      have hr := (openAfter?_eq_some hm).2
      have hcount := ih m n hrest
      simp only [countP_cons]
      omega
  simpa using hall rows 0 n h

namespace OpenRoutine

/-! ## Open blocks -/

/-- Whether a block is a switch with an open clause. -/
def inCase (b : Block) : Bool :=
  b.kind == .switch && b.openCase.isSome

/-- How deep the rows inside of blocks stand: one level for each block, and one more for each switch
with an open clause. -/
def levels (bs : List Block) : Nat :=
  bs.length + bs.countP inCase

lemma levels_cons (b : Block) (bs : List Block) : levels (b :: bs) = levels bs + 1 + if inCase b then 1 else 0 := by
  simp only [levels, length_cons, countP_cons]
  omega

@[simp] lemma blocks_emit (r : OpenRoutine) (c : Content) (o : Option Nat) : (r.emit c o).blocks = r.blocks := rfl

@[simp] lemma blocks_emitEnd (r : OpenRoutine) (o : Option Nat) : (r.emitEnd o).blocks = r.blocks := rfl

lemma blocks_emit_plains (texts : List String) (o : Option Nat) : ∀ (r : OpenRoutine),
    (texts.foldl (fun r t => r.emit (.plain t) o) r).blocks = r.blocks := by
  induction texts with
  | nil => exact fun r => rfl
  | cons t ts ih => exact fun r => ih _

lemma blocks_closeBlock (r : OpenRoutine) (b : Block) (o : Option Nat) : (r.closeBlock b o).blocks = r.blocks := by
  unfold closeBlock
  split
  · cases b.openCase.isSome <;> rfl
  · simp [blocks_emit_plains]

lemma row_of_emptyCase? {r : OpenRoutine} {row : Row} {values : List String}
    (h : r.emptyCase? b = some (i, row, values)) :
    r.draft.body[i]? = some row ∧ row.content = .case values := by
  unfold emptyCase? at h
  grind

end OpenRoutine

end AlgoLang.Lift
