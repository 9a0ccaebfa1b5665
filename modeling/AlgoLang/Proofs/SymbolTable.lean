/-
# What a table of symbols remembers

A table is compared with two simpler things.  One is a pair of stacks, of symbols and of named types, that are
pushed and popped together: only the first is asked for its depth before both lose their top, so that they never
get out of step is a theorem about histories.  The other is the logs of the open scopes: all symbols that were
defined in them, latest first.  A step keeps a table in accord with both, and so does a whole history.
-/
import AlgoLang.SymbolTable
import Mathlib

namespace AlgoLang.SymbolTable

open List Text

inductive Step where
  | enter
  | exit
  | define (s : Symbol)
  | defineType (name : String) (type : Ty)

def after (t : SymbolTable) : Step → SymbolTable
  | .enter => t.enter
  | .exit => t.exit
  | .define s => t.define s
  | .defineType name type => t.defineType name type

def run (t : SymbolTable) (steps : List Step) : SymbolTable :=
  steps.foldl after t

/-- The symbols and the named types of the open scopes on stacks of their own, innermost first. -/
structure Stacks where
  symbols : List (Keyed Symbol) := [[]]
  types : List (Keyed Ty) := [[]]

def Stacks.after (s : Stacks) : Step → Stacks
  | .enter => ⟨[] :: s.symbols, [] :: s.types⟩
  | .exit => if s.symbols.length ≤ 1 then s else ⟨s.symbols.tail, s.types.tail⟩
  | .define d => { s with symbols := (s.symbols.headD []).put (lower d.name) d :: s.symbols.tail }
  | .defineType name type => { s with types := (s.types.headD []).put (lower name) type :: s.types.tail }

def toStacks (t : SymbolTable) : Stacks :=
  ⟨t.scopes.map Scope.symbols, t.scopes.map Scope.types⟩

/-- The logs after a step, innermost scope first.  The outermost scope is never left. -/
def log (logs : List (List Symbol)) : Step → List (List Symbol)
  | .enter => [] :: logs
  | .exit => if logs.length ≤ 1 then logs else logs.tail
  | .define s => (s :: logs.headD []) :: logs.tail
  | .defineType .. => logs

def logsOf (steps : List Step) : List (List Symbol) :=
  steps.foldl log [[]]

/-- The latest symbol of a log whose name agrees with another but for the case of letters. -/
def latest? (name : String) (log : List Symbol) : Option Symbol :=
  log.find? fun s => lower s.name == lower name

/-- As many scopes are left as were entered, and none that was entered before. -/
inductive Balanced : List Step → Prop where
  | nil : Balanced []
  | define {rest} (s : Symbol) : Balanced rest → Balanced (.define s :: rest)
  | defineType {rest} (name : String) (type : Ty) : Balanced rest → Balanced (.defineType name type :: rest)
  | block {inside rest} : Balanced inside → Balanced rest → Balanced (.enter :: inside ++ .exit :: rest)

variable {t : SymbolTable} {logs : List (List Symbol)} {steps : List Step}

/-! ## The innermost scope -/

lemma scopes_eq_cons (t : SymbolTable) : t.scopes = t.current :: t.scopes.tail := by
  obtain ⟨_ | _, outermost⟩ := t <;> rfl

lemma scopes_withCurrent (t : SymbolTable) (s : Scope) : (t.withCurrent s).scopes = s :: t.scopes.tail := by
  obtain ⟨_ | _, outermost⟩ := t <;> rfl

lemma scopes_exit (t : SymbolTable) : t.exit.scopes = if t.scopes.length ≤ 1 then t.scopes else t.scopes.tail := by
  obtain ⟨_ | _, outermost⟩ := t <;> simp [exit, scopes]

lemma current_withCurrent (s : Scope) : (t.withCurrent s).current = s := by
  obtain ⟨_ | _, outermost⟩ := t <;> rfl

lemma withCurrent_withCurrent (s s' : Scope) : (t.withCurrent s).withCurrent s' = t.withCurrent s' := by
  obtain ⟨_ | _, outermost⟩ := t <;> rfl

lemma withCurrent_current : t.withCurrent t.current = t := by
  obtain ⟨_ | _, outermost⟩ := t <;> rfl

lemma toStacks_after (t : SymbolTable) (step : Step) : (t.after step).toStacks = t.toStacks.after step := by
  cases step with
  | enter => rfl
  | exit =>
    rw [after, Stacks.after, toStacks, scopes_exit, toStacks, length_map]
    split
    · rfl
    · rw [map_tail, map_tail]
  | define d | defineType name type => obtain ⟨_ | _, outermost⟩ := t <;> rfl

lemma toStacks_run (t : SymbolTable) (steps : List Step) :
    (t.run steps).toStacks = steps.foldl Stacks.after t.toStacks := by
  induction steps generalizing t with
  | nil => rfl
  | cons step steps ih => exact (ih _).trans (congrArg (steps.foldl Stacks.after) (toStacks_after t step))

/-- A scope that was entered and left again has no trace. -/
lemma run_block {inside : List Step} {s : Scope} (h : t.enter.run inside = t.enter.withCurrent s)
    (later : List Step) : t.run (.enter :: inside ++ .exit :: later) = t.run later := by
  rw [run, foldl_append, foldl_cons]
  change run (exit (t.enter.run inside)) later = _
  rw [h]
  rfl

/-- Balanced steps touch the innermost scope only. -/
lemma run_balanced (h : Balanced steps) (t : SymbolTable) : ∃ s, t.run steps = t.withCurrent s := by
  induction h generalizing t with
  | nil => exact ⟨t.current, withCurrent_current.symm⟩
  | define s _ ih =>
    obtain ⟨s', hrun⟩ := ih (t.define s)
    exact ⟨s', hrun.trans (withCurrent_withCurrent ..)⟩
  | defineType name type _ ih =>
    obtain ⟨s', hrun⟩ := ih (t.defineType name type)
    exact ⟨s', hrun.trans (withCurrent_withCurrent ..)⟩
  | block _ _ ihinside ihrest =>
    obtain ⟨s, hinside⟩ := ihinside t.enter
    obtain ⟨s', hrest⟩ := ihrest t
    exact ⟨s', (run_block hinside _).trans hrest⟩

/-! ## Logs -/

/-- A scope has the latest symbol of each name. -/
def Records (log : List Symbol) (scope : Scope) : Prop :=
  ∀ name, scope.symbols.get? (lower name) = latest? name log

lemma Records.define {log : List Symbol} {scope : Scope} (h : Records log scope) (s : Symbol) :
    Records (s :: log) { scope with symbols := scope.symbols.put (lower s.name) s } := by
  intro name
  rw [latest?, find?_cons]
  by_cases heq : lower name = lower s.name
  · simp [heq, Keyed.get?_put_self]
  · rw [beq_false_of_ne (Ne.symm heq)]
    exact (Keyed.get?_put_of_ne _ _ heq).trans (h name)

lemma records_after (h : Forall₂ Records logs t.scopes) (step : Step) :
    Forall₂ Records (log logs step) (t.after step).scopes := by
  have hcons := h
  rw [scopes_eq_cons] at hcons
  cases hcons with | cons hhead htail
  cases step with
  | enter => exact .cons (fun _ => rfl) h
  | exit =>
    rw [log, after, scopes_exit, h.length_eq]
    split
    · exact h
    · exact htail
  | define s =>
    rw [after, define, scopes_withCurrent]
    exact .cons (hhead.define s) htail
  | defineType name type =>
    rw [after, defineType, scopes_withCurrent]
    exact .cons hhead htail

lemma records_run (h : Forall₂ Records logs t.scopes) (steps : List Step) :
    Forall₂ Records (steps.foldl log logs) (t.run steps).scopes := by
  induction steps generalizing t logs with
  | nil => exact h
  | cons step steps ih => exact ih (records_after h step)

lemma findSome?_records {scopes : List Scope} (h : Forall₂ Records logs scopes) (name : String) :
    scopes.findSome? (fun s => s.symbols.get? (lower name)) = logs.findSome? (latest? name) := by
  induction h with
  | nil => rfl
  | cons hhead _ ih => rw [findSome?_cons, findSome?_cons, hhead name, ih]

/-- What any history leaves behind: the table of the two stacks, which have a map for each open scope, and at least
one; for every name the latest definition in the innermost open scope that has one, else the built-in function; and
nothing of a scope that was entered and left again, however the history goes on. -/
theorem lookup_history (steps : List Step) :
    let t := ({} : SymbolTable).run steps
    let kept := steps.foldl Stacks.after {}
    t.toStacks = kept ∧ kept.symbols.length = (logsOf steps).length ∧ kept.types.length = (logsOf steps).length ∧
    1 ≤ (logsOf steps).length ∧
    (∀ name, t.lookup name = ((logsOf steps).findSome? (latest? name)).or (builtins.get? (lower name))) ∧
    ∀ block later, Balanced block → t.run (.enter :: block ++ .exit :: later) = t.run later := by
  intro t kept
  have hstacks : t.toStacks = kept := toStacks_run {} steps
  have hrecords : Forall₂ Records (logsOf steps) t.scopes :=
    records_run (t := {}) (.cons (fun _ => rfl) .nil) steps
  have hlength := hrecords.length_eq
  refine ⟨hstacks, ?_, ?_, ?_, fun name => ?_, fun block later h => ?_⟩
  · rw [← hstacks, toStacks, length_map, hlength]
  · rw [← hstacks, toStacks, length_map, hlength]
  · rw [hlength, scopes_eq_cons]
    exact Nat.succ_le_succ (Nat.zero_le _)
  · rw [← findSome?_records hrecords, lookup, resolve]
    cases t.scopes.findSome? fun s => s.symbols.get? (lower name) with
    | some s => rfl
    | none => cases builtins.get? (lower name) <;> rfl
  · obtain ⟨s, hblock⟩ := run_balanced h t.enter
    exact run_block hblock later

/-- A definition inside a block hides the one outside it, and is gone with the block. -/
theorem lookup_history_block :
    let outer : Symbol := { name := "n", type := .integer }
    let block : List Step := [.define { name := "N", type := .real }]
    Balanced block ∧ (({} : SymbolTable).run (.define outer :: .enter :: block ++ [.exit])).lookup "N" = some outer := by
  intro outer block
  have hblock : Balanced block := .define _ .nil
  have hrun := (lookup_history [.define outer]).2.2.2.2.2 block [] hblock
  exact ⟨hblock, (congrArg (lookup · "N") hrun).trans (by cbv)⟩

end AlgoLang.SymbolTable
