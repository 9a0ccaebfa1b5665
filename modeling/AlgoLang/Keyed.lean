/-
# Values under names, in the order in which the names first came

Putting a value under a name that is already there replaces the value and leaves its position alone.
-/

namespace AlgoLang

/-- Values under names; no name occurs twice if all were `put`. -/
abbrev Keyed (α : Type) := List (String × α)

namespace Keyed

variable {α : Type}

def get? (entries : Keyed α) (key : String) : Option α :=
  entries.lookup key

/-- The value goes under the name: in place if the name is there, at the end otherwise. -/
def put (entries : Keyed α) (key : String) (value : α) : Keyed α :=
  match entries with
  | [] => [(key, value)]
  | (k, v) :: rest => if key == k then (k, value) :: rest else (k, v) :: put rest key value

def ofList (entries : List (String × α)) : Keyed α :=
  entries.foldl (fun acc e => put acc e.1 e.2) []

theorem mem_of_mem_put {entries : Keyed α} {key : String} {value : α} {e : String × α}
    (h : e ∈ entries.put key value) : e ∈ entries ∨ e = (key, value) := by
  induction entries with
  | nil => exact .inr (List.mem_singleton.mp h)
  | cons first rest ih =>
    obtain ⟨k, v⟩ := first
    unfold put at h
    split at h
    · next hk =>
      rcases List.mem_cons.mp h with rfl | h
      · exact .inr (by rw [beq_iff_eq.mp hk])
      · exact .inl (List.mem_cons_of_mem _ h)
    · rcases List.mem_cons.mp h with rfl | h
      · exact .inl List.mem_cons_self
      · exact (ih h).imp_left (List.mem_cons_of_mem _)

theorem get?_put_self (entries : Keyed α) (key : String) (value : α) :
    get? (put entries key value) key = some value := by
  unfold get?
  induction entries with
  | nil => simp [put]
  | cons e rest ih =>
    unfold put
    split
    · next h => simp [beq_iff_eq.mp h]
    · next h => rw [List.lookup_cons]; simpa [h] using ih

theorem get?_put_of_ne (entries : Keyed α) {key other : String} (value : α) (h : other ≠ key) :
    get? (put entries key value) other = get? entries other := by
  unfold get?
  induction entries with
  | nil => simp [put, List.lookup_cons, beq_eq_false_iff_ne.mpr h]
  | cons e rest ih =>
    obtain ⟨k, v⟩ := e
    unfold put
    split
    · next hk =>
      have hk' : key = k := beq_iff_eq.mp hk
      have : (other == k) = false := beq_eq_false_iff_ne.mpr (hk' ▸ h)
      simp [List.lookup_cons, this]
    · simp [List.lookup_cons, ih]

end Keyed

end AlgoLang
