/-
# Results of steps that may fail

What a step that may fail is good for is said of its result, if there is one, and goes through sequences of
such steps.
-/
import Mathlib

namespace AlgoLang

/-- If the step does not fail, its result has the property. -/
def Ensures {ε α : Type} (x : Except ε α) (Q : α → Prop) : Prop :=
  ∀ a, x = .ok a → Q a

namespace Ensures

variable {ε α β : Type} {Q : β → Prop}

lemma ok {b : β} (h : Q b) : Ensures (.ok b : Except ε β) Q := by
  rintro _ ⟨⟩
  exact h

lemma bind {x : Except ε α} {f : α → Except ε β} {P : α → Prop} (hx : Ensures x P)
    (hf : ∀ a, P a → Ensures (f a) Q) : Ensures (x >>= f) Q := by
  intro b hb
  cases x with
  | error e => cases hb
  | ok a => exact hf a (hx a rfl) b hb

lemma bind' {x : Except ε α} {f : α → Except ε β} (hf : ∀ a, Ensures (f a) Q) : Ensures (x >>= f) Q :=
  bind (fun _ _ => trivial) fun a _ => hf a

lemma map {x : Except ε α} {f : α → β} (hx : Ensures x fun a => Q (f a)) : Ensures (x.map f) Q := by
  intro b hb
  cases x with
  | error e => cases hb
  | ok a =>
    cases hb
    exact hx a rfl

end Ensures

section

variable {ε δ α : Type} {P : α → Prop}

lemma exists_ok {x : Except ε α} (h : ∃ a ∈ x.toOption, P a) : ∃ a, x = .ok a ∧ P a := by
  cases x with
  | error e => simp [Except.toOption] at h
  | ok a => simpa [Except.toOption] using h

lemma exists_ok_ok {x : Except ε (Except δ α)} (h : ∃ a ∈ x.toOption.bind Except.toOption, P a) :
    ∃ a, x = .ok (.ok a) ∧ P a := by
  rcases x with e | e | a
  · simp [Except.toOption] at h
  · simp [Except.toOption] at h
  · simpa [Except.toOption] using h

end

end AlgoLang
