/-
# What a step of reading takes and gives

`Gives r v last rest` and `Yields r v last rest` say that a step gives `v` and leaves `rest`.  The first is
for steps that take at least one token, the second for steps that may take none.
-/
import AlgoLang.Reading
import Mathlib

namespace AlgoLang

open List Taken

variable {t last : Token} {kind : TokenKind} {rest toks' : List Token}

/-- No whole number among the tokens has more digits than can be read. -/
def Short (toks : List Token) : Prop :=
  ∀ t ∈ toks, t.kind = .integer → t.value.length ≤ maxDigits

lemma Short.head {toks : List Token} (h : Short (t :: toks)) : t.kind = .integer → t.value.length ≤ maxDigits :=
  h t mem_cons_self

lemma Short.tail {toks : List Token} (h : Short (t :: toks)) : Short toks :=
  fun u hu => h u (mem_cons_of_mem t hu)

variable {ts : List Token}

lemma Short.right (h : Short (ts ++ rest)) : Short rest :=
  fun u hu => h u (mem_append_right ts hu)

lemma Short.left (h : Short (ts ++ rest)) : Short ts :=
  fun u hu => h u (mem_append_left rest hu)

-- joining steps leaves their values, their last tokens and what they leave alone
attribute [simp] since past behind held Held.since Held.past Held.behind

namespace Reading

variable {α β : Type} {toks : List Token}

/-- The step takes at least one token, gives the value and leaves `rest`. -/
def Gives (r : Reading α toks) (v : α) (last : Token) (rest : List Token) : Prop :=
  ∃ h, r = .ok ⟨v, last, rest, h⟩

/-- The same for a step that may take no token. -/
def Yields (r : Holding α toks) (v : α) (last : Token) (rest : List Token) : Prop :=
  ∃ h, r = .ok ⟨v, last, rest, h⟩

lemma Gives.of_eq {f : (toks : List Token) → Reading α toks} {v : α} (heq : toks = toks') (h : Gives (f toks') v last rest) :
    Gives (f toks) v last rest :=
  heq ▸ h

lemma Yields.of_eq {f : (toks : List Token) → Holding α toks} {v : α} (heq : toks = toks') (h : Yields (f toks') v last rest) :
    Yields (f toks) v last rest :=
  heq ▸ h

/-! ## Single tokens -/

lemma take?_cons (rest : List Token) (h : t.kind = kind) : take? kind (t :: rest) = some (one t t rest) := by
  simp [take?, h]

lemma take?_eq_none (h : ∀ t, toks.head? = some t → t.kind ≠ kind) : take? kind toks = none := by
  cases toks with
  | nil => rfl
  | cons t rest => simp [take?, h t rfl]

lemma take?_cons_ne (rest : List Token) (h : t.kind ≠ kind) : take? kind (t :: rest) = none := by
  simp [take?, h]

lemma eq_of_take?_eq_some {hlt : rest.length < toks.length} (h : take? kind toks = some ⟨t, last, rest, hlt⟩) :
    toks = t :: rest ∧ t.kind = kind ∧ last = t := by
  cases toks with
  | nil => simp [take?] at h
  | cons u us =>
    simp only [take?] at h
    split at h
    · next hk =>
      obtain ⟨rfl, rfl, rfl⟩ := h
      exact ⟨rfl, eq_of_beq hk, rfl⟩
    · exact absurd h (by simp)

lemma ne_of_take?_eq_none (h : take? kind toks = none) (t : Token) (ht : toks.head? = some t) : t.kind ≠ kind := by
  cases toks with
  | nil => simp at ht
  | cons u us =>
    obtain rfl : u = t := by simpa using ht
    intro hk
    rw [take?_cons us hk] at h
    exact absurd h (by simp)

lemma expect_cons (wanted : Wanted) (rest : List Token)
    (h : t.kind = kind) : expect wanted kind (t :: rest) = .ok (one t t rest) := by
  simp [expect, take?_cons rest h]

lemma expectName_cons (wanted : Wanted) (rest : List Token) (h : t.kind = .identifier) :
    expectName wanted (t :: rest) = .ok (one t.value t rest) := by
  simp [expectName, expect_cons wanted rest h, Except.map, one]

variable {wanted : Wanted}

lemma expect_gives (h : t.kind = kind) : Gives (expect wanted kind (t :: rest)) t t rest :=
  ⟨_, expect_cons wanted rest h⟩

lemma expectName_gives (h : t.kind = .identifier) : Gives (expectName wanted (t :: rest)) t.value t rest :=
  ⟨_, expectName_cons wanted rest h⟩

/-! ## Steps after each other -/

section

variable {v : α} {w : β} {last' : Token} {rest' : List Token}

variable {f : Taken α toks → Reading β toks'} {x : Reading α toks}

lemma Gives.bind (h : Gives x v last rest)
    (hf : ∀ hlt, Gives (f ⟨v, last, rest, hlt⟩) w last' rest') : Gives (x >>= f) w last' rest' := by
  obtain ⟨hlt, rfl⟩ := h
  exact hf hlt

/-- The same where the last token does not matter. -/
lemma gives_bind {P : Token → Prop} (h : ∃ last, P last ∧ Gives x v last rest) (hf : ∀ last hlt, Gives (f ⟨v, last, rest, hlt⟩) w last' rest') :
    Gives (x >>= f) w last' rest' := by
  obtain ⟨last, -, h⟩ := h
  exact h.bind (hf last)

lemma Gives.bind_yields {f : Taken α toks → Holding β toks'} (h : Gives x v last rest)
    (hf : ∀ hlt, Yields (f ⟨v, last, rest, hlt⟩) w last' rest') : Yields (x >>= f) w last' rest' := by
  obtain ⟨hlt, rfl⟩ := h
  exact hf hlt

lemma Yields.bind {x : Holding α toks} {f : Held α toks → Holding β toks'} (h : Yields x v last rest)
    (hf : ∀ hle, Yields (f ⟨v, last, rest, hle⟩) w last' rest') : Yields (x >>= f) w last' rest' := by
  obtain ⟨hle, rfl⟩ := h
  exact hf hle

lemma Yields.bind_gives {x : Holding α toks} {f : Held α toks → Reading β toks'} (h : Yields x v last rest)
    (hf : ∀ hle, Gives (f ⟨v, last, rest, hle⟩) w last' rest') : Gives (x >>= f) w last' rest' := by
  obtain ⟨hle, rfl⟩ := h
  exact hf hle

end

end Reading

end AlgoLang
