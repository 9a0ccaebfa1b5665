/-
# The shortest decimal reads back

The decimal that `shortest` finds lies in the interval of its number.  The search ends in time: the interval is
wider than the distance of two decimals of seventeen digits.
-/
import AlgoLang.Number.Shortest
import AlgoLang.Proofs.Number.Rounding

namespace AlgoLang.Binary64

open Interval

variable {m n down up : Nat} {e p : Int}

def Decimal.value (d : Decimal) : ℚ :=
  d.digits * 10 ^ d.exponent

/-! ## Points of a grid -/

lemma intervalOf_unit (m : Nat) (e : Int) : ((intervalOf m e).num / (intervalOf m e).den : ℚ) = 2 ^ e / 4 := by
  have hpow : ((powRatio 2 (e - 2)).1 / (powRatio 2 (e - 2)).2 : ℚ) = 2 ^ (e - 2) := powRatio_div 2 (e - 2)
  refine hpow.trans ?_
  rw [zpow_sub₀ (two_ne_zero : (2 : ℚ) ≠ 0)]
  norm_num

lemma intervalOf_low (hm : 0 < m) (e : Int) :
    lowEnd m e = (intervalOf m e).low * ((intervalOf m e).num / (intervalOf m e).den : ℚ) := by
  rw [intervalOf_unit]
  simp only [intervalOf, Nat.pow_eq, lowEnd, Bool.and_eq_true, beq_iff_eq, decide_eq_true_eq]
  split
  · rw [Nat.cast_sub (by omega)]
    push_cast
    ring
  · rw [Nat.cast_sub (by omega)]
    push_cast
    ring

lemma intervalOf_high (m : Nat) (e : Int) :
    highEnd m e = (intervalOf m e).high * ((intervalOf m e).num / (intervalOf m e).den : ℚ) := by
  rw [intervalOf_unit]
  simp only [intervalOf, highEnd]
  push_cast
  ring

lemma intervalOf_value (m : Nat) (e : Int) :
    m * 2 ^ e = ((intervalOf m e).value * ((intervalOf m e).num / (intervalOf m e).den) : ℚ) := by
  rw [intervalOf_unit]
  simp only [intervalOf]
  push_cast
  ring

/-- The test of a point of a grid asks whether the point lies in the interval. -/
lemma holds_iff (hm : 0 < m) (hdown : 0 < down) : (intervalOf m e).holds n up down ↔
      if m % 2 = 0 then lowEnd m e ≤ n * (up / down : ℚ) ∧ n * (up / down : ℚ) ≤ highEnd m e
      else lowEnd m e < n * (up / down : ℚ) ∧ n * (up / down : ℚ) < highEnd m e := by
  have hd : (0 : ℚ) < down := by exact_mod_cast hdown
  have hden : (0 : ℚ) < (intervalOf m e).den := by exact_mod_cast (powRatio_pos Nat.two_pos (e - 2)).2
  rw [intervalOf_low hm, intervalOf_high, mul_div_assoc', mul_div_assoc', mul_div_assoc',
    div_le_div_iff₀ hden hd, div_le_div_iff₀ hd hden, div_lt_div_iff₀ hden hd,
    div_lt_div_iff₀ hd hden]
  norm_cast
  unfold holds
  have hclosed : (intervalOf m e).closed = (m % 2 == 0) := rfl
  rw [hclosed]
  by_cases heven : m % 2 = 0
  · simp [heven]
  · simp [heven]

lemma Canonical.owns_of_holds (h : Canonical m e) (hm : 0 < m) (hdown : 0 < down) (hn : (intervalOf m e).holds n up down) :
    Owns m e (n * (up / down)) := by
  rw [holds_iff hm hdown] at hn
  split at hn
  · exact ⟨h, hn.1, hn.2, by omega, by omega⟩
  · exact ⟨h, hn.1.le, hn.2.le, fun _ => hn.1, fun _ => hn.2⟩

lemma lowEnd_lt_value (m : Nat) (e : Int) : lowEnd m e < m * 2 ^ e := by
  unfold lowEnd
  split
  · exact scale_lt (by linarith) e
  · exact scale_lt (by linarith) e

lemma value_lt_highEnd (m : Nat) (e : Int) : m * 2 ^ e < highEnd m e :=
  scale_lt (by linarith) e

/-- The multiples of `10 ^ p` next to a number, from below and from above. -/
lemma grid_neighbours (m : Nat) (e p : Int) :
    let below := (intervalOf m e).value * (intervalOf m e).num * (powRatio 10 p).2 /
      ((intervalOf m e).den * (powRatio 10 p).1)
    below * (10 : ℚ) ^ p ≤ m * 2 ^ e ∧ m * 2 ^ e < (below + 1 : Nat) * (10 : ℚ) ^ p := by
  intro below
  obtain ⟨hup, hdown⟩ := powRatio_pos (b := 10) (by norm_num) p
  have hden : 0 < (intervalOf m e).den := (powRatio_pos Nat.two_pos (e - 2)).2
  have hpow : ((powRatio 10 p).1 / (powRatio 10 p).2 : ℚ) = 10 ^ p := powRatio_div 10 p
  have hden' : (0 : ℚ) < (intervalOf m e).den := by exact_mod_cast hden
  have hdown' : (0 : ℚ) < (powRatio 10 p).2 := by exact_mod_cast hdown
  rw [intervalOf_value, ← hpow, mul_div_assoc', mul_div_assoc', mul_div_assoc',
    div_le_div_iff₀ hdown' hden', div_lt_div_iff₀ hden' hdown']
  norm_cast
  have hle := Nat.div_mul_le_self ((intervalOf m e).value * (intervalOf m e).num * (powRatio 10 p).2)
    ((intervalOf m e).den * (powRatio 10 p).1)
  have hlt := Nat.lt_div_mul_add (a := (intervalOf m e).value * (intervalOf m e).num * (powRatio 10 p).2)
    (Nat.mul_pos hden hup)
  constructor
  · calc below * (powRatio 10 p).1 * (intervalOf m e).den
        = below * ((intervalOf m e).den * (powRatio 10 p).1) := by ring
      _ ≤ _ := hle
  · calc _ < below * ((intervalOf m e).den * (powRatio 10 p).1) + (intervalOf m e).den * (powRatio 10 p).1 := hlt
      _ = (below + 1) * (powRatio 10 p).1 * (intervalOf m e).den := by ring

lemma roundDiv_eq_or (num den : Nat) : roundDiv num den = num / den ∨ roundDiv num den = num / den + 1 := by
  unfold roundDiv
  dsimp only
  split_ifs <;> simp

lemma Canonical.owns_onGrid (h : Canonical m e) (hm : 0 < m)
    (hn : (intervalOf m e).onGrid? p = some n) : Owns m e (n * 10 ^ p) := by
  have hdown := (powRatio_pos (b := 10) (by norm_num) p).2
  have hpow : ((powRatio 10 p).1 / (powRatio 10 p).2 : ℚ) = 10 ^ p := powRatio_div 10 p
  rw [← hpow]
  refine h.owns_of_holds hm hdown ?_
  simp only [onGrid?] at hn
  split at hn
  · obtain rfl := Option.some.inj hn
    rcases roundDiv_eq_or ((intervalOf m e).value * (intervalOf m e).num * (powRatio 10 p).2)
      ((intervalOf m e).den * (powRatio 10 p).1) with hr | hr
    · rwa [hr]
    · rwa [hr]
  · rename_i hbelow _
    obtain rfl := Option.some.inj hn
    exact hbelow
  · rename_i _ habove
    obtain rfl := Option.some.inj hn
    exact habove
  · cases hn

/-- A grid without a point in the interval is at least as coarse as the interval is wide. -/
lemma width_le_of_onGrid (hm : 0 < m)
    (hn : (intervalOf m e).onGrid? p = none) : highEnd m e - lowEnd m e ≤ 10 ^ p := by
  have hdown := (powRatio_pos (b := 10) (by norm_num) p).2
  have hpow : ((powRatio 10 p).1 / (powRatio 10 p).2 : ℚ) = 10 ^ p := powRatio_div 10 p
  obtain ⟨hbelow, habove⟩ := grid_neighbours m e p
  have hlow := lowEnd_lt_value m e
  have hhigh := value_lt_highEnd m e
  simp only [onGrid?] at hn
  split at hn
  · cases hn
  · cases hn
  · cases hn
  · rename_i hnot hnot'
    rw [← Bool.not_eq_true, holds_iff hm hdown, hpow] at hnot hnot'
    generalize (intervalOf m e).value * (intervalOf m e).num * (powRatio 10 p).2 /
      ((intervalOf m e).den * (powRatio 10 p).1) = below at hnot hnot' hbelow habove
    -- the neighbour below misses the lower end, and the one above the upper end
    have hmiss : below * (10 : ℚ) ^ p ≤ lowEnd m e := by
      by_contra hlt
      rw [not_le] at hlt
      refine hnot ?_
      split
      · exact ⟨hlt.le, by linarith⟩
      · exact ⟨hlt, by linarith⟩
    have hmiss' : highEnd m e ≤ (below + 1 : Nat) * (10 : ℚ) ^ p := by
      by_contra hlt
      rw [not_le] at hlt
      refine hnot' ?_
      split
      · exact ⟨by linarith, hlt.le⟩
      · exact ⟨by linarith, hlt⟩
    push_cast at hmiss'
    linarith

/-- Seventeen digits suffice: their grid is finer than the interval. -/
lemma Canonical.lt_width (h : Canonical m e) : m * 2 ^ e / 10 ^ 16 < highEnd m e - lowEnd m e := by
  have hlt : (m : ℚ) < 2 ^ 53 := by exact_mod_cast h.lt
  unfold highEnd lowEnd
  split
  · rename_i hpower
    rw [hpower.1, ← sub_mul, mul_div_right_comm]
    exact scale_lt (by norm_num) e
  · rw [← sub_mul, mul_div_right_comm]
    refine scale_lt ?_ e
    linarith

/-! ## The search -/

lemma length_toString (n : Nat) : (toString n).length = (Nat.toDigits 10 n).length := by
  exact congrArg List.length Nat.toList_repr

lemma ten_pow_length_le (hn : 0 < n) : 10 ^ ((toString n).length - 1) ≤ n := by
  rw [length_toString]
  by_contra hlt
  rcases Nat.eq_zero_or_pos ((Nat.toDigits 10 n).length - 1) with hzero | hpos
  · rw [hzero] at hlt
    omega
  · have := (Nat.length_toDigits_le_iff (b := 10) (by norm_num) hpos).mpr (not_le.mp hlt)
    omega

lemma lt_ten_pow_length (n : Nat) : n < 10 ^ (toString n).length := by
  rw [length_toString]
  exact (Nat.length_toDigits_le_iff (by norm_num) (List.length_pos_iff.mpr Nat.toDigits_ne_nil)).mp le_rfl

lemma ten_pow_decimalOrder_le {num den : Nat} (hnum : 0 < num) (hden : 0 < den) :
    (10 : ℚ) ^ decimalOrder num den ≤ num / den := by
  have hd : (0 : ℚ) < den := by exact_mod_cast hden
  have hlength (n : Nat) : 0 < (toString n).length := by
    rw [length_toString]
    exact List.length_pos_iff.mpr Nat.toDigits_ne_nil
  -- an order that is not positive is read off the reciprocal
  have hsmall {l : Nat} (h : den ≤ num * 10 ^ l) : (10 : ℚ) ^ (-(l : Int)) ≤ num / den := by
    rw [zpow_neg, zpow_natCast, le_div_iff₀ hd, inv_mul_le_iff₀ (by positivity), mul_comm]
    exact_mod_cast h
  unfold decimalOrder
  split
  · rename_i hle
    rw [show ((toString (num / den)).length : Int) - 1 = ((toString (num / den)).length - 1 : Nat) by
      have := hlength (num / den); omega, zpow_natCast, le_div_iff₀ hd]
    have := ten_pow_length_le (Nat.div_pos hle hden)
    exact_mod_cast (Nat.mul_le_mul_right den this).trans (Nat.div_mul_le_self num den)
  · simp only [Nat.pow_eq]
    split
    · rename_i hle
      rw [show ((toString (den / num)).length : Int) - 1 = ((toString (den / num)).length - 1 : Nat) by
        have := hlength (den / num); omega]
      exact hsmall hle
    · refine hsmall ?_
      have := (Nat.div_lt_iff_lt_mul hnum).mp (lt_ten_pow_length (den / num))
      rw [Nat.mul_comm]
      exact this.le

@[simp]
lemma value_dropZeros (fuel : Nat) (d : Decimal) : (dropZeros fuel d).value = d.value := by
  induction fuel generalizing d with
  | zero => rfl
  | succ fuel ih =>
    unfold dropZeros
    split
    · rename_i hten
      rw [ih]
      simp only [Bool.and_eq_true, bne_iff_ne, beq_iff_eq] at hten
      obtain ⟨n, hn⟩ := Nat.dvd_of_mod_eq_zero hten.2
      simp only [Decimal.value, hn, Nat.mul_div_cancel_left n (by norm_num : 0 < 10)]
      rw [zpow_add_one₀ (by norm_num)]
      push_cast
      ring
    · rfl

lemma Canonical.owns_firstGrid {order : Int} (h : Canonical m e) (hm : 0 < m) (fuel n : Nat)
    (hlast : (intervalOf m e).onGrid? (order + 1 - (n + fuel : Nat)) ≠ none) :
    Owns m e ((intervalOf m e).firstGrid order (fuel + 1) n).value := by
  induction fuel generalizing n with
  | zero =>
    simp only [firstGrid]
    split
    · rw [value_dropZeros]
      exact h.owns_onGrid hm ‹_›
    · exact absurd ‹_› hlast
  | succ fuel ih =>
    rw [firstGrid]
    split
    · rw [value_dropZeros]
      exact h.owns_onGrid hm ‹_›
    · refine ih (n + 1) ?_
      rwa [show n + 1 + fuel = n + (fuel + 1) by omega]

/-- The shortest decimal of a number lies in its interval. -/
lemma Canonical.owns_shortest (h : Canonical m e) (hm : 0 < m) : Owns m e (shortest m e).value := by
  obtain ⟨hup, hdown⟩ := powRatio_pos Nat.two_pos e
  have hpow : ((powRatio 2 e).1 / (powRatio 2 e).2 : ℚ) = 2 ^ e := powRatio_div 2 e
  have horder := ten_pow_decimalOrder_le (Nat.mul_pos hm hup) hdown
  push_cast at horder
  rw [mul_div_assoc, hpow] at horder
  unfold shortest
  dsimp only
  generalize decimalOrder (m * (powRatio 2 e).1) (powRatio 2 e).2 = order at horder ⊢
  refine h.owns_firstGrid hm 16 1 fun hnone => ?_
  have hgrid : (10 : ℚ) ^ (order + 1 - (1 + 16 : Nat)) = 10 ^ order / 10 ^ 16 := by
    rw [show order + 1 - (1 + 16 : Nat) = order - (16 : Nat) by omega, zpow_sub₀ (by norm_num), zpow_natCast]
  have hwidth := width_le_of_onGrid hm hnone
  rw [hgrid] at hwidth
  linarith [h.lt_width]

end AlgoLang.Binary64
