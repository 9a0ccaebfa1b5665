/-
# The floating point number nearest to a quotient

Every floating point number owns the interval of the numbers that lie nearest to it, with its ends if the
significand is even.  Two intervals have no number in common, and what `ofRatio` and `ofDecimal` answer owns
the number they were given.
-/
import AlgoLang.Number.Binary64
import Mathlib

namespace AlgoLang.Binary64

open Nat (log2 pow)

variable {e e' : Int} {q a b : ℚ} {m den num m' : Nat}

/-! ## The interval of a number -/

/-- The one form of a number: all 53 bits of the significand are in use, or the exponent is the
least one. -/
structure Canonical (m : Nat) (e : Int) : Prop where
  lt : m < 2 ^ 53
  least : minExponent ≤ e
  full : minExponent < e → 2 ^ 52 ≤ m

/-- The lower end of the interval of `m * 2 ^ e`.  Below a power of two the next number is half as
far away. -/
def lowEnd (m : Nat) (e : Int) : ℚ :=
  if m = 2 ^ 52 ∧ minExponent < e then (m - 1 / 4) * 2 ^ e else (m - 1 / 2) * 2 ^ e

def highEnd (m : Nat) (e : Int) : ℚ :=
  (m + 1 / 2) * 2 ^ e

/-- `q` lies in the interval of `m * 2 ^ e`. -/
structure Owns (m : Nat) (e : Int) (q : ℚ) : Prop extends Canonical m e where
  low : lowEnd m e ≤ q
  high : q ≤ highEnd m e
  low_odd : m % 2 = 1 → lowEnd m e < q
  high_odd : m % 2 = 1 → q < highEnd m e

/-- The floating point number nearest to `q`, which is not below zero.  Infinity stands where the
first number beyond the greatest finite one would stand. -/
inductive RoundsTo (q : ℚ) : Binary64 → Prop
  | finite {m : Nat} {e : Int} : Owns m e q → e ≤ maxExponent → RoundsTo q (.finite false m e)
  | infinite : lowEnd (2 ^ 52) (maxExponent + 1) ≤ q → RoundsTo q (.infinite false)

lemma scale_le (h : a ≤ b) (e : Int) : a * 2 ^ e ≤ b * 2 ^ e :=
  mul_le_mul_of_nonneg_right h (zpow_nonneg zero_le_two e)

lemma scale_lt (h : a < b) (e : Int) : a * 2 ^ e < b * 2 ^ e :=
  mul_lt_mul_of_pos_right h (zpow_pos two_pos e)

lemma half_le_lowEnd (m : Nat) (e : Int) : (m - 1 / 2) * 2 ^ e ≤ lowEnd m e := by
  unfold lowEnd
  split
  · exact scale_le (by linarith) e
  · exact le_rfl

/-- The interval of a number begins beyond all numbers with a smaller exponent. -/
lemma Canonical.le_lowEnd (h : Canonical m e') (hmin : minExponent ≤ e)
    (hlt : e < e') : (2 ^ 53 - 1 / 2) * 2 ^ e ≤ lowEnd m e' := by
  have hpow : (2 : ℚ) ^ e * 2 ≤ 2 ^ e' := by
    rw [← zpow_add_one₀ two_ne_zero]
    exact zpow_le_zpow_right₀ one_le_two hlt
  have hquarter : (2 ^ 52 - 1 / 4 : ℚ) * 2 ^ e' ≤ lowEnd m e' := by
    by_cases hm : m = 2 ^ 52
    · rw [lowEnd, if_pos ⟨hm, lt_of_le_of_lt hmin hlt⟩, hm]
      norm_num
    · have : (2 ^ 52 + 1 : ℚ) ≤ m := by
        exact_mod_cast Nat.lt_of_le_of_ne (h.full (lt_of_le_of_lt hmin hlt)) (Ne.symm hm)
      exact (scale_le (by linarith) e').trans (half_le_lowEnd m e')
  calc (2 ^ 53 - 1 / 2 : ℚ) * 2 ^ e = (2 ^ 52 - 1 / 4) * (2 ^ e * 2) := by ring
    _ ≤ (2 ^ 52 - 1 / 4) * 2 ^ e' := mul_le_mul_of_nonneg_left hpow (by norm_num)
    _ ≤ lowEnd m e' := hquarter

/-- The interval of a number ends where that of a greater one begins or before; where the two touch,
one of the significands is odd and leaves the end to the other. -/
lemma Owns.not_beyond (h : Owns m e q) (h' : Canonical m' e')
    (hlt : e < e' ∨ e = e' ∧ m < m') (hlow : lowEnd m' e' ≤ q) (hodd : m' % 2 = 1 → lowEnd m' e' < q) : False := by
  have hhigh : q ≤ (m + 1 / 2) * 2 ^ e := h.high
  have hhigh_odd : m % 2 = 1 → q < (m + 1 / 2) * 2 ^ e := h.high_odd
  rcases hlt with hlt | ⟨rfl, hlt⟩
  · have hgap := h'.le_lowEnd h.least hlt
    rcases Nat.mod_two_eq_zero_or_one m with heven | hone
    · have hm : (m : ℚ) + 2 ≤ 2 ^ 53 := by
        have := h.lt
        exact_mod_cast (by omega : m + 2 ≤ 2 ^ 53)
      have := scale_lt (a := m + 1 / 2) (b := 2 ^ 53 - 1 / 2) (by linarith) e
      linarith
    · have hm : (m : ℚ) + 1 ≤ 2 ^ 53 := by exact_mod_cast h.lt
      have := scale_le (a := m + 1 / 2) (b := 2 ^ 53 - 1 / 2) (by linarith) e
      linarith [hhigh_odd hone]
  · have hgap := half_le_lowEnd m' e
    have hm : (m : ℚ) + 1 ≤ m' := by exact_mod_cast hlt
    have hle := scale_le (a := m + 1 / 2) (b := m' - 1 / 2) (by linarith) e
    rcases Nat.mod_two_eq_zero_or_one m with heven | hone
    · rcases Nat.mod_two_eq_zero_or_one m' with heven' | hone'
      · have hm : (m : ℚ) + 2 ≤ m' := by exact_mod_cast (by omega : m + 2 ≤ m')
        have := scale_lt (a := m + 1 / 2) (b := m' - 1 / 2) (by linarith) e
        linarith
      · linarith [hodd hone']
    · linarith [hhigh_odd hone]

lemma Owns.unique (h : Owns m e q) (h' : Owns m' e' q) : m = m' ∧ e = e' := by
  rcases lt_trichotomy e e' with hlt | rfl | hlt
  · exact (h.not_beyond h'.toCanonical (.inl hlt) h'.low h'.low_odd).elim
  · rcases lt_trichotomy m m' with hlt | rfl | hlt
    · exact (h.not_beyond h'.toCanonical (.inr ⟨rfl, hlt⟩) h'.low h'.low_odd).elim
    · exact ⟨rfl, rfl⟩
    · exact (h'.not_beyond h.toCanonical (.inr ⟨rfl, hlt⟩) h.low h.low_odd).elim
  · exact (h'.not_beyond h.toCanonical (.inl hlt) h.low h.low_odd).elim

lemma Owns.not_infinite (h : Owns m e q) (he : e ≤ maxExponent)
    (hq : lowEnd (2 ^ 52) (maxExponent + 1) ≤ q) : False :=
  h.not_beyond ⟨by norm_num, by decide, fun _ => le_rfl⟩ (.inl (by omega)) hq (by norm_num)

lemma RoundsTo.unique {x y : Binary64} (hx : RoundsTo q x) (hy : RoundsTo q y) : x = y := by
  cases hx with
  | finite h he =>
    cases hy with
    | finite h' he' =>
      obtain ⟨rfl, rfl⟩ := h.unique h'
      rfl
    | infinite hq => exact (h.not_infinite he hq).elim
  | infinite hq =>
    cases hy with
    | finite h he => exact (h.not_infinite he hq).elim
    | infinite => rfl

/-! ## Powers and quotients -/

lemma powRatio_pos {b : Nat} (hb : 0 < b) (e : Int) : 0 < (powRatio b e).1 ∧ 0 < (powRatio b e).2 := by
  unfold powRatio
  split
  · exact ⟨Nat.pow_pos hb, Nat.one_pos⟩
  · exact ⟨Nat.one_pos, Nat.pow_pos hb⟩

lemma powRatio_div (b : Nat) (e : Int) : ((powRatio b e).1 / (powRatio b e).2 : ℚ) = (b : ℚ) ^ e := by
  unfold powRatio
  split
  · obtain ⟨n, rfl⟩ := Int.eq_ofNat_of_zero_le ‹0 ≤ e›
    simp
  · obtain ⟨n, hn⟩ := Int.eq_ofNat_of_zero_le (show 0 ≤ -e by omega)
    obtain rfl : e = -(n : Int) := by omega
    simp

/-- The whole number nearest to `q` is `r`; of two as near, the even one. -/
structure IsNearest (q : ℚ) (r : Nat) : Prop where
  low : (r : ℚ) - 1 / 2 ≤ q
  high : q ≤ r + 1 / 2
  low_odd : r % 2 = 1 → (r : ℚ) - 1 / 2 < q
  high_odd : r % 2 = 1 → q < r + 1 / 2

lemma roundDiv_isNearest (num : Nat) (hden : 0 < den) : IsNearest (num / den) (roundDiv num den) := by
  have hd : (0 : ℚ) < den := by exact_mod_cast hden
  have hmod := Nat.mod_lt num hden
  have hdiv := Nat.div_add_mod num den
  have hsucc : den * (num / den + 1) = den * (num / den) + den := Nat.mul_succ ..
  -- the same on whole numbers, with the quotient multiplied by twice the denominator
  have hwhole : 2 * (den * roundDiv num den) ≤ 2 * num + den ∧ 2 * num ≤ 2 * (den * roundDiv num den) + den ∧
      (roundDiv num den % 2 = 1 → 2 * (den * roundDiv num den) < 2 * num + den) ∧
      (roundDiv num den % 2 = 1 → 2 * num < 2 * (den * roundDiv num den) + den) := by
    unfold roundDiv
    simp only [beq_iff_eq]
    split_ifs <;> omega
  obtain ⟨hlow, hhigh, hlow_odd, hhigh_odd⟩ := hwhole
  refine ⟨?_, ?_, fun hone => ?_, fun hone => ?_⟩
  · have : (2 * (den * roundDiv num den) : ℚ) ≤ 2 * num + den := by exact_mod_cast hlow
    rw [le_div_iff₀ hd]
    linarith
  · have : (2 * num : ℚ) ≤ 2 * (den * roundDiv num den) + den := by exact_mod_cast hhigh
    rw [div_le_iff₀ hd]
    linarith
  · have : (2 * (den * roundDiv num den) : ℚ) < 2 * num + den := by exact_mod_cast hlow_odd hone
    rw [lt_div_iff₀ hd]
    linarith
  · have : (2 * num : ℚ) < 2 * (den * roundDiv num den) + den := by exact_mod_cast hhigh_odd hone
    rw [div_lt_iff₀ hd]
    linarith

/-- At the exponent of a quotient the quotient has at most 53 bits before the point, and exactly as
many unless the exponent is the least one. -/
structure IsExponent (q : ℚ) (e : Int) : Prop where
  least : minExponent ≤ e
  lt : q < 2 ^ 53 * 2 ^ e
  full : minExponent < e → 2 ^ 52 * 2 ^ e ≤ q

lemma isExponent_max (hlow : 2 ^ 52 * 2 ^ e ≤ q) (hhigh : q < 2 ^ 53 * 2 ^ e) : IsExponent q (max e minExponent) := by
  refine ⟨le_max_right .., hhigh.trans_le ?_, fun hmin => ?_⟩
  · exact mul_le_mul_of_nonneg_left (zpow_le_zpow_right₀ one_le_two (le_max_left ..)) (by norm_num)
  · rwa [max_eq_left (by omega)]

lemma exponentOf_isExponent (hnum : 0 < num) (hden : 0 < den) : IsExponent (num / den) (exponentOf num den) := by
  have hd : (0 : ℚ) < den := by exact_mod_cast hden
  set g : Int := (log2 num : Int) - (log2 den : Int) - 52 with hg
  have hdown : (0 : ℚ) < (powRatio 2 g).2 := by exact_mod_cast (powRatio_pos Nat.two_pos g).2
  have hlog : (2 : ℚ) ^ log2 num = 2 ^ 52 * 2 ^ g * 2 ^ log2 den := by
    rw [← zpow_natCast, ← zpow_natCast, ← zpow_natCast, ← zpow_add₀ two_ne_zero, ← zpow_add₀ two_ne_zero]
    congr 1
    omega
  -- the two logarithms leave the quotient between the halves and the doubles of a power of two
  have hupper : (num / den : ℚ) < 2 ^ 53 * 2 ^ g := by
    have h₁ : (num : ℚ) < 2 ^ (log2 num + 1) := by exact_mod_cast Nat.lt_log2_self
    have h₂ : (2 : ℚ) ^ log2 den ≤ den := by exact_mod_cast Nat.log2_self_le hden.ne'
    rw [div_lt_iff₀ hd]
    calc (num : ℚ) < 2 ^ (log2 num + 1) := h₁
      _ = 2 ^ 53 * 2 ^ g * 2 ^ log2 den := by rw [pow_succ, hlog]; ring
      _ ≤ 2 ^ 53 * 2 ^ g * den := mul_le_mul_of_nonneg_left h₂ (by positivity)
  have hlower : 2 ^ 52 * 2 ^ (g - 1) ≤ (num / den : ℚ) := by
    have h₁ : (2 : ℚ) ^ log2 num ≤ num := by exact_mod_cast Nat.log2_self_le hnum.ne'
    have h₂ : (den : ℚ) ≤ 2 ^ (log2 den + 1) := by exact_mod_cast Nat.lt_log2_self.le
    rw [le_div_iff₀ hd]
    calc (2 : ℚ) ^ 52 * 2 ^ (g - 1) * den ≤ 2 ^ 52 * 2 ^ (g - 1) * 2 ^ (log2 den + 1) :=
        mul_le_mul_of_nonneg_left h₂ (by positivity)
      _ = 2 ^ log2 num := by rw [hlog, pow_succ, zpow_sub_one₀ two_ne_zero]; ring
      _ ≤ num := h₁
  have htest : num * (powRatio 2 g).2 < den * (powRatio 2 g).1 * pow 2 52 ↔ (num / den : ℚ) < 2 ^ 52 * 2 ^ g := by
    have hpow : ((powRatio 2 g).1 / (powRatio 2 g).2 : ℚ) = 2 ^ g := powRatio_div 2 g
    rw [← hpow, mul_div_assoc', div_lt_div_iff₀ hd hdown, mul_assoc, mul_comm ((2 : ℚ) ^ 52), mul_comm _ (den : ℚ)]
    norm_cast
  unfold exponentOf
  by_cases hside : num * (powRatio 2 g).2 < den * (powRatio 2 g).1 * pow 2 52
  · simp only [← hg, if_pos hside]
    refine isExponent_max hlower ?_
    rw [zpow_sub_one₀ two_ne_zero]
    linarith [htest.mp hside]
  · simp only [← hg, if_neg hside]
    exact isExponent_max (not_lt.mp (htest.not.mp hside)) hupper

/-! ## The nearest number -/

/-- A quotient belongs to the whole number nearest to it at its exponent; a significand that has
grown to 54 bits is halved. -/
lemma IsExponent.owns {y : ℚ} (h : IsExponent q e) (hy : q = y * 2 ^ e) (hm : IsNearest y m) :
    m < 2 ^ 53 ∧ Owns m e q ∨ m = 2 ^ 53 ∧ Owns (2 ^ 52) (e + 1) q := by
  have hpos : (0 : ℚ) < 2 ^ e := zpow_pos two_pos e
  have hlt : y < 2 ^ 53 := lt_of_mul_lt_mul_right (hy ▸ h.lt) hpos.le
  have hle : m ≤ 2 ^ 53 := by
    have : (m : ℚ) < 2 ^ 53 + 1 := by linarith [hm.low]
    exact_mod_cast Nat.lt_succ_iff.mp (by exact_mod_cast this)
  rcases Nat.lt_or_eq_of_le hle with hless | rfl
  · refine .inl ⟨hless, ⟨hless, h.least, fun hmin => ?_⟩, ?_, ?_, ?_, ?_⟩
    · have : (2 ^ 52 : ℚ) ≤ y := le_of_mul_le_mul_right (hy ▸ h.full hmin) hpos
      have : (2 ^ 52 : ℚ) < m + 1 := by linarith [hm.high]
      exact Nat.lt_succ_iff.mp (by exact_mod_cast this)
    · rw [lowEnd, hy]
      split
      · rename_i hpower
        have : (2 ^ 52 : ℚ) ≤ y := le_of_mul_le_mul_right (hy ▸ h.full hpower.2) hpos
        refine scale_le ?_ e
        rw [hpower.1]
        linarith
      · exact scale_le hm.low e
    · exact hy ▸ scale_le hm.high e
    · intro hone
      rw [lowEnd, if_neg (fun hpower => by simp [hpower.1] at hone), hy]
      exact scale_lt (hm.low_odd hone) e
    · exact fun hone => hy ▸ scale_lt (hm.high_odd hone) e
  · refine .inr ⟨rfl, ⟨by norm_num, by have := h.least; omega, fun _ => le_rfl⟩, ?_, ?_, ?_, ?_⟩
    · have := hm.low
      rw [lowEnd, if_pos ⟨rfl, by have := h.least; omega⟩, zpow_add_one₀ two_ne_zero, hy]
      refine le_trans (le_of_eq ?_) (scale_le this e)
      ring
    · rw [highEnd, zpow_add_one₀ two_ne_zero, hy]
      refine (scale_le (b := 2 ^ 53 + 1) (by linarith) e).trans (le_of_eq ?_)
      ring
    · norm_num
    · norm_num

/-- What belongs to no finite number is beyond all of them. -/
lemma Owns.roundsTo (h : Owns m e q) :
    RoundsTo q (if e ≤ maxExponent then .finite false m e else .infinite false) := by
  split
  · exact .finite h ‹_›
  · rename_i he
    refine .infinite (le_trans ?_ h.low)
    have hmin : minExponent < e := by simp only [minExponent, maxExponent] at he ⊢; omega
    rcases eq_or_lt_of_le (show maxExponent + 1 ≤ e by omega) with rfl | hlt
    · rcases Nat.eq_or_lt_of_le (h.full hmin) with rfl | hlt
      · exact le_rfl
      · have hm : (2 ^ 52 : ℚ) + 1 ≤ m := by exact_mod_cast hlt
        refine le_trans ?_ (half_le_lowEnd m _)
        refine scale_le ?_ _
        linarith
    · have := h.toCanonical.le_lowEnd (by decide) hlt
      refine le_trans ?_ this
      exact scale_le (by norm_num) _

lemma zero_roundsTo (hq : 0 ≤ q) (hlt : q ≤ 2 ^ (-1075 : Int)) : RoundsTo q (zero false) := by
  have hhigh : highEnd 0 minExponent = 2 ^ (-1075 : Int) := by
    rw [highEnd, show (-1075 : Int) = minExponent - 1 by decide, zpow_sub_one₀ two_ne_zero]
    ring
  have hlow : lowEnd 0 minExponent = -2 ^ (-1075 : Int) := by
    rw [lowEnd, if_neg (by norm_num), show (-1075 : Int) = minExponent - 1 by decide, zpow_sub_one₀ two_ne_zero]
    ring
  refine .finite ⟨⟨by norm_num, le_rfl, fun h => absurd h (lt_irrefl _)⟩, ?_, ?_, ?_, ?_⟩ (by decide)
  · linarith
  · rwa [hhigh]
  · norm_num
  · norm_num

lemma zero_roundsTo_zero : RoundsTo 0 (zero false) :=
  zero_roundsTo le_rfl (zpow_pos two_pos _).le

lemma IsExponent.roundDiv_owns (hden : 0 < den) (he : IsExponent (num / den) e) :
    roundDiv (num * (powRatio 2 e).2) (den * (powRatio 2 e).1) < 2 ^ 53 ∧
        Owns (roundDiv (num * (powRatio 2 e).2) (den * (powRatio 2 e).1)) e (num / den) ∨
      roundDiv (num * (powRatio 2 e).2) (den * (powRatio 2 e).1) = 2 ^ 53 ∧ Owns (2 ^ 52) (e + 1) (num / den) := by
  obtain ⟨hup, hdown⟩ := powRatio_pos Nat.two_pos e
  have hpow : ((powRatio 2 e).1 / (powRatio 2 e).2 : ℚ) = 2 ^ e := powRatio_div 2 e
  have hy : (num / den : ℚ) = (num * (powRatio 2 e).2 : Nat) / (den * (powRatio 2 e).1 : Nat) * 2 ^ e := by
    rw [← hpow]
    push_cast
    field_simp
  exact he.owns hy (roundDiv_isNearest _ (Nat.mul_pos hden hup))

lemma ofRatio_of_exponent (hnum : num ≠ 0) (hden : 0 < den)
    (he : exponentOf num den = e) (h : IsExponent (num / den) e) : RoundsTo (num / den) (ofRatio false num den) := by
  unfold ofRatio
  rw [he]
  simp only [beq_iff_eq, hnum, if_false, Nat.pow_eq]
  rcases h.roundDiv_owns hden with ⟨hm, howns⟩ | ⟨hm, howns⟩
  · rw [if_neg (ne_of_lt hm)]
    exact howns.roundsTo
  · rw [if_pos hm]
    exact howns.roundsTo

lemma ofRatio_roundsTo (num : Nat) (hden : 0 < den) : RoundsTo (num / den) (ofRatio false num den) := by
  rcases Nat.eq_zero_or_pos num with rfl | hnum
  · simpa [ofRatio] using zero_roundsTo_zero
  · exact ofRatio_of_exponent hnum.ne' hden rfl (exponentOf_isExponent hnum hden)

lemma two_pow_le_ten_pow : (2 : ℚ) ^ (1075 : Int) ≤ 10 ^ (400 : Int) := by
  have : (2 : Nat) ^ 1075 ≤ 10 ^ 400 := by decide +kernel
  exact_mod_cast this

lemma ten_pow_log2_le {n : Nat} (hn : 0 < n) : (10 : ℚ) ^ (log2 n / 4) ≤ n := by
  calc (10 : ℚ) ^ (log2 n / 4) ≤ 16 ^ (log2 n / 4) :=
        pow_le_pow_left₀ (by norm_num) (by norm_num) _
    _ = 2 ^ (4 * (log2 n / 4)) := by rw [pow_mul]; norm_num
    _ ≤ 2 ^ log2 n := pow_le_pow_right₀ one_le_two (by omega)
    _ ≤ n := by exact_mod_cast Nat.log2_self_le hn.ne'

lemma le_ten_pow_log2 (n : Nat) : (n : ℚ) ≤ 10 ^ (log2 n + 1) := by
  calc (n : ℚ) ≤ 2 ^ (log2 n + 1) := by exact_mod_cast Nat.lt_log2_self.le
    _ ≤ 10 ^ (log2 n + 1) := pow_le_pow_left₀ (by norm_num) (by norm_num) _

lemma infinite_roundsTo (hq : 10 ^ (400 : Int) ≤ q) : RoundsTo q (.infinite false) := by
  refine .infinite (le_trans ?_ (two_pow_le_ten_pow.trans hq))
  calc ((2 ^ 52 : Nat) - 1 / 4 : ℚ) * 2 ^ (maxExponent + 1)
      ≤ 2 ^ (103 : Int) * 2 ^ (maxExponent + 1) := scale_le (by norm_num) _
    _ = 2 ^ (1075 : Int) := by rw [← zpow_add₀ two_ne_zero]; rfl

lemma ofDecimal_roundsTo (digits : Nat) (k : Int) : RoundsTo (digits * 10 ^ k) (ofDecimal false digits k) := by
  have hten : (0 : ℚ) < 10 ^ k := zpow_pos (by norm_num) k
  rcases Nat.eq_zero_or_pos digits with rfl | hpos
  · simpa [ofDecimal] using zero_roundsTo_zero
  · simp only [ofDecimal, beq_iff_eq, hpos.ne', if_false]
    split
    · refine infinite_roundsTo ?_
      calc (10 : ℚ) ^ (400 : Int) ≤ 10 ^ ((log2 digits / 4 : Nat) + k : Int) :=
            zpow_le_zpow_right₀ (by norm_num) (by omega)
        _ = 10 ^ (log2 digits / 4) * 10 ^ k := by
            rw [zpow_add₀ (by norm_num), zpow_natCast]
        _ ≤ digits * 10 ^ k := mul_le_mul_of_nonneg_right (ten_pow_log2_le hpos) hten.le
    · split
      · refine zero_roundsTo (by positivity) ?_
        calc (digits : ℚ) * 10 ^ k ≤ 10 ^ (log2 digits + 1) * 10 ^ k :=
              mul_le_mul_of_nonneg_right (le_ten_pow_log2 digits) hten.le
          _ = 10 ^ ((log2 digits + 1 : Nat) + k : Int) := by
              rw [zpow_add₀ (by norm_num), zpow_natCast]
          _ ≤ 10 ^ (-400 : Int) := zpow_le_zpow_right₀ (by norm_num) (by omega)
          _ ≤ 2 ^ (-1075 : Int) := by
              rw [zpow_neg, zpow_neg]
              exact inv_anti₀ (zpow_pos two_pos _) two_pow_le_ten_pow
      · have hpow : ((powRatio 10 k).1 / (powRatio 10 k).2 : ℚ) = 10 ^ k := powRatio_div 10 k
        have := ofRatio_roundsTo (digits * (powRatio 10 k).1) (powRatio_pos (b := 10) (by norm_num) k).2
        push_cast at this
        rwa [mul_div_assoc, hpow] at this

end AlgoLang.Binary64
