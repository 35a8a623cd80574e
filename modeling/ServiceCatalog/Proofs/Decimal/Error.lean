import Mathlib.Order.Monotone.Basic
import ServiceCatalog.Proofs.Decimal.Rounding

namespace ServiceCatalog

namespace Binary64

def tiny : ℚ := 2 ^ (-1075 : ℤ)

theorem tiny_pos : 0 < tiny := by
  rw [tiny]
  positivity

theorem tiny_lt {k : ℕ} (hk : k ≤ 320) : tiny < 1 / 10 ^ k := by
  have hpow : (10 : ℚ) ^ k < 2 ^ 1075 := by
    calc (10 : ℚ) ^ k ≤ 10 ^ 320 := pow_le_pow_right₀ (by norm_num) hk
      _ = (10 ^ 40) ^ 8 := by rw [← pow_mul]
      _ < (2 ^ 134) ^ 8 := pow_lt_pow_left₀ (by norm_num) (by positivity) (by decide)
      _ = 2 ^ 1072 := by rw [← pow_mul]
      _ ≤ 2 ^ 1075 := pow_le_pow_right₀ one_le_two (by decide)
  have hexp : ((1075 : ℕ) : ℤ) = 1075 := rfl
  rw [tiny, zpow_neg, ← hexp, zpow_natCast, one_div]
  exact inv_strictAnti₀ (by positivity) hpow

variable {num den : ℕ}

theorem nearestRank_close (num : ℕ) (hden : 0 < den) :
    |rankValue (nearestRank num den) - num / den| ≤ num / den / 2 ^ 53 + tiny := by
  have htiny := tiny_pos
  rcases Nat.eq_zero_or_pos num with rfl | hnum
  · have hzero : nearestRank 0 den = 0 := rfl
    simpa [hzero, rankValue, binadeSize] using htiny.le
  have hd : (0 : ℚ) < den := by exact_mod_cast hden
  have hn : (0 : ℚ) < num := by exact_mod_cast hnum
  refine (nearestRank_error hnum hden).trans ?_
  rcases le_total (floorLog2 num den - 52) (-1074) with h | h
  · have hexp : gridExponent num den = -1074 := max_eq_left h
    have hhalf : (2 : ℚ) ^ (-1074 : ℤ) / 2 = tiny := by
      rw [tiny, show (-1075 : ℤ) = -1074 - 1 by rfl, zpow_sub₀ two_ne_zero, zpow_one]
    rw [hexp, hhalf]
    have : 0 < (num : ℚ) / den / 2 ^ 53 := by positivity
    linarith
  · have hexp : gridExponent num den = floorLog2 num den - 52 := max_eq_right h
    calc (2 : ℚ) ^ gridExponent num den / 2 = 2 ^ floorLog2 num den / 2 ^ 53 := by
          rw [hexp, zpow_sub₀ two_ne_zero]
          norm_num
          ring
      _ ≤ num / den / 2 ^ 53 := by
          gcongr
          exact (floorLog2_spec hnum hden).1
      _ ≤ num / den / 2 ^ 53 + tiny := by linarith

theorem rankValue_strictMono : StrictMono rankValue := by
  refine strictMono_nat_of_lt_succ fun r => ?_
  have hsize : 0 < binadeSize := by decide
  rcases Nat.lt_or_ge r binadeSize with h | h
  · have hr : rankValue r = r * 2 ^ (-1074 : ℤ) := rankValue_of_lt h
    have hs : rankValue (r + 1) = (r + 1 : ℕ) * 2 ^ (-1074 : ℤ) := by
      rcases Nat.lt_or_eq_of_le (Nat.succ_le_of_lt h) with h' | h'
      · exact rankValue_of_lt h'
      · have := rankValue_binade (k := 0) h'.ge (h'.le.trans (Nat.le_mul_of_pos_left _ two_pos))
        simpa using this
    rw [hr, hs]
    gcongr
    exact Nat.lt_succ_self r
  · obtain ⟨k, m, hlow, hhigh, rfl⟩ : ∃ k m, binadeSize ≤ m ∧ m < 2 * binadeSize ∧ r = k * binadeSize + m := by
      refine ⟨r / binadeSize - 1, r % binadeSize + binadeSize, Nat.le_add_left .., ?_, ?_⟩
      · have := Nat.mod_lt r hsize
        omega
      · have hpos : 0 < r / binadeSize := Nat.div_pos h hsize
        have hdiv := Nat.div_add_mod' r binadeSize
        obtain ⟨q, hq⟩ : ∃ q, r / binadeSize = q + 1 := ⟨r / binadeSize - 1, by omega⟩
        rw [hq, Nat.add_mul] at hdiv
        rw [hq, Nat.add_sub_cancel]
        omega
    rw [Nat.add_assoc, rankValue_binade hlow hhigh.le, rankValue_binade (by omega) hhigh]
    gcongr
    exact Nat.lt_succ_self m

theorem magnitude_nonneg (x : Binary64) : 0 ≤ x.magnitude := by
  rw [magnitude]
  positivity

theorem magnitude_le_iff {x y : Binary64} : x.magnitude ≤ y.magnitude ↔ x.rank ≤ y.rank := by
  rw [magnitude_eq, magnitude_eq, rankValue_strictMono.le_iff_le]

theorem magnitude_eq_zero {x : Binary64} : x.magnitude = 0 ↔ x.rank = 0 := by
  have hzero : rankValue 0 = 0 := by simp [rankValue, binadeSize]
  rw [magnitude_eq, ← hzero, rankValue_strictMono.injective.eq_iff]

variable {x y z : Binary64}

theorem ofRatio?_rank {negative : Bool} (h : ofRatio? negative num den = some z) :
    z.negative = negative ∧ z.rank = nearestRank num den := by
  rw [ofRatio?, Option.dite_none_right_eq_some] at h
  obtain ⟨_, h⟩ := h
  cases h
  exact ⟨rfl, rfl⟩

theorem magnitude_close (hz : z.rank = nearestRank num den) (hden : 0 < den) :
    |z.magnitude - num / den| ≤ num / den / 2 ^ 53 + tiny := by
  rw [magnitude_eq, hz]
  exact nearestRank_close num hden

theorem mul_ratio (x y : Binary64) :
    ((x.ratio.1 * y.ratio.1 : ℕ) : ℚ) / (x.ratio.2 * y.ratio.2 : ℕ) = x.magnitude * y.magnitude := by
  rw [← ratio_eq, ← ratio_eq, div_mul_div_comm, Nat.cast_mul, Nat.cast_mul]

theorem div_ratio (x y : Binary64) :
    ((x.ratio.1 * y.ratio.2 : ℕ) : ℚ) / (x.ratio.2 * y.ratio.1 : ℕ) = x.magnitude / y.magnitude := by
  rw [← ratio_eq, ← ratio_eq, div_div_div_eq, Nat.cast_mul, Nat.cast_mul]

theorem ratio_num_pos (hx : 0 < x.magnitude) : 0 < x.ratio.1 := by
  rw [Nat.pos_iff_ne_zero]
  intro h
  rw [← ratio_eq, h] at hx
  simp at hx

theorem mul?_rank (h : x.mul? y = some z) :
    z.rank = nearestRank (x.ratio.1 * y.ratio.1) (x.ratio.2 * y.ratio.2) := (ofRatio?_rank h).2

theorem div?_rank (h : x.div? y = some z) :
    z.rank = nearestRank (x.ratio.1 * y.ratio.2) (x.ratio.2 * y.ratio.1) := (ofRatio?_rank h).2

theorem mul?_close (h : x.mul? y = some z) :
    |z.magnitude - x.magnitude * y.magnitude| ≤ x.magnitude * y.magnitude / 2 ^ 53 + tiny := by
  rw [← mul_ratio]
  exact magnitude_close (mul?_rank h) (Nat.mul_pos (ratio_den_pos x) (ratio_den_pos y))

theorem lt_of_mul?_eq_none (h : x.mul? y = none) : 2 ^ 64 < x.magnitude * y.magnitude := by
  by_contra hle
  rw [not_lt, ← mul_ratio] at hle
  obtain ⟨z, hz, -⟩ := ofRatio?_eq_some (x.negative != y.negative) (x.ratio.1 * y.ratio.1)
    (Nat.mul_pos (ratio_den_pos x) (ratio_den_pos y)) hle
  exact absurd (hz.symm.trans h) (by simp)

theorem rankValue_nearestRank_shift {a : ℕ} (ha : a < 2 ^ 53) (b : ℕ) :
    rankValue (nearestRank (a * 2 ^ b) 1) = (a * 2 ^ b : ℕ) := by
  rcases Nat.eq_zero_or_pos a with rfl | hpos
  · simp [nearestRank, rankValue, binadeSize]
  have hn : 0 < a * 2 ^ b := Nat.mul_pos hpos (by positivity)
  have hq : gridExponent (a * 2 ^ b) 1 ≤ b := by
    have hlt : (2 : ℚ) ^ floorLog2 (a * 2 ^ b) 1 < 2 ^ (53 + b : ℤ) := by
      refine (floorLog2_spec hn Nat.one_pos).1.trans_lt ?_
      rw [zpow_add₀ two_ne_zero, zpow_natCast]
      push_cast
      rw [div_one]
      gcongr
      exact_mod_cast ha
    have := (zpow_lt_zpow_iff_right₀ (one_lt_two (α := ℚ))).1 hlt
    rw [gridExponent]
    omega
  set q := gridExponent (a * 2 ^ b) 1
  obtain ⟨k, hk⟩ := Int.le.dest hq
  have hpow : (2 : ℚ) ^ b = 2 ^ k * 2 ^ q := by
    rw [← zpow_natCast, ← zpow_natCast, ← zpow_add₀ two_ne_zero, ← hk, add_comm]
  have hnear := roundHalfEven_near (a * 2 ^ b * Nat.pow 2 (-q).toNat) (grid_den_pos Nat.one_pos q)
  have hquotient : ((a * 2 ^ b : ℕ) : ℚ) / (1 : ℕ) / 2 ^ q = (a * 2 ^ k : ℕ) := by
    push_cast
    rw [div_one, hpow, ← mul_assoc, mul_div_cancel_right₀ _ (by positivity)]
  rw [grid_quotient, hquotient] at hnear
  have hpoint : gridPoint (a * 2 ^ b) 1 = a * 2 ^ k := by
    have hlt : |(gridPoint (a * 2 ^ b) 1 : ℤ) - (a * 2 ^ k : ℕ)| < 1 := by
      have : |(gridPoint (a * 2 ^ b) 1 : ℚ) - (a * 2 ^ k : ℕ)| < 1 := hnear.trans_lt (by norm_num)
      exact_mod_cast this
    rw [Int.abs_lt_one_iff] at hlt
    omega
  rw [rankValue_nearestRank hn Nat.one_pos, hpoint]
  push_cast
  rw [hpow, mul_assoc]

theorem magnitude_ofNat?_shift {a b : ℕ} (ha : a < 2 ^ 53) (h : ofNat? (a * 2 ^ b) = some x) :
    x.magnitude = (a * 2 ^ b : ℕ) := by
  rw [magnitude_eq, (ofRatio?_rank h).2, rankValue_nearestRank_shift ha]

theorem magnitude_ofNat? {n : ℕ} (hn : n < 2 ^ 53) (h : ofNat? n = some x) : x.magnitude = n := by
  have hone : n * 2 ^ 0 = n := Nat.mul_one n
  have := magnitude_ofNat?_shift (b := 0) hn (by rwa [hone])
  rwa [hone] at this

theorem div?_close (hy : 0 < y.magnitude) (h : x.div? y = some z) :
    |z.magnitude - x.magnitude / y.magnitude| ≤ x.magnitude / y.magnitude / 2 ^ 53 + tiny := by
  rw [← div_ratio]
  exact magnitude_close (div?_rank h) (Nat.mul_pos (ratio_den_pos x) (ratio_num_pos hy))

end Binary64

end ServiceCatalog
