import Mathlib.Algebra.Order.Field.Power
import Mathlib.Data.Int.Log
import Mathlib.Tactic.FieldSimp
import Mathlib.Tactic.Linarith
import Mathlib.Tactic.NormNum
import Mathlib.Tactic.Positivity
import Mathlib.Tactic.Ring
import ServiceCatalog.Decimal.Binary64

namespace ServiceCatalog

namespace Binary64

theorem two_zpow (e : ℤ) : (2 : ℚ) ^ e = 2 ^ e.toNat / 2 ^ (-e).toNat := by
  rcases le_total 0 e with h | h
  · obtain ⟨n, rfl⟩ := Int.eq_ofNat_of_zero_le h
    simp
  · obtain ⟨n, hn⟩ := Int.eq_ofNat_of_zero_le (Int.neg_nonneg_of_nonpos h)
    obtain rfl : e = -n := by omega
    simp

def rankValue (r : ℕ) : ℚ :=
  if r < binadeSize then r * 2 ^ (-1074 : ℤ)
  else (binadeSize + r % binadeSize : ℕ) * 2 ^ ((r / binadeSize : ℕ) - 1075 : ℤ)

def magnitude (x : Binary64) : ℚ := x.mantissa * 2 ^ x.exponent

theorem magnitude_eq (x : Binary64) : x.magnitude = rankValue x.rank := by
  rw [magnitude, mantissa, exponent, rankValue]
  split <;> rfl

theorem ratio_den_pos (x : Binary64) : 0 < x.ratio.2 := Nat.pow_pos (by decide)

theorem ratio_eq (x : Binary64) : (x.ratio.1 : ℚ) / x.ratio.2 = x.magnitude := by
  simp only [ratio, magnitude, two_zpow, Nat.pow_eq, Nat.cast_mul, Nat.cast_pow, Nat.cast_ofNat]
  ring

theorem lt_two_zpow_iff {num den : ℕ} (hden : 0 < den) (k : ℤ) :
    num * Nat.pow 2 (-k).toNat < den * Nat.pow 2 k.toNat ↔ (num : ℚ) / den < 2 ^ k := by
  have hd : (0 : ℚ) < den := by exact_mod_cast hden
  rw [two_zpow, div_lt_div_iff₀ hd (by positivity), ← Nat.cast_lt (α := ℚ)]
  push_cast [Nat.pow_eq]
  rw [mul_comm (den : ℚ)]

theorem floorLog2_spec {num den : ℕ} (hnum : 0 < num) (hden : 0 < den) :
    (2 : ℚ) ^ floorLog2 num den ≤ num / den ∧ (num : ℚ) / den < 2 ^ (floorLog2 num den + 1) := by
  have hd : (0 : ℚ) < den := by exact_mod_cast hden
  have hnum1 : (2 : ℚ) ^ num.log2 ≤ num := by exact_mod_cast Nat.log2_self_le hnum.ne'
  have hnum2 : (num : ℚ) < 2 ^ (num.log2 + 1) := by exact_mod_cast Nat.lt_log2_self
  have hden1 : (2 : ℚ) ^ den.log2 ≤ den := by exact_mod_cast Nat.log2_self_le hden.ne'
  have hden2 : (den : ℚ) < 2 ^ (den.log2 + 1) := by exact_mod_cast Nat.lt_log2_self
  have hlow : (2 : ℚ) ^ ((num.log2 : ℤ) - den.log2 - 1) ≤ num / den := by
    rw [le_div_iff₀ hd]
    calc (2 : ℚ) ^ ((num.log2 : ℤ) - den.log2 - 1) * den
        ≤ 2 ^ ((num.log2 : ℤ) - den.log2 - 1) * 2 ^ ((den.log2 : ℤ) + 1) := by
          gcongr
          exact_mod_cast hden2.le
      _ = 2 ^ num.log2 := by
          rw [← zpow_add₀ two_ne_zero, ← zpow_natCast]
          congr 1
          ring
      _ ≤ num := hnum1
  have hhigh : (num : ℚ) / den < 2 ^ ((num.log2 : ℤ) - den.log2 + 1) := by
    rw [div_lt_iff₀ hd]
    calc (num : ℚ) < 2 ^ (num.log2 + 1) := hnum2
      _ = 2 ^ ((num.log2 : ℤ) - den.log2 + 1) * 2 ^ den.log2 := by
          rw [← zpow_natCast, ← zpow_natCast, ← zpow_add₀ two_ne_zero]
          congr 1
          push_cast
          ring
      _ ≤ 2 ^ ((num.log2 : ℤ) - den.log2 + 1) * den := by gcongr
  simp only [floorLog2]
  split
  · next h =>
    refine ⟨hlow, ?_⟩
    rw [sub_add_cancel]
    exact (lt_two_zpow_iff hden _).1 h
  · next h => exact ⟨not_lt.1 fun hlt => h ((lt_two_zpow_iff hden _).2 hlt), hhigh⟩

theorem roundHalfEven_spec (num : ℕ) {den : ℕ} (hden : 0 < den) :
    let m := roundHalfEven num den
    2 * (den * m) ≤ 2 * num + den ∧ 2 * num ≤ 2 * (den * m) + den ∧
      (2 * (den * m) = 2 * num + den ∨ 2 * num = 2 * (den * m) + den → m % 2 = 0) := by
  have hdiv := Nat.div_add_mod num den
  have hmod := Nat.mod_lt num hden
  have hsucc := Nat.mul_add_one den (num / den)
  dsimp only [roundHalfEven]
  split
  · next h =>
    rw [Nat.compare_eq_lt] at h
    omega
  · next h =>
    rw [Nat.compare_eq_gt] at h
    omega
  · next h =>
    rw [Nat.compare_eq_eq] at h
    split
    · next heven =>
      rw [beq_iff_eq] at heven
      omega
    · next hodd =>
      rw [beq_iff_eq] at hodd
      omega

theorem roundHalfEven_near (num : ℕ) {den : ℕ} (hden : 0 < den) :
    |(roundHalfEven num den : ℚ) - num / den| ≤ 1 / 2 := by
  have hd : (0 : ℚ) < den := by exact_mod_cast hden
  obtain ⟨hlow, hhigh, -⟩ := roundHalfEven_spec num hden
  have hlow' : 2 * ((den : ℚ) * roundHalfEven num den) ≤ 2 * num + den := by exact_mod_cast hlow
  have hhigh' : 2 * (num : ℚ) ≤ 2 * (den * roundHalfEven num den) + den := by exact_mod_cast hhigh
  rw [abs_le]
  constructor
  · rw [neg_le_sub_iff_le_add, div_le_iff₀ hd]
    linarith
  · rw [sub_le_iff_le_add', ← sub_le_iff_le_add, le_div_iff₀ hd]
    linarith

theorem roundHalfEven_mono {num den num' den' : ℕ} (hden : 0 < den) (hden' : 0 < den')
    (h : (num : ℚ) / den ≤ num' / den') : roundHalfEven num den ≤ roundHalfEven num' den' := by
  have hd : (0 : ℚ) < den := by exact_mod_cast hden
  have hd' : (0 : ℚ) < den' := by exact_mod_cast hden'
  obtain ⟨hlow, -, htie⟩ := roundHalfEven_spec num hden
  obtain ⟨-, hhigh, htie'⟩ := roundHalfEven_spec num' hden'
  set m := roundHalfEven num den
  set m' := roundHalfEven num' den'
  by_contra hlt
  have hlow' : (m : ℚ) - 1 / 2 ≤ num / den := by
    rw [le_div_iff₀ hd]
    have : 2 * ((den : ℚ) * m) ≤ 2 * num + den := by exact_mod_cast hlow
    linarith
  have hhigh' : (num' : ℚ) / den' ≤ m' + 1 / 2 := by
    rw [div_le_iff₀ hd']
    have : 2 * (num' : ℚ) ≤ 2 * (den' * m') + den' := by exact_mod_cast hhigh
    linarith
  have hmm : (m' : ℚ) + 1 ≤ m := by exact_mod_cast (by omega : m' + 1 ≤ m)
  -- Both quotients lie halfway between `m'` and `m`, which cannot both be even.
  have hsucc : m = m' + 1 := by
    have : (m : ℚ) ≤ m' + 1 := by linarith
    have : m ≤ m' + 1 := by exact_mod_cast this
    omega
  have hnum : (num : ℚ) / den = m - 1 / 2 := by linarith
  have hnum' : (num' : ℚ) / den' = m' + 1 / 2 := by linarith
  rw [div_eq_iff hd.ne'] at hnum
  rw [div_eq_iff hd'.ne'] at hnum'
  have heven : m % 2 = 0 := by
    refine htie (.inl ?_)
    have : 2 * ((den : ℚ) * m) = 2 * num + den := by linarith
    exact_mod_cast this
  have heven' : m' % 2 = 0 := by
    refine htie' (.inr ?_)
    have : 2 * (num' : ℚ) = 2 * (den' * m') + den' := by linarith
    exact_mod_cast this
  omega

theorem roundHalfEven_one (n : ℕ) : roundHalfEven n 1 = n := by
  obtain ⟨hlow, hhigh, -⟩ := roundHalfEven_spec n Nat.one_pos
  omega

def gridExponent (num den : ℕ) : ℤ := max (-1074) (floorLog2 num den - 52)

def gridPoint (num den : ℕ) : ℕ :=
  roundHalfEven (num * Nat.pow 2 (-gridExponent num den).toNat) (den * Nat.pow 2 (gridExponent num den).toNat)

variable {num den num' den' : ℕ}

theorem nearestRank_eq (hnum : 0 < num) :
    nearestRank num den = (gridExponent num den + 1074).toNat * binadeSize + gridPoint num den := by
  have h : (num == 0) = false := beq_eq_false_iff_ne.2 hnum.ne'
  simp only [nearestRank, h]
  rfl

theorem grid_quotient (q : ℤ) (num den : ℕ) :
    ((num * Nat.pow 2 (-q).toNat : ℕ) : ℚ) / (den * Nat.pow 2 q.toNat : ℕ) = num / den / 2 ^ q := by
  rw [two_zpow]
  push_cast [Nat.pow_eq]
  field_simp

theorem grid_den_pos (hden : 0 < den) (q : ℤ) : 0 < den * Nat.pow 2 q.toNat :=
  Nat.mul_pos hden (Nat.pow_pos (by decide))

theorem gridPoint_le (hnum : 0 < num) (hden : 0 < den) : gridPoint num den ≤ 2 * binadeSize := by
  rw [← roundHalfEven_one (2 * binadeSize)]
  refine roundHalfEven_mono (grid_den_pos hden _) Nat.one_pos ?_
  rw [grid_quotient, div_le_iff₀ (by positivity)]
  calc (num : ℚ) / den ≤ 2 ^ (floorLog2 num den + 1) := (floorLog2_spec hnum hden).2.le
    _ ≤ 2 ^ (53 + gridExponent num den) := by
      refine zpow_le_zpow_right₀ one_le_two ?_
      have := le_max_right (-1074) (floorLog2 num den - 52)
      rw [gridExponent]
      omega
    _ = ((2 * binadeSize : ℕ) : ℚ) / (1 : ℕ) * 2 ^ gridExponent num den := by
      rw [zpow_add₀ two_ne_zero]
      norm_num [binadeSize]

theorem le_gridPoint (hnum : 0 < num) (hden : 0 < den) (hq : -1074 < gridExponent num den) :
    binadeSize ≤ gridPoint num den := by
  have hexp : gridExponent num den = floorLog2 num den - 52 := by
    rw [gridExponent] at hq ⊢
    omega
  rw [← roundHalfEven_one binadeSize]
  refine roundHalfEven_mono Nat.one_pos (grid_den_pos hden _) ?_
  rw [grid_quotient, le_div_iff₀ (by positivity)]
  calc ((binadeSize : ℕ) : ℚ) / (1 : ℕ) * 2 ^ gridExponent num den = 2 ^ floorLog2 num den := by
        rw [hexp, zpow_sub₀ two_ne_zero]
        norm_num [binadeSize]
        ring
    _ ≤ num / den := (floorLog2_spec hnum hden).1

theorem rankValue_of_lt {m : ℕ} (h : m < binadeSize) : rankValue m = m * 2 ^ (-1074 : ℤ) := by
  rw [rankValue, if_pos h]

theorem rankValue_binade {k m : ℕ} (hlow : binadeSize ≤ m) (hhigh : m ≤ 2 * binadeSize) :
    rankValue (k * binadeSize + m) = m * 2 ^ ((k : ℤ) - 1074) := by
  have hpos : 0 < binadeSize := by decide
  rcases Nat.lt_or_eq_of_le hhigh with h | h
  · have hdiv : (k * binadeSize + m) / binadeSize = k + 1 := by
      rw [Nat.div_eq_iff hpos]
      have := Nat.add_mul k 1 binadeSize
      omega
    have hmod : (k * binadeSize + m) % binadeSize = m - binadeSize := by
      have := Nat.div_add_mod (k * binadeSize + m) binadeSize
      rw [hdiv, Nat.mul_comm, Nat.add_mul] at this
      omega
    rw [rankValue, if_neg (by omega), hdiv, hmod, Nat.add_sub_cancel' hlow]
    congr 2
    push_cast
    ring
  · have hdiv : (k * binadeSize + m) / binadeSize = k + 2 := by
      rw [h, ← Nat.add_mul, Nat.mul_div_cancel _ hpos]
    have hmod : (k * binadeSize + m) % binadeSize = 0 := by
      rw [h, ← Nat.add_mul, Nat.mul_mod_left]
    rw [rankValue, if_neg (by omega), hdiv, hmod, h]
    have hexp : ((k + 2 : ℕ) : ℤ) - 1075 = (k - 1074) + 1 := by
      push_cast
      ring
    rw [hexp, zpow_add₀ two_ne_zero]
    push_cast
    ring

theorem rankValue_nearestRank (hnum : 0 < num) (hden : 0 < den) :
    rankValue (nearestRank num den) = gridPoint num den * 2 ^ gridExponent num den := by
  have hhigh := gridPoint_le hnum hden
  have hlow := le_gridPoint hnum hden
  have hq : -1074 ≤ gridExponent num den := le_max_left _ _
  rw [nearestRank_eq hnum]
  obtain ⟨k, hk⟩ : ∃ k : ℕ, gridExponent num den = k - 1074 :=
    ⟨(gridExponent num den + 1074).toNat, by omega⟩
  rw [hk] at hlow ⊢
  have hk' : ((k : ℤ) - 1074 + 1074).toNat = k := by omega
  rw [hk']
  rcases Nat.lt_or_ge (gridPoint num den) binadeSize with hm | hm
  · -- below the least binade the grid is that of the subnormal numbers
    obtain rfl : k = 0 := by
      by_contra hne
      exact absurd (hlow (by omega)) (by omega)
    simpa using rankValue_of_lt hm
  · exact rankValue_binade hm hhigh

theorem nearestRank_error (hnum : 0 < num) (hden : 0 < den) :
    |rankValue (nearestRank num den) - num / den| ≤ 2 ^ gridExponent num den / 2 := by
  have hpos : (0 : ℚ) < 2 ^ gridExponent num den := by positivity
  have hnear := roundHalfEven_near (num * Nat.pow 2 (-gridExponent num den).toNat)
    (grid_den_pos hden (gridExponent num den))
  rw [grid_quotient] at hnear
  have hsplit : (gridPoint num den : ℚ) * 2 ^ gridExponent num den - num / den
      = (gridPoint num den - num / den / 2 ^ gridExponent num den) * 2 ^ gridExponent num den := by
    rw [sub_mul, div_mul_cancel₀ _ hpos.ne']
  calc |rankValue (nearestRank num den) - num / den|
      = |(gridPoint num den : ℚ) - num / den / 2 ^ gridExponent num den| * 2 ^ gridExponent num den := by
        rw [rankValue_nearestRank hnum hden, hsplit, abs_mul, abs_of_pos hpos]
    _ ≤ 1 / 2 * 2 ^ gridExponent num den := mul_le_mul_of_nonneg_right hnear hpos.le
    _ = 2 ^ gridExponent num den / 2 := by ring

theorem nearestRank_near (hnum : 0 < num) (hden : 0 < den) (hsize : (2 : ℚ) ^ (-1022 : ℤ) ≤ num / den) :
    |rankValue (nearestRank num den) - num / den| ≤ num / den / 2 ^ 53 := by
  obtain ⟨hlow, hhigh⟩ := floorLog2_spec hnum hden
  have hexp : gridExponent num den = floorLog2 num den - 52 := by
    have := (zpow_lt_zpow_iff_right₀ (one_lt_two (α := ℚ))).1 (hsize.trans_lt hhigh)
    rw [gridExponent]
    omega
  refine (nearestRank_error hnum hden).trans ?_
  calc (2 : ℚ) ^ gridExponent num den / 2 = 2 ^ floorLog2 num den / 2 ^ 53 := by
        rw [hexp, zpow_sub₀ two_ne_zero]
        norm_num
        ring
    _ ≤ num / den / 2 ^ 53 := by gcongr

theorem rankValue_nearestRank_nat {n : ℕ} (hn : 0 < n) (hsize : n < 2 ^ 53) :
    rankValue (nearestRank n 1) = n := by
  obtain ⟨hlow, -⟩ := floorLog2_spec hn Nat.one_pos
  have hq : gridExponent n 1 ≤ 0 := by
    have hlt : (2 : ℚ) ^ floorLog2 n 1 < 2 ^ (53 : ℤ) := by
      refine hlow.trans_lt ?_
      rw [Nat.cast_one, div_one]
      exact_mod_cast hsize
    have := (zpow_lt_zpow_iff_right₀ (one_lt_two (α := ℚ))).1 hlt
    rw [gridExponent]
    omega
  have hpoint : gridPoint n 1 = n * 2 ^ (-gridExponent n 1).toNat := by
    rw [gridPoint, Int.toNat_of_nonpos hq]
    exact roundHalfEven_one _
  have htop : (gridExponent n 1).toNat = 0 := Int.toNat_of_nonpos hq
  rw [rankValue_nearestRank hn Nat.one_pos, hpoint, two_zpow (gridExponent n 1), htop]
  push_cast
  field_simp

theorem floorLog2_mono (hnum : 0 < num) (hden : 0 < den) (hnum' : 0 < num') (hden' : 0 < den')
    (h : (num : ℚ) / den ≤ num' / den') : floorLog2 num den ≤ floorLog2 num' den' := by
  have hlt := ((floorLog2_spec hnum hden).1.trans h).trans_lt (floorLog2_spec hnum' hden').2
  exact Int.lt_add_one_iff.1 ((zpow_lt_zpow_iff_right₀ (one_lt_two (α := ℚ))).1 hlt)

theorem nearestRank_mono (hden : 0 < den) (hden' : 0 < den') (h : (num : ℚ) / den ≤ num' / den') :
    nearestRank num den ≤ nearestRank num' den' := by
  rcases Nat.eq_zero_or_pos num with rfl | hnum
  · exact Nat.zero_le _
  have hd : (0 : ℚ) < den := by exact_mod_cast hden
  have hd' : (0 : ℚ) < den' := by exact_mod_cast hden'
  have hnum' : 0 < num' := by
    have hpos : (0 : ℚ) < num' / den' := (div_pos (Nat.cast_pos.2 hnum) hd).trans_le h
    exact_mod_cast (div_pos_iff_of_pos_right hd').1 hpos
  have hlog := floorLog2_mono hnum hden hnum' hden' h
  have hexp : gridExponent num den ≤ gridExponent num' den' := by
    rw [gridExponent, gridExponent]
    omega
  have hmin : -1074 ≤ gridExponent num den := le_max_left _ _
  rw [nearestRank_eq hnum, nearestRank_eq hnum']
  rcases hexp.eq_or_lt with he | hlt
  · have hpoint : gridPoint num den ≤ gridPoint num' den' := by
      rw [gridPoint, gridPoint, ← he]
      refine roundHalfEven_mono (grid_den_pos hden _) (grid_den_pos hden' _) ?_
      rw [grid_quotient, grid_quotient]
      gcongr
    rw [← he]
    omega
  · have hhigh := gridPoint_le hnum hden
    have hlow := le_gridPoint hnum' hden' (by omega)
    have hstep : (gridExponent num den + 1074).toNat + 1 ≤ (gridExponent num' den' + 1074).toNat := by omega
    have := Nat.mul_le_mul_right binadeSize hstep
    rw [Nat.add_mul] at this
    omega

theorem nearestRank_finite {num den : ℕ} (hden : 0 < den) (h : (num : ℚ) / den ≤ 2 ^ 64) :
    nearestRank num den < magnitudeCount := by
  have hbound : nearestRank (2 ^ 64) 1 < magnitudeCount := by decide +kernel
  refine lt_of_le_of_lt (nearestRank_mono hden Nat.one_pos ?_) hbound
  rwa [Nat.cast_one, div_one, Nat.cast_pow, Nat.cast_ofNat]

theorem ofRatio?_eq_some (negative : Bool) (num : ℕ) {den : ℕ} (hden : 0 < den) (h : (num : ℚ) / den ≤ 2 ^ 64) :
    ∃ x, ofRatio? negative num den = some x ∧ x.negative = negative ∧ x.rank = nearestRank num den :=
  ⟨_, dif_pos (nearestRank_finite hden h), rfl, rfl⟩

end Binary64

end ServiceCatalog
