import ServiceCatalog.Decimal.Binary64
import ServiceCatalog.Proofs.Decimal.Error

/-!
Scaling a natural by a power of ten. The natural, the power and their product or quotient are rounded once each, and not
at all while they have few binary digits.
-/

namespace ServiceCatalog

namespace Binary64

theorem nearestRank_congr {num den num' den' : ℕ} (hden : 0 < den) (hden' : 0 < den')
    (h : (num : ℚ) / den = num' / den') : nearestRank num den = nearestRank num' den' :=
  (nearestRank_mono hden hden' h.le).antisymm (nearestRank_mono hden' hden h.ge)

theorem rankValue_nearestRank_one_near (n : ℕ) : |rankValue (nearestRank n 1) - n| ≤ n / 2 ^ 53 := by
  rcases Nat.eq_zero_or_pos n with rfl | hn
  · simp [nearestRank, rankValue, binadeSize]
  have hone : (1 : ℚ) ≤ n := by exact_mod_cast hn
  have hsize : (2 : ℚ) ^ (-1022 : ℤ) ≤ (n : ℚ) / (1 : ℕ) := by
    rw [Nat.cast_one, div_one]
    exact (zpow_le_one_of_nonpos₀ one_le_two (by decide)).trans hone
  simpa using nearestRank_near hn Nat.one_pos hsize

end Binary64

namespace Decimal

open Binary64

variable {k n : ℕ} {x y : Binary64}

theorem nearestRank_pow_mono {j k : ℕ} (h : j ≤ k) : nearestRank (10 ^ j) 1 ≤ nearestRank (10 ^ k) 1 := by
  refine nearestRank_mono Nat.one_pos Nat.one_pos ?_
  gcongr
  decide

theorem powerOfTen_rank (hk : k ≤ 308) : (powerOfTen k).rank = nearestRank (10 ^ k) 1 := by
  have hgreatest : nearestRank (10 ^ 308) 1 < magnitudeCount := by decide +kernel
  have hle := nearestRank_pow_mono hk
  rw [powerOfTen, ofNat?, ofRatio?, Nat.pow_eq, dif_pos (hle.trans_lt hgreatest)]
  rfl

theorem powerOfTen_near (hk : k ≤ 308) : |(powerOfTen k).magnitude - 10 ^ k| ≤ 10 ^ k / 2 ^ 53 := by
  have := rankValue_nearestRank_one_near (10 ^ k)
  rw [magnitude_eq, powerOfTen_rank hk]
  exact_mod_cast this

theorem powerOfTen_exact (hk : k ≤ 22) : (powerOfTen k).magnitude = 10 ^ k := by
  have hfive : 5 ^ k < 2 ^ 53 := (Nat.pow_le_pow_right (by decide) hk).trans_lt (by decide)
  have hten : 5 ^ k * 2 ^ k = 10 ^ k := by rw [← Nat.mul_pow]
  have := rankValue_nearestRank_shift hfive k
  rw [hten] at this
  rw [magnitude_eq, powerOfTen_rank (hk.trans (by decide)), this]
  push_cast
  rfl

theorem ten_zpow (e : ℤ) : (10 : ℚ) ^ e = 10 ^ e.toNat / 10 ^ (-e).toNat := by
  rcases le_total 0 e with h | h
  · obtain ⟨n, rfl⟩ := Int.eq_ofNat_of_zero_le h
    simp
  · obtain ⟨n, hn⟩ := Int.eq_ofNat_of_zero_le (Int.neg_nonneg_of_nonpos h)
    obtain rfl : e = -n := by omega
    simp

theorem product_le {a b p q : ℚ} (ha : 0 ≤ a) (hb : 0 ≤ b) (hp : |p - a| ≤ a / 2 ^ 53) (hq : |q - b| ≤ b / 2 ^ 53) :
    p * q ≤ a * b * (1 + 1 / 2 ^ 53) ^ 2 := by
  rw [abs_le] at hp hq
  calc p * q ≤ (a * (1 + 1 / 2 ^ 53)) * (b * (1 + 1 / 2 ^ 53)) :=
        mul_le_mul (by linarith) (by linarith) (by linarith) (by positivity)
    _ = a * b * (1 + 1 / 2 ^ 53) ^ 2 := by ring

theorem near_product {a b p q r : ℚ} (ha : 0 ≤ a) (hb : 0 ≤ b) (hp : |p - a| ≤ a / 2 ^ 53) (hq : |q - b| ≤ b / 2 ^ 53)
    (hr : |r - p * q| ≤ p * q / 2 ^ 53 + tiny) : |r - a * b| ≤ a * b * (3001 / 1000) / 2 ^ 53 + 1 / 10 ^ 250 := by
  have htiny := tiny_lt (by decide : 250 ≤ 320)
  have hpq := product_le ha hb hp hq
  rw [abs_le] at hp hq hr
  have hqp : a * b * (1 - 1 / 2 ^ 53) ^ 2 ≤ p * q := by
    calc a * b * (1 - 1 / 2 ^ 53) ^ 2 = (a * (1 - 1 / 2 ^ 53)) * (b * (1 - 1 / 2 ^ 53)) := by ring
      _ ≤ p * q := mul_le_mul (by linarith) (by linarith) (by linarith) (by linarith)
  have hab : 0 ≤ a * b := mul_nonneg ha hb
  rw [abs_le]
  constructor <;> linarith

theorem near_quotient {a b p q r : ℚ} (ha : 0 ≤ a) (hb : 0 < b) (hp : |p - a| ≤ a / 2 ^ 53)
    (hq : |q - b| ≤ b / 2 ^ 53) (hr : |r - p / q| ≤ p / q / 2 ^ 53 + tiny) :
    |r - a / b| ≤ a / b * (3001 / 1000) / 2 ^ 53 + 1 / 10 ^ 250 := by
  have htiny := tiny_lt (by decide : 250 ≤ 320)
  rw [abs_le] at hp hq hr
  have hpq : p / q ≤ a / b * ((1 + 1 / 2 ^ 53) / (1 - 1 / 2 ^ 53)) := by
    calc p / q ≤ a * (1 + 1 / 2 ^ 53) / (b * (1 - 1 / 2 ^ 53)) := by
          refine div_le_div₀ (by positivity) (by linarith) ?_ (by linarith)
          refine mul_pos hb (by norm_num)
      _ = a / b * ((1 + 1 / 2 ^ 53) / (1 - 1 / 2 ^ 53)) := mul_div_mul_comm ..
  have hqp : a / b * ((1 - 1 / 2 ^ 53) / (1 + 1 / 2 ^ 53)) ≤ p / q := by
    calc a / b * ((1 - 1 / 2 ^ 53) / (1 + 1 / 2 ^ 53)) = a * (1 - 1 / 2 ^ 53) / (b * (1 + 1 / 2 ^ 53)) :=
          (mul_div_mul_comm ..).symm
      _ ≤ p / q := div_le_div₀ (by linarith) (by linarith) (by linarith) (by linarith)
  have hab : 0 ≤ a / b := div_nonneg ha hb.le
  rw [abs_le]
  norm_num at hpq hqp ⊢
  constructor <;> linarith

theorem scale?_of_zero {e : ℤ} (hx : x.rank = 0) : scale? x e = some x := by
  rw [scale?, if_pos (by simp [isZero, hx])]

section

variable {e : ℤ} (hx : x.rank ≠ 0)
include hx

theorem isZero_eq_false : x.isZero = false := by simp [isZero, hx]

theorem scale?_of_large (he : 308 < e) : scale? x e = none := by
  rw [scale?, isZero_eq_false hx, if_neg Bool.false_ne_true, if_pos he]

theorem scale?_of_nonneg (he : 0 ≤ e) (hle : e ≤ 308) : scale? x e = x.mul? (powerOfTen e.toNat) := by
  rw [scale?, isZero_eq_false hx, if_neg Bool.false_ne_true, if_neg (by omega), if_pos he]

theorem scale?_of_neg (he : e < 0) (hle : -308 ≤ e) : scale? x e = x.div? (powerOfTen (-e).toNat) := by
  rw [scale?, isZero_eq_false hx, if_neg Bool.false_ne_true, if_neg (by omega), if_neg (by omega), if_pos hle]

theorem scale?_of_small (he : e < -308) :
    scale? x e = (x.div? (powerOfTen 308)).bind fun y => scale? y (e + 308) := by
  rw [scale?, isZero_eq_false hx, if_neg Bool.false_ne_true, if_neg (by omega), if_neg (by omega), if_neg (by omega)]

end

theorem two_le_powerOfTen (hpos : 0 < k) (hk : k ≤ 308) : 2 ≤ (powerOfTen k).magnitude := by
  have hten : (10 : ℚ) ≤ 10 ^ k := by simpa using pow_le_pow_right₀ (by norm_num : (1 : ℚ) ≤ 10) hpos
  linarith [(abs_le.1 (powerOfTen_near hk)).1]

theorem div?_powerOfTen (hpos : 0 < k) (hk : k ≤ 308) (hx : x.magnitude ≤ 2 ^ 65) :
    ∃ y, x.div? (powerOfTen k) = some y ∧
      |y.magnitude - x.magnitude / (powerOfTen k).magnitude| ≤
        x.magnitude / (powerOfTen k).magnitude / 2 ^ 53 + tiny ∧
      y.magnitude ≤ x.magnitude / 2 * (1 + 1 / 2 ^ 53) + tiny := by
  have hten := two_le_powerOfTen hpos hk
  have hhalf : x.magnitude / (powerOfTen k).magnitude ≤ x.magnitude / 2 :=
    div_le_div_of_nonneg_left (magnitude_nonneg x) two_pos hten
  have hden := Nat.mul_pos (ratio_den_pos x) (ratio_num_pos (two_pos.trans_le hten))
  obtain ⟨y, hy, -, -⟩ := ofRatio?_eq_some (x.negative != (powerOfTen k).negative)
    (x.ratio.1 * (powerOfTen k).ratio.2) hden (by
      rw [div_ratio]
      linarith [magnitude_nonneg x])
  have hclose := div?_close (two_pos.trans_le hten) hy
  exact ⟨y, hy, hclose, by linarith [(abs_le.1 hclose).2]⟩

theorem scale?_small {e : ℤ} (he : e < 0) (hx : x.magnitude ≤ 1 / 10 ^ 252) :
    ∃ y, scale? x e = some y ∧ y.magnitude ≤ 1 / 10 ^ 252 := by
  have htiny := tiny_lt (by decide : 253 ≤ 320)
  have hten : (1 : ℚ) / 10 ^ 253 = 1 / 10 ^ 252 / 10 := by norm_num
  have hdivide {k : ℕ} (hpos : 0 < k) (hk : k ≤ 308) {x : Binary64} (hx : x.magnitude ≤ 1 / 10 ^ 252) :
      ∃ y, x.div? (powerOfTen k) = some y ∧ y.magnitude ≤ 1 / 10 ^ 252 := by
    obtain ⟨y, hy, -, hle⟩ := div?_powerOfTen hpos hk (hx.trans (by norm_num))
    exact ⟨y, hy, by linarith⟩
  induction hn : (-e).toNat using Nat.strong_induction_on generalizing x e with
  | _ n ih =>
    by_cases hzero : x.rank = 0
    · exact ⟨x, scale?_of_zero hzero, hx⟩
    rcases le_or_gt (-308) e with hle | hlt
    · obtain ⟨y, hy, hsmall⟩ := hdivide (k := (-e).toNat) (by omega) (by omega) hx
      exact ⟨y, (scale?_of_neg hzero he hle).trans hy, hsmall⟩
    · obtain ⟨y, hy, hsmall⟩ := hdivide (k := 308) (by omega) le_rfl hx
      obtain ⟨z, hz, hsmall⟩ := ih _ (by omega) (e := e + 308) (by omega) hsmall rfl
      exact ⟨z, by rw [scale?_of_small hzero hlt, hy, Option.bind_some, hz], hsmall⟩

section

variable {e : ℤ} (hx : ofNat? n = some x)
include hx

theorem ofNat?_near : |x.magnitude - n| ≤ n / 2 ^ 53 := by
  rw [magnitude_eq, (ofRatio?_rank hx).2]
  exact rankValue_nearestRank_one_near n

theorem rank_ne_zero (hpos : 0 < n) : x.rank ≠ 0 := by
  rw [Ne, ← magnitude_eq_zero]
  intro hzero
  have hnear := (abs_le.1 (ofNat?_near hx)).1
  have hone : (1 : ℚ) ≤ n := by exact_mod_cast hpos
  rw [hzero] at hnear
  linarith

theorem rank_eq_zero (hzero : n = 0) : x.rank = 0 := by
  rw [(ofRatio?_rank hx).2, hzero]
  rfl

theorem scale?_exact (hexact : x.magnitude = n) (hpos : 0 < n) (hlow : -22 ≤ e) (hhigh : e ≤ 22)
    (hy : scale? x e = some y) : y.rank = nearestRank (n * 10 ^ e.toNat) (10 ^ (-e).toNat) := by
  have hne := rank_ne_zero hx hpos
  rcases le_or_gt 0 e with he | he
  · rw [scale?_of_nonneg hne he (by omega)] at hy
    have hden : (-e).toNat = 0 := by omega
    rw [mul?_rank hy]
    refine nearestRank_congr (Nat.mul_pos (ratio_den_pos _) (ratio_den_pos _)) (by positivity) ?_
    rw [mul_ratio, hexact, powerOfTen_exact (by omega), hden]
    push_cast
    rw [div_one]
  · have hten := two_le_powerOfTen (k := (-e).toNat) (by omega) (by omega)
    rw [scale?_of_neg hne he (by omega)] at hy
    have hnum : e.toNat = 0 := by omega
    rw [div?_rank hy]
    refine nearestRank_congr (Nat.mul_pos (ratio_den_pos _) (ratio_num_pos (two_pos.trans_le hten))) (by positivity) ?_
    rw [div_ratio, hexact, powerOfTen_exact (by omega), hnum]
    push_cast
    rw [mul_one]

variable (hn : n < 2 ^ 64)
include hn

theorem magnitude_le : x.magnitude ≤ 2 ^ 65 := by
  have hlt : (n : ℚ) < 2 ^ 64 := by exact_mod_cast hn
  linarith [(abs_le.1 (ofNat?_near hx)).2]

theorem div?_small : ∃ y, x.div? (powerOfTen 308) = some y ∧ y.magnitude ≤ 1 / 10 ^ 252 := by
  obtain ⟨y, hy, hclose, -⟩ := div?_powerOfTen (k := 308) (by decide) le_rfl (magnitude_le hx hn)
  have htiny := tiny_lt (by decide : 253 ≤ 320)
  have hpow : (10 : ℚ) ^ 308 = 10 ^ 253 * 10 ^ 55 := by rw [← pow_add]
  have hlarge : (10 : ℚ) ^ 253 * 10 ^ 54 ≤ (powerOfTen 308).magnitude := by
    have := (abs_le.1 (powerOfTen_near (le_refl 308))).1
    rw [hpow] at this
    linarith
  have hquotient : x.magnitude / (powerOfTen 308).magnitude ≤ 1 / 10 ^ 253 := by
    rw [div_le_div_iff₀ (lt_of_lt_of_le (by positivity) hlarge) (by positivity)]
    linarith [magnitude_le hx hn]
  exact ⟨y, hy, by linarith [(abs_le.1 hclose).2]⟩

omit hx in
theorem mul_zpow_small (he : e < -308) : (n : ℚ) * 10 ^ e ≤ 1 / 10 ^ 252 := by
  have hlt : (n : ℚ) < 2 ^ 64 := by exact_mod_cast hn
  have hpow : (10 : ℚ) ^ e ≤ 1 / 10 ^ 252 * (1 / 10 ^ 20) := by
    calc (10 : ℚ) ^ e ≤ 10 ^ (-252 + -20 : ℤ) := zpow_le_zpow_right₀ (by norm_num) (by omega)
      _ = 1 / 10 ^ 252 * (1 / 10 ^ 20) := by
        rw [zpow_add₀ (by norm_num), zpow_neg, zpow_neg, one_div, one_div]
        rfl
  calc (n : ℚ) * 10 ^ e ≤ 2 ^ 64 * (1 / 10 ^ 252 * (1 / 10 ^ 20)) := by gcongr
    _ ≤ 1 / 10 ^ 252 := by linarith [(by positivity : (0 : ℚ) < 1 / 10 ^ 252)]

theorem scale?_near (hy : scale? x e = some y) :
    |y.magnitude - n * 10 ^ e| ≤ n * 10 ^ e * (3001 / 1000) / 2 ^ 53 + 1 / 10 ^ 250 := by
  have hnear := ofNat?_near hx
  rcases Nat.eq_zero_or_pos n with hzero | hpos
  · have hrank := rank_eq_zero hx hzero
    rw [scale?_of_zero hrank] at hy
    cases hy
    rw [magnitude_eq_zero.2 hrank, hzero]
    simp
  have hne := rank_ne_zero hx hpos
  rcases lt_or_ge 308 e with hlarge | hlarge
  · rw [scale?_of_large hne hlarge] at hy
    cases hy
  rcases le_or_gt 0 e with he | he
  · rw [scale?_of_nonneg hne he hlarge] at hy
    have hpow : (10 : ℚ) ^ e = 10 ^ e.toNat := by rw [← zpow_natCast, Int.toNat_of_nonneg he]
    rw [hpow]
    exact near_product (Nat.cast_nonneg n) (by positivity) hnear (powerOfTen_near (by omega)) (mul?_close hy)
  have hpow : (n : ℚ) * 10 ^ e = n / 10 ^ (-e).toNat := by
    rw [← zpow_natCast, Int.toNat_of_nonneg (by omega), zpow_neg, div_inv_eq_mul]
  rcases le_or_gt (-308) e with hle | hlt
  · rw [scale?_of_neg hne he hle] at hy
    have hten := two_le_powerOfTen (k := (-e).toNat) (by omega) (by omega)
    rw [hpow]
    exact near_quotient (Nat.cast_nonneg n) (by positivity) hnear (powerOfTen_near (by omega))
      (div?_close (two_pos.trans_le hten) hy)
  · obtain ⟨z, hz, hsmall⟩ := div?_small hx hn
    obtain ⟨y', hy', hle⟩ := scale?_small (e := e + 308) (by omega) hsmall
    rw [scale?_of_small hne hlt, hz, Option.bind_some, hy'] at hy
    cases hy
    have hvalue := mul_zpow_small hn hlt
    have hnonneg : 0 ≤ (n : ℚ) * 10 ^ e := by positivity
    have hmagnitude := magnitude_nonneg y
    have hten : (1 : ℚ) / 10 ^ 250 = 1 / 10 ^ 252 * 100 := by norm_num
    rw [abs_le, hten]
    constructor <;> linarith

theorem lt_of_scale?_eq_none (hnone : scale? x e = none) : 2 ^ 32 < (n : ℚ) * 10 ^ e := by
  have hnear := ofNat?_near hx
  rcases Nat.eq_zero_or_pos n with hzero | hpos
  · rw [scale?_of_zero (rank_eq_zero hx hzero)] at hnone
    cases hnone
  have hne := rank_ne_zero hx hpos
  have hone : (1 : ℚ) ≤ n := by exact_mod_cast hpos
  rcases lt_or_ge 308 e with hlarge | hlarge
  · have hpow : (10 : ℚ) ^ (10 : ℤ) ≤ 10 ^ e := zpow_le_zpow_right₀ (by norm_num) (by omega)
    have hten : (10 : ℚ) ^ (10 : ℤ) = 10 ^ 10 := rfl
    rw [hten] at hpow
    nlinarith
  rcases le_or_gt 0 e with he | he
  · rw [scale?_of_nonneg hne he hlarge] at hnone
    have hpow : (10 : ℚ) ^ e = 10 ^ e.toNat := by rw [← zpow_natCast, Int.toNat_of_nonneg he]
    have hoverflow := lt_of_mul?_eq_none hnone
    have hproduct := product_le (Nat.cast_nonneg n) (by positivity) hnear (powerOfTen_near (k := e.toNat) (by omega))
    rw [hpow]
    linarith
  rcases le_or_gt (-308) e with hle | hlt
  · obtain ⟨z, hz, -⟩ := div?_powerOfTen (k := (-e).toNat) (by omega) (by omega) (magnitude_le hx hn)
    rw [scale?_of_neg hne he hle, hz] at hnone
    cases hnone
  · obtain ⟨z, hz, hsmall⟩ := div?_small hx hn
    obtain ⟨y', hy', -⟩ := scale?_small (e := e + 308) (by omega) hsmall
    rw [scale?_of_small hne hlt, hz, Option.bind_some, hy'] at hnone
    cases hnone

end

end Decimal

end ServiceCatalog
