import ServiceCatalog.Proofs.Decimal.Error
import ServiceCatalog.Proofs.Entity.Version

/-!
Which binary numbers are taken for a version: those whose tenfold is nearly a natural, where the tenfold and the
distance are rounded. What is taken for a version is near to it, and what is a little nearer is taken for it.
-/

namespace ServiceCatalog

namespace Version

open Binary64

variable {x : Binary64} {v : Version}

theorem ofNumber?_eq_some_iff :
    ofNumber? x = some v ↔ (x.negative = true → x.rank = 0) ∧ x.rank ≤ greatest.rank ∧
      ∃ scaled y, x.mul? (Decimal.powerOfTen 1) = some scaled ∧
        ofNat? (roundHalfUp scaled.ratio.1 scaled.ratio.2) = some y ∧ apart scaled y = false ∧
        v = ⟨UInt32.ofNat (roundHalfUp scaled.ratio.1 scaled.ratio.2)⟩ := by
  have hsign : (x.negative && !x.isZero) = true ↔ ¬ (x.negative = true → x.rank = 0) := by
    simp [isZero]
  simp only [ofNumber?, hsign]
  by_cases hzero : x.negative = true → x.rank = 0
  · by_cases hlarge : greatest.rank < x.rank
    · simp [hlarge]
    · simp [not_lt.1 hlarge, hlarge, Option.bind_eq_some_iff, eq_comm (a := v)]
  · simp [hzero]

theorem magnitude_greatest : greatest.magnitude = 4294967295 / 10 := by
  have hmantissa : greatest.mantissa = 7205759402115072 := by decide +kernel
  have hexponent : greatest.exponent = -24 := by decide +kernel
  rw [magnitude, hmantissa, hexponent]
  norm_num

theorem roundHalfUp_near (num : ℕ) {den : ℕ} (hden : 0 < den) : |(num : ℚ) / den - roundHalfUp num den| ≤ 1 / 2 := by
  have hd : (0 : ℚ) < den := by exact_mod_cast hden
  have hdiv := Nat.div_add_mod (2 * num + den) (2 * den)
  have hmod := Nat.mod_lt (2 * num + den) (Nat.mul_pos two_pos hden)
  have hlow : ((2 * den * roundHalfUp num den : ℕ) : ℚ) ≤ (2 * num + den : ℕ) := by
    rw [roundHalfUp]
    exact_mod_cast (by omega)
  have hhigh : ((2 * num + den : ℕ) : ℚ) ≤ (2 * den * roundHalfUp num den + 2 * den : ℕ) := by
    rw [roundHalfUp]
    exact_mod_cast (by omega)
  push_cast at hlow hhigh
  rw [abs_le, neg_le_sub_iff_le_add, sub_le_iff_le_add', ← sub_le_iff_le_add, le_div_iff₀ hd, div_le_iff₀ hd]
  constructor <;> linarith

theorem near_of_apart {x y : Binary64} (h : apart x y = false) :
    |x.magnitude - y.magnitude| ≤ 1 / 10 ^ 6 + 1 / (2 * 10 ^ 21) := by
  have hden := Nat.mul_pos (ratio_den_pos x) (ratio_den_pos y)
  simp only [apart, rank_millionth, decide_eq_false_iff_not, not_lt] at h
  have hle := rankValue_strictMono.monotone h
  have hleft := nearestRank_close
    (x.ratio.1 * y.ratio.2 - y.ratio.1 * x.ratio.2 + (y.ratio.1 * x.ratio.2 - x.ratio.1 * y.ratio.2)) hden
  have hright := nearestRank_close 1 (by decide : 0 < 1000000)
  have htiny := tiny_lt (by decide : 40 ≤ 320)
  rw [distance_ratio, abs_le] at hleft
  rw [abs_le] at hright
  norm_num at hright hleft ⊢
  linarith

theorem ofNumber?_sound (h : ofNumber? x = some v) :
    (x.negative = true → x.magnitude = 0) ∧ x.magnitude ≤ 4294967295 / 10 ∧
      |10 * x.magnitude - v.tenths.toNat| ≤
        1 / 10 ^ 6 + 1 / (2 * 10 ^ 21) + (10 * x.magnitude / 2 ^ 53 + tiny) := by
  obtain ⟨hsign, hgreatest, scaled, y, hscaled, hy, hnear, rfl⟩ := ofNumber?_eq_some_iff.1 h
  rw [← magnitude_le_iff, magnitude_greatest] at hgreatest
  have hclose := mul?_close hscaled
  rw [magnitude_powerOfTen_one, mul_comm] at hclose
  have hround := roundHalfUp_near scaled.ratio.1 (ratio_den_pos scaled)
  have hapart := near_of_apart hnear
  rw [ratio_eq] at hround
  set t := roundHalfUp scaled.ratio.1 scaled.ratio.2
  have hscaled_le : scaled.magnitude ≤ 4294967295 + 1 / 10 := by
    have := (abs_le.1 hclose).2
    have := tiny_lt (by decide : 40 ≤ 320)
    linarith
  have hsmall : t < 2 ^ 32 := by
    have hlt : (t : ℚ) < 4294967296 := by linarith [(abs_le.1 hround).1]
    exact_mod_cast hlt
  have hexact : y.magnitude = t := magnitude_ofNat? (hsmall.trans (by decide)) hy
  have ht : (UInt32.ofNat t).toNat = t := UInt32.toNat_ofNat_of_lt' hsmall
  refine ⟨fun h => magnitude_eq_zero.2 (hsign h), hgreatest, ?_⟩
  rw [ht]
  rw [hexact] at hapart
  rw [abs_le] at hclose hapart ⊢
  constructor <;> linarith

theorem ofNumber?_complete (hsign : x.negative = true → x.magnitude = 0) (hlarge : x.magnitude ≤ 4294967295 / 10)
    (hnear : |10 * x.magnitude - v.tenths.toNat| + (10 * x.magnitude / 2 ^ 53 + tiny) ≤ 1 / 10 ^ 6) :
    ofNumber? x = some v := by
  have hten := magnitude_powerOfTen_one
  obtain ⟨scaled, hscaled, -, -⟩ := mul?_eq_some (x := x) (y := Decimal.powerOfTen 1) (by
    rw [hten]
    linarith)
  have hclose := mul?_close hscaled
  rw [hten, mul_comm] at hclose
  have htenths : |scaled.magnitude - v.tenths.toNat| ≤ 1 / 1000000 := by
    rw [abs_le] at hclose ⊢
    have := abs_le.1 (le_refl |10 * x.magnitude - v.tenths.toNat|)
    constructor <;> linarith
  have hround : roundHalfUp scaled.ratio.1 scaled.ratio.2 = v.tenths.toNat := by
    refine roundHalfUp_eq (ratio_den_pos _) ?_
    rw [ratio_eq]
    exact htenths.trans_lt (by norm_num)
  have hsmall : (v.tenths.toNat : ℚ) < 2 ^ 32 := by exact_mod_cast v.tenths.toNat_lt
  obtain ⟨y, hy, -, -⟩ := ofRatio?_eq_some false v.tenths.toNat Nat.one_pos (by
    rw [Nat.cast_one, div_one]
    linarith)
  have hexact := magnitude_ofNat? (v.tenths.toNat_lt.trans (by decide)) hy
  rw [ofNumber?_eq_some_iff, ← magnitude_le_iff, magnitude_greatest]
  refine ⟨fun h => magnitude_eq_zero.1 (hsign h), hlarge, scaled, y, hscaled, ?_, apart_eq_false (hexact ▸ htenths), ?_⟩
  · rw [hround]
    exact hy
  · rw [hround, UInt32.ofNat_toNat]

end Version

end ServiceCatalog
