import ServiceCatalog.Entity.Version
import ServiceCatalog.Proofs.Decimal.Rounding
import ServiceCatalog.Proofs.Wire.Lawful

namespace ServiceCatalog

namespace Binary64

theorem near_of_rank {x : Binary64} {num den : ℕ} (hx : x.rank = nearestRank num den) (hden : 0 < den)
    (hsize : (1 : ℚ) / 16 ≤ num / den) : |x.magnitude - num / den| ≤ num / den / 2 ^ 53 := by
  have hnum : 0 < num := by
    rw [Nat.pos_iff_ne_zero]
    rintro rfl
    norm_num at hsize
  have hsmall : (2 : ℚ) ^ (-1022 : ℤ) ≤ num / den := by
    calc (2 : ℚ) ^ (-1022 : ℤ) ≤ 2 ^ (-4 : ℤ) := zpow_le_zpow_right₀ one_le_two (by norm_num)
      _ = 1 / 16 := by norm_num
      _ ≤ num / den := hsize
  rw [magnitude_eq, hx]
  exact nearestRank_near hnum hden hsmall

theorem magnitude_powerOfTen_one : (Decimal.powerOfTen 1).magnitude = 10 := by
  have hmantissa : (Decimal.powerOfTen 1).mantissa = 5629499534213120 := by decide +kernel
  have hexponent : (Decimal.powerOfTen 1).exponent = -49 := by decide +kernel
  rw [magnitude, hmantissa, hexponent]
  norm_num

end Binary64

namespace Version

open Binary64

theorem roundHalfUp_eq {num den t : ℕ} (hden : 0 < den) (h : |(num : ℚ) / den - t| < 1 / 2) :
    roundHalfUp num den = t := by
  have hd : (0 : ℚ) < den := by exact_mod_cast hden
  obtain ⟨hlow, hhigh⟩ := abs_lt.1 h
  have hlow' : (t : ℚ) * (2 * den) ≤ 2 * num + den := by
    have : (t : ℚ) - 1 / 2 ≤ num / den := by linarith
    rw [le_div_iff₀ hd] at this
    linarith
  have hhigh' : 2 * (num : ℚ) + den < (t + 1) * (2 * den) := by
    have : (num : ℚ) / den < t + 1 / 2 := by linarith
    rw [div_lt_iff₀ hd] at this
    linarith
  rw [roundHalfUp]
  exact Nat.div_eq_of_lt_le (by exact_mod_cast hlow') (by exact_mod_cast hhigh')

theorem cast_distance (a b : ℕ) : ((a - b + (b - a) : ℕ) : ℚ) = |(a : ℚ) - b| := by
  rcases le_total a b with h | h
  · have hq : (a : ℚ) ≤ b := by exact_mod_cast h
    rw [Nat.sub_eq_zero_of_le h, Nat.zero_add, Nat.cast_sub h, abs_of_nonpos (sub_nonpos.2 hq), neg_sub]
  · have hq : (b : ℚ) ≤ a := by exact_mod_cast h
    rw [Nat.sub_eq_zero_of_le h, Nat.add_zero, Nat.cast_sub h, abs_of_nonneg (sub_nonneg.2 hq)]

theorem distance_ratio (x y : Binary64) :
    ((x.ratio.1 * y.ratio.2 - y.ratio.1 * x.ratio.2 + (y.ratio.1 * x.ratio.2 - x.ratio.1 * y.ratio.2) : ℕ) : ℚ)
      / (x.ratio.2 * y.ratio.2 : ℕ) = |x.magnitude - y.magnitude| := by
  have hx : (0 : ℚ) < x.ratio.2 := by exact_mod_cast ratio_den_pos x
  have hy : (0 : ℚ) < y.ratio.2 := by exact_mod_cast ratio_den_pos y
  rw [cast_distance, ← ratio_eq, ← ratio_eq, div_sub_div _ _ hx.ne' hy.ne', abs_div, abs_of_pos (mul_pos hx hy)]
  push_cast
  rw [mul_comm (x.ratio.2 : ℚ) y.ratio.1]

theorem rank_millionth : ((ofRatio? false 1 1000000).getD zero).rank = nearestRank 1 1000000 := by
  obtain ⟨m, hm, -, hrank⟩ := ofRatio?_eq_some false 1 (by decide : 0 < 1000000) (by norm_num)
  rw [hm, Option.getD_some, hrank]

theorem apart_eq_false {x y : Binary64} (h : |x.magnitude - y.magnitude| ≤ 1 / 1000000) :
    apart x y = false := by
  simp only [apart, rank_millionth, decide_eq_false_iff_not, not_lt]
  refine nearestRank_mono (Nat.mul_pos (ratio_den_pos x) (ratio_den_pos y)) (by decide) ?_
  rw [distance_ratio]
  push_cast
  exact h

theorem ofNumber?_eq_some {x scaled y : Binary64} {t : ℕ} (hsign : x.negative = false)
    (hgreatest : x.rank ≤ greatest.rank) (hscaled : x.mul? (Decimal.powerOfTen 1) = some scaled)
    (ht : roundHalfUp scaled.ratio.1 scaled.ratio.2 = t) (hy : ofNat? t = some y)
    (hnear : apart scaled y = false) : ofNumber? x = some ⟨UInt32.ofNat t⟩ := by
  simp [ofNumber?, hsign, Nat.not_lt.2 hgreatest, hscaled, ht, hy, hnear]

theorem mul?_eq_some {x y : Binary64} (h : x.magnitude * y.magnitude ≤ 2 ^ 64) :
    ∃ z, x.mul? y = some z ∧ z.rank = nearestRank (x.ratio.1 * y.ratio.1) (x.ratio.2 * y.ratio.2) ∧
      ((x.ratio.1 * y.ratio.1 : ℕ) : ℚ) / (x.ratio.2 * y.ratio.2 : ℕ) = x.magnitude * y.magnitude := by
  have hquotient :
      ((x.ratio.1 * y.ratio.1 : ℕ) : ℚ) / (x.ratio.2 * y.ratio.2 : ℕ) = x.magnitude * y.magnitude := by
    rw [← ratio_eq, ← ratio_eq, div_mul_div_comm]
    push_cast
    rfl
  obtain ⟨z, hz, -, hrank⟩ := ofRatio?_eq_some (x.negative != y.negative) _
    (Nat.mul_pos (ratio_den_pos x) (ratio_den_pos y)) (hquotient ▸ h)
  exact ⟨z, hz, hrank, hquotient⟩

theorem toNumber_spec (v : Version) :
    v.toNumber.negative = false ∧ v.toNumber.rank = nearestRank v.tenths.toNat 10 := by
  have hlt : (v.tenths.toNat : ℚ) < 2 ^ 32 := by exact_mod_cast v.tenths.toNat_lt
  have hbound : (v.tenths.toNat : ℚ) / (10 : ℕ) ≤ 2 ^ 64 := by
    push_cast
    linarith
  obtain ⟨x, hx, hsign, hrank⟩ := ofRatio?_eq_some false _ (by decide : 0 < 10) hbound
  rw [toNumber, hx]
  exact ⟨hsign, hrank⟩

theorem rank_toNumber_le (v : Version) : v.toNumber.rank ≤ greatest.rank := by
  rw [(toNumber_spec v).2, greatest, (toNumber_spec _).2]
  refine nearestRank_mono (by decide) (by decide) ?_
  have hle : (v.tenths.toNat : ℚ) ≤ (4294967295 : UInt32).toNat := by
    exact_mod_cast Nat.le_of_lt_succ v.tenths.toNat_lt
  gcongr

theorem mul?_toNumber (v : Version) (hpos : 0 < v.tenths.toNat) :
    ∃ scaled, v.toNumber.mul? (Decimal.powerOfTen 1) = some scaled ∧
      |scaled.magnitude - v.tenths.toNat| ≤ 1 / 1000000 := by
  have hone : (1 : ℚ) ≤ v.tenths.toNat := by exact_mod_cast hpos
  have hlt : (v.tenths.toNat : ℚ) < 2 ^ 32 := by exact_mod_cast v.tenths.toNat_lt
  have hten := magnitude_powerOfTen_one
  have hfirst : |v.toNumber.magnitude - v.tenths.toNat / 10| ≤ v.tenths.toNat / 10 / 2 ^ 53 := by
    have := near_of_rank (toNumber_spec v).2 (by decide) (by push_cast; linarith)
    exact_mod_cast this
  obtain ⟨hfirst₁, hfirst₂⟩ := abs_le.1 hfirst
  obtain ⟨scaled, hscaled, hrank, hquotient⟩ := mul?_eq_some (x := v.toNumber) (y := Decimal.powerOfTen 1) (by
    rw [hten]
    linarith)
  rw [hten] at hquotient
  have hsecond : |scaled.magnitude - v.toNumber.magnitude * 10| ≤ v.toNumber.magnitude * 10 / 2 ^ 53 := by
    rw [← hquotient]
    refine near_of_rank hrank (Nat.mul_pos (ratio_den_pos _) (ratio_den_pos _)) ?_
    rw [hquotient]
    linarith
  obtain ⟨hsecond₁, hsecond₂⟩ := abs_le.1 hsecond
  refine ⟨scaled, hscaled, ?_⟩
  rw [abs_le]
  constructor <;> linarith

theorem ofNumber?_toNumber (v : Version) : ofNumber? v.toNumber = some v := by
  rcases Nat.eq_zero_or_pos v.tenths.toNat with hzero | hpos
  · obtain ⟨t⟩ := v
    obtain rfl : t = 0 := UInt32.toNat_inj.1 hzero
    decide +kernel
  obtain ⟨scaled, hscaled, hnear⟩ := mul?_toNumber v hpos
  have hlt : (v.tenths.toNat : ℚ) < 2 ^ 32 := by exact_mod_cast v.tenths.toNat_lt
  have hround : roundHalfUp scaled.ratio.1 scaled.ratio.2 = v.tenths.toNat := by
    refine roundHalfUp_eq (ratio_den_pos _) ?_
    rw [ratio_eq]
    exact hnear.trans_lt (by norm_num)
  obtain ⟨y, hy, -, hrank⟩ := ofRatio?_eq_some false v.tenths.toNat Nat.one_pos (by
    push_cast
    linarith)
  have hexact : y.magnitude = v.tenths.toNat := by
    rw [magnitude_eq, hrank]
    exact rankValue_nearestRank_nat hpos (v.tenths.toNat_lt.trans (by decide))
  rw [ofNumber?_eq_some (toNumber_spec v).1 (rank_toNumber_le v) hscaled hround hy
    (apart_eq_false (hexact ▸ hnear)), UInt32.ofNat_toNat]

instance : LawfulWire Version where
  present v := by
    refine .of_leaf rfl (fun _ => rfl) rfl nofun nofun ?_
    exact ofNumber?_toNumber v

end Version

end ServiceCatalog
