import ServiceCatalog.Proofs.Decimal.Scaling
import ServiceCatalog.Proofs.Entity.Tolerance

/-!
Decimals of at most fifteen digits, read as versions. The tenfold of such a decimal keeps a distance from the points at
which the tolerance ends that is greater than all rounding errors, unless it is one of these points.
-/

namespace ServiceCatalog

def IsShort (q : ℚ) : Prop := ∃ (d : ℕ) (k : ℤ), d < 10 ^ 15 ∧ q = d * 10 ^ k

theorem IsShort.tenfold {q : ℚ} (hq : IsShort q) :
    (∃ b : ℕ, 10 * q = b / 10 ^ 5) ∨ ∃ d p : ℕ, 6 ≤ p ∧ d < 10 ^ 15 ∧ 10 * q = d / 10 ^ p := by
  obtain ⟨d, k, hd, rfl⟩ := hq
  have hten : (10 : ℚ) * (d * 10 ^ k) = d * 10 ^ (k + 1) := by
    rw [zpow_add_one₀ (by norm_num)]
    ring
  rcases le_or_gt (-5) (k + 1) with h | h
  · left
    refine ⟨d * 10 ^ (k + 6).toNat, ?_⟩
    have hexp : ((k + 6).toNat : ℤ) = k + 1 + 5 := by omega
    rw [hten, eq_div_iff (by positivity)]
    push_cast
    rw [← zpow_natCast (10 : ℚ) (k + 6).toNat, hexp, zpow_add₀ (by norm_num) (k + 1) 5, mul_assoc]
    rfl
  · right
    refine ⟨d, (-(k + 1)).toNat, by omega, hd, ?_⟩
    have hexp : ((-(k + 1)).toNat : ℤ) = -(k + 1) := by omega
    rw [hten, div_eq_mul_inv, ← zpow_natCast, hexp, zpow_neg, inv_inv]

namespace Version

open Binary64

/-- A number that a magnitude is read as. It may have been rounded three times, but a number of tenths so few times that
the errors stay below the tolerance, and zero not at all. -/
structure Reads (q : ℚ) (x : Binary64) : Prop where
  zero : q = 0 → x.magnitude = 0
  near : |x.magnitude - q| ≤ q * (3001 / 1000) / 2 ^ 53 + 1 / 10 ^ 250
  tenths : ∀ t : ℕ, 10 * q = t → t < 2 ^ 32 → x.magnitude ≤ 4294967295 / 10 ∧
    |10 * x.magnitude - t| + (10 * x.magnitude / 2 ^ 53 + tiny) ≤ 1 / 10 ^ 6

variable {q : ℚ} {x : Binary64} {v : Version}

theorem Reads.near_coarse (h : Reads q x) : |x.magnitude - q| ≤ q * (3001 / 1000) / 2 ^ 53 + 1 / 10 ^ 40 := by
  refine h.near.trans ?_
  gcongr <;> norm_num

theorem grid_distance (d t p : ℕ) : |(d : ℚ) / 10 ^ p - t| = ((|(d : ℤ) - t * 10 ^ p| : ℤ) : ℚ) / 10 ^ p := by
  have hpos : (0 : ℚ) < 10 ^ p := by positivity
  have hsplit : (d : ℚ) / 10 ^ p - t = (d - t * 10 ^ p) / 10 ^ p := by
    rw [sub_div, mul_div_cancel_right₀ _ hpos.ne']
  rw [hsplit, abs_div, abs_of_pos hpos]
  push_cast
  rfl

theorem coarse_gap (b t : ℕ) : (b : ℚ) / 10 ^ 5 = t ∨ 1 / 10 ^ 5 ≤ |(b : ℚ) / 10 ^ 5 - t| := by
  rcases eq_or_ne ((b : ℤ) - t * 10 ^ 5) 0 with h | h
  · left
    rw [← sub_eq_zero, ← abs_eq_zero, grid_distance, h]
    norm_num
  · right
    rw [grid_distance]
    gcongr
    exact_mod_cast Int.one_le_abs h

theorem fine_gap (d t : ℕ) {p : ℕ} (hp : 6 ≤ p) :
    |(d : ℚ) / 10 ^ p - t| ≤ 1 / 10 ^ 6 - 1 / 10 ^ p ∨ |(d : ℚ) / 10 ^ p - t| = 1 / 10 ^ 6 ∨
      1 / 10 ^ 6 + 1 / 10 ^ p ≤ |(d : ℚ) / 10 ^ p - t| := by
  have hgrid : (1 : ℚ) / 10 ^ 6 = ((10 ^ (p - 6) : ℤ) : ℚ) / 10 ^ p := by
    have hpow : (10 : ℚ) ^ p = 10 ^ (p - 6) * 10 ^ 6 := by rw [← pow_add, Nat.sub_add_cancel hp]
    rw [hpow]
    push_cast
    rw [div_mul_eq_div_div, div_self (by positivity)]
  rw [grid_distance, hgrid, ← sub_div, ← add_div]
  rcases lt_trichotomy |(d : ℤ) - t * 10 ^ p| (10 ^ (p - 6)) with h | h | h
  · left
    gcongr
    exact_mod_cast Int.le_sub_one_of_lt h
  · right
    left
    rw [h]
  · right
    right
    gcongr
    exact_mod_cast h

theorem eq_zero_of_near {r : ℚ} {t : ℕ} (hr : r < 1 / 2) (h : |r - t| ≤ 1 / 2) : t = 0 := by
  have hlt : (t : ℚ) < 1 := by linarith [(abs_le.1 h).1]
  exact Nat.lt_one_iff.1 (by exact_mod_cast hlt)

/-- Where a short decimal may lie beside a whole number of tenths. On a fine grid it lies on the end of the tolerance or
a step of the grid away from it, unless the grid is so fine that the decimal itself is far below the tolerance. -/
theorem distance_of_isShort (hq : IsShort q) (t : ℕ) :
    10 * q = t ∨ 1 / 10 ^ 5 ≤ |10 * q - t| ∨ 10 * q < 1 / 10 ^ 7 ∨
      ∃ step, 1 / 10 ^ 21 ≤ step ∧ step ≤ 1 / 10 ^ 6 ∧ 10 * q < 10 ^ 15 * step ∧
        (|10 * q - t| ≤ 1 / 10 ^ 6 - step ∨ |10 * q - t| = 1 / 10 ^ 6 ∨ 1 / 10 ^ 6 + step ≤ |10 * q - t|) := by
  rcases hq.tenfold with ⟨b, hb⟩ | ⟨d, p, hp, hd, hdp⟩
  · rw [hb]
    exact (coarse_gap b t).imp_right .inl
  · have hd' : (d : ℚ) < 10 ^ 15 := by exact_mod_cast hd
    have hbelow : 10 * q < 10 ^ 15 * (1 / 10 ^ p) := by
      rw [hdp, mul_one_div]
      gcongr
    rcases le_or_gt p 21 with hfew | hmany
    · have hleast : (1 : ℚ) / 10 ^ 21 ≤ 1 / 10 ^ p := by
        gcongr
        norm_num
      have hgreatest : (1 : ℚ) / 10 ^ p ≤ 1 / 10 ^ 6 := by
        gcongr
        norm_num
      have hfine := fine_gap d t hp
      rw [← hdp] at hfine
      exact .inr (.inr (.inr ⟨1 / 10 ^ p, hleast, hgreatest, hbelow, hfine⟩))
    · have hsmall : (1 : ℚ) / 10 ^ p ≤ 1 / 10 ^ 22 := by
        gcongr
        · norm_num
        · omega
      exact .inr (.inr (.inl (by linarith)))

theorem Reads.sound (h : Reads q x) (hq : IsShort q) (hnonneg : 0 ≤ q) (hv : ofNumber? x = some v) :
    |10 * q - v.tenths.toNat| ≤ 1 / 10 ^ 6 := by
  obtain ⟨-, hlarge, hnear⟩ := ofNumber?_sound hv
  obtain ⟨hlow, hhigh⟩ := abs_le.1 h.near_coarse
  have htiny := tiny_lt (by decide : 40 ≤ 320)
  have hslack : |10 * q - v.tenths.toNat| ≤
      1 / 10 ^ 6 + 1 / (2 * 10 ^ 21) + (10 * q * (4002 / 1000) / 2 ^ 53 + 1 / 10 ^ 38) := by
    rw [abs_le] at hnear ⊢
    constructor <;> linarith
  rcases distance_of_isShort hq v.tenths.toNat with
    heq | hgap | hsmall | ⟨step, hleast, -, hbelow, hle | heq | hge⟩
  · rw [heq, sub_self, abs_zero]
    positivity
  · linarith
  · have hzero : v.tenths.toNat = 0 := eq_zero_of_near (r := 10 * q) (by linarith) (by linarith)
    rw [hzero, Nat.cast_zero, sub_zero, abs_of_nonneg (by linarith)]
    linarith
  · linarith
  · exact heq.le
  · linarith

theorem Reads.complete (h : Reads q x) (hq : IsShort q) (hnonneg : 0 ≤ q)
    (hsign : x.negative = true → x.magnitude = 0) (hv : |10 * q - v.tenths.toNat| < 1 / 10 ^ 6) :
    ofNumber? x = some v := by
  obtain ⟨hlow, hhigh⟩ := abs_le.1 h.near_coarse
  have htiny := tiny_lt (by decide : 40 ≤ 320)
  rcases distance_of_isShort hq v.tenths.toNat with
    heq | hgap | hsmall | ⟨step, hleast, hgreatest, hbelow, hle | heq | hge⟩
  · obtain ⟨hlarge, hnear⟩ := h.tenths _ heq v.tenths.toNat_lt
    exact ofNumber?_complete hsign hlarge hnear
  · linarith
  · have hzero : v.tenths.toNat = 0 := eq_zero_of_near (r := 10 * q) (by linarith) (by linarith)
    refine ofNumber?_complete hsign (by linarith) ?_
    rw [hzero, Nat.cast_zero, sub_zero, abs_of_nonneg (by linarith [magnitude_nonneg x])]
    linarith
  · have hslack : |10 * x.magnitude - v.tenths.toNat| ≤
        1 / 10 ^ 6 - step + (10 * q * (3001 / 1000) / 2 ^ 53 + 1 / 10 ^ 39) := by
      rw [abs_le] at hle ⊢
      constructor <;> linarith
    exact ofNumber?_complete hsign (by linarith) (by linarith)
  · linarith
  · linarith

theorem Reads.negative (h : Reads q x) (hv : ofNumber? x = some v) (hsign : x.negative = true) : q < 1 / 10 ^ 249 := by
  obtain ⟨hzero, -⟩ := ofNumber?_sound hv
  have hnear := (abs_le.1 h.near).1
  rw [hzero hsign] at hnear
  have : (0 : ℚ) < 1 / 10 ^ 250 := by positivity
  have hten : (1 : ℚ) / 10 ^ 249 = 10 * (1 / 10 ^ 250) := by norm_num
  rw [hten]
  linarith

theorem reads_of_rank {num den : ℕ} (hden : 0 < den) (hx : x.rank = nearestRank num den) : Reads (num / den) x := by
  have hclose := magnitude_close hx hden
  have hpos := magnitude_nonneg x
  have hnonneg : (0 : ℚ) ≤ num / den := by positivity
  have htiny := tiny_lt (by decide : 250 ≤ 320)
  refine ⟨fun hzero => ?_, hclose.trans (by linarith), fun t ht hsmall => ?_⟩
  · have hd : (den : ℚ) ≠ 0 := by exact_mod_cast hden.ne'
    have hnum : num = 0 := by simpa [hd] using hzero
    rw [magnitude_eq_zero, hx, hnum]
    rfl
  have htop : (t : ℚ) ≤ 4294967295 := by exact_mod_cast Nat.le_sub_one_of_lt hsmall
  have hlarge : x.magnitude ≤ 4294967295 / 10 := by
    rw [← magnitude_greatest, magnitude_le_iff, hx, greatest, (toNumber_spec _).2]
    refine nearestRank_mono hden (by decide) ?_
    have hmax : (0xFFFFFFFF : UInt32).toNat = 4294967295 := rfl
    rw [hmax]
    push_cast
    linarith
  have htiny := tiny_lt (by decide : 40 ≤ 320)
  have hdistance : |10 * x.magnitude - t| ≤ t / 2 ^ 53 + 10 * tiny := by
    rw [abs_le] at hclose ⊢
    constructor <;> linarith
  exact ⟨hlarge, by linarith⟩

theorem tenths_of_near (hnear : |x.magnitude - q| ≤ q * (3001 / 1000) / 2 ^ 53 + 1 / 10 ^ 250)
    (hsmall : 10 * q ≤ 1850000000) {t : ℕ} (ht : 10 * q = t) : x.magnitude ≤ 4294967295 / 10 ∧
      |10 * x.magnitude - t| + (10 * x.magnitude / 2 ^ 53 + tiny) ≤ 1 / 10 ^ 6 := by
  have htiny := tiny_lt (by decide : 40 ≤ 320)
  have hcoarse : |x.magnitude - q| ≤ q * (3001 / 1000) / 2 ^ 53 + 1 / 10 ^ 40 := hnear.trans (by gcongr <;> norm_num)
  have hdistance : |10 * x.magnitude - t| ≤ 10 * q * (3001 / 1000) / 2 ^ 53 + 1 / 10 ^ 39 := by
    rw [abs_le] at hcoarse ⊢
    constructor <;> linarith
  have hhigh := (abs_le.1 hcoarse).2
  exact ⟨by linarith, by linarith⟩

theorem reads_of_rank_eq_zero (hq : 0 ≤ q) (hsmall : q ≤ 1 / 10 ^ 250) (hx : x.rank = 0) : Reads q x := by
  have hzero := magnitude_eq_zero.2 hx
  have hnear : |x.magnitude - q| ≤ q * (3001 / 1000) / 2 ^ 53 + 1 / 10 ^ 250 := by
    rw [hzero, zero_sub, abs_neg, abs_of_nonneg hq]
    have : 0 ≤ q * (3001 / 1000) / 2 ^ 53 := by positivity
    linarith
  have hone : (1 : ℚ) / 10 ^ 250 ≤ 1 := by norm_num
  exact ⟨fun _ => hzero, hnear, fun t ht _ => tenths_of_near hnear (by linarith) ht⟩

section

variable {n : ℕ} {e : ℤ} {y : Binary64} (hx : ofNat? n = some x) (hy : Decimal.scale? x e = some y)
include hx hy

theorem reads_of_scale?_exact (hexact : x.magnitude = n) (hpos : 0 < n) (hlow : -22 ≤ e) (hhigh : e ≤ 22) :
    Reads (n * 10 ^ e) y := by
  have hreads := reads_of_rank (by positivity) (Decimal.scale?_exact hx hexact hpos hlow hhigh hy)
  have hvalue : ((n * 10 ^ e.toNat : ℕ) : ℚ) / (10 ^ (-e).toNat : ℕ) = n * 10 ^ e := by
    rw [Decimal.ten_zpow]
    push_cast
    rw [mul_div_assoc]
  rwa [hvalue] at hreads

theorem reads_of_scale? (hn : n < 2 ^ 64) : Reads (n * 10 ^ e) y := by
  have hnear := Decimal.scale?_near hx hn hy
  rcases Nat.eq_zero_or_pos n with rfl | hpos
  · have hrank := Decimal.rank_eq_zero hx rfl
    rw [Decimal.scale?_of_zero hrank] at hy
    cases hy
    exact reads_of_rank_eq_zero (by simp) (by simp) hrank
  have hne : (n : ℚ) * 10 ^ e ≠ 0 := by positivity
  refine ⟨fun h => absurd h hne, hnear, fun t ht hsmall => ?_⟩
  -- a number of tenths below `2 ^ 32` leaves few digits for the natural, or zeros at its end
  rcases le_or_gt 0 e with he | he
  · obtain ⟨k, rfl⟩ := Int.eq_ofNat_of_zero_le he
    have hnat : n * 10 ^ (k + 1) = t := by
      rw [zpow_natCast, mul_left_comm, ← pow_succ'] at ht
      exact_mod_cast ht
    have hfew : n < 2 ^ 53 := by
      have := Nat.le_mul_of_pos_right n (show 0 < 10 ^ (k + 1) by positivity)
      omega
    have hpower : 10 ^ (k + 1) < 10 ^ 10 := by
      have := Nat.le_mul_of_pos_left (10 ^ (k + 1)) hpos
      omega
    have hk := (Nat.pow_lt_pow_iff_right (by decide : 1 < 10)).1 hpower
    exact (reads_of_scale?_exact hx hy (magnitude_ofNat? hfew hx) hpos (by omega) (by omega)).tenths t ht hsmall
  · obtain ⟨j, rfl⟩ : ∃ j : ℕ, e = -(j + 1) := ⟨(-e - 1).toNat, by omega⟩
    have hnat : n = t * 10 ^ j := by
      have hten : (10 : ℚ) * (n * 10 ^ (-((j : ℤ) + 1))) = n / 10 ^ j := by
        rw [zpow_neg, zpow_add_one₀ (by norm_num), zpow_natCast]
        field_simp
      rw [hten, div_eq_iff (by positivity)] at ht
      exact_mod_cast ht
    rcases le_or_gt j 9 with hj | hj
    · have hfew : t * 5 ^ j < 2 ^ 53 := by
        have : t * 5 ^ j ≤ t * 5 ^ 9 := Nat.mul_le_mul_left t (Nat.pow_le_pow_right (by decide) hj)
        omega
      have hshift : n = t * 5 ^ j * 2 ^ j := by
        rw [hnat, Nat.mul_assoc, ← Nat.mul_pow]
      have hexact : x.magnitude = n := by
        rw [hshift] at hx
        rw [magnitude_ofNat?_shift hfew hx, ← hshift]
      exact (reads_of_scale?_exact hx hy hexact hpos (by omega) (by omega)).tenths t ht hsmall
    · refine tenths_of_near hnear ?_ ht
      have hle : t * 10 ^ 10 ≤ n := by
        rw [hnat]
        exact Nat.mul_le_mul_left t (Nat.pow_le_pow_right (by decide) hj)
      have : t < 1850000000 := by omega
      rw [ht]
      exact_mod_cast this.le

end

end Version

end ServiceCatalog
