import ServiceCatalog.Proofs.Decimal.Numeral
import ServiceCatalog.Proofs.Entity.Reading
import ServiceCatalog.Proofs.Json.Layout
import ServiceCatalog.Wire.Basic

namespace ServiceCatalog

namespace Numeral

open Binary64 Version

variable (n : Numeral)

def IsReading : Option Binary64 → Prop
  | some x => Reads n.magnitude x ∧ x.negative = n.negative
  | none => 2 ^ 32 < n.magnitude

theorem magnitude_lt : n.magnitude < 10 ^ (n.power10 + (Digits.ofNat n.digits).length) := by
  have hdigits : n.digits < 10 ^ (Digits.ofNat n.digits).length := by
    have hlt := @Digits.toNat_lt (Digits.ofNat n.digits) fun _ => Digits.isDigit_of_mem_ofNat
    rwa [Digits.toNat_ofNat] at hlt
  have hcast : (n.digits : ℚ) < 10 ^ (Digits.ofNat n.digits).length := by exact_mod_cast hdigits
  rw [magnitude, zpow_add₀ (by norm_num), mul_comm, zpow_natCast]
  gcongr

theorem le_magnitude (hpos : 0 < n.digits) :
    (10 : ℚ) ^ (n.power10 + (Digits.ofNat n.digits).length - 1) ≤ n.magnitude := by
  have hlength := List.length_pos_iff.2 (Digits.ofNat_ne_nil n.digits)
  have hdigits : ((10 ^ ((Digits.ofNat n.digits).length - 1) : ℕ) : ℚ) ≤ n.digits := by
    exact_mod_cast Digits.pow_length_le hpos
  have hexp : n.power10 + (Digits.ofNat n.digits).length - 1 =
      n.power10 + ((Digits.ofNat n.digits).length - 1 : ℕ) := by omega
  rw [magnitude, hexp, zpow_add₀ (by norm_num), mul_comm, zpow_natCast]
  push_cast at hdigits
  gcongr

theorem isReading_nearest? : n.IsReading (Decimal.nearest? ⟨n.negative, n.digits, n.power10⟩) := by
  have hnonneg := n.magnitude_nonneg
  simp only [Decimal.nearest?]
  split
  · next h =>
    refine ⟨reads_of_rank_eq_zero hnonneg ?_ rfl, rfl⟩
    simp only [Bool.or_eq_true, beq_iff_eq, decide_eq_true_eq] at h
    rcases h with hzero | hsmall
    · rw [magnitude, hzero]
      simp
    · refine n.magnitude_lt.le.trans ?_
      calc (10 : ℚ) ^ (n.power10 + (Digits.ofNat n.digits).length) ≤ 10 ^ (-250 : ℤ) :=
            zpow_le_zpow_right₀ (by norm_num) (by omega)
        _ = 1 / 10 ^ 250 := by
          rw [zpow_neg, one_div]
          rfl
  · next h =>
    simp only [Bool.or_eq_true, beq_iff_eq, decide_eq_true_eq, not_or] at h
    split
    · next hlarge =>
      refine lt_of_lt_of_le ?_ (n.le_magnitude (Nat.pos_of_ne_zero h.1))
      calc (2 : ℚ) ^ 32 < 10 ^ (10 : ℤ) := by norm_num
        _ ≤ 10 ^ (n.power10 + (Digits.ofNat n.digits).length - 1) := zpow_le_zpow_right₀ (by norm_num) (by omega)
    · have hden : 0 < Nat.pow 10 (-n.power10).toNat := Nat.pow_pos (by decide)
      have hquotient : ((n.digits * Nat.pow 10 n.power10.toNat : ℕ) : ℚ) / (Nat.pow 10 (-n.power10).toNat : ℕ) =
          n.magnitude := by
        rw [magnitude, Decimal.ten_zpow]
        push_cast [Nat.pow_eq]
        rw [mul_div_assoc]
      cases hx : ofRatio? n.negative (n.digits * Nat.pow 10 n.power10.toNat) (Nat.pow 10 (-n.power10).toNat) with
      | some x =>
        obtain ⟨hsign, hrank⟩ := ofRatio?_rank hx
        exact ⟨hquotient ▸ reads_of_rank hden hrank, hsign⟩
      | none =>
        by_contra hle
        obtain ⟨x, hx', -⟩ := ofRatio?_eq_some n.negative (n.digits * Nat.pow 10 n.power10.toNat) hden (by
          rw [hquotient]
          linarith [not_lt.1 hle])
        exact absurd (hx'.symm.trans hx) (by simp)

section

open Json.Literal

theorem leading_spec (ds : List Char) {acc : ℕ} (hacc : acc < UInt64.size) :
    ∃ front rest, ds = front ++ rest ∧ leading acc ds = (Digits.toNatFrom acc front, rest) ∧
      Digits.toNatFrom acc front < UInt64.size ∧
      ∀ c r, rest = c :: r → UInt64.size ≤ 10 * Digits.toNatFrom acc front + Digits.value c := by
  induction ds generalizing acc with
  | nil => exact ⟨[], [], rfl, rfl, hacc, nofun⟩
  | cons d ds ih =>
    by_cases hlt : 10 * acc + Digits.value d < UInt64.size
    · obtain ⟨front, rest, hsplit, hleading, hsize, hstop⟩ := ih hlt
      exact ⟨d :: front, rest, congrArg (d :: ·) hsplit, by rw [leading, if_pos hlt]; exact hleading, hsize, hstop⟩
    · refine ⟨[], d :: ds, rfl, by rw [leading, if_neg hlt]; rfl, hacc, fun c r h => ?_⟩
      cases h
      exact not_lt.1 hlt

theorem leading_of_large {acc : ℕ} (h : UInt64.size ≤ 10 * acc) (ds : List Char) : leading acc ds = (acc, ds) := by
  cases ds with
  | nil => rfl
  | cons d ds => rw [leading, if_neg (by omega)]

end

theorem eq_zero_of_isShort {m r t : ℕ} {j : ℤ} (hlarge : 2 ^ 64 ≤ 10 * m + 9) (ht : t < 10 ^ r)
    (h : IsShort ((m * 10 ^ r + t : ℕ) * 10 ^ j)) : t = 0 := by
  obtain ⟨d, k, hd, heq⟩ := h
  have hm : m ≤ m * 10 ^ r := Nat.le_mul_of_pos_right m (by positivity)
  have hscaled : ((m * 10 ^ r + t : ℕ) : ℚ) = d * 10 ^ (k - j) := by
    rw [zpow_sub₀ (by norm_num), ← mul_div_assoc, ← heq, mul_div_cancel_right₀ _ (by positivity)]
  rcases le_or_gt 0 (k - j) with hz | hz
  · obtain ⟨z, hz⟩ := Int.eq_ofNat_of_zero_le hz
    rw [hz, zpow_natCast] at hscaled
    have hnat : m * 10 ^ r + t = d * 10 ^ z := by exact_mod_cast hscaled
    have hpow : 10 ^ r < 10 ^ z := by
      have hlow : 10 ^ 15 * 10 ^ r ≤ m * 10 ^ r := Nat.mul_le_mul_right _ (by omega)
      have hhigh : d * 10 ^ z ≤ 10 ^ 15 * 10 ^ z := Nat.mul_le_mul_right _ hd.le
      have hz' : 0 < 10 ^ z := by positivity
      have hne : d * 10 ^ z ≠ 10 ^ 15 * 10 ^ z := fun h => hd.ne (Nat.eq_of_mul_eq_mul_right hz' h)
      omega
    have hdvd : 10 ^ r ∣ m * 10 ^ r + t :=
      hnat ▸ Dvd.dvd.mul_left (Nat.pow_dvd_pow 10 ((Nat.pow_lt_pow_iff_right (by decide)).1 hpow).le) d
    exact Nat.eq_zero_of_dvd_of_lt ((Nat.dvd_add_right (Nat.dvd_mul_left _ m)).1 hdvd) ht
  · obtain ⟨z, hz⟩ : ∃ z : ℕ, k - j = -(z : ℤ) := ⟨(j - k).toNat, by omega⟩
    rw [hz, zpow_neg, zpow_natCast, ← div_eq_mul_inv, eq_div_iff (by positivity)] at hscaled
    have hnat : (m * 10 ^ r + t) * 10 ^ z = d := by exact_mod_cast hscaled
    have := Nat.le_mul_of_pos_right (m * 10 ^ r + t) (show 0 < 10 ^ z by positivity)
    omega

variable {n} {front rest : List Char} (hsplit : n.whole ++ n.fraction.getD [] = front ++ rest)
include hsplit

theorem digits_of_split : n.digits = Digits.toNat front * 10 ^ rest.length + Digits.toNat rest := by
  rw [digits, hsplit, Digits.toNat_append, Digits.toNatFrom_eq]

theorem magnitude_of_split (hzero : Digits.toNat rest = 0) :
    n.magnitude = Digits.toNat front * 10 ^ (n.power10 + rest.length) := by
  rw [magnitude, digits_of_split hsplit, hzero, zpow_add₀ (by norm_num), zpow_natCast]
  push_cast
  ring

theorem toNat_rest_eq_zero (hshort : IsShort n.magnitude)
    (hstop : ∀ c r, rest = c :: r → UInt64.size ≤ 10 * Digits.toNat front + Digits.value c) :
    Digits.toNat rest = 0 := by
  have hdigits : ∀ c ∈ rest, c.isDigit = true := by
    intro c hc
    have hmem : c ∈ n.whole ++ n.fraction.getD [] := hsplit ▸ List.mem_append_right _ hc
    exact (List.mem_append.1 hmem).elim (n.isDigit_whole c) (n.isDigit_fraction c)
  cases rest with
  | nil => rfl
  | cons c r =>
    have hvalue := Digits.value_lt (hdigits c List.mem_cons_self)
    have hlarge := hstop c r rfl
    rw [magnitude, digits_of_split hsplit] at hshort
    have hsize : UInt64.size = 2 ^ 64 := rfl
    exact eq_zero_of_isShort (by omega) (Digits.toNat_lt hdigits) hshort

omit hsplit

open Json.Literal in
theorem float?_literal (hshort : IsShort n.magnitude) :
    ∃ (m : ℕ) (e : ℤ), m < 2 ^ 64 ∧ n.magnitude = m * 10 ^ e ∧
      n.literal.float? = (ofNat? m).bind fun x =>
        (Decimal.scale? x e).bind fun y => some { y with negative := n.negative } := by
  have hfraction : n.literal.fraction.getD [] = n.fraction.getD [] := rfl
  have hpower : n.literal.exponent.getD 0 = n.power10 + (n.fraction.getD []).length := by
    rw [power10, sub_add_cancel]
    rfl
  obtain ⟨front, beyond, hwhole, hleading, hsize, hstop⟩ := leading_spec n.whole (by decide : 0 < UInt64.size)
  replace hleading : leading 0 n.literal.whole = (Digits.toNat front, beyond) := hleading
  cases beyond with
  | nil =>
    -- all digits before the point are taken, and some of those behind it
    rw [List.append_nil] at hwhole
    obtain ⟨front', rest, hsplit, hleading', hsize', hstop'⟩ := leading_spec (n.fraction.getD []) hsize
    replace hleading' : leading (Digits.toNat front) (n.fraction.getD []) =
        (Digits.toNat (front ++ front'), rest) := by
      rw [Digits.toNat_append]
      exact hleading'
    have hboth : n.whole ++ n.fraction.getD [] = front ++ front' ++ rest := by
      rw [hwhole, List.append_assoc, ← hsplit]
    have hzero := toNat_rest_eq_zero hboth hshort (by rw [Digits.toNat_append]; exact hstop')
    refine ⟨Digits.toNat (front ++ front'), n.power10 + rest.length, ?_, magnitude_of_split hboth hzero, ?_⟩
    · rw [Digits.toNat_append]
      exact hsize'
    · have hshift : -(((n.fraction.getD []).length - rest.length : ℕ) : ℤ) + (n.power10 + (n.fraction.getD []).length) =
          n.power10 + rest.length := by
        have hlength := congrArg List.length hsplit
        rw [List.length_append] at hlength
        omega
      simp only [float?, hleading, hfraction, hpower, hleading', hshift]
      rfl
  | cons c r =>
    -- the digits end before the point, and then none is taken behind it
    have hsplit : n.whole ++ n.fraction.getD [] = front ++ (c :: r ++ n.fraction.getD []) := by
      rw [← List.append_assoc, ← hwhole]
    have hzero := toNat_rest_eq_zero hsplit hshort (by
      intro c' r' h
      cases h
      exact hstop c r rfl)
    have hlarge : UInt64.size ≤ 10 * Digits.toNat front := by
      have hc : Digits.value c = 0 := by
        rw [List.cons_append, Digits.toNat_cons] at hzero
        have := Nat.le_mul_of_pos_right (Digits.value c) (show 0 < 10 ^ (r ++ n.fraction.getD []).length by positivity)
        omega
      have := hstop c r rfl
      rwa [hc] at this
    have hleading' := leading_of_large hlarge (n.fraction.getD [])
    refine ⟨Digits.toNat front, n.power10 + (c :: r ++ n.fraction.getD []).length, hsize,
      magnitude_of_split hsplit hzero, ?_⟩
    have hshift : ((c :: r).length : ℤ) - ((n.fraction.getD []).length - (n.fraction.getD []).length : ℕ) +
        (n.power10 + (n.fraction.getD []).length) = n.power10 + (c :: r ++ n.fraction.getD []).length := by
      rw [Nat.sub_self, List.length_append]
      push_cast
      ring
    simp only [float?, hleading, hfraction, hpower, hleading', hshift]
    rfl

theorem isReading_float? (hshort : IsShort n.magnitude) : n.IsReading n.literal.float? := by
  obtain ⟨m, e, hm, hvalue, hfloat⟩ := float?_literal hshort
  have hcast : (m : ℚ) < 2 ^ 64 := by exact_mod_cast hm
  obtain ⟨x, hx, -, -⟩ := ofRatio?_eq_some false m Nat.one_pos (by
    rw [Nat.cast_one, div_one]
    exact hcast.le)
  replace hx : ofNat? m = some x := hx
  rw [hfloat, hx, Option.bind_some]
  cases hy : Decimal.scale? x e with
  | none =>
    have := Decimal.lt_of_scale?_eq_none hx hm hy
    rwa [← hvalue] at this
  | some y =>
    have hreads := reads_of_scale? hx hy hm
    rw [← hvalue] at hreads
    exact ⟨⟨hreads.zero, hreads.near, hreads.tenths⟩, rfl⟩

theorem numberOf?_float (r : Option Binary64) : numberOf? ((r.map Json.float).getD .illegible) = r := by
  cases r <;> rfl

theorem isReading_int (hfraction : n.fraction = none) (hpower : n.power = none) {i : ℤ}
    (habs : i.natAbs = Digits.toNat n.whole) (hsign : decide (i < 0) = n.negative)
    (hsize : Digits.toNat n.whole < 2 ^ 64) : n.IsReading (numberOf? (.int i)) := by
  have hvalue : n.magnitude = (Digits.toNat n.whole : ℚ) / (1 : ℕ) := by
    simp [magnitude, digits, power10, hfraction, hpower]
  have hcast : (Digits.toNat n.whole : ℚ) < 2 ^ 64 := by exact_mod_cast hsize
  obtain ⟨x, hx, -, hrank⟩ := ofRatio?_eq_some false (Digits.toNat n.whole) Nat.one_pos (by
    rw [Nat.cast_one, div_one]
    exact hcast.le)
  replace hx : ofNat? (Digits.toNat n.whole) = some x := hx
  have hreads := reads_of_rank Nat.one_pos hrank
  rw [← hvalue] at hreads
  simp only [numberOf?, habs, hx, Option.map_some]
  exact ⟨⟨hreads.zero, hreads.near, hreads.tenths⟩, hsign⟩

theorem isReading_numberOf? (hshort : IsShort n.magnitude) : n.IsReading (numberOf? n.literal.value) := by
  have hfloat := isReading_float? hshort
  rw [← numberOf?_float n.literal.float?] at hfloat
  simp only [Json.Literal.value]
  cases hfraction : n.fraction with
  | some ds => simpa [literal, hfraction] using hfloat
  | none =>
    cases hpower : n.power with
    | some p => simpa [literal, hfraction, hpower] using hfloat
    | none =>
      have hsize : UInt64.size = 2 ^ 64 := rfl
      simp only [literal, hfraction, hpower, Option.map_none] at hfloat ⊢
      cases hnegative : n.negative with
      | true =>
        simp only [hnegative, if_true] at hfloat ⊢
        split
        · exact hfloat
        · next h =>
          simp only [Bool.or_eq_true, decide_eq_true_eq, not_or] at h
          exact isReading_int hfraction hpower (by omega) (by rw [hnegative]; simpa using by omega) (by omega)
      | false =>
        simp only [hnegative, Bool.false_eq_true, if_false] at hfloat ⊢
        split
        · next h => exact isReading_int hfraction hpower (by omega) (by rw [hnegative]; simp) h
        · exact hfloat

/-- A version is read from a numeral if its tenfold is nearer to the number of tenths than a millionth, and not if it is
farther. A negative numeral gives none, unless it is so small that it is read as zero. -/
def Tolerates (n : Numeral) (r : Option Version) : Prop :=
  ∀ v : Version,
    (r = some v → |10 * |n.value| - v.tenths.toNat| ≤ 1 / 10 ^ 6 ∧ (n.value < 0 → |n.value| < 1 / 10 ^ 249)) ∧
      (0 ≤ n.value → |10 * n.value - v.tenths.toNat| < 1 / 10 ^ 6 → r = some v)

theorem tolerates_of_isReading (hshort : IsShort n.magnitude) {r : Option Binary64} (h : n.IsReading r) :
    n.Tolerates (r.bind ofNumber?) := by
  intro v
  have hnonneg := n.magnitude_nonneg
  rw [abs_value]
  have hzero (hvalue : 0 ≤ n.value) (hnegative : n.negative = true) : n.magnitude = 0 := by
    rw [value, if_pos hnegative] at hvalue
    linarith
  have hvalue (hvalue : 0 ≤ n.value) : n.value = n.magnitude := by
    rw [← abs_value, abs_of_nonneg hvalue]
  cases r with
  | none =>
    refine ⟨fun hv => absurd hv.symm (Option.some_ne_none v), fun hpos hnear => ?_⟩
    have hlarge : 2 ^ 32 < n.magnitude := h
    have hv : (v.tenths.toNat : ℚ) < 2 ^ 32 := by exact_mod_cast v.tenths.toNat_lt
    rw [hvalue hpos] at hnear
    linarith [(abs_lt.1 hnear).2]
  | some x =>
    obtain ⟨hreads, hsign⟩ := h
    rw [Option.bind_some]
    refine ⟨fun hv => ⟨hreads.sound hshort hnonneg hv, fun hneg => hreads.negative hv ?_⟩, fun hpos hnear => ?_⟩
    · rw [hsign]
      by_contra hplus
      rw [value, if_neg hplus] at hneg
      linarith
    · rw [hvalue hpos] at hnear
      refine hreads.complete hshort hnonneg (fun hneg => ?_) hnear
      exact hreads.zero (hzero hpos (hsign ▸ hneg))

theorem mem_chars {c : Char} (hc : c ∈ n.chars) : c.isDigit = true ∨ c ∈ ['+', '-', '.', 'e', 'E'] := by
  have hsign {s : Option Sign} (hc : c ∈ Sign.chars s) : c ∈ ['+', '-', '.', 'e', 'E'] := by
    cases s with
    | none => cases hc
    | some s =>
      obtain rfl := List.mem_singleton.1 hc
      cases s <;> decide
  simp only [chars, List.mem_append] at hc
  rcases hc with hc | hc | hc | hc
  · exact .inr (hsign hc)
  · exact .inl (n.isDigit_whole c hc)
  · cases hfraction : n.fraction with
    | none => simp [fractionChars, hfraction] at hc
    | some ds =>
      have hdigits := n.isDigit_fraction
      simp only [fractionChars, hfraction, Option.map_some, Option.getD_some, List.mem_cons] at hc hdigits
      rcases hc with rfl | hc
      · exact .inr (by decide)
      · exact .inl (hdigits c hc)
  · cases hpower : n.power with
    | none => simp [powerChars, hpower] at hc
    | some p =>
      simp only [powerChars, hpower, Option.map_some, Option.getD_some, Power.chars, List.mem_cons,
        List.mem_append] at hc
      rcases hc with rfl | hc | hc
      · rw [Power.letter]
        cases p.upper <;> exact .inr (by decide)
      · exact .inr (hsign hc)
      · exact .inl (p.isDigit c hc)

theorem not_isBlank {c : Char} (hc : c ∈ n.chars) : isBlank c = false := by
  rcases mem_chars hc with hdigit | hother
  · simp only [Char.isDigit, Bool.and_eq_true, decide_eq_true_eq] at hdigit
    have hlow : '0'.toNat ≤ c.toNat := hdigit.1
    have hhigh : c.toNat ≤ '9'.toNat := hdigit.2
    have hzero : '0'.toNat = 48 := rfl
    have hnine : '9'.toNat = 57 := rfl
    simp [isBlank]
    omega
  · have hnone : (['+', '-', '.', 'e', 'E'].all fun d => !isBlank d) = true := by decide
    simpa using List.all_eq_true.1 hnone c hother

theorem trimBlanks_of_not_blank {cs : List Char} (hcs : ∀ c ∈ cs, isBlank c = false) : trimBlanks cs = cs := by
  have hkept {ds : List Char} (hds : ∀ c ∈ ds, isBlank c = false) : ds.dropWhile isBlank = ds := by
    cases ds with
    | nil => rfl
    | cons d ds => exact List.dropWhile_cons_of_neg (by simp [hds d])
  rw [trimBlanks, hkept hcs, hkept fun c hc => hcs c (List.mem_reverse.1 hc), List.reverse_reverse]

theorem ofText?_text (n : Numeral) :
    ofText? n.text = (Decimal.nearest? ⟨n.negative, n.digits, n.power10⟩).bind ofNumber? := by
  rw [ofText?, text, String.toList_ofList, trimBlanks_of_not_blank fun _ => not_isBlank, n.readDecimal?_chars]
  rfl

theorem decodeText?_text (h : n.IsLiteral) : decodeText? n.text = (numberOf? n.literal.value).bind ofNumber? := by
  have hread : Json.read? n.text = some n.literal.value := by
    have := Json.readValue_literal (read_chars h) Json.closes_nil (Nat.succ_pos (3 * n.chars.length + 2))
      Json.nestingLimit
    rw [List.append_nil] at this
    rw [Json.read?, text, String.toList_ofList, Json.readAll, Json.readFront, this]
    rfl
  rw [decodeText?, hread]
  rfl

/-- A numeral of at most fifteen significant digits gives the version whose tenths are its tenfold, whichever way it is
written, and also that whose tenths are less than a millionth away. -/
theorem tolerates_version (n : Numeral) (hshort : IsShort |n.value|) :
    n.Tolerates (ofText? n.text) ∧ (n.IsLiteral → n.Tolerates (decodeText? n.text)) := by
  rw [abs_value] at hshort
  refine ⟨?_, fun h => ?_⟩
  · rw [ofText?_text]
    exact tolerates_of_isReading hshort n.isReading_nearest?
  · rw [decodeText?_text h]
    exact tolerates_of_isReading hshort (isReading_numberOf? hshort)

theorem tolerates_greatest :
    let n : Numeral := ⟨none, "429496729".toList, some ['5'], none, List.all_eq_true.1 rfl, List.all_eq_true.1 rfl,
      by decide⟩
    (IsShort |n.value| ∧ n.IsLiteral ∧ n.value = 4294967295 / 10) ∧
      ofText? n.text = some ⟨0xFFFFFFFF⟩ ∧ decodeText? n.text = some (⟨0xFFFFFFFF⟩ : Version) := by
  intro n
  have hdigits : n.digits = 4294967295 := by decide +kernel
  have hpower : n.power10 = -1 := rfl
  have hvalue : n.value = 4294967295 / 10 := by
    have hnegative : n.negative = false := rfl
    rw [value, hnegative, if_neg Bool.false_ne_true, magnitude, hdigits, hpower]
    norm_num
  have hshort : IsShort |n.value| := ⟨4294967295, -1, by norm_num, by rw [hvalue]; norm_num [abs_of_pos]⟩
  have hliteral : n.IsLiteral := ⟨by decide, .inr ⟨'4', "29496729".toList, by decide, by decide⟩, by decide⟩
  obtain ⟨htext, hjson⟩ := tolerates_version n hshort
  have hpos : 0 ≤ n.value := by rw [hvalue]; norm_num
  have hnear : |10 * n.value - (⟨0xFFFFFFFF⟩ : Version).tenths.toNat| < 1 / 10 ^ 6 := by
    have hmax : ((0xFFFFFFFF : UInt32).toNat : ℚ) = 4294967295 := rfl
    rw [hvalue, hmax]
    norm_num
  exact ⟨⟨hshort, hliteral, hvalue⟩, (htext _).2 hpos hnear, (hjson hliteral _).2 hpos hnear⟩

/-- Numerals between two tenths, and below zero, that are read as a version. -/
theorem between_tenths_accepted :
    let n : Numeral := ⟨none, ['0'], some "10000001".toList, none, List.all_eq_true.1 rfl, List.all_eq_true.1 rfl,
      by decide⟩
    n.text = "0.10000001" ∧ IsShort |n.value| ∧ (¬ ∃ t : ℕ, 10 * n.value = t) ∧ ofText? n.text = some ⟨1⟩ ∧
      decodeText? n.text = some (⟨1⟩ : Version) ∧ ofText? "-1e-400" = some ⟨0⟩ := by
  intro n
  have hdigits : n.digits = 10000001 := by decide +kernel
  have hpower : n.power10 = -8 := rfl
  have hvalue : n.value = 10000001 / 10 ^ 8 := by
    have hnegative : n.negative = false := rfl
    rw [value, hnegative, if_neg Bool.false_ne_true, magnitude, hdigits, hpower]
    norm_num
  refine ⟨by decide, ⟨10000001, -8, by norm_num, by rw [hvalue]; norm_num [abs_of_pos]⟩, ?_, by decide +kernel,
    by decide +kernel, by decide +kernel⟩
  rintro ⟨t, ht⟩
  rw [hvalue] at ht
  have hnat : 10000001 = t * 10 ^ 7 := by
    have : (10000001 : ℚ) = t * 10 ^ 7 := by linarith
    exact_mod_cast this
  omega

end Numeral

end ServiceCatalog
