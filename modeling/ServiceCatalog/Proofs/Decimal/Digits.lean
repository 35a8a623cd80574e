import Mathlib.Algebra.Group.Nat.Defs
import Mathlib.Data.List.TakeDrop
import ServiceCatalog.Text.Basic

namespace ServiceCatalog

theorem span_append_of_head {p : Char → Bool} {cs rest : List Char} (hcs : ∀ c ∈ cs, p c = true)
    (hrest : ∀ c ∈ rest.head?, p c = false) : (cs ++ rest).span p = (cs, rest) := by
  rw [List.span_eq_takeWhile_dropWhile, List.takeWhile_append_of_pos hcs, List.dropWhile_append_of_pos hcs]
  cases rest with
  | nil => simp
  | cons c rest =>
    have hc : p c = false := hrest c rfl
    simp [hc]

theorem hexValue?_hexDigit : ∀ n < 16, hexValue? (hexDigit n) = some n := by decide

namespace Digits

theorem ne_of_isDigit {c d : Char} (hc : c.isDigit = true) (hd : d.isDigit = false) : c ≠ d := by
  rintro rfl
  rw [hc] at hd
  cases hd

theorem value_char : ∀ d < 10, value (char d) = d := by decide

theorem isDigit_char : ∀ d < 10, (char d).isDigit = true := by decide

theorem toNat_append (cs ds : List Char) : toNat (cs ++ ds) = toNatFrom (toNat cs) ds := by
  simp only [toNat, toNatFrom, List.foldl_append]

theorem toNat_ofNat (n : Nat) : toNat (ofNat n) = n := by
  induction n using ofNat.induct with
  | case1 n h =>
    rw [ofNat, if_pos h]
    simp [toNat, toNatFrom, value_char n h]
  | case2 n h ih =>
    rw [ofNat, if_neg h, toNat_append, ih]
    simp only [toNatFrom, List.foldl_cons, List.foldl_nil]
    rw [value_char _ (by omega)]
    omega

theorem value_lt {c : Char} (hc : c.isDigit = true) : value c < 10 := by
  simp only [Char.isDigit, Bool.and_eq_true, decide_eq_true_eq] at hc
  have hle : c.toNat ≤ '9'.toNat := hc.2
  have hnine : '9'.toNat = 57 := rfl
  have hzero : '0'.toNat = 48 := rfl
  rw [value]
  omega

theorem toNatFrom_eq (acc : Nat) (cs : List Char) : toNatFrom acc cs = acc * 10 ^ cs.length + toNat cs := by
  induction cs generalizing acc with
  | nil => simp [toNat, toNatFrom]
  | cons c cs ih =>
    have hstep (n : Nat) : toNatFrom n (c :: cs) = toNatFrom (10 * n + value c) cs := rfl
    have hten : 10 * acc * 10 ^ cs.length = acc * 10 ^ (cs.length + 1) := by
      rw [Nat.pow_succ, Nat.mul_comm 10, Nat.mul_assoc, Nat.mul_comm 10]
    rw [toNat, hstep, hstep, ih, ih (10 * 0 + value c), List.length_cons, Nat.add_mul, hten, Nat.mul_zero, Nat.zero_add]
    omega

theorem toNat_cons (c : Char) (cs : List Char) : toNat (c :: cs) = value c * 10 ^ cs.length + toNat cs := by
  have := toNatFrom_eq (value c) cs
  rwa [show toNatFrom (value c) cs = toNat (c :: cs) by simp [toNat, toNatFrom]] at this

theorem toNat_lt {cs : List Char} (hcs : ∀ c ∈ cs, c.isDigit = true) : toNat cs < 10 ^ cs.length := by
  induction cs with
  | nil => simp [toNat, toNatFrom]
  | cons c cs ih =>
    obtain ⟨hc, hcs⟩ := List.forall_mem_cons.1 hcs
    have hlt := ih hcs
    have hvalue := Nat.mul_le_mul_right (10 ^ cs.length) (Nat.le_of_lt_succ (value_lt hc))
    rw [toNat_cons, List.length_cons, Nat.pow_succ]
    omega

theorem isDigit_of_mem_ofNat {n : Nat} {c : Char} (hc : c ∈ ofNat n) : c.isDigit = true := by
  induction n using ofNat.induct with
  | case1 n h =>
    rw [ofNat, if_pos h, List.mem_singleton] at hc
    exact hc ▸ isDigit_char n h
  | case2 n h ih =>
    rw [ofNat, if_neg h, List.mem_append, List.mem_singleton] at hc
    rcases hc with hc | rfl
    · exact ih hc
    · exact isDigit_char _ (by omega)

theorem ofNat_ne_nil (n : Nat) : ofNat n ≠ [] := by
  rw [ofNat]
  split <;> simp

theorem pow_length_le {n : Nat} (hn : 0 < n) : 10 ^ ((ofNat n).length - 1) ≤ n := by
  induction n using ofNat.induct with
  | case1 n h =>
    rw [ofNat, if_pos h]
    exact hn
  | case2 n h ih =>
    have hlength : (ofNat n).length = (ofNat (n / 10)).length + 1 := by
      rw [ofNat, if_neg h, List.length_append]
      rfl
    have hpos := List.length_pos_iff.2 (ofNat_ne_nil (n / 10))
    have hle := ih (by omega)
    obtain ⟨m, hm⟩ : ∃ m, (ofNat (n / 10)).length = m + 1 := ⟨_, (Nat.succ_pred_eq_of_pos hpos).symm⟩
    rw [hlength, hm]
    rw [hm] at hle
    simp only [Nat.add_sub_cancel] at hle ⊢
    rw [Nat.pow_succ]
    omega

theorem head_ofNat {n : Nat} (h : 10 ≤ n) : (ofNat n).head? ≠ some '0' := by
  induction n using ofNat.induct with
  | case1 n h' => omega
  | case2 n _ ih =>
    rw [ofNat, if_neg (by omega), List.head?_append, Option.or_of_isSome (by simp [ofNat_ne_nil])]
    by_cases hn : n / 10 < 10
    · have hfirst : ∀ d < 10, d ≠ 0 → char d ≠ '0' := by decide
      rw [ofNat, if_pos hn]
      simpa using hfirst (n / 10) hn (by omega)
    · exact ih (by omega)

theorem length_of_head_ofNat {n : Nat} (h : (ofNat n).head? = some '0') : (ofNat n).length = 1 := by
  by_cases hn : n < 10
  · rw [ofNat, if_pos hn]
    rfl
  · exact absurd h (head_ofNat (by omega))

end Digits

end ServiceCatalog
