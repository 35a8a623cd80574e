import ServiceCatalog.Proofs.Decimal.Digits
import ServiceCatalog.Toml.Number

namespace ServiceCatalog

namespace Toml

theorem isDigit_newline : '\n'.isDigit = false := by decide

theorem hour?_of_ne {c : Char} (hc : c ≠ ':') (a b : Char) (r : List Char) : hour? (a :: b :: c :: r) = none := by
  have hcolon : skip? ':' (c :: r) = none := if_neg (by simpa using hc)
  simp only [hour?, twoDigits?]
  split
  · exact hcolon
  · rfl

section

variable {cs : List Char} (hcs : ∀ c ∈ cs, c.isDigit = true) (rest : List Char)
include hcs

theorem digits?_more (acc : List Char) :
    digits?.more Char.isDigit acc (cs ++ '\n' :: rest) = some (acc.reverse ++ cs, '\n' :: rest) := by
  induction cs generalizing acc with
  | nil => simp [digits?.more, isDigit_newline]
  | cons c cs ih =>
    obtain ⟨hc, hcs⟩ := List.forall_mem_cons.1 hcs
    have hline : c ≠ '_' := Digits.ne_of_isDigit hc (by decide)
    rw [List.cons_append, digits?.more.eq_3 _ _ _ _ (fun _ _ h => absurd h hline) (fun h => absurd h hline), if_pos hc,
      ih hcs, List.reverse_cons, List.append_assoc, List.singleton_append]

theorem digits?_eq (hne : cs ≠ []) :
    digits? Char.isDigit (cs ++ '\n' :: rest) = some (cs, '\n' :: rest) := by
  obtain ⟨c, cs, rfl⟩ := List.exists_cons_of_ne_nil hne
  obtain ⟨hc, hcs⟩ := List.forall_mem_cons.1 hcs
  have hline : c ≠ '_' := Digits.ne_of_isDigit hc (by decide)
  rw [List.cons_append, digits?.eq_3 _ _ _ hline, if_pos hc, digits?_more hcs rest]
  rfl

theorem hour?_eq_none : hour? (cs ++ '\n' :: rest) = none := by
  match cs, hcs with
  | [], _ => cases rest <;> simp [hour?, twoDigits?, isDigit_newline]
  | [a], _ => simp [hour?, twoDigits?, isDigit_newline]
  | [a, b], _ => exact hour?_of_ne (by decide) a b rest
  | a :: b :: c :: cs, hcs => exact hour?_of_ne (Digits.ne_of_isDigit (hcs c (by simp)) (by decide)) a b _

theorem moment?_eq_none : moment? (cs ++ '\n' :: rest) = none := by
  have htime : (hour? (cs ++ '\n' :: rest)).map timeAfterHour? = none := by rw [hour?_eq_none hcs rest, Option.map_none]
  unfold moment?
  split
  · next a b c d r heq =>
    rw [← heq, htime]
    refine if_neg fun hdate => ?_
    have hfront : ∀ e ∈ [a, b, c, d], e.isDigit = true := by simpa [and_assoc] using hdate
    -- four digits in front are followed by a fifth one or by the line end
    replace heq : cs ++ '\n' :: rest = [a, b, c, d] ++ '-' :: r := heq
    obtain ⟨front, hfour, hrest⟩ | ⟨more, hmore, hrest⟩ := List.append_eq_append_iff.1 heq
    · cases front with
      | nil => cases hrest
      | cons e front =>
        have hnewline : '\n' ∈ [a, b, c, d] := by
          rw [hfour, (List.cons.inj hrest).1]
          exact List.mem_append_right _ List.mem_cons_self
        cases hfront _ hnewline
    · cases more with
      | nil => cases hrest
      | cons e more =>
        have hdash : '-' ∈ cs := by
          rw [hmore, (List.cons.inj hrest).1]
          exact List.mem_append_right _ List.mem_cons_self
        cases hcs _ hdash
  · exact htime

end

variable (n : Nat) (rest : List Char)

theorem eq_of_ofNat_append {d : Char} {r : List Char} (h : Digits.ofNat n ++ '\n' :: rest = '0' :: d :: r) :
    Digits.ofNat n = ['0'] ∧ d = '\n' := by
  obtain ⟨c, cs, hdigits⟩ := List.exists_cons_of_ne_nil (Digits.ofNat_ne_nil n)
  rw [hdigits, List.cons_append] at h
  obtain ⟨rfl, hrest⟩ := List.cons.inj h
  have hlength := Digits.length_of_head_ofNat (n := n) (by rw [hdigits]; rfl)
  obtain rfl : cs = [] := List.eq_nil_of_length_eq_zero (by rw [hdigits] at hlength; simpa using hlength)
  exact ⟨hdigits, (List.cons.inj hrest).1.symm⟩

theorem wholeDigits?_ofNat : wholeDigits? (Digits.ofNat n ++ '\n' :: rest) = some (Digits.ofNat n, '\n' :: rest) := by
  unfold wholeDigits?
  split
  · next r heq =>
    cases r with
    | nil =>
      have hlength := congrArg List.length heq
      have hne := List.length_pos_iff.2 (Digits.ofNat_ne_nil n)
      simp only [List.length_append, List.length_cons, List.length_nil] at hlength
      omega
    | cons d r =>
      have hzero := (eq_of_ofNat_append n rest heq).1
      rw [hzero] at heq ⊢
      rw [← (List.cons.inj heq).2]
      rfl
  · exact digits?_eq (fun _ => Digits.isDigit_of_mem_ofNat) rest (Digits.ofNat_ne_nil n)

theorem integerItem?_natCast {n : Nat} (hn : n < 0x8000000000000000) : integerItem? n = some (.integer n) := by
  have hlow : (-0x8000000000000000 : Int) ≤ n := by omega
  have hhigh : (n : Int) < 0x8000000000000000 := by omega
  rw [integerItem?, if_pos ⟨hlow, hhigh⟩]

theorem decimalNumber?_of_whole {cs ds : List Char} {item : Item}
    (hwhole : wholeDigits? cs = some (ds, '\n' :: rest)) (hitem : integerItem? (Digits.toNat ds) = some item) :
    decimalNumber? false cs = some (item, '\n' :: rest) := by
  refine Option.bind_eq_some_iff.2 ⟨(ds, '\n' :: rest), hwhole, ?_⟩
  refine Option.bind_eq_some_iff.2 ⟨(none, '\n' :: rest), rfl, ?_⟩
  refine Option.bind_eq_some_iff.2 ⟨(none, '\n' :: rest), rfl, ?_⟩
  refine (if_pos rfl).trans ?_
  exact Option.bind_eq_some_iff.2 ⟨item, hitem, rfl⟩

theorem number?_ofNat {n : Nat} (hn : n < 0x8000000000000000) :
    number? (Digits.ofNat n ++ '\n' :: rest) = some (.integer n, '\n' :: rest) := by
  have hitem := integerItem?_natCast hn
  rw [← Digits.toNat_ofNat n] at hitem
  have hread := decimalNumber?_of_whole rest (wholeDigits?_ofNat n rest) hitem
  rw [Digits.toNat_ofNat] at hread
  obtain ⟨c, cs, hdigits⟩ := List.exists_cons_of_ne_nil (Digits.ofNat_ne_nil n)
  have hc : c.isDigit = true := Digits.isDigit_of_mem_ofNat (n := n) (hdigits ▸ List.mem_cons_self)
  unfold number?
  split
  · next heq => cases (eq_of_ofNat_append n rest heq).2
  · next heq => cases (eq_of_ofNat_append n rest heq).2
  · next heq => cases (eq_of_ofNat_append n rest heq).2
  · rw [hdigits, List.cons_append] at hread ⊢
    have hminus : c ≠ '-' := Digits.ne_of_isDigit hc (by decide)
    have hplus : c ≠ '+' := Digits.ne_of_isDigit hc (by decide)
    have hinf : c ≠ 'i' := Digits.ne_of_isDigit hc (by decide)
    have hnan : c ≠ 'n' := Digits.ne_of_isDigit hc (by decide)
    simp [hminus, hplus, hinf, hnan, hread]

end Toml

end ServiceCatalog
