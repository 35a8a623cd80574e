import Mathlib.Data.List.TakeDrop
import Mathlib.Data.List.TakeWhile
import ServiceCatalog.Json.Printer
import ServiceCatalog.Json.Reader
import ServiceCatalog.Proofs.Decimal.Digits

namespace ServiceCatalog

namespace Json

theorem pieceText?_unit {h : Nat} (hhigh : isHighSurrogate h = false) (hlow : isLowSurrogate h = false)
    (acc : List Char) (r : List Piece) :
    pieceText? acc (.unit h :: r) = pieceText? (Char.ofNat h :: acc) r := by
  cases r with
  | nil => simp [pieceText?, hhigh, hlow]
  | cons p r => cases p <;> simp [pieceText?, hhigh, hlow]

theorem pieces_unit {c : Char} (hc : c.toNat < 0x20) (acc : List Piece) (r : List Char) :
    pieces acc ('\\' :: 'u' :: '0' :: '0' :: hexDigit (c.toNat / 16) :: hexDigit (c.toNat % 16) :: r)
      = pieces (.unit c.toNat :: acc) r := by
  have hzero : hexValue? '0' = some 0 := by decide
  have hn : ((0 * 16 + 0) * 16 + c.toNat / 16) * 16 + c.toNat % 16 = c.toNat := by omega
  rw [pieces, hzero, hexValue?_hexDigit _ (by omega), hexValue?_hexDigit _ (by omega)]
  simp only [hn]

theorem pieces_char {c : Char} (hquote : c ≠ '"') (hslash : c ≠ '\\') (hc : ¬ c.toNat < 0x20)
    (acc : List Piece) (r : List Char) : pieces acc (c :: r) = pieces (.char c :: acc) r := by
  rw [pieces.eq_5]
  · simp [hslash, hc]
  · exact hquote
  · intro _ _ _ _ _ h
    exact absurd h hslash
  · intro _ _ h
    exact absurd h hslash

theorem piece_of_escape (c : Char) :
    ∃ p, (∀ acc r, pieces acc (escape c ++ r) = pieces (p :: acc) r) ∧
      ∀ acc r, pieceText? acc (p :: r) = pieceText? (c :: acc) r := by
  unfold escape
  split
  case h_8 hquote hslash _ _ _ _ _ =>
    split
    · next hc =>
      refine ⟨.unit c.toNat, pieces_unit hc, fun acc r => ?_⟩
      rw [pieceText?_unit, Char.ofNat_toNat]
      · simp [isHighSurrogate]
        omega
      · simp [isLowSurrogate]
        omega
    · next hc => exact ⟨.char c, pieces_char hquote hslash hc, fun _ _ => rfl⟩
  all_goals exact ⟨.char _, fun _ _ => rfl, fun _ _ => rfl⟩

theorem pieces_of_escape (cs r : List Char) :
    ∃ ps, (∀ acc, pieces acc (cs.flatMap escape ++ '"' :: r) = some (acc.reverse ++ ps, r)) ∧
      ∀ acc, pieceText? acc ps = some (acc.reverse ++ cs) := by
  induction cs with
  | nil => exact ⟨[], fun acc => by simp [pieces], fun acc => by simp [pieceText?]⟩
  | cons c cs ih =>
    obtain ⟨p, hpieces, htext⟩ := piece_of_escape c
    obtain ⟨ps, hpieces', htext'⟩ := ih
    refine ⟨p :: ps, fun acc => ?_, fun acc => ?_⟩
    · rw [List.flatMap_cons, List.append_assoc, hpieces, hpieces']
      simp
    · rw [htext, htext']
      simp

theorem readString_quote (s : String) (r : List Char) :
    readString (s.toList.flatMap escape ++ '"' :: r) = some (some s, r) := by
  obtain ⟨ps, hpieces, htext⟩ := pieces_of_escape s.toList r
  simp [readString, hpieces, htext]

def Closes (rest : List Char) : Prop :=
  ∀ c ∈ rest.head?, c.isDigit = false ∧ c ≠ '.' ∧ c ≠ 'e' ∧ c ≠ 'E'

theorem closes_nil : Closes [] := fun _ hc => nomatch hc

namespace Literal

theorem spanDigits_append (cs : List Char) {rest : List Char} (hrest : Closes rest) :
    spanDigits (cs ++ rest) = ((spanDigits cs).1, (spanDigits cs).2 ++ rest) := by
  simp only [spanDigits, List.span_eq_takeWhile_dropWhile]
  induction cs with
  | nil =>
    cases rest with
    | nil => rfl
    | cons c rest =>
      have hc := (hrest c rfl).1
      simp [hc]
  | cons c cs ih =>
    simp only [Prod.mk.injEq] at ih
    cases hc : c.isDigit <;> simp [hc, ih]

theorem readFraction_append {cs r rest : List Char} {fraction : Option (List Char)} (hrest : Closes rest)
    (h : readFraction cs = some (fraction, r)) : readFraction (cs ++ rest) = some (fraction, r ++ rest) := by
  cases cs with
  | nil =>
    cases h
    cases rest with
    | nil => rfl
    | cons c rest => simp [readFraction, (hrest c rfl).2.1]
  | cons c cs =>
    by_cases hc : c = '.'
    · subst hc
      simp only [List.cons_append, readFraction, spanDigits_append cs hrest] at h ⊢
      cases hds : (spanDigits cs).1.isEmpty with
      | true => simp [hds] at h
      | false =>
        simp only [hds] at h ⊢
        cases h
        rfl
    · simp [readFraction, hc] at h ⊢
      obtain ⟨rfl, rfl⟩ := h
      simp

theorem takeSign_append (c : Char) (cs rest : List Char) :
    takeSign (c :: cs ++ rest) = ((takeSign (c :: cs)).1, (takeSign (c :: cs)).2 ++ rest) := by
  by_cases hplus : c = '+'
  · subst hplus
    rfl
  · by_cases hminus : c = '-'
    · subst hminus
      rfl
    · simp [takeSign, hplus, hminus]

theorem readExponent_append {cs r rest : List Char} {exponent : Option Int} (hrest : Closes rest)
    (h : readExponent cs = some (exponent, r)) :
    readExponent (cs ++ rest) = some (exponent, r ++ rest) := by
  cases cs with
  | nil =>
    cases h
    cases rest with
    | nil => rfl
    | cons c rest => simp [readExponent, (hrest c rfl).2.2]
  | cons e cs =>
    by_cases he : (e == 'e' || e == 'E') = true
    · cases cs with
      | nil =>
        simp only [readExponent, he, if_true] at h
        cases h
      | cons c cs =>
        rw [List.cons_append]
        simp only [readExponent, he, if_true, takeSign_append, spanDigits_append _ hrest] at h ⊢
        cases hds : (spanDigits (takeSign (c :: cs)).2).1.isEmpty with
        | true => simp [hds] at h
        | false =>
          simp only [hds] at h ⊢
          cases h
          rfl
    · simp only [readExponent, he, List.cons_append] at h ⊢
      cases h
      rfl

theorem readUnsigned_eq (negative : Bool) (cs : List Char) :
    readUnsigned negative cs =
      if isWhole (spanDigits cs).1 = true then
        (readFraction (spanDigits cs).2).bind fun p => (readExponent p.2).bind fun q =>
          some (⟨negative, (spanDigits cs).1, p.1, q.1⟩, q.2)
      else none := by
  have hguard : readUnsigned negative cs =
      (if isWhole (spanDigits cs).1 = true then some () else none : Option Unit).bind fun _ =>
        (readFraction (spanDigits cs).2).bind fun p => (readExponent p.2).bind fun q =>
          some (⟨negative, (spanDigits cs).1, p.1, q.1⟩, q.2) := rfl
  rw [hguard]
  by_cases h : isWhole (spanDigits cs).1 = true
  · rw [if_pos h, if_pos h]
    rfl
  · rw [if_neg h, if_neg h]
    rfl

theorem readUnsigned_eq_some {negative : Bool} {cs r : List Char} {l : Literal} :
    readUnsigned negative cs = some (l, r) ↔
      isWhole (spanDigits cs).1 = true ∧ ∃ fraction r' exponent,
        readFraction (spanDigits cs).2 = some (fraction, r') ∧ readExponent r' = some (exponent, r) ∧
        l = ⟨negative, (spanDigits cs).1, fraction, exponent⟩ := by
  rw [readUnsigned_eq, Option.ite_none_right_eq_some]
  refine and_congr_right fun _ => ?_
  simp only [Option.bind_eq_some_iff, Option.some.injEq, Prod.mk.injEq, Prod.exists]
  grind

theorem readUnsigned_append {negative : Bool} {cs r rest : List Char} {l : Literal} (hrest : Closes rest)
    (h : readUnsigned negative cs = some (l, r)) :
    readUnsigned negative (cs ++ rest) = some (l, r ++ rest) := by
  obtain ⟨hwhole, fraction, r', exponent, hfraction, hexponent, rfl⟩ := readUnsigned_eq_some.1 h
  rw [readUnsigned_eq_some, spanDigits_append cs hrest]
  exact ⟨hwhole, fraction, r' ++ rest, exponent, readFraction_append hrest hfraction,
    readExponent_append hrest hexponent, rfl⟩

theorem read_cons (c : Char) (cs : List Char) :
    read (c :: cs) = if c = '-' then readUnsigned true cs else readUnsigned false (c :: cs) := by
  by_cases hc : c = '-'
  · subst hc
    rfl
  · simp [read, hc]

theorem read_append {cs r rest : List Char} {l : Literal} (hrest : Closes rest)
    (h : read cs = some (l, r)) : read (cs ++ rest) = some (l, r ++ rest) := by
  cases cs with
  | nil => cases h
  | cons c cs =>
    rw [List.cons_append]
    rw [read_cons] at h ⊢
    split at h
    · next hc =>
      rw [if_pos hc]
      exact readUnsigned_append hrest h
    · next hc =>
      rw [if_neg hc]
      exact readUnsigned_append hrest h

theorem isDigit_head_of_isWhole {cs : List Char} (h : isWhole (spanDigits cs).1 = true) :
    ∃ c r, cs = c :: r ∧ c.isDigit = true := by
  cases cs with
  | nil => cases h
  | cons c r =>
    refine ⟨c, r, rfl, ?_⟩
    cases hc : c.isDigit with
    | true => rfl
    | false => simp [spanDigits, List.span_eq_takeWhile_dropWhile, isWhole, hc] at h

theorem head_of_read {cs r : List Char} {l : Literal} (h : read cs = some (l, r)) :
    ∃ c cs', cs = c :: cs' ∧ (c = '-' ∨ c.isDigit = true) := by
  cases cs with
  | nil => cases h
  | cons c cs =>
    refine ⟨c, cs, rfl, ?_⟩
    rw [read_cons] at h
    split at h
    · next hc => exact .inl hc
    · obtain ⟨c', r', he, hdigit⟩ := isDigit_head_of_isWhole (readUnsigned_eq_some.1 h).1
      cases he
      exact .inr hdigit

theorem spanDigits_ofNat (n : Nat) : spanDigits (Digits.ofNat n) = (Digits.ofNat n, []) := by
  have hdigits : ∀ c ∈ Digits.ofNat n, c.isDigit = true := fun c hc => Digits.isDigit_of_mem_ofNat hc
  have h := List.span_eq_takeWhile_dropWhile (p := Char.isDigit) (Digits.ofNat n)
  rw [List.takeWhile_eq_self_iff.2 hdigits, List.dropWhile_eq_nil_iff.2 hdigits] at h
  exact h

theorem isWhole_ofNat (n : Nat) : isWhole (Digits.ofNat n) = true := by
  by_cases h : (Digits.ofNat n).head? = some '0'
  · simp [isWhole, Digits.ofNat_ne_nil, Digits.length_of_head_ofNat h]
  · simp [isWhole, Digits.ofNat_ne_nil, h]

theorem readUnsigned_ofNat (negative : Bool) (n : Nat) {rest : List Char} (hrest : Closes rest) :
    readUnsigned negative (Digits.ofNat n ++ rest) = some (⟨negative, Digits.ofNat n, none, none⟩, rest) := by
  have halone : readUnsigned negative (Digits.ofNat n)
      = some (⟨negative, Digits.ofNat n, none, none⟩, []) := by
    rw [readUnsigned_eq_some, spanDigits_ofNat]
    exact ⟨isWhole_ofNat n, none, [], none, rfl, rfl, rfl⟩
  exact readUnsigned_append hrest halone

theorem read_ofInt (n : Int) {rest : List Char} (hrest : Closes rest) :
    read (Digits.ofInt n ++ rest)
      = some (⟨decide (n < 0), Digits.ofNat n.natAbs, none, none⟩, rest) := by
  by_cases hn : n < 0
  · simp only [Digits.ofInt, hn, if_true, List.cons_append, read_cons, decide_true]
    exact readUnsigned_ofNat true n.natAbs hrest
  · simp only [Digits.ofInt, hn, if_false, decide_false]
    cases hds : Digits.ofNat n.natAbs with
    | nil => exact absurd hds (Digits.ofNat_ne_nil _)
    | cons c cs =>
      have hc : c ≠ '-' := by
        rintro rfl
        have := Digits.isDigit_of_mem_ofNat (n := n.natAbs) (hds ▸ List.mem_cons_self)
        exact absurd this (by decide)
      rw [List.cons_append, read_cons, if_neg hc, ← List.cons_append, ← hds]
      exact readUnsigned_ofNat false n.natAbs hrest

def InRange (n : Int) : Prop := -0x8000000000000000 ≤ n ∧ n < 0x10000000000000000

theorem value_ofInt {n : Int} (h : InRange n) :
    value ⟨decide (n < 0), Digits.ofNat n.natAbs, none, none⟩ = .int n := by
  obtain ⟨hlow, hhigh⟩ := h
  simp only [value, Digits.toNat_ofNat]
  by_cases hn : n < 0
  · have hne : ¬ n.natAbs = 0 := by omega
    have hle : ¬ 0x8000000000000000 < n.natAbs := by omega
    have habs : -(n.natAbs : Int) = n := by omega
    simp only [hn, decide_true, hne, hle, decide_false, Bool.or_false, if_true]
    rw [if_neg (by decide), habs]
  · have hlt : n.natAbs < UInt64.size := by
      change n.natAbs < 0x10000000000000000
      omega
    have habs : (n.natAbs : Int) = n := by omega
    simp only [hn, decide_false, hlt, if_true]
    rw [if_neg (by decide), habs]

end Literal

end Json

end ServiceCatalog
