import ServiceCatalog.Entity.Version
import ServiceCatalog.Proofs.Decimal.Rounding
import ServiceCatalog.Proofs.Json.Literal

namespace ServiceCatalog

inductive Sign where
  | plus
  | minus
deriving DecidableEq

namespace Sign

def char : Sign → Char
  | plus => '+'
  | minus => '-'

def chars (s : Option Sign) : List Char := (s.map char).toList

end Sign

structure Power where
  upper : Bool
  sign : Option Sign
  digits : List Char
  ne_nil : digits ≠ []
  isDigit : ∀ c ∈ digits, c.isDigit = true

namespace Power

variable (p : Power)

def letter : Char := if p.upper then 'E' else 'e'

def chars : List Char := p.letter :: (Sign.chars p.sign ++ p.digits)

def value : ℤ := if p.sign = some .minus then -(Digits.toNat p.digits : ℤ) else Digits.toNat p.digits

end Power

structure Numeral where
  sign : Option Sign
  whole : List Char
  fraction : Option (List Char)
  power : Option Power
  isDigit_whole : ∀ c ∈ whole, c.isDigit = true
  isDigit_fraction : ∀ c ∈ fraction.getD [], c.isDigit = true
  ne_nil : whole ++ fraction.getD [] ≠ []

namespace Numeral

variable (n : Numeral)

def fractionChars : List Char := (n.fraction.map ('.' :: ·)).getD []

def powerChars : List Char := (n.power.map Power.chars).getD []

def chars : List Char := Sign.chars n.sign ++ (n.whole ++ (n.fractionChars ++ n.powerChars))

def text : String := String.ofList n.chars

def negative : Bool := n.sign == some .minus

def digits : ℕ := Digits.toNat (n.whole ++ n.fraction.getD [])

def power10 : ℤ := (n.power.map Power.value).getD 0 - (n.fraction.getD []).length

def magnitude : ℚ := n.digits * 10 ^ n.power10

def value : ℚ := if n.negative then -n.magnitude else n.magnitude

theorem magnitude_nonneg : 0 ≤ n.magnitude := by
  rw [magnitude]
  positivity

theorem abs_value : |n.value| = n.magnitude := by
  rw [value]
  split
  · rw [abs_neg, abs_of_nonneg n.magnitude_nonneg]
  · rw [abs_of_nonneg n.magnitude_nonneg]

theorem head_powerChars : ∀ c ∈ n.powerChars.head?, c = 'e' ∨ c = 'E' := by
  cases h : n.power with
  | none => simp [powerChars, h]
  | some p =>
    simp only [powerChars, h, Option.map_some, Option.getD_some, Power.chars, List.head?_cons, Option.mem_some_iff,
      Power.letter]
    rintro c rfl
    cases p.upper <;> simp

theorem isDigit_head_powerChars : ∀ c ∈ n.powerChars.head?, c.isDigit = false := by
  intro c hc
  rcases n.head_powerChars c hc with rfl | rfl <;> decide

theorem isDigit_head_tail : ∀ c ∈ (n.fractionChars ++ n.powerChars).head?, c.isDigit = false := by
  cases h : n.fraction with
  | none => simpa [fractionChars, h] using n.isDigit_head_powerChars
  | some ds =>
    simp only [fractionChars, h, Option.map_some, Option.getD_some, List.cons_append, List.head?_cons,
      Option.mem_some_iff]
    rintro c rfl
    decide

theorem span_whole : (n.whole ++ (n.fractionChars ++ n.powerChars)).span Char.isDigit =
    (n.whole, n.fractionChars ++ n.powerChars) :=
  span_append_of_head n.isDigit_whole n.isDigit_head_tail

def readSign : List Char → Bool × List Char
  | '-' :: r => (true, r)
  | '+' :: r => (false, r)
  | r => (false, r)

def readPoint : List Char → List Char × List Char
  | '.' :: r => r.span Char.isDigit
  | r => ([], r)

def readPower? : List Char → Option ℤ
  | [] => some 0
  | e :: r =>
    if e != 'e' && e != 'E' then none
    else if (readSign r).2.isEmpty || !(readSign r).2.all Char.isDigit then none
    else some (if (readSign r).1 then -(Digits.toNat (readSign r).2 : ℤ) else Digits.toNat (readSign r).2)

theorem readDecimal?_eq (cs : List Char) :
    Version.readDecimal? cs =
      let whole := (readSign cs).2.span Char.isDigit
      let fraction := readPoint whole.2
      if whole.1.isEmpty && fraction.1.isEmpty then none
      else (readPower? fraction.2).map fun e =>
        ⟨(readSign cs).1, Digits.toNat (whole.1 ++ fraction.1), e - fraction.1.length⟩ := by
  have hpower (r : List Char) (f : ℤ → Decimal) : (readPower? r).map f = (match r with
      | [] => some (f 0)
      | e :: r =>
        if (e != 'e' && e != 'E') = true then none
        else if ((readSign r).2.isEmpty || !(readSign r).2.all Char.isDigit) = true then none
        else
          some (f (if (readSign r).1 then -(Digits.toNat (readSign r).2 : ℤ) else Digits.toNat (readSign r).2))) := by
    cases r with
    | nil => rfl
    | cons e r =>
      simp only [readPower?]
      split
      · rfl
      · split <;> rfl
  simp only [hpower]
  rfl

theorem readSign_chars (s : Option Sign) {r : List Char} (hr : ∀ c ∈ r.head?, c ≠ '-' ∧ c ≠ '+') :
    readSign (Sign.chars s ++ r) = (s == some .minus, r) := by
  cases s with
  | none =>
    cases r with
    | nil => rfl
    | cons c r =>
      obtain ⟨hminus, hplus⟩ := hr c rfl
      simp only [Sign.chars, Option.map_none, Option.toList_none, List.nil_append]
      unfold readSign
      split <;> simp_all
  | some s => cases s <;> rfl

theorem readPoint_chars : readPoint (n.fractionChars ++ n.powerChars) = (n.fraction.getD [], n.powerChars) := by
  cases h : n.fraction with
  | none =>
    simp only [fractionChars, h, Option.map_none, Option.getD_none, List.nil_append]
    unfold readPoint
    split
    · next heq =>
      have := n.head_powerChars '.' (by rw [heq]; rfl)
      simp at this
    · rfl
  | some ds =>
    have hdigits := n.isDigit_fraction
    simp only [h, Option.getD_some] at hdigits
    simp only [fractionChars, h, Option.map_some, Option.getD_some, List.cons_append, readPoint]
    exact span_append_of_head hdigits n.isDigit_head_powerChars

theorem head_digits_ne (p : Power) : ∀ c ∈ p.digits.head?, c ≠ '-' ∧ c ≠ '+' := by
  intro c hc
  have hdigit := p.isDigit c (List.mem_of_mem_head? hc)
  exact ⟨Digits.ne_of_isDigit hdigit (by decide), Digits.ne_of_isDigit hdigit (by decide)⟩

theorem readPower?_chars : readPower? n.powerChars = some ((n.power.map Power.value).getD 0) := by
  cases h : n.power with
  | none => simp [powerChars, h, readPower?]
  | some p =>
    have hletter : (p.letter != 'e' && p.letter != 'E') = false := by
      rw [Power.letter]
      cases p.upper <;> decide
    have hempty : p.digits.isEmpty = false := by simpa using p.ne_nil
    have hall : p.digits.all Char.isDigit = true := by simpa using p.isDigit
    simp [powerChars, h, Power.chars, readPower?, readSign_chars p.sign (head_digits_ne p), hletter, hempty, hall,
      Power.value]

theorem head_body : ∀ c ∈ (n.whole ++ (n.fractionChars ++ n.powerChars)).head?, c ≠ '-' ∧ c ≠ '+' := by
  intro c hc
  cases h : n.whole with
  | cons d ds =>
    rw [h] at hc
    cases hc
    have hdigit := n.isDigit_whole c (h ▸ List.mem_cons_self)
    exact ⟨Digits.ne_of_isDigit hdigit (by decide), Digits.ne_of_isDigit hdigit (by decide)⟩
  | nil =>
    cases hf : n.fraction with
    | none => exact absurd (by simp [h, hf]) n.ne_nil
    | some ds =>
      simp only [h, fractionChars, hf, List.nil_append, Option.map_some, Option.getD_some, List.cons_append,
        List.head?_cons, Option.mem_some_iff] at hc
      subst hc
      decide

theorem readDecimal?_chars : Version.readDecimal? n.chars = some ⟨n.negative, n.digits, n.power10⟩ := by
  have hempty : (n.whole.isEmpty && (n.fraction.getD []).isEmpty) = false := by
    simpa [List.append_eq_nil_iff] using n.ne_nil
  rw [readDecimal?_eq, chars, readSign_chars n.sign n.head_body]
  simp only [n.span_whole, n.readPoint_chars, n.readPower?_chars, hempty]
  rfl

theorem takeSign_eq (cs : List Char) : Json.Literal.takeSign cs = readSign cs := by
  unfold Json.Literal.takeSign readSign
  split <;> split <;> simp_all

structure IsLiteral : Prop where
  sign : n.sign ≠ some .plus
  whole : n.whole = ['0'] ∨ ∃ c r, n.whole = c :: r ∧ c ≠ '0'
  fraction : n.fraction ≠ some []

def literal : Json.Literal := ⟨n.negative, n.whole, n.fraction, n.power.map Power.value⟩

variable {n} (h : n.IsLiteral)
include h

open Json.Literal

theorem readFraction_chars : readFraction (n.fractionChars ++ n.powerChars) = some (n.fraction, n.powerChars) := by
  cases hf : n.fraction with
  | none =>
    simp only [fractionChars, hf, Option.map_none, Option.getD_none, List.nil_append]
    unfold readFraction
    split
    · next heq =>
      have := n.head_powerChars '.' (by rw [heq]; rfl)
      simp at this
    · rfl
  | some ds =>
    have hne : ds ≠ [] := fun hds => h.fraction (hds ▸ hf)
    have hdigits := n.isDigit_fraction
    simp only [hf, Option.getD_some] at hdigits
    have hspan : spanDigits (ds ++ n.powerChars) = (ds, n.powerChars) :=
      span_append_of_head hdigits n.isDigit_head_powerChars
    simp [fractionChars, hf, readFraction, hspan, hne]

omit h in
theorem readExponent_chars (n : Numeral) : readExponent n.powerChars = some (n.power.map Power.value, []) := by
  cases hp : n.power with
  | none => simp [powerChars, hp, readExponent]
  | some p =>
    have hletter : (p.letter == 'e' || p.letter == 'E') = true := by
      rw [Power.letter]
      cases p.upper <;> decide
    have hspan : spanDigits (p.digits ++ []) = (p.digits, []) := span_append_of_head p.isDigit (by simp)
    have hsign := readSign_chars p.sign (head_digits_ne p)
    rw [List.append_nil] at hspan
    rw [← takeSign_eq] at hsign
    simp [powerChars, hp, Power.chars, readExponent, hletter, hsign, hspan, p.ne_nil, Power.value]

theorem isWhole_whole : isWhole n.whole = true := by
  rcases h.whole with hzero | ⟨c, r, hwhole, hc⟩
  · rw [hzero]
    decide
  · simp [isWhole, hwhole, hc]

theorem readUnsigned_chars (negative : Bool) :
    readUnsigned negative (n.whole ++ (n.fractionChars ++ n.powerChars)) =
      some (⟨negative, n.whole, n.fraction, n.power.map Power.value⟩, []) := by
  have hspan : spanDigits (n.whole ++ (n.fractionChars ++ n.powerChars)) = (n.whole, n.fractionChars ++ n.powerChars) :=
    n.span_whole
  rw [readUnsigned_eq_some, hspan]
  exact ⟨isWhole_whole h, n.fraction, n.powerChars, n.power.map Power.value, readFraction_chars h,
    readExponent_chars n, rfl⟩

theorem read_chars : read n.chars = some (n.literal, []) := by
  cases hsign : n.sign with
  | none =>
    have hunsigned := readUnsigned_chars h false
    have hhead := n.head_body
    simp only [chars, hsign, Sign.chars, Option.map_none, Option.toList_none, List.nil_append, literal, negative]
    cases hbody : n.whole ++ (n.fractionChars ++ n.powerChars) with
    | nil =>
      rw [hbody] at hunsigned
      cases hunsigned
    | cons c r =>
      rw [hbody] at hunsigned hhead
      rw [read_cons, if_neg (hhead c rfl).1, hunsigned]
      rfl
  | some s =>
    cases s with
    | plus => exact absurd hsign h.sign
    | minus =>
      simp only [chars, hsign, Sign.chars, Option.map_some, Option.toList_some, List.singleton_append, literal,
        negative]
      exact readUnsigned_chars h true

end Numeral

end ServiceCatalog
