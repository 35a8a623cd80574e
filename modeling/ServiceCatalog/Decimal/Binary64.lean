import ServiceCatalog.Text.Basic

/-!
Finite binary floating-point numbers of 64 bits. A number is a sign and the rank of its magnitude
among the representable ones, so rounding is one function from a quotient of naturals to a rank.
-/

namespace ServiceCatalog

def binadeSize : Nat := 0x10000000000000

def magnitudeCount : Nat := 2047 * binadeSize

structure Binary64 where
  negative : Bool
  rank : Nat
  finite : rank < magnitudeCount
deriving DecidableEq

namespace Binary64

def mantissa (x : Binary64) : Nat :=
  if x.rank < binadeSize then x.rank else binadeSize + x.rank % binadeSize

def exponent (x : Binary64) : Int :=
  if x.rank < binadeSize then -1074 else (x.rank / binadeSize : Nat) - 1075

def ratio (x : Binary64) : Nat × Nat :=
  (x.mantissa * Nat.pow 2 x.exponent.toNat, Nat.pow 2 (-x.exponent).toNat)

def zero : Binary64 := ⟨false, 0, by decide⟩

def isZero (x : Binary64) : Bool := x.rank == 0

def neg (x : Binary64) : Binary64 := { x with negative := !x.negative }

instance : BEq Binary64 where
  beq x y := x.rank == y.rank && (x.negative == y.negative || x.rank == 0)

theorem beq_self (x : Binary64) : (x == x) = true := by simp [BEq.beq]

def roundHalfEven (num den : Nat) : Nat :=
  let q := num / den
  match compare (2 * (num % den)) den with
  | .lt => q
  | .gt => q + 1
  | .eq => if q % 2 == 0 then q else q + 1

def floorLog2 (num den : Nat) : Int :=
  let k : Int := num.log2 - den.log2
  if num * Nat.pow 2 (-k).toNat < den * Nat.pow 2 k.toNat then k - 1 else k

def nearestRank (num den : Nat) : Nat :=
  if num == 0 then 0
  else
    let q := max (-1074) (floorLog2 num den - 52)
    (q + 1074).toNat * binadeSize
      + roundHalfEven (num * Nat.pow 2 (-q).toNat) (den * Nat.pow 2 q.toNat)

def ofRatio? (negative : Bool) (num den : Nat) : Option Binary64 :=
  if h : nearestRank num den < magnitudeCount then some ⟨negative, nearestRank num den, h⟩ else none

def ofNat? (n : Nat) : Option Binary64 := ofRatio? false n 1

def mul? (x y : Binary64) : Option Binary64 :=
  let (a, b) := x.ratio
  let (c, d) := y.ratio
  ofRatio? (x.negative != y.negative) (a * c) (b * d)

def div? (x y : Binary64) : Option Binary64 :=
  let (a, b) := x.ratio
  let (c, d) := y.ratio
  ofRatio? (x.negative != y.negative) (a * d) (b * c)

end Binary64

structure Decimal where
  negative : Bool
  digits : Nat
  exponent : Int
deriving DecidableEq

namespace Decimal

def nearest? (d : Decimal) : Option Binary64 :=
  let scale := d.exponent + (Digits.ofNat d.digits).length
  if d.digits == 0 || scale < -400 then some { Binary64.zero with negative := d.negative }
  else if 400 < scale then none
  else Binary64.ofRatio? d.negative (d.digits * Nat.pow 10 d.exponent.toNat)
    (Nat.pow 10 (-d.exponent).toNat)

def powerOfTen (k : Nat) : Binary64 :=
  (Binary64.ofNat? (Nat.pow 10 k)).getD Binary64.zero

/-- Multiplies by `10 ^ e`, rounding once for each factor of at most `10 ^ 308` in size. -/
def scale? (x : Binary64) (e : Int) : Option Binary64 :=
  if x.isZero then some x
  else if 308 < e then none
  else if 0 ≤ e then x.mul? (powerOfTen e.toNat)
  else if -308 ≤ e then x.div? (powerOfTen (-e).toNat)
  else (x.div? (powerOfTen 308)).bind fun y => scale? y (e + 308)
termination_by (-e).toNat
decreasing_by omega

end Decimal

end ServiceCatalog
