import ServiceCatalog.Decimal.Shortest
import ServiceCatalog.Text.Basic
import ServiceCatalog.Wire.Basic

/-!
Version numbers with one decimal. They count tenths, so steps never drift, and are written as plain
numbers.
-/

namespace ServiceCatalog

structure Version where
  tenths : UInt32
deriving DecidableEq

namespace Version

def initial : Version := ⟨1⟩

instance : Inhabited Version := ⟨initial⟩

def advance? (v : Version) (step : Nat) : Option Version :=
  if v.tenths.toNat + step < UInt32.size then some ⟨UInt32.ofNat (v.tenths.toNat + step)⟩ else none

def nextMinor? (v : Version) : Option Version := v.advance? 1

def nextMajor? (v : Version) : Option Version := v.advance? 10

def text (v : Version) : String :=
  natText (v.tenths.toNat / 10) ++ "." ++ natText (v.tenths.toNat % 10)

def toNumber (v : Version) : Binary64 :=
  (Binary64.ofRatio? false v.tenths.toNat 10).getD .zero

def greatest : Binary64 := toNumber ⟨0xFFFFFFFF⟩

/-- Whether the magnitudes of `x` and `y` are more than a millionth apart, as far as their rounded
difference shows. -/
def apart (x y : Binary64) : Bool :=
  let (a, b) := x.ratio
  let (c, d) := y.ratio
  let millionth := (Binary64.ofRatio? false 1 1000000).getD .zero
  millionth.rank < Binary64.nearestRank ((a * d - c * b) + (c * b - a * d)) (b * d)

def roundHalfUp (num den : Nat) : Nat := (2 * num + den) / (2 * den)

def ofNumber? (x : Binary64) : Option Version := do
  if x.negative && !x.isZero then none
  if greatest.rank < x.rank then none
  let scaled ← x.mul? (Decimal.powerOfTen 1)
  let tenths := roundHalfUp scaled.ratio.1 scaled.ratio.2
  if apart scaled (← Binary64.ofNat? tenths) then none else return ⟨UInt32.ofNat tenths⟩

def readDecimal? (cs : List Char) : Option Decimal := do
  let (negative, r) := match cs with
    | '-' :: r => (true, r)
    | '+' :: r => (false, r)
    | r => (false, r)
  let (whole, r) := r.span Char.isDigit
  let (fraction, r) := match r with
    | '.' :: r => r.span Char.isDigit
    | r => ([], r)
  if whole.isEmpty && fraction.isEmpty then none
  let exponent : Int ← match r with
    | [] => some 0
    | e :: r => do
      if e != 'e' && e != 'E' then none
      let (below, r) := match r with
        | '-' :: r => (true, r)
        | '+' :: r => (false, r)
        | r => (false, r)
      if r.isEmpty || !r.all Char.isDigit then none
      let n : Int := Digits.toNat r
      some (if below then -n else n)
  return ⟨negative, Digits.toNat (whole ++ fraction), exponent - fraction.length⟩

def ofText? (s : String) : Option Version := do
  ofNumber? (← (← readDecimal? (trimBlanks s.toList)).nearest?)

def numberOf? : Json → Option Binary64
  | .int n => (Binary64.ofNat? n.natAbs).map fun x => { x with negative := decide (n < 0) }
  | .float x => some x
  | _ => none

instance : Wire Version where
  encode v := .float v.toNumber
  decode j := (numberOf? j).bind ofNumber?

def numberFault (x : Binary64) : String := "invalid entity version: " ++ String.ofList x.plainText

def textFault (s : String) : String := "Invalid version: '" ++ s ++ "'"

end Version

end ServiceCatalog
