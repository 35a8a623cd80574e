import ServiceCatalog.Decimal.Binary64

namespace ServiceCatalog

inductive Tie where
  | toEven
  | up

namespace Binary64

def narrowBelow (x : Binary64) : Bool :=
  x.rank % binadeSize == 0 && binadeSize < x.rank

/-- The decimals that round to `x` lie between these, as numerators over `4 * den`, where `den` is
the denominator of `x.ratio`. -/
def roundingBounds (x : Binary64) : Nat × Nat :=
  let unit := Nat.pow 2 x.exponent.toNat
  (4 * x.ratio.1 - (if x.narrowBelow then 1 else 2) * unit, 4 * x.ratio.1 + 2 * unit)

def readsBack (x : Binary64) (digits : Nat) (k : Int) : Bool :=
  let (low, high) := x.roundingBounds
  let point := 4 * digits * Nat.pow 10 k.toNat * x.ratio.2
  let low := low * Nat.pow 10 (-k).toNat
  let high := high * Nat.pow 10 (-k).toNat
  if x.mantissa % 2 == 0 then low ≤ point && point ≤ high else low < point && point < high

def nearer (tie : Tie) (x : Binary64) (digits : Nat) (k : Int) : Nat :=
  let (num, den) := x.ratio
  match compare (2 * num * Nat.pow 10 (-k).toNat) ((2 * digits + 1) * Nat.pow 10 k.toNat * den), tie with
  | .lt, _ => digits
  | .gt, _ => digits + 1
  | .eq, .up => digits + 1
  | .eq, .toEven => if digits % 2 == 0 then digits else digits + 1

def decimalScale (x : Binary64) (fuel : Nat) (k : Int) : Int :=
  match fuel with
  | 0 => k
  | fuel + 1 =>
    let (num, den) := x.ratio
    if num * Nat.pow 10 (-k).toNat < den * Nat.pow 10 k.toNat then k else decimalScale x fuel (k + 1)

def scaleEstimate (x : Binary64) : Int :=
  (x.exponent + x.mantissa.log2) * 30103 / 100000 - 1

def shortestFrom (tie : Tie) (x : Binary64) (scale : Int) : Nat → Int → Nat × Int
  | 0, k => (x.ratio.1 * Nat.pow 10 (-k).toNat / (x.ratio.2 * Nat.pow 10 k.toNat), k)
  | fuel + 1, k =>
    let (num, den) := x.ratio
    let below := num * Nat.pow 10 (-k).toNat / (den * Nat.pow 10 k.toNat)
    match x.readsBack below k, x.readsBack (below + 1) k with
    | true, true => (nearer tie x below k, k)
    | true, false => (below, k)
    | false, true => (below + 1, k)
    | false, false => shortestFrom tie x scale fuel (k - 1)

def stripZeros : Nat → Nat → Int → Nat × Int
  | 0, n, k => (n, k)
  | fuel + 1, n, k => if n != 0 && n % 10 == 0 then stripZeros fuel (n / 10) (k + 1) else (n, k)

def shortest (tie : Tie) (x : Binary64) : Nat × Int :=
  if x.isZero then (0, 0)
  else
    let scale := x.decimalScale 4 x.scaleEstimate
    let (digits, k) := x.shortestFrom tie scale 17 (scale - 1)
    stripZeros 20 digits k

def placePoint (ds : List Char) (whole : Int) : List Char × List Char :=
  if whole ≤ 0 then (['0'], List.replicate (-whole).toNat '0' ++ ds)
  else (ds.take whole.toNat ++ List.replicate (whole.toNat - ds.length) '0', ds.drop whole.toNat)

def signText (x : Binary64) : List Char := if x.negative then ['-'] else []

def plainText (x : Binary64) : List Char :=
  let (digits, k) := x.shortest .up
  let ds := Digits.ofNat digits
  let (whole, frac) := placePoint ds (k + ds.length)
  x.signText ++ whole ++ (if frac.isEmpty || x.isZero then [] else '.' :: frac)

/-- Numbers whose leading digit stands for `10 ^ e` with `-5 ≤ e < 16` are written in full with at
least one decimal; all others with a signed exponent of at least two digits above, one below. -/
def jsonText (x : Binary64) : List Char :=
  let (digits, k) := x.shortest .toEven
  let ds := Digits.ofNat digits
  let e := k + ds.length - 1
  if -5 ≤ e && e < 16 then
    let (whole, frac) := placePoint ds (e + 1)
    x.signText ++ whole ++ '.' :: (if frac.isEmpty then ['0'] else frac)
  else
    let mark := if e < 0 then ['e', '-'] else ['e', '+']
    let frac := ds.drop 1
    x.signText ++ ds.take 1 ++ (if frac.isEmpty then [] else '.' :: frac) ++ mark ++ Digits.ofNat e.natAbs

end Binary64

end ServiceCatalog
