import ServiceCatalog.Decimal.Binary64
import ServiceCatalog.Json.Basic

/-!
Number literals. A literal without point and exponent that fits in 64 bits is a whole number; every
other one is a binary number, taken from the leading digits that fit in 64 bits and scaled once by a
power of ten.
-/

namespace ServiceCatalog

namespace Json

structure Literal where
  negative : Bool
  whole : List Char
  fraction : Option (List Char)
  exponent : Option Int

namespace Literal

def spanDigits (cs : List Char) : List Char × List Char := cs.span Char.isDigit

def takeSign : List Char → Bool × List Char
  | '+' :: r => (false, r)
  | '-' :: r => (true, r)
  | r => (false, r)

def readExponent (cs : List Char) : Option (Option Int × List Char) :=
  match cs with
  | e :: r =>
    if e == 'e' || e == 'E' then
      let (negative, r) := takeSign r
      let (ds, rest) := spanDigits r
      if ds.isEmpty then none
      else some (some (if negative then -(Digits.toNat ds : Int) else Digits.toNat ds), rest)
    else some (none, cs)
  | [] => some (none, [])

def readFraction (cs : List Char) : Option (Option (List Char) × List Char) :=
  match cs with
  | '.' :: r =>
    let (ds, rest) := spanDigits r
    if ds.isEmpty then none else some (some ds, rest)
  | r => some (none, r)

def isWhole (ds : List Char) : Bool := !ds.isEmpty && (ds.length == 1 || ds.head? != some '0')

def readUnsigned (negative : Bool) (cs : List Char) : Option (Literal × List Char) := do
  let (ds, r) := spanDigits cs
  guard (isWhole ds)
  let (fraction, r) ← readFraction r
  let (exponent, r) ← readExponent r
  return (⟨negative, ds, fraction, exponent⟩, r)

def read : List Char → Option (Literal × List Char)
  | '-' :: r => readUnsigned true r
  | r => readUnsigned false r

def leading (n : Nat) : List Char → Nat × List Char
  | [] => (n, [])
  | c :: r =>
    if 10 * n + Digits.value c < UInt64.size then leading (10 * n + Digits.value c) r else (n, c :: r)

def float? (l : Literal) : Option Binary64 := do
  let (n, beyond) := leading 0 l.whole
  let (n, shift) := match beyond with
    | [] =>
      let fraction := l.fraction.getD []
      let (m, rest) := leading n fraction
      (m, -((fraction.length - rest.length : Nat) : Int))
    | _ =>
      let fraction := l.fraction.getD []
      let (m, rest) := leading n fraction
      (m, (beyond.length : Int) - (fraction.length - rest.length : Nat))
  let x ← Binary64.ofNat? n
  let y ← Decimal.scale? x (shift + l.exponent.getD 0)
  return { y with negative := l.negative }

def value (l : Literal) : Json :=
  let n := Digits.toNat l.whole
  let asFloat := (l.float?.map Json.float).getD .illegible
  match l.fraction, l.exponent with
  | none, none =>
    if l.negative then
      if n = 0 || 0x8000000000000000 < n then asFloat else .int (-n)
    else if n < UInt64.size then .int n else asFloat
  | _, _ => asFloat

end Literal

end Json

end ServiceCatalog
