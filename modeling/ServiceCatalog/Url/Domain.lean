import ServiceCatalog.Url.Address

namespace ServiceCatalog

namespace Domain

def inRanges (ranges : List (Nat × Nat)) (c : Char) : Bool :=
  ranges.any fun (low, high) => low ≤ c.toNat && c.toNat ≤ high

def isForbidden (c : Char) : Bool :=
  c.toNat ≤ 0x20 || c.toNat == 0x7F || "%#/:<>?@[\\]^|".toList.contains c

def ignored : List (Nat × Nat) :=
  [(0xAD, 0xAD), (0x34F, 0x34F), (0x180B, 0x180D), (0x180F, 0x180F), (0x200B, 0x200B),
   (0x2060, 0x2060), (0x2064, 0x2064), (0xFE00, 0xFE0F), (0xFEFF, 0xFEFF), (0x1BCA0, 0x1BCA3),
   (0xE0100, 0xE01EF)]

def disallowed : List (Nat × Nat) :=
  [(0x80, 0x9F), (0x61C, 0x61C), (0x6DD, 0x6DD), (0x70F, 0x70F), (0x1680, 0x1680), (0x180E, 0x180E),
   (0x200E, 0x200F), (0x2028, 0x202E), (0x2061, 0x2063), (0x2065, 0x206F), (0x2FF0, 0x2FFF),
   (0xD800, 0xF8FF), (0xFDD0, 0xFDEF), (0xFFF0, 0xFFFF), (0x1D173, 0x1D17A), (0x1FFFE, 0x1FFFF),
   (0x2FFFE, 0x2FFFF), (0x3FFFE, 0x3FFFF), (0x40000, 0xE00FF), (0xE01F0, 0x10FFFF)]

def wideBlanks : List (Nat × Nat) :=
  [(0xA0, 0xA0), (0x2000, 0x200A), (0x202F, 0x202F), (0x205F, 0x205F), (0x3000, 0x3000)]

def marks : List (Nat × Nat) :=
  [(0x300, 0x36F), (0x483, 0x489), (0x591, 0x5BD), (0x64B, 0x65F), (0x900, 0x903), (0x1AB0, 0x1AFF),
   (0x1DC0, 0x1DFF), (0x20D0, 0x20FF), (0x302A, 0x302F), (0x3099, 0x309A), (0xFE20, 0xFE2F)]

def mapChar? (c : Char) : Option (List Char) :=
  if c.toNat < 0x80 then some [c.toLower]
  else if inRanges ignored c then some []
  else if inRanges disallowed c then none
  else if inRanges wideBlanks c then some [' ']
  else if c.toNat == 0x3002 || c.toNat == 0xFF0E || c.toNat == 0xFF61 then some ['.']
  else if 0xFF01 ≤ c.toNat && c.toNat ≤ 0xFF5E then some [(Char.ofNat (c.toNat - 0xFEE0)).toLower]
  else some [c]

def digit? (c : Char) : Option Nat :=
  if 'a' ≤ c ∧ c ≤ 'z' then some (c.toNat - 'a'.toNat)
  else if c.isDigit then some (c.toNat - '0'.toNat + 26)
  else none

def adapt (delta count : Nat) (first : Bool) : Nat :=
  let delta := if first then delta / 700 else delta / 2
  let rec shrink : Nat → Nat → Nat → Nat
    | 0, _, k => k
    | fuel + 1, d, k => if 455 < d then shrink fuel (d / 35) (k + 36) else k + 36 * d / (d + 38)
  shrink 32 (delta + delta / count) 0

def number? (bias : Nat) : Nat → Nat → Nat → List Char → Option (Nat × List Char)
  | _, _, _, [] => none
  | value, weight, k, c :: r => do
    let d ← digit? c
    let value := value + d * weight
    let t := if k ≤ bias then 1 else if bias + 26 ≤ k then 26 else k - bias
    if value ≥ UInt32.size then none
    if d < t then return (value, r) else number? bias value (weight * (36 - t)) (k + 36) r

def decodeFrom : Nat → Nat → Nat → Nat → List Char → List Char → Option (List Char)
  | _, _, _, _, out, [] => some out
  | 0, _, _, _, _, _ => none
  | fuel + 1, code, index, bias, out, cs => do
    let (delta, r) ← number? bias 0 1 36 cs
    let size := out.length + 1
    let code := code + (index + delta) / size
    let place := (index + delta) % size
    if 0x10FFFF < code || (0xD800 ≤ code && code ≤ 0xDFFF) then none
    decodeFrom fuel code (place + 1) (adapt delta size (index == 0))
      (out.take place ++ Char.ofNat code :: out.drop place) r

def decodeLabel? (cs : List Char) : Option (List Char) :=
  let tail := (cs.reverse.takeWhile (· != '-')).reverse
  let plain := if tail.length == cs.length then [] else cs.take (cs.length - tail.length - 1)
  decodeFrom tail.length 0x80 0 72 plain tail

def startsWithMark (cs : List Char) : Bool := (cs.head?.map (inRanges marks)).getD false

def isLabel (cs : List Char) : Bool :=
  if "xn--".toList.isPrefixOf cs then
    match decodeLabel? (cs.drop 4) with
    | some out =>
      out.any (fun c => 0x80 ≤ c.toNat) && !startsWithMark out
        && out.all fun c => c.toNat < 0x80 || mapChar? c == some [c]
    | none => false
  else !startsWithMark cs

def ofHost? (cs : List Char) : Option (List Char) := do
  let mapped := (← cs.mapM mapChar?).flatten
  if mapped.any isForbidden || !(mapped.splitOn '.').all isLabel then none else return mapped

end Domain

end ServiceCatalog
