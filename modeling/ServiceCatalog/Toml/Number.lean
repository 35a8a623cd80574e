import ServiceCatalog.Decimal.Binary64
import ServiceCatalog.Toml.Basic
import ServiceCatalog.Toml.Quoted

namespace ServiceCatalog

namespace Toml

def digits? (isDigit : Char → Bool) : List Char → Option (List Char × List Char)
  | '_' :: _ => none
  | [] => none
  | c :: r => if isDigit c then (more [c] r) else none
where
  more (acc : List Char) : List Char → Option (List Char × List Char)
    | '_' :: c :: r => if isDigit c then more (c :: acc) r else none
    | '_' :: [] => none
    | c :: r => if isDigit c then more (c :: acc) r else some (acc.reverse, c :: r)
    | [] => some (acc.reverse, [])

def wholeDigits? : List Char → Option (List Char × List Char)
  | '0' :: r => some (['0'], r)
  | cs => digits? Char.isDigit cs

def integerItem? (n : Int) : Option Item :=
  if -0x8000000000000000 ≤ n ∧ n < 0x8000000000000000 then some (.integer n) else none

def basedInteger? (base : Nat) (cs : List Char) : Option (Item × List Char) := do
  let (ds, r) ← digits? (fun c => (hexValue? c).any (· < base)) cs
  let n := ds.foldl (fun n c => base * n + (hexValue? c).getD 0) 0
  return (← integerItem? n, r)

def exponent? : List Char → Option (Option Int × List Char)
  | c :: r =>
    if c == 'e' || c == 'E' then do
      let (negative, r) := match r with
        | '-' :: r => (true, r)
        | '+' :: r => (false, r)
        | r => (false, r)
      let (ds, r) ← digits? Char.isDigit r
      let n : Int := Digits.toNat ds
      return (some (if negative then -n else n), r)
    else some (none, c :: r)
  | [] => some (none, [])

def floatItem? (d : Decimal) : Option Item :=
  if d.negative || d.nearest?.isSome then some .float else none

def decimalNumber? (negative : Bool) (cs : List Char) : Option (Item × List Char) := do
  let (whole, r) ← wholeDigits? cs
  let (fraction, r) ← match r with
    | '.' :: r => (digits? Char.isDigit r).map fun (ds, r) => (some ds, r)
    | r => some (none, r)
  let (exponent, r) ← exponent? r
  if fraction.isNone && exponent.isNone then
    let n : Int := Digits.toNat whole
    return (← integerItem? (if negative then -n else n), r)
  else
    let fraction := fraction.getD []
    let digits := Digits.toNat (whole ++ fraction)
    return (← floatItem? ⟨negative, digits, exponent.getD 0 - fraction.length⟩, r)

def number? : List Char → Option (Item × List Char)
  | '0' :: 'x' :: r => basedInteger? 16 r
  | '0' :: 'o' :: r => basedInteger? 8 r
  | '0' :: 'b' :: r => basedInteger? 2 r
  | cs =>
    let (negative, r) := match cs with
      | '-' :: r => (true, r)
      | '+' :: r => (false, r)
      | r => (false, r)
    match r with
    | 'i' :: 'n' :: 'f' :: r => some (.float, r)
    | 'n' :: 'a' :: 'n' :: r => some (.float, r)
    | r => decimalNumber? negative r

def twoDigits? (low high : Nat) : List Char → Option (Nat × List Char)
  | a :: b :: r =>
    let n := Digits.toNat [a, b]
    if a.isDigit && b.isDigit && low ≤ n && n ≤ high then some (n, r) else none
  | _ => none

def monthLength (year month : Nat) : Nat :=
  if month == 2 then if year % 4 == 0 && (year % 100 != 0 || year % 400 == 0) then 29 else 28
  else if month == 4 || month == 6 || month == 9 || month == 11 then 30
  else 31

def skip? (c : Char) : List Char → Option (List Char)
  | d :: r => if d == c then some r else none
  | [] => none

def dateAfterYear? (year : Nat) (cs : List Char) : Option (List Char) := do
  let (month, r) ← twoDigits? 1 12 cs
  let (_, r) ← twoDigits? 1 (monthLength year month) (← skip? '-' r)
  return r

def timeAfterHour? (cs : List Char) : Option (List Char) := do
  let (_, r) ← twoDigits? 0 59 cs
  let (_, r) ← twoDigits? 0 60 (← skip? ':' r)
  match r with
  | '.' :: d :: r' => return if d.isDigit then r'.dropWhile Char.isDigit else r
  | r => return r

def hour? (cs : List Char) : Option (List Char) := do
  let (_, r) ← twoDigits? 0 23 cs
  skip? ':' r

def offset? : List Char → Option (List Char)
  | 'Z' :: r | 'z' :: r => some r
  | '+' :: r | '-' :: r =>
    match hour? r with
    | some r => (twoDigits? 0 59 r).map (·.2)
    | none => none
  | r => some r

def moment? : List Char → Option (Option (List Char))
  | cs@(a :: b :: c :: d :: '-' :: r) =>
    if a.isDigit && b.isDigit && c.isDigit && d.isDigit then
      some do
        let r ← dateAfterYear? (Digits.toNat [a, b, c, d]) r
        match r with
        | t :: r' =>
          if t == 'T' || t == 't' || t == ' ' then
            match hour? r' with
            | some r => offset? (← timeAfterHour? r)
            | none => return r
          else return r
        | [] => return []
    else (hour? cs).map timeAfterHour?
  | cs => (hour? cs).map timeAfterHour?

end Toml

end ServiceCatalog
