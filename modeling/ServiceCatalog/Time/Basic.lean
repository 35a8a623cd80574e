import ServiceCatalog.Text.Basic

namespace ServiceCatalog

structure Date where
  year : Int
  month : Nat
  day : Nat
deriving DecidableEq

namespace Date

def cycle : Nat := 146097

def yearOfCycle (day : Nat) : Nat := (day - day / 1460 + day / 36524 - day / 146096) / 365

def ofDayOfYear (day : Nat) : Nat × Nat :=
  let month := (5 * day + 2) / 153
  (if month < 10 then month + 3 else month - 9, day - (153 * month + 2) / 5 + 1)

/-- The date a number of days after the start of 1970. A cycle starts 719468 days before that. -/
def ofDays (days : Int) : Date :=
  let since := days + 719468
  let day := (since % cycle).toNat
  let year := yearOfCycle day
  let (month, dayOfMonth) := ofDayOfYear (day - (365 * year + year / 4 - year / 100))
  ⟨400 * (since / cycle) + year + (if month ≤ 2 then 1 else 0), month, dayOfMonth⟩

end Date

def zeroPadded (width n : Nat) : String :=
  let ds := Digits.ofNat n
  String.ofList (List.replicate (width - ds.length) '0' ++ ds)

def yearText (year : Int) : String :=
  (if year < 0 then "-" else if 9999 < year then "+" else "") ++ zeroPadded 4 year.natAbs

def timestampText (moment : Int64) : String :=
  let seconds := moment.toInt / 1000
  let date := Date.ofDays (seconds / 86400)
  let second := (seconds % 86400).toNat
  if -262143 ≤ date.year ∧ date.year ≤ 262142 then
    yearText date.year ++ "-" ++ zeroPadded 2 date.month ++ "-" ++ zeroPadded 2 date.day ++ " "
      ++ zeroPadded 2 (second / 3600) ++ ":" ++ zeroPadded 2 (second / 60 % 60) ++ ":"
      ++ zeroPadded 2 (second % 60)
  else "-"

structure Duration where
  milliseconds : Nat
deriving DecidableEq

namespace Duration

def ofSeconds (n : Nat) : Duration := ⟨1000 * n⟩

def decimals (milliseconds : Nat) : List Char :=
  let ds := (Digits.ofNat (1000 + milliseconds % 1000)).drop 1
  (ds.reverse.dropWhile (· == '0')).reverse

def text (d : Duration) : String :=
  let seconds := d.milliseconds / 1000
  if 0 < seconds then
    let frac := decimals d.milliseconds
    natText seconds ++ (if frac.isEmpty then "" else "." ++ String.ofList frac) ++ "s"
  else if 0 < d.milliseconds then natText d.milliseconds ++ "ms"
  else "0ns"

end Duration

end ServiceCatalog
