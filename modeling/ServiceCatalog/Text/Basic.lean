namespace ServiceCatalog

def isBlank (c : Char) : Bool :=
  let n := c.toNat
  (0x09 ≤ n && n ≤ 0x0D) || n == 0x20 || n == 0x85 || n == 0xA0 || n == 0x1680
    || (0x2000 ≤ n && n ≤ 0x200A) || n == 0x2028 || n == 0x2029 || n == 0x202F || n == 0x205F
    || n == 0x3000

def isBlankText (s : String) : Bool := s.toList.all isBlank

def trimBlanks (cs : List Char) : List Char :=
  ((cs.dropWhile isBlank).reverse.dropWhile isBlank).reverse

namespace Digits

def char (d : Nat) : Char := Char.ofNat ('0'.toNat + d)

def value (c : Char) : Nat := c.toNat - '0'.toNat

def ofNat (n : Nat) : List Char :=
  if n < 10 then [char n] else ofNat (n / 10) ++ [char (n % 10)]
termination_by n

def toNatFrom (acc : Nat) (cs : List Char) : Nat :=
  cs.foldl (fun n c => 10 * n + value c) acc

def toNat (cs : List Char) : Nat := toNatFrom 0 cs

def ofInt (n : Int) : List Char :=
  if n < 0 then '-' :: ofNat n.natAbs else ofNat n.natAbs

end Digits

def natText (n : Nat) : String := String.ofList (Digits.ofNat n)

def intText (n : Int) : String := String.ofList (Digits.ofInt n)

def hexDigit (n : Nat) : Char :=
  if n < 10 then Char.ofNat ('0'.toNat + n) else Char.ofNat ('a'.toNat + n - 10)

def hexValue? (c : Char) : Option Nat :=
  if c.isDigit then some (c.toNat - '0'.toNat)
  else if 'a' ≤ c ∧ c ≤ 'f' then some (c.toNat - 'a'.toNat + 10)
  else if 'A' ≤ c ∧ c ≤ 'F' then some (c.toNat - 'A'.toNat + 10)
  else none

def lines : List Char → List (List Char)
  | [] => []
  | '\n' :: r => [] :: lines r
  | '\r' :: '\n' :: r => [] :: lines r
  | c :: r =>
    match lines r with
    | [] => [[c]]
    | l :: ls => (c :: l) :: ls

namespace Excerpt

def lineNumber (cs : List Char) (place : Nat) : Nat := (cs.take place).count '\n' + 1

def row (sought number : Nat) (line : List Char) : List Char :=
  let marker := if number = sought then ['>', '>', '>'] else [' ', ' ', ' ']
  let digits := Digits.ofNat number
  marker ++ [' '] ++ List.replicate (4 - digits.length) ' ' ++ digits ++ [' ', '|', ' '] ++ line

def rows (cs : List Char) (sought : Nat) : List (List Char) :=
  let all := lines cs
  let first := sought - 2
  let last := min (sought + 1) all.length
  (((all.take last).drop first).zipIdx (first + 1)).map fun (line, number) => row sought number line

def text (cs : List Char) (sought : Nat) : List Char := ['\n'].intercalate (rows cs sought)

end Excerpt

end ServiceCatalog
