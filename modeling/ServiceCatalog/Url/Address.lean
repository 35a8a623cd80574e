import ServiceCatalog.Text.Basic

namespace ServiceCatalog

namespace Address

def isHexDigit (c : Char) : Bool := (hexValue? c).isSome

def valueIn (base : Nat) (cs : List Char) : Nat := cs.foldl (fun n c => base * n + (hexValue? c).getD 0) 0

def part? (cs : List Char) : Option Nat :=
  match cs with
  | [] => none
  | '0' :: 'x' :: r | '0' :: 'X' :: r => if r.all isHexDigit then some (valueIn 16 r) else none
  | '0' :: c :: r =>
    if (c :: r).all (fun d => '0' ≤ d && d ≤ '7') then some (valueIn 8 (c :: r)) else none
  | cs => if cs.all Char.isDigit then some (valueIn 10 cs) else none

def dotted (cs : List Char) : List (List Char) :=
  let parts := cs.splitOn '.'
  if parts.getLast? == some [] && 1 < parts.length then parts.dropLast else parts

def endsInNumber (cs : List Char) : Bool :=
  match (dotted cs).getLast? with
  | some last => (!last.isEmpty && last.all Char.isDigit) || (part? last).isSome
  | none => false

def isFourBytes (cs : List Char) : Bool :=
  match (dotted cs).mapM part? with
  | none => false
  | some parts =>
    parts.length ≤ 4 && parts.dropLast.all (· ≤ 255)
      && (parts.getLast?.getD 0) < Nat.pow 256 (5 - parts.length)

def isPlainFourBytes (cs : List Char) : Bool :=
  let parts := cs.splitOn '.'
  parts.length == 4 && parts.all fun p =>
    !p.isEmpty && p.all Char.isDigit && (p.length == 1 || p.head? != some '0')
      && valueIn 10 p ≤ 255

def piecesFrom : Nat → Nat → Bool → List Char → Bool
  | _, count, compressed, [] => compressed || count == 8
  | 0, _, _, _ => false
  | fuel + 1, count, compressed, c :: r =>
    if count == 8 then false
    else if c == ':' then !compressed && piecesFrom fuel (count + 1) true r
    else
      let digits := ((c :: r).take 4).takeWhile isHexDigit
      match (c :: r).drop digits.length with
      | [] => piecesFrom fuel (count + 1) compressed []
      | '.' :: _ =>
        !digits.isEmpty && count ≤ 6 && isPlainFourBytes (c :: r) && (compressed || count == 6)
      | ':' :: rest => !rest.isEmpty && piecesFrom fuel (count + 1) compressed rest
      | _ => false

def isEightPieces (cs : List Char) : Bool :=
  match cs with
  | ':' :: ':' :: r => piecesFrom r.length 1 true r
  | ':' :: _ => false
  | [] | [_] => false
  | cs => piecesFrom cs.length 0 false cs

end Address

end ServiceCatalog
