import ServiceCatalog.Wire.Basic

namespace ServiceCatalog

structure Uuid where
  bits : BitVec 128
deriving DecidableEq

namespace Uuid

def groups : List Nat := [8, 4, 4, 4, 12]

def hexDigits (n : Nat) : Nat → List Char
  | 0 => []
  | k + 1 => hexDigits (n / 16) k ++ [hexDigit (n % 16)]

def splitGroups (cs : List Char) : List Nat → List (List Char)
  | [] => []
  | k :: r => cs.take k :: splitGroups (cs.drop k) r

def text (u : Uuid) : String :=
  String.ofList (List.intercalate ['-'] (splitGroups (hexDigits u.bits.toNat 32) groups))

def ofHex? (cs : List Char) : Option Uuid := do
  if cs.length ≠ 32 then none
  let ds ← cs.mapM hexValue?
  return ⟨BitVec.ofNat 128 (ds.foldl (fun n d => 16 * n + d) 0)⟩

def ungroup? (cs : List Char) : List Nat → Option (List Char)
  | [] => if cs.isEmpty then some [] else none
  | [k] => if cs.length = k then some cs else none
  | k :: r =>
    match cs.drop k with
    | '-' :: rest => (ungroup? rest r).map (cs.take k ++ ·)
    | _ => none

def ofHyphenated? (cs : List Char) : Option Uuid := do ofHex? (← ungroup? cs groups)

def ofText? (s : String) : Option Uuid :=
  let cs := s.toList
  match cs.length with
  | 32 => ofHex? cs
  | 36 => ofHyphenated? cs
  | 38 =>
    if cs.head? == some '{' && cs.getLast? == some '}' then ofHyphenated? (cs.drop 1).dropLast
    else none
  | 45 => if "urn:uuid:".toList.isPrefixOf cs then ofHyphenated? (cs.drop 9) else none
  | _ => none

instance : Wire Uuid where
  encode u := .str u.text
  decode j := j.str?.bind ofText?

end Uuid

end ServiceCatalog
