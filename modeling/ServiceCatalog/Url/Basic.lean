import ServiceCatalog.Url.Domain

/-!
Which texts are absolute web addresses. An address fails only by its scheme, its host or its port; paths,
queries and fragments take any text.
-/

namespace ServiceCatalog

namespace Url

inductive SchemeClass where
  | file
  | special
  | other
deriving DecidableEq

def SchemeClass.ofName (name : List Char) : SchemeClass :=
  if name == "file".toList then .file
  else if ["http", "https", "ws", "wss", "ftp"].any (·.toList == name) then .special
  else .other

def clean (cs : List Char) : List Char :=
  let isEdge (c : Char) : Bool := c.toNat ≤ 0x20
  let trimmed := ((cs.dropWhile isEdge).reverse.dropWhile isEdge).reverse
  trimmed.filter fun c => c != '\t' && c != '\n' && c != '\r'

def scheme? (cs : List Char) : Option (List Char × List Char) :=
  let isSchemeChar (c : Char) : Bool := c.isAlphanum || c == '+' || c == '-' || c == '.'
  match cs with
  | c :: _ =>
    let (name, rest) := cs.span isSchemeChar
    match c.isAlpha, rest with
    | true, ':' :: r => some (name.map Char.toLower, r)
    | _, _ => none
  | [] => none

def percentDecode : List UInt8 → List UInt8
  | 37 :: a :: b :: r =>
    let isHex (n : UInt8) : Bool := Address.isHexDigit (Char.ofNat n.toNat)
    let value (n : UInt8) : Nat := (hexValue? (Char.ofNat n.toNat)).getD 0
    if isHex a && isHex b then UInt8.ofNat (value a * 16 + value b) :: percentDecode r
    else 37 :: percentDecode (a :: b :: r)
  | n :: r => n :: percentDecode r
  | [] => []

def percentDecoded? (cs : List Char) : Option (List Char) :=
  let bytes := percentDecode (String.ofList cs).toUTF8.toList
  (String.fromUTF8? ⟨bytes.toArray⟩).map String.toList

def isBracketed (cs : List Char) : Bool :=
  cs.getLast? == some ']' && Address.isEightPieces (cs.drop 1).dropLast

def isHost (cs : List Char) : Bool :=
  if cs.head? == some '[' then isBracketed cs
  else match (percentDecoded? cs).bind Domain.ofHost? with
    | some domain =>
      !domain.isEmpty && (!Address.endsInNumber domain || Address.isFourBytes domain)
    | none => false

def isPlainHost (cs : List Char) : Bool :=
  if cs.head? == some '[' then isBracketed cs
  else !cs.any fun c => c == '\x00' || " #/:<>?@[\\]^|".toList.contains c

def authority (special : Bool) (cs : List Char) : List Char :=
  cs.takeWhile fun c => !(c == '/' || c == '?' || c == '#' || (special && c == '\\'))

def splitUser (cs : List Char) : Option (List Char) × List Char :=
  let host := (cs.reverse.takeWhile (· != '@')).reverse
  if host.length == cs.length then (none, cs)
  else (some (cs.take (cs.length - host.length - 1)), host)

def splitHost (bracketed : Bool) : List Char → List Char × List Char
  | [] => ([], [])
  | c :: r =>
    if c == ':' && !bracketed then ([], c :: r)
    else
      let (host, rest) := splitHost (if c == '[' then true else if c == ']' then false else bracketed) r
      (c :: host, rest)

def isPort (cs : List Char) : Bool :=
  let (ds, rest) := cs.span Char.isDigit
  (rest.isEmpty || rest.head? == some '\\') && (Digits.toNat ds < 65536)

def isAuthority (special : Bool) (cs : List Char) : Bool :=
  let whole := authority special cs
  let (user, rest) := splitUser whole
  let (host, port) := splitHost false rest
  let named := match user with
    | some u => u.any (· != ':') || 1 < u.length
    | none => false
  let emptyAfterAt := user == some [] && rest.isEmpty && cs.length != whole.length
  !emptyAfterAt
    && (if special then isHost host else isPlainHost host)
    && (if host.isEmpty then !special && port.isEmpty && !named else true)
    && (match port with
      | ':' :: p => isPort p
      | _ => true)

def isSlash (c : Char) : Bool := c == '/' || c == '\\'

def isDriveLetter : List Char → Bool
  | [c, d] => c.isAlpha && (d == ':' || d == '|')
  | _ => false

def isFileRest (cs : List Char) : Bool :=
  match cs with
  | a :: b :: r =>
    if isSlash a && isSlash b then
      let host := authority true r
      host.isEmpty || isDriveLetter host || isHost host
    else true
  | _ => true

def isAbsolute (s : String) : Bool :=
  match scheme? (clean s.toList) with
  | none => false
  | some (name, rest) =>
    match SchemeClass.ofName name with
    | .file => isFileRest rest
    | .special => isAuthority true (rest.dropWhile isSlash)
    | .other =>
      match rest with
      | '/' :: '/' :: r => isAuthority false r
      | _ => true

end Url

end ServiceCatalog
