import ServiceCatalog.Json.Number

namespace ServiceCatalog

namespace Json

def nestingLimit : Nat := 127

def isSpace (c : Char) : Bool := c == ' ' || c == '\n' || c == '\t' || c == '\r'

def skipSpace (cs : List Char) : List Char := cs.dropWhile isSpace

inductive Piece where
  | char (c : Char)
  | unit (n : Nat)

def escaped? : Char → Option Char
  | '"' => some '"'
  | '\\' => some '\\'
  | '/' => some '/'
  | 'b' => some '\x08'
  | 'f' => some '\x0c'
  | 'n' => some '\n'
  | 'r' => some '\r'
  | 't' => some '\t'
  | _ => none

def pieces (acc : List Piece) : List Char → Option (List Piece × List Char)
  | [] => none
  | '"' :: r => some (acc.reverse, r)
  | '\\' :: 'u' :: a :: b :: c :: d :: r =>
    match hexValue? a, hexValue? b, hexValue? c, hexValue? d with
    | some a, some b, some c, some d => pieces (.unit (((a * 16 + b) * 16 + c) * 16 + d) :: acc) r
    | _, _, _, _ => none
  | '\\' :: e :: r =>
    match escaped? e with
    | some c => pieces (.char c :: acc) r
    | none => none
  | c :: r => if c.toNat < 0x20 || c == '\\' then none else pieces (.char c :: acc) r

def isHighSurrogate (n : Nat) : Bool := 0xD800 ≤ n && n < 0xDC00
def isLowSurrogate (n : Nat) : Bool := 0xDC00 ≤ n && n < 0xE000

def pieceText? (acc : List Char) : List Piece → Option (List Char)
  | [] => some acc.reverse
  | .char c :: r => pieceText? (c :: acc) r
  | .unit h :: .unit l :: r =>
    if isHighSurrogate h then
      if isLowSurrogate l then
        pieceText? (Char.ofNat (0x10000 + (h - 0xD800) * 0x400 + (l - 0xDC00)) :: acc) r
      else none
    else if isLowSurrogate h then none
    else pieceText? (Char.ofNat h :: acc) (.unit l :: r)
  | .unit h :: r =>
    if isHighSurrogate h || isLowSurrogate h then none else pieceText? (Char.ofNat h :: acc) r

def readString (cs : List Char) : Option (Option String × List Char) :=
  (pieces [] cs).map fun (ps, r) => ((pieceText? [] ps).map String.ofList, r)

def readWord (word : List Char) (j : Json) (cs : List Char) : Option (Json × List Char) :=
  if word.isPrefixOf cs then some (j, cs.drop word.length) else none

mutual

def readValue : Nat → Nat → List Char → Option (Json × List Char)
  | 0, _, _ => none
  | fuel + 1, depth, cs =>
    match skipSpace cs with
    | [] => none
    | '"' :: r => (readString r).map fun (s, r) => ((s.map Json.str).getD .illegible, r)
    | '[' :: r => do
      let (items, r) ← readItems fuel (depth - 1) r
      return (if depth = 0 then .illegible else .arr items, r)
    | '{' :: r => do
      let (fields, r) ← readFields fuel (depth - 1) r
      match fields with
      | some fields => return (if depth = 0 then .illegible else .obj fields, r)
      | none => return (.illegible, r)
    | 'n' :: r => readWord ['u', 'l', 'l'] .null r
    | 't' :: r => readWord ['r', 'u', 'e'] (.bool true) r
    | 'f' :: r => readWord ['a', 'l', 's', 'e'] (.bool false) r
    | c :: r => (Literal.read (c :: r)).map fun (l, r) => (l.value, r)

def readItems : Nat → Nat → List Char → Option (List Json × List Char)
  | 0, _, _ => none
  | fuel + 1, depth, cs =>
    match skipSpace cs with
    | ']' :: r => some ([], r)
    | r => do
      let (j, r) ← readValue fuel depth r
      let (js, r) ← readMoreItems fuel depth r
      return (j :: js, r)

def readMoreItems : Nat → Nat → List Char → Option (List Json × List Char)
  | 0, _, _ => none
  | fuel + 1, depth, cs =>
    match skipSpace cs with
    | ']' :: r => some ([], r)
    | ',' :: r => do
      let (j, r) ← readValue fuel depth r
      let (js, r) ← readMoreItems fuel depth r
      return (j :: js, r)
    | _ => none

def readFields : Nat → Nat → List Char → Option (Option (List (String × Json)) × List Char)
  | 0, _, _ => none
  | fuel + 1, depth, cs =>
    match skipSpace cs with
    | '}' :: r => some (some [], r)
    | r => do
      let (k, j, r) ← readField fuel depth r
      let (fs, r) ← readMoreFields fuel depth r
      return (do return (← k, j) :: (← fs), r)

def readMoreFields : Nat → Nat → List Char → Option (Option (List (String × Json)) × List Char)
  | 0, _, _ => none
  | fuel + 1, depth, cs =>
    match skipSpace cs with
    | '}' :: r => some (some [], r)
    | ',' :: r => do
      let (k, j, r) ← readField fuel depth r
      let (fs, r) ← readMoreFields fuel depth r
      return (do return (← k, j) :: (← fs), r)
    | _ => none

def readField : Nat → Nat → List Char → Option (Option String × Json × List Char)
  | 0, _, _ => none
  | fuel + 1, depth, cs =>
    match skipSpace cs with
    | '"' :: r => do
      let (k, r) ← readString r
      match skipSpace r with
      | ':' :: r =>
        let (j, r) ← readValue fuel depth r
        return (k, j, r)
      | _ => none
    | _ => none

end

def readFront (cs : List Char) : Option (Json × List Char) :=
  readValue (3 * cs.length + 3) nestingLimit cs

def readAll (cs : List Char) : Option Json := do
  let (j, r) ← readFront cs
  if (skipSpace r).isEmpty then return j else none

def read? (s : String) : Option Json := readAll s.toList

end Json

def Value.read? (s : String) : Option Value := do
  let j ← Json.read? s
  if j.legible then return .ofTree j else none

end ServiceCatalog
