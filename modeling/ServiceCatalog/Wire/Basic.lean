import ServiceCatalog.Json.Printer
import ServiceCatalog.Json.Reader

/-!
The JSON form of a type: how a value is written and which trees are read as one. Records are read
from objects, or from arrays that list the fields in their order.
-/

namespace ServiceCatalog

class Wire (α : Type) where
  encode : α → Json
  decode : Json → Option α

export Wire (encode decode)

variable {α : Type}

namespace Wire

instance : Wire String where
  encode := .str
  decode := Json.str?

instance : Wire Bool where
  encode := .bool
  decode
    | .bool b => some b
    | _ => none

def decodeInt (low high : Int) : Json → Option Int
  | .int n => if low ≤ n ∧ n ≤ high then some n else none
  | _ => none

instance : Wire Int64 where
  encode n := .int n.toInt
  decode j := (decodeInt (-0x8000000000000000) 0x7fffffffffffffff j).map Int64.ofInt

instance : Wire UInt32 where
  encode n := .int n.toNat
  decode j := (decodeInt 0 0xffffffff j).map fun n => UInt32.ofNat n.toNat

instance : Wire Nat where
  encode n := .int n
  decode j := (decodeInt 0 0xffffffffffffffff j).map Int.toNat

instance : Wire Value where
  encode v := v.tree
  decode j := if j.legible then some (.ofTree j) else none

instance [Wire α] : Wire (List α) where
  encode l := .arr (l.map encode)
  decode
    | .arr items => items.mapM decode
    | _ => none

def decodeFields [Wire α] (fields : List (String × Json)) : Option (List (String × α)) :=
  fields.mapM fun (k, j) => (decode j).map (k, ·)

instance [Wire α] : Wire (Dict α) where
  encode d := .obj (d.entries.map fun (k, v) => (k, encode v))
  decode
    | .obj fields => (decodeFields fields).map Dict.ofList
    | _ => none

def decodeName (ofName? : String → Option α) : Json → Option α
  | .str s => ofName? s
  | .obj [(k, .null)] => ofName? k
  | _ => none

end Wire

/-- The fields of a record as they were sent: under their names, or listed in their order. -/
inductive Fields where
  | named (fields : List (String × Json))
  | listed (items : List Json)

abbrev FieldReader := StateT Fields Option

namespace Fields

def take (name : String) : FieldReader (Option Json) := fun fields =>
  match fields with
  | .named fs =>
    match fs.filter (·.1 == name) with
    | [] => some (none, fields)
    | [(_, j)] => some (some j, fields)
    | _ => none
  | .listed [] => some (none, fields)
  | .listed (j :: r) => some (some j, .listed r)

def required [Wire α] (name : String) : FieldReader α := do
  match ← take name with
  | none => failure
  | some j => (decode j : Option α)

def optional [Wire α] (name : String) : FieldReader (Option α) := do
  match ← take name with
  | none | some .null => return none
  | some j => return some (← (decode j : Option α))

def withDefault [Wire α] (name : String) (default : α) : FieldReader α := do
  match ← take name with
  | none => return default
  | some j => (decode j : Option α)

end Fields

def readRecord (reader : FieldReader α) : Json → Option α
  | .obj fields => (reader (.named fields)).map (·.1)
  | .arr items =>
    match reader (.listed items) with
    | some (a, .listed []) => some a
    | _ => none
  | _ => none

def toValue [Wire α] (a : α) : Value := .ofTree (encode a)

def decodeText? [Wire α] (text : String) : Option α := do decode (← Json.read? text)

def compactText [Wire α] (a : α) : String := (encode a).compact

def prettyText [Wire α] (a : α) : String := (encode a).pretty

end ServiceCatalog
