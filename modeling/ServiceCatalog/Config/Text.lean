import ServiceCatalog.Config.Basic
import ServiceCatalog.Text.Basic
import ServiceCatalog.Toml.Basic

namespace ServiceCatalog

namespace Config

open Toml

def isEmptyItem : Item → Bool
  | .array [] => true
  | .table _ [] => true
  | _ => false

def readPolicy (item : Item) : Except (Option Nat) DuplicatePolicy :=
  match item with
  | .string s =>
    match DuplicatePolicy.ofName? s with
    | some p => .ok p
    | none => .error none
  | .table _ [(k, place, content)] =>
    match DuplicatePolicy.ofName? k.name with
    | none => .error (some k.place)
    | some p => if isEmptyItem content then .ok p else .error place
  | _ => .error none

variable (codec : Codec)

/-- Takes over a field. What is wrong is placed at the key if it is unknown, else at the value or, if that has no
place, at the key. -/
def readField (c : Config) (field : Key × Option Nat × Item) : Except Toml.Fault Config :=
  let (k, place, item) := field
  let here := place.getD k.place
  let refuse (left : Nat) : Except Toml.Fault Config := .error ⟨some left, codec.misfit k item⟩
  match k.name, item with
  | "store_path", .string s => .ok { c with storePath := some (.ofText s) }
  | "user", .string s => .ok { c with user := some s }
  | "page_size", .integer n => if n < 0 then refuse here else .ok { c with pageSize := n.toNat }
  | "duplicate_capabilities", item =>
    match readPolicy item with
    | .ok p => .ok { c with policy := p }
    | .error inner => refuse (inner.getD here)
  | name, _ => refuse (if fieldNames.contains name then here else k.place)

inductive TextFault where
  | illegible (cs : List Char) (place : Option Nat) (message : String)
  | invalid (fault : Fault)

def TextFault.message : TextFault → String
  | .illegible _ none message => "TOML parsing error: " ++ message
  | .illegible cs (some place) message =>
    let n := Excerpt.lineNumber cs place
    "TOML parsing error at line " ++ natText n ++ ":\n" ++ String.ofList (Excerpt.text cs n) ++
      "\n\nError: " ++ message
  | .invalid fault => fault.message

def readUnchecked (s : String) : Except TextFault Config :=
  match codec.read s >>= List.foldlM (readField codec) default with
  | .ok c => .ok c
  | .error fault => .error (.illegible s.toList (fault.left.map (s.toList.length - ·)) fault.message)

def read (s : String) : Except TextFault Config := do
  let c ← readUnchecked codec s
  match c.check with
  | .ok () => return c
  | .error fault => throw (.invalid fault)

def fields? (c : Config) : Option (List (String × Leaf)) :=
  let others := (c.user.map fun s => ("user", Leaf.text s)).toList ++
    [("duplicate_capabilities", .text c.policy.name), ("page_size", .whole c.pageSize)]
  match c.storePath with
  | none => some others
  | some p => p.text?.map fun s => ("store_path", .text s) :: others

def text? (c : Config) : Option String := do codec.write? (← c.fields?)

def textFault : String := "Failed to serialize configuration to TOML"

end Config

end ServiceCatalog
