/-!
Documents of keys and values in tables. A table that a header opens is given once; tables that a
longer path passes through are made on the way and may be given later.
-/

namespace ServiceCatalog

namespace Toml

structure Key where
  name : String
  place : Nat

structure KeyPath where
  tables : List Key
  last : Key

inductive Origin where
  | given
  | implied
  | dotted
  | braced
deriving DecidableEq

/-- A value. Of floating-point numbers and of dates only the kind is kept. -/
inductive Item where
  | string (text : String)
  | integer (n : Int)
  | boolean (b : Bool)
  | float
  | moment
  | array (items : List Item)
  | table (origin : Origin) (fields : List (Key × Option Nat × Item))
  | tables (latest : List (Key × Option Nat × Item))
      (earlier : List (List (Key × Option Nat × Item)))

abbrev Table := List (Key × Option Nat × Item)

namespace Table

def find? (t : Table) (name : String) : Option Item :=
  (List.find? (·.1.name == name) t).map (·.2.2)

def replace (t : Table) (name : String) (item : Item) : Table :=
  t.map fun (k, place, old) => (k, place, if k.name == name then item else old)

def remove (t : Table) (name : String) : Table := t.filter (·.1.name != name)

def passable (dotted : Bool) : Origin → Bool
  | .given => !dotted
  | .implied | .dotted => true
  | .braced => false

def within (dotted : Bool) (change : Origin → Table → Option Table) :
    List Key → Origin → Table → Option Table
  | [], origin, t => change origin t
  | k :: path, _, t =>
    match t.find? k.name with
    | none =>
      let made := if dotted then Origin.dotted else .implied
      (within dotted change path made []).map fun inner => t ++ [(k, none, .table made inner)]
    | some (.table origin inner) =>
      if passable dotted origin then
        (within dotted change path origin inner).map fun inner => t.replace k.name (.table origin inner)
      else none
    | some (.tables latest earlier) =>
      (within dotted change path .given latest).map fun latest =>
        t.replace k.name (.tables latest earlier)
    | some _ => none

def insert (t : Table) (p : KeyPath) (place : Nat) (item : Item) : Option Table :=
  within true (fun origin t =>
    if (!p.tables.isEmpty && origin != .dotted) || (t.find? p.last.name).isSome then none
    else some (t ++ [(p.last, some place, item)])) p.tables .given t

def open? (t : Table) (p : KeyPath) (place : Nat) : Option Table :=
  within false (fun _ t =>
    match t.find? p.last.name with
    | none => some (t ++ [(p.last, some place, .table .given [])])
    | some (.table .implied inner) =>
      some (t.remove p.last.name ++ [(p.last, some place, .table .given inner)])
    | some _ => none) p.tables .given t

def append? (t : Table) (p : KeyPath) (place : Nat) : Option Table :=
  within false (fun _ t =>
    match t.find? p.last.name with
    | none => some (t ++ [(p.last, some place, .tables [] [])])
    | some (.tables latest earlier) => some (t.replace p.last.name (.tables [] (latest :: earlier)))
    | some _ => none) p.tables .given t

end Table

inductive Leaf where
  | text (s : String)
  | whole (n : Nat)

def Leaf.item : Leaf → Item
  | text s => .string s
  | whole n => .integer n

structure Fault where
  left : Option Nat
  message : String

/-- What writes the fields of a document and reads documents, and what it says of a field that is not asked for or
holds something else than what is asked for. -/
structure Codec where
  write? : List (String × Leaf) → Option String
  read : String → Except Fault Table
  misfit : Key → Item → String

end Toml

end ServiceCatalog
