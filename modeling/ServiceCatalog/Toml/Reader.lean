import ServiceCatalog.Toml.Number

namespace ServiceCatalog

namespace Toml

def isBareKey (c : Char) : Bool := c.isAlphanum || c == '-' || c == '_'

def nestingLimit : Nat := 80

def readSimpleKey (cs : List Char) : Reading (Key × List Char) :=
  match cs with
  | '"' :: r => (basicBody r).map fun (name, r) => (⟨String.ofList name, cs.length⟩, r)
  | '\x27' :: r => (literalBody r).map fun (name, r) => (⟨String.ofList name, cs.length⟩, r)
  | cs =>
    match cs.span isBareKey with
    | ([], _) => .error cs
    | (name, r) => .ok (⟨String.ofList name, cs.length⟩, r)

def readKeyParts : Nat → List Key → List Char → Reading (KeyPath × List Char)
  | 0, _, cs => .error cs
  | fuel + 1, acc, cs => do
    let (k, r) ← readSimpleKey (skipSpace cs)
    match skipSpace r with
    | '.' :: r => readKeyParts fuel (k :: acc) r
    | r => return (⟨acc.reverse, k⟩, r)

def readKey (cs : List Char) : Reading (KeyPath × List Char) := do
  let (p, r) ← readKeyParts (cs.length + 1) [] cs
  if nestingLimit ≤ p.tables.length + 1 then .error cs else return (p, r)

def skipComment (cs : List Char) : List Char := cs.dropWhile isPrintable

def readLineEnd (cs : List Char) : Reading (List Char) :=
  let r := match skipSpace cs with
    | '#' :: r => skipComment r
    | r => r
  match r with
  | [] => .ok []
  | r =>
    match newline? r with
    | some r => .ok r
    | none => .error r

def skipLines : Nat → List Char → List Char
  | 0, cs => cs
  | fuel + 1, cs =>
    match skipSpace cs with
    | '#' :: r => skipLines fuel (skipComment r)
    | r =>
      match newline? r with
      | some r => skipLines fuel r
      | none => r

def skipGap (cs : List Char) : List Char := skipLines (cs.length + 1) cs

def readWord (word : List Char) (item : Item) (cs : List Char) : Reading (Item × List Char) :=
  if word.isPrefixOf cs then .ok (item, cs.drop word.length) else .error cs

def readNumber (cs : List Char) : Reading (Item × List Char) :=
  match moment? cs with
  | some (some r) => .ok (.moment, r)
  | some none => .error cs
  | none =>
    match number? cs with
    | some (item, r) => .ok (item, r)
    | none => .error cs

def readItems (readItem : List Char → Reading (Item × List Char)) :
    Nat → List Item → List Char → Reading (List Item × List Char)
  | 0, _, cs => .error cs
  | fuel + 1, acc, cs =>
    match skipGap cs with
    | ']' :: r => .ok (acc.reverse, r)
    | cs => do
      let (item, r) ← readItem cs
      match skipGap r with
      | ',' :: r => readItems readItem fuel (item :: acc) r
      | ']' :: r => return ((item :: acc).reverse, r)
      | r => .error r

structure Assignment where
  key : KeyPath
  place : Nat
  item : Item

def readAssignment (readItem : List Char → Reading (Item × List Char)) (cs : List Char) :
    Reading (Assignment × List Char) := do
  let (p, r) ← readKey cs
  match r with
  | '=' :: r =>
    let value := skipSpace r
    let (item, r) ← readItem value
    return (⟨p, value.length, item⟩, r)
  | r => .error r

def readAssignments (readItem : List Char → Reading (Item × List Char)) :
    Nat → List Assignment → List Char → Reading (List Assignment × List Char)
  | 0, _, cs => .error cs
  | fuel + 1, acc, cs => do
    let (a, r) ← readAssignment readItem cs
    match skipSpace r with
    | ',' :: r => readAssignments readItem fuel (a :: acc) r
    | '}' :: r => return ((a :: acc).reverse, r)
    | r => .error r

def Assignment.insert (t : Table) (a : Assignment) : Option Table := t.insert a.key a.place a.item

def readItem : Nat → List Char → Reading (Item × List Char)
  | 0, cs => .error cs
  | depth + 1, cs =>
    match cs with
    | [] => .error []
    | '[' :: r =>
      if depth == 0 then .error cs
      else (readItems (readItem depth) (r.length + 1) [] r).map fun (items, r) => (.array items, r)
    | '{' :: r =>
      if depth == 0 then .error cs
      else match skipSpace r with
        | '}' :: r => .ok (.table .braced [], r)
        | _ => do
          let (fields, rest) ← readAssignments (readItem depth) (r.length + 1) [] r
          match fields.foldlM Assignment.insert ([] : Table) with
          | some t => return (.table .braced t, rest)
          | none => .error r
    | 't' :: _ => readWord ['t', 'r', 'u', 'e'] (.boolean true) cs
    | 'f' :: _ => readWord ['f', 'a', 'l', 's', 'e'] (.boolean false) cs
    | 'i' :: _ | 'n' :: _ | '+' :: _ | '-' :: _ => readNumber cs
    | c :: _ =>
      match quoted? cs with
      | some reading => reading.map fun (text, r) => (.string (String.ofList text), r)
      | none => if c.isDigit then readNumber cs else .error cs

structure Draft where
  root : Table
  header : List Key

namespace Draft

def empty : Draft := ⟨[], []⟩

def insert (d : Draft) (a : Assignment) : Option Draft :=
  (Table.within false (fun _ t => a.insert t) d.header .given d.root).map
    fun root => { d with root := root }

def open? (d : Draft) (p : KeyPath) (place : Nat) : Option Draft :=
  (d.root.open? p place).map fun root => ⟨root, p.tables ++ [p.last]⟩

def append? (d : Draft) (p : KeyPath) (place : Nat) : Option Draft :=
  (d.root.append? p place).map fun root => ⟨root, p.tables ++ [p.last]⟩

def readEntry (d : Draft) (cs : List Char) : Reading (Draft × List Char) :=
  match cs with
  | '[' :: '[' :: r => do
    let (p, r) ← readKey r
    match r with
    | ']' :: ']' :: r => finish (d.append? p cs.length) r
    | r => .error r
  | '[' :: r => do
    let (p, r) ← readKey r
    match r with
    | ']' :: r => finish (d.open? p cs.length) r
    | r => .error r
  | cs => do
    let (a, r) ← readAssignment (readItem nestingLimit) cs
    finish (d.insert a) r
where
  finish (made : Option Draft) (rest : List Char) : Reading (Draft × List Char) := do
    let rest ← readLineEnd rest
    match made with
    | some d => return (d, rest)
    | none => .error cs

def readLines : Nat → Draft → List Char → Reading Draft
  | 0, _, cs => .error cs
  | fuel + 1, d, cs =>
    match skipGap cs with
    | [] => .ok d
    | r => do
      let (d, r) ← d.readEntry r
      readLines fuel d r

end Draft

def read (cs : List Char) : Except Nat Table :=
  let body := match cs with
    | '\uFEFF' :: r => r
    | r => r
  match Draft.readLines (body.length + 1) .empty body with
  | .ok d => .ok d.root
  | .error left => .error left.length

end Toml

end ServiceCatalog
