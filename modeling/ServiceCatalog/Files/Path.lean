import ServiceCatalog.Text.Basic

namespace ServiceCatalog

/-- What a path is made of: characters, and bytes between them that make up none. -/
inductive PathUnit where
  | char (c : Char)
  | stray (bytes : List UInt8)
deriving DecidableEq

namespace PathUnit

def char? : PathUnit → Option Char
  | char c => some c
  | stray _ => none

def shown : PathUnit → Char
  | char c => c
  | stray _ => '\uFFFD'

end PathUnit

abbrev PathText := List PathUnit

namespace PathText

def of (s : String) : PathText := s.toList.map .char

def text? (t : PathText) : Option String := (t.mapM PathUnit.char?).map String.ofList

def display (t : PathText) : String := String.ofList (t.map PathUnit.shown)

end PathText

structure Path where
  units : PathText
deriving DecidableEq

abbrev Location := List PathText

namespace Location

def of (names : List String) : Location := names.map PathText.of

def steps (l : Location) : List Location :=
  (List.range l.length).map fun n => l.take (n + 1)

def draftName (process : Nat) (l : Location) : String :=
  "." ++ (l.getLast?.map PathText.display).getD "catalog.json" ++ "." ++ natText process ++ ".tmp"

def draft (process : Nat) (l : Location) : Location := l.dropLast ++ [.of (l.draftName process)]

end Location

namespace Path

def ofText (s : String) : Path := ⟨.of s⟩

def text? (p : Path) : Option String := p.units.text?

def display (p : Path) : String := p.units.display

def isAbsolute (p : Path) : Bool := p.units.head? == some (.char '/')

def join (directory p : Path) : Path :=
  if p.isAbsolute then p
  else
    match directory.units.getLast? with
    | none | some (.char '/') => ⟨directory.units ++ p.units⟩
    | some _ => ⟨directory.units ++ .char '/' :: p.units⟩

def pieces (t : PathText) : List PathText :=
  t.foldr (fun u acc =>
    if u = .char '/' then [] :: acc
    else match acc with
      | [] => [[u]]
      | p :: r => (u :: p) :: r) [[]]

def descend (l : Location) : PathText → Location
  | [] => l
  | [.char '.'] => l
  | [.char '.', .char '.'] => l.dropLast
  | name => l ++ [name]

def location? (origin : Location) (p : Path) : Option Location :=
  if p.units.isEmpty then none
  else some ((pieces p.units).foldl descend (if p.isAbsolute then [] else origin))

def trimEnd : PathText → PathText
  | [.char '/'] => [.char '/']
  | .char '/' :: r => trimEnd r
  | .char '.' :: .char '/' :: r => trimEnd (.char '/' :: r)
  | t => t

def parent? (p : Path) : Option Path :=
  match trimEnd p.units.reverse with
  | [] | [.char '/'] => none
  | t => some ⟨(trimEnd (t.dropWhile (· ≠ .char '/'))).reverse⟩

end Path

end ServiceCatalog
