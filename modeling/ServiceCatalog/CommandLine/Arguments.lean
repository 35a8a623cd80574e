namespace ServiceCatalog.CommandLine

structure OptionSpec where
  name : String
  letter : Option Char
  takesValue : Bool
  takesAny : Bool
  repeatable : Bool

namespace OptionSpec

def flag (name : String) (letter : Option Char) : OptionSpec := ⟨name, letter, false, false, false⟩

def value (name : String) : OptionSpec := ⟨name, none, true, false, false⟩

def repeated (name : String) (takesAny : Bool) : OptionSpec := ⟨name, none, true, takesAny, true⟩

end OptionSpec

structure Arguments where
  settings : List (String × String)
  operands : List String

namespace Arguments

def looksLikeOption (s : String) : Bool :=
  match s.toList with
  | '-' :: _ :: _ => true
  | _ => false

abbrev Reading := Option (List (String × String) × Option OptionSpec)

def readName (specs : List OptionSpec) (cs : List Char) : Reading := do
  let name := String.ofList (cs.takeWhile (· != '='))
  let spec ← specs.find? (·.name == name)
  match cs.dropWhile (· != '='), spec.takesValue with
  | _ :: value, true => return ([(name, String.ofList value)], none)
  | [], true => return ([], some spec)
  | [], false => return ([(name, "")], none)
  | _ :: _, false => none

def attached : List Char → String
  | '=' :: value => String.ofList value
  | value => String.ofList value

def readLetters (specs : List OptionSpec) : List Char → Reading
  | [] => some ([], none)
  | c :: cs => do
    let spec ← specs.find? (·.letter == some c)
    if !spec.takesValue then
      let (settings, waiting) ← readLetters specs cs
      return ((spec.name, "") :: settings, waiting)
    else if cs.isEmpty then return ([], some spec)
    else return ([(spec.name, attached cs)], none)

def prepend (settings : List (String × String)) (a : Arguments) : Arguments :=
  { a with settings := settings ++ a.settings }

def readFrom (specs : List OptionSpec) (front : Bool) :
    Option OptionSpec → List String → Option Arguments
  | none, [] => some ⟨[], []⟩
  | some _, [] => none
  | some spec, s :: rest =>
    if looksLikeOption s && !spec.takesAny then none
    else (readFrom specs front none rest).map (prepend [(spec.name, s)])
  | none, s :: rest =>
    match s.toList with
    | ['-', '-'] => if front then none else some ⟨[], rest⟩
    | '-' :: '-' :: cs => do
      let (settings, waiting) ← readName specs cs
      return (← readFrom specs front waiting rest).prepend settings
    | '-' :: c :: cs => do
      let (settings, waiting) ← readLetters specs (c :: cs)
      return (← readFrom specs front waiting rest).prepend settings
    | _ =>
      if front then some ⟨[], s :: rest⟩
      else (readFrom specs front none rest).map fun a => { a with operands := s :: a.operands }

def respects (specs : List OptionSpec) (a : Arguments) : Bool :=
  specs.all fun spec => spec.repeatable || (a.settings.filter (·.1 == spec.name)).length ≤ 1

def read (specs : List OptionSpec) (front : Bool) (args : List String) : Option Arguments :=
  (readFrom specs front none args).filter (respects specs)

def value? (a : Arguments) (name : String) : Option String :=
  (a.settings.find? (·.1 == name)).map (·.2)

def values (a : Arguments) (name : String) : List String :=
  (a.settings.filter (·.1 == name)).map (·.2)

def has (a : Arguments) (name : String) : Bool := (a.value? name).isSome

def readValue {α : Type} (a : Arguments) (name : String) (form : String → Option α) :
    Option (Option α) :=
  match a.value? name with
  | none => some none
  | some s => (form s).map some

def required {α : Type} (a : Arguments) (name : String) (form : String → Option α) : Option α :=
  (a.value? name).bind form

end Arguments

end ServiceCatalog.CommandLine
