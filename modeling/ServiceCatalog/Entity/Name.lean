import ServiceCatalog.Text.Basic

/-!
Names of services and the qualified names made from them. A service stands at the top, so its
qualified name is its name, in quotes if it contains a dot.
-/

namespace ServiceCatalog

namespace Name

def maxLength : Nat := 256

inductive Fault where
  | blank
  | tooLong
  | separator (name : String)
  | quote (name : String)
deriving DecidableEq

namespace Fault

def message : Fault → String
  | .blank => "name must not be empty"
  | .tooLong => s!"name must be at most {maxLength} characters"
  | .separator name => s!"name '{name}' must not contain '::'"
  | .quote name => s!"name '{name}' must not contain '\"'"

end Fault

def hasSeparator : List Char → Bool
  | ':' :: ':' :: _ => true
  | _ :: r => hasSeparator r
  | [] => false

def check (name : String) : Except Fault Unit :=
  if isBlankText name then .error .blank
  else if maxLength < name.length then .error .tooLong
  else if hasSeparator name.toList then .error (.separator name)
  else if name.toList.contains '"' then .error (.quote name)
  else .ok ()

def qualify (name : String) : String :=
  if name.toList.contains '.' then "\"" ++ name ++ "\"" else name

end Name

end ServiceCatalog
