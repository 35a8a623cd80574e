import ServiceCatalog.Wire.Basic

/-!
What a patch says about one field: keep it, clear it, or set it. On the wire an absent field is kept
and a null clears.
-/

namespace ServiceCatalog

inductive FieldPatch (α : Type) where
  | keep
  | clear
  | set (a : α)
deriving BEq, DecidableEq

namespace FieldPatch

variable {α : Type}

def isKeep : FieldPatch α → Bool
  | .keep => true
  | _ => false

def ofOption : Option α → FieldPatch α
  | some a => .set a
  | none => .keep

def ofList : List α → FieldPatch (List α)
  | [] => .clear
  | l => .set l

def value? : FieldPatch α → Option α
  | .set a => some a
  | _ => none

def field? [Wire α] : FieldPatch α → Option Json
  | .keep => none
  | .clear => some .null
  | .set a => some (encode a)

end FieldPatch

def Fields.patched {α : Type} [Wire α] (name : String) : FieldReader (FieldPatch α) := do
  match ← take name with
  | none => return .keep
  | some .null => return .clear
  | some j => return .set (← (decode j : Option α))

end ServiceCatalog
