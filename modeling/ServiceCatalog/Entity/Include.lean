import ServiceCatalog.Wire.Basic

namespace ServiceCatalog

inductive Include where
  | all
  | deleted
  | live
deriving DecidableEq

namespace Include

instance : Inhabited Include := ⟨live⟩

def admits : Include → Bool → Bool
  | .all, _ => true
  | .deleted, gone => gone
  | .live, gone => !gone

def name : Include → String
  | .all => "all"
  | .deleted => "deleted"
  | .live => "non-deleted"

def ofName? : String → Option Include
  | "all" => some .all
  | "deleted" => some .deleted
  | "non-deleted" => some .live
  | _ => none

def nameFault (s : String) : String :=
  s!"include must be one of [all, deleted, non-deleted], got '{s}'"

instance : Wire Include where
  encode i := .str i.name
  decode := Wire.decodeName ofName?

end Include

end ServiceCatalog
