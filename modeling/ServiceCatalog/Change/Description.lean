import ServiceCatalog.Entity.Version
import ServiceCatalog.Wire.Basic

namespace ServiceCatalog

inductive ChangeSource where
  | automated
  | derived
  | ingested
  | manual
  | propagated
  | suggested
deriving DecidableEq

namespace ChangeSource

def name : ChangeSource → String
  | .automated => "Automated"
  | .derived => "Derived"
  | .ingested => "Ingested"
  | .manual => "Manual"
  | .propagated => "Propagated"
  | .suggested => "Suggested"

def ofName? : String → Option ChangeSource
  | "Automated" => some .automated
  | "Derived" => some .derived
  | "Ingested" => some .ingested
  | "Manual" => some .manual
  | "Propagated" => some .propagated
  | "Suggested" => some .suggested
  | _ => none

instance : Wire ChangeSource where
  encode s := .str s.name
  decode := Wire.decodeName ofName?

end ChangeSource

structure FieldChange where
  name : String
  oldValue : Option Value
  newValue : Option Value
deriving BEq

instance : Wire FieldChange where
  encode c := .record [
    ("name", some (encode c.name)),
    ("oldValue", c.oldValue.map encode),
    ("newValue", c.newValue.map encode)]
  decode := readRecord do
    return {
      name := ← Fields.required "name"
      oldValue := ← Fields.optional "oldValue"
      newValue := ← Fields.optional "newValue" }

structure ChangeSummary where
  changedAt : Option Int64
  changedBy : Option String
  source : Option ChangeSource
deriving DecidableEq

instance : Wire ChangeSummary where
  encode s := .record [
    ("changedAt", s.changedAt.map encode),
    ("changedBy", s.changedBy.map encode),
    ("changeSource", s.source.map encode)]
  decode := readRecord do
    return {
      changedAt := ← Fields.optional "changedAt"
      changedBy := ← Fields.optional "changedBy"
      source := ← Fields.optional "changeSource" }

structure ChangeDescription where
  fieldsAdded : Option (List FieldChange)
  fieldsUpdated : Option (List FieldChange)
  fieldsDeleted : Option (List FieldChange)
  previousVersion : Option Version
  summary : Option (Dict ChangeSummary)
deriving BEq

namespace ChangeDescription

def added (d : ChangeDescription) : List FieldChange := d.fieldsAdded.getD []

def updated (d : ChangeDescription) : List FieldChange := d.fieldsUpdated.getD []

def deleted (d : ChangeDescription) : List FieldChange := d.fieldsDeleted.getD []

def changedFields (d : ChangeDescription) : List String :=
  (d.added ++ d.updated ++ d.deleted).map (·.name)

instance : Wire ChangeDescription where
  encode d := .record [
    ("fieldsAdded", d.fieldsAdded.map encode),
    ("fieldsUpdated", d.fieldsUpdated.map encode),
    ("fieldsDeleted", d.fieldsDeleted.map encode),
    ("previousVersion", d.previousVersion.map encode),
    ("changeSummary", d.summary.map encode)]
  decode := readRecord do
    return {
      fieldsAdded := ← Fields.optional "fieldsAdded"
      fieldsUpdated := ← Fields.optional "fieldsUpdated"
      fieldsDeleted := ← Fields.optional "fieldsDeleted"
      previousVersion := ← Fields.optional "previousVersion"
      summary := ← Fields.optional "changeSummary" }

end ChangeDescription

structure Actor where
  user : String
  source : ChangeSource
  time : Int64
deriving DecidableEq

end ServiceCatalog
