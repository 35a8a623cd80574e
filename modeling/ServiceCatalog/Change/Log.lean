import ServiceCatalog.Change.Description
import ServiceCatalog.Change.FieldPatch

/-!
The changes gathered while a new version is made. A version is major once something its users may
rely on is gone.
-/

namespace ServiceCatalog

inductive VersionStep where
  | minor
  | major
deriving DecidableEq

namespace VersionStep

def next? : VersionStep → Version → Option Version
  | .minor => Version.nextMinor?
  | .major => Version.nextMajor?

def max : VersionStep → VersionStep → VersionStep
  | .major, _ => .major
  | .minor, s => s

end VersionStep

structure ChangeLog where
  added : List FieldChange
  updated : List FieldChange
  deleted : List FieldChange
  step : VersionStep

namespace ChangeLog

def empty : ChangeLog := ⟨[], [], [], .minor⟩

def isEmpty (log : ChangeLog) : Bool :=
  log.added.isEmpty && log.updated.isEmpty && log.deleted.isEmpty

def escalate (log : ChangeLog) (step : VersionStep) : ChangeLog :=
  { log with step := log.step.max step }

def addElement (log : ChangeLog) (name : String) (value : Value) : ChangeLog :=
  { log with added := log.added ++ [⟨name, none, some value⟩] }

def deleteElement (log : ChangeLog) (name : String) (value : Value) : ChangeLog :=
  { log with deleted := log.deleted ++ [⟨name, some value, none⟩] }

def update (log : ChangeLog) (name : String) (old new : Value) : ChangeLog :=
  { log with updated := log.updated ++ [⟨name, some old, some new⟩] }

variable {α : Type} [Wire α] [BEq α]

def replace (log : ChangeLog) (name : String) (old new : α) : ChangeLog × α :=
  if old == new then (log, old) else (log.update name (toValue old) (toValue new), new)

def apply (log : ChangeLog) (name : String) (old : Option α) (patch : FieldPatch α) :
    ChangeLog × Option α :=
  match patch, old with
  | .keep, _ => (log, old)
  | .clear, none => (log, none)
  | .clear, some a => (log.deleteElement name (toValue a), none)
  | .set b, none => (log.addElement name (toValue b), some b)
  | .set b, some a =>
    if a == b then (log, some a) else (log.update name (toValue a) (toValue b), some b)

def fields (log : ChangeLog) : List String :=
  (log.added ++ log.updated ++ log.deleted).map (·.name)

def bucket (changes : List FieldChange) : Option (List FieldChange) :=
  if changes.isEmpty then none else some changes

def describe (log : ChangeLog) (previous : Version) (actor : Actor) : ChangeDescription :=
  let summary : ChangeSummary := ⟨some actor.time, some actor.user, some actor.source⟩
  { fieldsAdded := bucket log.added
    fieldsUpdated := bucket log.updated
    fieldsDeleted := bucket log.deleted
    previousVersion := some previous
    summary :=
      if log.fields.isEmpty then none else some (Dict.ofList (log.fields.map (·, summary))) }

end ChangeLog

end ServiceCatalog
