import ServiceCatalog.Entity.Include
import ServiceCatalog.Service.Basic

namespace ServiceCatalog

structure ListQuery where
  included : Include
  domain : Option String
  limit : Option Nat
  after : Option String

structure Paging where
  after : Option String
  total : Nat
deriving DecidableEq

structure Page where
  data : List Service
  paging : Paging

structure VersionList where
  entityType : String
  versions : List Service

instance : Wire Paging where
  encode p := .record [("after", p.after.map encode), ("total", some (encode p.total))]
  decode := readRecord do
    return { after := ← Fields.optional "after", total := ← Fields.required "total" }

instance : Wire Page where
  encode p := .record [("data", some (encode p.data)), ("paging", some (encode p.paging))]
  decode := readRecord do
    return { data := ← Fields.required "data", paging := ← Fields.required "paging" }

instance : Wire VersionList where
  encode l := .record [
    ("entityType", some (encode l.entityType)), ("versions", some (encode l.versions))]
  decode := readRecord do
    return {
      entityType := ← Fields.required "entityType"
      versions := ← Fields.required "versions" }

namespace ListQuery

def ofInclude (i : Include) : ListQuery := ⟨i, none, none, none⟩

def selects (q : ListQuery) (s : Service) : Bool :=
  q.included.admits s.isDeleted && match q.domain with
    | some domain => s.inDomain domain
    | none => true

def follows (q : ListQuery) (s : Service) : Bool :=
  match q.after with
  | some cursor => cursor < s.qualifiedName
  | none => true

def page (q : ListQuery) (limit : Nat) (services : List Service) : Page :=
  let selected := (services.filter q.selects).mergeSort fun a b => a.qualifiedName ≤ b.qualifiedName
  let remaining := selected.filter q.follows
  let data := remaining.take limit
  let after := if limit < remaining.length then data.getLast?.map (·.qualifiedName) else none
  ⟨data, ⟨after, selected.length⟩⟩

end ListQuery

end ServiceCatalog
