import ServiceCatalog.Entity.Uuid

namespace ServiceCatalog

structure Reference where
  id : Uuid
  kind : String
  name : Option String
  qualifiedName : Option String
  displayName : Option String
  description : Option String
  deleted : Option Bool
  inherited : Option Bool
  href : Option String
deriving DecidableEq

namespace Reference

def ofId (id : Uuid) (kind : String) : Reference :=
  ⟨id, kind, none, none, none, none, none, none, none⟩

def user (id : Uuid) (name : String) : Reference :=
  { ofId id "user" with name := some name, qualifiedName := some name }

instance : Wire Reference where
  encode r := .record [
    ("id", some (encode r.id)),
    ("type", some (encode r.kind)),
    ("name", r.name.map encode),
    ("fullyQualifiedName", r.qualifiedName.map encode),
    ("displayName", r.displayName.map encode),
    ("description", r.description.map encode),
    ("deleted", r.deleted.map encode),
    ("inherited", r.inherited.map encode),
    ("href", r.href.map encode)]
  decode := readRecord do
    return {
      id := ← Fields.required "id"
      kind := ← Fields.required "type"
      name := ← Fields.optional "name"
      qualifiedName := ← Fields.optional "fullyQualifiedName"
      displayName := ← Fields.optional "displayName"
      description := ← Fields.optional "description"
      deleted := ← Fields.optional "deleted"
      inherited := ← Fields.optional "inherited"
      href := ← Fields.optional "href" }

end Reference

end ServiceCatalog
