import ServiceCatalog.Service.Basic

namespace ServiceCatalog

structure Permission where
  editAll : Bool
  editTags : Bool
  editGlossaryTerms : Bool
  editDescription : Bool
  viewConnection : Bool
deriving DecidableEq

instance : Wire Permission where
  encode p := .record [
    ("editAll", some (encode p.editAll)),
    ("editTags", some (encode p.editTags)),
    ("editGlossaryTerms", some (encode p.editGlossaryTerms)),
    ("editDescription", some (encode p.editDescription)),
    ("viewConnection", some (encode p.viewConnection))]
  decode := readRecord do
    return {
      editAll := ← Fields.withDefault "editAll" false
      editTags := ← Fields.withDefault "editTags" false
      editGlossaryTerms := ← Fields.withDefault "editGlossaryTerms" false
      editDescription := ← Fields.withDefault "editDescription" false
      viewConnection := ← Fields.withDefault "viewConnection" false }

structure EditRights where
  tags : Bool
  glossaryTerms : Bool
  description : Bool
  dataProducts : Bool
deriving DecidableEq

namespace Permission

def all : Permission := ⟨true, true, true, true, true⟩

def editRights (p : Permission) (deleted : Bool) : EditRights where
  tags := (p.editTags || p.editAll) && !deleted
  glossaryTerms := (p.editGlossaryTerms || p.editAll) && !deleted
  description := (p.editDescription || p.editAll) && !deleted
  dataProducts := p.editAll && !deleted

def view (p : Permission) (s : Service) : Service := if p.viewConnection then s else s.redacted

end Permission

end ServiceCatalog
