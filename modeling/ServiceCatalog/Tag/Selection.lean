import ServiceCatalog.Tag.Label

namespace ServiceCatalog

structure TagSelection where
  tag : String
  source : TagSource
  name : Option String
  displayName : Option String
  description : Option String
  style : Option LabelStyle
deriving DecidableEq

namespace TagSelection

def ofTag (tag : String) (source : TagSource) : TagSelection :=
  ⟨tag, source, none, none, none, none⟩

def isTier (s : TagSelection) : Bool := isTierTag s.tag

def label (s : TagSelection) : Label :=
  { Label.manual s.tag s.source with
    name := s.name
    displayName := s.displayName
    description := s.description
    style := s.style }

def ofLabel (l : Label) : TagSelection :=
  ⟨l.tag, l.source, l.name, l.displayName, l.description, l.style⟩

instance : Wire TagSelection where
  encode s := .record [
    ("tagFQN", some (encode s.tag)),
    ("source", some (encode s.source)),
    ("name", s.name.map encode),
    ("displayName", s.displayName.map encode),
    ("description", s.description.map encode),
    ("style", s.style.map encode)]
  decode := readRecord do
    return {
      tag := ← Fields.required "tagFQN"
      source := ← Fields.required "source"
      name := ← Fields.optional "name"
      displayName := ← Fields.optional "displayName"
      description := ← Fields.optional "description"
      style := ← Fields.optional "style" }

end TagSelection

namespace Label

def added (present : List String) : List TagSelection → List Label
  | [] => []
  | s :: r =>
    if present.contains s.tag then added present r else s.label :: added (s.tag :: present) r

def reconcile (current : List Label) (selected : List TagSelection) : List Label :=
  let kept := current.filter fun l => selected.any (·.tag == l.tag)
  kept ++ added (kept.map (·.tag)) selected

def splitTier (labels : List Label) : Option Label × List Label :=
  (labels.find? isTier, labels.filter fun l => !l.isTier)

def mergeTier (tier : Option Label) (editable : List Label) : List Label :=
  editable ++ tier.toList

end Label

end ServiceCatalog
