import ServiceCatalog.Text.Basic
import ServiceCatalog.Wire.Basic

namespace ServiceCatalog

inductive LabelOrigin where
  | automated
  | derived
  | generated
  | manual
  | propagated
deriving DecidableEq

inductive TagSource where
  | classification
  | glossary
deriving DecidableEq

inductive LabelState where
  | confirmed
  | suggested
deriving DecidableEq

structure LabelStyle where
  color : Option String
  iconUrl : Option String
deriving DecidableEq

structure Label where
  tag : String
  origin : LabelOrigin
  source : TagSource
  state : LabelState
  name : Option String
  displayName : Option String
  description : Option String
  style : Option LabelStyle
  href : Option String
deriving DecidableEq

namespace LabelOrigin

def name : LabelOrigin → String
  | .automated => "Automated"
  | .derived => "Derived"
  | .generated => "Generated"
  | .manual => "Manual"
  | .propagated => "Propagated"

def ofName? : String → Option LabelOrigin
  | "Automated" => some .automated
  | "Derived" => some .derived
  | "Generated" => some .generated
  | "Manual" => some .manual
  | "Propagated" => some .propagated
  | _ => none

instance : Wire LabelOrigin where
  encode o := .str o.name
  decode := Wire.decodeName ofName?

end LabelOrigin

namespace TagSource

def name : TagSource → String
  | .classification => "Classification"
  | .glossary => "Glossary"

def ofName? : String → Option TagSource
  | "Classification" => some .classification
  | "Glossary" => some .glossary
  | _ => none

instance : Wire TagSource where
  encode s := .str s.name
  decode := Wire.decodeName ofName?

end TagSource

namespace LabelState

def name : LabelState → String
  | .confirmed => "Confirmed"
  | .suggested => "Suggested"

def ofName? : String → Option LabelState
  | "Confirmed" => some .confirmed
  | "Suggested" => some .suggested
  | _ => none

instance : Wire LabelState where
  encode s := .str s.name
  decode := Wire.decodeName ofName?

end LabelState

instance : Wire LabelStyle where
  encode s := .record [("color", s.color.map encode), ("iconURL", s.iconUrl.map encode)]
  decode := readRecord do
    return { color := ← Fields.optional "color", iconUrl := ← Fields.optional "iconURL" }

def isTierTag (tag : String) : Bool := "Tier.".toList.isPrefixOf tag.toList

namespace Label

def manual (tag : String) (source : TagSource) : Label :=
  ⟨tag, .manual, source, .confirmed, none, none, none, none, none⟩

def isTier (l : Label) : Bool := isTierTag l.tag

instance : Wire Label where
  encode l := .record [
    ("tagFQN", some (encode l.tag)),
    ("labelType", some (encode l.origin)),
    ("source", some (encode l.source)),
    ("state", some (encode l.state)),
    ("name", l.name.map encode),
    ("displayName", l.displayName.map encode),
    ("description", l.description.map encode),
    ("style", l.style.map encode),
    ("href", l.href.map encode)]
  decode := readRecord do
    return {
      tag := ← Fields.required "tagFQN"
      origin := ← Fields.required "labelType"
      source := ← Fields.required "source"
      state := ← Fields.required "state"
      name := ← Fields.optional "name"
      displayName := ← Fields.optional "displayName"
      description := ← Fields.optional "description"
      style := ← Fields.optional "style"
      href := ← Fields.optional "href" }

inductive Fault where
  | blank
  | repeated (tag : String)
deriving DecidableEq

def Fault.message : Fault → String
  | .blank => "tagFQN must not be empty"
  | .repeated tag => s!"duplicate tag '{tag}'"

def checkFrom (seen : List String) : List Label → Except Fault Unit
  | [] => .ok ()
  | l :: r =>
    if isBlankText l.tag then .error .blank
    else if seen.contains l.tag then .error (.repeated l.tag)
    else checkFrom (l.tag :: seen) r

def check (labels : List Label) : Except Fault Unit := checkFrom [] labels

end Label

end ServiceCatalog
