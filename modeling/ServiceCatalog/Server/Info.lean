import ServiceCatalog.Capability.Basic

namespace ServiceCatalog

structure ServerInfo where
  protocolVersion : Option String
  server : Option Value
  capabilities : Option Value
  instructions : Option String
deriving BEq

namespace ServerInfo

def empty : ServerInfo := ⟨none, none, none, none⟩

instance : Inhabited ServerInfo := ⟨empty⟩

instance : Wire ServerInfo where
  encode i := .record [
    ("protocolVersion", some ((i.protocolVersion.map encode).getD .null)),
    ("serverInfo", some ((i.server.map encode).getD .null)),
    ("capabilities", some ((i.capabilities.map encode).getD .null)),
    ("instructions", some ((i.instructions.map encode).getD .null))]
  decode := readRecord do
    return {
      protocolVersion := ← Fields.optional "protocolVersion"
      server := ← Fields.optional "serverInfo"
      capabilities := ← Fields.optional "capabilities"
      instructions := ← Fields.optional "instructions" }

def name? (i : ServerInfo) : Option String := do (← (← i.server).tree.field? "name").str?

def advertises (i : ServerInfo) (capability : String) : Bool :=
  match i.capabilities with
  | some ⟨.obj fields, _⟩ => fields.any (·.1 == capability)
  | _ => true

end ServerInfo

end ServiceCatalog
