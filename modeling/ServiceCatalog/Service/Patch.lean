import ServiceCatalog.Service.Field

namespace ServiceCatalog

structure Patch where
  id : Option Uuid
  kind : Option ServiceKind
  name : FieldPatch String
  displayName : FieldPatch String
  description : FieldPatch String
  serverInstructions : FieldPatch String
  connection : FieldPatch Connection
  availableTools : FieldPatch (List Tool)
  availableResources : FieldPatch (List Resource)
  availablePrompts : FieldPatch (List Prompt)
  tags : FieldPatch (List Label)
  owners : FieldPatch (List Reference)
  domains : FieldPatch (List Reference)
  dataProducts : FieldPatch (List Reference)
  pipelines : FieldPatch (List Reference)
deriving BEq

namespace Patch

def empty : Patch :=
  ⟨none, none, .keep, .keep, .keep, .keep, .keep, .keep, .keep, .keep, .keep, .keep, .keep, .keep, .keep⟩

def get (p : Patch) : (f : Field) → FieldPatch f.Content
  | .displayName => p.displayName
  | .description => p.description
  | .serverInstructions => p.serverInstructions
  | .connection => p.connection
  | .availableTools => p.availableTools
  | .availableResources => p.availableResources
  | .availablePrompts => p.availablePrompts
  | .tags => p.tags
  | .owners => p.owners
  | .domains => p.domains
  | .dataProducts => p.dataProducts
  | .pipelines => p.pipelines

def isEmpty (p : Patch) : Bool :=
  p.id.isNone && p.kind.isNone && p.name.isKeep && Field.all.all fun f => (p.get f).isKeep

def capabilities (p : Patch) : Capabilities :=
  ⟨p.availableTools.value?, p.availableResources.value?, p.availablePrompts.value?⟩

instance : Wire Patch where
  encode p := .record [
    ("id", p.id.map encode),
    ("serviceType", p.kind.map encode),
    ("name", p.name.field?),
    ("displayName", p.displayName.field?),
    ("description", p.description.field?),
    ("serverInstructions", p.serverInstructions.field?),
    ("connection", p.connection.field?),
    ("availableTools", p.availableTools.field?),
    ("availableResources", p.availableResources.field?),
    ("availablePrompts", p.availablePrompts.field?),
    ("tags", p.tags.field?),
    ("owners", p.owners.field?),
    ("domains", p.domains.field?),
    ("dataProducts", p.dataProducts.field?),
    ("pipelines", p.pipelines.field?)]
  decode := readRecord do
    return {
      id := ← Fields.optional "id"
      kind := ← Fields.optional "serviceType"
      name := ← Fields.patched "name"
      displayName := ← Fields.patched "displayName"
      description := ← Fields.patched "description"
      serverInstructions := ← Fields.patched "serverInstructions"
      connection := ← Fields.patched "connection"
      availableTools := ← Fields.patched "availableTools"
      availableResources := ← Fields.patched "availableResources"
      availablePrompts := ← Fields.patched "availablePrompts"
      tags := ← Fields.patched "tags"
      owners := ← Fields.patched "owners"
      domains := ← Fields.patched "domains"
      dataProducts := ← Fields.patched "dataProducts"
      pipelines := ← Fields.patched "pipelines" }

end Patch

end ServiceCatalog
