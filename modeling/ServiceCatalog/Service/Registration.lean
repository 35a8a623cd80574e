import ServiceCatalog.Service.Error
import ServiceCatalog.Service.Patch

namespace ServiceCatalog

structure Registration where
  name : String
  displayName : Option String
  description : Option String
  kind : ServiceKind
  connection : Option Connection
  availableTools : Option (List Tool)
  availableResources : Option (List Resource)
  availablePrompts : Option (List Prompt)
  serverInstructions : Option String
  tags : Option (List Label)
  owners : Option (List Reference)
  domains : Option (List Reference)
  dataProducts : Option (List Reference)
deriving BEq

namespace Registration

def ofConnection (name : String) (connection : Connection) : Registration :=
  ⟨name, none, none, .mcp, some connection, none, none, none, none, none, none, none, none⟩

def capabilities (r : Registration) : Capabilities :=
  ⟨r.availableTools, r.availableResources, r.availablePrompts⟩

def check (policy : DuplicatePolicy) (r : Registration) : Outcome Unit := do
  Outcome.lift .name (Name.check r.name)
  if r.kind ≠ .mcp then .error (.invalid (.wrongKind r.kind))
  match r.connection with
  | none => .error (.invalid .noConnection)
  | some c => Outcome.lift .connection (c.check r.kind)
  Outcome.lift .capability (r.capabilities.check policy)
  Outcome.lift .tags (Label.check (r.tags.getD []))

def service (r : Registration) (id : Uuid) (actor : Actor) : Service where
  id := id
  name := r.name
  qualifiedName := Name.qualify r.name
  displayName := r.displayName
  description := r.description
  kind := r.kind
  connection := r.connection
  availableTools := r.availableTools
  availableResources := r.availableResources
  availablePrompts := r.availablePrompts
  serverInstructions := r.serverInstructions
  tags := r.tags
  owners := r.owners
  domains := r.domains
  dataProducts := r.dataProducts
  followers := none
  pipelines := none
  testResult := none
  deleted := none
  version := .initial
  updatedAt := actor.time
  updatedBy := actor.user
  change := none
  incrementalChange := none

def patch (r : Registration) : Patch where
  id := none
  kind := some r.kind
  name := .keep
  displayName := .ofOption r.displayName
  description := .ofOption r.description
  serverInstructions := .ofOption r.serverInstructions
  connection := .ofOption r.connection
  availableTools := .ofOption r.availableTools
  availableResources := .ofOption r.availableResources
  availablePrompts := .ofOption r.availablePrompts
  tags := .ofOption r.tags
  owners := .ofOption r.owners
  domains := .ofOption r.domains
  dataProducts := .ofOption r.dataProducts
  pipelines := .keep

instance : Wire Registration where
  encode r := .record [
    ("name", some (encode r.name)),
    ("displayName", r.displayName.map encode),
    ("description", r.description.map encode),
    ("serviceType", some (encode r.kind)),
    ("connection", r.connection.map encode),
    ("availableTools", r.availableTools.map encode),
    ("availableResources", r.availableResources.map encode),
    ("availablePrompts", r.availablePrompts.map encode),
    ("serverInstructions", r.serverInstructions.map encode),
    ("tags", r.tags.map encode),
    ("owners", r.owners.map encode),
    ("domains", r.domains.map encode),
    ("dataProducts", r.dataProducts.map encode)]
  decode := readRecord do
    return {
      name := ← Fields.required "name"
      displayName := ← Fields.optional "displayName"
      description := ← Fields.optional "description"
      kind := ← Fields.required "serviceType"
      connection := ← Fields.optional "connection"
      availableTools := ← Fields.optional "availableTools"
      availableResources := ← Fields.optional "availableResources"
      availablePrompts := ← Fields.optional "availablePrompts"
      serverInstructions := ← Fields.optional "serverInstructions"
      tags := ← Fields.optional "tags"
      owners := ← Fields.optional "owners"
      domains := ← Fields.optional "domains"
      dataProducts := ← Fields.optional "dataProducts" }

end Registration

end ServiceCatalog
