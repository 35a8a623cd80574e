import ServiceCatalog.Capability.Basic
import ServiceCatalog.Change.Description
import ServiceCatalog.Connection.Basic
import ServiceCatalog.Entity.Reference
import ServiceCatalog.Service.TestResult
import ServiceCatalog.Tag.Label

namespace ServiceCatalog

structure Service where
  id : Uuid
  name : String
  qualifiedName : String
  displayName : Option String
  description : Option String
  kind : ServiceKind
  connection : Option Connection
  availableTools : Option (List Tool)
  availableResources : Option (List Resource)
  availablePrompts : Option (List Prompt)
  serverInstructions : Option String
  tags : Option (List Label)
  owners : Option (List Reference)
  domains : Option (List Reference)
  dataProducts : Option (List Reference)
  followers : Option (List Reference)
  pipelines : Option (List Reference)
  testResult : Option TestResult
  deleted : Option Bool
  version : Version
  updatedAt : Int64
  updatedBy : String
  change : Option ChangeDescription
  /-- The change from the version before; versions are never merged, so it is the same. -/
  incrementalChange : Option ChangeDescription
deriving BEq

namespace Service

def entityType : String := "mcpService"

def tagList (s : Service) : List Label := s.tags.getD []

def toolList (s : Service) : List Tool := s.availableTools.getD []

def resourceList (s : Service) : List Resource := s.availableResources.getD []

def promptList (s : Service) : List Prompt := s.availablePrompts.getD []

def followerList (s : Service) : List Reference := s.followers.getD []

def isDeleted (s : Service) : Bool := s.deleted.getD false

def label (s : Service) : String := (s.displayName.filter fun d => !d.isEmpty).getD s.name

def redacted (s : Service) : Service := { s with connection := none }

def launch? (s : Service) : Option LaunchConfig :=
  (s.connection.bind Connection.launch?).filter fun c => !isBlankText c.command

def inDomain (domain : String) (s : Service) : Bool :=
  (s.domains.getD []).any fun d => d.qualifiedName == some domain || d.name == some domain

instance : Wire Service where
  encode s := .record [
    ("id", some (encode s.id)),
    ("name", some (encode s.name)),
    ("fullyQualifiedName", some (encode s.qualifiedName)),
    ("displayName", s.displayName.map encode),
    ("description", s.description.map encode),
    ("serviceType", some (encode s.kind)),
    ("connection", s.connection.map encode),
    ("availableTools", s.availableTools.map encode),
    ("availableResources", s.availableResources.map encode),
    ("availablePrompts", s.availablePrompts.map encode),
    ("serverInstructions", s.serverInstructions.map encode),
    ("tags", s.tags.map encode),
    ("owners", s.owners.map encode),
    ("domains", s.domains.map encode),
    ("dataProducts", s.dataProducts.map encode),
    ("followers", s.followers.map encode),
    ("pipelines", s.pipelines.map encode),
    ("testConnectionResult", s.testResult.map encode),
    ("deleted", s.deleted.map encode),
    ("version", some (encode s.version)),
    ("updatedAt", some (encode s.updatedAt)),
    ("updatedBy", some (encode s.updatedBy)),
    ("changeDescription", s.change.map encode),
    ("incrementalChangeDescription", s.incrementalChange.map encode)]
  decode := readRecord do
    return {
      id := ← Fields.required "id"
      name := ← Fields.required "name"
      qualifiedName := ← Fields.required "fullyQualifiedName"
      displayName := ← Fields.optional "displayName"
      description := ← Fields.optional "description"
      kind := ← Fields.required "serviceType"
      connection := ← Fields.optional "connection"
      availableTools := ← Fields.optional "availableTools"
      availableResources := ← Fields.optional "availableResources"
      availablePrompts := ← Fields.optional "availablePrompts"
      serverInstructions := ← Fields.optional "serverInstructions"
      tags := ← Fields.optional "tags"
      owners := ← Fields.optional "owners"
      domains := ← Fields.optional "domains"
      dataProducts := ← Fields.optional "dataProducts"
      followers := ← Fields.optional "followers"
      pipelines := ← Fields.optional "pipelines"
      testResult := ← Fields.optional "testConnectionResult"
      deleted := ← Fields.optional "deleted"
      version := ← Fields.required "version"
      updatedAt := ← Fields.required "updatedAt"
      updatedBy := ← Fields.required "updatedBy"
      change := ← Fields.optional "changeDescription"
      incrementalChange := ← Fields.optional "incrementalChangeDescription" }

end Service

end ServiceCatalog
