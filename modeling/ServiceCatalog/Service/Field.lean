import ServiceCatalog.Change.FieldPatch
import ServiceCatalog.Service.Basic

namespace ServiceCatalog

inductive Field where
  | displayName
  | description
  | serverInstructions
  | connection
  | availableTools
  | availableResources
  | availablePrompts
  | tags
  | owners
  | domains
  | dataProducts
  | pipelines
deriving DecidableEq

namespace Field

def all : List Field :=
  [.displayName, .description, .serverInstructions, .connection, .availableTools,
    .availableResources, .availablePrompts, .tags, .owners, .domains, .dataProducts, .pipelines]

theorem mem_all (f : Field) : f ∈ all := by cases f <;> decide

def name : Field → String
  | .displayName => "displayName"
  | .description => "description"
  | .serverInstructions => "serverInstructions"
  | .connection => "connection"
  | .availableTools => "availableTools"
  | .availableResources => "availableResources"
  | .availablePrompts => "availablePrompts"
  | .tags => "tags"
  | .owners => "owners"
  | .domains => "domains"
  | .dataProducts => "dataProducts"
  | .pipelines => "pipelines"

@[reducible]
def Content : Field → Type
  | .displayName | .description | .serverInstructions => String
  | .connection => Connection
  | .availableTools => List Tool
  | .availableResources => List Resource
  | .availablePrompts => List Prompt
  | .tags => List Label
  | .owners | .domains | .dataProducts | .pipelines => List Reference

instance (f : Field) : Wire f.Content := by cases f <;> exact inferInstance

instance (f : Field) : BEq f.Content := by cases f <;> exact inferInstance

end Field

namespace Service

def get (s : Service) : (f : Field) → Option f.Content
  | .displayName => s.displayName
  | .description => s.description
  | .serverInstructions => s.serverInstructions
  | .connection => s.connection
  | .availableTools => s.availableTools
  | .availableResources => s.availableResources
  | .availablePrompts => s.availablePrompts
  | .tags => s.tags
  | .owners => s.owners
  | .domains => s.domains
  | .dataProducts => s.dataProducts
  | .pipelines => s.pipelines

def set (s : Service) : (f : Field) → Option f.Content → Service
  | .displayName, a => { s with displayName := a }
  | .description, a => { s with description := a }
  | .serverInstructions, a => { s with serverInstructions := a }
  | .connection, a => { s with connection := a }
  | .availableTools, a => { s with availableTools := a }
  | .availableResources, a => { s with availableResources := a }
  | .availablePrompts, a => { s with availablePrompts := a }
  | .tags, a => { s with tags := a }
  | .owners, a => { s with owners := a }
  | .domains, a => { s with domains := a }
  | .dataProducts, a => { s with dataProducts := a }
  | .pipelines, a => { s with pipelines := a }

@[simp]
theorem get_set (s : Service) (f : Field) (a : Option f.Content) : (s.set f a).get f = a := by
  cases f <;> rfl

theorem get_set_of_ne (s : Service) {f g : Field} (h : g ≠ f) (a : Option f.Content) :
    (s.set f a).get g = s.get g := by
  cases f <;> cases g <;> first | rfl | exact absurd rfl h

end Service

end ServiceCatalog
