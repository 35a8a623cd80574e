import ServiceCatalog.Capability.Check
import ServiceCatalog.Connection.Basic
import ServiceCatalog.Entity.Name
import ServiceCatalog.Entity.Uuid
import ServiceCatalog.Entity.Version
import ServiceCatalog.Files.Basic
import ServiceCatalog.Tag.Label

namespace ServiceCatalog

inductive Violation where
  | name (fault : Name.Fault)
  | wrongKind (kind : ServiceKind)
  | noConnection
  | connection (fault : ConnectionFault)
  | capability (fault : CapabilityFault)
  | tags (fault : Label.Fault)
  | idChange
  | kindChange (old new : ServiceKind)
  | nameCleared
  | versionExhausted (version : Version) (qualifiedName : String)
  | putDeleted (qualifiedName : String)
  | editDeleted (qualifiedName : String)
  | limitTooLarge (limit : Nat)
  | noCommand (qualifiedName : String)
  | notTier (tag : String)
deriving DecidableEq

inductive Conflict where
  | idTaken (id : Uuid)
  | nameTaken (name : String)
  | qualifiedNameTaken (qualifiedName : String)
  | stalePatch (id : Uuid) (current base : Version)
  | staleUpdate (id : Uuid) (current base : Version)
deriving DecidableEq

inductive Missing where
  | id (id : Uuid)
  | name (qualifiedName : String)
  | version (id : Uuid) (version : Version)
deriving DecidableEq

inductive StorageFault where
  | unreadable (file : Path) (reason : FileFault)
  | unsupportedFormat (version : UInt32)
  | noDirectory (directory : Path) (reason : FileFault)
  | unwritable (draft : Path) (reason : FileFault)
  | unreplaceable (file : Path) (reason : FileFault)
deriving DecidableEq

inductive CatalogError where
  | invalid (v : Violation)
  | conflict (c : Conflict)
  | missing (m : Missing)
  | unreachable (qualifiedName failure : String)
  | storage (f : StorageFault)
  | malformed
deriving DecidableEq

def maxPageSize : Nat := 1000

def Violation.message : Violation → String
  | .name fault => fault.message
  | .wrongKind kind => s!"MCP services require serviceType 'Mcp', got '{kind.name}'"
  | .noConnection => "connection must not be null"
  | .connection fault => fault.message
  | .capability fault => fault.message
  | .tags fault => fault.message
  | .idChange => "id is immutable"
  | .kindChange old new =>
    s!"serviceType is immutable: cannot change '{old.name}' to '{new.name}'"
  | .nameCleared => "name cannot be cleared"
  | .versionExhausted v q => s!"version {v.text} of '{q}' cannot be incremented"
  | .putDeleted q => s!"mcpService '{q}' is deleted; restore it before updating"
  | .editDeleted q => s!"mcpService '{q}' is deleted and cannot be modified"
  | .limitTooLarge n => s!"limit must be at most {maxPageSize}, got {n}"
  | .noCommand q => s!"mcpService '{q}' has no server command to launch"
  | .notTier tag => s!"'{tag}' is not a tier tag"

def Conflict.message : Conflict → String
  | .idTaken id => s!"entity {id.text} already exists"
  | .nameTaken name => s!"service '{name}' already exists"
  | .qualifiedNameTaken q => s!"mcpService '{q}' already exists"
  | .stalePatch id current base =>
    s!"mcpService {id.text} is at version {current.text}, patch was based on {base.text}"
  | .staleUpdate id current base =>
    s!"mcpService {id.text} is at version {current.text}, update was based on {base.text}"

def Missing.message : Missing → String
  | .id i => s!"mcpService {i.text}"
  | .name q => s!"mcpService '{q}'"
  | .version i v => s!"mcpService {i.text} version {v.text}"

def StorageFault.message : StorageFault → String
  | .unreadable p reason => s!"Failed to read store {p.display}: {reason.message}"
  | .unsupportedFormat version => s!"Unsupported store format version: {version.toNat}"
  | .noDirectory p reason => s!"Failed to create store directory {p.display}: {reason.message}"
  | .unwritable p reason => s!"Failed to write {p.display}: {reason.message}"
  | .unreplaceable p reason => s!"Failed to replace store {p.display}: {reason.message}"

def CatalogError.message : CatalogError → String
  | .invalid v => "Validation error: " ++ v.message
  | .conflict c => "Conflict: " ++ c.message
  | .missing m => "Not found: " ++ m.message
  | .unreachable q failure => s!"Connection error: mcpService '{q}': {failure}"
  | .storage f => "Storage error: " ++ f.message
  | .malformed => "Serialization error"

def CatalogError.isUnreachable : CatalogError → Bool
  | .unreachable _ _ => true
  | _ => false

abbrev Outcome (α : Type) := Except CatalogError α

def Outcome.lift {ε α : Type} (f : ε → Violation) : Except ε α → Outcome α
  | .ok a => .ok a
  | .error e => .error (.invalid (f e))

end ServiceCatalog
