import ServiceCatalog.Catalog.Effect
import ServiceCatalog.Service.Error
import ServiceCatalog.Text.Basic

namespace ServiceCatalog

structure Config where
  storePath : Option Path
  user : Option String
  policy : DuplicatePolicy
  pageSize : Nat
deriving DecidableEq

abbrev Environment := List (String × String)

def Environment.value? (e : Environment) (name : String) : Option String :=
  (e.find? (·.1 == name)).map (·.2)

namespace Config

def default : Config := ⟨none, none, .warn, 10⟩

instance : Inhabited Config := ⟨default⟩

inductive Fault where
  | pageSize (n : Nat)
  | blankUser
deriving DecidableEq

def Fault.message : Fault → String
  | .pageSize n => s!"page_size must be between 1 and {maxPageSize}, got {n}"
  | .blankUser => "user must not be empty"

def check (c : Config) : Except Fault Unit :=
  if c.pageSize = 0 ∨ maxPageSize < c.pageSize then .error (.pageSize c.pageSize)
  else if c.user.any isBlankText then .error .blankUser
  else .ok ()

def settings (c : Config) : Settings := ⟨c.policy, c.pageSize⟩

def fieldNames : List String := ["store_path", "user", "duplicate_capabilities", "page_size"]

variable (c : Config) (e : Environment)

def baseDirectory (name fallback : String) : Path :=
  match (e.value? name).map Path.ofText with
  | some p => if p.isAbsolute then p else home.join (.ofText fallback)
  | none => home.join (.ofText fallback)
where
  home : Path := .ofText ((e.value? "HOME").getD "")

def defaultFile : Path :=
  ((baseDirectory e "XDG_CONFIG_HOME" ".config").join (.ofText "mcpcat")).join (.ofText "config.toml")

def storeFile : Path :=
  c.storePath.getD
    (((baseDirectory e "XDG_DATA_HOME" ".local/share").join (.ofText "mcpcat")).join (.ofText "catalog.json"))

def userName : String :=
  c.user.getD (((e.value? "USER").filter (· ≠ "")).getD "admin")

end Config

end ServiceCatalog
