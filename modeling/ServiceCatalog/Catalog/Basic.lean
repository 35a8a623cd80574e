import ServiceCatalog.Catalog.Listing
import ServiceCatalog.Catalog.Mutation
import ServiceCatalog.Store.Basic

/-!
A catalog: the settings and the store. Reads look at the records alone; a mutation writes to the store
what its effect asks for, so that one without effect touches nothing.
-/

namespace ServiceCatalog

structure Catalog where
  settings : Settings
  store : Store

namespace Catalog

def records (c : Catalog) : Records := c.store.records

def mutate (c : Catalog) (files : Files) (actor : Actor) (m : Mutation) :
    Files × Outcome (Effect × Catalog) :=
  match m.effect c.settings c.records actor with
  | .error e => (files, .error e)
  | .ok effect =>
    match effect.write? with
    | none => (files, .ok (effect, c))
    | some w =>
      let (files, outcome) := c.store.write files w
      (files, outcome.map fun store => (effect, { c with store := store }))

structure State where
  files : Files
  catalog : Catalog

def State.step (s : State) (actor : Actor) (m : Mutation) : State × Outcome Effect :=
  match s.catalog.mutate s.files actor m with
  | (files, .ok (effect, catalog)) => (⟨files, catalog⟩, .ok effect)
  | (files, .error e) => (⟨files, s.catalog⟩, .error e)

def get (c : Catalog) (id : Uuid) (included : Include) : Outcome Service := do
  let s ← c.records.load id
  if included.admits s.isDeleted then return s else .error (.missing (.id id))

def getNamed (c : Catalog) (qualifiedName : String) (included : Include) : Outcome Service :=
  match (c.records.getNamed? qualifiedName).filter fun s => included.admits s.isDeleted with
  | some s => .ok s
  | none => .error (.missing (.name qualifiedName))

def list (c : Catalog) (q : ListQuery) : Outcome Page :=
  let limit := q.limit.getD c.settings.pageSize
  if maxPageSize < limit then .error (.invalid (.limitTooLarge limit))
  else .ok (q.page limit c.records.services)

def versions (c : Catalog) (id : Uuid) : Outcome VersionList := do
  let current ← c.records.load id
  return ⟨Service.entityType, current :: (← c.records.history id).reverse⟩

def version (c : Catalog) (id : Uuid) (v : Version) : Outcome Service := do
  match (← c.versions id).versions.find? (·.version = v) with
  | some s => return s
  | none => .error (.missing (.version id v))

end Catalog

end ServiceCatalog
