import ServiceCatalog.Proofs.Catalog.Naming
import ServiceCatalog.Proofs.Service.Patching

namespace ServiceCatalog

namespace Service

def marked (s : Service) (deleted : Bool) : Service := { s with deleted := some deleted }

variable {policy : DuplicatePolicy} {asked : Patch → Prop} {actor : Actor} {current next s : Service}
  {change : ChangeDescription} {log : ChangeLog}

end Service

namespace Mutation

def refusal (current : Service) : Mutation → CatalogError
  | put request _ => .invalid (.putDeleted (Name.qualify request.name))
  | update _ _ (some base) =>
    if base = current.version then .invalid (.editDeleted current.qualifiedName)
    else .conflict (.stalePatch current.id current.version base)
  | setTier _ (some tier) =>
    if tier.isTier then .invalid (.editDeleted current.qualifiedName) else .invalid (.notTier tier.tag)
  | _ => .invalid (.editDeleted current.qualifiedName)

end Mutation

namespace Effect

variable {records : Records} {id : Uuid} {current : Service}

section
variable (hget : records.get? id = some current) (hdeleted : current.isDeleted = true)
include hget hdeleted

end

end Effect

namespace Mutation

end Mutation

namespace Catalog.State

variable {s : State} {x : ServiceRecord}

theorem step_untargeted (hx : x ∈ s.records.list) (actor : Actor) {m : Mutation}
    (htarget : m.target? s.records ≠ some x.id) : x ∈ (s.step actor m).1.records.list := by
  have hfind := Records.find?_of_mem hx
  have hsame := s.step_find?_of_ne actor htarget fun _ => by rw [hfind]; rfl
  exact (Records.find?_eq_some.1 (hsame.trans hfind)).1

section
variable (hx : x ∈ s.records.list) (hdeleted : x.current.isDeleted = true)
include hx hdeleted

end

theorem find?_of_changed (hx : x ∈ s.records.list) {actor : Actor} {m : Mutation} {base : Version} {next : Service}
    {change : ChangeDescription} (hid : next.id = x.id) (h : (s.step actor m).2 = .ok (.changed base next change)) :
    (s.step actor m).1.records.find? x.id = some (x.advance next) := by
  obtain ⟨-, -, y, hy, hyid, -, hafter⟩ := changed_cases h
  obtain rfl : y = x := s.records.filed.id_inj hy hx (hyid.trans hid)
  exact Records.find?_eq_some.2 ⟨hafter, hid⟩

end Catalog.State

end ServiceCatalog
