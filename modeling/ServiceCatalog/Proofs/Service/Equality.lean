import ServiceCatalog.Service.Field

namespace ServiceCatalog

namespace Json

mutual

theorem same_self : ∀ j : Json, j.Canonical → j.same j = true
  | .null, _ => rfl
  | .bool _, _ => by simp [same]
  | .int _, _ => by simp [same]
  | .float x, _ => by simpa [same] using x.beq_self
  | .str _, _ => by simp [same]
  | .arr items, h => by
    simp only [Canonical] at h
    simpa [same] using sameAll_self items h
  | .obj fields, h => by
    simp only [Canonical] at h
    simpa [same] using sameFields_self fields h.2

theorem sameAll_self : ∀ l : List Json, CanonicalAll l → sameAll l l = true
  | [], _ => rfl
  | j :: r, h => by
    simp only [CanonicalAll] at h
    simp [sameAll, same_self j h.1, sameAll_self r h.2]

theorem sameFields_self : ∀ l : List (String × Json), CanonicalFields l → sameFields l l = true
  | [], _ => rfl
  | (k, j) :: r, h => by
    simp only [CanonicalFields] at h
    simp [sameFields, same_self j h.1, sameFields_self r h.2]

end

end Json

instance : ReflBEq Value := ⟨fun {v} => Json.same_self v.tree v.canonical⟩

instance {α : Type} [BEq α] [ReflBEq α] : ReflBEq (Dict α) :=
  ⟨fun {d} => BEq.rfl (a := d.entries)⟩

deriving instance ReflBEq for ConnectionConfig
deriving instance ReflBEq for Connection
deriving instance ReflBEq for ToolExample
deriving instance ReflBEq for Tool

instance (f : Field) : ReflBEq f.Content := by cases f <;> exact inferInstance

end ServiceCatalog
