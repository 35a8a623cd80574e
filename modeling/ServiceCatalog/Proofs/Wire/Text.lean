import ServiceCatalog.Proofs.Json.Layout
import ServiceCatalog.Proofs.Wire.Lawful
import ServiceCatalog.Wire.Basic

namespace ServiceCatalog

namespace Wire

variable {α : Type} [Wire α] {a : α}

def Restored (a : α) : Prop := ∀ x, Json.Part (.float x) (encode a) → x.Restored

instance (a : α) : Decidable (Restored a) :=
  decidable_of_iff (∀ x ∈ (encode a).floats, x.Restored)
    (forall_congr' fun _ => imp_congr Json.part_float.symm Iff.rfl)

theorem decodeText?_prettyText {β : Type} [Wire β] (a : α) :
    (decodeText? (prettyText a) : Option β) = (Json.readAll ((encode a).prettyChars 0)).bind decode := by
  rw [decodeText?, prettyText, Json.pretty, Json.read?, String.toList_ofList]
  rfl

theorem Sincere.decodeText?_pretty (h : Sincere a) (hfloats : Restored a) :
    (decodeText? (prettyText a) : Option α) = if (encode a).depth ≤ Json.nestingLimit then some a else none := by
  rw [decodeText?, prettyText, Json.read?_pretty ⟨h.legible, h.ranged, hfloats⟩]
  exact h.decode_cut Json.nestingLimit

theorem Sincere.decodeText?_compact (h : Sincere a) (hfloats : Restored a) :
    (decodeText? (compactText a) : Option α) = if (encode a).depth ≤ Json.nestingLimit then some a else none := by
  rw [decodeText?, compactText, Json.read?_compact ⟨h.legible, h.ranged, hfloats⟩]
  exact h.decode_cut Json.nestingLimit

structure RoundTrips (a : α) : Prop where
  decode_encode : decode (encode a) = some a
  compact : Restored a → (encode a).depth ≤ Json.nestingLimit → decodeText? (compactText a) = some a
  pretty : Restored a → (encode a).depth ≤ Json.nestingLimit → decodeText? (prettyText a) = some a

theorem Sincere.roundTrips (h : Sincere a) : RoundTrips a where
  decode_encode := h.decode_encode
  compact hfloats hdepth := (h.decodeText?_compact hfloats).trans (if_pos hdepth)
  pretty hfloats hdepth := (h.decodeText?_pretty hfloats).trans (if_pos hdepth)

end Wire

end ServiceCatalog
