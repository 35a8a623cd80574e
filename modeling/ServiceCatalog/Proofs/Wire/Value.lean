import ServiceCatalog.Proofs.Wire.Lawful

namespace ServiceCatalog

namespace Json

theorem normalizeAll_eq_map (items : List Json) : normalizeAll items = items.map normalize := by
  induction items with
  | nil => rfl
  | cons j items ih => rw [normalizeAll, ih, List.map_cons]

theorem normalizeFields_eq_map (fields : List (String × Json)) :
    normalizeFields fields = fields.map fun p => (p.1, p.2.normalize) := by
  induction fields with
  | nil => rfl
  | cons p fields ih => rw [normalizeFields, ih, List.map_cons]

theorem canonicalAll_iff {items : List Json} : CanonicalAll items ↔ ∀ j ∈ items, j.Canonical := by
  induction items with
  | nil => simp [CanonicalAll]
  | cons j items ih => simp only [CanonicalAll, ih, List.forall_mem_cons]

theorem legible_of_canonical {j : Json} : j.Canonical → j.legible = true := by
  induction j using induct with
  | arr items ih =>
    intro h
    exact legible_arr.2 fun j hj => ih j hj (canonicalAll_iff.1 h j hj)
  | obj fields ih =>
    intro h
    exact legible_obj.2 fun p hp => ih p hp (canonicalFields_iff.1 h.2 p hp)
  | illegible => exact fun h => h.elim
  | null | bool | int | float | str => exact fun _ => rfl

theorem normalize_of_canonical {j : Json} : j.Canonical → j.normalize = j := by
  induction j using induct with
  | arr items ih =>
    intro h
    rw [normalize, normalizeAll_eq_map]
    congr 1
    refine (List.map_congr_left fun j hj => ?_).trans (List.map_id _)
    exact ih j hj (canonicalAll_iff.1 h j hj)
  | obj fields ih =>
    intro h
    have hfields : normalizeFields fields = fields := by
      rw [normalizeFields_eq_map]
      refine (List.map_congr_left fun p hp => ?_).trans (List.map_id _)
      rw [ih p hp (canonicalFields_iff.1 h.2 p hp)]
      rfl
    rw [normalize, hfields]
    exact congrArg (obj ·.entries) (Dict.ofList_entries ⟨fields, h.1⟩)
  | illegible => exact fun h => h.elim
  | null | bool | int | float | str => exact fun _ => rfl

theorem Ranged.normalize {j : Json} : j.Ranged → j.normalize.Ranged := by
  induction j using induct with
  | arr items ih =>
    intro h
    rw [Json.normalize, normalizeAll_eq_map]
    exact ranged_arr (List.forall_mem_map.2 fun j hj => ih j hj (h.part (.item hj .self)))
  | obj fields ih =>
    intro h
    rw [Json.normalize]
    refine ranged_obj fun p hp => ?_
    have hp := Dict.mem_ofList hp
    rw [normalizeFields_eq_map] at hp
    obtain ⟨q, hq, rfl⟩ := List.mem_map.1 hp
    exact ih q hq (h.part (.field hq .self))
  | illegible => exact fun _ => ranged_null
  | null | bool | int | float | str => exact fun h => h

theorem normalize_ne_null {j : Json} (hlegible : j.legible = true) (hnull : j ≠ .null) :
    j.normalize ≠ .null := by
  cases j with
  | illegible => cases hlegible
  | null => exact absurd rfl hnull
  | bool | int | float | str | arr | obj => nofun

theorem field?_normalize {fields : List (String × Json)} (h : (fields.map Prod.fst).Nodup) (k : String) :
    (obj fields).normalize.field? k = ((obj fields).field? k).map normalize := by
  have hnames : ((normalizeFields fields).map Prod.fst).Nodup := by
    rwa [normalizeFields_eq_map, List.map_map]
  have hget := Dict.get?_ofList_of_nodup hnames k
  rw [normalize, field?, field?, ← Dict.get?, hget, normalizeFields_eq_map, List.find?_map, Option.map_map,
    Option.map_map]
  rfl

end Json

theorem Value.ofTree_tree (v : Value) : Value.ofTree v.tree = v :=
  Value.ext (Json.normalize_of_canonical v.canonical)

namespace Wire

theorem sincere_value {v : Value} (h : v.tree.Ranged) : Sincere v where
  decode_cut d := by
    have hlegible := Json.legible_of_canonical v.canonical
    change (if (v.tree.cut d).legible then some (Value.ofTree (v.tree.cut d)) else none)
      = if v.tree.depth ≤ d then some v else none
    by_cases hd : v.tree.depth ≤ d
    · rw [if_pos hd, if_pos ((Json.legible_cut hlegible).2 hd), Json.cut_eq_self hd, v.ofTree_tree]
    · rw [if_neg hd, if_neg fun h => hd ((Json.legible_cut hlegible).1 h)]
  legible := Json.legible_of_canonical v.canonical
  ranged := h

theorem value_of_decode {j : Json} {v : Value} (h : decode j = some v) :
    j.legible = true ∧ v = .ofTree j := by
  change (if j.legible then some (Value.ofTree j) else none) = some v at h
  split at h
  · next hlegible => exact ⟨hlegible, (Option.some.inj h).symm⟩
  · cases h

instance : FaithfulWire Value where
  sincere hj h := by
    obtain ⟨-, rfl⟩ := value_of_decode h
    exact sincere_value hj.normalize
  ne_null hj h := by
    obtain ⟨hlegible, rfl⟩ := value_of_decode h
    exact Json.normalize_ne_null hlegible hj

theorem present_toValue {α : Type} [Wire α] {a : α} (h : Present a) : Present (toValue a) :=
  ⟨sincere_value h.ranged.normalize, Json.normalize_ne_null h.legible h.ne_null⟩

end Wire

end ServiceCatalog
