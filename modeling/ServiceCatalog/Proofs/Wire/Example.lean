import ServiceCatalog.Proofs.Wire.Entity
import ServiceCatalog.Proofs.Wire.Value

namespace ServiceCatalog

open Wire Takes

namespace ToolExample

structure Sound (e : ToolExample) : Prop where
  input : ∀ d ∈ e.input, Present d
  output : ∀ d ∈ e.output, Present d
  extra : ∀ p ∈ e.extra.entries, Sincere p.2
  unknown : ∀ p ∈ e.extra.entries, p.1 ∉ knownFields

def knownPart (e : ToolExample) : List (String × Option Json) := [
  ("description", e.description.map encode),
  ("input", e.input.map encode),
  ("output", e.output.map encode)]

def extraPart (e : ToolExample) : List (String × Option Json) :=
  e.extra.entries.map fun p => (p.1, some (encode p.2))

def reader (extra : Dict Value) : FieldReader ToolExample := do
  return {
    description := ← Fields.optional "description"
    input := ← Fields.optional "input"
    output := ← Fields.optional "output"
    extra := extra }

theorem encode_eq (e : ToolExample) : encode e = .record (e.knownPart ++ e.extraPart) := by
  have hextra : e.extraPart.filterMap (fun q => q.2.map (q.1, ·))
      = e.extra.entries.map fun p => (p.1, encode p.2) := by
    rw [extraPart, List.filterMap_map]
    exact congrFun List.filterMap_eq_map' _
  rw [Json.record, List.filterMap_append, hextra]
  rfl

theorem decode_eq (fields : List (String × Json)) :
    (decode (.obj fields) : Option ToolExample) =
      (decodeFields (fields.filter fun p => !knownFields.contains p.1)).bind fun extra =>
        readRecord (reader (Dict.ofList extra)) (.obj fields) := rfl

variable {e : ToolExample}

theorem names_nodup (h : e.Sound) : ((e.knownPart ++ e.extraPart).map (·.1)).Nodup := by
  have hextra : e.extraPart.map (·.1) = e.extra.entries.map (·.1) := by
    rw [extraPart, List.map_map]
    rfl
  have hknown : e.knownPart.map (·.1) = knownFields := rfl
  rw [List.map_append, hextra, hknown]
  refine List.Nodup.append (by decide) ?_ fun k hk hk' => ?_
  · refine List.pairwise_map.2 (e.extra.ascending.imp ?_)
    intro p q hlt he
    exact String.lt_irrefl q.1 (he ▸ hlt)
  · obtain ⟨p, hp, rfl⟩ := List.mem_map.1 hk'
    exact h.unknown p hp hk

theorem fieldwise_extraPart {p : Json → Prop} :
    Json.Fieldwise p e.extraPart ↔ ∀ q ∈ e.extra.entries, p (encode q.2) := by
  simp only [Json.Fieldwise, extraPart, List.forall_mem_map, Option.mem_some_iff, forall_eq']

theorem filter_shown (h : e.Sound) (d : Nat) :
    (Json.shown d (e.knownPart ++ e.extraPart)).filter (fun p => !knownFields.contains p.1)
      = e.extra.entries.map fun p => (p.1, (encode p.2).cut d) := by
  have hknown : (Json.shown d e.knownPart).filter (fun p => !knownFields.contains p.1) = [] := by
    rw [List.filter_eq_nil_iff]
    intro p hp
    obtain ⟨q, hq, hqp⟩ := List.mem_filterMap.1 hp
    obtain ⟨j, -, rfl⟩ := Option.map_eq_some_iff.1 hqp
    have hmem : q.1 ∈ knownFields := List.mem_map_of_mem (f := Prod.fst) hq
    simpa using hmem
  have hextra : Json.shown d e.extraPart = e.extra.entries.map fun p => (p.1, (encode p.2).cut d) := by
    rw [Json.shown, extraPart, List.filterMap_map]
    exact congrFun List.filterMap_eq_map' _
  have hsplit : Json.shown d (e.knownPart ++ e.extraPart)
      = Json.shown d e.knownPart ++ Json.shown d e.extraPart := List.filterMap_append
  rw [hsplit, List.filter_append, hknown, List.nil_append, hextra, List.filter_eq_self]
  refine List.forall_mem_map.2 fun p hp => ?_
  simpa using h.unknown p hp

theorem takes_known (h : e.Sound) : Takes (reader e.extra) e.knownPart e :=
  optional_bind <| .bind (.optional h.input _) <| .bind (.optional h.output _) <| .pure _

theorem present (h : e.Sound) : Present e where
  decode_cut d := by
    have hknown := takes_known h
    rw [encode_eq, Json.cut_record]
    cases d with
    | zero =>
      rw [if_neg fun h => Nat.lt_irrefl 0 (Json.depth_record_le.1 h).1]
      rfl
    | succ d =>
      have hshows := (List.forall_mem_append.1 (shows_shown d (names_nodup h))).1
      have hdepth : (Json.record (e.knownPart ++ e.extraPart)).depth ≤ d + 1 ↔
          Json.Fieldwise (·.depth ≤ d) e.knownPart ∧ ∀ p ∈ e.extra.entries, (encode p.2).depth ≤ d := by
        rw [Json.depth_record_le, Json.fieldwise_append, fieldwise_extraPart]
        simp
      rw [if_neg (Nat.succ_ne_zero d), Nat.add_sub_cancel, decode_eq, filter_shown h, decodeFields_cut h.extra]
      by_cases hextra : ∀ p ∈ e.extra.entries, (encode p.2).depth ≤ d
      · rw [if_pos hextra, Option.bind_some, Dict.ofList_entries, readRecord]
        by_cases hd : Json.Fieldwise (·.depth ≤ d) e.knownPart
        · rw [hknown.taken d _ hshows hd, if_pos (hdepth.2 ⟨hd, hextra⟩)]
          rfl
        · rw [hknown.refused d _ hshows hd, if_neg fun h => hd (hdepth.1 h).1]
          rfl
      · rw [if_neg hextra, if_neg fun h => hextra (hdepth.1 h).2]
        rfl
  legible := by
    rw [encode_eq]
    refine Json.legible_obj.2 (Json.fieldwise_iff.2 (Json.fieldwise_append.2 ⟨(takes_known h).legible, ?_⟩))
    exact fieldwise_extraPart.2 fun p hp => (h.extra p hp).legible
  ranged := by
    rw [encode_eq]
    refine Json.ranged_obj (Json.fieldwise_iff.2 (Json.fieldwise_append.2 ⟨(takes_known h).ranged, ?_⟩))
    exact fieldwise_extraPart.2 fun p hp => (h.extra p hp).ranged
  ne_null := by
    rw [encode_eq]
    exact Json.record_ne_null _

theorem sound_of_decode {j : Json} (hj : j.Ranged) (h : decode j = some e) : e.Sound := by
  cases j with
  | obj fields =>
    rw [decode_eq] at h
    obtain ⟨extra, hextra, h⟩ := Option.bind_eq_some_iff.1 h
    have hfields : ∀ p ∈ fields, p.2.Ranged := fun p hp => hj.part (.field hp .self)
    refine Gives.of_readRecord (.bind (.optional _) fun _ _ => .bind (.optional _) fun i hi =>
      .bind (.optional _) fun o ho => .pure ⟨hi, ho, fun p hp => ?_, fun p hp => ?_⟩) hj h
    · exact sincere_of_decodeFields (fun f hf => hfields f (List.mem_filter.1 hf).1) hextra p (Dict.mem_ofList hp)
    · obtain ⟨f, hf, hdec⟩ := mem_of_mapM hextra p (Dict.mem_ofList hp)
      obtain ⟨v, -, rfl⟩ := Option.map_eq_some_iff.1 hdec
      simpa using (List.mem_filter.1 hf).2
  | null | bool | int | float | str | arr | illegible => cases h

instance : FaithfulWire ToolExample where
  sincere hj h := (present (sound_of_decode hj h)).toSincere
  ne_null _ _ := by
    rw [encode_eq]
    exact Json.record_ne_null _

end ToolExample

end ServiceCatalog
