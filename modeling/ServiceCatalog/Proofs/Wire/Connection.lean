import Mathlib.Data.List.Basic
import ServiceCatalog.Proofs.Wire.Entity
import ServiceCatalog.Proofs.Wire.Value
import ServiceCatalog.Connection.Basic

namespace ServiceCatalog

namespace Wire

variable {α : Type} [Wire α]

def Telling (α : Type) [Wire α] : Prop := Function.Injective (toValue : α → Value)

theorem field_of_toValue (hα : Telling α) {fields more : List (String × Option Json)}
    (h : Value.ofTree (Json.record fields) = Value.ofTree (Json.record more)) {v w : Option α} {k : String}
    (hfields : (fields.map Prod.fst).Nodup) (hmore : (more.map Prod.fst).Nodup)
    (hv : (k, v.map encode) ∈ fields) (hw : (k, w.map encode) ∈ more) : v = w := by
  have htree : (Json.record fields).normalize = (Json.record more).normalize := congrArg Value.tree h
  have hfield := congrArg (Json.field? · k) htree
  simp only [Json.record, Json.field?_normalize (Json.nodup_record hfields),
    Json.field?_normalize (Json.nodup_record hmore)] at hfield
  have hleft := Json.field?_record hfields hv
  have hright := Json.field?_record hmore hw
  rw [Json.record] at hleft hright
  rw [hleft, hright, Option.map_map, Option.map_map] at hfield
  cases v with
  | none =>
    cases w with
    | none => rfl
    | some b => cases hfield
  | some a =>
    cases w with
    | none => cases hfield
    | some b =>
      have hvalue : toValue a = toValue b := Value.ext (Option.some.inj hfield)
      rw [hα hvalue]

theorem telling_of_canonical (hcanonical : ∀ a : α, (encode a).Canonical)
    (hinj : Function.Injective (encode : α → Json)) : Telling α := by
  intro a b h
  have htree : (encode a).normalize = (encode b).normalize := congrArg Value.tree h
  rw [Json.normalize_of_canonical (hcanonical a), Json.normalize_of_canonical (hcanonical b)] at htree
  exact hinj htree

theorem injective_of_lawful [LawfulWire α] : Function.Injective (encode : α → Json) := by
  intro a b h
  have hdecode := (present a).toSincere.decode_encode
  rw [h, (present b).toSincere.decode_encode] at hdecode
  exact (Option.some.inj hdecode).symm

theorem canonical_string (s : String) : (encode s).Canonical := trivial

theorem telling_string : Telling String := telling_of_canonical canonical_string injective_of_lawful

theorem telling_strings : Telling (List String) := by
  refine telling_of_canonical (fun l => ?_) injective_of_lawful
  apply Json.canonicalAll_iff.2
  intro j hj
  obtain ⟨s, -, rfl⟩ := List.mem_map.1 hj
  exact canonical_string s

theorem telling_dict (hcanonical : ∀ a : α, (encode a).Canonical)
    (hinj : Function.Injective (encode : α → Json)) : Telling (Dict α) := by
  refine telling_of_canonical (fun d => ⟨?_, ?_⟩) fun d e h => ?_
  · exact List.pairwise_map.2 d.ascending
  · apply Json.canonicalFields_iff.2
    intro p hp
    obtain ⟨q, -, rfl⟩ := List.mem_map.1 hp
    exact hcanonical q.2
  · have hpair : Function.Injective fun p : String × α => (p.1, encode p.2) := by
      intro p q he
      obtain ⟨hkey, hvalue⟩ := Prod.mk.inj he
      exact Prod.ext hkey (hinj hvalue)
    exact Dict.ext (List.map_injective_iff.2 hpair (Json.obj.inj h))

theorem telling_launch : Telling LaunchConfig := by
  intro a b h
  have hnodup : ["command", "args", "env", "cwd"].Nodup := by decide
  have hcommand : some a.command = some b.command :=
    field_of_toValue (k := "command") telling_string h hnodup hnodup (by simp) (by simp)
  have hargs : a.args = b.args :=
    field_of_toValue (k := "args") telling_strings h hnodup hnodup (by simp) (by simp)
  have henv : a.env = b.env :=
    field_of_toValue (k := "env") (telling_dict canonical_string injective_of_lawful) h hnodup hnodup
      (by simp) (by simp)
  have hcwd : a.cwd = b.cwd :=
    field_of_toValue (k := "cwd") telling_string h hnodup hnodup (by simp) (by simp)
  cases a
  cases b
  simp_all

theorem telling_kind : Telling ConnectionKind := by
  rintro ⟨⟩ ⟨⟩ -
  rfl

theorem telling_config : Telling ConnectionConfig := by
  intro a b h
  have hnodup : ["type", "config", "connectionOptions", "connectionArguments"].Nodup := by decide
  have hkind : a.kind = b.kind :=
    field_of_toValue (k := "type") telling_kind h hnodup hnodup (by simp) (by simp)
  have hlaunch : some a.launch = some b.launch :=
    field_of_toValue (k := "config") telling_launch h hnodup hnodup (by simp) (by simp)
  have hoptions : a.options = b.options :=
    field_of_toValue (k := "connectionOptions") (telling_dict canonical_string injective_of_lawful) h hnodup hnodup
      (by simp) (by simp)
  have harguments : a.arguments = b.arguments :=
    field_of_toValue (k := "connectionArguments") (telling_dict Value.canonical fun _ _ => Value.ext) h hnodup hnodup
      (by simp) (by simp)
  cases a
  cases b
  simp_all

theorem telling_connection : Telling Connection := by
  intro a b h
  have hnodup : ["config"].Nodup := by decide
  have hconfig : a.config = b.config :=
    field_of_toValue (k := "config") telling_config h hnodup hnodup (by simp) (by simp)
  cases a
  cases b
  simp_all

end Wire

end ServiceCatalog
