import ServiceCatalog.Proofs.Wire.Service
import ServiceCatalog.Server.Discovery
import ServiceCatalog.Service.Registration
import ServiceCatalog.Wire.Basic

namespace ServiceCatalog

open Wire Takes

variable {α : Type} [Wire α]

namespace Wire

def Accepted (a : α) : Prop := ∃ j : Json, j.Ranged ∧ decode j = some a

theorem accepted_of_text {text : String} {a : α} (h : decodeText? text = some a) : Accepted a := by
  obtain ⟨j, hj, hdec⟩ := Option.bind_eq_some_iff.1 h
  exact ⟨j, Json.ranged_of_read? hj, hdec⟩

theorem Sincere.accepted {a : α} (h : Sincere a) : Accepted a := ⟨encode a, h.ranged, h.decode_encode⟩

@[simp]
theorem accepted_of_lawful [LawfulWire α] (a : α) : Accepted a := (present a).accepted

theorem Accepted.sincere [FaithfulWire α] {a : α} (h : Accepted a) : Sincere a := by
  obtain ⟨j, hj, hdec⟩ := h
  exact FaithfulWire.sincere hj hdec

theorem Accepted.of_mem {l : List α} (h : Accepted l) : ∀ a ∈ l, Accepted a := by
  obtain ⟨j, hj, hdec⟩ := h
  exact mem_of_decode hj hdec

end Wire

namespace FieldPatch

variable {β : Type}

theorem value?_eq_some {p : FieldPatch β} {b : β} : p.value? = some b ↔ p = .set b := by
  cases p <;> simp [value?]

theorem ofOption_eq_set {o : Option β} {b : β} : ofOption o = .set b ↔ o = some b := by
  cases o <;> simp [ofOption]

end FieldPatch

namespace Fields

theorem patched_run (name : String) (s : Fields) :
    (patched name : FieldReader (FieldPatch α)) s = (take name s).bind fun p => match p.1 with
      | none => some (.keep, p.2)
      | some .null => some (.clear, p.2)
      | some j => (decode j).map (.set ·, p.2) := by
  rw [patched, bind_run]
  congr 1
  funext p
  obtain ⟨_ | j, s⟩ := p
  · rfl
  · cases j with
    | null => rfl
    | _ => exact lift_map_run FieldPatch.set _ s

theorem patched_of_ne {name : String} {s s' : Fields} {j : Json} (h : take name s = some (some j, s'))
    (hj : j ≠ .null) : (patched name : FieldReader (FieldPatch α)) s = (decode j).map (.set ·, s') := by
  rw [patched_run, h]
  cases j with
  | null => exact absurd rfl hj
  | _ => rfl

end Fields

theorem Gives.patched [FaithfulWire α] (name : String) :
    Gives (Fields.patched name : FieldReader (FieldPatch α)) fun p => ∀ a, p = .set a → Present a := by
  intro s p s' hs h
  have h' := h
  rw [Fields.patched_run] at h
  obtain ⟨⟨v, t⟩, hv, h⟩ := Option.bind_eq_some_iff.1 h
  obtain ⟨hranged, ht⟩ := Gives.take name s v t hs hv
  cases v with
  | none =>
    cases h
    exact ⟨nofun, ht⟩
  | some j =>
    by_cases hj : j = .null
    · subst hj
      cases h
      exact ⟨nofun, ht⟩
    · rw [Fields.patched_of_ne hv hj] at h'
      obtain ⟨a, ha, h'⟩ := Option.map_eq_some_iff.1 h'
      cases h'
      refine ⟨fun b hb => ?_, ht⟩
      cases hb
      exact ⟨FaithfulWire.sincere (hranged j rfl) ha, FaithfulWire.ne_null hj ha⟩

theorem Takes.patched {p : FieldPatch α} (hp : ∀ a, p = .set a → Present a) (name : String) :
    Takes (Fields.patched name) [(name, p.field?)] p := by
  cases p with
  | keep => exact of_vacant nofun fun s s' h => by rw [Fields.patched_run, h]; rfl
  | clear => exact of_vacant (by rintro j ⟨⟩; rfl) fun s s' h => by rw [Fields.patched_run, h]; rfl
  | set a =>
    have ha := hp a rfl
    exact of_sincere FieldPatch.set ha.toSincere fun s s' d h => Fields.patched_of_ne h (Json.cut_ne_null ha.ne_null)

namespace Patch

def Sound (p : Patch) : Prop := ∀ f, ∀ c, p.get f = .set c → Present c

theorem sound_of {p : Patch} (hconnection : ∀ c, p.connection = .set c → Present c)
    (htools : ∀ l, p.availableTools = .set l → Present l) : p.Sound := by
  intro f
  by_cases hf : f = .connection
  · subst hf
    exact hconnection
  · by_cases hf' : f = .availableTools
    · subst hf'
      exact htools
    · exact fun c _ => Field.present_content hf hf' c

theorem sound_of_accepted {p : Patch} (h : Accepted p) : p.Sound := by
  obtain ⟨j, hj, hdec⟩ := h
  exact Gives.of_readRecord (.optional_bind fun _ _ => .optional_bind fun _ _ => .bind (.patched _) fun _ _ =>
    .bind (.patched _) fun _ _ => .bind (.patched _) fun _ _ => .bind (.patched _) fun _ _ =>
    .bind (.patched _) fun _ hconnection => .bind (.patched _) fun _ htools => .bind (.patched _) fun _ _ =>
    .bind (.patched _) fun _ _ => .bind (.patched _) fun _ _ => .bind (.patched _) fun _ _ =>
    .bind (.patched _) fun _ _ => .bind (.patched _) fun _ _ => .bind (.patched _) fun _ _ =>
    .pure (sound_of hconnection htools)) hj hdec

theorem Sound.present {p : Patch} (h : p.Sound) : Present p :=
  present_record rfl (fun _ => rfl) (by simp) <| optional_bind <| optional_bind <|
    .bind (.patched (fun _ _ => LawfulWire.present _) _) <| .bind (.patched (h .displayName) _) <|
    .bind (.patched (h .description) _) <| .bind (.patched (h .serverInstructions) _) <|
    .bind (.patched (h .connection) _) <| .bind (.patched (h .availableTools) _) <|
    .bind (.patched (h .availableResources) _) <| .bind (.patched (h .availablePrompts) _) <|
    .bind (.patched (h .tags) _) <| .bind (.patched (h .owners) _) <| .bind (.patched (h .domains) _) <|
    .bind (.patched (h .dataProducts) _) <| .bind (.patched (h .pipelines) _) <| .pure _

instance : FaithfulWire Patch where
  sincere hj h := (sound_of_accepted ⟨_, hj, h⟩).present.toSincere
  ne_null _ _ := nofun

theorem sound_patchTags (tags : List Label) :
    Sound { Patch.empty with tags := FieldPatch.ofList tags } :=
  sound_of nofun nofun

end Patch

theorem Discovered.sound_patch {d : Discovered} (h : ∀ l ∈ d.tools, ∀ t ∈ l, Accepted t) : d.patch.Sound := by
  refine Patch.sound_of nofun fun l hl => ?_
  have htools : d.tools = some l := by
    change listPatch d.tools = .set l at hl
    cases ht : d.tools with
    | none => simp [ht, listPatch] at hl
    | some tools =>
      cases tools with
      | nil => simp [ht, listPatch, FieldPatch.ofList] at hl
      | cons => simpa [ht, listPatch, FieldPatch.ofList] using hl
  exact ⟨sincere_list fun t ht => (h l htools t ht).sincere, nofun⟩

namespace Registration

structure Sound (r : Registration) : Prop where
  connection : ∀ c ∈ r.connection, Present c
  tools : ∀ l ∈ r.availableTools, Present l

theorem sound_of_accepted {r : Registration} (h : Accepted r) : r.Sound := by
  obtain ⟨j, hj, hdec⟩ := h
  exact Gives.of_readRecord (.required_bind fun _ _ => .optional_bind fun _ _ => .optional_bind fun _ _ =>
    .required_bind fun _ _ => .optional_bind fun _ hconnection => .optional_bind fun _ htools =>
    .optional_bind fun _ _ => .optional_bind fun _ _ => .optional_bind fun _ _ => .optional_bind fun _ _ =>
    .optional_bind fun _ _ => .optional_bind fun _ _ => .optional_bind fun _ _ =>
    .pure ⟨hconnection, htools⟩) hj hdec

theorem Sound.present {r : Registration} (h : r.Sound) : Present r :=
  present_record rfl (fun _ => rfl) (by simp) <|
    required_bind <| optional_bind <| optional_bind <| required_bind <| .bind (.optional h.connection _) <|
    .bind (.optional h.tools _) <| optional_bind <| optional_bind <| optional_bind <| optional_bind <|
    optional_bind <| optional_bind <| optional_bind <| .pure _

instance : FaithfulWire Registration where
  sincere hj h := (sound_of_accepted ⟨_, hj, h⟩).present.toSincere
  ne_null _ _ := nofun

theorem Sound.patch {r : Registration} (h : r.Sound) : r.patch.Sound :=
  Patch.sound_of (fun c hc => h.connection c (FieldPatch.ofOption_eq_set.1 hc))
    fun l hl => h.tools l (FieldPatch.ofOption_eq_set.1 hl)

theorem Sound.service {r : Registration} (h : r.Sound) (id : Uuid) (actor : Actor) :
    (r.service id actor).Sound :=
  Service.sound_of h.connection h.tools nofun nofun

end Registration

end ServiceCatalog
