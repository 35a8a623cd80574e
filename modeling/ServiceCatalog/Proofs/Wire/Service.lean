import ServiceCatalog.Proofs.Wire.Example
import ServiceCatalog.Service.Field

namespace ServiceCatalog

open Wire Takes

namespace Gives

variable {α β : Type} [Wire α] [FaithfulWire α] {name : String} {q : β → Prop}

theorem required_bind {f : α → FieldReader β} (h : ∀ a, Sincere a → Gives (f a) q) :
    Gives (Fields.required name >>= f) q :=
  .bind (.required name) h

theorem optional_bind {f : Option α → FieldReader β}
    (h : ∀ o : Option α, (∀ a ∈ o, Present a) → Gives (f o) q) :
    Gives (Fields.optional name >>= f) q :=
  .bind (.optional name) h

end Gives

structure Tool.Sound (t : Tool) : Prop where
  input : ∀ v ∈ t.inputSchema, Present v
  output : ∀ v ∈ t.outputSchema, Present v
  examples : ∀ l ∈ t.examples, Present l

theorem Tool.present {t : Tool} (h : t.Sound) : Present t :=
  present_record rfl (fun _ => rfl) (by simp) <| withDefault_bind <| optional_bind <| optional_bind <|
    .bind (.optional h.input _) <| .bind (.optional h.output _) <| .bind (.optional h.examples _) <| .pure _

theorem Tool.sound_of_decode {j : Json} {t : Tool} (hj : j.Ranged) (h : decode j = some t) : t.Sound :=
  Gives.of_readRecord (.bind (.withDefault _ (LawfulWire.present _).toSincere) fun _ _ =>
    .optional_bind fun _ _ => .optional_bind fun _ _ => .optional_bind fun _ hinput =>
    .optional_bind fun _ houtput => .optional_bind fun _ hexamples => .pure ⟨hinput, houtput, hexamples⟩) hj h

instance : FaithfulWire Tool where
  sincere hj h := (Tool.present (Tool.sound_of_decode hj h)).toSincere
  ne_null _ _ := nofun

theorem ConnectionConfig.present {c : ConnectionConfig} (h : ∀ a ∈ c.arguments, Present a) : Present c :=
  present_record rfl (fun _ => rfl) (by simp) <| optional_bind <| required_bind <| optional_bind <|
    .bind (.optional h _) <| .pure _

instance : FaithfulWire ConnectionConfig where
  sincere hj h := Gives.of_readRecord (.optional_bind fun _ _ => .required_bind fun _ _ =>
    .optional_bind fun _ _ => .optional_bind fun _ harguments =>
    .pure (ConnectionConfig.present harguments).toSincere) hj h
  ne_null _ _ := nofun

theorem Connection.present {c : Connection} (h : ∀ a ∈ c.config, Present a) : Present c :=
  present_record rfl (fun _ => rfl) (by simp) <| .bind (.optional h _) <| .pure _

theorem Connection.present_ofLaunch (launch : LaunchConfig) : Present (Connection.ofLaunch launch) :=
  Connection.present (by rintro c ⟨⟩; exact ConnectionConfig.present nofun)

theorem Connection.present_of_decode {j : Json} {c : Connection} (hj : j.Ranged) (h : decode j = some c) :
    ∀ a ∈ c.config, Present a :=
  Gives.of_readRecord (p := fun c : Connection => ∀ a ∈ c.config, Present a)
    (.optional_bind fun _ hconfig => .pure hconfig) hj h

instance : FaithfulWire Connection where
  sincere hj h := (Connection.present (Connection.present_of_decode hj h)).toSincere
  ne_null _ _ := nofun

theorem FieldChange.present {c : FieldChange} (hold : ∀ v ∈ c.oldValue, Present v)
    (hnew : ∀ v ∈ c.newValue, Present v) : Present c :=
  present_record rfl (fun _ => rfl) (by simp) <| required_bind <| .bind (.optional hold _) <|
    .bind (.optional hnew _) <| .pure _

instance : FaithfulWire FieldChange where
  sincere hj h := Gives.of_readRecord (.required_bind fun _ _ => .optional_bind fun _ hold =>
    .optional_bind fun _ hnew => .pure (FieldChange.present hold hnew).toSincere) hj h
  ne_null _ _ := nofun

structure ChangeDescription.Sound (d : ChangeDescription) : Prop where
  added : ∀ l ∈ d.fieldsAdded, Present l
  updated : ∀ l ∈ d.fieldsUpdated, Present l
  deleted : ∀ l ∈ d.fieldsDeleted, Present l

theorem ChangeDescription.present {d : ChangeDescription} (h : d.Sound) : Present d :=
  present_record rfl (fun _ => rfl) (by simp) <| .bind (.optional h.added _) <| .bind (.optional h.updated _) <|
    .bind (.optional h.deleted _) <| optional_bind <| optional_bind <| .pure _

theorem ChangeDescription.sound_of_decode {j : Json} {d : ChangeDescription} (hj : j.Ranged)
    (h : decode j = some d) : d.Sound :=
  Gives.of_readRecord (.optional_bind fun _ hadded => .optional_bind fun _ hupdated =>
    .optional_bind fun _ hdeleted => .optional_bind fun _ _ => .optional_bind fun _ _ =>
    .pure ⟨hadded, hupdated, hdeleted⟩) hj h

instance : FaithfulWire ChangeDescription where
  sincere hj h := (ChangeDescription.present (ChangeDescription.sound_of_decode hj h)).toSincere
  ne_null _ _ := nofun

theorem Field.present_content {f : Field} (hconnection : f ≠ .connection) (htools : f ≠ .availableTools)
    (c : f.Content) : Present c := by
  cases f with
  | connection => exact absurd rfl hconnection
  | availableTools => exact absurd rfl htools
  | displayName | description | serverInstructions => exact LawfulWire.present (α := String) c
  | availableResources => exact LawfulWire.present (α := List Resource) c
  | availablePrompts => exact LawfulWire.present (α := List Prompt) c
  | tags => exact LawfulWire.present (α := List Label) c
  | owners | domains | dataProducts | pipelines => exact LawfulWire.present (α := List Reference) c

namespace Service

structure Sound (s : Service) : Prop where
  content : ∀ f, ∀ c ∈ s.get f, Present c
  change : ∀ d ∈ s.change, Present d
  incremental : ∀ d ∈ s.incrementalChange, Present d

theorem sound_of {s : Service} (hconnection : ∀ c ∈ s.connection, Present c)
    (htools : ∀ l ∈ s.availableTools, Present l) (hchange : ∀ d ∈ s.change, Present d)
    (hincremental : ∀ d ∈ s.incrementalChange, Present d) : s.Sound where
  content f := by
    by_cases hf : f = .connection
    · subst hf
      exact hconnection
    · by_cases hf' : f = .availableTools
      · subst hf'
        exact htools
      · exact fun c _ => Field.present_content hf hf' c
  change := hchange
  incremental := hincremental

theorem present {s : Service} (h : s.Sound) : Present s :=
  present_record rfl (fun _ => rfl) (by simp) <|
    required_bind <| required_bind <| required_bind <| optional_bind <| optional_bind <| required_bind <|
    .bind (.optional (h.content .connection) _) <| .bind (.optional (h.content .availableTools) _) <|
    optional_bind <| optional_bind <| optional_bind <| optional_bind <| optional_bind <| optional_bind <|
    optional_bind <| optional_bind <| optional_bind <| optional_bind <| optional_bind <| required_bind <|
    required_bind <| required_bind <| .bind (.optional h.change _) <| .bind (.optional h.incremental _) <| .pure _

theorem sound_of_decode {j : Json} {s : Service} (hj : j.Ranged) (h : decode j = some s) : s.Sound :=
  Gives.of_readRecord (.required_bind fun _ _ => .required_bind fun _ _ => .required_bind fun _ _ =>
    .optional_bind fun _ _ => .optional_bind fun _ _ => .required_bind fun _ _ =>
    .optional_bind fun _ hconnection => .optional_bind fun _ htools => .optional_bind fun _ _ =>
    .optional_bind fun _ _ => .optional_bind fun _ _ => .optional_bind fun _ _ => .optional_bind fun _ _ =>
    .optional_bind fun _ _ => .optional_bind fun _ _ => .optional_bind fun _ _ => .optional_bind fun _ _ =>
    .optional_bind fun _ _ => .optional_bind fun _ _ => .required_bind fun _ _ => .required_bind fun _ _ =>
    .required_bind fun _ _ => .optional_bind fun _ hchange => .optional_bind fun _ hincremental =>
    .pure (sound_of hconnection htools hchange hincremental)) hj h

instance : FaithfulWire Service where
  sincere hj h := (present (sound_of_decode hj h)).toSincere
  ne_null _ _ := nofun

end Service

end ServiceCatalog
