import ServiceCatalog.Catalog.Listing
import ServiceCatalog.Proofs.Store.Document
import ServiceCatalog.Proofs.Wire.Request

namespace ServiceCatalog

open Wire Takes

theorem VersionList.present {l : VersionList} (h : Sincere l.versions) : Present l :=
  present_record rfl (fun _ => rfl) (by simp) <| required_bind <| .bind (.required h _) <| .pure _

theorem VersionList.sincere_of_decode {j : Json} {l : VersionList} (hj : j.Ranged) (h : decode j = some l) :
    Sincere l.versions :=
  Gives.of_readRecord (p := fun l : VersionList => Sincere l.versions)
    (.required_bind fun _ _ => .required_bind fun _ hversions => .pure hversions) hj h

instance : FaithfulWire VersionList where
  sincere hj h := (VersionList.present (VersionList.sincere_of_decode hj h)).toSincere
  ne_null _ _ := nofun

theorem Paging.present {p : Paging} (h : Sincere p.total) : Present p :=
  present_record rfl (fun _ => rfl) (by simp) <| optional_bind <| .bind (.required h _) <| .pure _

instance : FaithfulWire Paging where
  sincere hj h := Gives.of_readRecord (.optional_bind fun _ _ => .required_bind fun _ htotal =>
    .pure (Paging.present htotal).toSincere) hj h
  ne_null _ _ := nofun

theorem Page.present {p : Page} (hdata : Sincere p.data) (hpaging : Sincere p.paging) : Present p :=
  present_record rfl (fun _ => rfl) (by simp) <| .bind (.required hdata _) <| .bind (.required hpaging _) <| .pure _

theorem Page.sincere_of_decode {j : Json} {p : Page} (hj : j.Ranged) (h : decode j = some p) :
    Sincere p.data ∧ Sincere p.paging :=
  Gives.of_readRecord (p := fun p : Page => Sincere p.data ∧ Sincere p.paging)
    (.required_bind fun _ hdata => .required_bind fun _ hpaging => .pure ⟨hdata, hpaging⟩) hj h

instance : FaithfulWire Page where
  sincere hj h := by
    obtain ⟨hdata, hpaging⟩ := Page.sincere_of_decode hj h
    exact (Page.present hdata hpaging).toSincere
  ne_null _ _ := nofun

namespace FieldPatch

variable {α : Type} [Wire α] {p : FieldPatch α}

def written : FieldPatch α → FieldPatch Json
  | keep => keep
  | clear => clear
  | set a => set (encode a)

/-- A field that is kept has no key. Under the key of one that is cleared stands a null, and under the key of one
that is set something else. -/
def Shown : FieldPatch Json → Option Json → Prop
  | keep, o => o = none
  | clear, o => o = some .null
  | set j, o => o = some j ∧ j ≠ .null

theorem shown (h : ∀ a, p = set a → Present a) : p.written.Shown p.field? := by
  cases p with
  | keep | clear => rfl
  | set a => exact ⟨rfl, (h a rfl).ne_null⟩

end FieldPatch

theorem Patch.field?_name (p : Patch) : (encode p).field? "name" = p.name.field? :=
  Json.field?_record (by simp) (by simp)

theorem Patch.field?_get (p : Patch) (f : Field) : (encode p).field? f.name = (p.get f).field? := by
  cases f <;> exact Json.field?_record (by simp) (by simp [Field.name, Patch.get])

inductive Shape where
  | service
  | registration
  | patch
  | record
  | testResult
  | change
  | history
  | page
  | tool
  | toolExample
  | resource
  | prompt
  | argument
  | label
  | style
  | reference
  | connection
  | connectionConfig
  | launch
  | testStep
  | fieldChange
  | summary
  | paging
deriving DecidableEq

namespace Shape

@[reducible]
def Content : Shape → Type
  | service => Service
  | registration => Registration
  | patch => Patch
  | record => ServiceRecord
  | testResult => TestResult
  | change => ChangeDescription
  | history => VersionList
  | page => Page
  | tool => Tool
  | toolExample => ToolExample
  | resource => Resource
  | prompt => Prompt
  | argument => PromptArgument
  | label => Label
  | style => LabelStyle
  | reference => Reference
  | connection => Connection
  | connectionConfig => ConnectionConfig
  | launch => LaunchConfig
  | testStep => TestStep
  | fieldChange => FieldChange
  | summary => ChangeSummary
  | paging => Paging

instance (f : Shape) : Wire f.Content := by cases f <;> exact inferInstance

instance (f : Shape) : FaithfulWire f.Content := by cases f <;> exact inferInstance

def optionals : (f : Shape) → f.Content → List (String × Option Json)
  | service, s => Field.all.map (fun f => (f.name, (s.get f).map encode)) ++ [
    ("followers", s.followers.map encode),
    ("testConnectionResult", s.testResult.map encode),
    ("deleted", s.deleted.map encode),
    ("changeDescription", s.change.map encode),
    ("incrementalChangeDescription", s.incrementalChange.map encode)]
  | registration, r => [
    ("displayName", r.displayName.map encode),
    ("description", r.description.map encode),
    ("connection", r.connection.map encode),
    ("availableTools", r.availableTools.map encode),
    ("availableResources", r.availableResources.map encode),
    ("availablePrompts", r.availablePrompts.map encode),
    ("serverInstructions", r.serverInstructions.map encode),
    ("tags", r.tags.map encode),
    ("owners", r.owners.map encode),
    ("domains", r.domains.map encode),
    ("dataProducts", r.dataProducts.map encode)]
  | patch, p => [("id", p.id.map encode), ("serviceType", p.kind.map encode)]
  | testResult, r => [("lastUpdatedAt", r.lastUpdatedAt.map encode), ("status", r.status.map encode)]
  | change, d => [
    ("fieldsAdded", d.fieldsAdded.map encode),
    ("fieldsUpdated", d.fieldsUpdated.map encode),
    ("fieldsDeleted", d.fieldsDeleted.map encode),
    ("previousVersion", d.previousVersion.map encode),
    ("changeSummary", d.summary.map encode)]
  | tool, t => [
    ("description", t.description.map encode),
    ("category", t.category.map encode),
    ("inputSchema", t.inputSchema.map encode),
    ("outputSchema", t.outputSchema.map encode),
    ("examples", t.examples.map encode)]
  | toolExample, e => e.knownPart ++ e.extraPart
  | resource, r => [
    ("name", r.name.map encode), ("description", r.description.map encode), ("mimeType", r.mimeType.map encode)]
  | prompt, p => [("description", p.description.map encode), ("arguments", p.arguments.map encode)]
  | argument, a => [
    ("description", a.description.map encode), ("type", a.kind.map encode), ("required", a.required.map encode)]
  | label, l => [
    ("name", l.name.map encode),
    ("displayName", l.displayName.map encode),
    ("description", l.description.map encode),
    ("style", l.style.map encode),
    ("href", l.href.map encode)]
  | style, s => [("color", s.color.map encode), ("iconURL", s.iconUrl.map encode)]
  | reference, r => [
    ("name", r.name.map encode),
    ("fullyQualifiedName", r.qualifiedName.map encode),
    ("displayName", r.displayName.map encode),
    ("description", r.description.map encode),
    ("deleted", r.deleted.map encode),
    ("inherited", r.inherited.map encode),
    ("href", r.href.map encode)]
  | connection, c => [("config", c.config.map encode)]
  | connectionConfig, c => [
    ("type", c.kind.map encode),
    ("connectionOptions", c.options.map encode),
    ("connectionArguments", c.arguments.map encode)]
  | launch, c => [("args", c.args.map encode), ("env", c.env.map encode), ("cwd", c.cwd.map encode)]
  | testStep, s => [("message", s.message.map encode), ("errorLog", s.errorLog.map encode)]
  | fieldChange, c => [("oldValue", c.oldValue.map encode), ("newValue", c.newValue.map encode)]
  | summary, s => [
    ("changedAt", s.changedAt.map encode), ("changedBy", s.changedBy.map encode), ("changeSource", s.source.map encode)]
  | paging, p => [("after", p.after.map encode)]
  | record, _ | history, _ | page, _ => []

theorem field?_of_record {f : Shape} {v : f.Content} {fields : List (String × Option Json)}
    (henc : encode v = .record fields) (hnames : (fields.map (·.1)).Nodup) (hsub : f.optionals v ⊆ fields) :
    ∀ p ∈ f.optionals v, (encode v).field? p.1 = p.2 := by
  intro p hp
  rw [henc]
  exact Json.field?_record hnames (hsub hp)

theorem field?_optionals {f : Shape} {v : f.Content} (h : Accepted v) :
    ∀ p ∈ f.optionals v, (encode v).field? p.1 = p.2 := by
  cases f with
  | toolExample =>
    obtain ⟨j, hj, hdec⟩ := h
    have hsound : ToolExample.Sound v := ToolExample.sound_of_decode hj hdec
    exact field?_of_record (ToolExample.encode_eq v) (ToolExample.names_nodup hsound) (List.Subset.refl _)
  | service => exact field?_of_record rfl (by simp) (by simp [optionals, Field.all, Field.name, Service.get])
  | _ => exact field?_of_record rfl (by simp) (by simp [optionals])

def tristates : (f : Shape) → f.Content → List (String × FieldPatch Json)
  | patch, p => ("name", p.name.written) :: Field.all.map fun f => (f.name, (p.get f).written)
  | _, _ => []

theorem shown_tristates {f : Shape} {v : f.Content} (h : Accepted v) :
    ∀ p ∈ f.tristates v, p.2.Shown ((encode v).field? p.1) := by
  cases f with
  | patch =>
    have hsound : Patch.Sound v := Patch.sound_of_accepted h
    refine List.forall_mem_cons.2 ⟨?_, List.forall_mem_map.2 fun f _ => ?_⟩
    · exact (Patch.field?_name v).symm ▸ FieldPatch.shown fun _ _ => present _
    · exact (Patch.field?_get v f).symm ▸ FieldPatch.shown (hsound f)
  | _ => exact List.forall_mem_nil _

example (p : Patch) : (patch.tristates p).length = 13 := rfl

end Shape

abbrev AnyRecord : Type := (f : Shape) × f.Content

namespace Shape

def each (f : Shape) (l : List f.Content) : List AnyRecord := l.map (⟨f, ·⟩)

def parts : (f : Shape) → f.Content → List AnyRecord
  | service, s =>
    each connection s.connection.toList ++ each tool s.toolList ++ each resource s.resourceList ++
      each prompt s.promptList ++ each label s.tagList ++ each reference (s.owners.getD []) ++
      each reference (s.domains.getD []) ++ each reference (s.dataProducts.getD []) ++
      each reference s.followerList ++ each reference (s.pipelines.getD []) ++ each testResult s.testResult.toList ++
      each change s.change.toList ++ each change s.incrementalChange.toList
  | registration, r =>
    each connection r.connection.toList ++ each tool (r.availableTools.getD []) ++
      each resource (r.availableResources.getD []) ++ each prompt (r.availablePrompts.getD []) ++
      each label (r.tags.getD []) ++ each reference (r.owners.getD []) ++ each reference (r.domains.getD []) ++
      each reference (r.dataProducts.getD [])
  | patch, p =>
    each connection p.connection.value?.toList ++ each tool (p.availableTools.value?.getD []) ++
      each resource (p.availableResources.value?.getD []) ++ each prompt (p.availablePrompts.value?.getD []) ++
      each label (p.tags.value?.getD []) ++ each reference (p.owners.value?.getD []) ++
      each reference (p.domains.value?.getD []) ++ each reference (p.dataProducts.value?.getD []) ++
      each reference (p.pipelines.value?.getD [])
  | record, r => each service r.states
  | testResult, r => each testStep r.steps
  | change, d =>
    each fieldChange (d.added ++ d.updated ++ d.deleted) ++
      each summary ((d.summary.getD .empty).entries.map (·.2))
  | history, l => each service l.versions
  | page, p => each service p.data ++ each paging [p.paging]
  | tool, t => each toolExample (t.examples.getD [])
  | prompt, p => each argument (p.arguments.getD [])
  | label, l => each style l.style.toList
  | connection, c => each connectionConfig c.config.toList
  | connectionConfig, c => each launch [c.launch]
  | toolExample, _ | resource, _ | argument, _ | style, _ | reference, _ | launch, _ | testStep, _ | fieldChange, _
  | summary, _ | paging, _ => []

theorem accepted_toList {α : Type} [Wire α] {o : Option α} (h : ∀ a ∈ o, Present a) : ∀ a ∈ o.toList, Accepted a :=
  fun a ha => (h a (Option.mem_toList.1 ha)).accepted

theorem accepted_getD {α : Type} [Wire α] {o : Option (List α)} (h : ∀ l ∈ o, Present l) :
    ∀ a ∈ o.getD [], Accepted a := by
  cases o with
  | none => exact List.forall_mem_nil _
  | some l => exact (h l rfl).accepted.of_mem

theorem accepted_each {f : Shape} {l : List f.Content} : (∀ w ∈ each f l, Accepted w.2) ↔ ∀ v ∈ l, Accepted v :=
  List.forall_mem_map

theorem accepted_parts {f : Shape} {v : f.Content} (h : Accepted v) : ∀ w ∈ f.parts v, Accepted w.2 := by
  obtain ⟨j, hj, hdec⟩ := h
  cases f with
  | service =>
    have hsound := Service.sound_of_decode hj hdec
    have hconnection := accepted_toList (hsound.content .connection)
    have htools := accepted_getD (hsound.content .availableTools)
    have hchange := accepted_toList hsound.change
    have hincremental := accepted_toList hsound.incremental
    -- what is left holds values kept verbatim
    simp only [parts, List.forall_mem_append, accepted_each, accepted_of_lawful, implies_true, and_true]
    exact ⟨⟨⟨hconnection, htools⟩, hchange⟩, hincremental⟩
  | registration =>
    have hsound := Registration.sound_of_accepted ⟨j, hj, hdec⟩
    have hconnection := accepted_toList hsound.connection
    have htools := accepted_getD hsound.tools
    simp only [parts, List.forall_mem_append, accepted_each, accepted_of_lawful, implies_true, and_true]
    exact ⟨hconnection, htools⟩
  | patch =>
    have hsound := Patch.sound_of_accepted ⟨j, hj, hdec⟩
    have hconnection := accepted_toList fun c hc => hsound .connection c (FieldPatch.value?_eq_some.1 hc)
    have htools := accepted_getD fun l hl => hsound .availableTools l (FieldPatch.value?_eq_some.1 hl)
    simp only [parts, List.forall_mem_append, accepted_each, accepted_of_lawful, implies_true, and_true]
    exact ⟨hconnection, htools⟩
  | record =>
    have hsound := ServiceRecord.sound_of_decode hj hdec
    exact accepted_each.2 fun s hs => (Service.present (hsound s hs)).accepted
  | change =>
    have hsound := ChangeDescription.sound_of_decode hj hdec
    simp only [parts, List.forall_mem_append, accepted_each, accepted_of_lawful, implies_true, and_true]
    exact ⟨⟨accepted_getD hsound.added, accepted_getD hsound.updated⟩, accepted_getD hsound.deleted⟩
  | history => exact accepted_each.2 (VersionList.sincere_of_decode hj hdec).accepted.of_mem
  | page =>
    obtain ⟨hdata, hpaging⟩ := Page.sincere_of_decode hj hdec
    simp only [parts, List.forall_mem_append, accepted_each, List.forall_mem_singleton]
    exact ⟨hdata.accepted.of_mem, hpaging.accepted⟩
  | tool =>
    have hsound := Tool.sound_of_decode hj hdec
    exact accepted_each.2 (accepted_getD hsound.examples)
  | connection => exact accepted_each.2 (accepted_toList (Connection.present_of_decode hj hdec))
  | _ => simp [parts, accepted_each]

end Shape

structure AnyRecord.Keyed (w : AnyRecord) : Prop where
  optional : ∀ p ∈ w.1.optionals w.2, (encode w.2).field? p.1 = p.2
  patched : ∀ p ∈ w.1.tristates w.2, p.2.Shown ((encode w.2).field? p.1)

theorem AnyRecord.keyed_of_accepted {w : AnyRecord} (h : Accepted w.2) : w.Keyed :=
  ⟨Shape.field?_optionals h, Shape.shown_tristates h⟩

end ServiceCatalog
