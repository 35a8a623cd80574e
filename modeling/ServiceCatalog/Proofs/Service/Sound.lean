import ServiceCatalog.Proofs.Change.Account
import ServiceCatalog.Proofs.Wire.Request

namespace ServiceCatalog

open Wire

namespace Buckets

def changes (b : Buckets) : List FieldChange := b.added ++ b.updated ++ b.deleted

theorem Moved.present {α : Type} [Wire α] {b : Buckets} {name : String} {old new : Option α}
    (h : b.Moved name old new) (hold : ∀ a ∈ old, Present a) (hnew : ∀ a ∈ new, Present a) :
    ∃ c ∈ b.changes, c.name = name ∧ Present c := by
  have hvalue {o : Option α} (ho : ∀ a ∈ o, Present a) : ∀ v ∈ o.map toValue, Present v := by
    intro v hv
    obtain ⟨a, ha, rfl⟩ := Option.map_eq_some_iff.1 hv
    exact present_toValue (ho a ha)
  refine ⟨⟨name, old.map toValue, new.map toValue⟩, ?_, rfl, FieldChange.present (hvalue hold) (hvalue hnew)⟩
  cases old <;> cases new
  · exact h.elim
  · exact List.mem_append_left _ (List.mem_append_left _ h)
  · exact List.mem_append_right _ h
  · exact List.mem_append_left _ (List.mem_append_right _ h)

end Buckets

namespace Tracked

variable {prev next : Service} {b : Buckets}

theorem Recorded.present {t : Tracked} (h : t.Recorded prev next b) (hprev : ∀ f, ∀ c ∈ prev.get f, Present c)
    (hnext : ∀ f, ∀ c ∈ next.get f, Present c) : ∃ c ∈ b.changes, c.name = t.label ∧ Present c := by
  have hsome {α : Type} [Wire α] [LawfulWire α] (a : α) : ∀ v ∈ some (toValue a), Present v := by
    rintro v ⟨⟩
    exact present_toValue (LawfulWire.present a)
  cases t with
  | name =>
    exact ⟨_, List.mem_append_left _ (List.mem_append_right _ h), rfl,
      FieldChange.present (hsome _) (hsome _)⟩
  | field f => exact Buckets.Moved.present h (hprev f) (hnext f)
  | followers =>
    rcases h with ⟨user, -, hmem⟩ | ⟨l, user, r, -, -, hmem⟩
    · exact ⟨_, List.mem_append_left _ (List.mem_append_left _ hmem), rfl, FieldChange.present nofun (hsome _)⟩
    · exact ⟨_, List.mem_append_right _ hmem, rfl, FieldChange.present (hsome _) nofun⟩
  | testResult => exact Buckets.Moved.present h (fun a _ => LawfulWire.present a) fun a _ => LawfulWire.present a
  | deleted =>
    exact ⟨_, List.mem_append_left _ (List.mem_append_right _ h), rfl, FieldChange.present (hsome _) (hsome _)⟩

end Tracked

theorem Accounts.present {prev next : Service} {b : Buckets} (h : Accounts prev next b)
    (hprev : ∀ f, ∀ c ∈ prev.get f, Present c) (hnext : ∀ f, ∀ c ∈ next.get f, Present c) :
    ∀ c ∈ b.changes, Present c := by
  intro c hc
  have hname : c.name ∈ b.names := List.mem_map_of_mem hc
  obtain ⟨t, ht⟩ := h.tracked hname
  -- names occur once, so the change recorded for the field is this one
  obtain ⟨c', hc', hname', hpresent⟩ := (h.recorded t ((h.mem_names t).1 (ht ▸ hname))).present hprev hnext
  have he : c' = c := List.inj_on_of_nodup_map h.nodup hc' hc (hname'.trans ht)
  exact he ▸ hpresent

theorem ChangeDescription.present_of_changes {d : ChangeDescription} (h : ∀ c ∈ d.buckets.changes, Present c) :
    Present d := by
  have hbucket {o : Option (List FieldChange)} (ho : o.getD [] ⊆ d.buckets.changes) : ∀ l ∈ o, Present l := by
    rintro l ⟨⟩
    exact ⟨sincere_list fun c hc => (h c (ho hc)).toSincere, nofun⟩
  refine ChangeDescription.present ⟨hbucket ?_, hbucket ?_, hbucket ?_⟩
  · exact fun c hc => List.mem_append_left _ (List.mem_append_left _ hc)
  · exact fun c hc => List.mem_append_left _ (List.mem_append_right _ hc)
  · exact fun c hc => List.mem_append_right _ hc

namespace Service

theorem mem_apply {α : Type} [Wire α] [BEq α] {log : ChangeLog} {name : String} {old : Option α}
    {p : FieldPatch α} {a : α} (h : a ∈ (log.apply name old p).2) : a ∈ old ∨ p = .set a := by
  cases p with
  | keep => exact .inl h
  | clear => cases old <;> cases h
  | set b =>
    cases old with
    | none =>
      cases h
      exact .inr rfl
    | some o =>
      simp only [ChangeLog.apply] at h
      split at h
      · exact .inl h
      · cases h
        exact .inr rfl

theorem patchFields_content {p : Patch} (hp : p.Sound) {state : ChangeLog × Service}
    (h : ∀ f, ∀ c ∈ state.2.get f, Present c) : ∀ f, ∀ c ∈ (patchFields p state).2.get f, Present c := by
  unfold patchFields
  generalize Field.all = fields
  induction fields generalizing state with
  | nil => exact h
  | cons g fields ih =>
    refine ih fun f => ?_
    by_cases hf : f = g
    · subst hf
      intro c hc
      simp only [patchField, get_set] at hc
      rcases mem_apply hc with hc | hc
      · exact h f c hc
      · exact hp f c hc
    · simp only [patchField, get_set_of_ne _ hf]
      exact h f

variable {policy : DuplicatePolicy} {asked : Patch → Prop} {actor : Actor} {current s next : Service}
  {change : ChangeDescription} {log : ChangeLog}

theorem Drafted.content (h : Drafted policy asked current next log) (hasked : ∀ p, asked p → p.Sound)
    (hcurrent : ∀ f, ∀ c ∈ current.get f, Present c) : ∀ f, ∀ c ∈ next.get f, Present c := by
  cases h with
  | @patched p renamed _ _ hp _ _ hname hfields =>
    have hget := (rename_spec hname).2.2.1
    have hrenamed : ∀ f, ∀ c ∈ renamed.2.get f, Present c := by
      intro f
      rw [hget f]
      exact hcurrent f
    have hcontent := patchFields_content (hasked p hp) hrenamed
    rwa [hfields] at hcontent
  | marked | followed | unfollowed | tested => exact fun f => by cases f <;> exact hcurrent _

theorem Revised.sound (h : Revised policy asked actor current s change next log)
    (hasked : ∀ p, asked p → p.Sound) (hcurrent : current.Sound) : s.Sound := by
  have hnext := h.drafted.content hasked hcurrent.content
  have hchange : Present change := by
    refine ChangeDescription.present_of_changes ?_
    rw [h.described, ChangeLog.buckets_describe]
    exact h.drafted.accounts.present hcurrent.content hnext
  have hsome : ∀ d ∈ some change, Present d := by
    rintro d ⟨⟩
    exact hchange
  rw [h.released]
  exact ⟨fun f => by cases f <;> exact hnext _, hsome, hsome⟩

end Service

end ServiceCatalog
