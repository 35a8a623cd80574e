import ServiceCatalog.Catalog.Basic
import ServiceCatalog.Proofs.Catalog.Effect
import ServiceCatalog.Proofs.Store.Save

namespace ServiceCatalog

namespace Catalog.State

def records (s : State) : Records := s.catalog.records

def store (s : State) : Store := s.catalog.store

def document? (s : State) : Option String := s.store.document? s.files

structure Wrote (before after : State) (effect : Effect) (w : Write) : Prop where
  asked : effect.write? = some w
  records_eq : before.records.write w = .ok after.records
  settings_eq : after.catalog.settings = before.catalog.settings
  file_eq : after.store.file = before.store.file
  written : after.store.Written before.files after.files

theorem Wrote.text? {before after : State} {effect : Effect} {w : Write} {file : Path}
    (hw : Wrote before after effect w) (hfile : before.store.file = some file) :
    after.files.text? file = some after.records.text := by
  have hwritten := hw.written
  rwa [Store.Written, hw.file_eq, hfile] at hwritten

theorem step_cases (s : State) (actor : Actor) (m : Mutation) :
    (∃ e, (s.step actor m).2 = .error e ∧ (s.step actor m).1.catalog = s.catalog ∧
        (s.step actor m).1.document? = s.document? ∧
        ((∀ fault, e ≠ .storage fault) → (s.step actor m).1 = s)) ∨
      ∃ effect, (s.step actor m).2 = .ok effect ∧
        m.effect s.catalog.settings s.records actor = .ok effect ∧
        ((effect.write? = none ∧ (s.step actor m).1 = s) ∨
          ∃ w, Wrote s (s.step actor m).1 effect w) := by
  unfold step mutate
  cases heffect : m.effect s.catalog.settings s.catalog.records actor with
  | error e => exact .inl ⟨e, rfl, rfl, rfl, fun _ => rfl⟩
  | ok effect =>
    cases hw : effect.write? with
    | none => exact .inr ⟨effect, by simp only [hw], heffect, .inl ⟨hw, by simp only [hw]⟩⟩
    | some w =>
      simp only [hw]
      generalize hwrite : s.catalog.store.write s.files w = result
      obtain ⟨files, outcome⟩ := result
      cases outcome with
      | error e =>
        obtain ⟨hdocument, hfiles⟩ := Store.write_error hwrite
        refine .inl ⟨e, rfl, rfl, hdocument, fun hfault => ?_⟩
        obtain rfl := hfiles hfault
        rfl
      | ok store =>
        obtain ⟨hr, hf, hwritten⟩ := Store.write_ok hwrite
        exact .inr ⟨effect, rfl, heffect, .inr ⟨w, hw, hr, rfl, hf, hwritten⟩⟩

def Lawful (before after : State) (m : Mutation) : Outcome Effect → Prop
  | .error _ => after.catalog = before.catalog ∧ after.document? = before.document?
  | .ok (.unchanged s) =>
    after = before ∧ m.target? before.records = some s.id ∧ before.records.get? s.id = some s
  | .ok (.created s) =>
    m.target? before.records = none ∧ before.records.find? s.id = none ∧
      (∀ id, after.records.find? id = if id = s.id then some ⟨s, []⟩ else before.records.find? id) ∧
      after.catalog.settings = before.catalog.settings ∧ after.store.file = before.store.file ∧
      after.store.Written before.files after.files
  | .ok (.changed base s change) =>
    m.target? before.records = some s.id ∧
      (∃ x, before.records.find? s.id = some x ∧ x.current.version = base ∧
        base.tenths < s.version.tenths ∧ s.change = some change ∧
        ∀ id, after.records.find? id =
          if id = s.id then some ⟨s, x.history ++ [x.current]⟩ else before.records.find? id) ∧
      after.catalog.settings = before.catalog.settings ∧ after.store.file = before.store.file ∧
      after.store.Written before.files after.files
  | .ok (.removed s) =>
    m = .remove s.id ∧ before.records.get? s.id = some s ∧
      (∀ id, after.records.find? id = if id = s.id then none else before.records.find? id) ∧
      after.catalog.settings = before.catalog.settings ∧ after.store.file = before.store.file ∧
      after.store.Written before.files after.files

variable {before after : State} {m : Mutation} {actor : Actor}

theorem lawful_created {request : Registration} {id : Uuid} {effect : Effect} {w : Write}
    (htarget : m.target? before.records = none)
    (h : Effect.Registers before.catalog.settings before.records actor request id effect)
    (hw : Wrote before after effect w) : Lawful before after m (.ok effect) := by
  obtain ⟨-, -, rfl⟩ := h
  have hasked := hw.asked
  simp only [Effect.write?, Option.some.injEq] at hasked
  subst hasked
  obtain ⟨hnone, -, hrecords⟩ := Records.insert_eq_ok.1 hw.records_eq
  refine ⟨htarget, hnone, fun id => ?_, hw.settings_eq, hw.file_eq, hw.written⟩
  rw [hrecords, Records.find?_put]
  rfl

theorem lawful_removed {id : Uuid} {s : Service} {w : Write} (hm : m = .remove id)
    (hget : before.records.get? id = some s) (hw : Wrote before after (.removed s) w) :
    Lawful before after m (.ok (.removed s)) := by
  have hid := Records.id_of_get? hget
  subst hid
  have hasked := hw.asked
  simp only [Effect.write?, Option.some.injEq] at hasked
  subst hasked
  obtain ⟨-, hrecords⟩ := Records.remove_eq_ok.1 hw.records_eq
  refine ⟨hm, hget, fun id => ?_, hw.settings_eq, hw.file_eq, hw.written⟩
  rw [hrecords, Records.find?_erase]

theorem lawful_changed {current s next : Service} {change : ChangeDescription} {log : ChangeLog} {id : Uuid}
    {asked : Patch → Prop} {w : Write} (htarget : m.target? before.records = some id)
    (hget : before.records.get? id = some current)
    (hrevised : Service.Revised before.catalog.settings.policy asked actor current s change next log)
    (hw : Wrote before after (.changed current.version s change) w) :
    Lawful before after m (.ok (.changed current.version s change)) := by
  have hid : s.id = id := hrevised.id_eq.trans (Records.id_of_get? hget)
  subst hid
  have hasked := hw.asked
  simp only [Effect.write?, Option.some.injEq] at hasked
  subst hasked
  obtain ⟨-, x, hx, hbase, hrecords⟩ := Records.replace_eq_ok.1 hw.records_eq
  refine ⟨htarget, ⟨x, hx, hbase, hrevised.version_lt, hrevised.change_eq, fun id => ?_⟩,
    hw.settings_eq, hw.file_eq, hw.written⟩
  rw [hrecords, Records.find?_put]
  rfl

/-- Every mutation of every catalog, whatever happens to its file, keeps to the law of its outcome. -/
theorem step_lawful (s : State) (actor : Actor) (m : Mutation) :
    Lawful s (s.step actor m).1 m (s.step actor m).2 := by
  rcases step_cases s actor m with ⟨e, he, hcatalog, hdocument, -⟩ | ⟨effect, hok, heffect, hstep⟩
  · rw [he]
    exact ⟨hcatalog, hdocument⟩
  · rw [hok]
    rcases Mutation.effect_cases heffect with
      ⟨request, id, -, htarget, h⟩ | ⟨id, t, hm, hget, rfl⟩ | ⟨id, htarget, current, hget, h⟩
    · rcases hstep with ⟨hnone, -⟩ | ⟨w, hw⟩
      · rw [h.2.2] at hnone
        cases hnone
      · exact lawful_created htarget h hw
    · rcases hstep with ⟨hnone, -⟩ | ⟨w, hw⟩
      · cases hnone
      · exact lawful_removed hm hget hw
    · rcases h with rfl | ⟨t, change, next, log, rfl, hrevised⟩
      · rcases hstep with ⟨-, hsame⟩ | ⟨w, hw⟩
        · rw [hsame]
          have hid := Records.id_of_get? hget
          exact ⟨rfl, hid ▸ htarget, hid ▸ hget⟩
        · cases hw.asked
      · rcases hstep with ⟨hnone, -⟩ | ⟨w, hw⟩
        · cases hnone
        · exact lawful_changed htarget hget hrevised hw

theorem step_find?_of_ne (s : State) (actor : Actor) {m : Mutation} {id : Uuid} (hother : m.target? s.records ≠ some id)
    (hstored : m.target? s.records = none → (s.records.find? id).isSome = true) :
    (s.step actor m).1.records.find? id = s.records.find? id := by
  have hlawful := s.step_lawful actor m
  generalize (s.step actor m).1 = after at hlawful
  generalize (s.step actor m).2 = outcome at hlawful
  rcases outcome with e | t | ⟨base, t, change⟩ | t | t
  · rw [records, hlawful.1]
    rfl
  · obtain ⟨hnone, hfresh, hfind, -⟩ := hlawful
    have hid : id ≠ t.id := by
      rintro rfl
      have hsome := hstored hnone
      rw [hfresh] at hsome
      cases hsome
    rw [hfind, if_neg hid]
  · obtain ⟨htarget, ⟨x, -, -, -, -, hfind⟩, -⟩ := hlawful
    have hid : id ≠ t.id := fun hid => hother (hid ▸ htarget)
    rw [hfind, if_neg hid]
  · rw [hlawful.1]
  · obtain ⟨rfl, -, hfind, -⟩ := hlawful
    have hid : id ≠ t.id := fun hid => hother (hid ▸ rfl)
    rw [hfind, if_neg hid]

end Catalog.State

end ServiceCatalog
