import ServiceCatalog.Proofs.Catalog.Step

namespace ServiceCatalog

namespace Store

theorem write_outcome (s : Store) (files : Files) (w : Write) :
    (s.write files w).2 = (s.records.write w).map (fun r => { s with records := r }) ∨
      ∃ fault, (s.write files w).2 = .error (.storage fault) := by
  unfold write
  cases s.records.write w with
  | error e => exact .inl rfl
  | ok r =>
    cases s.file with
    | none => exact .inl rfl
    | some file =>
      dsimp only
      generalize save files file r = saved
      obtain ⟨after, _ | fault⟩ := saved
      · exact .inr ⟨_, rfl⟩
      · exact .inl rfl

end Store

namespace Catalog

/-- What a catalog makes of a mutation, so long as no fault of the files stops it. -/
def answer (c : Catalog) (actor : Actor) (m : Mutation) : Outcome Effect :=
  match m.effect c.settings c.records actor with
  | .error e => .error e
  | .ok effect =>
    match effect.write? with
    | none => .ok effect
    | some w => (c.records.write w).map fun _ => effect

theorem answer_of_error {c : Catalog} {actor : Actor} {m : Mutation} {e : CatalogError}
    (h : m.effect c.settings c.records actor = .error e) : c.answer actor m = .error e := by
  rw [answer, h]

theorem State.step_of_error {s : State} {actor : Actor} {m : Mutation} {e : CatalogError}
    (h : s.catalog.answer actor m = .error e) : s.step actor m = (s, .error e) := by
  unfold answer at h
  cases heffect : m.effect s.catalog.settings s.catalog.records actor with
  | error e' =>
    rw [heffect] at h
    cases h
    simp only [step, mutate, heffect]
  | ok effect =>
    rw [heffect] at h
    cases hw : effect.write? with
    | none => simp [hw] at h
    | some w =>
      cases hwrite : s.catalog.records.write w with
      | ok r => simp [hw, hwrite, Except.map] at h
      | error e' =>
        simp only [hw, hwrite, Except.map] at h
        cases h
        have hstore : s.catalog.store.records.write w = .error e := hwrite
        simp only [step, mutate, heffect, hw, Store.write, hstore]
        rfl

theorem State.step_outcome (s : State) (actor : Actor) (m : Mutation) :
    (s.step actor m).2 = s.catalog.answer actor m ∨ ∃ fault, (s.step actor m).2 = .error (.storage fault) := by
  unfold step mutate answer
  cases m.effect s.catalog.settings s.catalog.records actor with
  | error e => exact .inl rfl
  | ok effect =>
    cases hw : effect.write? with
    | none =>
      left
      simp only [hw]
    | some w =>
      simp only [hw]
      have houtcome := s.catalog.store.write_outcome s.files w
      generalize s.catalog.store.write s.files w = result at houtcome
      obtain ⟨files, outcome⟩ := result
      rcases houtcome with rfl | ⟨fault, rfl⟩
      · left
        have hrecords : s.catalog.records = s.catalog.store.records := rfl
        rw [hrecords]
        cases s.catalog.store.records.write w <;> rfl
      · exact .inr ⟨fault, rfl⟩

theorem State.outcome_of_memory {s : State} (hs : s.store.file = none) (actor : Actor) (m : Mutation) :
    (s.step actor m).2 = s.catalog.answer actor m := by
  have hfile : s.catalog.store.file = none := hs
  have hrecords : s.catalog.records = s.catalog.store.records := rfl
  unfold step mutate answer
  cases m.effect s.catalog.settings s.catalog.records actor with
  | error e => rfl
  | ok effect =>
    cases hw : effect.write? with
    | none => simp only [hw]
    | some w =>
      simp only [hw, Store.write, hrecords, hfile]
      cases s.catalog.store.records.write w <;> rfl

theorem State.outcome_of_answer {s : State} {actor : Actor} {m : Mutation} {e : Effect}
    (h : s.catalog.answer actor m = .ok e) :
    (s.step actor m).2 = .ok e ∨
      s.store.file.isSome = true ∧ ∃ fault, (s.step actor m).2 = .error (.storage fault) := by
  rcases s.step_outcome actor m with houtcome | hfault
  · exact .inl (houtcome.trans h)
  · cases hfile : s.store.file with
    | none => exact .inl ((outcome_of_memory hfile actor m).trans h)
    | some _ => exact .inr ⟨rfl, hfault⟩

theorem State.no_conflict {s : State} {actor : Actor} {m : Mutation} {e : Effect}
    (h : s.catalog.answer actor m = .ok e) : ¬ ∃ k, (s.step actor m).2 = .error (.conflict k) := by
  rintro ⟨k, hk⟩
  rcases s.step_outcome actor m with hout | ⟨fault, hout⟩
  · rw [hk, h] at hout
    cases hout
  · rw [hk] at hout
    cases hout

namespace State

theorem step_of_noop {s : State} {actor : Actor} {m : Mutation} {current : Service}
    (h : m.effect s.catalog.settings s.records actor = .ok (.unchanged current)) :
    s.step actor m = (s, .ok (.unchanged current)) := by
  have heffect : m.effect s.catalog.settings s.catalog.records actor = .ok (.unchanged current) := h
  simp only [step, mutate, heffect, Effect.write?]

theorem step_records (s : State) (actor : Actor) (m : Mutation) :
    ((s.step actor m).2.toOption.bind Effect.write?).elim (.ok s.records) s.records.write =
      .ok (s.step actor m).1.records := by
  rcases step_cases s actor m with ⟨e, he, hcatalog, -, -⟩ | ⟨effect, hok, -, ⟨hnone, hsame⟩ | ⟨w, hw⟩⟩
  · rw [he, records, records, hcatalog]
    rfl
  · rw [hok, hsame]
    simp [Except.toOption, hnone]
  · rw [hok]
    simp [Except.toOption, hw.asked, hw.records_eq]

section
variable {s : State} {actor : Actor} {m : Mutation} {e : Effect} (h : (s.step actor m).2 = .ok e)
include h

theorem effect_of_step : m.effect s.catalog.settings s.records actor = .ok e := by
  rcases s.step_cases actor m with ⟨fault, hfault, -⟩ | ⟨effect, hok, heffect, -⟩
  · rw [h] at hfault
    cases hfault
  · rw [h] at hok
    cases hok
    exact heffect

theorem target?_of_step (hstored : ∀ x, e ≠ .created x) : m.target? s.records = some e.service.id := by
  rcases Mutation.effect_cases (effect_of_step h) with
    ⟨_, _, -, -, -, -, rfl⟩ | ⟨id, x, rfl, hget, rfl⟩ | ⟨id, htarget, current, hget, rfl | ⟨_, _, _, _, rfl, hrevised⟩⟩
  · exact absurd rfl (hstored _)
  · exact congrArg some (Records.id_of_get? hget).symm
  · rw [htarget, Effect.service, Records.id_of_get? hget]
  · rw [htarget, Effect.service, hrevised.id_eq, Records.id_of_get? hget]

theorem records_of_step : e.write?.elim (.ok s.records) s.records.write = .ok (s.step actor m).1.records := by
  have hrecords := s.step_records actor m
  rwa [h] at hrecords

end

theorem changed_cases {s : State} {actor : Actor} {m : Mutation} {base : Version} {next : Service}
    {change : ChangeDescription} (h : (s.step actor m).2 = .ok (.changed base next change)) :
    m.target? s.records = some next.id ∧ base.tenths < next.version.tenths ∧
      ∃ x ∈ s.records.list, x.id = next.id ∧ x.current.version = base ∧
        x.advance next ∈ (s.step actor m).1.records.list := by
  obtain ⟨-, x, hx, hbase, hafter⟩ := Records.replace_eq_ok.1 (records_of_step h)
  obtain ⟨hmem, hid⟩ := Records.find?_eq_some.1 hx
  have hadvanced : x.advance next ∈ (s.step actor m).1.records.list := by
    rw [hafter]
    exact Records.mem_put_iff.2 (.inl rfl)
  have hlt : base.tenths < next.version.tenths := by
    rcases Mutation.effect_cases (effect_of_step h) with
      ⟨_, _, -, -, -, -, he⟩ | ⟨_, _, -, -, he⟩ | ⟨_, -, _, -, he | ⟨_, _, _, _, he, hrevised⟩⟩
    · cases he
    · cases he
    · cases he
    · cases he
      exact hrevised.version_lt
  have htarget := target?_of_step h (by simp)
  exact ⟨htarget, hlt, x, hmem, hid, hbase, hadvanced⟩

theorem unchanged_cases {s : State} {actor : Actor} {m : Mutation} {current : Service}
    (h : (s.step actor m).2 = .ok (.unchanged current)) :
    (s.step actor m).1.records = s.records ∧ s.records.get? current.id = some current := by
  refine ⟨(Except.ok.inj (records_of_step h)).symm, ?_⟩
  rcases Mutation.effect_cases (effect_of_step h) with
    ⟨_, _, -, -, -, -, he⟩ | ⟨_, _, -, -, he⟩ | ⟨id, -, stored, hget, he | ⟨_, _, _, _, he, -⟩⟩
  · cases he
  · cases he
  · cases he
    rwa [Records.id_of_get? hget]
  · cases he

theorem get?_of_step {s : State} {actor : Actor} {m : Mutation} {e : Effect} (h : (s.step actor m).2 = .ok e)
    (hkept : ∀ x, e ≠ .removed x) : (s.step actor m).1.records.get? e.service.id = some e.service := by
  cases e with
  | created x =>
    obtain ⟨-, -, hafter⟩ := Records.insert_eq_ok.1 (records_of_step h)
    rw [hafter]
    exact Records.get?_of_mem (x := .ofService x) (Records.mem_put_iff.2 (.inl rfl))
  | changed base next change =>
    obtain ⟨-, -, x, -, -, -, hafter⟩ := changed_cases h
    exact Records.get?_of_mem hafter
  | unchanged current =>
    obtain ⟨hsame, hget⟩ := unchanged_cases h
    rw [hsame]
    exact hget
  | removed x => exact absurd rfl (hkept x)

end State

end Catalog

theorem Outcome.exists_changed {o : Outcome Effect} {p : Service → Bool}
    (h : o.toOption.any (fun e => e.change?.isSome && p e.service) = true) :
    ∃ base next change, o = .ok (.changed base next change) ∧ p next = true := by
  cases o with
  | error => cases h
  | ok e =>
    obtain ⟨hchange, hp⟩ := (Bool.and_eq_true ..).mp h
    cases e with
    | changed base next change => exact ⟨base, next, change, rfl, hp⟩
    | created | unchanged | removed => cases hchange

namespace Effect

theorem service_ofUpdate (base : Version) (u : Update) : (ofUpdate base u).service = u.service := by
  unfold ofUpdate
  cases u.change <;> rfl

theorem ofUpdate_ne_removed (base : Version) (u : Update) (s : Service) : ofUpdate base u ≠ .removed s := by
  unfold ofUpdate
  cases u.change <;> nofun

theorem update_none (settings : Settings) (records : Records) (actor : Actor) (id : Uuid) (p : Patch) :
    update settings records actor id p none =
      loadLive records id >>= fun current => patch settings actor current p := by
  unfold update loadLive
  cases records.load id <;> rfl

theorem update_some (settings : Settings) {records : Records} {id : Uuid} {current : Service}
    (hget : records.get? id = some current) (actor : Actor) (p : Patch) (base : Version) :
    update settings records actor id p (some base) =
      if base = current.version then update settings records actor id p none
      else .error (.conflict (.stalePatch id current.version base)) := by
  have hload : records.load id = .ok current := Records.load_eq_ok.2 hget
  by_cases hbase : base = current.version
  · rw [if_pos hbase]
    simp only [update, hload, Outcome.ok_bind, hbase, ne_eq, not_true_eq_false, if_false]
  · rw [if_neg hbase]
    simp only [update, hload, Outcome.ok_bind, hbase, ne_eq, not_false_eq_true, if_true, Outcome.error_bind]

theorem update_eq_ok {settings : Settings} {records : Records} {actor : Actor} {id : Uuid} {p : Patch}
    {base : Option Version} {e : Effect} :
    update settings records actor id p base = .ok e ↔
      ∃ current, records.get? id = some current ∧ (∀ v ∈ base, v = current.version) ∧ current.isDeleted = false ∧
        patch settings actor current p = .ok e := by
  have hnone : update settings records actor id p none = .ok e ↔
      ∃ current, records.get? id = some current ∧ current.isDeleted = false ∧
        patch settings actor current p = .ok e := by
    simp only [update_none, Outcome.bind_eq_ok, loadLive_eq_ok, and_assoc]
  cases base with
  | none => simp [hnone]
  | some v =>
    cases hget : records.get? id with
    | none =>
      have hload : records.load id = .error (.missing (.id id)) := by rw [Records.load, hget]
      simp [update, hload]
    | some current =>
      rw [update_some settings hget]
      by_cases hv : v = current.version <;> simp [hv, hnone, hget]

end Effect

end ServiceCatalog
