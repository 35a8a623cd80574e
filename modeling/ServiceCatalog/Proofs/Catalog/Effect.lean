import ServiceCatalog.Catalog.Mutation
import ServiceCatalog.Proofs.Service.Draft
import ServiceCatalog.Proofs.Store.Records

namespace ServiceCatalog

namespace Effect

variable {settings : Settings} {records : Records} {actor : Actor} {asked : Patch → Prop} {e : Effect}

def Revises (settings : Settings) (records : Records) (actor : Actor) (asked : Patch → Prop) (id : Uuid)
    (e : Effect) : Prop :=
  ∃ current, records.get? id = some current ∧
    (e = unchanged current ∨
      ∃ s change next log, e = changed current.version s change ∧
        Service.Revised settings.policy asked actor current s change next log)

theorem loadLive_eq_ok {id : Uuid} {s : Service} :
    loadLive records id = .ok s ↔ records.get? id = some s ∧ s.isDeleted = false := by
  simp only [loadLive, Outcome.bind_eq_ok, Records.load_eq_ok]
  constructor
  · rintro ⟨t, ht, h⟩
    cases hd : t.isDeleted with
    | true => simp [hd] at h
    | false =>
      simp only [hd] at h
      cases h
      exact ⟨ht, hd⟩
  · rintro ⟨hs, hd⟩
    exact ⟨s, hs, by simp [hd]; rfl⟩

theorem revises_of_commit {id : Uuid} {current next : Service} {log : ChangeLog}
    (hget : records.get? id = some current) (hd : Service.Drafted settings.policy asked current next log)
    (h : commit actor current next log = .ok e) : Revises settings records actor asked id e := by
  obtain ⟨u, hu, rfl⟩ := Outcome.map_eq_ok.1 h
  refine ⟨current, hget, ?_⟩
  rcases Service.commit_eq_ok.1 hu with ⟨-, rfl⟩ | ⟨hne, v, hv, rfl⟩
  · exact .inl rfl
  · exact .inr ⟨_, _, next, log, rfl, hd, hne, rfl, hv, rfl⟩

theorem revises_of_patch {id : Uuid} {current : Service} {p : Patch}
    (hasked : asked p) (hget : records.get? id = some current) (hlive : current.isDeleted = false)
    (h : patch settings actor current p = .ok e) : Revises settings records actor asked id e := by
  obtain ⟨u, hu, rfl⟩ := Outcome.map_eq_ok.1 h
  obtain ⟨hcheck, renamed, log, next, hname, hfields, hcommit⟩ := Service.update_eq_ok.1 hu
  exact revises_of_commit hget (.patched hasked hlive hcheck hname hfields) (Outcome.map_eq_ok.2 ⟨u, hcommit, rfl⟩)

theorem revises_of_update {id : Uuid} {p : Patch} {base : Option Version} (hasked : asked p)
    (h : update settings records actor id p base = .ok e) : Revises settings records actor asked id e := by
  obtain ⟨current, hload, h⟩ := Outcome.bind_eq_ok.1 h
  have hpatch : (loadLive records id >>= fun s => patch settings actor s p) = .ok e := by
    cases base with
    | none => exact h
    | some base =>
      by_cases hb : base = current.version
      · simpa [hb] using h
      · simp [hb] at h
  obtain ⟨s, hs, hp⟩ := Outcome.bind_eq_ok.1 hpatch
  obtain ⟨hget, hlive⟩ := loadLive_eq_ok.1 hs
  exact revises_of_patch hasked hget hlive hp

theorem revises_of_mark {id : Uuid} {deleted : Bool} (h : mark records actor id deleted = .ok e) :
    Revises settings records actor asked id e := by
  obtain ⟨current, hload, h⟩ := Outcome.bind_eq_ok.1 h
  exact revises_of_commit (Records.load_eq_ok.1 hload) (.marked deleted) h

theorem revises_of_follow {id : Uuid} {user : Reference} (h : follow records actor id user = .ok e) :
    Revises settings records actor asked id e := by
  obtain ⟨current, hload, h⟩ := Outcome.bind_eq_ok.1 h
  obtain ⟨hget, hlive⟩ := loadLive_eq_ok.1 hload
  split at h
  · cases h
    exact ⟨current, hget, .inl rfl⟩
  · next hnew => exact revises_of_commit hget (.followed hlive (Bool.eq_false_iff.2 hnew)) h

theorem revises_of_unfollow {id user : Uuid} (h : unfollow records actor id user = .ok e) :
    Revises settings records actor asked id e := by
  obtain ⟨current, hload, h⟩ := Outcome.bind_eq_ok.1 h
  obtain ⟨hget, hlive⟩ := loadLive_eq_ok.1 hload
  split at h
  · cases h
    exact ⟨current, hget, .inl rfl⟩
  · next hfollows => exact revises_of_commit hget (.unfollowed hlive hfollows) h

theorem revises_of_recordTest {id : Uuid} {result : TestResult} {time : Int64}
    (h : recordTest records actor id result time = .ok e) : Revises settings records actor asked id e := by
  obtain ⟨current, hload, h⟩ := Outcome.bind_eq_ok.1 h
  obtain ⟨hget, hlive⟩ := loadLive_eq_ok.1 hload
  exact revises_of_commit hget (.tested _ hlive) h

theorem revises_of_learn {id : Uuid} {current : Service} {report : Report}
    (hasked : ∀ found, report.discovered = some found → asked found.patch)
    (h : learn settings records actor id current report = .ok e) : Revises settings records actor asked id e := by
  unfold learn at h
  split at h
  · next found hfound => exact revises_of_update (hasked found hfound) h
  · cases h

theorem launchable_eq_ok {id : Uuid} {current : Service} {launch : LaunchConfig} :
    launchable records id = .ok (current, launch) ↔
      records.get? id = some current ∧ current.isDeleted = false ∧ current.launch? = some launch := by
  have hlaunch : launchConfig current = .ok launch ↔ current.launch? = some launch := by
    rw [launchConfig]
    cases current.launch? <;> simp
  rw [← and_assoc, ← loadLive_eq_ok, ← hlaunch, launchable]
  constructor
  · intro h
    obtain ⟨s, hs, h⟩ := Outcome.bind_eq_ok.1 h
    obtain ⟨l, hl, h⟩ := Outcome.bind_eq_ok.1 h
    cases h
    exact ⟨hs, hl⟩
  · rintro ⟨hs, hl⟩
    rw [hs, Outcome.ok_bind, hl]
    rfl

theorem launchable_bind {α : Type} (records : Records) (id : Uuid) (k : Service × LaunchConfig → Outcome α) :
    launchable records id >>= k = loadLive records id >>= fun current =>
      launchConfig current >>= fun launch => k (current, launch) := by
  rw [launchable]
  cases loadLive records id with
  | error e => rfl
  | ok current => cases h : launchConfig current <;> simp only [h, Outcome.ok_bind] <;> rfl

section

variable {ω : Type} (probe : LaunchConfig → ω → Report × ω) (id : Uuid) (w : ω)

theorem test_eq (time : Int64) :
    test records actor probe id time w =
      ((launchable records id).bind fun p => recordTest records actor id (probe p.2 w).1.result time,
        match launchable records id with
        | .error _ => w
        | .ok p => (probe p.2 w).2) := by
  rw [test]
  cases launchable records id <;> rfl

theorem discover_eq :
    discover settings records actor probe id w =
      ((launchable records id).bind fun p => learn settings records actor id p.1 (probe p.2 w).1,
        match launchable records id with
        | .error _ => w
        | .ok p => (probe p.2 w).2) := by
  rw [discover]
  cases launchable records id <;> rfl

end

theorem revises_of_selectTags {id : Uuid} {selected : List TagSelection}
    (hasked : ∀ tags, asked (patchTags tags))
    (h : selectTags settings records actor id selected = .ok e) : Revises settings records actor asked id e := by
  obtain ⟨current, -, h⟩ := Outcome.bind_eq_ok.1 h
  exact revises_of_update (hasked _) h

theorem setTier_eq {tier : Option TagSelection} (htier : ∀ t ∈ tier, t.isTier = true) (settings : Settings)
    (records : Records) (actor : Actor) (id : Uuid) :
    setTier settings records actor id tier = records.load id >>= fun current =>
      update settings records actor id (patchTags (Label.mergeTier
        (tier.map (tierLabel (Label.splitTier current.tagList).1)) (Label.splitTier current.tagList).2)) none := by
  cases tier with
  | none => rfl
  | some t =>
    have ht := htier t rfl
    simp [setTier, ht]

theorem isTier_of_setTier {id : Uuid} {tier : Option TagSelection}
    (h : setTier settings records actor id tier = .ok e) : ∀ t ∈ tier, t.isTier = true := by
  rintro t rfl
  cases ht : t.isTier with
  | true => rfl
  | false => simp [setTier, ht] at h

theorem revises_of_setTier {id : Uuid} {tier : Option TagSelection} (hasked : ∀ tags, asked (patchTags tags))
    (h : setTier settings records actor id tier = .ok e) : Revises settings records actor asked id e := by
  rw [setTier_eq (isTier_of_setTier h)] at h
  obtain ⟨current, -, h⟩ := Outcome.bind_eq_ok.1 h
  exact revises_of_update (hasked _) h

def Registers (settings : Settings) (records : Records) (actor : Actor) (request : Registration)
    (id : Uuid) (e : Effect) : Prop :=
  request.check settings.policy = .ok () ∧ records.getNamed? (Name.qualify request.name) = none ∧
    e = created (request.service id actor)

theorem registers_of_create {request : Registration} {id : Uuid}
    (h : create settings records actor request id = .ok e) :
    Registers settings records actor request id e := by
  obtain ⟨_, hcheck, h⟩ := Outcome.bind_eq_ok.1 h
  cases hn : records.getNamed? (Name.qualify request.name) with
  | some _ => simp [hn] at h
  | none =>
    simp only [hn, Option.isSome_none] at h
    cases h
    exact ⟨hcheck, hn, rfl⟩

theorem put_cases {request : Registration} {id : Uuid}
    (h : put settings records actor request id = .ok e) :
    Registers settings records actor request id e ∨
      ∃ current, records.getNamed? (Name.qualify request.name) = some current ∧
        Revises settings records actor (· = request.patch) current.id e := by
  unfold put at h
  split at h
  · exact .inl (registers_of_create h)
  · next current hn =>
    cases hlive : current.isDeleted with
    | true => simp [hlive] at h
    | false =>
      simp only [hlive] at h
      obtain ⟨_, -, h⟩ := Outcome.bind_eq_ok.1 h
      exact .inr ⟨current, hn, revises_of_patch rfl (Records.get?_of_getNamed? hn) hlive h⟩

end Effect

namespace Mutation

def target? (records : Records) : Mutation → Option Uuid
  | create _ _ => none
  | put request _ => (records.getNamed? (Name.qualify request.name)).map (·.id)
  | update id _ _ | delete id | restore id | remove id | follow id _ | unfollow id _
  | recordTest id _ _ | test id _ _ | discover id _ | selectTags id _ | setTier id _ => some id

def asks : Mutation → Patch → Prop
  | put request _, p => p = request.patch
  | update _ patch _, p => p = patch
  | discover _ probe, p => ∃ launch found, (probe launch).discovered = some found ∧ p = found.patch
  | selectTags _ _, p | setTier _ _, p => ∃ tags, p = Effect.patchTags tags
  | _, _ => False

section

variable (settings : Settings) (records : Records) (actor : Actor) (id : Uuid) (probe : LaunchConfig → Report)

theorem effect_test (time : Int64) :
    (test id probe time).effect settings records actor = Effect.launchable records id >>= fun p =>
      Effect.recordTest records actor id (probe p.2).result time :=
  congrArg Prod.fst (Effect.test_eq (noting probe) id [] time)

theorem effect_discover :
    (discover id probe).effect settings records actor = Effect.launchable records id >>= fun p =>
      Effect.learn settings records actor id p.1 (probe p.2) :=
  congrArg Prod.fst (Effect.discover_eq (noting probe) id [])

end

theorem effect_cases {settings : Settings} {records : Records} {actor : Actor} {m : Mutation}
    {e : Effect} (h : m.effect settings records actor = .ok e) :
    (∃ request id, (m = create request id ∨ m = put request id) ∧ m.target? records = none ∧
        Effect.Registers settings records actor request id e) ∨
      (∃ id s, m = remove id ∧ records.get? id = some s ∧ e = .removed s) ∨
      ∃ id, m.target? records = some id ∧ Effect.Revises settings records actor m.asks id e := by
  cases m with
  | create request id => exact .inl ⟨request, id, .inl rfl, rfl, Effect.registers_of_create h⟩
  | put request id =>
    rcases Effect.put_cases h with h | ⟨current, hn, h⟩
    · exact .inl ⟨request, id, .inr rfl, by simp [target?, h.2.1], h⟩
    · exact .inr (.inr ⟨_, by simp [target?, hn], h⟩)
  | remove id =>
    obtain ⟨s, hs, h⟩ := Outcome.bind_eq_ok.1 h
    cases h
    exact .inr (.inl ⟨id, s, rfl, Records.load_eq_ok.1 hs, rfl⟩)
  | update id => exact .inr (.inr ⟨id, rfl, Effect.revises_of_update rfl h⟩)
  | delete id => exact .inr (.inr ⟨id, rfl, Effect.revises_of_mark h⟩)
  | restore id => exact .inr (.inr ⟨id, rfl, Effect.revises_of_mark h⟩)
  | follow id => exact .inr (.inr ⟨id, rfl, Effect.revises_of_follow h⟩)
  | unfollow id => exact .inr (.inr ⟨id, rfl, Effect.revises_of_unfollow h⟩)
  | recordTest id => exact .inr (.inr ⟨id, rfl, Effect.revises_of_recordTest h⟩)
  | test id =>
    rw [effect_test] at h
    obtain ⟨_, -, h⟩ := Outcome.bind_eq_ok.1 h
    exact .inr (.inr ⟨id, rfl, Effect.revises_of_recordTest h⟩)
  | discover id =>
    rw [effect_discover] at h
    obtain ⟨p, -, h⟩ := Outcome.bind_eq_ok.1 h
    exact .inr (.inr ⟨id, rfl, Effect.revises_of_learn (fun found hfound => ⟨p.2, found, hfound, rfl⟩) h⟩)
  | selectTags id => exact .inr (.inr ⟨id, rfl, Effect.revises_of_selectTags (fun _ => ⟨_, rfl⟩) h⟩)
  | setTier id => exact .inr (.inr ⟨id, rfl, Effect.revises_of_setTier (fun _ => ⟨_, rfl⟩) h⟩)

end Mutation

end ServiceCatalog
