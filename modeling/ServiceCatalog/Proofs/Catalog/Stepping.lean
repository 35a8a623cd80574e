import ServiceCatalog.Proofs.Catalog.Answer
import ServiceCatalog.Proofs.Catalog.Run
import ServiceCatalog.Proofs.Service.Stepping

/-!
Version arithmetic of a catalog: every version is its step ahead of the one before, and a mutation whose step
the counter has no room for is refused. To tell which step that is, the mutation is worked out on the same
records with the service at a smaller version.
-/

namespace ServiceCatalog

namespace Service

theorem rename_atVersion (s : Service) (v : Version) (log : ChangeLog) (p : FieldPatch String) :
    (s.atVersion v).rename log p = (s.rename log p).map fun state => (state.1, state.2.atVersion v) := by
  cases p <;> rfl

theorem patchFields_atVersion (p : Patch) (state : ChangeLog × Service) (v : Version) :
    patchFields p (state.1, state.2.atVersion v) =
      ((patchFields p state).1, (patchFields p state).2.atVersion v) := by
  unfold patchFields
  generalize Field.all = fields
  induction fields generalizing state with
  | nil => rfl
  | cons f fields ih =>
    have hfield : patchField p (state.1, state.2.atVersion v) f
        = ((patchField p state f).1, (patchField p state f).2.atVersion v) := by
      cases f <;> rfl
    rw [List.foldl_cons, List.foldl_cons, hfield, ih]

end Service

def ServiceRecord.atVersion (x : ServiceRecord) (v : Version) : ServiceRecord :=
  { x with current := x.current.atVersion v }

@[simp]
theorem ServiceRecord.current_atVersion (x : ServiceRecord) (v : Version) :
    (x.atVersion v).current = x.current.atVersion v := rfl

namespace Records

def atVersion (r : Records) (id : Uuid) (v : Version) : Records where
  list := r.list.map fun x => if x.id = id then x.atVersion v else x
  filed := by
    refine List.pairwise_map.2 (r.filed.imp fun {x y} h => ?_)
    split <;> split <;> exact h

variable {r : Records} {id : Uuid} {current : Service}

theorem find?_atVersion (r : Records) (id : Uuid) (v : Version) {p : ServiceRecord → Bool}
    (hp : ∀ x : ServiceRecord, p (x.atVersion v) = p x) :
    (r.atVersion id v).list.find? p =
      (r.list.find? p).map fun x => if x.id = id then x.atVersion v else x := by
  rw [atVersion, List.find?_map]
  congr 2
  funext x
  simp only [Function.comp_apply]
  split
  · exact hp x
  · rfl

theorem get?_atVersion (hget : r.get? id = some current) (v : Version) :
    (r.atVersion id v).get? id = some (current.atVersion v) := by
  obtain ⟨x, hx, rfl⟩ := get?_eq_some.1 hget
  have hid : x.id = id := (find?_eq_some.1 hx).2
  rw [find?] at hx
  rw [get?, find?, find?_atVersion r id v fun _ => rfl, hx]
  simp [hid]

theorem getNamed?_atVersion (r : Records) (id : Uuid) (v : Version) (q : String) :
    (r.atVersion id v).getNamed? q = (r.getNamed? q).map fun s => if s.id = id then s.atVersion v else s := by
  rw [getNamed?, find?_atVersion r id v fun _ => rfl, getNamed?, Option.map_map, Option.map_map]
  congr 1
  funext x
  have hid : x.current.id = x.id := rfl
  simp only [Function.comp_apply, hid]
  split <;> rfl

theorem atVersion_self (hget : r.get? id = some current) : r.atVersion id current.version = r := by
  obtain ⟨x, hmem, rfl, rfl⟩ := mem_of_get? hget
  have hsame : ∀ y ∈ r.list, (if y.id = x.id then y.atVersion x.current.version else y) = id y := by
    intro y hy
    split
    · next hid =>
      rw [r.filed.id_inj hy hmem hid]
      rfl
    · rfl
  exact ext ((List.map_congr_left hsame).trans r.list.map_id)

theorem load_atVersion (hget : r.get? id = some current) (v : Version) :
    (r.atVersion id v).load id = .ok (current.atVersion v) :=
  load_eq_ok.2 (get?_atVersion hget v)

end Records

namespace Effect

/-- What a mutation of a service comes to at each version: it is refused, or changes nothing, or makes a version
of one draft. -/
inductive Uniform (actor : Actor) (current : Service) : (Version → Outcome Effect) → Prop
  | refused (e : CatalogError) : Uniform actor current fun _ => .error e
  | settled (effect : Version → Effect) (h : ∀ v, (effect v).change? = none) :
      Uniform actor current fun v => .ok (effect v)
  | drafted (next : Service) (log : ChangeLog) :
      Uniform actor current fun v => commit actor (current.atVersion v) (next.atVersion v) log

variable {settings : Settings} {records : Records} {actor : Actor} {id : Uuid} {current : Service}

theorem Uniform.of_eq {f g : Version → Outcome Effect} (h : Uniform actor current f) (hfg : ∀ v, g v = f v) :
    Uniform actor current g := by
  have hsame : g = f := funext hfg
  rwa [hsame]

theorem Uniform.load (hget : records.get? id = some current) {k : Version → Service → Outcome Effect}
    (h : Uniform actor current fun v => k v (current.atVersion v)) :
    Uniform actor current fun v => (records.atVersion id v).load id >>= k v := by
  apply h.of_eq
  intro v
  rw [Records.load_atVersion hget, Outcome.ok_bind]

theorem Uniform.loadLive (hget : records.get? id = some current) {k : Version → Service → Outcome Effect}
    (h : Uniform actor current fun v => k v (current.atVersion v)) :
    Uniform actor current fun v => Effect.loadLive (records.atVersion id v) id >>= k v := by
  cases hdeleted : current.isDeleted with
  | true =>
    apply (Uniform.refused (.invalid (.editDeleted current.qualifiedName))).of_eq
    intro v
    rw [Effect.loadLive, Records.load_atVersion hget, Outcome.ok_bind, Service.isDeleted_atVersion, hdeleted]
    rfl
  | false =>
    apply h.of_eq
    intro v
    rw [loadLive_eq_ok.2 ⟨Records.get?_atVersion hget v, hdeleted⟩, Outcome.ok_bind]

theorem Uniform.patch (p : Patch) :
    Uniform actor current fun v => Effect.patch settings actor (current.atVersion v) p := by
  have hcheck (v : Version) :
      (current.atVersion v).checkPatch settings.policy p = current.checkPatch settings.policy p := rfl
  cases hchecked : current.checkPatch settings.policy p with
  | error e =>
    apply (Uniform.refused e).of_eq
    intro v
    rw [Effect.patch, Service.update, hcheck, hchecked]
    rfl
  | ok =>
    cases hrenamed : current.rename .empty p.name with
    | error e =>
      apply (Uniform.refused e).of_eq
      intro v
      rw [Effect.patch, Service.update, hcheck, hchecked, Service.rename_atVersion, hrenamed]
      rfl
    | ok state =>
      apply (Uniform.drafted (Service.patchFields p state).2
        (if current.losesCapabilities (Service.patchFields p state).2
          then (Service.patchFields p state).1.escalate .major else (Service.patchFields p state).1)).of_eq
      intro v
      rw [Effect.patch, Service.update, hcheck, hchecked, Service.rename_atVersion, hrenamed]
      simp only [Except.map, Outcome.ok_bind, Service.patchFields_atVersion]
      rfl

theorem Uniform.update (hget : records.get? id = some current) (p : Patch) (base : Option Version) :
    Uniform actor current fun v =>
      Effect.update settings (records.atVersion id v) actor id p (base.map fun _ => v) := by
  have hnone : Uniform actor current fun v => Effect.update settings (records.atVersion id v) actor id p none := by
    simp only [update_none]
    exact .loadLive hget (.patch p)
  cases base with
  | none => exact hnone
  | some base =>
    apply hnone.of_eq
    intro v
    exact (update_some settings (Records.get?_atVersion hget v) actor p v).trans (if_pos rfl)

theorem Uniform.mark (hget : records.get? id = some current) (deleted : Bool) :
    Uniform actor current fun v => Effect.mark (records.atVersion id v) actor id deleted :=
  .load hget (.drafted { current with deleted := some deleted }
    (ChangeLog.empty.replace "deleted" current.isDeleted deleted).1)

theorem Uniform.follow (hget : records.get? id = some current) (user : Reference) :
    Uniform actor current fun v => Effect.follow (records.atVersion id v) actor id user := by
  apply Uniform.loadLive hget
  cases hfollows : current.followerList.any (·.id == user.id) with
  | true =>
    apply (Uniform.settled (fun v => .unchanged (current.atVersion v)) fun _ => rfl).of_eq
    intro v
    exact if_pos hfollows
  | false =>
    apply (Uniform.drafted { current with followers := some (current.followerList ++ [user]) } _).of_eq
    intro v
    exact if_neg (Bool.eq_false_iff.1 hfollows)

theorem Uniform.unfollow (hget : records.get? id = some current) (user : Uuid) :
    Uniform actor current fun v => Effect.unfollow (records.atVersion id v) actor id user := by
  apply Uniform.loadLive hget
  have hlist (v : Version) : (current.atVersion v).followerList = current.followerList := rfl
  simp only [hlist]
  cases current.followerList.find? (·.id == user) with
  | none => exact .settled (fun v => .unchanged (current.atVersion v)) fun _ => rfl
  | some follower => exact .drafted { current with followers := _ } _

theorem Uniform.recordTest (hget : records.get? id = some current) (result : TestResult) (time : Int64) :
    Uniform actor current fun v => Effect.recordTest (records.atVersion id v) actor id result time := by
  let draft := ChangeLog.empty.apply "testConnectionResult" current.testResult
    (.set { result with lastUpdatedAt := some (result.lastUpdatedAt.getD time) })
  apply Uniform.loadLive hget
  exact .drafted { current with testResult := draft.2 } draft.1

theorem Uniform.launchable {k : Version → Service × LaunchConfig → Outcome Effect}
    (hget : records.get? id = some current)
    (h : ∀ launch, Uniform actor current fun v => k v (current.atVersion v, launch)) :
    Uniform actor current fun v => launchable (records.atVersion id v) id >>= k v := by
  simp only [launchable_bind]
  apply Uniform.loadLive hget
  have hlaunch (v : Version) : launchConfig (current.atVersion v) = launchConfig current := rfl
  simp only [hlaunch]
  cases launchConfig current with
  | error e => exact .refused e
  | ok launch => exact h launch

theorem Uniform.learn (hget : records.get? id = some current) (report : Report) :
    Uniform actor current fun v =>
      Effect.learn settings (records.atVersion id v) actor id (current.atVersion v) report := by
  unfold Effect.learn
  cases report.discovered with
  | none => exact .refused (.unreachable current.qualifiedName _)
  | some found => exact .update hget found.patch (some current.version)

theorem Uniform.selectTags (hget : records.get? id = some current) (selected : List TagSelection) :
    Uniform actor current fun v => Effect.selectTags settings (records.atVersion id v) actor id selected := by
  let tags := Label.mergeTier (Label.splitTier current.tagList).1
    (Label.reconcile (Label.splitTier current.tagList).2 (selected.filter fun s => !s.isTier))
  apply Uniform.load hget
  exact .update hget (patchTags tags) none

theorem Uniform.setTier (hget : records.get? id = some current) (tier : Option TagSelection) :
    Uniform actor current fun v => Effect.setTier settings (records.atVersion id v) actor id tier := by
  by_cases htier : ∀ t ∈ tier, t.isTier = true
  · let tags := Label.mergeTier (tier.map (tierLabel (Label.splitTier current.tagList).1))
      (Label.splitTier current.tagList).2
    simp only [setTier_eq htier]
    apply Uniform.load hget
    exact .update hget (patchTags tags) none
  · simp only [not_forall] at htier
    obtain ⟨t, rfl, ht⟩ := htier
    apply (Uniform.refused (.invalid (.notTier t.tag))).of_eq
    intro v
    simp [Effect.setTier, ht]

theorem Uniform.put {request : Registration} (hnamed : records.getNamed? (Name.qualify request.name) = some current)
    (given : Uuid) :
    Uniform actor current fun v => Effect.put settings (records.atVersion current.id v) actor request given := by
  have hput (v : Version) : Effect.put settings (records.atVersion current.id v) actor request given =
      if current.isDeleted then .error (.invalid (.putDeleted (Name.qualify request.name)))
      else request.check settings.policy >>= fun _ =>
        Effect.patch settings actor (current.atVersion v) request.patch := by
    rw [Effect.put, Records.getNamed?_atVersion, hnamed, Option.map_some, if_pos rfl]
    rfl
  simp only [hput]
  cases current.isDeleted with
  | true => exact .refused _
  | false =>
    cases request.check settings.policy with
    | error e => exact .refused e
    | ok => exact .patch _

theorem Uniform.changed {f : Version → Outcome Effect} (hf : Uniform actor current f) {w base : Version}
    {next : Service} {change : ChangeDescription} (h : f w = .ok (.changed base next change)) :
    ∃ (draft : Service) (log : ChangeLog),
      (∀ v, f v = commit actor (current.atVersion v) (draft.atVersion v) log) ∧ log.isEmpty = false ∧
        next.version.tenths.toNat = w.tenths.toNat + log.step.tenths := by
  cases hf with
  | refused e => cases h
  | settled effect hnone =>
    have hchange := hnone w
    rw [Except.ok.inj h] at hchange
    cases hchange
  | drafted draft log =>
    obtain ⟨u, hu, hchanged⟩ := Outcome.map_eq_ok.1 h
    rcases Service.commit_eq_ok.1 hu with ⟨-, rfl⟩ | ⟨hlog, v, hv, rfl⟩
    · cases hchanged
    · cases hchanged
      exact ⟨draft, log, fun _ => rfl, hlog, VersionStep.next?_eq_some hv⟩

theorem commit_cases {draft : Service} {log : ChangeLog} (hlog : log.isEmpty = false) :
    (UInt32.size ≤ current.version.tenths.toNat + log.step.tenths ∧ commit actor current draft log
        = .error (.invalid (.versionExhausted current.version current.qualifiedName))) ∨
      current.version.tenths.toNat + log.step.tenths < UInt32.size ∧
        ∃ next change, commit actor current draft log = .ok (.changed current.version next change) := by
  rw [← VersionStep.next?_eq_none, ← Nat.not_le, ← VersionStep.next?_eq_none]
  unfold commit Service.commit
  cases hnext : log.step.next? current.version with
  | none =>
    left
    simp [hlog, Except.map]
  | some v =>
    right
    simp [hlog, Except.map, ofUpdate]

end Effect

namespace Mutation

def base? : Mutation → Option Version
  | update _ _ base => base
  | _ => none

def basedOn (v : Version) : Mutation → Mutation
  | update id p base => update id p (base.map fun _ => v)
  | m => m

theorem basedOn_self {m : Mutation} {v : Version} (h : ∀ base ∈ m.base?, base = v) : m.basedOn v = m := by
  cases m with
  | update id p base =>
    cases base with
    | none => rfl
    | some base => rw [h base rfl]; rfl
  | _ => rfl

theorem uniform {m : Mutation} {records : Records} {id : Uuid} {current : Service} (settings : Settings)
    (actor : Actor) (htarget : m.target? records = some id) (hget : records.get? id = some current) :
    Effect.Uniform actor current fun v => (m.basedOn v).effect settings (records.atVersion id v) actor := by
  cases m with
  | create => cases htarget
  | put request given =>
    obtain ⟨s, hs, rfl⟩ := Option.map_eq_some_iff.1 htarget
    obtain rfl := Option.some.inj (hget.symm.trans (Records.get?_of_getNamed? hs))
    exact .put hs given
  | remove _ =>
    cases htarget
    exact .load hget (.settled (fun v => .removed (current.atVersion v)) fun _ => rfl)
  | update _ p base =>
    cases htarget
    exact .update hget p base
  | delete _ | restore _ =>
    cases htarget
    exact .mark hget _
  | follow _ user =>
    cases htarget
    exact .follow hget user
  | unfollow _ user =>
    cases htarget
    exact .unfollow hget user
  | recordTest _ result time =>
    cases htarget
    exact .recordTest hget result time
  | test _ probe time =>
    cases htarget
    exact (Effect.Uniform.launchable hget fun launch => .recordTest hget (probe launch).result time).of_eq
      fun v => effect_test ..
  | discover _ probe =>
    cases htarget
    exact (Effect.Uniform.launchable hget fun launch => .learn hget (probe launch)).of_eq fun v => effect_discover ..
  | selectTags _ selected =>
    cases htarget
    exact .selectTags hget selected
  | setTier _ tier =>
    cases htarget
    exact .setTier hget tier

variable {settings : Settings} {records : Records} {actor : Actor} {m : Mutation} {base : Version}
  {next : Service} {change : ChangeDescription}

theorem effect_strides (h : m.effect settings records actor = .ok (.changed base next change)) :
    ∃ prev, m.target? records = some next.id ∧ records.get? next.id = some prev ∧ base = prev.version ∧
      prev.Strides next := by
  rcases effect_cases h with ⟨_, _, -, -, -, -, he⟩ | ⟨_, _, -, -, he⟩ | ⟨id, htarget, prev, hget, h⟩
  · cases he
  · cases he
  · rcases h with he | ⟨s, _, _, _, he, hrevised⟩
    · cases he
    · cases he
      have hid : next.id = id := hrevised.id_eq.trans (Records.id_of_get? hget)
      exact ⟨prev, hid ▸ htarget, hid ▸ hget, rfl, hrevised.strides⟩

theorem strides_of_target {id : Uuid} {prev : Service} (htarget : m.target? records = some id)
    (hget : records.get? id = some prev) (h : m.effect settings records actor = .ok (.changed base next change)) :
    prev.Strides next := by
  obtain ⟨_, hnext, hprev, -, hstrides⟩ := effect_strides h
  rw [htarget] at hnext
  rw [← Option.some.inj hnext, hget] at hprev
  rwa [Option.some.inj hprev]

theorem target?_atVersion (m : Mutation) (records : Records) (id : Uuid) (v : Version) :
    (m.basedOn v).target? (records.atVersion id v) = m.target? records := by
  cases m with
  | put request given =>
    simp only [basedOn, target?, Records.getNamed?_atVersion, Option.map_map]
    congr 1
    funext s
    simp only [Function.comp_apply]
    split <;> rfl
  | _ => rfl

theorem effect_of_atVersion {id : Uuid} {prev : Service} {w : Version} (htarget : m.target? records = some id)
    (hget : records.get? id = some prev) (hbase : ∀ v ∈ m.base?, v = prev.version)
    (h : (m.basedOn w).effect settings (records.atVersion id w) actor = .ok (.changed base next change)) :
    (UInt32.size ≤ prev.version.tenths.toNat + prev.stride next ∧ m.effect settings records actor
        = .error (.invalid (.versionExhausted prev.version prev.qualifiedName))) ∨
      prev.version.tenths.toNat + prev.stride next < UInt32.size ∧
        ∃ next change, m.effect settings records actor = .ok (.changed prev.version next change) := by
  obtain ⟨draft, log, hcommit, hlog, htenths⟩ := (uniform settings actor htarget hget).changed h
  -- at its own version, the mutation is the given one on the given records
  have hself : m.effect settings records actor = Effect.commit actor prev (draft.atVersion prev.version) log := by
    have hown := hcommit prev.version
    rwa [basedOn_self hbase, Records.atVersion_self hget] at hown
  have hstrides : (prev.atVersion w).Strides next :=
    strides_of_target ((target?_atVersion ..).trans htarget) (Records.get?_atVersion hget w) h
  have hstep : log.step.tenths = prev.stride next := Nat.add_left_cancel (htenths.symm.trans hstrides)
  rw [hself, ← hstep]
  exact Effect.commit_cases hlog

end Mutation

namespace Catalog.State

/-- Over any run from any state, every version is its step ahead of the one before, and no number wraps: where a
mutation makes a version of a service once it is given some other number, and is based on the service as it is,
it makes one at its own number too, unless the step leads out of the counter, which it is refused for. -/
theorem run_strides (s : State) (steps : List (Actor × Mutation)) :
    let t := s.run steps
    (∀ x ∈ t.records.list, x.states.IsChain fun prev next =>
        prev.Strides next ∨ ∃ y ∈ s.records.list, [prev, next] <:+: y.states) ∧
      (∀ actor m base next change, (t.step actor m).2 = .ok (.changed base next change) →
        ∃ prev, t.records.get? next.id = some prev ∧ base = prev.version ∧ prev.Strides next) ∧
      ∀ actor m id prev v base next change, m.target? t.records = some id → t.records.get? id = some prev →
        (∀ w ∈ m.base?, w = prev.version) →
        (m.basedOn v).effect t.catalog.settings (t.records.atVersion id v) actor = .ok (.changed base next change) →
        (prev.version.tenths.toNat + prev.stride next < UInt32.size →
          ∃ next change, m.effect t.catalog.settings t.records actor = .ok (.changed prev.version next change) ∧
            prev.Strides next) ∧
        (UInt32.size ≤ prev.version.tenths.toNat + prev.stride next →
          t.step actor m = (t, .error (.invalid (.versionExhausted prev.version prev.qualifiedName)))) := by
  intro t
  refine ⟨fun x hx => ?_, fun actor m base next change h => ?_, ?_⟩
  · apply (run_isChain_from (R := fun _ => Service.Strides) (fun h => h.strides) s steps x hx).imp
    intro prev next h
    exact h.imp_left fun ⟨_, _, hstrides⟩ => hstrides
  · rcases t.step_cases actor m with ⟨e, he, -⟩ | ⟨effect, hok, heffect, -⟩
    · rw [he] at h
      cases h
    · rw [hok] at h
      cases h
      obtain ⟨prev, -, hget, hbase, hstrides⟩ := Mutation.effect_strides heffect
      exact ⟨prev, hget, hbase, hstrides⟩
  · intro actor m id prev v base next change htarget hget hbase h
    rcases Mutation.effect_of_atVersion htarget hget hbase h with ⟨hfull, herror⟩ | ⟨hroom, next', change', hok⟩
    · exact ⟨fun hroom => absurd hfull (Nat.not_le.2 hroom), fun _ => step_of_error (answer_of_error herror)⟩
    · have hstrides : prev.Strides next' := Mutation.strides_of_target htarget hget hok
      exact ⟨fun _ => ⟨next', change', hok, hstrides⟩, fun hfull => absurd hroom (Nat.not_lt.2 hfull)⟩

def lateProbe : Service :=
  { (Registration.ofConnection "probe" (.ofLaunch (.ofCommand "run"))).service ⟨1⟩ ⟨"ann", .manual, 1⟩ with
    availableTools := some [.ofName "dig"]
    version := ⟨4294967290⟩ }

def late : State := ⟨.empty [], ⟨⟨.reject, 10⟩, .ofRecords (.ofList [.ofService lateProbe])⟩⟩

def unequip : Mutation := .update ⟨1⟩ { Patch.empty with availableTools := .clear } (some ⟨4294967290⟩)

theorem run_strides_late :
    late.step ⟨"ben", .manual, 2⟩ unequip
        = (late, .error (.invalid (.versionExhausted ⟨4294967290⟩ "probe"))) ∧
      ∃ next change, (Mutation.delete ⟨1⟩).effect ⟨.reject, 10⟩ late.records ⟨"ben", .manual, 2⟩
        = .ok (.changed ⟨4294967290⟩ next change) ∧ lateProbe.Strides next := by
  have hget : late.records.get? ⟨1⟩ = some lateProbe := rfl
  have hmajor := Outcome.exists_changed (p := fun next => lateProbe.Drops next)
    (o := (unequip.basedOn .initial).effect ⟨.reject, 10⟩ (late.records.atVersion ⟨1⟩ .initial)
      ⟨"ben", .manual, 2⟩) (by decide +kernel)
  have hminor := Outcome.exists_changed (p := fun next => ¬ lateProbe.Drops next)
    (o := (Mutation.delete ⟨1⟩).effect ⟨.reject, 10⟩ (late.records.atVersion ⟨1⟩ .initial) ⟨"ben", .manual, 2⟩)
    (by decide +kernel)
  obtain ⟨-, -, hstep⟩ := run_strides late []
  constructor
  · obtain ⟨base, next, change, h, hdrops⟩ := hmajor
    have hfull : UInt32.size ≤ lateProbe.version.tenths.toNat + lateProbe.stride next := by
      rw [Service.stride, if_pos (of_decide_eq_true hdrops)]
      decide
    have hbase : ∀ v ∈ unequip.base?, v = lateProbe.version := by simp [unequip, Mutation.base?, lateProbe]
    exact (hstep _ unequip ⟨1⟩ lateProbe .initial base next change rfl hget hbase h).2 hfull
  · obtain ⟨base, next, change, h, hdrops⟩ := hminor
    have hroom : lateProbe.version.tenths.toNat + lateProbe.stride next < UInt32.size := by
      rw [Service.stride, if_neg (of_decide_eq_true hdrops)]
      decide
    have hbase : ∀ v ∈ (Mutation.delete ⟨1⟩).base?, v = lateProbe.version := by
      intro v hv
      cases hv
    exact (hstep _ (.delete ⟨1⟩) ⟨1⟩ lateProbe .initial base next change rfl hget hbase h).1 hroom

end Catalog.State

end ServiceCatalog
