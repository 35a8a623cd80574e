import ServiceCatalog.Proofs.Catalog.Run
import ServiceCatalog.Proofs.Change.Account
import ServiceCatalog.Proofs.Json.Dict

namespace ServiceCatalog

namespace Service

structure Audited (actor : Actor) (prev next : Service) (d : ChangeDescription) : Prop where
  described : next.change = some d
  previous : d.previousVersion = some prev.version
  tracked : ∀ name ∈ d.changedFields, ∃ t : Tracked, t.label = name
  named : ∀ t : Tracked, t.label ∈ d.changedFields ↔ t.differs prev next = true
  once : d.changedFields.Nodup
  recorded : ∀ t : Tracked, t.differs prev next = true → t.Recorded prev next d.buckets
  summary : ∃ summary, d.summary = some summary ∧ ∀ name, summary.get? name =
    if name ∈ d.changedFields then some ⟨some actor.time, some actor.user, some actor.source⟩ else none
  stamped : next.updatedAt = actor.time ∧ next.updatedBy = actor.user

theorem differs_asVersion (prev next : Service) (v : Version) (actor : Actor) (d : ChangeDescription)
    (t : Tracked) : t.differs prev (next.asVersion v actor d) = t.differs prev next := by
  cases t with
  | field f => cases f <;> rfl
  | name | followers | testResult | deleted => rfl

theorem recorded_asVersion (prev next : Service) (v : Version) (actor : Actor) (d : ChangeDescription)
    (b : Buckets) (t : Tracked) : t.Recorded prev (next.asVersion v actor d) b ↔ t.Recorded prev next b := by
  cases t with
  | field f => cases f <;> rfl
  | name | followers | testResult | deleted => rfl

theorem accounts_asVersion {prev next : Service} {b : Buckets} (h : Accounts prev next b) (v : Version)
    (actor : Actor) (d : ChangeDescription) : Accounts prev (next.asVersion v actor d) b := by
  refine ⟨?_, fun t ht => ?_⟩
  · simpa only [differs_asVersion] using h.names
  · rw [differs_asVersion] at ht
    exact (recorded_asVersion ..).2 (h.recorded t ht)

theorem changedFields_eq_names (d : ChangeDescription) : d.changedFields = d.buckets.names := rfl

theorem fields_eq_names (log : ChangeLog) : log.fields = log.buckets.names := rfl

theorem summary_describe {log : ChangeLog} (h : log.isEmpty = false) (v : Version) (actor : Actor) :
    (log.describe v actor).summary = some (Dict.ofList (log.fields.map (·,
      (⟨some actor.time, some actor.user, some actor.source⟩ : ChangeSummary)))) := by
  have hfields : log.fields.isEmpty = false := by
    simpa [ChangeLog.isEmpty, ChangeLog.fields, and_assoc] using h
  simp [ChangeLog.describe, hfields]

theorem Revised.audited {policy : DuplicatePolicy} {asked : Patch → Prop} {actor : Actor}
    {current s next : Service} {change : ChangeDescription} {log : ChangeLog}
    (h : Revised policy asked actor current s change next log) :
    Audited actor current s change := by
  have hbuckets : change.buckets = log.buckets := by rw [h.described, ChangeLog.buckets_describe]
  have haccounts : Accounts current s change.buckets := by
    rw [h.released, hbuckets]
    exact accounts_asVersion h.drafted.accounts _ _ _
  have hsummary := summary_describe h.changed current.version actor
  rw [← h.described] at hsummary
  refine ⟨h.change_eq, by rw [h.described]; rfl, fun name hn => haccounts.tracked hn,
    haccounts.mem_names, haccounts.nodup, haccounts.recorded, ⟨_, hsummary, fun name => ?_⟩, ?_⟩
  · rw [Dict.get?_ofList_const, changedFields_eq_names, hbuckets, fields_eq_names]
  · rw [h.released]
    exact ⟨rfl, rfl⟩

end Service

namespace Catalog.State

/-- Over any run from a catalog without records, each version of each service is audited exactly, in the name of the
step that made it. -/
theorem run_audited (files : Files) (settings : Settings) (file : Option Path)
    (steps : List (Actor × Mutation)) (x : ServiceRecord)
    (hx : x ∈ ((start files settings file).run steps).records.list) :
    x.states.IsChain fun prev next => ∃ step, (start files settings file).Advances steps x.id step prev next ∧
      ∃ d, Service.Audited step.1 prev next d :=
  run_isChain (R := fun actor prev next => ∃ d, Service.Audited actor prev next d)
    (fun h => ⟨_, h.audited⟩) files settings file steps x hx

def registeredAndDeleted : List (Actor × Mutation) :=
  [(⟨"ann", .manual, 1⟩, .create (.ofConnection "probe" (.ofLaunch (.ofCommand "run"))) ⟨1⟩),
    (⟨"ben", .automated, 2⟩, .delete ⟨1⟩)]

theorem run_audited_deleted :
    ∃ x ∈ ((start (.empty []) ⟨.reject, 10⟩ none).run registeredAndDeleted).records.list,
      x.states.length = 2 ∧ x.states.IsChain fun prev next =>
        ∃ step, (start (.empty []) ⟨.reject, 10⟩ none).Advances registeredAndDeleted x.id step prev next ∧
          ∃ d, Service.Audited step.1 prev next d := by
  have hexists : ∃ x ∈ ((start (.empty []) ⟨.reject, 10⟩ none).run registeredAndDeleted).records.list,
      x.states.length = 2 := by
    decide +kernel
  obtain ⟨x, hx, hlength⟩ := hexists
  exact ⟨x, hx, hlength, run_audited _ _ _ _ x hx⟩

end Catalog.State

end ServiceCatalog
