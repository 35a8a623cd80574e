import ServiceCatalog.Proofs.Catalog.Audit

namespace ServiceCatalog

namespace Service

structure Follows (prev next : Service) : Prop where
  identity_eq : next.identity = prev.identity
  version_lt : prev.version.tenths < next.version.tenths
  described : ∃ d, next.change = some d ∧ next.incrementalChange = some d ∧ d.changedFields ≠ [] ∧
    d.previousVersion = some prev.version

theorem Revised.follows {policy : DuplicatePolicy} {asked : Patch → Prop} {actor : Actor}
    {current s next : Service} {change : ChangeDescription} {log : ChangeLog}
    (h : Revised policy asked actor current s change next log) : Follows current s := by
  have hincremental : s.incrementalChange = some change := by
    rw [h.released]
    rfl
  have hfields : change.changedFields ≠ [] := by
    have hlog := h.changed
    have hbuckets : change.buckets = log.buckets := by rw [h.described, ChangeLog.buckets_describe]
    rw [changedFields_eq_names, hbuckets, ← fields_eq_names]
    simpa [ChangeLog.isEmpty, ChangeLog.fields, and_assoc] using hlog
  have hprevious : change.previousVersion = some current.version := by
    rw [h.described]
    rfl
  exact ⟨h.identity_eq, h.version_lt, change, h.change_eq, hincremental, hfields, hprevious⟩

end Service

namespace ServiceRecord

def Linked (x : ServiceRecord) : Prop := x.states.IsChain Service.Follows

theorem Linked.versions_ascend {x : ServiceRecord} (h : x.Linked) :
    x.states.Pairwise fun s t => s.version.tenths < t.version.tenths := by
  have htrans : IsTrans Service fun s t => s.version.tenths < t.version.tenths :=
    ⟨fun _ _ _ => UInt32.lt_trans⟩
  apply List.isChain_iff_pairwise.1
  exact h.imp fun _ _ hfollows => hfollows.version_lt

theorem Linked.version_inj {x : ServiceRecord} (h : x.Linked) {s t : Service} (hs : s ∈ x.states)
    (ht : t ∈ x.states) (hv : s.version = t.version) : s = t := by
  have hnodup : (x.states.map Service.version).Nodup := by
    apply List.pairwise_map.2
    apply h.versions_ascend.imp
    intro s t hlt he
    rw [he] at hlt
    exact UInt32.lt_irrefl _ hlt
  exact List.inj_on_of_nodup_map hnodup hs ht hv

theorem Linked.version_le {x : ServiceRecord} (h : x.Linked) {s : Service} (hs : s ∈ x.states) :
    s.version.tenths ≤ x.current.version.tenths := by
  rcases List.mem_append.1 hs with hs | hs
  · have hlast := (List.pairwise_append.1 h.versions_ascend).2.2 s hs x.current (List.mem_singleton.2 rfl)
    exact UInt32.le_of_lt hlast
  · rw [List.mem_singleton.1 hs]
    exact UInt32.le_refl _

theorem Linked.identity_eq {x : ServiceRecord} (h : x.Linked) {s : Service} (hs : s ∈ x.states) :
    s.identity = x.current.identity := by
  have htrans : IsTrans Service fun s t => t.identity = s.identity := ⟨fun _ _ _ h h' => h'.trans h⟩
  have hpairs : x.states.Pairwise fun s t => t.identity = s.identity := by
    apply List.isChain_iff_pairwise.1
    exact h.imp fun _ _ hfollows => hfollows.identity_eq
  rcases List.mem_append.1 hs with hs | hs
  · have hlast := (List.pairwise_append.1 hpairs).2.2 s hs x.current (List.mem_singleton.2 rfl)
    exact hlast.symm
  · rw [List.mem_singleton.1 hs]

end ServiceRecord

namespace Catalog

variable {c : Catalog} {x : ServiceRecord}

theorem versions_eq (hx : x ∈ c.records.list) :
    c.versions x.id = .ok ⟨Service.entityType, x.states.reverse⟩ := by
  have hload : c.records.load x.id = .ok x.current := Records.load_eq_ok.2 (Records.get?_of_mem hx)
  have hhistory : c.records.history x.id = .ok x.history := by rw [Records.history, Records.find?_of_mem hx]
  rw [versions, hload, Outcome.ok_bind, hhistory, Outcome.ok_bind, ServiceRecord.states, List.reverse_append]
  rfl

theorem version_eq (hx : x ∈ c.records.list) (v : Version) :
    c.version x.id v =
      match x.states.reverse.find? (·.version = v) with
      | some s => .ok s
      | none => .error (.missing (.version x.id v)) := by
  rw [version, versions_eq hx, Outcome.ok_bind]
  rfl

theorem version_of_mem (hx : x ∈ c.records.list) (hlinked : x.Linked) {s : Service} (hs : s ∈ x.states) :
    c.version x.id s.version = .ok s := by
  rw [version_eq hx]
  cases hfind : x.states.reverse.find? (·.version = s.version) with
  | none =>
    have hnone := List.find?_eq_none.1 hfind s (List.mem_reverse.2 hs)
    simp at hnone
  | some t =>
    have ht : t ∈ x.states := List.mem_reverse.1 (List.mem_of_find?_eq_some hfind)
    have hv : t.version = s.version := by simpa using List.find?_some hfind
    rw [hlinked.version_inj ht hs hv]

theorem version_of_ne (hx : x ∈ c.records.list) {v : Version} (hv : ∀ s ∈ x.states, s.version ≠ v) :
    c.version x.id v = .error (.missing (.version x.id v)) := by
  have hnone : x.states.reverse.find? (·.version = v) = none := by
    apply List.find?_eq_none.2
    intro s hs
    simpa using hv s (List.mem_reverse.1 hs)
  rw [version_eq hx, hnone]

namespace State

theorem run_linked (files : Files) (settings : Settings) (file : Option Path) (steps : List (Actor × Mutation)) :
    ∀ x ∈ ((start files settings file).run steps).records.list, x.Linked := by
  intro x hx
  have hchain := run_isChain (R := fun _ prev next => Service.Follows prev next) (fun h => h.follows)
    files settings file steps x hx
  exact hchain.imp fun prev next ⟨_, _, hfollows⟩ => hfollows

theorem run_registered (files : Files) (settings : Settings) (file : Option Path)
    (steps : List (Actor × Mutation)) :
    ∀ x ∈ ((start files settings file).run steps).records.list, ∃ request id actor later,
      x.states = Registration.service request id actor :: later := by
  induction steps using List.reverseRecOn with
  | nil =>
    intro x hx
    cases hx
  | append_singleton steps step ih =>
    intro x hx
    rw [run_concat] at hx
    rcases record_cases hx with hx | ⟨request, id, -, -, rfl⟩ | ⟨y, hy, t, _, _, _, rfl, -⟩
    · exact ih x hx
    · exact ⟨request, id, step.1, [], rfl⟩
    · obtain ⟨request, id, actor, later, hstates⟩ := ih y hy
      have hadvance : (y.advance t).states = y.states ++ [t] := rfl
      exact ⟨request, id, actor, later ++ [t], by rw [hadvance, hstates, List.cons_append]⟩

/-- Over any run from a catalog without records, the versions of each service form a chain from version 0.1
on, and are listed and found as such. -/
theorem run_chained (files : Files) (settings : Settings) (file : Option Path)
    (steps : List (Actor × Mutation)) (x : ServiceRecord)
    (hx : x ∈ ((start files settings file).run steps).records.list) :
    let c := ((start files settings file).run steps).catalog
    (∃ first later, x.states = first :: later ∧ first.version = .initial ∧ first.change = none ∧
        first.incrementalChange = none) ∧
      x.states.IsChain Service.Follows ∧
      (∀ s ∈ x.states, s.id = x.id ∧ s.kind = x.current.kind) ∧
      c.versions x.id = .ok ⟨Service.entityType, x.states.reverse⟩ ∧
      (∀ s ∈ x.states, c.version x.id s.version = .ok s) ∧
      ∀ v, (∀ s ∈ x.states, s.version ≠ v) → c.version x.id v = .error (.missing (.version x.id v)) := by
  intro c
  have hmem : x ∈ c.records.list := hx
  have hlinked := run_linked files settings file steps x hx
  obtain ⟨request, id, actor, later, hstates⟩ := run_registered files settings file steps x hx
  refine ⟨⟨_, later, hstates, rfl, rfl, rfl⟩, hlinked, ?_, versions_eq hmem, ?_, ?_⟩
  · intro s hs
    have hidentity := hlinked.identity_eq hs
    exact ⟨congrArg Prod.fst hidentity, congrArg Prod.snd hidentity⟩
  · intro s hs
    exact version_of_mem hmem hlinked hs
  · intro v hv
    exact version_of_ne hmem hv

def registeredAndRestored : List (Actor × Mutation) :=
  registeredAndDeleted ++
    [(⟨"cam", .manual, 3⟩, .restore ⟨1⟩),
      (⟨"dan", .ingested, 4⟩, .update ⟨1⟩ { Patch.empty with description := .set "A probe" } none)]

theorem run_chained_restored :
    ∃ x ∈ ((start (.empty []) ⟨.reject, 10⟩ none).run registeredAndRestored).records.list,
      let c := ((start (.empty []) ⟨.reject, 10⟩ none).run registeredAndRestored).catalog
      x.states.map (·.version.tenths) = [1, 2, 3, 4] ∧ x.states.IsChain Service.Follows ∧
        c.versions x.id = .ok ⟨Service.entityType, x.states.reverse⟩ ∧
        ∀ s ∈ x.states, c.version x.id s.version = .ok s := by
  have hexists : ∃ x ∈ ((start (.empty []) ⟨.reject, 10⟩ none).run registeredAndRestored).records.list,
      x.states.map (·.version.tenths) = [1, 2, 3, 4] := by
    decide +kernel
  obtain ⟨x, hx, hversions⟩ := hexists
  obtain ⟨-, hchain, -, hlist, hfound, -⟩ := run_chained _ _ _ _ x hx
  exact ⟨x, hx, hversions, hchain, hlist, hfound⟩

end State

end Catalog

end ServiceCatalog
