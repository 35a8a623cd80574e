import ServiceCatalog.Proofs.Catalog.Answer
import ServiceCatalog.Proofs.Catalog.Reading
import ServiceCatalog.Proofs.Catalog.Run
import ServiceCatalog.Proofs.Change.Account

namespace ServiceCatalog

namespace Service

variable {policy : DuplicatePolicy} {asked : Patch → Prop} {current next : Service} {log : ChangeLog}

theorem patchFields_names (p : Patch) (state : ChangeLog × Service) :
    (patchFields p state).2.name = state.2.name ∧
      (patchFields p state).2.qualifiedName = state.2.qualifiedName :=
  ⟨patchFields_frame (·.name) p (fun _ f _ => by cases f <;> rfl) state,
    patchFields_frame (·.qualifiedName) p (fun _ f _ => by cases f <;> rfl) state⟩

theorem Drafted.qualified (h : Drafted policy asked current next log)
    (hcurrent : current.qualifiedName = Name.qualify current.name) : next.qualifiedName = Name.qualify next.name := by
  cases h with
  | @patched p renamed log _ _ _ _ hname hfields =>
    obtain ⟨hnames, hqualified⟩ := patchFields_names p renamed
    rw [hfields] at hnames hqualified
    rw [hnames, hqualified]
    rcases rename_cases hname with ⟨-, hsame⟩ | ⟨-, hrenamed⟩
    · rw [hsame]
      exact hcurrent
    · exact hrenamed
  | marked | followed | unfollowed | tested => exact hcurrent

theorem Revised.qualified {actor : Actor} {s : Service} {change : ChangeDescription}
    (h : Revised policy asked actor current s change next log)
    (hcurrent : current.qualifiedName = Name.qualify current.name) : s.qualifiedName = Name.qualify s.name := by
  rw [h.released]
  exact h.drafted.qualified hcurrent

theorem Drafted.name_checked (h : Drafted policy asked current next log)
    (hcurrent : Name.check current.name = .ok ()) : Name.check next.name = .ok () := by
  cases h with
  | @patched p renamed log _ _ _ hcheck hname hfields =>
    have hnames := (patchFields_names p renamed).1
    rw [hfields] at hnames
    rw [hnames]
    rcases rename_cases hname with ⟨-, hsame⟩ | ⟨hset, -⟩
    · rwa [hsame]
    · exact (checkPatch_eq_ok.1 hcheck).2.2.1 _ hset
  | marked | followed | unfollowed | tested => exact hcurrent

theorem name_of_update {actor : Actor} {p : Patch} {u : Update} {name : String} (hp : p.name = .set name)
    (h : current.update policy actor p = .ok u) : u.service.name = name := by
  obtain ⟨-, renamed, log, next, hname, hfields, hcommit⟩ := update_eq_ok.1 h
  have hnext : next.name = name := by
    have hframe := (patchFields_names p renamed).1
    rw [hfields] at hframe
    rcases rename_cases hname with ⟨hkeep, -⟩ | ⟨hset, -⟩
    · rw [hp] at hkeep
      cases hkeep
    · rw [hp] at hset
      rw [hframe]
      exact (FieldPatch.set.inj hset).symm
  rcases commit_eq_ok.1 hcommit with ⟨hlog, rfl⟩ | ⟨-, v, -, rfl⟩
  · -- a draft that records nothing has the name from before
    have hempty : log.isEmpty = true := by
      split at hlog <;> exact hlog
    have hsame : Tracked.name.differs current next = false := by
      apply Bool.eq_false_iff.2
      intro hdiffers
      have hmem := ((accounts_of_patch hname hfields).mem_names .name).2 hdiffers
      simp only [ChangeLog.isEmpty, Bool.and_eq_true, List.isEmpty_iff] at hempty
      simp [Buckets.names, ChangeLog.buckets, hempty] at hmem
    have hkept : current.name = next.name := by simpa [Tracked.differs] using hsame
    exact hkept.trans hnext
  · exact hnext

end Service

namespace Catalog

variable {c : Catalog} {actor : Actor} {id : Uuid}

theorem answer_create (hindexed : c.records.Indexed) (actor : Actor) {request : Registration}
    (hcheck : request.check c.settings.policy = .ok ()) (hfresh : c.records.find? id = none) :
    ((∃ x ∈ c.records.list, x.current.name = request.name) ∧ c.answer actor (.create request id)
        = .error (.conflict (.qualifiedNameTaken (Name.qualify request.name)))) ∨
      (∀ x ∈ c.records.list, x.current.name ≠ request.name) ∧
        c.answer actor (.create request id) = .ok (.created (request.service id actor)) := by
  have hnamed := hindexed.getNamed?_qualify request.name
  by_cases htaken : ∃ x ∈ c.records.list, x.current.name = request.name
  · refine .inl ⟨htaken, answer_of_error ?_⟩
    simp only [Mutation.effect, Mutation.perform, Effect.create, hcheck, Outcome.ok_bind, hnamed,
      Records.named?_isSome.2 htaken, if_true]
  · have hfree : (c.records.getNamed? (Name.qualify request.name)).isSome = false := by
      rw [hnamed, ← Bool.not_eq_true, Records.named?_isSome]
      exact htaken
    have hunused : c.records.nameTaken request.name none = false := by
      apply Bool.eq_false_iff.2
      intro h
      obtain ⟨x, hx, he, -⟩ := Records.nameTaken_iff.1 h
      exact htaken ⟨x, hx, he⟩
    refine .inr ⟨fun x hx he => htaken ⟨x, hx, he⟩, ?_⟩
    have heffect : (Mutation.create request id).effect c.settings c.records actor
        = .ok (.created (request.service id actor)) := by
      simp only [Mutation.effect, Mutation.perform, Effect.create, hcheck, Outcome.ok_bind, hfree]
      rfl
    have hwrite := Records.insert_eq_ok.2 ⟨(show c.records.find? (request.service id actor).id = none from hfresh),
      (show c.records.nameTaken (request.service id actor).name none = false from hunused), rfl⟩
    simp only [answer, heffect, Effect.write?, Records.write, hwrite]
    rfl

theorem answer_rename (hindexed : c.records.Indexed) {p : Patch} {base : Option Version} {name : String} {e : Effect}
    (hp : p.name = .set name)
    (heffect : (Mutation.update id p base).effect c.settings c.records actor = .ok e) :
    ((∃ x ∈ c.records.list, x.id ≠ id ∧ x.current.name = name) ∧
        c.answer actor (.update id p base) = .error (.conflict (.nameTaken name))) ∨
      (∀ x ∈ c.records.list, x.current.name = name → x.id = id) ∧
        c.answer actor (.update id p base) = .ok e := by
  have hname : e.service.name = name := by
    obtain ⟨current, -, -, -, hpatch⟩ := Effect.update_eq_ok.1 heffect
    obtain ⟨u, hu, rfl⟩ := Outcome.map_eq_ok.1 hpatch
    rw [Effect.service_ofUpdate]
    exact Service.name_of_update hp hu
  have hrevises : Effect.Revises c.settings c.records actor (· = p) id e := Effect.revises_of_update rfl heffect
  obtain ⟨current, hget, h⟩ := hrevises
  obtain ⟨x, hmem, rfl, rfl⟩ := Records.mem_of_get? hget
  rcases h with rfl | ⟨s, change, next, log, rfl, hrevised⟩
  · refine .inr ⟨fun y hy hy' => ?_, by simp only [answer, heffect]; rfl⟩
    exact congrArg ServiceRecord.id (hindexed.distinct y hy x hmem (hy'.trans hname.symm))
  · have hs : s.name = name := hname
    have hid : s.id = x.id := hrevised.id_eq
    have hanswer : c.answer actor (.update x.id p base)
        = (c.records.replace s x.current.version).map fun _ => .changed x.current.version s change := by
      simp only [answer, heffect]
      rfl
    rw [hanswer]
    cases htaken : c.records.nameTaken s.name (some s.id) with
    | true =>
      obtain ⟨y, hy, hy', hne⟩ := Records.nameTaken_iff.1 htaken
      refine .inl ⟨⟨y, hy, fun he => hne (congrArg some (he.trans hid.symm)), hy'.trans hs⟩, ?_⟩
      rw [Records.replace, htaken, hs]
      rfl
    | false =>
      refine .inr ⟨fun y hy hy' => ?_, ?_⟩
      · by_contra hne
        have htaken' : c.records.nameTaken s.name (some s.id) = true :=
          Records.nameTaken_iff.2 ⟨y, hy, hy'.trans hs.symm, fun he => hne ((Option.some.inj he).trans hid)⟩
        rw [htaken] at htaken'
        cases htaken'
      · rw [Records.replace_eq_ok.2 ⟨htaken, x, hid ▸ Records.find?_of_mem hmem, rfl, rfl⟩]
        rfl

namespace State

theorem create_conflict {s : State} (hindexed : s.records.Indexed) (actor : Actor) {request : Registration} {id : Uuid}
    (hcheck : request.check s.catalog.settings.policy = .ok ()) (hfresh : s.records.find? id = none) :
    (∃ k, (s.step actor (.create request id)).2 = .error (.conflict k)) ↔
      ∃ t ∈ s.records.services, t.name = request.name := by
  simp only [Records.exists_services]
  rcases answer_create hindexed actor hcheck hfresh with ⟨htaken, h⟩ | ⟨hfree, h⟩
  · rw [step_of_error h]
    exact iff_of_true ⟨_, rfl⟩ htaken
  · apply iff_of_false (no_conflict h)
    rintro ⟨x, hx, hname⟩
    exact hfree x hx hname

theorem rename_conflict {s : State} (hindexed : s.records.Indexed) {actor : Actor} {id : Uuid} {p : Patch}
    {base : Option Version} {name : String} {e : Effect} (hp : p.name = .set name)
    (heffect : (Mutation.update id p base).effect s.catalog.settings s.records actor = .ok e) :
    (∃ k, (s.step actor (.update id p base)).2 = .error (.conflict k)) ↔
      ∃ t ∈ s.records.services, t.id ≠ id ∧ t.name = name := by
  simp only [Records.exists_services]
  rcases answer_rename hindexed hp heffect with ⟨htaken, h⟩ | ⟨hfree, h⟩
  · rw [step_of_error h]
    exact iff_of_true ⟨_, rfl⟩ htaken
  · apply iff_of_false (no_conflict h)
    rintro ⟨x, hx, hne, hname⟩
    exact hne (hfree x hx hname)

theorem step_distinct {s : State} (h : s.records.Distinct) (actor : Actor) (m : Mutation) :
    (s.step actor m).1.records.Distinct := by
  rcases s.step_cases actor m with ⟨e, -, hcatalog, -, -⟩ | ⟨effect, -, -, ⟨-, hsame⟩ | ⟨w, hw⟩⟩
  · rwa [records, hcatalog]
  · rwa [hsame]
  · exact h.write hw.records_eq

theorem run_qualified (files : Files) (settings : Settings) (file : Option Path) (steps : List (Actor × Mutation)) :
    ∀ x ∈ ((start files settings file).run steps).records.list, ∀ s ∈ x.states,
      s.qualifiedName = Name.qualify s.name :=
  run_states settings (fun _ _ _ => rfl) (fun hrevised => hrevised.qualified) files file steps

theorem run_fresh (files : Files) (settings : Settings) (file : Option Path) {steps : List (Actor × Mutation)}
    {id : Uuid} (hnew : id ∉ steps.filterMap (·.2.newId?)) :
    ((start files settings file).run steps).records.find? id = none := by
  apply Option.eq_none_iff_forall_ne_some.2
  intro x hfind
  obtain ⟨hx, rfl⟩ := Records.find?_eq_some.1 hfind
  exact hnew (run_given files settings file steps x hx)

theorem step_indexed {s : State} (h : s.records.Indexed) (actor : Actor) (m : Mutation) :
    (s.step actor m).1.records.Indexed := by
  have hnamed : ∀ x ∈ (s.step actor m).1.records.list,
      Name.check x.current.name = .ok () ∧ x.current.qualifiedName = Name.qualify x.current.name := by
    intro x hx
    rcases record_cases hx with hx | ⟨request, id, -, hcheck, rfl⟩ | ⟨y, hy, t, _, _, _, rfl, ht⟩
    · exact ⟨h.valid x hx, h.qualified x hx⟩
    · exact ⟨(Registration.check_eq_ok.1 hcheck).1, rfl⟩
    · rw [ServiceRecord.advance, ht.released]
      exact ⟨ht.drafted.name_checked (h.valid y hy), ht.drafted.qualified (h.qualified y hy)⟩
  exact ⟨fun x hx => (hnamed x hx).1, fun x hx => (hnamed x hx).2, step_distinct h.distinct actor m⟩

theorem run_indexed_from {s : State} (h : s.records.Indexed) (steps : List (Actor × Mutation)) :
    (s.run steps).records.Indexed := by
  induction steps generalizing s with
  | nil => exact h
  | cons step steps ih => exact ih (step_indexed h step.1 step.2)

theorem run_indexed (files : Files) (settings : Settings) (file : Option Path) (steps : List (Actor × Mutation)) :
    ((start files settings file).run steps).records.Indexed := by
  have hempty : (start files settings file).records.Distinct := List.forall_mem_nil _
  exact run_indexed_from ⟨List.forall_mem_nil _, List.forall_mem_nil _, hempty⟩ steps

/-- Over any run from a catalog without records, names index the services. -/
theorem run_named (files : Files) (settings : Settings) (file : Option Path) (steps : List (Actor × Mutation)) :
    let t := (start files settings file).run steps
    (t.records.services.map (·.name)).Nodup ∧ (t.records.services.map (·.qualifiedName)).Nodup ∧
      (∀ x ∈ t.records.list, ∀ s ∈ x.states, s.qualifiedName = Name.qualify s.name) ∧
      InOrder t.records.services ∧ (∀ q page, t.catalog.list q = .ok page → InOrder page.data) ∧
      (∀ q s, t.records.getNamed? q = some s ↔ s ∈ t.records.services ∧ s.qualifiedName = q) ∧
      (∀ included s, t.catalog.get s.id included = .ok s ↔ t.catalog.Sees included s) ∧
      (∀ included s, t.catalog.getNamed s.qualifiedName included = .ok s ↔ t.catalog.Sees included s) ∧
      (∀ included n, 0 < n → n ≤ maxPageSize →
        ∃ pages, Pages (List.replicate pages.length t.catalog) ⟨included, none, some n, none⟩ pages ∧
          ∀ s, s ∈ pages.flatMap Page.data ↔ t.catalog.Sees included s) ∧
      (∀ actor request id, request.check settings.policy = .ok () → id ∉ steps.filterMap (·.2.newId?) →
        ((∃ k, (t.step actor (.create request id)).2 = .error (.conflict k)) ↔
          ∃ s ∈ t.records.services, s.name = request.name)) ∧
      ∀ actor id p base name e, p.name = .set name →
        (Mutation.update id p base).effect settings t.records actor = .ok e →
        ((∃ k, (t.step actor (.update id p base)).2 = .error (.conflict k)) ↔
          ∃ s ∈ t.records.services, s.id ≠ id ∧ s.name = name) := by
  intro t
  have hindexed : t.records.Indexed := run_indexed files settings file steps
  have hinorder : InOrder t.records.services := hindexed.services_inOrder
  have hsettings : t.catalog.settings = settings := run_settings _ _
  refine ⟨hindexed.names_nodup, hindexed.qualifiedNames_nodup, run_qualified files settings file steps,
    hindexed.services_inOrder, fun q page => list_inOrder hindexed, fun q s => ?_, fun included s => get_sees,
    fun included s => getNamed_sees hindexed, fun included n => pages_sees hindexed included,
    fun actor request id hcheck hnew => ?_, fun actor id p base name e hp heffect => ?_⟩
  · rw [hindexed.getNamed?_eq_some, Records.mem_services]
    constructor
    · rintro ⟨x, hx, rfl, hq⟩
      exact ⟨⟨x, hx, rfl⟩, hq⟩
    · rintro ⟨⟨x, hx, rfl⟩, hq⟩
      exact ⟨x, hx, rfl, hq⟩
  · rw [← hsettings] at hcheck
    exact create_conflict hindexed actor hcheck (run_fresh files settings file hnew)
  · rw [← hsettings] at heffect
    exact rename_conflict hindexed hp heffect

def registeredTwice : List (Actor × Mutation) :=
  [(⟨"ann", .manual, 1⟩, .create (.ofConnection "probe" (.ofLaunch (.ofCommand "run"))) ⟨1⟩),
    (⟨"ann", .manual, 2⟩, .create (.ofConnection "probe.v2" (.ofLaunch (.ofCommand "run"))) ⟨2⟩),
    (⟨"ben", .automated, 3⟩, .delete ⟨1⟩)]

theorem run_named_twice :
    let t := (start (.empty []) ⟨.reject, 10⟩ none).run registeredTwice
    t.records.list.map (·.current.qualifiedName) = ["probe", "\"probe.v2\""] ∧
      (∃ k, (t.step ⟨"ben", .manual, 4⟩ (.create (.ofConnection "probe" (.ofLaunch (.ofCommand "run"))) ⟨3⟩)).2
        = .error (.conflict k)) ∧
      ∃ k, (t.step ⟨"ben", .manual, 5⟩ (.update ⟨2⟩ { Patch.empty with name := .set "probe" } none)).2
        = .error (.conflict k) := by
  intro t
  have hprobe : ∃ x ∈ t.records.list, x.current.id ≠ ⟨2⟩ ∧ x.current.name = "probe" := by decide +kernel
  obtain ⟨x, hx, hid, hname⟩ := hprobe
  have hs : x.current ∈ t.records.services := Records.mem_services.2 ⟨x, hx, rfl⟩
  obtain ⟨e, he⟩ : ∃ e, (Mutation.update ⟨2⟩ { Patch.empty with name := .set "probe" } none).effect ⟨.reject, 10⟩
      t.records ⟨"ben", .manual, 5⟩ = .ok e := Outcome.exists_ok (by decide +kernel)
  obtain ⟨-, -, -, -, -, -, -, -, -, hcreate, hrename⟩ := run_named (.empty []) ⟨.reject, 10⟩ none registeredTwice
  refine ⟨by decide +kernel, ?_, ?_⟩
  · have htaken := hcreate ⟨"ben", .manual, 4⟩ (.ofConnection "probe" (.ofLaunch (.ofCommand "run"))) ⟨3⟩ rfl
      (by decide)
    exact htaken.2 ⟨x.current, hs, hname⟩
  · exact (hrename _ ⟨2⟩ _ none "probe" e rfl he).2 ⟨x.current, hs, hid, hname⟩

end State

end Catalog

end ServiceCatalog
