import ServiceCatalog.Proofs.Catalog.Naming
import ServiceCatalog.Proofs.Catalog.Validity
import ServiceCatalog.Proofs.Service.Registering

namespace ServiceCatalog

namespace Effect

variable {settings : Settings} {records : Records} {actor : Actor} {r : Registration} {id : Uuid} {e : Effect}

theorem put_eq_ok :
    put settings records actor r id = .ok e ↔
      r.check settings.policy = .ok () ∧
        ((records.getNamed? (Name.qualify r.name) = none ∧ e = .created (r.service id actor)) ∨
          ∃ current u, records.getNamed? (Name.qualify r.name) = some current ∧ current.isDeleted = false ∧
            current.update settings.policy actor r.patch = .ok u ∧ e = ofUpdate current.version u) := by
  unfold put
  cases hnamed : records.getNamed? (Name.qualify r.name) with
  | none =>
    simp only [create, hnamed]
    rw [Outcome.then_eq_ok]
    apply and_congr_right
    intro _
    constructor
    · intro h
      exact .inl ⟨trivial, (Except.ok.inj h).symm⟩
    · rintro (⟨-, rfl⟩ | ⟨_, _, hsome, -⟩)
      · rfl
      · cases hsome
  | some current =>
    dsimp only
    cases hdeleted : current.isDeleted with
    | true =>
      apply iff_of_false
      · intro h
        cases h
      · rintro ⟨-, ⟨hnone, -⟩ | ⟨_, _, hsome, hlive, -⟩⟩
        · cases hnone
        · obtain rfl := Option.some.inj hsome
          rw [hdeleted] at hlive
          cases hlive
    | false =>
      rw [if_neg Bool.false_ne_true, Outcome.then_eq_ok, patch, Outcome.map_eq_ok]
      apply and_congr_right
      intro _
      constructor
      · rintro ⟨u, hu, rfl⟩
        exact .inr ⟨current, u, rfl, hdeleted, hu, rfl⟩
      · rintro (⟨hnone, -⟩ | ⟨_, u, hsome, -, hu, rfl⟩)
        · cases hnone
        · obtain rfl := Option.some.inj hsome
          exact ⟨u, hu, rfl⟩

theorem put_ne_removed (h : put settings records actor r id = .ok e) (s : Service) : e ≠ .removed s := by
  obtain ⟨-, ⟨-, rfl⟩ | ⟨current, u, -, -, -, rfl⟩⟩ := put_eq_ok.1 h
  · simp
  · exact ofUpdate_ne_removed _ u s

theorem put_fulfilled {s : Service} (hnamed : records.getNamed? (Name.qualify r.name) = some s)
    (h : r.Fulfilled settings.policy s) : put settings records actor r id = .ok (.unchanged s) :=
  put_eq_ok.2 ⟨h.checked, .inr ⟨s, _, hnamed, h.live, h.update actor, rfl⟩⟩

end Effect

namespace Catalog.State

variable {s : State} {r : Registration} {current : Service}

theorem step_put (hindexed : s.records.Indexed) {actor : Actor} {id : Uuid} {e : Effect}
    (h : (s.step actor (.put r id)).2 = .ok e) :
    (s.step actor (.put r id)).1.records.named? r.name = some e.service ∧
      r.Met (s.records.named? r.name) e.service ∧ r.Fulfilled s.catalog.settings.policy e.service := by
  have hput : Effect.put s.catalog.settings s.records actor r id = .ok e := effect_of_step h
  have hrequest : r.Met (s.records.named? r.name) e.service ∧ r.Fulfilled s.catalog.settings.policy e.service := by
    rw [← hindexed.getNamed?_qualify]
    obtain ⟨hcheck, ⟨hnone, rfl⟩ | ⟨current, u, hnamed, hlive, hu, rfl⟩⟩ := Effect.put_eq_ok.1 hput
    · rw [hnone]
      exact ⟨r.met_service id actor, Registration.fulfilled_service hcheck id actor⟩
    · have hname : current.name = r.name := by
        rw [hindexed.getNamed?_qualify, hindexed.distinct.named?_eq_some] at hnamed
        obtain ⟨-, -, -, hname⟩ := hnamed
        exact hname
      rw [hnamed, Effect.service_ofUpdate]
      exact ⟨Registration.met_update hu hname, Registration.fulfilled_update hu hcheck hlive⟩
  obtain ⟨hmet, hfulfilled⟩ := hrequest
  obtain ⟨x, hx, -, hcurrent⟩ := Records.mem_of_get? (get?_of_step h (Effect.put_ne_removed hput))
  refine ⟨?_, hmet, hfulfilled⟩
  exact (step_indexed hindexed actor _).distinct.named?_eq_some.2 ⟨x, hx, hcurrent, hmet.name⟩

theorem step_fulfilled (hindexed : s.records.Indexed) (hnamed : s.records.named? r.name = some current)
    (h : r.Fulfilled s.catalog.settings.policy current) (actor : Actor) (id : Uuid) :
    s.step actor (.put r id) = (s, .ok (.unchanged current)) := by
  rw [← hindexed.getNamed?_qualify] at hnamed
  apply step_of_noop
  exact Effect.put_fulfilled hnamed h

theorem answer_put (hindexed : s.records.Indexed) (hnamed : s.records.named? r.name = some current)
    (hcheck : r.check s.catalog.settings.policy = .ok ()) (hkind : current.kind = r.kind)
    (hlive : current.isDeleted = false)
    (hroom : current.version.tenths.toNat + current.stride (current.patched r.patch) < UInt32.size) (actor : Actor)
    (id : Uuid) : ∃ e, s.catalog.answer actor (.put r id) = .ok e := by
  obtain ⟨x, hx, rfl, hname⟩ := hindexed.distinct.named?_eq_some.1 hnamed
  have haccepted : ¬ r.patch.Refused s.catalog.settings.policy x.current :=
    Patch.not_refused_iff.2 ⟨Registration.checkPatch_of_check hcheck hkind, nofun, fun _ => hroom⟩
  obtain ⟨u, hu, -⟩ := Service.update_accepted haccepted actor
  rw [← hindexed.getNamed?_qualify] at hnamed
  have heffect : (Mutation.put r id).effect s.catalog.settings s.catalog.records actor =
      .ok (Effect.ofUpdate x.current.version u) :=
    Effect.put_eq_ok.2 ⟨hcheck, .inr ⟨x.current, u, hnamed, hlive, hu, rfl⟩⟩
  refine ⟨Effect.ofUpdate x.current.version u, ?_⟩
  rw [answer, heffect]
  cases hchange : u.change with
  | none => simp only [Effect.ofUpdate, hchange, Effect.write?]
  | some change =>
    have hid : u.service.id = x.id := congrArg Prod.fst (Service.update_settles hu).1
    have hsame : u.service.name = x.current.name := (Registration.met_update hu hname).name.trans hname.symm
    simp only [Effect.ofUpdate, hchange, Effect.write?]
    exact Outcome.map_eq_ok.2 ⟨_, hindexed.distinct.replace_eq hx hid hsame, rfl⟩

/-- Over any run, a registration that is put is met, and to put it again leaves the catalog as it is. Where there is
a service of its name, it is checked as its patch is, and nothing but the files stops one that was accepted. -/
theorem run_put (files : Files) (settings : Settings) (file : Option Path) (steps : List (Actor × Mutation))
    (r : Registration) :
    let t := (start files settings file).run steps
    (∀ actor id e, (t.step actor (.put r id)).2 = .ok e →
      let after := (t.step actor (.put r id)).1
      after.records.named? r.name = some e.service ∧ r.Met (t.records.named? r.name) e.service ∧
        ∀ later id', after.step later (.put r id') = (after, .ok (.unchanged e.service))) ∧
      ∀ current, t.records.named? r.name = some current →
        (r.check settings.policy = .ok () ↔
          r.connection ≠ none ∧ current.checkPatch settings.policy r.patch = .ok ()) ∧
        (r.check settings.policy = .ok () → current.isDeleted = false →
          current.version.tenths.toNat + current.stride (current.patched r.patch) < UInt32.size →
          ∀ actor id, (∃ e, (t.step actor (.put r id)).2 = .ok e) ∨
            file.isSome = true ∧ ∃ fault, (t.step actor (.put r id)).2 = .error (.storage fault)) := by
  intro t
  have hindexed : t.records.Indexed := run_indexed files settings file steps
  have hsettings : t.catalog.settings = settings := run_settings _ _
  have hfile : t.store.file = file := run_file _ _
  constructor
  · intro actor id e h
    obtain ⟨hnamed, hmet, hfulfilled⟩ := step_put hindexed h
    refine ⟨hnamed, hmet, step_fulfilled (step_indexed hindexed actor _) hnamed ?_⟩
    rwa [step_settings]
  · intro current hnamed
    obtain ⟨x, hx, rfl, hname⟩ := hindexed.distinct.named?_eq_some.1 hnamed
    have hvalid := run_valid files settings file steps x hx x.current x.current_mem_states
    constructor
    · rw [Registration.check_iff_checkPatch hvalid.kind, ← hname]
      exact and_iff_right hvalid.name
    · intro hcheck hlive hroom actor id
      have hkind : x.current.kind = r.kind := hvalid.kind.trans (Registration.check_eq_ok.1 hcheck).2.1.symm
      rw [← hsettings] at hcheck
      obtain ⟨e, hanswer⟩ := answer_put hindexed hnamed hcheck hkind hlive hroom actor id
      rw [← hfile]
      exact (outcome_of_answer hanswer).imp_left fun h => ⟨e, h⟩

def describedSteps : List (Actor × Mutation) :=
  [(⟨"ann", .manual, 1⟩, .create { Registration.ofConnection "probe" (.ofLaunch (.ofCommand "run")) with
      availableTools := some [.ofName "dig", .ofName "fill"] } ⟨1⟩),
    (⟨"ben", .manual, 2⟩, .update ⟨1⟩ { Patch.empty with description := .set "A probe" } none)]

def diggingRequest : Registration :=
  { Registration.ofConnection "probe" (.ofLaunch (.ofCommand "walk")) with availableTools := some [.ofName "dig"] }

theorem run_put_twice :
    let t := (start (.empty []) ⟨.reject, 10⟩ none).run describedSteps
    let after := (t.step ⟨"cid", .automated, 3⟩ (.put diggingRequest ⟨2⟩)).1
    (∃ current ∈ t.records.named? "probe", current.isDeleted = false ∧
        current.version.tenths.toNat + current.stride (current.patched diggingRequest.patch) = 12 ∧
        current.checkPatch .reject diggingRequest.patch = .ok ()) ∧
      ∃ s ∈ after.records.named? "probe", s.description = some "A probe" ∧
        (∃ tools, s.availableTools = some tools ∧ (tools == [.ofName "dig"]) = true) ∧
        ∀ later id', after.step later (.put diggingRequest id') = (after, .ok (.unchanged s)) := by
  intro t after
  have hprobe : ∃ current ∈ t.records.named? "probe", current.isDeleted = false ∧
      current.version.tenths.toNat + current.stride (current.patched diggingRequest.patch) = 12 ∧
      current.description = some "A probe" := by decide +kernel
  obtain ⟨current, hnamed, hlive, hroom, hdescription⟩ := hprobe
  obtain ⟨hput, hcurrent⟩ := run_put (.empty []) ⟨.reject, 10⟩ none describedSteps diggingRequest
  obtain ⟨hchecks, haccepted⟩ := hcurrent current hnamed
  have hroom' : current.version.tenths.toNat + current.stride (current.patched diggingRequest.patch) < UInt32.size := by
    rw [hroom]
    decide
  refine ⟨⟨current, hnamed, hlive, hroom, (hchecks.1 rfl).2⟩, ?_⟩
  obtain ⟨e, he⟩ | ⟨hfile, -⟩ := haccepted rfl hlive hroom' ⟨"cid", .automated, 3⟩ ⟨2⟩
  · obtain ⟨hafter, hmet, hagain⟩ := hput _ _ e he
    have hold : t.records.named? diggingRequest.name = some current := hnamed
    have hkept : e.service.description = current.description := by
      rw [hold] at hmet
      exact hmet.omitted .description rfl
    exact ⟨e.service, hafter, hkept.trans hdescription, hmet.supplied .availableTools _ rfl, hagain⟩
  · cases hfile

end Catalog.State

end ServiceCatalog
