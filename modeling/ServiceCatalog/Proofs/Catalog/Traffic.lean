import ServiceCatalog.Proofs.Catalog.Answer
import ServiceCatalog.Proofs.Catalog.History
import ServiceCatalog.Proofs.Catalog.Reading
import ServiceCatalog.Proofs.Catalog.Reopen
import ServiceCatalog.Proofs.Service.Import
import ServiceCatalog.Proofs.Wire.Shape
import ServiceCatalog.Service.Permission

namespace ServiceCatalog

open Wire

theorem Records.Sound.of_get? {r : Records} (h : r.Sound) {id : Uuid} {s : Service} (hget : r.get? id = some s) :
    s.Sound := by
  obtain ⟨x, hx, -, rfl⟩ := Records.mem_of_get? hget
  exact h x hx x.current x.current_mem_states

theorem Service.Sound.view {s : Service} (h : s.Sound) (p : Permission) : (p.view s).Sound := by
  unfold Permission.view
  split
  · exact h
  · exact sound_of nofun (h.content .availableTools) h.change h.incremental

theorem ListQuery.mem_of_page {q : ListQuery} {limit : Nat} {services : List Service} {s : Service}
    (h : s ∈ (q.page limit services).data) : s ∈ services := by
  have hselected := (List.mem_filter.1 (List.mem_of_mem_take h)).1
  exact (List.mem_filter.1 ((List.mergeSort_perm _ _).mem_iff.1 hselected)).1

theorem ClientConfig.sound_of_readRegistrations {text : String} {requests : List Registration}
    (h : readRegistrations text = .ok requests) : ∀ r ∈ requests, r.Sound := by
  intro r hr
  obtain ⟨_, -, hmem⟩ := mem_readRegistrations h
  obtain ⟨_, _, _, -, -, -, -, he⟩ := (hmem r).1 hr
  rw [he]
  exact ⟨by rintro c ⟨⟩; exact Connection.present_ofLaunch _, nofun⟩

namespace Catalog

/-- The states of catalogs that start empty or open a file, and to which only mutations come that were read. -/
inductive State.Reached : State → Prop
  | started (files : Files) (settings : Settings) (file : Option Path) : Reached (start files settings file)
  | opened {files : Files} {file : Path} {store : Store} (settings : Settings)
      (hopen : Store.open files file = .ok store) : Reached ⟨files, settings, store⟩
  | step {s : State} (hs : Reached s) (actor : Actor) {m : Mutation} (hm : m.Accepted) :
      Reached (s.step actor m).1

namespace State.Reached

variable {s : State} {actor : Actor} {m : Mutation} {e : Effect}

theorem sound (hs : Reached s) : s.records.Sound := by
  induction hs with
  | started => exact List.forall_mem_nil _
  | opened _ hopen => exact (Store.sound_of_open hopen).1
  | step _ _ hm ih => exact records_sound ih hm

theorem run (hs : Reached s) {steps : List (Actor × Mutation)} (hsteps : ∀ step ∈ steps, step.2.Accepted) :
    Reached (s.run steps) := by
  induction steps generalizing s with
  | nil => exact hs
  | cons step steps ih =>
    obtain ⟨hstep, hsteps⟩ := List.forall_mem_cons.1 hsteps
    exact ih (hs.step step.1 hstep) hsteps

theorem answer_sound (hs : Reached s) (hm : m.Accepted) (h : (s.step actor m).2 = .ok e) : e.service.Sound := by
  by_cases hremoved : ∃ v, e = .removed v
  · obtain ⟨v, rfl⟩ := hremoved
    rcases Mutation.effect_cases (effect_of_step h) with
      ⟨_, _, -, -, -, -, he⟩ | ⟨_, _, -, hget, he⟩ | ⟨_, -, _, -, he | ⟨_, _, _, _, he, -⟩⟩
    · cases he
    · cases he
      exact hs.sound.of_get? hget
    · cases he
    · cases he
  · exact (hs.step actor hm).sound.of_get? (get?_of_step h fun v he => hremoved ⟨v, he⟩)

theorem change?_eq_some (h : (s.step actor m).2 = .ok e) {d : ChangeDescription} (hd : e.change? = some d) :
    e.service.change = some d := by
  rcases Mutation.effect_cases (effect_of_step h) with
    ⟨_, _, -, -, -, -, rfl⟩ | ⟨_, _, -, -, rfl⟩ | ⟨_, -, _, -, rfl | ⟨_, _, _, _, rfl, hrevised⟩⟩
  · cases hd
  · cases hd
  · cases hd
  · cases hd
    exact congrArg Service.change hrevised.released

end State.Reached

theorem versions_eq_ok {c : Catalog} {id : Uuid} {l : VersionList} (h : c.versions id = .ok l) :
    ∃ x ∈ c.records.list, x.id = id ∧ l = ⟨Service.entityType, x.states.reverse⟩ := by
  obtain ⟨current, hload, -⟩ := Outcome.bind_eq_ok.1 h
  obtain ⟨x, hx, rfl, -⟩ := Records.mem_of_get? (Records.load_eq_ok.1 hload)
  rw [versions_eq hx] at h
  exact ⟨x, hx, rfl, (Except.ok.inj h).symm⟩

theorem version_eq_ok {c : Catalog} {id : Uuid} {v : Version} {s : Service} (h : c.version id v = .ok s) :
    ∃ x ∈ c.records.list, x.id = id ∧ s ∈ x.states := by
  obtain ⟨l, hl, h⟩ := Outcome.bind_eq_ok.1 h
  obtain ⟨x, hx, hid, rfl⟩ := versions_eq_ok hl
  refine ⟨x, hx, hid, ?_⟩
  split at h
  · next hfind =>
    cases h
    exact List.mem_reverse.1 (List.mem_of_find?_eq_some hfind)
  · cases h

inductive Arises : AnyRecord → Prop
  | read {w : AnyRecord} (h : Wire.Accepted w.2) : Arises w
  | imported {text : String} {requests : List Registration} {r : Registration}
      (h : ClientConfig.readRegistrations text = .ok requests) (hr : r ∈ requests) : Arises ⟨.registration, r⟩
  | asked {m : Mutation} {p : Patch} (hm : m.Accepted) (hp : m.asks p) : Arises ⟨.patch, p⟩
  | stored {s : State} {x : ServiceRecord} (hs : s.Reached) (hx : x ∈ s.records.list) : Arises ⟨.record, x⟩
  | answered {s : State} {actor : Actor} {m : Mutation} {e : Effect} (hs : s.Reached) (hm : m.Accepted)
      (h : (s.step actor m).2 = .ok e) : Arises ⟨.service, e.service⟩
  | changed {s : State} {actor : Actor} {m : Mutation} {e : Effect} {d : ChangeDescription} (hs : s.Reached)
      (hm : m.Accepted) (h : (s.step actor m).2 = .ok e) (hd : e.change? = some d) : Arises ⟨.change, d⟩
  | got {s : State} {id : Uuid} {included : Include} {v : Service} (hs : s.Reached)
      (h : s.catalog.get id included = .ok v) : Arises ⟨.service, v⟩
  | gotNamed {s : State} {name : String} {included : Include} {v : Service} (hs : s.Reached)
      (h : s.catalog.getNamed name included = .ok v) : Arises ⟨.service, v⟩
  | gotVersion {s : State} {id : Uuid} {version : Version} {v : Service} (hs : s.Reached)
      (h : s.catalog.version id version = .ok v) : Arises ⟨.service, v⟩
  | versions {s : State} {id : Uuid} {l : VersionList} (hs : s.Reached) (h : s.catalog.versions id = .ok l) :
      Arises ⟨.history, l⟩
  -- the total is a machine word of 64 bits
  | listed {s : State} {q : ListQuery} {p : Page} (hs : s.Reached) (h : s.catalog.list q = .ok p)
      (htotal : p.paging.total < UInt64.size) : Arises ⟨.page, p⟩
  | viewed {v : Service} (h : Arises ⟨.service, v⟩) (p : Permission) : Arises ⟨.service, p.view v⟩
  | part {w u : AnyRecord} (h : Arises w) (hu : u ∈ w.1.parts w.2) : Arises u

theorem Arises.accepted {w : AnyRecord} (h : Arises w) : Wire.Accepted w.2 := by
  induction h with
  | read h => exact h
  | imported h hr => exact (ClientConfig.sound_of_readRegistrations h _ hr).present.accepted
  | asked hm hp => exact (hm.asks_sound hp).present.accepted
  | stored hs hx => exact (ServiceRecord.present (hs.sound _ hx)).accepted
  | answered hs hm h => exact (Service.present (hs.answer_sound hm h)).accepted
  | changed hs hm h hd =>
    exact ((hs.answer_sound hm h).change _ (State.Reached.change?_eq_some h hd)).accepted
  | got hs h => exact (Service.present (hs.sound.of_get? (get_eq_ok.1 h).1)).accepted
  | gotNamed hs h =>
    have hget := Records.get?_of_getNamed? (getNamed_eq_ok.1 h).1
    exact (Service.present (hs.sound.of_get? hget)).accepted
  | gotVersion hs h =>
    obtain ⟨x, hx, -, hv⟩ := version_eq_ok h
    exact (Service.present (hs.sound x hx _ hv)).accepted
  | versions hs h =>
    obtain ⟨x, hx, -, rfl⟩ := versions_eq_ok h
    refine (VersionList.present (sincere_list fun v hv => ?_)).accepted
    exact (Service.present (hs.sound x hx v (List.mem_reverse.1 hv))).toSincere
  | @listed s q p hs h htotal =>
    rw [list_eq q rfl, guard_eq_ok] at h
    obtain ⟨-, ⟨⟩⟩ := h
    have hpaging := Paging.present (present_nat htotal).toSincere
    refine (Page.present (sincere_list fun v hv => ?_) hpaging.toSincere).accepted
    obtain ⟨x, hx, rfl⟩ := Records.mem_services.1 (ListQuery.mem_of_page hv)
    exact (Service.present (hs.sound x hx _ x.current_mem_states)).toSincere
  | viewed _ p ih =>
    obtain ⟨j, hj, hdec⟩ := ih
    exact (Service.present ((Service.sound_of_decode hj hdec).view p)).accepted
  | part _ hu ih => exact Shape.accepted_parts ih _ hu

/-- Whatever comes to a catalog or from it is read from what is written for it, from its tree and from both of its
texts, and the keys that are written are those of the fields that are there. -/
theorem traffic_round_trips :
    (∀ v : Version, RoundTrips v) ∧ (∀ d : Dict String, RoundTrips d) ∧
      (∀ v : Value, Wire.Accepted v → RoundTrips v) ∧
      ∀ w : AnyRecord, Arises w → RoundTrips w.2 ∧ w.Keyed :=
  ⟨fun v => (present v).roundTrips, fun d => (present d).roundTrips, fun _ h => h.sincere.roundTrips,
    fun _ h => ⟨h.accepted.sincere.roundTrips, AnyRecord.keyed_of_accepted h.accepted⟩⟩

namespace State

theorem traffic_round_trips_nested :
    let schema := Value.ofTree (nested 3)
    Wire.Accepted schema ∧ RoundTrips schema ∧
      ∃ x ∈ (fresh.run (nestedSteps 3)).records.list, Arises ⟨.record, x⟩ ∧ x.states.length = 2 ∧
        (RoundTrips x ∧ AnyRecord.Keyed ⟨.record, x⟩) ∧ decodeText? (compactText x) = some x := by
  intro schema
  have hschema : Wire.Accepted schema := (sincere_value (ranged_nested 3).normalize).accepted
  have hexists : ∃ x ∈ (fresh.run (nestedSteps 3)).records.list, x.states.length = 2 ∧ Wire.Restored x ∧
      (encode x).depth ≤ Json.nestingLimit := by
    decide +kernel
  obtain ⟨x, hx, hlength, hfloats, hdepth⟩ := hexists
  have hsteps : ∀ step ∈ nestedSteps 3, step.2.Accepted :=
    List.forall_mem_cons.2 ⟨accepted_nestedRequest 2, List.forall_mem_singleton.2 trivial⟩
  have harises : Arises ⟨.record, x⟩ := .stored ((Reached.started _ _ _).run hsteps) hx
  obtain ⟨-, -, hvalue, hrecord⟩ := traffic_round_trips
  have h := hrecord ⟨.record, x⟩ harises
  exact ⟨hschema, hvalue schema hschema, x, hx, harises, hlength, h, h.1.compact hfloats hdepth⟩

end State

end Catalog

end ServiceCatalog
