import Mathlib.Data.List.Forall2
import ServiceCatalog.Proofs.Catalog.Freezing
import ServiceCatalog.Proofs.Catalog.Putting
import ServiceCatalog.Proofs.Service.Import

namespace ServiceCatalog

namespace Catalog.State

def outcomes (s : State) : List (Actor × Mutation) → List (Outcome Effect)
  | [] => []
  | step :: steps => (s.step step.1 step.2).2 :: (s.step step.1 step.2).1.outcomes steps

def Puts (requests : List Registration) (steps : List (Actor × Mutation)) : Prop :=
  List.Forall₂ (fun r step => ∃ id, step.2 = .put r id) requests steps

variable {s : State} {requests : List Registration} {steps : List (Actor × Mutation)}

theorem step_put_other (hindexed : s.records.Indexed) {name : String} {current : Service}
    (hnamed : s.records.named? name = some current) {r : Registration} (hne : r.name ≠ name) (actor : Actor)
    (id : Uuid) : (s.step actor (.put r id)).1.records.named? name = some current := by
  obtain ⟨x, hx, rfl, hname⟩ := hindexed.distinct.named?_eq_some.1 hnamed
  apply (step_indexed hindexed actor _).distinct.named?_eq_some.2
  refine ⟨x, step_untargeted hx actor ?_, rfl, hname⟩
  rw [Mutation.target?, hindexed.getNamed?_qualify]
  intro htarget
  obtain ⟨t, ht, hid⟩ := Option.map_eq_some_iff.1 htarget
  obtain ⟨y, hy, rfl, hyname⟩ := hindexed.distinct.named?_eq_some.1 ht
  obtain rfl : y = x := s.records.filed.id_inj hy hx hid
  exact hne (hyname.symm.trans hname)

theorem run_puts_other (hputs : Puts requests steps) (hindexed : s.records.Indexed) {name : String} {current : Service}
    (hnamed : s.records.named? name = some current) (hne : ∀ r ∈ requests, r.name ≠ name) :
    (s.run steps).records.named? name = some current := by
  induction hputs generalizing s with
  | nil => exact hnamed
  | @cons r step requests steps hput hputs ih =>
    obtain ⟨actor, _⟩ := step
    obtain ⟨id, rfl⟩ := hput
    obtain ⟨hr, hne⟩ := List.forall_mem_cons.1 hne
    exact ih (step_indexed hindexed actor _) (step_put_other hindexed hnamed hr actor id) hne

theorem run_puts (hputs : Puts requests steps) (hindexed : s.records.Indexed)
    (hnames : requests.Pairwise fun r t => r.name ≠ t.name) (hok : ∀ o ∈ s.outcomes steps, ∃ e, o = .ok e) :
    ∀ r ∈ requests, ∃ current, (s.run steps).records.named? r.name = some current ∧
      r.Fulfilled s.catalog.settings.policy current := by
  induction hputs generalizing s with
  | nil => exact List.forall_mem_nil _
  | @cons r step requests steps hput hputs ih =>
    obtain ⟨actor, _⟩ := step
    obtain ⟨id, rfl⟩ := hput
    obtain ⟨hr, hnames⟩ := List.pairwise_cons.1 hnames
    obtain ⟨⟨e, he⟩, hok⟩ := List.forall_mem_cons.1 hok
    obtain ⟨hnamed, -, hfulfilled⟩ := step_put hindexed he
    have hindexed := step_indexed hindexed actor (.put r id)
    refine List.forall_mem_cons.2 ⟨?_, ?_⟩
    · exact ⟨e.service, run_puts_other hputs hindexed hnamed fun t ht => (hr t ht).symm, hfulfilled⟩
    · have hrest := ih hindexed hnames hok
      rwa [step_settings] at hrest

theorem run_fulfilled (hputs : Puts requests steps) (hindexed : s.records.Indexed)
    (hfulfilled : ∀ r ∈ requests, ∃ current, s.records.named? r.name = some current ∧
      r.Fulfilled s.catalog.settings.policy current) :
    s.run steps = s ∧ ∀ o ∈ s.outcomes steps, ∃ current, o = .ok (.unchanged current) := by
  induction hputs with
  | nil => exact ⟨rfl, List.forall_mem_nil _⟩
  | @cons r step requests steps hput hputs ih =>
    obtain ⟨actor, _⟩ := step
    obtain ⟨id, rfl⟩ := hput
    obtain ⟨⟨current, hnamed, hr⟩, hfulfilled⟩ := List.forall_mem_cons.1 hfulfilled
    have hstep := step_fulfilled hindexed hnamed hr actor id
    obtain ⟨hrun, houtcomes⟩ := ih hfulfilled
    rw [run, List.foldl_cons, outcomes, hstep]
    exact ⟨hrun, List.forall_mem_cons.2 ⟨⟨current, rfl⟩, houtcomes⟩⟩

/-- What is read from the configuration of a client are the registrations of its servers with a command, by name, and
over any run an import of them that goes through leaves nothing to do to a second one. -/
theorem run_imported (files : Files) (settings : Settings) (file : Option Path) (steps : List (Actor × Mutation))
    {text : String} (htext : ClientConfig.readRegistrations text = .ok requests) :
    (requests.Pairwise fun r t => r.name < t.name) ∧
      (∃ tree, Json.read? text = some tree ∧ ∀ r, r ∈ requests ↔
        ∃ j s command, ClientConfig.entry? tree r.name = some j ∧ decode j = some (s : ClientServer) ∧
          s.command = some command ∧ isBlankText command = false ∧
          r = .ofConnection r.name (.ofLaunch ⟨command, s.args, s.env, s.cwd⟩)) ∧
      ∀ first second, Puts requests first → Puts requests second →
        let t := (start files settings file).run steps
        (∀ o ∈ t.outcomes first, ∃ e, o = .ok e) →
          (t.run first).run second = t.run first ∧
            ∀ o ∈ (t.run first).outcomes second, ∃ current, o = .ok (.unchanged current) := by
  have hascending : requests.Pairwise fun r t => r.name < t.name := by
    obtain ⟨_, c, -, -, rfl⟩ := ClientConfig.readRegistrations_eq_ok.1 htext
    exact c.registrations_ascending
  have hnames : requests.Pairwise fun r t => r.name ≠ t.name := hascending.imp fun hlt => String.ne_of_lt hlt
  refine ⟨hascending, ClientConfig.mem_readRegistrations htext, fun first second hfirst hsecond => ?_⟩
  intro t hok
  have hindexed : t.records.Indexed := run_indexed files settings file steps
  have hfulfilled := run_puts hfirst hindexed hnames hok
  rw [← run_settings t first] at hfulfilled
  exact run_fulfilled hsecond (run_indexed_from hindexed first) hfulfilled

def clientText : String :=
  "\x7b\"mcpServers\":\x7b\"walker\":\x7b\"command\":\"walk\"\x7d," ++
    "\"b\":\x7b\"command\":\" \"\x7d,\"probe\":\x7b\"command\":\"dig\"\x7d\x7d\x7d"

def putAll (actor : Actor) (newId : Registration → Uuid) (requests : List Registration) : List (Actor × Mutation) :=
  requests.map fun r => (actor, .put r (newId r))

theorem puts_putAll (actor : Actor) (newId : Registration → Uuid) (requests : List Registration) :
    Puts requests (putAll actor newId requests) := by
  apply List.forall₂_map_right_iff.2
  exact List.forall₂_same.2 fun r _ => ⟨newId r, rfl⟩

theorem run_imported_again :
    ∃ requests, ClientConfig.readRegistrations clientText = .ok requests ∧ requests.map (·.name) = ["probe", "walker"] ∧
      let t := ((start (.empty []) ⟨.reject, 10⟩ none).run describedSteps).run
        (putAll ⟨"ann", .ingested, 3⟩ (fun r => ⟨BitVec.ofNat 128 r.name.length⟩) requests)
      (∃ s ∈ t.records.named? "probe", s.description = some "A probe" ∧ s.launch?.map (·.command) = some "dig") ∧
        let again := putAll ⟨"ben", .automated, 4⟩ (fun _ => ⟨9⟩) requests
        t.run again = t ∧ ∀ o ∈ t.outcomes again, ∃ current, o = .ok (.unchanged current) := by
  have hread : ∃ requests ∈ (ClientConfig.readRegistrations clientText).toOption,
      requests.map (·.name) = ["probe", "walker"] ∧
        let t := (start (.empty []) ⟨.reject, 10⟩ none).run describedSteps
        let first := putAll ⟨"ann", .ingested, 3⟩ (fun r => ⟨BitVec.ofNat 128 r.name.length⟩) requests
        (∀ o ∈ t.outcomes first, o.toOption.isSome = true) ∧
          ∃ s ∈ (t.run first).records.named? "probe", s.description = some "A probe" ∧
            s.launch?.map (·.command) = some "dig" := by decide +kernel
  obtain ⟨requests, hread, hnames, hok, hprobe⟩ := hread
  have htext : ClientConfig.readRegistrations clientText = .ok requests := by
    cases h : ClientConfig.readRegistrations clientText with
    | error => rw [h] at hread; cases hread
    | ok => rw [h] at hread; cases hread; rfl
  obtain ⟨-, -, hagain⟩ := run_imported (.empty []) ⟨.reject, 10⟩ none describedSteps htext
  refine ⟨requests, htext, hnames, hprobe, ?_⟩
  exact hagain _ _ (puts_putAll ..) (puts_putAll ..) fun o ho => Outcome.exists_ok (hok o ho)

end Catalog.State

end ServiceCatalog
