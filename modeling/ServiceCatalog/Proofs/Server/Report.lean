import ServiceCatalog.Proofs.Server.Offer

namespace ServiceCatalog

inductive Ask where
  | connect (launch : LaunchConfig)
  | handshake
  | list (kind : ListKind)

namespace Listing

variable {α : Type}

def step (kind : ListKind) : Listing α → TestStep
  | none => .pass kind.step kind.mandatory s!"Server does not advertise {kind.capability}"
  | some (.ok items) => .pass kind.step kind.mandatory s!"Found {natText items.length} {kind.capability}"
  | some (.error e) => .fail kind.step kind.mandatory e

variable (kind : ListKind) (listing : Listing α)

@[simp]
theorem step_name : (listing.step kind).name = kind.step := by
  rcases listing with _ | _ | _ <;> rfl

@[simp]
theorem step_mandatory : (listing.step kind).mandatory = kind.mandatory := by
  rcases listing with _ | _ | _ <;> rfl

@[simp]
theorem step_passed : (listing.step kind).passed = listing.items?.isSome := by
  rcases listing with _ | _ | _ <;> rfl

end Listing

namespace Report

def Fails (r : Report) (name : String) : Prop := ∃ s ∈ r.result.steps, s.name = name ∧ s.passed = false

def outline (r : Report) : List (String × Bool) := r.result.steps.map fun s => (s.name, s.mandatory)

end Report

namespace TestResult

theorem status_ofSteps (steps : List TestStep) :
    (ofSteps steps).status = some (if (ofSteps steps).failedStep?.isSome then .failed else .successful) := rfl

end TestResult

namespace Offer

def report (o : Offer) : Report :=
  ⟨.ofSteps [.pass Connector.handshakeStep true (Connector.greeting o.server), o.tools.step .tools,
    o.resources.step .resources, o.prompts.step .prompts], some o.discovered⟩

variable (o : Offer)

theorem outline_report : o.report.outline =
    [("Initialize", true), ("ListTools", true), ("ListResources", false), ("ListPrompts", false)] := by
  simp [Report.outline, report, TestResult.ofSteps, TestStep.pass, Connector.handshakeStep, ListKind.step,
    ListKind.mandatory]

theorem failedStep?_report :
    o.report.result.failedStep? = if o.tools.items?.isSome then none else some (o.tools.step .tools) := by
  cases h : o.tools.items?.isSome <;>
    simp [TestResult.failedStep?, report, TestResult.ofSteps, TestStep.pass, ListKind.mandatory, h]

theorem status_report :
    o.report.result.status = some (if o.tools.items?.isSome then .successful else .failed) := by
  have hstatus : o.report.result.status = some (if o.report.result.failedStep?.isSome then .failed else .successful) :=
    TestResult.status_ofSteps _
  rw [hstatus, failedStep?_report]
  cases o.tools.items?.isSome <;> rfl

theorem fails_report : ¬ o.report.Fails "Initialize" ∧ (o.report.Fails "ListTools" ↔ o.tools.items? = none) ∧
    (o.report.Fails "ListResources" ↔ o.resources.items? = none) ∧
    (o.report.Fails "ListPrompts" ↔ o.prompts.items? = none) := by
  simp [Report.Fails, report, TestResult.ofSteps, TestStep.pass, Connector.handshakeStep, ListKind.step]

end Offer

namespace Connector

variable {ω σ α : Type}

theorem outline_unreached (e : String) : (unreached e).outline =
    [("Initialize", true), ("ListTools", true), ("ListResources", false), ("ListPrompts", false)] := rfl

theorem status_unreached (e : String) : (unreached e).result.status = some .failed := rfl

theorem fails_unreached (e : String) : (unreached e).Fails "Initialize" := ⟨_, List.mem_cons_self, rfl, rfl⟩

theorem takeList_step (info : ServerInfo) (kind : ListKind) (call : Call σ (List α)) (s : σ) :
    (takeList info kind call s).1 = (listing info kind call s).1.step kind := by
  unfold takeList listing
  cases info.advertises kind.capability with
  | false => rfl
  | true =>
    obtain ⟨outcome, t⟩ := call s
    cases outcome <;> rfl

def greet (c : Connector ω σ) (launch : LaunchConfig) (w : ω) : Except String (ServerInfo × σ × ω) :=
  match c.connect launch w with
  | (.error e, _) => .error e
  | (.ok s, w) =>
    match c.handshake (s, w) with
    | (.error e, _) => .error e
    | (.ok info, s) => .ok (info, s)

def offered (c : Connector ω σ) (info : ServerInfo) (s : σ × ω) : Offer :=
  let tools := listing info .tools c.tools s
  let resources := listing info .resources c.resources tools.2
  ⟨info, tools.1, resources.1, (listing info .prompts c.prompts resources.2).1⟩

theorem takeLists_report (c : Connector ω σ) (info : ServerInfo) (s : σ × ω) :
    (c.takeLists info s).1 = (c.offered info s).report := by
  simp only [takeLists, takeList_step, takeList_listing, offered, Offer.report, Offer.discovered]

theorem discover_report (c : Connector ω σ) (launch : LaunchConfig) (w : ω) :
    (c.discover launch w).1 = match c.greet launch w with
      | .error e => unreached e
      | .ok (info, s) => (c.offered info s).report := by
  unfold discover greet
  obtain ⟨_ | s, w⟩ := c.connect launch w
  · rfl
  · dsimp only
    obtain ⟨_ | info, t⟩ := c.handshake (s, w)
    · rfl
    · exact c.takeLists_report info t

theorem items?_listing (info : ServerInfo) (kind : ListKind) (call : Call σ (List α)) (s : σ) :
    (listing info kind call s).1.items?.isSome = true ↔
      (info.advertises kind.capability = true → ∃ items, (call s).1 = .ok items) := by
  unfold listing
  cases info.advertises kind.capability with
  | false => simp [Listing.items?]
  | true => cases (call s).1 <;> simp [Listing.items?, Except.toOption]

def noted (ask : Ask) (call : Call (σ × ω) α) : Call (σ × ω × List Ask) α := fun (s, w, asked) =>
  let (outcome, s, w) := call (s, w)
  (outcome, s, w, asked ++ [ask])

def noting (c : Connector ω σ) : Connector (ω × List Ask) σ where
  connect launch := fun (w, asked) =>
    let (outcome, w) := c.connect launch w
    (outcome, w, asked ++ [.connect launch])
  handshake := noted .handshake c.handshake
  tools := noted (.list .tools) c.tools
  resources := noted (.list .resources) c.resources
  prompts := noted (.list .prompts) c.prompts

def asksFor (info : ServerInfo) (kinds : List ListKind) : List Ask :=
  (kinds.filter fun kind => info.advertises kind.capability).map .list

theorem takeList_noted (info : ServerInfo) (kind : ListKind) (call : Call (σ × ω) (List α)) (s : σ × ω)
    (asked : List Ask) :
    takeList info kind (noted (.list kind) call) (s.1, s.2, asked) =
      ((takeList info kind call s).1, (takeList info kind call s).2.1, (takeList info kind call s).2.2.1,
        (takeList info kind call s).2.2.2, asked ++ asksFor info [kind]) := by
  unfold takeList
  cases h : info.advertises kind.capability with
  | false => simp [asksFor, h]
  | true =>
    have hasks : asksFor info [kind] = [.list kind] := by simp [asksFor, h]
    rw [hasks]
    obtain ⟨s, w⟩ := s
    simp only [noted]
    obtain ⟨outcome, t⟩ := call (s, w)
    cases outcome <;> rfl

theorem takeLists_noting (c : Connector ω σ) (info : ServerInfo) (s : σ × ω) (asked : List Ask) :
    c.noting.takeLists info (s.1, s.2, asked) =
      ((c.takeLists info s).1, (c.takeLists info s).2.1, (c.takeLists info s).2.2,
        asked ++ asksFor info [.tools, .resources, .prompts]) := by
  have hasks : asksFor info [.tools, .resources, .prompts] =
      asksFor info [.tools] ++ asksFor info [.resources] ++ asksFor info [.prompts] := by
    simp only [asksFor, ← List.map_append, ← List.filter_append]
    rfl
  rw [hasks, ← List.append_assoc, ← List.append_assoc]
  simp only [takeLists, noting, takeList_noted]

section

variable (c : Connector ω σ) (launch : LaunchConfig) (w : ω)

def due : List Ask :=
  .connect launch :: (if (c.connect launch w).1.isOk then [.handshake] else []) ++ match c.greet launch w with
    | .error _ => []
    | .ok (info, _) => asksFor info [.tools, .resources, .prompts]

/-- A session in a world in which the calls are noted is the same session. -/
theorem discover_noting (asked : List Ask) :
    c.noting.discover launch (w, asked) =
      ((c.discover launch w).1, (c.discover launch w).2.1, (c.discover launch w).2.2, asked ++ c.due launch w) := by
  have hconnect : c.noting.connect launch (w, asked) =
      ((c.connect launch w).1, (c.connect launch w).2, asked ++ [.connect launch]) := rfl
  unfold discover due greet
  rw [hconnect]
  obtain ⟨_ | s, w⟩ := c.connect launch w
  · rfl
  · have hhandshake : c.noting.handshake (s, w, asked ++ [.connect launch]) = ((c.handshake (s, w)).1,
        (c.handshake (s, w)).2.1, (c.handshake (s, w)).2.2, asked ++ [.connect launch] ++ [.handshake]) := rfl
    simp only [hhandshake]
    obtain ⟨_ | info, t⟩ := c.handshake (s, w)
    · simp [Except.isOk, Except.toBool]
    · simp only [takeLists_noting]
      simp [Except.isOk, Except.toBool]

def calls : List Ask := (c.noting.discover launch (w, [])).2.2.2

theorem calls_eq : c.calls launch w = c.due launch w := by
  rw [calls, discover_noting, List.nil_append]

theorem status_discover :
    (c.discover launch w).1.result.status = some (match c.greet launch w with
      | .error _ => .failed
      | .ok (info, s) => if (listing info .tools c.tools s).1.items?.isSome then .successful else .failed) := by
  rw [discover_report]
  cases c.greet launch w with
  | error e => rfl
  | ok session => exact (c.offered session.1 session.2).status_report

theorem lastUpdatedAt_discover : (c.discover launch w).1.result.lastUpdatedAt = none := by
  rw [discover_report]
  cases c.greet launch w <;> rfl

theorem successful_iff :
    (c.discover launch w).1.result.status = some .successful ↔
      ∃ info s, c.greet launch w = .ok (info, s) ∧
        (info.advertises "tools" = true → ∃ items, (c.tools s).1 = .ok items) := by
  rw [status_discover]
  cases c.greet launch w with
  | error e => simp
  | ok session =>
    obtain ⟨info, s⟩ := session
    have hread := items?_listing info .tools c.tools s
    simp only [Option.some.injEq, ite_eq_left_iff, reduceCtorEq, imp_false, Classical.not_not, hread, Except.ok.injEq,
      Prod.mk.injEq]
    constructor
    · exact fun h => ⟨info, s, ⟨rfl, rfl⟩, h⟩
    · rintro ⟨_, _, ⟨rfl, rfl⟩, h⟩
      exact h

theorem failure?_discover :
    (c.discover launch w).1.failure? = none ↔ (c.discover launch w).1.result.status = some .successful := by
  rw [discover_report]
  cases c.greet launch w with
  | error e => simp [failure?_unreached, status_unreached]
  | ok session =>
    have hfailed := (c.offered session.1 session.2).failedStep?_report
    have hstatus := (c.offered session.1 session.2).status_report
    simp only [Report.failure?, Option.map_eq_none_iff, hfailed, hstatus]
    cases (c.offered session.1 session.2).tools.items?.isSome <;> simp

theorem fails_discover :
    (c.discover launch w).1.discovered = none ↔ (c.discover launch w).1.Fails "Initialize" := by
  rw [discover_report]
  cases c.greet launch w with
  | error e => exact iff_of_true rfl (fails_unreached e)
  | ok session => exact iff_of_false nofun (c.offered session.1 session.2).fails_report.1

theorem fails_of_discovered {d : Discovered} (h : (c.discover launch w).1.discovered = some d) :
    (d.tools = none ↔ (c.discover launch w).1.Fails "ListTools") ∧
      (d.resources = none ↔ (c.discover launch w).1.Fails "ListResources") ∧
      (d.prompts = none ↔ (c.discover launch w).1.Fails "ListPrompts") := by
  rw [discover_report] at h ⊢
  cases hgreet : c.greet launch w with
  | error e =>
    rw [hgreet] at h
    cases h
  | ok session =>
    rw [hgreet] at h
    obtain rfl := Option.some.inj h
    obtain ⟨-, htools, hresources, hprompts⟩ := (c.offered session.1 session.2).fails_report
    exact ⟨htools.symm, hresources.symm, hprompts.symm⟩

structure Tells (r : Report) : Prop where
  outline : r.outline =
    [("Initialize", true), ("ListTools", true), ("ListResources", false), ("ListPrompts", false)]
  calls : c.calls launch w = c.due launch w
  successful_iff : r.result.status = some .successful ↔
    ∃ info s, c.greet launch w = .ok (info, s) ∧
      (info.advertises "tools" = true → ∃ items, (c.tools s).1 = .ok items)
  passed_iff : r.passed = true ↔ r.result.status = some .successful
  failure_iff : r.failure? = none ↔ r.result.status = some .successful
  discovered_iff : r.discovered = none ↔ r.Fails "Initialize"
  lists : ∀ d ∈ r.discovered, (d.tools = none ↔ r.Fails "ListTools") ∧
    (d.resources = none ↔ r.Fails "ListResources") ∧ (d.prompts = none ↔ r.Fails "ListPrompts")
  status_eq : ∀ resources prompts,
    (Connector.discover { c with resources := resources, prompts := prompts } launch w).1.result.status =
      r.result.status

theorem tells : c.Tells launch w (c.discover launch w).1 := by
  refine ⟨?_, c.calls_eq launch w, c.successful_iff launch w, ?_, c.failure?_discover launch w,
    c.fails_discover launch w, fun d hd => c.fails_of_discovered launch w hd, fun resources prompts => ?_⟩
  · rw [discover_report]
    cases c.greet launch w with
    | error e => exact outline_unreached e
    | ok session => exact Offer.outline_report _
  · rw [Report.passed, decide_eq_true_iff, TestResult.effectiveStatus, status_discover]
    simp
  · rw [status_discover, status_discover]
    rfl

end

end Connector

end ServiceCatalog
