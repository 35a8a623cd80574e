import ServiceCatalog.Proofs.Catalog.Answer
import ServiceCatalog.Proofs.Catalog.Run
import ServiceCatalog.Proofs.Server.Offer
import ServiceCatalog.Proofs.Service.Patching

namespace ServiceCatalog

namespace Service

def settled (s : Service) (o : Offer) : Service :=
  { s with
    availableTools := o.tools.settle s.availableTools
    availableResources := o.resources.settle s.availableResources
    availablePrompts := o.prompts.settle s.availablePrompts
    serverInstructions := o.instructions?.or s.serverInstructions }

theorem patched_discovered (s : Service) (o : Offer) : s.patched o.discovered.patch = s.settled o := by
  have hinstructions : (FieldPatch.ofOption o.instructions?).over s.serverInstructions
      = o.instructions?.or s.serverInstructions := by
    cases o.instructions? with
    | none => rfl
    | some text =>
      by_cases h : s.serverInstructions = some text <;> simp [FieldPatch.ofOption, FieldPatch.over, h]
  unfold patched settled
  rw [← Listing.over_listPatch, ← Listing.over_listPatch, ← Listing.over_listPatch, ← hinstructions]
  rfl

end Service

namespace Mutation

variable {ω σ : Type}

def discovery (c : Connector ω σ) (w : ω) (id : Uuid) : Mutation := .discover id fun launch => (c.discover launch w).1

theorem effect_discovery (c : Connector ω σ) (w : ω) (settings : Settings) {records : Records} (actor : Actor)
    {id : Uuid} {current : Service} {launch : LaunchConfig} (hget : records.get? id = some current)
    (hlive : current.isDeleted = false) (hlaunch : current.launch? = some launch) :
    (discovery c w id).effect settings records actor =
      match c.offer launch w with
      | .error e => .error (.unreachable current.qualifiedName e)
      | .ok o => Effect.patch settings actor current o.discovered.patch := by
  have hload : Effect.loadLive records id = .ok current := Effect.loadLive_eq_ok.2 ⟨hget, hlive⟩
  have hlaunchable := Effect.launchable_eq_ok.2 ⟨hget, hlive, hlaunch⟩
  obtain ⟨hfailed, hoffered⟩ := c.discover_eq launch w
  simp only [discovery, effect_discover, Effect.learn, hlaunchable, Outcome.ok_bind]
  cases hoffer : c.offer launch w with
  | error e =>
    rw [hfailed e hoffer]
    simp only [Connector.discovered_unreached, Connector.failure?_unreached, Option.getD_some]
  | ok o =>
    rw [hoffered o hoffer]
    simp only [Effect.update_some settings hget, if_true, Effect.update_none, hload, Outcome.ok_bind]

end Mutation

namespace Catalog.State

/-- Whatever the server does: if no session begins nothing changes, and a discovery that succeeds leaves the
service as the offer settles it, so that the same discovery finds nothing to do. -/
theorem discovery_settles {ω σ : Type} (c : Connector ω σ) (w : ω) {s : State} {id : Uuid} {current : Service}
    {launch : LaunchConfig} (hget : s.records.get? id = some current) (hlive : current.isDeleted = false)
    (hlaunch : current.launch? = some launch) (actor : Actor) :
    (∀ e, c.offer launch w = .error e →
        s.step actor (.discovery c w id) = (s, .error (.unreachable current.qualifiedName e))) ∧
      ∀ o, c.offer launch w = .ok o → ∀ effect, (s.step actor (.discovery c w id)).2 = .ok effect →
        let after := (s.step actor (.discovery c w id)).1
        ∃ next, after.records.get? id = some next ∧ next.body = (current.settled o).body ∧
          ∀ later, after.step later (.discovery c w id) = (after, .ok (.unchanged next)) := by
  have heffect := Mutation.effect_discovery c w s.catalog.settings actor hget hlive hlaunch
  refine ⟨fun e he => ?_, fun o ho effect hok => ?_⟩
  · rw [he] at heffect
    exact step_of_error (answer_of_error heffect)
  · intro after
    rw [ho] at heffect
    obtain ⟨u, hu, rfl⟩ := Outcome.map_eq_ok.1 (heffect.symm.trans (effect_of_step hok))
    have hid : u.service.id = id :=
      (congrArg Prod.fst (Service.update_settles hu).1).trans (Records.id_of_get? hget)
    have hnext : after.records.get? id = some u.service := by
      have hstored := get?_of_step hok (Effect.ofUpdate_ne_removed _ _)
      rwa [Effect.service_ofUpdate, hid] at hstored
    have hbody : u.service.body = (current.settled o).body := by
      rw [← Service.patched_discovered]
      exact Service.update_body rfl hu
    have hlive' : u.service.isDeleted = false := (congrArg Service.isDeleted hbody).trans hlive
    have hlaunch' : u.service.launch? = some launch := (congrArg Service.launch? hbody).trans hlaunch
    refine ⟨u.service, hnext, hbody, fun later => ?_⟩
    apply step_of_noop
    rw [Mutation.effect_discovery c w after.catalog.settings later hnext hlive' hlaunch', ho]
    refine Outcome.map_eq_ok.2 ⟨.unchanged u.service, ?_, rfl⟩
    rw [step_settings]
    exact Service.update_again hu later

def zeroTool (negative : Bool) : Tool :=
  { Tool.ofName "dig" with
    inputSchema := some (.ofTree (.float (if negative then Binary64.zero.neg else .zero))) }

def zeroRequest : Registration :=
  { Registration.ofConnection "probe" (.ofLaunch (.ofCommand "run")) with
    availableTools := some [zeroTool false], availableResources := some [.ofUri "file:///a"] }

def zeroed : State :=
  (start (.empty []) ⟨.reject, 10⟩ none).run [(⟨"ann", .manual, 1⟩, .create zeroRequest ⟨1⟩)]

def zeroService : Service := zeroRequest.service ⟨1⟩ ⟨"ann", .manual, 1⟩

def listingTools (tools : List Tool) : Connector Unit Unit where
  connect _ w := (.ok (), w)
  handshake s := (.ok { ServerInfo.empty with instructions := some "Dig deep." }, s)
  tools s := (.ok tools, s)
  resources s := (.error "busy", s)
  prompts s := (.ok [], s)

theorem discovery_settles_zeroed :
    let found := Mutation.discovery (listingTools [.ofName "sift"]) () ⟨1⟩
    let after := zeroed.step ⟨"ben", .manual, 2⟩ found
    zeroed.records.get? ⟨1⟩ = some zeroService ∧ zeroService.isDeleted = false ∧
      zeroService.launch? = some (.ofCommand "run") ∧ (∃ effect, after.2 = .ok effect) ∧
      ∃ next : Service, after.1.records.get? ⟨1⟩ = some next ∧
        next.body = { zeroService with
          availableTools := some [.ofName "sift"], serverInstructions := some "Dig deep." }.body ∧
        after.1.step ⟨"cid", .manual, 3⟩ found = (after.1, .ok (.unchanged next)) := by
  intro found after
  have hget : zeroed.records.get? ⟨1⟩ = some zeroService := by rfl
  have hlive : zeroService.isDeleted = false := by rfl
  have hlaunch : zeroService.launch? = some (.ofCommand "run") := by rfl
  obtain ⟨effect, heffect⟩ : ∃ effect, after.2 = .ok effect := Outcome.exists_ok (by decide +kernel)
  obtain ⟨-, hsettles⟩ := discovery_settles (listingTools [.ofName "sift"]) () hget hlive hlaunch ⟨"ben", .manual, 2⟩
  obtain ⟨next, hnext, hbody, hagain⟩ := hsettles _ rfl effect heffect
  exact ⟨hget, hlive, hlaunch, ⟨effect, heffect⟩, next, hnext, hbody, hagain _⟩

def sign? (t : Tool) : Option Bool :=
  t.inputSchema.bind fun v => match v.tree with
    | .float x => some x.negative
    | _ => none

/-- A list that differs from the stored one in the sign of a zero is offered, and does not come to be stored. -/
theorem discovery_keeps_zero :
    let after := zeroed.step ⟨"ben", .manual, 2⟩ (.discovery (listingTools [zeroTool true]) () ⟨1⟩)
    zeroed.records.get? ⟨1⟩ = some zeroService ∧ zeroService.isDeleted = false ∧
      zeroService.launch? = some (.ofCommand "run") ∧
      (∃ o, (listingTools [zeroTool true]).offer (.ofCommand "run") () = .ok o ∧ o.tools = some (.ok [zeroTool true])) ∧
      (∃ effect, after.2 = .ok effect) ∧
      ∃ next : Service, after.1.records.get? ⟨1⟩ = some next ∧ next.availableTools ≠ some [zeroTool true] := by
  intro after
  have hok : ∃ effect, after.2 = .ok effect := Outcome.exists_ok (by decide +kernel)
  have hsigns : (after.1.records.get? ⟨1⟩).map (fun s => s.toolList.map sign?) = some [some false] := by
    decide +kernel
  obtain ⟨next, hnext, hsigns⟩ := Option.map_eq_some_iff.1 hsigns
  refine ⟨by rfl, by rfl, by rfl, ⟨_, rfl, rfl⟩, hok, next, hnext, fun htools => ?_⟩
  rw [Service.toolList, htools] at hsigns
  exact absurd hsigns (by decide +kernel)

end Catalog.State

end ServiceCatalog
