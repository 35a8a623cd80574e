import ServiceCatalog.Proofs.Service.Draft
import ServiceCatalog.Server.Discovery

namespace ServiceCatalog

abbrev Listing (α : Type) := Option (Except String (List α))

namespace Listing

variable {α : Type}

def items? : Listing α → Option (List α)
  | none => some []
  | some outcome => outcome.toOption

def settle [BEq α] (old : Option (List α)) : Listing α → Option (List α)
  | none | some (.ok []) => none
  | some (.ok l) => if old == some l then old else some l
  | some (.error _) => old

theorem over_listPatch [BEq α] (old : Option (List α)) (listing : Listing α) :
    (Discovered.listPatch listing.items?).over old = listing.settle old := by
  cases listing with
  | none => rfl
  | some outcome =>
    cases outcome with
    | error e => rfl
    | ok l => cases l <;> rfl

end Listing

structure Offer where
  server : ServerInfo
  tools : Listing Tool
  resources : Listing Resource
  prompts : Listing Prompt

namespace Offer

def discovered (o : Offer) : Discovered := ⟨o.server, o.tools.items?, o.resources.items?, o.prompts.items?⟩

def instructions? (o : Offer) : Option String := o.server.instructions.filter fun i => !isBlankText i

end Offer

namespace Connector

variable {ω σ α : Type}

def listing (info : ServerInfo) (kind : ListKind) (call : Call σ (List α)) (s : σ) : Listing α × σ :=
  if info.advertises kind.capability then ((call s).1, (call s).2) else (none, s)

def offer (c : Connector ω σ) (launch : LaunchConfig) (w : ω) : Except String Offer :=
  match c.connect launch w with
  | (.error e, _) => .error e
  | (.ok s, w) =>
    match c.handshake (s, w) with
    | (.error e, _) => .error e
    | (.ok info, s) =>
      let (tools, s) := listing info .tools c.tools s
      let (resources, s) := listing info .resources c.resources s
      let (prompts, _) := listing info .prompts c.prompts s
      .ok ⟨info, tools, resources, prompts⟩

theorem takeList_listing (info : ServerInfo) (kind : ListKind) (call : Call σ (List α)) (s : σ) :
    (takeList info kind call s).2 = ((listing info kind call s).1.items?, (listing info kind call s).2) := by
  unfold takeList listing
  cases info.advertises kind.capability with
  | false => rfl
  | true =>
    obtain ⟨outcome, t⟩ := call s
    cases outcome <;> rfl

theorem discovered_takeLists (c : Connector ω σ) (info : ServerInfo) (s : σ × ω) :
    let tools := listing info .tools c.tools s
    let resources := listing info .resources c.resources tools.2
    let prompts := listing info .prompts c.prompts resources.2
    (c.takeLists info s).1.discovered = some (Offer.mk info tools.1 resources.1 prompts.1).discovered := by
  simp only [takeLists, takeList_listing, Offer.discovered]

theorem discover_eq (c : Connector ω σ) (launch : LaunchConfig) (w : ω) :
    (∀ e, c.offer launch w = .error e → (c.discover launch w).1 = unreached e) ∧
      ∀ o, c.offer launch w = .ok o → (c.discover launch w).1.discovered = some o.discovered := by
  unfold offer discover
  generalize c.connect launch w = connected
  obtain ⟨e | s, w⟩ := connected
  · refine ⟨fun e' h => ?_, fun o h => ?_⟩
    · rw [Except.error.inj h]
    · cases h
  · dsimp only
    generalize c.handshake (s, w) = greeted
    obtain ⟨_ | info, t⟩ := greeted
    · refine ⟨fun e' h => ?_, fun o h => ?_⟩
      · rw [Except.error.inj h]
      · cases h
    · refine ⟨fun e' h => ?_, fun o h => ?_⟩
      · cases h
      · rw [← Except.ok.inj h]
        exact c.discovered_takeLists info t

theorem discovered_unreached (e : String) : (unreached e).discovered = none := rfl

theorem failure?_unreached (e : String) : (unreached e).failure? = some e := rfl

end Connector

end ServiceCatalog
