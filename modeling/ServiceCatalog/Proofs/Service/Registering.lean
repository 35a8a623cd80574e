import ServiceCatalog.Proofs.Service.Updating

namespace ServiceCatalog

theorem FieldPatch.over_set {α : Type} [BEq α] [ReflBEq α] (old : Option α) (a : α) :
    ∃ b, (FieldPatch.set a).over old = some b ∧ (b == a) = true := by
  cases old with
  | none => exact ⟨a, rfl, BEq.rfl⟩
  | some b =>
    by_cases hsame : (some b == some a) = true
    · exact ⟨b, if_pos hsame, hsame⟩
    · exact ⟨a, if_neg hsame, BEq.rfl⟩

namespace Registration

def get (r : Registration) : (f : Field) → Option f.Content
  | .displayName => r.displayName
  | .description => r.description
  | .serverInstructions => r.serverInstructions
  | .connection => r.connection
  | .availableTools => r.availableTools
  | .availableResources => r.availableResources
  | .availablePrompts => r.availablePrompts
  | .tags => r.tags
  | .owners => r.owners
  | .domains => r.domains
  | .dataProducts => r.dataProducts
  | .pipelines => none

theorem get_patch (r : Registration) (f : Field) : r.patch.get f = .ofOption (r.get f) := by cases f <;> rfl

theorem get_service (r : Registration) (id : Uuid) (actor : Actor) (f : Field) :
    (r.service id actor).get f = r.get f := by
  cases f <;> rfl

structure Met (r : Registration) (old? : Option Service) (s : Service) : Prop where
  name : s.name = r.name
  kind : s.kind = r.kind
  supplied : ∀ f a, r.get f = some a → ∃ b, s.get f = some b ∧ (b == a) = true
  omitted : ∀ f, r.get f = none → s.get f = old?.bind (·.get f)
  followers : s.followers = old?.bind (·.followers)
  testResult : s.testResult = old?.bind (·.testResult)
  deleted : s.deleted = old?.bind (·.deleted)

structure Fulfilled (policy : DuplicatePolicy) (r : Registration) (s : Service) : Prop where
  checked : r.check policy = .ok ()
  live : s.isDeleted = false
  kind : s.kind = r.kind
  settled : ∀ f, (r.patch.get f).over (s.get f) = s.get f

variable {policy : DuplicatePolicy} {r : Registration} {current : Service}

theorem checkPatch_of_check (hcheck : r.check policy = .ok ()) (hkind : current.kind = r.kind) :
    current.checkPatch policy r.patch = .ok () := by
  obtain ⟨-, -, -, hsane⟩ := check_eq_ok.1 hcheck
  apply Service.checkPatch_eq_ok.2
  refine ⟨nofun, ?_, nofun, ?_⟩
  · rintro kind ⟨⟩
    exact hkind.symm
  · rwa [hkind]

theorem check_iff_checkPatch (hkind : current.kind = .mcp) :
    r.check policy = .ok () ↔
      Name.check r.name = .ok () ∧ r.connection ≠ none ∧ current.checkPatch policy r.patch = .ok () := by
  constructor
  · intro hcheck
    obtain ⟨hname, hmcp, hconnection, -⟩ := check_eq_ok.1 hcheck
    exact ⟨hname, hconnection, checkPatch_of_check hcheck (hkind.trans hmcp.symm)⟩
  · rintro ⟨hname, hconnection, hpatch⟩
    obtain ⟨-, hsame, -, hsane⟩ := Service.checkPatch_eq_ok.1 hpatch
    have hmcp : r.kind = current.kind := hsame r.kind rfl
    rw [← hmcp] at hsane
    exact check_eq_ok.2 ⟨hname, hmcp.trans hkind, hconnection, hsane⟩

theorem Fulfilled.update (h : r.Fulfilled policy current) (actor : Actor) :
    current.update policy actor r.patch = .ok (.unchanged current) :=
  Service.update_unchanged (checkPatch_of_check h.checked h.kind) (.inl rfl) h.settled actor

theorem met_service (r : Registration) (id : Uuid) (actor : Actor) : r.Met none (r.service id actor) := by
  refine ⟨rfl, rfl, fun f a h => ⟨a, ?_, BEq.rfl⟩, fun f h => ?_, rfl, rfl, rfl⟩
  · rw [get_service, h]
  · rw [get_service, h]
    rfl

theorem fulfilled_service (hcheck : r.check policy = .ok ()) (id : Uuid) (actor : Actor) :
    r.Fulfilled policy (r.service id actor) := by
  refine ⟨hcheck, rfl, rfl, fun f => ?_⟩
  rw [get_patch, get_service]
  cases r.get f with
  | none => rfl
  | some a => exact if_pos BEq.rfl

variable {actor : Actor} {u : Update} (h : current.update policy actor r.patch = .ok u)
include h

theorem kind_of_update : u.service.kind = r.kind := by
  have hkind := (Service.checkPatch_eq_ok.1 (Service.update_cases h).1).2.1 r.kind rfl
  exact (congrArg Prod.snd (Service.update_settles h).1).trans hkind.symm

theorem met_update (hname : current.name = r.name) : r.Met (some current) u.service := by
  have hbody : u.service.body = (current.patched r.patch).body := Service.update_body rfl h
  have hget (f : Field) : u.service.get f = (r.patch.get f).over (current.get f) := by
    rw [Service.get_of_body hbody, Service.get_patched]
  refine ⟨(congrArg (·.name) hbody).trans hname, kind_of_update h, fun f a hf => ?_, fun f hf => ?_,
    congrArg (·.followers) hbody, congrArg (·.testResult) hbody, congrArg (·.deleted) hbody⟩
  · rw [hget, get_patch, hf]
    exact FieldPatch.over_set ..
  · rw [hget, get_patch, hf]
    rfl

theorem fulfilled_update (hcheck : r.check policy = .ok ()) (hlive : current.isDeleted = false) :
    r.Fulfilled policy u.service := by
  have hbody : u.service.body = (current.patched r.patch).body := Service.update_body rfl h
  refine ⟨hcheck, ?_, kind_of_update h, (Service.update_settles h).2.2⟩
  rw [← hlive]
  exact congrArg (·.isDeleted) hbody

end Registration

end ServiceCatalog
