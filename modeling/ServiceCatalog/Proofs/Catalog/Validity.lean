import ServiceCatalog.Proofs.Catalog.Run
import ServiceCatalog.Proofs.Service.Check

namespace ServiceCatalog

theorem FieldPatch.mem_over {α : Type} [BEq α] {old : Option α} {p : FieldPatch α} {a : α} (h : a ∈ p.over old) :
    a ∈ old ∨ p = .set a := by
  cases p with
  | keep => exact .inl h
  | clear => cases h
  | set b =>
    rw [FieldPatch.over] at h
    split at h
    · exact .inl h
    · exact .inr (congrArg set (Option.some.inj h))

namespace Service

structure Valid (policy : DuplicatePolicy) (s : Service) : Prop where
  name : Name.check s.name = .ok ()
  kind : s.kind = .mcp
  sane : ∀ f, ∀ a ∈ s.get f, f.Sane policy s.kind a

variable {policy : DuplicatePolicy} {current next : Service}

theorem Valid.of_get (h : current.Valid policy) (hname : next.name = current.name) (hkind : next.kind = current.kind)
    (hget : ∀ f, next.get f = current.get f) : next.Valid policy := by
  refine ⟨hname ▸ h.name, hkind ▸ h.kind, fun f a ha => ?_⟩
  rw [hget] at ha
  exact hkind ▸ h.sane f a ha

theorem Valid.rename {log : ChangeLog} {p : FieldPatch String} {renamed : ChangeLog × Service}
    (h : current.Valid policy) (hp : ∀ name, p = .set name → Name.check name = .ok ())
    (hname : current.rename log p = .ok renamed) : renamed.2.Valid policy := by
  have hget (f : Field) : renamed.2.get f = current.get f :=
    rename_frame (·.get f) (fun _ _ _ => by cases f <;> rfl) hname
  have hkind : renamed.2.kind = current.kind := rename_frame (·.kind) (fun _ _ _ => rfl) hname
  refine ⟨?_, hkind.trans h.kind, fun f a ha => ?_⟩
  · rcases rename_cases hname with ⟨-, hsame⟩ | ⟨hset, -⟩
    · rw [hsame]
      exact h.name
    · exact hp _ hset
  · rw [hget] at ha
    rw [hkind]
    exact h.sane f a ha

theorem Valid.patchFields {p : Patch} {state : ChangeLog × Service} (h : state.2.Valid policy)
    (hp : ∀ f a, p.get f = .set a → f.Sane policy state.2.kind a) : (patchFields p state).2.Valid policy := by
  have hkind : (Service.patchFields p state).2.kind = state.2.kind :=
    patchFields_frame (·.kind) p (fun _ f _ => by cases f <;> rfl) state
  have hname : (Service.patchFields p state).2.name = state.2.name :=
    patchFields_frame (·.name) p (fun _ f _ => by cases f <;> rfl) state
  refine ⟨by rw [hname]; exact h.name, hkind.trans h.kind, fun f a ha => ?_⟩
  rw [patchFields_get] at ha
  rw [hkind]
  rcases FieldPatch.mem_over ha with hold | hset
  · exact h.sane f a hold
  · exact hp f a hset

theorem Drafted.valid {asked : Patch → Prop} {log : ChangeLog} (h : Drafted policy asked current next log)
    (hcurrent : current.Valid policy) : next.Valid policy := by
  cases h with
  | @patched p renamed log _ _ _ hcheck hname hfields =>
    obtain ⟨-, -, hnames, hsane⟩ := checkPatch_eq_ok.1 hcheck
    have hkind : renamed.2.kind = current.kind := rename_frame (·.kind) (fun _ _ _ => rfl) hname
    have hnext := (hcurrent.rename hnames hname).patchFields (p := p) (hkind ▸ hsane)
    rwa [hfields] at hnext
  | marked | followed | unfollowed | tested => exact hcurrent.of_get rfl rfl fun f => by cases f <;> rfl

theorem Revised.valid {asked : Patch → Prop} {actor : Actor} {s : Service} {change : ChangeDescription}
    {log : ChangeLog} (h : Revised policy asked actor current s change next log) (hcurrent : current.Valid policy) :
    s.Valid policy := by
  rw [h.released]
  exact (h.drafted.valid hcurrent).of_get rfl rfl fun f => by cases f <;> rfl

end Service

theorem Registration.valid {policy : DuplicatePolicy} {r : Registration} (h : r.check policy = .ok ()) (id : Uuid)
    (actor : Actor) : (r.service id actor).Valid policy := by
  obtain ⟨hname, hkind, -, hsane⟩ := check_eq_ok.1 h
  refine ⟨hname, hkind, fun f a ha => hsane f a ?_⟩
  cases f <;> exact FieldPatch.ofOption_eq_set.2 ha

namespace Catalog.State

/-- Over any run from a catalog without records, every state of every service is valid. -/
theorem run_valid (files : Files) (settings : Settings) (file : Option Path) (steps : List (Actor × Mutation)) :
    ∀ x ∈ ((start files settings file).run steps).records.list, ∀ s ∈ x.states, s.Valid settings.policy :=
  run_states settings (fun hcheck => Registration.valid hcheck) (fun hrevised => hrevised.valid) files file steps

def registeredAndEquipped : List (Actor × Mutation) :=
  [(⟨"ann", .manual, 1⟩, .create (.ofConnection "probe" (.ofLaunch (.ofCommand "run"))) ⟨1⟩),
    (⟨"ben", .manual, 2⟩,
      .update ⟨1⟩ { Patch.empty with availableTools := .set [.ofName "dig", .ofName "dig"] } none),
    (⟨"ben", .manual, 3⟩,
      .update ⟨1⟩ { Patch.empty with availableTools := .set [.ofName "dig", .ofName "fill"] } none),
    (⟨"cam", .automated, 4⟩, .delete ⟨1⟩)]

theorem run_valid_equipped :
    ∃ x ∈ ((start (.empty []) ⟨.reject, 10⟩ none).run registeredAndEquipped).records.list,
      x.states.map (fun s => (s.version.tenths, s.toolList.map Tool.name))
          = [(1, []), (2, ["dig", "fill"]), (3, ["dig", "fill"])] ∧
        ∀ s ∈ x.states, s.Valid .reject := by
  have hexists : ∃ x ∈ ((start (.empty []) ⟨.reject, 10⟩ none).run registeredAndEquipped).records.list,
      x.states.map (fun s => (s.version.tenths, s.toolList.map Tool.name))
        = [(1, []), (2, ["dig", "fill"]), (3, ["dig", "fill"])] := by
    decide +kernel
  obtain ⟨x, hx, hstates⟩ := hexists
  exact ⟨x, hx, hstates, run_valid _ ⟨.reject, 10⟩ _ _ x hx⟩

end Catalog.State

end ServiceCatalog
