import ServiceCatalog.Proofs.Service.Draft

namespace ServiceCatalog

namespace ChangeLog

variable {α : Type} [Wire α] [BEq α] (log : ChangeLog) (name : String)

@[simp]
theorem replace_step (old new : α) : (log.replace name old new).1.step = log.step := by
  simp only [replace]
  cases old == new <;> rfl

@[simp]
theorem apply_step (old : Option α) (p : FieldPatch α) : (log.apply name old p).1.step = log.step := by
  cases p with
  | keep => rfl
  | clear => cases old <;> rfl
  | set b =>
    cases old with
    | none => rfl
    | some a =>
      simp only [apply]
      cases a == b <;> rfl

end ChangeLog

theorem loses_iff {α : Type} {key : α → String} {before after : List α} :
    loses (before.map key) (after.map key) = true ↔ ∃ a ∈ before, ∀ a' ∈ after, key a' ≠ key a := by
  simp [loses]

namespace Service

def Drops (prev next : Service) : Prop :=
  (∃ t ∈ prev.toolList, ∀ t' ∈ next.toolList, t'.name ≠ t.name) ∨
    (∃ r ∈ prev.resourceList, ∀ r' ∈ next.resourceList, r'.uri ≠ r.uri) ∨
    ∃ p ∈ prev.promptList, ∀ p' ∈ next.promptList, p'.name ≠ p.name

theorem losesCapabilities_iff {prev next : Service} : prev.losesCapabilities next = true ↔ prev.Drops next := by
  simp only [losesCapabilities, Bool.or_eq_true, loses_iff, or_assoc, Drops]

instance (prev next : Service) : Decidable (prev.Drops next) := decidable_of_iff _ losesCapabilities_iff

def stride (prev next : Service) : Nat := if prev.Drops next then 10 else 1

def Strides (prev next : Service) : Prop := next.version.tenths.toNat = prev.version.tenths.toNat + prev.stride next

def atVersion (s : Service) (v : Version) : Service := { s with version := v }

@[simp]
theorem atVersion_self (s : Service) : s.atVersion s.version = s := rfl

@[simp]
theorem isDeleted_atVersion (s : Service) (v : Version) : (s.atVersion v).isDeleted = s.isDeleted := rfl

theorem stride_eq_one {prev next : Service} (htools : next.toolList = prev.toolList)
    (hresources : next.resourceList = prev.resourceList) (hprompts : next.promptList = prev.promptList) :
    prev.stride next = 1 := by
  apply if_neg
  rintro (⟨t, ht, hne⟩ | ⟨r, hr, hne⟩ | ⟨p, hp, hne⟩)
  · exact hne t (htools ▸ ht) rfl
  · exact hne r (hresources ▸ hr) rfl
  · exact hne p (hprompts ▸ hp) rfl

theorem patchFields_step (p : Patch) (state : ChangeLog × Service) :
    (patchFields p state).1.step = state.1.step := by
  unfold patchFields
  generalize Field.all = fields
  induction fields generalizing state with
  | nil => rfl
  | cons f fields ih => rw [List.foldl_cons, ih, patchField, ChangeLog.apply_step]

theorem rename_step {current : Service} {log : ChangeLog} {p : FieldPatch String} {renamed : ChangeLog × Service}
    (h : current.rename log p = .ok renamed) : renamed.1.step = log.step := by
  cases p with
  | keep =>
    cases h
    rfl
  | clear => cases h
  | set name =>
    have hrenamed := congrArg (·.1.step) (Except.ok.inj h)
    exact hrenamed.symm.trans (log.replace_step ..)

variable {policy : DuplicatePolicy} {asked : Patch → Prop} {current next : Service} {log : ChangeLog}

theorem step_tenths_of_patch {p : Patch} {renamed : ChangeLog × Service}
    (hname : current.rename .empty p.name = .ok renamed) (hfields : patchFields p renamed = (log, next)) :
    (if current.losesCapabilities next then log.escalate .major else log).step.tenths = current.stride next := by
  have hstep : log.step = .minor := by
    have hpatched := patchFields_step p renamed
    rw [hfields, rename_step hname] at hpatched
    exact hpatched
  by_cases hdrops : current.Drops next
  · rw [stride, if_pos hdrops, if_pos (losesCapabilities_iff.2 hdrops), ChangeLog.escalate, hstep]
    rfl
  · rw [stride, if_neg hdrops, if_neg (mt losesCapabilities_iff.1 hdrops), hstep]
    rfl

theorem Drafted.step_tenths (h : Drafted policy asked current next log) :
    log.step.tenths = current.stride next := by
  cases h with
  | patched _ _ _ hname hfields => exact step_tenths_of_patch hname hfields
  | marked deleted =>
    rw [ChangeLog.replace_step]
    exact (stride_eq_one rfl rfl rfl).symm
  | followed | unfollowed => exact (stride_eq_one rfl rfl rfl).symm
  | tested result =>
    rw [ChangeLog.apply_step]
    exact (stride_eq_one rfl rfl rfl).symm

theorem Revised.strides {actor : Actor} {s : Service} {change : ChangeDescription}
    (h : Revised policy asked actor current s change next log) : current.Strides s := by
  have hstride : current.stride s = current.stride next := by
    rw [h.released]
    rfl
  rw [Strides, hstride, ← h.drafted.step_tenths]
  exact VersionStep.next?_eq_some h.stepped

end Service

end ServiceCatalog
