import ServiceCatalog.Proofs.Service.Check
import ServiceCatalog.Proofs.Service.Patching
import ServiceCatalog.Proofs.Service.Stepping

namespace ServiceCatalog

namespace Outcome

variable {α β : Type}

def Validates (x : Outcome α) : Prop := ∀ e, x = .error e → ∃ v, e = .invalid v

theorem validates_ok (a : α) : Validates (.ok a : Outcome α) := nofun

theorem validates_invalid (v : Violation) : Validates (.error (.invalid v) : Outcome α) := by
  rintro _ ⟨⟩
  exact ⟨v, rfl⟩

theorem validates_lift {ε : Type} (f : ε → Violation) (x : Except ε α) : Validates (Outcome.lift f x) := by
  cases x with
  | ok a => exact validates_ok a
  | error e => exact validates_invalid (f e)

theorem validates_checked {check : α → Outcome Unit} (h : ∀ a, (check a).Validates) (p : FieldPatch α) :
    Validates (p.checked check) := by
  cases p with
  | keep | clear => exact validates_ok ()
  | set a => exact h a

theorem Validates.bind {x : Outcome α} {f : α → Outcome β} (hx : x.Validates) (hf : ∀ a, (f a).Validates) :
    Validates (x >>= f) := by
  cases x with
  | ok a => exact hf a
  | error e =>
    rintro _ ⟨⟩
    exact hx e rfl

end Outcome

def FieldPatch.restating {α : Type} : Option α → FieldPatch α
  | none => .clear
  | some a => .set a

namespace Patch

def Changes (p : Patch) (s : Service) : Prop :=
  (∃ name, p.name = .set name ∧ name ≠ s.name) ∨ ∃ f, (p.get f).over (s.get f) ≠ s.get f

structure Restates (p : Patch) (s : Service) : Prop where
  name : p.name = .keep ∨ p.name = .set s.name
  field : ∀ f, p.get f = .keep ∨ p.get f = .restating (s.get f)

inductive Refused (policy : DuplicatePolicy) (s : Service) (p : Patch) : Prop
  | id {id : Uuid} (h : p.id = some id) (hother : id ≠ s.id)
  | kind {kind : ServiceKind} (h : p.kind = some kind) (hother : kind ≠ s.kind)
  | cleared (h : p.name = .clear)
  | name {name : String} (h : p.name = .set name) (hinvalid : Name.check name ≠ .ok ())
  | field {f : Field} {a : f.Content} (h : p.get f = .set a) (hinvalid : ¬ f.Sane policy s.kind a)
  | exhausted (h : p.Changes s) (hroom : UInt32.size ≤ s.version.tenths.toNat + s.stride (s.patched p))

section

variable {p : Patch} {s : Service} (h : ¬ p.Changes s)
include h

theorem name_of_not_changes {name : String} (hname : p.name = .set name) : name = s.name := by
  by_contra hother
  exact h (.inl ⟨name, hname, hother⟩)

theorem over_of_not_changes (f : Field) : (p.get f).over (s.get f) = s.get f := by
  by_contra hother
  exact h (.inr ⟨f, hother⟩)

end

theorem Restates.not_changes {p : Patch} {s : Service} (h : p.Restates s) : ¬ p.Changes s := by
  rintro (⟨name, hset, hother⟩ | ⟨f, hf⟩)
  · rcases h.name with hkeep | hsame
    · rw [hset] at hkeep
      cases hkeep
    · exact hother (FieldPatch.set.inj (hset.symm.trans hsame))
  · apply hf
    rcases h.field f with hkeep | hsame
    · rw [hkeep]
      rfl
    · rw [hsame]
      cases s.get f with
      | none => rfl
      | some a => exact if_pos BEq.rfl

end Patch

namespace Service

def named (s : Service) : FieldPatch String → Service
  | .set name => { s with name := name, qualifiedName := Name.qualify name }
  | _ => s

def amended (s : Service) (p : Patch) : Service := (s.named p.name).patched p

theorem get_patched (s : Service) (p : Patch) (f : Field) : (s.patched p).get f = (p.get f).over (s.get f) := by
  cases f <;> rfl

theorem get_named (s : Service) (q : FieldPatch String) (f : Field) : (s.named q).get f = s.get f := by
  cases q <;> cases f <;> rfl

theorem get_amended (s : Service) (p : Patch) (f : Field) : (s.amended p).get f = (p.get f).over (s.get f) := by
  rw [amended, get_patched, get_named]

theorem stride_amended (s t : Service) (p : Patch) : t.stride (s.amended p) = t.stride (s.patched p) := by
  unfold amended
  cases p.name <;> rfl

theorem rename_named (current : Service) (log : ChangeLog) {q : FieldPatch String} (h : q ≠ .clear) :
    ∃ renamed, current.rename log q = .ok (renamed, current.named q) := by
  cases q with
  | keep => exact ⟨log, rfl⟩
  | clear => exact absurd rfl h
  | set name =>
    refine ⟨(log.replace "name" current.name name).1, ?_⟩
    simp only [rename, named, ChangeLog.replace_content]

variable {policy : DuplicatePolicy} {actor : Actor} {current : Service} {p : Patch}

theorem not_changes_of_isEmpty {renamed : ChangeLog × Service} (hname : current.rename .empty p.name = .ok renamed)
    (hempty : (patchFields p renamed).1.isEmpty = true) : ¬ p.Changes current := by
  obtain ⟨hlog, hsame⟩ := patchFields_isEmpty hempty
  rintro (⟨name, hset, hother⟩ | ⟨f, hf⟩)
  · rcases rename_isEmpty hname hlog with hkeep | hset'
    · rw [hset] at hkeep
      cases hkeep
    · exact hother (FieldPatch.set.inj (hset.symm.trans hset'))
  · have hrenamed : renamed.2.get f = current.get f :=
      rename_frame (·.get f) (fun _ _ _ => by cases f <;> rfl) hname
    have hget := patchFields_get p renamed f
    rw [hsame, hrenamed] at hget
    exact hf hget.symm

theorem update_of_not_changes (hcheck : current.checkPatch policy p = .ok ()) (hname : p.name ≠ .clear)
    (hchanges : ¬ p.Changes current) (actor : Actor) : current.update policy actor p = .ok (.unchanged current) := by
  refine update_unchanged hcheck ?_ (Patch.over_of_not_changes hchanges) actor
  cases hp : p.name with
  | keep => exact .inl rfl
  | clear => exact absurd hp hname
  | set name => exact .inr (congrArg _ (Patch.name_of_not_changes hchanges hp))

theorem update_of_changes (hcheck : current.checkPatch policy p = .ok ()) (hname : p.name ≠ .clear)
    (hchanges : p.Changes current) (actor : Actor) :
    ∃ log : ChangeLog, log.isEmpty = false ∧ log.step.tenths = current.stride (current.patched p) ∧
      current.update policy actor p = current.commit (current.amended p) log actor := by
  obtain ⟨renamed, hrename⟩ := rename_named current .empty hname
  obtain ⟨log, next, hfields⟩ :
      ∃ log next, patchFields p (renamed, current.named p.name) = (log, next) := ⟨_, _, rfl⟩
  have hnext : next = current.amended p := by
    rw [amended, ← patchFields_patched p (renamed, current.named p.name), hfields]
  have hlog : log.isEmpty = false := by
    apply Bool.eq_false_of_not_eq_true
    intro hempty
    refine not_changes_of_isEmpty hrename ?_ hchanges
    rw [hfields]
    exact hempty
  refine ⟨if current.losesCapabilities next then log.escalate .major else log, ?_, ?_, ?_⟩
  · split <;> exact hlog
  · rw [step_tenths_of_patch hrename hfields, hnext, stride_amended]
  · rw [update, hcheck, Outcome.ok_bind, hrename, Outcome.ok_bind, hfields, ← hnext]

theorem update_of_room (hcheck : current.checkPatch policy p = .ok ()) (hname : p.name ≠ .clear)
    (hchanges : p.Changes current)
    (hroom : current.version.tenths.toNat + current.stride (current.patched p) < UInt32.size) (actor : Actor) :
    ∃ v change, v.tenths.toNat = current.version.tenths.toNat + current.stride (current.patched p) ∧
      current.update policy actor p = .ok ⟨(current.amended p).asVersion v actor change, some change⟩ := by
  obtain ⟨log, hlog, hstep, hcommit⟩ := update_of_changes hcheck hname hchanges actor
  rw [← hstep] at hroom ⊢
  rw [hcommit]
  exact exists_commit current (current.amended p) log actor hlog hroom

theorem update_of_exhausted (hcheck : current.checkPatch policy p = .ok ()) (hname : p.name ≠ .clear)
    (hchanges : p.Changes current)
    (hroom : UInt32.size ≤ current.version.tenths.toNat + current.stride (current.patched p)) (actor : Actor) :
    current.update policy actor p = .error (.invalid (.versionExhausted current.version current.qualifiedName)) := by
  obtain ⟨log, hlog, hstep, hcommit⟩ := update_of_changes hcheck hname hchanges actor
  rw [← hstep] at hroom
  rw [hcommit, commit_exhausted hlog hroom]

theorem update_of_clear (hcheck : current.checkPatch policy p = .ok ()) (hname : p.name = .clear) (actor : Actor) :
    current.update policy actor p = .error (.invalid .nameCleared) := by
  rw [update, hcheck, Outcome.ok_bind, hname]
  rfl

theorem update_of_check_error {e : CatalogError} (hcheck : current.checkPatch policy p = .error e) (actor : Actor) :
    current.update policy actor p = .error e := by
  rw [update, hcheck]
  rfl

theorem checkPatch_validates (policy : DuplicatePolicy) (current : Service) (p : Patch) :
    (current.checkPatch policy p).Validates := by
  rw [checkPatch_eq]
  split
  · exact Outcome.validates_invalid _
  apply Outcome.Validates.bind
  · cases p.kind with
    | none => exact Outcome.validates_ok _
    | some kind =>
      rw [Option.elim_some]
      split
      · exact Outcome.validates_invalid _
      · exact Outcome.validates_ok _
  intro _
  apply Outcome.Validates.bind (Outcome.validates_checked (fun _ => Outcome.validates_lift _ _) _)
  intro _
  apply Outcome.Validates.bind (Outcome.validates_checked (fun _ => Outcome.validates_lift _ _) _)
  intro _
  apply Outcome.Validates.bind (Outcome.validates_lift _ _)
  intro _
  exact Outcome.validates_checked (fun _ => Outcome.validates_lift _ _) _

end Service

theorem Patch.not_refused_iff {policy : DuplicatePolicy} {s : Service} {p : Patch} :
    ¬ p.Refused policy s ↔ s.checkPatch policy p = .ok () ∧ p.name ≠ .clear ∧
      (p.Changes s → s.version.tenths.toNat + s.stride (s.patched p) < UInt32.size) := by
  rw [Service.checkPatch_eq_ok]
  constructor
  · intro h
    refine ⟨⟨?_, ?_, ?_, ?_⟩, fun hname => h (.cleared hname), ?_⟩
    · intro id hid
      by_contra hother
      exact h (.id hid hother)
    · intro kind hkind
      by_contra hother
      exact h (.kind hkind hother)
    · intro name hname
      by_contra hinvalid
      exact h (.name hname hinvalid)
    · intro f a ha
      by_contra hinvalid
      exact h (.field ha hinvalid)
    · intro hchanges
      by_contra hroom
      exact h (.exhausted hchanges (Nat.not_lt.1 hroom))
  · rintro ⟨⟨hid, hkind, hname, hfield⟩, hcleared, hroom⟩ hrefused
    cases hrefused with
    | id h hother => exact hother (hid _ h)
    | kind h hother => exact hother (hkind _ h)
    | cleared h => exact hcleared h
    | name h hinvalid => exact hinvalid (hname _ h)
    | field h hinvalid => exact hinvalid (hfield _ _ h)
    | exhausted h hfull => exact Nat.not_lt.2 hfull (hroom h)

structure Patch.Applied (p : Patch) (actor : Actor) (s : Service) (u : Update) : Prop where
  name : u.service.name = p.name.value?.getD s.name
  qualifiedName : u.service.qualifiedName = (p.name.value?.map Name.qualify).getD s.qualifiedName
  field : ∀ f, u.service.get f = (p.get f).over (s.get f)
  identity : u.service.identity = s.identity
  followers : u.service.followers = s.followers
  testResult : u.service.testResult = s.testResult
  deleted : u.service.deleted = s.deleted
  version : s.Strides u.service
  updatedAt : u.service.updatedAt = actor.time
  updatedBy : u.service.updatedBy = actor.user
  change : ∃ change, u.change = some change ∧ u.service.change = some change ∧
    u.service.incrementalChange = some change

namespace Service

theorem applied_amended {actor : Actor} {current : Service} {p : Patch} {v : Version} {change : ChangeDescription}
    (hv : v.tenths.toNat = current.version.tenths.toNat + current.stride (current.patched p)) :
    p.Applied actor current ⟨(current.amended p).asVersion v actor change, some change⟩ := by
  have hfield (f : Field) :
      ((current.amended p).asVersion v actor change).get f = (p.get f).over (current.get f) := by
    rw [← get_amended]
    cases f <;> rfl
  have hversion : current.Strides ((current.amended p).asVersion v actor change) := by
    rw [← stride_amended] at hv
    exact hv
  refine ⟨?_, ?_, hfield, ?_, ?_, ?_, ?_, hversion, rfl, rfl, change, rfl, rfl, rfl⟩
  all_goals
    simp only [amended, asVersion, patched, identity]
    cases p.name <;> rfl

theorem update_refused {policy : DuplicatePolicy} {current : Service} {p : Patch} (h : p.Refused policy current)
    (actor : Actor) : ∃ v, current.update policy actor p = .error (.invalid v) := by
  cases hcheck : current.checkPatch policy p with
  | error e =>
    obtain ⟨v, rfl⟩ := checkPatch_validates policy current p e hcheck
    exact ⟨v, update_of_check_error hcheck actor⟩
  | ok _ =>
    by_cases hname : p.name = .clear
    · exact ⟨_, update_of_clear hcheck hname actor⟩
    · have hfull : p.Changes current ∧
          UInt32.size ≤ current.version.tenths.toNat + current.stride (current.patched p) := by
        by_contra hroom
        apply Patch.not_refused_iff.2 ⟨hcheck, hname, fun hchanges => ?_⟩ h
        exact Nat.lt_of_not_le fun hfull => hroom ⟨hchanges, hfull⟩
      exact ⟨_, update_of_exhausted hcheck hname hfull.1 hfull.2 actor⟩

theorem not_refused_of_update {policy : DuplicatePolicy} {actor : Actor} {current : Service} {p : Patch} {u : Update}
    (h : current.update policy actor p = .ok u) : ¬ p.Refused policy current := by
  intro hrefused
  obtain ⟨v, hv⟩ := update_refused hrefused actor
  rw [h] at hv
  cases hv

theorem update_accepted {policy : DuplicatePolicy} {current : Service} {p : Patch} (h : ¬ p.Refused policy current)
    (actor : Actor) :
    ∃ u, current.update policy actor p = .ok u ∧ (p.Changes current → p.Applied actor current u) ∧
      (¬ p.Changes current → u = .unchanged current) := by
  obtain ⟨hcheck, hname, hroom⟩ := Patch.not_refused_iff.1 h
  by_cases hchanges : p.Changes current
  · obtain ⟨v, change, hv, hupdate⟩ := update_of_room hcheck hname hchanges (hroom hchanges) actor
    exact ⟨_, hupdate, fun _ => applied_amended hv, fun h => absurd hchanges h⟩
  · exact ⟨_, update_of_not_changes hcheck hname hchanges actor, fun h => absurd h hchanges, fun _ => rfl⟩

/-- An update is refused, always as invalid, for one of the reasons to refuse it, and then alone. Otherwise it makes a
version of the service in which the patch is applied if that changes something, and gives the service as it is if
not; the empty patch and one that gives contents as they are change nothing. -/
theorem update_exact (policy : DuplicatePolicy) (actor : Actor) (current : Service) (p : Patch) :
    (match current.update policy actor p with
      | .error e => p.Refused policy current ∧ ∃ v, e = .invalid v
      | .ok u => ¬ p.Refused policy current ∧ (p.Changes current → p.Applied actor current u) ∧
          (¬ p.Changes current → u = .unchanged current)) ∧
      current.update policy actor .empty = .ok (.unchanged current) ∧
      (p.Restates current → ¬ p.Changes current) := by
  refine ⟨?_, ?_, Patch.Restates.not_changes⟩
  · by_cases hrefused : p.Refused policy current
    · obtain ⟨v, h⟩ := update_refused hrefused actor
      rw [h]
      exact ⟨hrefused, v, rfl⟩
    · obtain ⟨u, h, hu⟩ := update_accepted hrefused actor
      rw [h]
      exact ⟨hrefused, hu⟩
  · have hkeep (f : Field) : Patch.empty.get f = .keep := by cases f <;> rfl
    have hrestates : Patch.empty.Restates current := ⟨.inl rfl, fun f => .inl (hkeep f)⟩
    have hcheck : current.checkPatch policy .empty = .ok () := by
      apply checkPatch_eq_ok.2
      refine ⟨nofun, nofun, nofun, fun f a h => ?_⟩
      rw [hkeep] at h
      cases h
    exact update_of_not_changes hcheck (by decide) hrestates.not_changes actor

def digger : Service :=
  { (Registration.ofConnection "digger" (.ofLaunch (.ofCommand "run"))).service ⟨1⟩ ⟨"ann", .manual, 1⟩ with
    availableTools := some [.ofName "dig", .ofName "fill"] }

def narrowing : Patch := { Patch.empty with name := .set "spade", availableTools := .set [.ofName "dig"] }

theorem update_exact_narrowing :
    narrowing.Changes digger ∧ ∃ u, digger.update .reject ⟨"ben", .manual, 2⟩ narrowing = .ok u ∧
      narrowing.Applied ⟨"ben", .manual, 2⟩ digger u ∧ u.service.qualifiedName = "spade" := by
  have hchanges : narrowing.Changes digger := .inl ⟨"spade", rfl, by decide⟩
  obtain ⟨hupdate, -⟩ := update_exact .reject ⟨"ben", .manual, 2⟩ digger narrowing
  obtain ⟨u, hu⟩ : ∃ u, digger.update .reject ⟨"ben", .manual, 2⟩ narrowing = .ok u :=
    Outcome.exists_ok (by decide +kernel)
  rw [hu] at hupdate
  have happlied := hupdate.2.1 hchanges
  exact ⟨hchanges, u, hu, happlied, happlied.qualifiedName⟩

end Service

end ServiceCatalog
