import ServiceCatalog.Catalog.Effect

/-!
Drafts: the states that mutations work out from a service, with the changes recorded on the way, and the
versions made from them.
-/

namespace ServiceCatalog

namespace Outcome

variable {α β : Type}

@[simp]
theorem error_bind (e : CatalogError) (f : α → Outcome β) : (Except.error e >>= f : Outcome β) = .error e := rfl

@[simp]
theorem ok_bind (a : α) (f : α → Outcome β) : (Except.ok a >>= f : Outcome β) = f a := rfl

theorem bind_eq_ok {x : Outcome α} {f : α → Outcome β} {b : β} :
    (x >>= f) = .ok b ↔ ∃ a, x = .ok a ∧ f a = .ok b := by
  cases x <;> simp [bind, Except.bind]

theorem then_eq_ok {x : Outcome Unit} {y : Outcome α} {a : α} :
    (x >>= fun _ => y) = .ok a ↔ x = .ok () ∧ y = .ok a := by
  cases x <;> simp

theorem map_eq_ok {x : Outcome α} {f : α → β} {b : β} : x.map f = .ok b ↔ ∃ a, x = .ok a ∧ f a = b := by
  cases x <;> simp [Except.map]

theorem exists_ok {x : Outcome α} (h : x.toOption.isSome = true) : ∃ a, x = .ok a := by
  cases x with
  | ok a => exact ⟨a, rfl⟩
  | error => cases h

end Outcome

namespace VersionStep

def tenths : VersionStep → Nat
  | .minor => 1
  | .major => 10

theorem next?_eq_advance? (step : VersionStep) (v : Version) : step.next? v = v.advance? step.tenths := by
  cases step <;> rfl

theorem next?_eq_some {step : VersionStep} {v w : Version} (h : step.next? v = some w) :
    w.tenths.toNat = v.tenths.toNat + step.tenths := by
  simp only [next?_eq_advance?, Version.advance?, Option.ite_none_right_eq_some, Option.some.injEq] at h
  obtain ⟨hroom, rfl⟩ := h
  exact Nat.mod_eq_of_lt hroom

theorem next?_eq_none {step : VersionStep} {v : Version} :
    step.next? v = none ↔ UInt32.size ≤ v.tenths.toNat + step.tenths := by
  simp only [next?_eq_advance?, Version.advance?, ite_eq_right_iff, reduceCtorEq, imp_false, Nat.not_lt]

end VersionStep

def FieldPatch.over {α : Type} [BEq α] (old : Option α) : FieldPatch α → Option α
  | .keep => old
  | .clear => none
  | .set a => if old == some a then old else some a

theorem ChangeLog.apply_content {α : Type} [Wire α] [BEq α] (log : ChangeLog) (name : String) (old : Option α)
    (p : FieldPatch α) : (log.apply name old p).2 = p.over old := by
  cases p with
  | keep => rfl
  | clear => cases old <;> rfl
  | set b =>
    cases old with
    | none => rfl
    | some a =>
      have hsame : (some a == some b) = (a == b) := rfl
      rw [FieldPatch.over, hsame, apply]
      cases a == b <;> rfl

namespace Service

/-- The states drafted from a service, by patches that are asked for and otherwise, with the changes they
record. -/
inductive Drafted (policy : DuplicatePolicy) (asked : Patch → Prop) (current : Service) :
    Service → ChangeLog → Prop
  | patched {p : Patch} {renamed : ChangeLog × Service} {log : ChangeLog} {next : Service}
      (hasked : asked p) (hlive : current.isDeleted = false) (hcheck : current.checkPatch policy p = .ok ())
      (hname : current.rename .empty p.name = .ok renamed) (hfields : patchFields p renamed = (log, next)) :
      Drafted policy asked current next
        (if current.losesCapabilities next then log.escalate .major else log)
  | marked (deleted : Bool) :
      Drafted policy asked current { current with deleted := some deleted }
        (ChangeLog.empty.replace "deleted" current.isDeleted deleted).1
  | followed {user : Reference} (hlive : current.isDeleted = false)
      (hnew : current.followerList.any (·.id == user.id) = false) :
      Drafted policy asked current { current with followers := some (current.followerList ++ [user]) }
        (ChangeLog.empty.addElement "followers" (toValue user))
  | unfollowed {user : Uuid} {follower : Reference} (hlive : current.isDeleted = false)
      (hfollows : current.followerList.find? (·.id == user) = some follower) :
      Drafted policy asked current
        { current with
          followers :=
            if (current.followerList.eraseP (·.id == user)).isEmpty then none
            else some (current.followerList.eraseP (·.id == user)) }
        (ChangeLog.empty.deleteElement "followers" (toValue follower))
  | tested (result : TestResult) (hlive : current.isDeleted = false) :
      Drafted policy asked current
        { current with
          testResult := (ChangeLog.empty.apply "testConnectionResult" current.testResult (.set result)).2 }
        (ChangeLog.empty.apply "testConnectionResult" current.testResult (.set result)).1

structure Revised (policy : DuplicatePolicy) (asked : Patch → Prop) (actor : Actor) (current s : Service)
    (change : ChangeDescription) (next : Service) (log : ChangeLog) : Prop where
  drafted : Drafted policy asked current next log
  changed : log.isEmpty = false
  described : change = log.describe current.version actor
  stepped : log.step.next? current.version = some s.version
  released : s = next.asVersion s.version actor change

theorem commit_eq_ok {current next : Service} {log : ChangeLog} {actor : Actor} {u : Update} :
    current.commit next log actor = .ok u ↔
      (log.isEmpty = true ∧ u = .unchanged current) ∨
        (log.isEmpty = false ∧ ∃ v, log.step.next? current.version = some v ∧
          u = ⟨next.asVersion v actor (log.describe current.version actor),
            some (log.describe current.version actor)⟩) := by
  unfold commit
  cases log.isEmpty with
  | true => simp [eq_comm]
  | false => cases log.step.next? current.version <;> simp [eq_comm]

theorem exists_commit (current next : Service) (log : ChangeLog) (actor : Actor) (hlog : log.isEmpty = false)
    (hroom : current.version.tenths.toNat + log.step.tenths < UInt32.size) :
    ∃ v change, v.tenths.toNat = current.version.tenths.toNat + log.step.tenths ∧
      current.commit next log actor = .ok ⟨next.asVersion v actor change, some change⟩ := by
  cases hv : log.step.next? current.version with
  | none => exact absurd (VersionStep.next?_eq_none.1 hv) (Nat.not_le.2 hroom)
  | some v => exact ⟨v, _, VersionStep.next?_eq_some hv, commit_eq_ok.2 (.inr ⟨hlog, v, hv, rfl⟩)⟩

theorem commit_exhausted {current : Service} {log : ChangeLog} (hlog : log.isEmpty = false)
    (hroom : UInt32.size ≤ current.version.tenths.toNat + log.step.tenths) (next : Service) (actor : Actor) :
    current.commit next log actor =
      .error (.invalid (.versionExhausted current.version current.qualifiedName)) := by
  rw [commit, hlog, VersionStep.next?_eq_none.2 hroom]
  rfl

theorem rename_frame {α : Type} (view : Service → α)
    (hview : ∀ s name q, view { s with name := name, qualifiedName := q } = view s) {current : Service}
    {log : ChangeLog} {p : FieldPatch String} {renamed : ChangeLog × Service}
    (h : current.rename log p = .ok renamed) : view renamed.2 = view current := by
  cases p with
  | keep =>
    cases h
    rfl
  | clear => cases h
  | set name =>
    cases h
    exact hview ..

theorem rename_cases {current : Service} {log : ChangeLog} {p : FieldPatch String} {renamed : ChangeLog × Service}
    (h : current.rename log p = .ok renamed) :
    (p = .keep ∧ renamed.2 = current) ∨
      p = .set renamed.2.name ∧ renamed.2.qualifiedName = Name.qualify renamed.2.name := by
  cases p with
  | keep =>
    cases h
    exact .inl ⟨rfl, rfl⟩
  | clear => cases h
  | set name =>
    have hreplace : (log.replace "name" current.name name).2 = name := by
      by_cases he : current.name = name <;> simp [ChangeLog.replace, he]
    obtain rfl := Except.ok.inj h
    exact .inr ⟨congrArg FieldPatch.set hreplace.symm, rfl⟩

theorem update_eq_ok {policy : DuplicatePolicy} {actor : Actor} {current : Service} {p : Patch} {u : Update} :
    current.update policy actor p = .ok u ↔
      current.checkPatch policy p = .ok () ∧ ∃ renamed log next, current.rename .empty p.name = .ok renamed ∧
        patchFields p renamed = (log, next) ∧
        current.commit next (if current.losesCapabilities next then log.escalate .major else log) actor = .ok u := by
  simp only [update, Outcome.bind_eq_ok]
  constructor
  · rintro ⟨_, hcheck, renamed, hname, hcommit⟩
    exact ⟨hcheck, renamed, _, _, hname, rfl, hcommit⟩
  · rintro ⟨hcheck, renamed, log, next, hname, hfields, hcommit⟩
    refine ⟨(), hcheck, renamed, hname, ?_⟩
    rw [hfields]
    exact hcommit

def identity (s : Service) : Uuid × ServiceKind := (s.id, s.kind)

theorem set_identity (s : Service) (f : Field) (a : Option f.Content) : (s.set f a).identity = s.identity := by
  cases f <;> rfl

theorem patchFields_frame {α : Type} (view : Service → α) (p : Patch)
    (hview : ∀ s f a, view (Service.set s f a) = view s) (state : ChangeLog × Service) :
    view (patchFields p state).2 = view state.2 := by
  unfold patchFields
  generalize Field.all = fields
  induction fields generalizing state with
  | nil => rfl
  | cons f fields ih => rw [List.foldl_cons, ih, patchField, hview]

theorem patchFields_get (p : Patch) (state : ChangeLog × Service) (f : Field) :
    (patchFields p state).2.get f = (p.get f).over (state.2.get f) := by
  have hfold : ∀ (fields : List Field) (state : ChangeLog × Service), fields.Nodup →
      (fields.foldl (patchField p) state).2.get f =
        if f ∈ fields then (p.get f).over (state.2.get f) else state.2.get f := by
    intro fields
    induction fields with
    | nil => exact fun _ _ => rfl
    | cons g fields ih =>
      intro state hnodup
      obtain ⟨hg, hfields⟩ := List.nodup_cons.1 hnodup
      rw [List.foldl_cons, ih _ hfields]
      by_cases hf : f = g
      · subst hf
        simp [hg, patchField, ChangeLog.apply_content]
      · simp [hf, patchField, get_set_of_ne]
  rw [patchFields, hfold Field.all state (by decide), if_pos f.mem_all]

theorem Drafted.identity_eq {policy : DuplicatePolicy} {asked : Patch → Prop} {current next : Service}
    {log : ChangeLog} (h : Drafted policy asked current next log) : next.identity = current.identity := by
  cases h with
  | @patched p renamed log _ _ _ _ hname hfields =>
    have hframe := patchFields_frame identity p set_identity renamed
    rw [hfields] at hframe
    rw [hframe, rename_frame identity (fun _ _ _ => rfl) hname]
  | marked | followed | unfollowed | tested => rfl

variable {policy : DuplicatePolicy} {asked : Patch → Prop} {actor : Actor} {current s next : Service}
  {change : ChangeDescription} {log : ChangeLog}

theorem Revised.identity_eq (h : Revised policy asked actor current s change next log) :
    s.identity = current.identity := by
  rw [h.released]
  exact h.drafted.identity_eq

theorem Revised.id_eq (h : Revised policy asked actor current s change next log) : s.id = current.id :=
  congrArg Prod.fst h.identity_eq

theorem Revised.change_eq (h : Revised policy asked actor current s change next log) : s.change = some change := by
  rw [h.released]
  rfl

theorem Revised.version_lt (h : Revised policy asked actor current s change next log) :
    current.version.tenths < s.version.tenths := by
  have hstep := VersionStep.next?_eq_some h.stepped
  have hpos : 0 < log.step.tenths := by cases log.step <;> decide
  rw [UInt32.lt_iff_toNat_lt]
  omega

end Service

end ServiceCatalog
