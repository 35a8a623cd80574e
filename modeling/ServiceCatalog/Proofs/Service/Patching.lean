import ServiceCatalog.Proofs.Service.Draft
import ServiceCatalog.Proofs.Service.Equality

namespace ServiceCatalog

theorem FieldPatch.over_over {α : Type} [BEq α] [ReflBEq α] (p : FieldPatch α) (old : Option α) :
    p.over (p.over old) = p.over old := by
  cases p with
  | keep | clear => rfl
  | set b =>
    simp only [FieldPatch.over]
    by_cases h : (old == some b) = true
    · simp [h]
    · simp [h]

namespace ChangeLog

variable {α : Type} [Wire α] [BEq α] {log : ChangeLog} {name : String}

theorem isEmpty_replace {old new : α} (h : (log.replace name old new).1.isEmpty = true) :
    log.isEmpty = true ∧ log.replace name old new = (log, old) := by
  cases hsame : old == new <;> simp_all [replace, isEmpty, update]

theorem replace_content [LawfulBEq α] (old new : α) : (log.replace name old new).2 = new := by
  by_cases h : old = new <;> simp [replace, h]

theorem isEmpty_apply {old : Option α} {p : FieldPatch α} (h : (log.apply name old p).1.isEmpty = true) :
    log.isEmpty = true ∧ log.apply name old p = (log, old) := by
  cases p with
  | keep => exact ⟨h, rfl⟩
  | clear => cases old <;> simp_all [apply, isEmpty, deleteElement]
  | set b =>
    cases old with
    | none => simp [apply, isEmpty, addElement] at h
    | some a => cases hsame : a == b <;> simp_all [apply, isEmpty, update]

theorem apply_over [ReflBEq α] (old : Option α) (p : FieldPatch α) :
    log.apply name (p.over old) p = (log, p.over old) := by
  cases p with
  | keep | clear => rfl
  | set b =>
    simp only [FieldPatch.over]
    cases old with
    | none => simp [apply]
    | some a =>
      by_cases h : (a == b) = true
      · simp [apply, h]
      · simp [apply, h]

end ChangeLog

namespace Service

def body (s : Service) : Service :=
  { s with version := .initial, updatedAt := 0, updatedBy := "", change := none, incrementalChange := none }

theorem get_body (s : Service) (f : Field) : s.body.get f = s.get f := by cases f <;> rfl

theorem get_of_body {s t : Service} (h : s.body = t.body) (f : Field) : s.get f = t.get f := by
  rw [← get_body, h, get_body]

def patched (s : Service) (p : Patch) : Service :=
  { s with
    displayName := p.displayName.over s.displayName
    description := p.description.over s.description
    serverInstructions := p.serverInstructions.over s.serverInstructions
    connection := p.connection.over s.connection
    availableTools := p.availableTools.over s.availableTools
    availableResources := p.availableResources.over s.availableResources
    availablePrompts := p.availablePrompts.over s.availablePrompts
    tags := p.tags.over s.tags
    owners := p.owners.over s.owners
    domains := p.domains.over s.domains
    dataProducts := p.dataProducts.over s.dataProducts
    pipelines := p.pipelines.over s.pipelines }

theorem set_get (s : Service) (f : Field) : s.set f (s.get f) = s := by cases f <;> rfl

theorem patchFields_patched (p : Patch) (state : ChangeLog × Service) :
    (patchFields p state).2 = state.2.patched p := by
  simp only [patchFields, Field.all, List.foldl_cons, List.foldl_nil, patchField, ChangeLog.apply_content, set, get,
    Patch.get, patched]

theorem patchField_isEmpty {p : Patch} {state : ChangeLog × Service} {f : Field}
    (h : (patchField p state f).1.isEmpty = true) : state.1.isEmpty = true ∧ patchField p state f = state := by
  obtain ⟨hempty, happly⟩ := ChangeLog.isEmpty_apply h
  refine ⟨hempty, ?_⟩
  rw [patchField, happly]
  exact congrArg (state.1, ·) (state.2.set_get f)

theorem patchFields_isEmpty {p : Patch} {state : ChangeLog × Service}
    (h : (patchFields p state).1.isEmpty = true) : state.1.isEmpty = true ∧ patchFields p state = state := by
  unfold patchFields at h ⊢
  generalize Field.all = fields at h ⊢
  induction fields generalizing state with
  | nil => exact ⟨h, rfl⟩
  | cons f fields ih =>
    rw [List.foldl_cons] at h ⊢
    obtain ⟨hempty, hrest⟩ := ih h
    obtain ⟨hempty, hfield⟩ := patchField_isEmpty hempty
    exact ⟨hempty, by rw [hrest, hfield]⟩

theorem patchFields_over (p : Patch) (log : ChangeLog) {s : Service} (h : ∀ f, (p.get f).over (s.get f) = s.get f) :
    patchFields p (log, s) = (log, s) := by
  have hfield (f : Field) : patchField p (log, s) f = (log, s) := by
    have happly : log.apply f.name (s.get f) (p.get f) = (log, s.get f) := by
      rw [← h f]
      exact ChangeLog.apply_over ..
    rw [patchField, happly]
    exact congrArg (log, ·) (s.set_get f)
  unfold patchFields
  generalize Field.all = fields
  induction fields with
  | nil => rfl
  | cons f fields ih => rw [List.foldl_cons, hfield, ih]

theorem checkPatch_congr (policy : DuplicatePolicy) {s t : Service} (h : s.identity = t.identity) (p : Patch) :
    s.checkPatch policy p = t.checkPatch policy p := by
  obtain ⟨hid, hkind⟩ := Prod.mk.inj h
  unfold checkPatch
  rw [hid, hkind]

variable {policy : DuplicatePolicy} {actor : Actor} {current : Service} {p : Patch} {log : ChangeLog} {u : Update}

theorem update_cases (h : current.update policy actor p = .ok u) :
    current.checkPatch policy p = .ok () ∧ ∃ renamed, current.rename .empty p.name = .ok renamed ∧
      ((renamed.1.isEmpty = true ∧ patchFields p renamed = renamed ∧ u = .unchanged current) ∨
        ∃ v change, u = ⟨(renamed.2.patched p).asVersion v actor change, some change⟩) := by
  obtain ⟨hcheck, renamed, log, next, hrename, hfields, hcommit⟩ := update_eq_ok.1 h
  refine ⟨hcheck, renamed, hrename, ?_⟩
  rcases commit_eq_ok.1 hcommit with ⟨hempty, rfl⟩ | ⟨-, v, -, rfl⟩
  · left
    have hlog : (patchFields p renamed).1.isEmpty = true := by
      rw [hfields]
      split at hempty <;> exact hempty
    obtain ⟨hrenamed, hsame⟩ := patchFields_isEmpty hlog
    exact ⟨hrenamed, hsame, rfl⟩
  · right
    rw [← patchFields_patched p renamed, hfields]
    exact ⟨v, _, rfl⟩

theorem update_body (hname : p.name = .keep) (h : current.update policy actor p = .ok u) :
    u.service.body = (current.patched p).body := by
  obtain ⟨-, renamed, hrename, hu⟩ := update_cases h
  rw [hname] at hrename
  obtain rfl := Except.ok.inj hrename
  rcases hu with ⟨-, hsame, rfl⟩ | ⟨v, change, rfl⟩
  · rw [← patchFields_patched p (.empty, current), hsame]
    rfl
  · rfl

theorem rename_isEmpty {renamed : ChangeLog × Service} (h : current.rename log p.name = .ok renamed)
    (hempty : renamed.1.isEmpty = true) : p.name = .keep ∨ p.name = .set current.name := by
  cases hname : p.name with
  | keep => exact .inl rfl
  | clear =>
    rw [hname] at h
    cases h
  | set name =>
    rw [hname] at h
    have hlog : (log.replace "name" current.name name).1.isEmpty = true := by
      rw [← hempty, ← Except.ok.inj h]
      rfl
    have hsame : (log.replace "name" current.name name).2 = current.name :=
      congrArg Prod.snd (ChangeLog.isEmpty_replace hlog).2
    rw [← hsame, ChangeLog.replace_content]
    exact .inr rfl

theorem update_settles (h : current.update policy actor p = .ok u) :
    u.service.identity = current.identity ∧ (p.name = .keep ∨ p.name = .set u.service.name) ∧
      ∀ f, (p.get f).over (u.service.get f) = u.service.get f := by
  obtain ⟨-, renamed, hrename, hu⟩ := update_cases h
  rcases hu with ⟨hempty, hsame, rfl⟩ | ⟨v, change, rfl⟩
  · refine ⟨rfl, rename_isEmpty hrename hempty, fun f => ?_⟩
    have hget := patchFields_get p renamed f
    rw [hsame, rename_frame (fun s => s.get f) (fun _ _ _ => by cases f <;> rfl) hrename] at hget
    exact hget.symm
  · refine ⟨rename_frame identity (fun _ _ _ => rfl) hrename, ?_, fun f => ?_⟩
    · rcases rename_cases hrename with ⟨hkeep, -⟩ | ⟨hset, -⟩
      · exact .inl hkeep
      · exact .inr hset
    · have hget : ((renamed.2.patched p).asVersion v actor change).get f = (p.get f).over (renamed.2.get f) := by
        rw [← patchFields_get, patchFields_patched]
        cases f <;> rfl
      dsimp only
      rw [hget, FieldPatch.over_over]

theorem update_unchanged (hcheck : current.checkPatch policy p = .ok ())
    (hname : p.name = .keep ∨ p.name = .set current.name) (hget : ∀ f, (p.get f).over (current.get f) = current.get f)
    (actor : Actor) : current.update policy actor p = .ok (.unchanged current) := by
  have hrename : ∃ s, current.rename .empty p.name = .ok (.empty, s) ∧ ∀ f, s.get f = current.get f := by
    rcases hname with hkeep | hset
    · rw [hkeep]
      exact ⟨_, rfl, fun _ => rfl⟩
    · rw [hset]
      refine ⟨_, by rw [rename, ChangeLog.replace, if_pos BEq.rfl], fun f => ?_⟩
      cases f <;> rfl
  obtain ⟨s, hrename, hs⟩ := hrename
  refine update_eq_ok.2 ⟨hcheck, _, _, _, hrename, patchFields_over p .empty fun f => ?_, ?_⟩
  · rw [hs, hget]
  · apply commit_eq_ok.2
    left
    refine ⟨?_, rfl⟩
    split <;> rfl

theorem update_again (h : current.update policy actor p = .ok u) (later : Actor) :
    u.service.update policy later p = .ok (.unchanged u.service) := by
  obtain ⟨hidentity, hname, hget⟩ := update_settles h
  apply update_unchanged _ hname hget
  rw [checkPatch_congr policy hidentity]
  exact (update_cases h).1

end Service

end ServiceCatalog
