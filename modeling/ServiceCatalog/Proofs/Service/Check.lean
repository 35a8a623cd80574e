import Mathlib.Data.List.Nodup
import ServiceCatalog.Proofs.Service.Draft
import ServiceCatalog.Proofs.Wire.Request

namespace ServiceCatalog

section Guard

variable {ε α : Type}

theorem guard_eq_ok {p : Prop} [Decidable p] {e : ε} {x : Except ε α} {a : α} :
    (if p then .error e else x) = .ok a ↔ ¬ p ∧ x = .ok a := by
  by_cases h : p <;> simp [h]

theorem Outcome.lift_eq_ok {f : ε → Violation} {x : Except ε α} {a : α} : Outcome.lift f x = .ok a ↔ x = .ok a := by
  cases x <;> simp [Outcome.lift]

end Guard

def Listed {α : Type} (policy : DuplicatePolicy) (key : α → String) (l : List α) : Prop :=
  (∀ a ∈ l, isBlankText (key a) = false) ∧ (policy = .reject → (l.map key).Nodup)

namespace Listed

variable {α : Type} {policy : DuplicatePolicy} {key : α → String} {l l' : List α}

theorem nil : Listed policy key [] := ⟨fun _ h => absurd h List.not_mem_nil, fun _ => List.nodup_nil⟩

theorem perm (h : Listed policy key l) (hperm : l'.Perm l) : Listed policy key l' := by
  obtain ⟨hkeys, hnodup⟩ := h
  refine ⟨fun a ha => hkeys a (hperm.mem_iff.1 ha), fun hpolicy => ?_⟩
  exact (hperm.map key).nodup_iff.2 (hnodup hpolicy)

end Listed

theorem Name.check_eq_ok {name : String} :
    check name = .ok () ↔ isBlankText name = false ∧ name.length ≤ maxLength ∧
      hasSeparator name.toList = false ∧ '"' ∉ name.toList := by
  simp only [check, guard_eq_ok, Nat.not_lt, Bool.not_eq_true, List.contains_eq_mem, decide_eq_false_iff_not,
    and_true]

theorem LaunchConfig.check_eq_ok {c : LaunchConfig} :
    c.check = .ok () ↔
      isBlankText c.command = false ∧ ∀ k ∈ (c.env.getD .empty).keys, isBlankText k = false := by
  simp only [check, guard_eq_ok, Bool.not_eq_true, List.any_eq_false, and_true]

def Connection.Fits (kind : ServiceKind) (c : Connection) : Prop :=
  ∃ config, c.config = some config ∧ (∀ k ∈ config.kind, k.serviceKind = kind) ∧
    isBlankText config.launch.command = false ∧
    ∀ k ∈ (config.launch.env.getD .empty).keys, isBlankText k = false

theorem Connection.check_eq_ok {kind : ServiceKind} {c : Connection} : c.check kind = .ok () ↔ c.Fits kind := by
  unfold check Fits
  cases c.config with
  | none => simp
  | some config =>
    simp only [Option.some.injEq, exists_eq_left', ← LaunchConfig.check_eq_ok]
    cases config.kind with
    | none => simp
    | some k =>
      have hkind : (∀ k' ∈ some k, k'.serviceKind = kind) ↔ k.serviceKind = kind :=
        ⟨fun h => h k rfl, fun h k' hk' => Option.some.inj hk' ▸ h⟩
      rw [hkind]
      by_cases hk : k.serviceKind = kind <;> simp [hk]

namespace Capabilities

theorem checkPrompts_eq_ok {l : List Prompt} :
    checkPrompts l = .ok () ↔
      ∀ p ∈ l, isBlankText p.name = false ∧ ∀ a ∈ p.arguments.getD [], isBlankText a.name = false := by
  induction l with
  | nil => simp [checkPrompts]
  | cons p l ih =>
    simp only [checkPrompts, guard_eq_ok, ih, Bool.not_eq_true, List.any_eq_false, List.forall_mem_cons, and_assoc]

theorem checkRequired_eq_ok {c : Capabilities} :
    c.checkRequired = .ok () ↔
      (∀ t ∈ c.toolList, isBlankText t.name = false) ∧ (∀ r ∈ c.resourceList, isBlankText r.uri = false) ∧
        ∀ p ∈ c.promptList, isBlankText p.name = false ∧
          ∀ a ∈ p.arguments.getD [], isBlankText a.name = false := by
  simp only [checkRequired, guard_eq_ok, checkPrompts_eq_ok, Bool.not_eq_true, List.any_eq_false]

theorem issuesFrom_distinct {α : Type} {key : α → String} {issues : Bool → String → List CapabilityIssue}
    (hissues : ∀ again k, (∀ i ∈ issues again k, i.isDuplicate = false) ↔ again = false) (l : List α) :
    ∀ seen : List String, (∀ i ∈ issuesFrom key issues seen l, i.isDuplicate = false) ↔
      (l.map key).Nodup ∧ ∀ a ∈ l, key a ∉ seen := by
  induction l with
  | nil => simp [issuesFrom]
  | cons a l ih =>
    intro seen
    rw [issuesFrom, List.forall_mem_append, hissues, ih, List.map_cons, List.nodup_cons, List.forall_mem_cons]
    simp only [List.mem_cons, List.mem_map, not_or, not_exists, not_and, List.contains_eq_mem,
      decide_eq_false_iff_not]
    constructor
    · rintro ⟨hseen, hnodup, hrest⟩
      exact ⟨⟨fun b hb => (hrest b hb).1, hnodup⟩, hseen, fun b hb => (hrest b hb).2⟩
    · rintro ⟨⟨hne, hnodup⟩, hseen, hrest⟩
      exact ⟨hseen, hnodup, fun b hb => ⟨hne b hb, hrest b hb⟩⟩

theorem issues_distinct {c : Capabilities} :
    (∀ i ∈ c.issues, i.isDuplicate = false) ↔
      (c.toolList.map Tool.name).Nodup ∧ (c.resourceList.map Resource.uri).Nodup ∧
        (c.promptList.map Prompt.name).Nodup := by
  have htools (again : Bool) (k : String) :
      (∀ i ∈ toolIssues again k, i.isDuplicate = false) ↔ again = false := by
    cases again <;> simp [toolIssues, CapabilityIssue.isDuplicate]
  have hresources (again : Bool) (k : String) :
      (∀ i ∈ resourceIssues again k, i.isDuplicate = false) ↔ again = false := by
    cases again <;> cases Url.isAbsolute k <;> simp [resourceIssues, CapabilityIssue.isDuplicate]
  have hprompts (again : Bool) (k : String) :
      (∀ i ∈ promptIssues again k, i.isDuplicate = false) ↔ again = false := by
    cases again <;> simp [promptIssues, CapabilityIssue.isDuplicate]
  rw [issues, List.forall_mem_append, List.forall_mem_append, issuesFrom_distinct htools,
    issuesFrom_distinct hresources, issuesFrom_distinct hprompts]
  simp [and_assoc]

end Capabilities

theorem DuplicatePolicy.enforce_eq_ok {policy : DuplicatePolicy} {issues : List CapabilityIssue} :
    policy.enforce issues = .ok () ↔ (policy = .reject → ∀ i ∈ issues, i.isDuplicate = false) := by
  unfold enforce
  cases policy with
  | warn => simp
  | reject =>
    cases hfind : issues.find? CapabilityIssue.isDuplicate with
    | none => simpa using hfind
    | some i =>
      have hi := List.mem_of_find?_eq_some hfind
      have hduplicate := List.find?_some hfind
      simp only [reduceCtorEq, forall_const, false_iff, not_forall]
      exact ⟨i, hi, by simp [hduplicate]⟩

def Field.Sane (policy : DuplicatePolicy) (kind : ServiceKind) : (f : Field) → f.Content → Prop
  | .connection, c => c.Fits kind
  | .availableTools, l => Listed policy Tool.name l
  | .availableResources, l => Listed policy Resource.uri l
  | .availablePrompts, l =>
    Listed policy Prompt.name l ∧ ∀ p ∈ l, ∀ a ∈ p.arguments.getD [], isBlankText a.name = false
  | .tags, l => Listed .reject Label.tag l
  | _, _ => True

theorem Capabilities.check_eq_ok {policy : DuplicatePolicy} {c : Capabilities} (kind : ServiceKind) :
    c.check policy = .ok () ↔
      (∀ l ∈ c.tools, Field.availableTools.Sane policy kind l) ∧
        (∀ l ∈ c.resources, Field.availableResources.Sane policy kind l) ∧
        ∀ l ∈ c.prompts, Field.availablePrompts.Sane policy kind l := by
  have hbind : c.check policy = .ok () ↔ c.checkRequired = .ok () ∧ policy.enforce c.issues = .ok () := by
    unfold check
    cases c.checkRequired <;> simp [bind, Except.bind]
  have hlist {α : Type} (o : Option (List α)) (p : List α → Prop) (hnil : p []) :
      p (o.getD []) ↔ ∀ l ∈ o, p l := by
    cases o <;> simp [hnil]
  rw [hbind, checkRequired_eq_ok, DuplicatePolicy.enforce_eq_ok, issues_distinct, toolList, resourceList, promptList,
    ← hlist c.tools _ (by simp [Field.Sane, Listed]), ← hlist c.resources _ (by simp [Field.Sane, Listed]),
    ← hlist c.prompts _ (by simp [Field.Sane, Listed])]
  simp only [Field.Sane, Listed]
  grind

namespace Label

theorem checkFrom_eq_ok {l : List Label} :
    ∀ seen : List String, checkFrom seen l = .ok () ↔ Listed .reject Label.tag l ∧ ∀ a ∈ l, a.tag ∉ seen := by
  induction l with
  | nil => simp [checkFrom, Listed]
  | cons a l ih =>
    intro seen
    simp only [checkFrom, guard_eq_ok, ih, Listed, Bool.not_eq_true, List.contains_eq_mem, decide_eq_false_iff_not,
      List.forall_mem_cons, List.map_cons, List.nodup_cons, List.mem_map, not_exists, not_and, forall_const]
    constructor
    · rintro ⟨hname, hseen, ⟨hnames, hnodup⟩, hrest⟩
      have hne : ∀ b ∈ l, b.tag ≠ a.tag := fun b hb he => hrest b hb (he ▸ List.mem_cons_self)
      exact ⟨⟨⟨hname, hnames⟩, hne, hnodup⟩, hseen, fun b hb h => hrest b hb (List.mem_cons_of_mem _ h)⟩
    · rintro ⟨⟨⟨hname, hnames⟩, hne, hnodup⟩, hseen, hrest⟩
      exact ⟨hname, hseen, ⟨hnames, hnodup⟩, fun b hb => by simp [hne b hb, hrest b hb]⟩

theorem check_eq_ok {l : List Label} : check l = .ok () ↔ Listed .reject Label.tag l := by
  rw [check, checkFrom_eq_ok]
  simp

end Label

namespace FieldPatch

variable {α : Type}

def checked (check : α → Outcome Unit) : FieldPatch α → Outcome Unit
  | .set a => check a
  | _ => .ok ()

theorem checked_eq_ok {check : α → Outcome Unit} {p : FieldPatch α} :
    p.checked check = .ok () ↔ ∀ a, p = .set a → check a = .ok () := by
  cases p <;> simp [checked]

end FieldPatch

theorem Patch.forall_sane {policy : DuplicatePolicy} {kind : ServiceKind} {p : Patch} :
    (∀ f a, p.get f = .set a → f.Sane policy kind a) ↔
      (∀ c, p.connection = .set c → c.Fits kind) ∧ p.capabilities.check policy = .ok () ∧
        ∀ l, p.tags = .set l → Listed .reject Label.tag l := by
  simp only [Capabilities.check_eq_ok kind, Patch.capabilities, Option.mem_def, FieldPatch.value?_eq_some]
  constructor
  · intro h
    exact ⟨h .connection, ⟨h .availableTools, h .availableResources, h .availablePrompts⟩, h .tags⟩
  · rintro ⟨hconnection, ⟨htools, hresources, hprompts⟩, htags⟩ f a h
    cases f with
    | connection => exact hconnection a h
    | availableTools => exact htools a h
    | availableResources => exact hresources a h
    | availablePrompts => exact hprompts a h
    | tags => exact htags a h
    | _ => trivial

namespace Service

theorem checkPatch_eq (policy : DuplicatePolicy) (current : Service) (p : Patch) :
    current.checkPatch policy p = (if p.id.any (· != current.id) then .error (.invalid .idChange) else do
      p.kind.elim (.ok ()) fun kind =>
        if kind ≠ current.kind then .error (.invalid (.kindChange current.kind kind)) else .ok ()
      p.name.checked fun name => Outcome.lift .name (Name.check name)
      p.connection.checked fun c => Outcome.lift .connection (c.check current.kind)
      Outcome.lift .capability (p.capabilities.check policy)
      p.tags.checked fun tags => Outcome.lift .tags (Label.check tags)) := by
  unfold checkPatch
  cases p.id.any (· != current.id) with
  | true => rfl
  | false =>
    cases p.kind with
    | none => cases p.name <;> cases p.connection <;> cases p.tags <;> rfl
    | some kind =>
      by_cases hkind : kind = current.kind
      · simp only [Bool.false_eq_true, if_false, Option.elim_some, hkind, ne_eq, not_true_eq_false, Outcome.ok_bind]
        cases p.name <;> cases p.connection <;> cases p.tags <;> rfl
      · simp [hkind]

theorem checkPatch_eq_ok {policy : DuplicatePolicy} {current : Service} {p : Patch} :
    current.checkPatch policy p = .ok () ↔
      (∀ id ∈ p.id, id = current.id) ∧ (∀ kind ∈ p.kind, kind = current.kind) ∧
        (∀ name, p.name = .set name → Name.check name = .ok ()) ∧
        ∀ f a, p.get f = .set a → f.Sane policy current.kind a := by
  have hid : ¬ p.id.any (· != current.id) = true ↔ ∀ id ∈ p.id, id = current.id := by
    cases p.id <;> simp
  have hkind : (p.kind.elim (.ok ()) fun kind =>
      if kind ≠ current.kind then .error (.invalid (.kindChange current.kind kind)) else .ok () :
        Outcome Unit) = .ok () ↔ ∀ kind ∈ p.kind, kind = current.kind := by
    cases p.kind <;> simp
  rw [checkPatch_eq, guard_eq_ok, hid, Outcome.then_eq_ok, hkind]
  simp only [Outcome.then_eq_ok, FieldPatch.checked_eq_ok, Outcome.lift_eq_ok, Connection.check_eq_ok,
    Label.check_eq_ok, Patch.forall_sane]

end Service

theorem Registration.check_eq_ok {policy : DuplicatePolicy} {r : Registration} :
    r.check policy = .ok () ↔
      Name.check r.name = .ok () ∧ r.kind = .mcp ∧ r.connection ≠ none ∧
        ∀ f a, r.patch.get f = .set a → f.Sane policy r.kind a := by
  have htags : (∀ l, r.tags = some l → Listed .reject Label.tag l) ↔ Listed .reject Label.tag (r.tags.getD []) := by
    cases r.tags <;> simp [Listed]
  have hcapabilities : r.patch.capabilities = r.capabilities := by
    unfold capabilities Patch.capabilities patch
    cases r.availableTools <;> cases r.availableResources <;> cases r.availablePrompts <;> rfl
  unfold check
  dsimp only
  rw [Patch.forall_sane, hcapabilities, Outcome.then_eq_ok, Outcome.error_bind, guard_eq_ok]
  simp only [patch, FieldPatch.ofOption_eq_set, htags, Outcome.lift_eq_ok, not_not]
  cases r.connection with
  | none => simp
  | some c => simp [Outcome.then_eq_ok, Outcome.lift_eq_ok, Connection.check_eq_ok, Label.check_eq_ok]

end ServiceCatalog
