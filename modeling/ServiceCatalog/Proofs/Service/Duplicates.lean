import ServiceCatalog.Proofs.Service.Check

namespace ServiceCatalog

def repeats (seen keys : List String) : List String :=
  (keys.zipIdx.filter fun (k, i) => (seen ++ keys.take i).contains k).map (·.1)

theorem repeats_cons (seen : List String) (k : String) (keys : List String) :
    repeats seen (k :: keys) = (if seen.contains k then [k] else []) ++ repeats (k :: seen) keys := by
  have hrest : ((keys.zipIdx 1).filter fun (j, i) => (seen ++ (k :: keys).take i).contains j).map (·.1) =
      repeats (k :: seen) keys := by
    rw [List.zipIdx_succ, List.filter_map, List.map_map, repeats]
    congr 1
    apply List.filter_congr
    rintro ⟨j, i⟩ -
    simp only [Function.comp_apply, List.take_succ_cons, List.contains_eq_mem, decide_eq_decide, List.mem_append,
      List.mem_cons]
    tauto
  have hfirst : (seen ++ (k :: keys).take 0).contains k = seen.contains k := by simp
  rw [← hrest, repeats, List.zipIdx_cons, List.filter_cons]
  simp only [hfirst]
  cases seen.contains k <;> rfl

namespace Capabilities

def Distinct (c : Capabilities) : Prop :=
  (c.toolList.map Tool.name).Nodup ∧ (c.resourceList.map Resource.uri).Nodup ∧ (c.promptList.map Prompt.name).Nodup

def duplicates (c : Capabilities) : List CapabilityIssue :=
  (repeats [] (c.toolList.map Tool.name)).map .repeatedTool
    ++ (repeats [] (c.resourceList.map Resource.uri)).map .repeatedResource
    ++ (repeats [] (c.promptList.map Prompt.name)).map .repeatedPrompt

/-- The issues as they are told by some judge of what an address is. -/
def issuesBy (judge : String → Bool) (c : Capabilities) : List CapabilityIssue :=
  issuesFrom Tool.name toolIssues [] c.toolList
    ++ issuesFrom Resource.uri (fun again uri =>
        (if again then [.repeatedResource uri] else []) ++ if judge uri then [] else [.noAddress uri]) [] c.resourceList
    ++ issuesFrom Prompt.name promptIssues [] c.promptList

theorem issues_eq_issuesBy (c : Capabilities) : c.issues = c.issuesBy Url.isAbsolute := rfl

theorem filter_issuesFrom {α : Type} {key : α → String} {issues : Bool → String → List CapabilityIssue}
    {issue : String → CapabilityIssue}
    (hissues : ∀ again k, (issues again k).filter CapabilityIssue.isDuplicate = if again then [issue k] else [])
    (l : List α) (seen : List String) :
    (issuesFrom key issues seen l).filter CapabilityIssue.isDuplicate = (repeats seen (l.map key)).map issue := by
  induction l generalizing seen with
  | nil => rfl
  | cons a l ih =>
    rw [issuesFrom, List.filter_append, hissues, ih, List.map_cons, repeats_cons, List.map_append]
    cases seen.contains (key a) <;> rfl

theorem filter_issuesBy (judge : String → Bool) (c : Capabilities) :
    (c.issuesBy judge).filter CapabilityIssue.isDuplicate = c.duplicates := by
  have htools (again : Bool) (k : String) : (toolIssues again k).filter CapabilityIssue.isDuplicate =
      if again then [CapabilityIssue.repeatedTool k] else [] := by
    cases again <;> rfl
  have hresources (again : Bool) (k : String) :
      ((if again then [CapabilityIssue.repeatedResource k] else []) ++
        if judge k then [] else [CapabilityIssue.noAddress k]).filter CapabilityIssue.isDuplicate =
      if again then [CapabilityIssue.repeatedResource k] else [] := by
    cases again <;> cases judge k <;> rfl
  have hprompts (again : Bool) (k : String) : (promptIssues again k).filter CapabilityIssue.isDuplicate =
      if again then [CapabilityIssue.repeatedPrompt k] else [] := by
    cases again <;> rfl
  rw [issuesBy, List.filter_append, List.filter_append, filter_issuesFrom htools, filter_issuesFrom hresources,
    filter_issuesFrom hprompts]
  rfl

theorem distinct_iff (c : Capabilities) : c.Distinct ↔ c.duplicates = [] := by
  rw [← filter_issuesBy Url.isAbsolute, ← issues_eq_issuesBy, List.filter_eq_nil_iff]
  simp only [Bool.not_eq_true]
  exact issues_distinct.symm

theorem issuesBy_distinct (judge : String → Bool) (c : Capabilities) :
    (∀ issue ∈ c.issuesBy judge, issue.isDuplicate = false) ↔ c.Distinct := by
  rw [distinct_iff, ← filter_issuesBy judge, List.filter_eq_nil_iff]
  simp only [Bool.not_eq_true]

theorem find?_issuesBy (judge : String → Bool) (c : Capabilities) :
    (c.issuesBy judge).find? CapabilityIssue.isDuplicate = c.duplicates.head? := by
  rw [← List.head?_filter, filter_issuesBy]

theorem enforce_issuesBy (policy : DuplicatePolicy) (judge : String → Bool) (c : Capabilities) :
    policy.enforce (c.issuesBy judge) = policy.enforce c.issues := by
  unfold DuplicatePolicy.enforce
  rw [issues_eq_issuesBy, find?_issuesBy, find?_issuesBy]

/-- The second outcome is the first one, but for a list that holds something twice: then it tells the first of
the duplicates. -/
structure Sifts {α : Type} (c : Capabilities) (warned rejected : Outcome α) : Prop where
  accepts : ∀ a, rejected = .ok a ↔ warned = .ok a ∧ c.Distinct
  tells : ∀ a, warned = .ok a → ¬ c.Distinct → ∃ issue, c.duplicates.head? = some issue ∧
    rejected = .error (.invalid (.capability (.duplicate issue)))

namespace Sifts

variable {α β : Type} {c : Capabilities} {warned rejected : Outcome α}

theorem error (c : Capabilities) (e : CatalogError) : c.Sifts (.error e : Outcome α) (.error e) := by
  constructor
  · intro a
    constructor
    · nofun
    · rintro ⟨h, -⟩
      cases h
  · nofun

theorem bind (h : c.Sifts warned rejected) (f : α → Outcome β) : c.Sifts (warned >>= f) (rejected >>= f) := by
  constructor
  · intro b
    simp only [Outcome.bind_eq_ok, h.accepts]
    constructor
    · rintro ⟨a, ⟨ha, hc⟩, hb⟩
      exact ⟨⟨a, ha, hb⟩, hc⟩
    · rintro ⟨⟨a, ha, hb⟩, hc⟩
      exact ⟨a, ⟨ha, hc⟩, hb⟩
  · intro b hb hc
    obtain ⟨a, ha, -⟩ := Outcome.bind_eq_ok.1 hb
    obtain ⟨issue, hissue, hrejected⟩ := h.tells a ha hc
    refine ⟨issue, hissue, ?_⟩
    rw [hrejected]
    rfl

theorem after (h : c.Sifts warned rejected) (x : Outcome β) :
    c.Sifts (x >>= fun _ => warned) (x >>= fun _ => rejected) := by
  cases x with
  | ok b => exact h
  | error e => exact .error c e

end Sifts

theorem sifts_enforce (c : Capabilities) :
    c.Sifts (Outcome.lift .capability (DuplicatePolicy.warn.enforce c.issues))
      (Outcome.lift .capability (DuplicatePolicy.reject.enforce c.issues)) := by
  have hreject : DuplicatePolicy.reject.enforce c.issues =
      c.duplicates.head?.elim (.ok ()) fun issue => .error (.duplicate issue) := by
    unfold DuplicatePolicy.enforce
    rw [issues_eq_issuesBy, find?_issuesBy]
    cases c.duplicates.head? <;> rfl
  have hdistinct := c.distinct_iff
  rw [hreject]
  cases hd : c.duplicates with
  | nil =>
    have hc : c.Distinct := hdistinct.2 hd
    exact ⟨fun a => (and_iff_left hc).symm, fun a _ hne => absurd hc hne⟩
  | cons issue issues =>
    have hc : ¬ c.Distinct := by simp [hdistinct, hd]
    constructor
    · intro a
      constructor
      · nofun
      · exact fun h => absurd h.2 hc
    · exact fun a _ _ => ⟨issue, by simp [hd], rfl⟩

theorem sifts_check (c : Capabilities) :
    c.Sifts (Outcome.lift .capability (c.check .warn)) (Outcome.lift .capability (c.check .reject)) := by
  unfold check
  cases c.checkRequired with
  | error fault => exact .error c _
  | ok _ => exact c.sifts_enforce

end Capabilities

theorem Service.sifts_update (current : Service) (p : Patch) (actor : Actor) :
    p.capabilities.Sifts (current.update .warn actor p) (current.update .reject actor p) := by
  have hcheck : p.capabilities.Sifts (current.checkPatch .warn p) (current.checkPatch .reject p) := by
    rw [checkPatch_eq, checkPatch_eq]
    split
    · exact .error _ _
    · apply Capabilities.Sifts.after
      apply Capabilities.Sifts.after
      apply Capabilities.Sifts.after
      exact p.capabilities.sifts_check.bind _
  exact hcheck.bind _

theorem Registration.sifts_check (r : Registration) : r.capabilities.Sifts (r.check .warn) (r.check .reject) := by
  have hcapabilities := r.capabilities.sifts_check.bind fun _ => Outcome.lift .tags (Label.check (r.tags.getD []))
  unfold check
  apply Capabilities.Sifts.after
  dsimp only
  split
  · exact .error _ _
  · cases r.connection with
    | none => exact .error _ _
    | some c => exact hcapabilities.after _

/-- The policy about duplicates decides which patches and registrations are accepted and nothing else: under
`reject` one that `warn` accepts is refused where a list that it sets holds something twice, with the first
identifier that does so. Each occurrence but the first is reported. What is an address decides nothing. -/
theorem DuplicatePolicy.decides_acceptance (policy : DuplicatePolicy) (current : Service) (actor : Actor) (p : Patch)
    (r : Registration) (c : Capabilities) (judge : String → Bool) :
    p.capabilities.Sifts (current.update .warn actor p) (current.update .reject actor p) ∧
      r.capabilities.Sifts (r.check .warn) (r.check .reject) ∧
      c.issues = c.issuesBy Url.isAbsolute ∧
      (c.issuesBy judge).filter CapabilityIssue.isDuplicate = c.duplicates ∧
      ((∀ issue ∈ c.issuesBy judge, issue.isDuplicate = false) ↔ c.Distinct) ∧
      c.check policy = (c.checkRequired >>= fun _ => policy.enforce (c.issuesBy judge)) := by
  refine ⟨current.sifts_update p actor, r.sifts_check, c.issues_eq_issuesBy, c.filter_issuesBy judge,
    c.issuesBy_distinct judge, ?_⟩
  rw [c.enforce_issuesBy]
  rfl

def repeating : Patch :=
  { Patch.empty with availableTools := .set [.ofName "dig", .ofName "fill", .ofName "dig", .ofName "fill"] }

theorem DuplicatePolicy.decides_acceptance_repeating :
    let current := (Registration.ofConnection "probe" (.ofLaunch (.ofCommand "run"))).service ⟨1⟩ ⟨"ann", .manual, 1⟩
    ¬ repeating.capabilities.Distinct ∧ (∃ u, current.update .warn ⟨"ben", .manual, 2⟩ repeating = .ok u) ∧
      current.update .reject ⟨"ben", .manual, 2⟩ repeating =
        .error (.invalid (.capability (.duplicate (.repeatedTool "dig")))) := by
  intro current
  have hrepeats : ¬ repeating.capabilities.Distinct := by
    rintro ⟨htools, -⟩
    revert htools
    decide
  obtain ⟨u, hu⟩ : ∃ u, current.update .warn ⟨"ben", .manual, 2⟩ repeating = .ok u :=
    Outcome.exists_ok (by decide +kernel)
  obtain ⟨hsifts, -⟩ := decides_acceptance .reject current ⟨"ben", .manual, 2⟩ repeating
    (Registration.ofConnection "probe" (.ofLaunch (.ofCommand "run"))) repeating.capabilities fun _ => false
  obtain ⟨issue, hissue, hrejected⟩ := hsifts.tells u hu hrepeats
  have hfirst : repeating.capabilities.duplicates.head? = some (.repeatedTool "dig") := by rfl
  obtain rfl : issue = .repeatedTool "dig" := Option.some.inj (hissue.symm.trans hfirst)
  exact ⟨hrepeats, ⟨u, hu⟩, hrejected⟩

end ServiceCatalog
