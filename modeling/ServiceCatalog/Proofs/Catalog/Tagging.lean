import ServiceCatalog.Proofs.Catalog.Independence
import ServiceCatalog.Proofs.Catalog.Validity
import ServiceCatalog.Proofs.Service.Updating
import ServiceCatalog.Proofs.Tag.Tiers

namespace ServiceCatalog

namespace Service

theorem Valid.listed_tags {policy : DuplicatePolicy} {s : Service} (h : s.Valid policy) :
    Listed .reject Label.tag s.tagList := by
  rw [tagList]
  cases htags : s.tags with
  | none => exact .nil
  | some labels => exact h.sane .tags labels htags

def retagged (s : Service) (labels : List Label) : Service :=
  { s with tags := if labels.isEmpty then none else some labels }

variable {policy : DuplicatePolicy} {actor : Actor} {current : Service} {labels : List Label}

theorem tagList_retagged (s : Service) (labels : List Label) : (s.retagged labels).tagList = labels := by
  cases labels <;> rfl

theorem patched_patchTags (s : Service) (labels : List Label) :
    s.patched (Effect.patchTags labels) = s.retagged labels := by
  have htags : (FieldPatch.ofList labels).over s.tags = if labels.isEmpty then none else some labels := by
    cases labels with
    | nil => rfl
    | cons l r => by_cases h : s.tags = some (l :: r) <;> simp [FieldPatch.ofList, FieldPatch.over, h]
  unfold retagged
  rw [← htags]
  rfl

theorem checkPatch_patchTags :
    current.checkPatch policy (Effect.patchTags labels) = .ok () ↔ Listed .reject Label.tag labels := by
  rw [checkPatch_eq_ok]
  constructor
  · rintro ⟨-, -, -, hsane⟩
    cases labels with
    | nil => exact .nil
    | cons l r => exact hsane .tags (l :: r) rfl
  · intro h
    refine ⟨nofun, nofun, nofun, fun f a ha => ?_⟩
    cases f with
    | tags =>
      have hset : FieldPatch.ofList labels = .set a := ha
      cases labels with
      | nil => cases hset
      | cons l r =>
        cases hset
        exact h
    | _ => cases ha

theorem update_patchTags {u : Update} (h : current.update policy actor (Effect.patchTags labels) = .ok u) :
    u.service.body = (current.retagged labels).body := by
  rw [← patched_patchTags]
  exact update_body rfl h

theorem update_retagged (hcheck : Listed .reject Label.tag labels)
    (hsame : (current.retagged labels).tags = current.tags) (actor : Actor) :
    current.update policy actor (Effect.patchTags labels) = .ok (.unchanged current) := by
  apply update_unchanged (checkPatch_patchTags.2 hcheck) (.inl rfl)
  intro f
  rw [← get_patched, patched_patchTags]
  cases f with
  | tags => exact hsame
  | _ => rfl

theorem update_accepted_retagged (hcheck : Listed .reject Label.tag labels)
    (hroom : current.version.tenths.toNat + 1 < UInt32.size) (actor : Actor) :
    ∃ u, current.update policy actor (Effect.patchTags labels) = .ok u := by
  have hstride : current.stride (current.patched (Effect.patchTags labels)) = 1 := by
    rw [patched_patchTags]
    exact stride_eq_one rfl rfl rfl
  have haccepted : ¬ (Effect.patchTags labels).Refused policy current := by
    apply Patch.not_refused_iff.2
    refine ⟨checkPatch_patchTags.2 hcheck, nofun, fun _ => ?_⟩
    rwa [hstride]
  obtain ⟨u, hu, -⟩ := update_accepted haccepted actor
  exact ⟨u, hu⟩

/-- The tags are as an edit leaves them: labels of tiers stand last, and a list that is empty is absent. -/
inductive Arranged (s : Service) : Prop
  | absent (htags : s.tags = none)
  | present {labels : List Label} (htags : s.tags = some labels) (hnonempty : labels ≠ [])
      (hordered : Label.arranged labels = labels)

theorem arranged_iff {s : Service} : s.Arranged ↔ (s.retagged (Label.arranged s.tagList)).tags = s.tags := by
  constructor
  · rintro (htags | ⟨htags, hnonempty, hordered⟩)
    · rw [retagged, tagList, htags]
      rfl
    · rw [retagged, tagList, htags, Option.getD_some, hordered]
      exact if_neg (mt List.isEmpty_iff.1 hnonempty)
  · intro h
    cases htags : s.tags with
    | none => exact .absent htags
    | some labels =>
      rw [retagged, tagList, htags, Option.getD_some] at h
      split at h
      · cases h
      · next hnonempty =>
        have hordered := Option.some.inj h
        rw [hordered] at hnonempty
        exact .present htags (mt List.isEmpty_iff.2 hnonempty) hordered

end Service

namespace Mutation

inductive Retags (id : Uuid) : Mutation → (List Label → List Label) → Prop
  | select (selected : List TagSelection) : Retags id (.selectTags id selected) (Label.selecting selected)
  | tier {tier : Option TagSelection} (htier : ∀ t ∈ tier, t.isTier = true) :
      Retags id (.setTier id tier) (Label.tiering tier)

namespace Retags

variable {id : Uuid} {m : Mutation} {edit : List Label → List Label}

theorem again (h : Retags id m edit) (labels : List Label) : edit (edit labels) = edit labels := by
  cases h with
  | select selected => exact Label.selecting_selecting selected labels
  | tier htier => exact Label.tiering_tiering htier labels

theorem edited (h : Retags id m edit) : m.edited? = some id := by cases h <;> rfl

variable {settings : Settings} {records : Records} {actor : Actor} {e : Effect}

theorem effect_eq (h : Retags id m edit) (settings : Settings) (records : Records) (actor : Actor) :
    m.effect settings records actor = records.load id >>= fun current =>
      Effect.update settings records actor id (Effect.patchTags (edit current.tagList)) none := by
  cases h with
  | select => rfl
  | tier htier => exact Effect.setTier_eq htier settings records actor id

theorem effect_eq_ok (h : Retags id m edit) :
    m.effect settings records actor = .ok e ↔
      ∃ current, records.get? id = some current ∧ current.isDeleted = false ∧
        ∃ u, current.update settings.policy actor (Effect.patchTags (edit current.tagList)) = .ok u ∧
          Effect.ofUpdate current.version u = e := by
  simp only [h.effect_eq, Outcome.bind_eq_ok, Records.load_eq_ok, Effect.update_eq_ok, Effect.patch, Outcome.map_eq_ok]
  constructor
  · rintro ⟨current, hget, stored, hstored, -, hlive, hu⟩
    obtain rfl := Option.some.inj (hget.symm.trans hstored)
    exact ⟨current, hget, hlive, hu⟩
  · rintro ⟨current, hget, hlive, hu⟩
    exact ⟨current, hget, current, hget, nofun, hlive, hu⟩

end Retags

inductive Upholds (s : Service) : Mutation → Prop
  | select : Upholds s (.selectTags s.id ((Label.untiered s.tagList).map .ofLabel))
  | tier {tier : Option TagSelection} (htier : tier.map (·.tag) = (Label.tiers s.tagList).head?.map (·.tag)) :
      Upholds s (.setTier s.id tier)

theorem Upholds.retags {s : Service} {m : Mutation} (h : m.Upholds s) (hone : (Label.tiers s.tagList).length ≤ 1) :
    ∃ edit, Retags s.id m edit ∧ edit s.tagList = Label.arranged s.tagList := by
  cases h with
  | select => exact ⟨_, .select _, Label.selecting_own hone⟩
  | tier htier => exact ⟨_, .tier (Label.isTier_own htier), Label.tiering_own htier hone⟩

end Mutation

namespace Catalog.State

variable {s : State} {actor : Actor} {id : Uuid} {m : Mutation} {edit : List Label → List Label} {e : Effect}

theorem step_retagged (hm : m.Retags id edit) (h : (s.step actor m).2 = .ok e) :
    ∃ current, s.records.get? id = some current ∧ (s.step actor m).1.records.get? id = some e.service ∧
      e.service.tagList = edit current.tagList ∧
      e.service.body = (current.retagged e.service.tagList).body ∧
      ∀ later, (s.step actor m).1.step later m = ((s.step actor m).1, .ok (.unchanged e.service)) := by
  obtain ⟨current, hget, hlive, u, hu, rfl⟩ := hm.effect_eq_ok.1 (effect_of_step h)
  have hstored := get?_of_step h (Effect.ofUpdate_ne_removed _ _)
  rw [Effect.service_ofUpdate] at hstored ⊢
  have hid : u.service.id = id :=
    (congrArg Prod.fst (Service.update_settles hu).1).trans (Records.id_of_get? hget)
  rw [hid] at hstored
  have hbody := Service.update_patchTags hu
  have htags : u.service.tagList = edit current.tagList :=
    (congrArg Service.tagList hbody).trans (current.tagList_retagged _)
  refine ⟨current, hget, hstored, htags, by rw [htags, hbody], fun later => ?_⟩
  apply step_of_noop
  rw [hm.effect_eq_ok]
  refine ⟨u.service, hstored, (congrArg Service.isDeleted hbody).trans hlive, .unchanged u.service, ?_, rfl⟩
  rw [htags, hm.again, step_settings]
  exact Service.update_again hu later

/-- A selection takes the place of the labels that are not of tiers. Of the labels of tiers only the first stays, so
they are what they were if there was no other. -/
theorem selection_keeps_first_tier {selected : List TagSelection}
    (h : (s.step actor (.selectTags id selected)).2 = .ok e) :
    ∃ current, s.records.get? id = some current ∧
      (s.step actor (.selectTags id selected)).1.records.get? id = some e.service ∧
      Label.untiered e.service.tagList =
        Label.reconcile (Label.untiered current.tagList) (selected.filter fun t => !t.isTier) ∧
      Label.tiers e.service.tagList = (Label.tiers current.tagList).take 1 ∧
      (Label.tiers e.service.tagList = Label.tiers current.tagList ↔ (Label.tiers current.tagList).length ≤ 1) ∧
      e.service.body = (current.retagged e.service.tagList).body := by
  obtain ⟨current, hget, hstored, htags, hbody, -⟩ := step_retagged (.select selected) h
  have htiers : Label.tiers e.service.tagList = (Label.tiers current.tagList).take 1 := by
    rw [htags, Label.tiers_selecting]
  refine ⟨current, hget, hstored, ?_, htiers, ?_, hbody⟩
  · rw [htags, Label.untiered_selecting]
  · rw [htiers, List.take_eq_self_iff]

def firstTier : Label := .manual "Tier.Tier1" .classification

def secondTier : Label := .manual "Tier.Tier2" .classification

def derivedLabel : Label :=
  { Label.manual "PII.Sensitive" .classification with origin := .derived, state := .suggested }

def taggedRequest (labels : List Label) : Registration :=
  { Registration.ofConnection "probe" (.ofLaunch (.ofCommand "run")) with tags := some labels }

def tagged (labels : List Label) : State :=
  (start (.empty []) ⟨.reject, 10⟩ none).run [(⟨"ann", .manual, 1⟩, .create (taggedRequest labels) ⟨1⟩)]

def tagSelection : List TagSelection :=
  [.ofTag "Glossary.Files" .glossary, .ofTag "PII.Sensitive" .classification, .ofTag "Tier.Tier2" .classification]

theorem selection_keeps_first_tier_derived :
    let after := (tagged [firstTier, derivedLabel]).step ⟨"ben", .manual, 2⟩ (.selectTags ⟨1⟩ tagSelection)
    ∃ e, after.2 = .ok e ∧ Label.tiers e.service.tagList = [firstTier] ∧
      Label.untiered e.service.tagList = [derivedLabel, .manual "Glossary.Files" .glossary] := by
  intro after
  obtain ⟨e, he⟩ : ∃ e, after.2 = .ok e := Outcome.exists_ok (by decide +kernel)
  obtain ⟨current, hget, -, huntiered, htiers, -⟩ := selection_keeps_first_tier he
  have hlabels : ∀ x ∈ (tagged [firstTier, derivedLabel]).records.get? ⟨1⟩, x.tagList = [firstTier, derivedLabel] := by
    decide +kernel
  rw [hlabels current hget] at huntiered htiers
  exact ⟨e, he, htiers.trans (by decide +kernel), huntiered.trans (by decide +kernel)⟩

/-- Where a service is registered with two tiers, a selection takes the second one away. -/
theorem second_tier_dropped :
    let s := tagged [firstTier, secondTier]
    let after := s.step ⟨"ben", .manual, 2⟩ (.selectTags ⟨1⟩ [])
    (∃ current ∈ s.records.get? ⟨1⟩, current.isDeleted = false ∧
        Label.tiers current.tagList = [firstTier, secondTier]) ∧
      ∃ base next change, after.2 = .ok (.changed base next change) ∧
        after.1.records.get? next.id = some next ∧ Label.tiers next.tagList = [firstTier] := by
  intro s after
  refine ⟨by decide +kernel, ?_⟩
  obtain ⟨base, next, change, hchanged, htiers⟩ := Outcome.exists_changed (o := after.2)
    (p := fun next => Label.tiers next.tagList = [firstTier]) (by decide +kernel)
  have hstored := get?_of_step (s := s) (m := .selectTags ⟨1⟩ []) hchanged (by simp)
  exact ⟨base, next, change, hchanged, hstored, of_decide_eq_true htiers⟩

/-- Once a tier was set it is the only one and stands last; its label is that of the first tier from before if this
had its tag, else one put on by hand. The other labels stay as they are. To repeat an edit of the tags that succeeded
does nothing. -/
theorem retagging_settles (s : State) (actor : Actor) (id : Uuid) :
    (∀ tier e, (s.step actor (.setTier id tier)).2 = .ok e →
      ∃ current, s.records.get? id = some current ∧
        (s.step actor (.setTier id tier)).1.records.get? id = some e.service ∧
        Label.untiered e.service.tagList = Label.untiered current.tagList ∧
        (tier = none → Label.tiers e.service.tagList = []) ∧
        ∀ t, tier = some t → ∃ label, Label.tiers e.service.tagList = [label] ∧
          e.service.tagList.getLast? = some label ∧ label.tag = t.tag ∧
          (∀ l, (Label.tiers current.tagList).head? = some l → l.tag = t.tag → label = l) ∧
          ((∀ l, (Label.tiers current.tagList).head? = some l → l.tag ≠ t.tag) →
            label = t.label ∧ label.origin = .manual ∧ label.state = .confirmed)) ∧
      ∀ m, (∃ tier, m = .setTier id tier) ∨ (∃ selected, m = .selectTags id selected) →
        ∀ e, (s.step actor m).2 = .ok e →
          ∀ later, (s.step actor m).1.step later m = ((s.step actor m).1, .ok (.unchanged e.service)) := by
  constructor
  · intro tier e h
    have htier := Effect.isTier_of_setTier (effect_of_step h)
    obtain ⟨current, hget, hstored, htags, -, -⟩ := step_retagged (.tier htier) h
    have htiers : Label.tiers e.service.tagList =
        (tier.map (Effect.tierLabel (Label.tiers current.tagList).head?)).toList := by
      rw [htags, Label.tiers_tiering htier]
    refine ⟨current, hget, hstored, ?_, ?_, ?_⟩
    · rw [htags, Label.untiered_tiering htier]
    · rintro rfl
      exact htiers
    · rintro t rfl
      refine ⟨_, htiers, ?_, Label.tierLabel_tag _ t, ?_, ?_⟩
      · rw [htags, Label.tiering, Label.mergeTier, Label.head?_tiers]
        simp [Label.splitTier]
      · intro l hl htag
        rw [hl, Label.tierLabel_of_eq htag]
      · intro hother
        rw [Label.tierLabel_of_ne hother]
        exact ⟨rfl, rfl, rfl⟩
  · rintro m (⟨tier, rfl⟩ | ⟨selected, rfl⟩) e h
    · obtain ⟨-, -, -, -, -, hagain⟩ := step_retagged (.tier (Effect.isTier_of_setTier (effect_of_step h))) h
      exact hagain
    · obtain ⟨-, -, -, -, -, hagain⟩ := step_retagged (.select selected) h
      exact hagain

theorem retagging_settles_tiered :
    let s := tagged [firstTier, derivedLabel]
    let after := s.step ⟨"ben", .manual, 2⟩ (.setTier ⟨1⟩ (some (.ofTag "Tier.Tier2" .classification)))
    ∃ e, after.2 = .ok e ∧ Label.tiers e.service.tagList = [secondTier] ∧
      e.service.tagList.getLast? = some secondTier ∧ Label.untiered e.service.tagList = [derivedLabel] ∧
      after.1.step ⟨"cid", .manual, 3⟩ (.setTier ⟨1⟩ (some (.ofTag "Tier.Tier2" .classification))) =
        (after.1, .ok (.unchanged e.service)) := by
  intro s after
  obtain ⟨e, he⟩ : ∃ e, after.2 = .ok e := Outcome.exists_ok (by decide +kernel)
  obtain ⟨htier, hagain⟩ := retagging_settles s ⟨"ben", .manual, 2⟩ ⟨1⟩
  obtain ⟨current, hget, -, huntiered, -, hset⟩ := htier _ e he
  have hlabels : ∀ x ∈ s.records.get? ⟨1⟩, x.tagList = [firstTier, derivedLabel] := by decide +kernel
  rw [hlabels current hget] at huntiered hset
  obtain ⟨label, htiers, hlast, -, -, hnew⟩ := hset _ rfl
  have hother : ∀ l ∈ (Label.tiers [firstTier, derivedLabel]).head?, l.tag ≠ "Tier.Tier2" := by decide +kernel
  obtain ⟨rfl, -⟩ := hnew hother
  exact ⟨e, he, htiers, hlast, huntiered.trans (by decide +kernel), hagain _ (.inl ⟨_, rfl⟩) e he _⟩

section
variable {current : Service} (hget : s.records.get? current.id = some current) (hm : m.Upholds current)
  (hone : (Label.tiers current.tagList).length ≤ 1)
include hget hm hone

theorem step_upheld (hlive : current.isDeleted = false)
    (hlisted : Listed .reject Label.tag (Label.arranged current.tagList)) (harranged : current.Arranged)
    (actor : Actor) : s.step actor m = (s, .ok (.unchanged current)) := by
  obtain ⟨edit, hretags, hedit⟩ := hm.retags hone
  apply step_of_noop
  rw [hretags.effect_eq_ok]
  refine ⟨current, hget, hlive, .unchanged current, ?_, rfl⟩
  rw [hedit]
  exact Service.update_retagged hlisted (Service.arranged_iff.1 harranged) actor

theorem step_arranging (harranged : ¬ current.Arranged) (h : (s.step actor m).2 = .ok e) :
    e.change?.isSome = true ∧ e.service.body = (current.retagged (Label.arranged current.tagList)).body := by
  obtain ⟨edit, hretags, hedit⟩ := hm.retags hone
  obtain ⟨stored, hstored, -, u, hu, rfl⟩ := hretags.effect_eq_ok.1 (effect_of_step h)
  obtain rfl := Option.some.inj (hget.symm.trans hstored)
  have hbody := Service.update_patchTags hu
  rw [hedit] at hbody
  rw [Effect.service_ofUpdate]
  refine ⟨?_, hbody⟩
  -- an update that changes nothing leaves the tags, which are then those that the edit makes
  obtain ⟨-, renamed, -, ⟨-, -, rfl⟩ | ⟨v, change, rfl⟩⟩ := Service.update_cases hu
  · exact absurd (Service.arranged_iff.2 (congrArg Service.tags hbody).symm) harranged
  · rfl

theorem answer_upheld (hdistinct : s.records.Distinct) (hlive : current.isDeleted = false)
    (hlisted : Listed .reject Label.tag (Label.arranged current.tagList))
    (hroom : current.version.tenths.toNat + 1 < UInt32.size) (actor : Actor) :
    ∃ e, s.catalog.answer actor m = .ok e := by
  obtain ⟨edit, hretags, hedit⟩ := hm.retags hone
  have haccepted : ∃ u, current.update s.catalog.settings.policy actor
      (Effect.patchTags (Label.arranged current.tagList)) = .ok u :=
    Service.update_accepted_retagged hlisted hroom actor
  obtain ⟨u, hu⟩ := haccepted
  rw [← hedit] at hu
  refine ⟨Effect.ofUpdate current.version u, ?_⟩
  rw [answer_of_edited hdistinct hretags.edited]
  exact hretags.effect_eq_ok.2 ⟨current, hget, hlive, u, hu, rfl⟩

end

/-- Over any run, an edit that asks for the tags a live service has leaves the catalog as it is where the tags are
arranged, so far as there is one tier at most. Where they are not, it arranges them and does nothing else; only a
version counter without room or the files stop it. -/
theorem run_upheld (files : Files) (settings : Settings) (file : Option Path) (steps : List (Actor × Mutation))
    {x : ServiceRecord} (hx : x ∈ ((start files settings file).run steps).records.list)
    (hlive : x.current.isDeleted = false) (hone : (Label.tiers x.current.tagList).length ≤ 1) {m : Mutation}
    (hm : m.Upholds x.current) (actor : Actor) :
    let t := (start files settings file).run steps
    (x.current.Arranged → t.step actor m = (t, .ok (.unchanged x.current))) ∧
      (¬ x.current.Arranged →
        (∀ e, (t.step actor m).2 = .ok e → e.change?.isSome = true ∧
          e.service.body = (x.current.retagged (Label.arranged x.current.tagList)).body) ∧
        (x.current.version.tenths.toNat + 1 < UInt32.size → (∃ e, (t.step actor m).2 = .ok e) ∨
          file.isSome = true ∧ ∃ fault, (t.step actor m).2 = .error (.storage fault))) := by
  intro t
  have hget : t.records.get? x.current.id = some x.current := Records.get?_of_mem hx
  have hvalid : x.current.Valid settings.policy :=
    run_valid files settings file steps x hx x.current x.current_mem_states
  have hlisted : Listed .reject Label.tag (Label.arranged x.current.tagList) :=
    hvalid.listed_tags.perm (Label.arranged_perm _)
  refine ⟨fun harranged => ?_, fun harranged => ⟨fun e he => ?_, fun hroom => ?_⟩⟩
  · exact step_upheld hget hm hone hlive hlisted harranged actor
  · exact step_arranging hget hm hone harranged he
  · have hdistinct : t.records.Distinct := (run_indexed files settings file steps).distinct
    obtain ⟨e, hanswer⟩ := answer_upheld hget hm hone hdistinct hlive hlisted hroom actor
    have hfile : t.store.file = file := run_file _ _
    rw [← hfile]
    exact (outcome_of_answer hanswer).imp_left fun h => ⟨e, h⟩

theorem run_upheld_ordered :
    let t := tagged [derivedLabel, firstTier]
    ∃ x ∈ t.records.list, x.current.Arranged ∧ x.current.isDeleted = false ∧
      (Label.tiers x.current.tagList).length ≤ 1 ∧
      t.step ⟨"ben", .manual, 2⟩ (.selectTags x.current.id ((Label.untiered x.current.tagList).map .ofLabel)) =
        (t, .ok (.unchanged x.current)) ∧
      t.step ⟨"ben", .manual, 2⟩ (.setTier x.current.id (some (.ofLabel firstTier))) =
        (t, .ok (.unchanged x.current)) := by
  intro t
  have hstored : ∃ x ∈ t.records.list, x.current.isDeleted = false ∧
      x.current.tags = some [derivedLabel, firstTier] := by decide +kernel
  obtain ⟨x, hx, hlive, htags⟩ := hstored
  have hlabels : x.current.tagList = [derivedLabel, firstTier] := by rw [Service.tagList, htags, Option.getD_some]
  have harranged : x.current.Arranged := .present htags (by decide) (by decide +kernel)
  have hone : (Label.tiers x.current.tagList).length ≤ 1 := by
    rw [hlabels]
    decide +kernel
  have htier : (some (TagSelection.ofLabel firstTier)).map (·.tag) =
      (Label.tiers x.current.tagList).head?.map (·.tag) := by
    rw [hlabels]
    decide +kernel
  obtain ⟨hselected, -⟩ := run_upheld _ _ _ _ hx hlive hone .select ⟨"ben", .manual, 2⟩
  obtain ⟨htiered, -⟩ := run_upheld _ _ _ _ hx hlive hone (.tier htier) ⟨"ben", .manual, 2⟩
  exact ⟨x, hx, harranged, hlive, hone, hselected harranged, htiered harranged⟩

/-- Tags in which a tier stands first are moved, and a list that is empty is cleared, although the edit asks for what
is there. -/
theorem disarranged_tags_changed :
    (let s := tagged [firstTier, derivedLabel]
      ∃ current ∈ s.records.get? ⟨1⟩, current.isDeleted = false ∧ current.tags = some [firstTier, derivedLabel] ∧
        (Label.tiers current.tagList).length ≤ 1 ∧
        ∃ base next change, (s.step ⟨"ben", .manual, 2⟩
            (.selectTags ⟨1⟩ ((Label.untiered current.tagList).map .ofLabel))).2 = .ok (.changed base next change) ∧
          next.tags = some [derivedLabel, firstTier]) ∧
      (let s := tagged []
      ∃ current ∈ s.records.get? ⟨1⟩, current.isDeleted = false ∧ current.tags = some [] ∧
        ∃ base next change, (s.step ⟨"ben", .manual, 2⟩
            (.selectTags ⟨1⟩ ((Label.untiered current.tagList).map .ofLabel))).2 = .ok (.changed base next change) ∧
          next.tags = none) := by
  constructor
  · intro s
    have hstored : ∃ current ∈ s.records.get? ⟨1⟩, current.isDeleted = false ∧
        current.tags = some [firstTier, derivedLabel] := by decide +kernel
    obtain ⟨current, hget, hlive, htags⟩ := hstored
    have hlabels : current.tagList = [firstTier, derivedLabel] := by rw [Service.tagList, htags, Option.getD_some]
    refine ⟨current, hget, hlive, htags, ?_⟩
    rw [hlabels]
    refine ⟨by decide +kernel, ?_⟩
    obtain ⟨base, next, change, hchanged, hmoved⟩ := Outcome.exists_changed
      (o := (s.step ⟨"ben", .manual, 2⟩
        (.selectTags ⟨1⟩ ((Label.untiered [firstTier, derivedLabel]).map .ofLabel))).2)
      (p := fun next => next.tags = some [derivedLabel, firstTier]) (by decide +kernel)
    exact ⟨base, next, change, hchanged, of_decide_eq_true hmoved⟩
  · intro s
    have hstored : ∃ current ∈ s.records.get? ⟨1⟩, current.isDeleted = false ∧ current.tags = some [] := by
      decide +kernel
    obtain ⟨current, hget, hlive, htags⟩ := hstored
    have hlabels : current.tagList = [] := by rw [Service.tagList, htags, Option.getD_some]
    refine ⟨current, hget, hlive, htags, ?_⟩
    rw [hlabels]
    obtain ⟨base, next, change, hchanged, hcleared⟩ := Outcome.exists_changed
      (o := (s.step ⟨"ben", .manual, 2⟩ (.selectTags ⟨1⟩ ((Label.untiered []).map .ofLabel))).2)
      (p := fun next => next.tags = none) (by decide +kernel)
    exact ⟨base, next, change, hchanged, of_decide_eq_true hcleared⟩

end Catalog.State

end ServiceCatalog
