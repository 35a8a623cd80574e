import ServiceCatalog.Proofs.Catalog.Naming
import ServiceCatalog.Proofs.Catalog.Refinement

namespace ServiceCatalog

theorem Service.Drafted.name_eq {policy : DuplicatePolicy} {asked : Patch → Prop} {current next : Service}
    {log : ChangeLog} (h : Drafted policy asked current next log) (hasked : ∀ p, asked p → p.name = .keep) :
    next.name = current.name := by
  cases h with
  | @patched p renamed log _ hp _ _ hname hfields =>
    rw [hasked p hp] at hname
    obtain rfl := Except.ok.inj hname
    have hnames := (patchFields_names p (.empty, current)).1
    rwa [hfields] at hnames
  | marked | followed | unfollowed | tested => rfl

namespace Mutation

def edited? : Mutation → Option Uuid
  | update id p _ => if p.name.isKeep then some id else none
  | delete id | restore id | follow id _ | unfollow id _ | recordTest id _ _ | test id _ _ | discover id _
  | selectTags id _ | setTier id _ => some id
  | create _ _ | put _ _ | remove _ => none

variable {m : Mutation} {id : Uuid} (hm : m.edited? = some id)
include hm

theorem target?_of_edited (records : Records) : m.target? records = some id := by
  cases m with
  | create | put | remove => cases hm
  | update _ p _ =>
    simp only [edited?, Option.ite_none_right_eq_some] at hm
    exact hm.2
  | _ => exact hm

theorem name_of_edited {p : Patch} (hp : m.asks p) : p.name = .keep := by
  cases m with
  | create | put | remove => cases hm
  | update _ q _ =>
    obtain rfl : p = q := hp
    simp only [edited?, Option.ite_none_right_eq_some] at hm
    cases hname : p.name with
    | keep => rfl
    | clear | set =>
      rw [hname] at hm
      cases hm.1
  | discover =>
    obtain ⟨launch, found, -, rfl⟩ := hp
    rfl
  | selectTags | setTier =>
    obtain ⟨tags, rfl⟩ := hp
    rfl
  | delete | restore | follow | unfollow | recordTest | test => exact hp.elim

theorem effect_congr (settings : Settings) {r t : Records} (h : r.get? id = t.get? id) (actor : Actor) :
    m.effect settings r actor = m.effect settings t actor := by
  have hload : r.load id = t.load id := by rw [Records.load, Records.load, h]
  have hlive : Effect.loadLive r id = Effect.loadLive t id := by rw [Effect.loadLive, Effect.loadLive, hload]
  have hupdate (p : Patch) (base : Option Version) :
      Effect.update settings r actor id p base = Effect.update settings t actor id p base := by
    rw [Effect.update, Effect.update, hload, hlive]
  have htarget := target?_of_edited hm r
  cases m with
  | create | put | remove => cases hm
  | update _ p base =>
    obtain rfl := Option.some.inj htarget
    exact hupdate p base
  | test | discover =>
    obtain rfl := Option.some.inj htarget
    simp only [effect_test, effect_discover, Effect.launchable, Effect.recordTest, Effect.learn, hlive, hupdate]
  | delete | restore | follow | unfollow | recordTest | selectTags | setTier =>
    obtain rfl := Option.some.inj htarget
    simp only [effect, perform, Effect.mark, Effect.follow, Effect.unfollow, Effect.recordTest, Effect.selectTags,
      Effect.setTier, hload, hlive, hupdate]

end Mutation

def Document.ofList (l : List ServiceRecord) : Document :=
  ⟨currentFormat, l.mergeSort fun x y => x.current.qualifiedName ≤ y.current.qualifiedName⟩

theorem Records.Indexed.document_ofList {r : Records} (h : r.Indexed) {l : List ServiceRecord}
    (hperm : l.Perm r.list) : Document.ofList l = Document.ofRecords r := by
  have hsorted : (Document.ofList l).services.Perm r.sorted :=
    ((List.mergeSort_perm l _).trans hperm).trans (List.mergeSort_perm r.list _).symm
  refine congrArg (Document.mk Document.currentFormat)
    (hsorted.eq_of_pairwise ?_ (pairwise_mergeSort l) (pairwise_mergeSort r.list))
  intro x y hx hy hxy hyx
  exact h.qualifiedName_inj (hperm.mem_iff.1 (List.mem_mergeSort.1 hx)) (List.mem_mergeSort.1 hy)
    (le_antisymm hxy hyx)

def Outcome.revised (record? : Option ServiceRecord) : Outcome Effect → Option ServiceRecord
  | .ok (.changed _ next _) => record?.map (·.advance next)
  | _ => record?

namespace Catalog

theorem answer_of_edited {c : Catalog} (hdistinct : c.records.Distinct) {m : Mutation} {id : Uuid}
    (hm : m.edited? = some id) (actor : Actor) : c.answer actor m = m.effect c.settings c.records actor := by
  unfold answer
  have htarget := Mutation.target?_of_edited hm c.records
  cases heffect : m.effect c.settings c.records actor with
  | error e => rfl
  | ok effect =>
    rcases Mutation.effect_cases heffect with
      ⟨_, _, -, hnone, -⟩ | ⟨_, _, rfl, -, -⟩ | ⟨i, hi, current, hget, rfl | ⟨s, change, next, log, rfl, hrevised⟩⟩
    · rw [hnone] at htarget
      cases htarget
    · cases hm
    · rfl
    · obtain ⟨x, hx, rfl, rfl⟩ := Records.mem_of_get? hget
      have hname : s.name = x.current.name := by
        rw [hrevised.released]
        exact hrevised.drafted.name_eq fun p hp => Mutation.name_of_edited hm hp
      simp only [Effect.write?, Records.write, hdistinct.replace_eq hx hrevised.id_eq hname]
      rfl

namespace State

variable {s : State} {actor : Actor} {m : Mutation}

theorem outcome_eq_answer (hsaves : s.store.file.isSome = true → (s.step actor m).2.storageFault? = none) :
    (s.step actor m).2 = s.catalog.answer actor m := by
  cases hfile : s.store.file with
  | none => exact outcome_of_memory hfile actor m
  | some file =>
    rw [hfile] at hsaves
    exact outcome_of_saves (hsaves rfl)

theorem step_of_no_write (hanswer : (s.step actor m).2 = s.catalog.answer actor m)
    (hnone : (s.step actor m).2.toOption.bind Effect.write? = none) : (s.step actor m).1 = s := by
  rcases s.step_cases actor m with ⟨e, he, -⟩ | ⟨effect, hok, -, ⟨-, hsame⟩ | ⟨w, hw⟩⟩
  · rw [step_of_error (hanswer.symm.trans he)]
  · exact hsame
  · rw [hok] at hnone
    have hasked : effect.write? = none := hnone
    rw [hw.asked] at hasked
    cases hasked

theorem step_find?_of_edited_ne (s : State) (actor : Actor) {id other : Uuid} (hm : m.edited? = some id)
    (hother : other ≠ id) : (s.step actor m).1.records.find? other = s.records.find? other := by
  have htarget := Mutation.target?_of_edited hm s.records
  apply s.step_find?_of_ne actor
  · rw [htarget]
    exact fun he => hother (Option.some.inj he).symm
  · rw [htarget]
    nofun

theorem document?_of_write (hwrite : (s.step actor m).2.toOption.bind Effect.write? ≠ none) :
    (s.step actor m).1.document? = s.store.file.map fun _ => (s.step actor m).1.records.text := by
  rw [document?, Store.document?, step_file]
  cases hfile : s.store.file with
  | none => rfl
  | some file => exact text?_of_write hfile hwrite

theorem step_find?_of_edited (actor : Actor) {id : Uuid} (hm : m.edited? = some id) :
    (s.step actor m).1.records.find? id = (s.step actor m).2.revised (s.records.find? id) := by
  have htarget := Mutation.target?_of_edited hm s.records
  have hlawful := s.step_lawful actor m
  generalize (s.step actor m).1 = after at hlawful
  generalize (s.step actor m).2 = outcome at hlawful
  rcases outcome with e | _ | ⟨base, t, change⟩ | _ | t
  · rw [records, hlawful.1]
    rfl
  · rw [hlawful.1] at htarget
    cases htarget
  · obtain ⟨htarget', ⟨x, hx, -, -, -, hfind⟩, -⟩ := hlawful
    obtain rfl := Option.some.inj (htarget.symm.trans htarget')
    rw [hfind, if_pos rfl, hx]
    rfl
  · rw [hlawful.1]
    rfl
  · obtain ⟨rfl, -⟩ := hlawful
    cases hm

section

variable {n : Mutation} {i j : Uuid} {a b : Actor} (hindexed : s.records.Indexed) (hm : m.edited? = some i)
  (hn : n.edited? = some j) (hne : i ≠ j)
include hindexed hm hn hne

theorem outcome_after (hanswer : (s.step b n).2 = s.catalog.answer b n)
    (hafter : ((s.step a m).1.step b n).2 = (s.step a m).1.catalog.answer b n) :
    ((s.step a m).1.step b n).2 = (s.step b n).2 := by
  have hget : (s.step a m).1.catalog.records.get? j = s.catalog.records.get? j :=
    congrArg (Option.map ServiceRecord.current) (s.step_find?_of_edited_ne a hm hne.symm)
  rw [hanswer, hafter, answer_of_edited hindexed.distinct hn,
    answer_of_edited (step_indexed hindexed a m).distinct hn, step_settings]
  exact Mutation.effect_congr hn _ hget b

omit hindexed in
theorem find?_commute (hsame : ((s.step b n).1.step a m).2 = (s.step a m).2) :
    ((s.step a m).1.step b n).1.records.find? i = ((s.step b n).1.step a m).1.records.find? i := by
  rw [step_find?_of_edited_ne _ b hn hne, step_find?_of_edited a hm, step_find?_of_edited a hm,
    step_find?_of_edited_ne _ b hn hne, hsame]

theorem edits_commute (hfirst : (s.step a m).2 = s.catalog.answer a m)
    (hsecond : ((s.step a m).1.step b n).2 = (s.step a m).1.catalog.answer b n)
    (hfirst' : (s.step b n).2 = s.catalog.answer b n)
    (hsecond' : ((s.step b n).1.step a m).2 = (s.step b n).1.catalog.answer a m) :
    ((s.step a m).1.step b n).1.records = ((s.step b n).1.step a m).1.records ∧
      ((s.step a m).1.step b n).1.document? = ((s.step b n).1.step a m).1.document? := by
  have hafter := outcome_after hindexed hm hn hne hfirst' hsecond
  have hafter' := outcome_after hindexed hn hm hne.symm hfirst hsecond'
  have hrecords : ((s.step a m).1.step b n).1.records = ((s.step b n).1.step a m).1.records := by
    apply Records.ext_find?
    intro id
    by_cases hi : id = i
    · rw [hi]
      exact find?_commute hm hn hne hafter'
    · by_cases hj : id = j
      · rw [hj]
        exact (find?_commute hn hm hne.symm hafter).symm
      · rw [step_find?_of_edited_ne _ b hn hj, step_find?_of_edited_ne _ a hm hi, step_find?_of_edited_ne _ a hm hi,
          step_find?_of_edited_ne _ b hn hj]
  refine ⟨hrecords, ?_⟩
  -- the one that writes last leaves the text of the records; one that does not write leaves all as it was
  by_cases hwrite : (s.step a m).2.toOption.bind Effect.write? = none
  · have hlater : ((s.step b n).1.step a m).1 = (s.step b n).1 := step_of_no_write hsecond' (by rw [hafter', hwrite])
    rw [hlater, step_of_no_write hfirst hwrite]
  · by_cases hwrite' : (s.step b n).2.toOption.bind Effect.write? = none
    · have hlater : ((s.step a m).1.step b n).1 = (s.step a m).1 :=
        step_of_no_write hsecond (by rw [hafter, hwrite'])
      rw [hlater, step_of_no_write hfirst' hwrite']
    · rw [document?_of_write (by rwa [hafter]), document?_of_write (by rwa [hafter']), hrecords, step_file, step_file]

end

/-- Over any run services do not interfere: a mutation of one leaves the records of the others as they are, and so
long as the file can be written, edits of two of them answer the same and leave the same records and document in
either order. In which order records are gone through makes no difference to the document. -/
theorem run_independent (files : Files) (settings : Settings) (file : Option Path)
    (steps : List (Actor × Mutation)) :
    let t := (start files settings file).run steps
    (∀ actor m, ∀ x ∈ t.records.list, m.target? t.records ≠ some x.id →
        (t.step actor m).1.records.find? x.id = some x) ∧
      (∀ l, l.Perm t.records.list → Document.ofList l = Document.ofRecords t.records) ∧
      ∀ a b m n i j, m.edited? = some i → n.edited? = some j → i ≠ j →
        (file.isSome = true → t.Saves [(a, m), (b, n)] ∧ t.Saves [(b, n), (a, m)]) →
        ((t.step b n).1.step a m).2 = (t.step a m).2 ∧ ((t.step a m).1.step b n).2 = (t.step b n).2 ∧
          (t.run [(a, m), (b, n)]).records = (t.run [(b, n), (a, m)]).records ∧
          (t.run [(a, m), (b, n)]).document? = (t.run [(b, n), (a, m)]).document? := by
  intro t
  have hindexed : t.records.Indexed := run_indexed files settings file steps
  have hfile : t.store.file = file := run_file _ _
  refine ⟨?_, fun l hperm => hindexed.document_ofList hperm, ?_⟩
  · intro actor m x hx hother
    have hfind := Records.find?_of_mem hx
    exact (t.step_find?_of_ne actor hother fun _ => by rw [hfind]; rfl).trans hfind
  intro a b m n i j hm hn hne hsaves
  rw [← hfile] at hsaves
  have hfirst := outcome_eq_answer fun h => (hsaves h).1.1
  have hfirst' := outcome_eq_answer fun h => (hsaves h).2.1
  have hsecond : ((t.step a m).1.step b n).2 = _ :=
    outcome_eq_answer fun h => (hsaves (step_file t a m ▸ h)).1.2.1
  have hsecond' : ((t.step b n).1.step a m).2 = _ :=
    outcome_eq_answer fun h => (hsaves (step_file t b n ▸ h)).2.2.1
  exact ⟨outcome_after hindexed hn hm hne.symm hfirst hsecond', outcome_after hindexed hm hn hne hfirst' hsecond,
    edits_commute hindexed hm hn hne hfirst hsecond hfirst' hsecond'⟩

def pairSteps : List (Actor × Mutation) :=
  [(⟨"ann", .manual, 1⟩, .create (Registration.ofConnection "probe" (.ofLaunch (.ofCommand "run"))) ⟨1⟩),
    (⟨"ann", .manual, 2⟩, .create (Registration.ofConnection "drill" (.ofLaunch (.ofCommand "run"))) ⟨2⟩)]

def annotating : Actor × Mutation :=
  (⟨"ben", .manual, 3⟩, .update ⟨1⟩ { Patch.empty with description := .set "A probe" } none)

def deleting : Actor × Mutation := (⟨"cid", .manual, 4⟩, .delete ⟨2⟩)

theorem run_independent_saved :
    let t := fresh.run pairSteps
    annotating.2.edited? = some ⟨1⟩ ∧ deleting.2.edited? = some ⟨2⟩ ∧ t.Saves [annotating, deleting] ∧
      t.Saves [deleting, annotating] ∧ (t.run [annotating]).records.find? ⟨2⟩ = t.records.find? ⟨2⟩ ∧
      ((t.run [deleting]).step annotating.1 annotating.2).2 = (t.step annotating.1 annotating.2).2 ∧
      (t.run [annotating, deleting]).records = (t.run [deleting, annotating]).records ∧
      (t.run [annotating, deleting]).document? = (t.run [deleting, annotating]).document? := by
  intro t
  have hsaves : t.Saves [annotating, deleting] := by decide +kernel
  have hsaves' : t.Saves [deleting, annotating] := by decide +kernel
  obtain ⟨hothers, -, hedits⟩ := run_independent (.empty []) ⟨.reject, 10⟩ (some catalogFile) pairSteps
  obtain ⟨houtcome, -, hrecords, hdocument⟩ := hedits annotating.1 deleting.1 annotating.2 deleting.2 ⟨1⟩ ⟨2⟩ rfl rfl
    (by decide) fun _ => ⟨hsaves, hsaves'⟩
  obtain ⟨x, hx⟩ : ∃ x, t.records.find? ⟨2⟩ = some x := Option.isSome_iff_exists.1 (by decide +kernel)
  obtain ⟨hmem, hid⟩ := Records.find?_eq_some.1 hx
  have hkept := hothers annotating.1 annotating.2 x hmem (by rw [hid]; nofun)
  rw [hid] at hkept
  exact ⟨rfl, rfl, hsaves, hsaves', hkept.trans hx.symm, houtcome, hrecords, hdocument⟩

end State

end Catalog

end ServiceCatalog
