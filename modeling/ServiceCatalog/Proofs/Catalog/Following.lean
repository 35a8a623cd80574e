import ServiceCatalog.Proofs.Catalog.Editing
import ServiceCatalog.Proofs.Catalog.Followers
import ServiceCatalog.Proofs.Catalog.Freezing
import ServiceCatalog.Proofs.Catalog.Independence
import ServiceCatalog.Proofs.Catalog.Putting
import ServiceCatalog.Proofs.Service.Following

namespace ServiceCatalog

namespace Mutation

variable {id : Uuid}

theorem followed_of_target_ne {m : Mutation} {records : Records} (h : m.target? records ≠ some id)
    (l : List Reference) : m.followed id l = l := by
  have hne {i : Uuid} (hi : m.target? records = some i) : i ≠ id := fun he => h (he ▸ hi)
  cases m with
  | follow => exact if_neg fun hi => hne rfl hi.1
  | unfollow | remove => exact if_neg (hne rfl)
  | _ => rfl

theorem effect_followers {settings : Settings} {records : Records} {actor : Actor} {m : Mutation} {current : Service}
    {e : Effect} (htarget : m.target? records = some id) (hget : records.get? id = some current)
    (h : m.effect settings records actor = .ok e) (hkept : ∀ s, e ≠ .removed s) :
    e.service.followerList = m.followed id current.followerList := by
  have hlist (hsame : e.service.followers = current.followers) : e.service.followerList = current.followerList :=
    congrArg (·.getD []) hsame
  cases m with
  | create => cases htarget
  | put request =>
    obtain ⟨t, ht, rfl⟩ := Option.map_eq_some_iff.1 htarget
    obtain rfl := Option.some.inj (hget.symm.trans (Records.get?_of_getNamed? ht))
    obtain ⟨-, ⟨hnone, -⟩ | ⟨s, u, hs, -, hu, rfl⟩⟩ := Effect.put_eq_ok.1 h
    · rw [ht] at hnone
      cases hnone
    · obtain rfl := Option.some.inj (ht.symm.trans hs)
      exact hlist (Effect.followers_of_patch (Outcome.map_eq_ok.2 ⟨u, hu, rfl⟩))
  | update i =>
    obtain rfl := Option.some.inj htarget
    exact hlist (Effect.followers_of_update hget h)
  | delete i | restore i =>
    obtain rfl := Option.some.inj htarget
    exact hlist (Effect.followers_of_mark hget h)
  | remove i =>
    obtain ⟨s, -, rfl⟩ := Outcome.map_eq_ok.1 h
    exact absurd rfl (hkept s)
  | follow i =>
    obtain rfl := Option.some.inj htarget
    rw [Effect.followerList_of_follow hget h, followed]
    cases current.followerList.any (·.id == _) <;> simp
  | unfollow i =>
    obtain rfl := Option.some.inj htarget
    rw [Effect.followerList_of_unfollow hget h, followed, if_pos rfl]
  | recordTest i =>
    obtain rfl := Option.some.inj htarget
    exact hlist (Effect.followers_of_recordTest hget h)
  | test i =>
    obtain rfl := Option.some.inj htarget
    rw [effect_test] at h
    obtain ⟨_, -, h⟩ := Outcome.bind_eq_ok.1 h
    exact hlist (Effect.followers_of_recordTest hget h)
  | discover i =>
    obtain rfl := Option.some.inj htarget
    rw [effect_discover] at h
    obtain ⟨_, -, h⟩ := Outcome.bind_eq_ok.1 h
    rw [Effect.learn] at h
    split at h
    · exact hlist (Effect.followers_of_update hget h)
    · cases h
  | selectTags i =>
    obtain rfl := Option.some.inj htarget
    exact hlist (Effect.followers_of_update hget ((Effect.load_bind_eq_ok hget).1 h))
  | setTier i =>
    obtain rfl := Option.some.inj htarget
    have hset := Effect.setTier_eq (Effect.isTier_of_setTier h) settings records actor i
    exact hlist (Effect.followers_of_update hget ((Effect.load_bind_eq_ok hget).1 (hset.symm.trans h)))

end Mutation

namespace Catalog.State

def followers (s : State) (id : Uuid) : List Reference :=
  ((s.records.get? id).map Service.followerList).getD []

def performed (s : State) : List (Actor × Mutation) → List Mutation
  | [] => []
  | step :: steps =>
    ((s.step step.1 step.2).2.toOption.map fun _ => step.2).toList ++ (s.step step.1 step.2).1.performed steps

theorem performed_concat (s : State) (steps : List (Actor × Mutation)) (step : Actor × Mutation) :
    s.performed (steps ++ [step]) =
      s.performed steps ++ (((s.run steps).step step.1 step.2).2.toOption.map fun _ => step.2).toList := by
  induction steps generalizing s with
  | nil => simp [performed, run]
  | cons first steps ih =>
    rw [List.cons_append, performed, ih, performed, List.append_assoc]
    rfl

variable {s : State} {actor : Actor} {m : Mutation} {id : Uuid}

theorem followers_of_find? {t : State} (h : s.records.find? id = t.records.find? id) :
    s.followers id = t.followers id := by
  have hget : s.records.get? id = t.records.get? id := congrArg (Option.map ServiceRecord.current) h
  rw [followers, followers, hget]

theorem followers_of_none (h : s.records.find? id = none) : s.followers id = [] := by
  have hget : s.records.get? id = none := congrArg (Option.map ServiceRecord.current) h
  rw [followers, hget]
  rfl

theorem followers_of_get? {x : Service} (h : s.records.get? id = some x) : s.followers id = x.followerList := by
  rw [followers, h]
  rfl

theorem step_followers_error {e : CatalogError} (h : (s.step actor m).2 = .error e) :
    (s.step actor m).1.followers id = s.followers id := by
  have hlawful := s.step_lawful actor m
  rw [h] at hlawful
  rw [followers, followers, records, hlawful.1]
  rfl

theorem step_followers_ok {e : Effect} (h : (s.step actor m).2 = .ok e) :
    (s.step actor m).1.followers id = m.followed id (s.followers id) := by
  have hlawful := s.step_lawful actor m
  rw [h] at hlawful
  rcases Mutation.effect_cases (effect_of_step h) with
    ⟨request, i, -, hnone, -, -, rfl⟩ | ⟨i, x, rfl, hget, rfl⟩ | ⟨i, htarget, current, hget, hrevises⟩
  · obtain ⟨-, hfresh, hfind, -⟩ := hlawful
    rw [Mutation.followed_of_target_ne (by rw [hnone]; exact (Option.some_ne_none id).symm)]
    have hid := hfind id
    split at hid
    · next he =>
      rw [he] at hid ⊢
      rw [followers_of_none hfresh, followers_of_get? (Records.get?_eq_some.2 ⟨_, hid, rfl⟩)]
      rfl
    · exact followers_of_find? hid
  · obtain ⟨-, -, hfind, -⟩ := hlawful
    have hid := hfind id
    rw [Records.id_of_get? hget] at hid
    split at hid
    · next he => rw [followers_of_none hid, Mutation.followed, if_pos he.symm]
    · next he => rw [followers_of_find? hid, Mutation.followed, if_neg (Ne.symm he)]
  · have hkept : ∀ x, e ≠ .removed x := by
      rintro x rfl
      rcases hrevises with he | ⟨_, _, _, _, he, -⟩ <;> cases he
    have hnew : ∀ x, e ≠ .created x := by
      rintro x rfl
      rcases hrevises with he | ⟨_, _, _, _, he, -⟩ <;> cases he
    have hservice : e.service.id = i := Option.some.inj ((target?_of_step h hnew).symm.trans htarget)
    by_cases hid : id = i
    · have hafter := get?_of_step h hkept
      rw [hservice] at hafter
      rw [hid, followers_of_get? hafter, followers_of_get? hget]
      exact Mutation.effect_followers htarget hget (effect_of_step h) hkept
    · have hother : m.target? s.records ≠ some id := by
        rw [htarget]
        exact fun he => hid (Option.some.inj he).symm
      rw [Mutation.followed_of_target_ne hother]
      exact followers_of_find? (s.step_find?_of_ne actor hother (by simp [htarget]))

theorem step_followers_other (hfollow : ∀ user, m ≠ .follow id user) (hunfollow : ∀ user, m ≠ .unfollow id user)
    (hremove : m ≠ .remove id) : (s.step actor m).1.followers id = s.followers id := by
  cases houtcome : (s.step actor m).2 with
  | error e => exact step_followers_error houtcome
  | ok e =>
    rw [step_followers_ok houtcome]
    cases m with
    | follow i user => exact if_neg fun h => hfollow user (congrArg (Mutation.follow · user) h.1)
    | unfollow i user => exact if_neg fun h => hunfollow user (congrArg (Mutation.unfollow · user) h)
    | remove i => exact if_neg fun h => hremove (congrArg Mutation.remove h)
    | _ => rfl

theorem run_standing (files : Files) (settings : Settings) (file : Option Path) (steps : List (Actor × Mutation))
    (id : Uuid) :
    ((start files settings file).run steps).followers id =
      Mutation.standing id ((start files settings file).performed steps) := by
  induction steps using List.reverseRecOn with
  | nil => rfl
  | append_singleton steps step ih =>
    rw [run_concat, performed_concat]
    cases houtcome : (((start files settings file).run steps).step step.1 step.2).2 with
    | error e =>
      rw [step_followers_error houtcome, ih]
      exact congrArg (Mutation.standing id) (List.append_nil _).symm
    | ok e =>
      rw [step_followers_ok houtcome, ih]
      exact (Mutation.standing_concat _ _).symm

section

variable {x : ServiceRecord} (hx : x ∈ s.records.list) {user : Reference} {a b : Actor}
include hx

theorem step_follow_unfollow (htidy : x.current.TidyFollowers) (hnew : ∀ f ∈ x.current.followerList, f.id ≠ user.id)
    {e e' : Effect} (h : (s.step a (.follow x.id user)).2 = .ok e)
    (h' : ((s.step a (.follow x.id user)).1.step b (.unfollow x.id user.id)).2 = .ok e') :
    ∃ joined left change change', e = .changed x.current.version joined change ∧
      e' = .changed joined.version left change' ∧
      x.current.NextMinor joined change (some [⟨"followers", none, some (toValue user)⟩]) none ∧
      joined.NextMinor left change' none (some [⟨"followers", some (toValue user), none⟩]) ∧
      left.body = x.current.body ∧
      (s.run [(a, .follow x.id user), (b, .unfollow x.id user.id)]).records.find? x.id =
        some ((x.advance joined).advance left) := by
  have hget : s.records.get? x.id = some x.current := Records.get?_of_mem hx
  obtain ⟨joined, change, rfl, hbody, hjoined⟩ := Effect.follow_new hget hnew (effect_of_step h)
  have hid : joined.id = x.id := (congrArg Service.id hbody).trans rfl
  have hfind := find?_of_changed hx hid h
  obtain ⟨hafter, -⟩ := Records.find?_eq_some.1 hfind
  have hget' : (s.step a (.follow x.id user)).1.records.get? x.id = some joined :=
    Records.get?_eq_some.2 ⟨_, hfind, rfl⟩
  have hlist : joined.followerList = x.current.followerList ++ [user] :=
    (congrArg Service.followerList hbody).trans rfl
  obtain ⟨left, change', rfl, hbody', hleft⟩ := Effect.unfollow_last hget' hlist hnew (effect_of_step h')
  have hid' : left.id = (x.advance joined).id := (congrArg Service.id hbody').trans rfl
  have hlast := find?_of_changed hafter hid' h'
  refine ⟨joined, left, change, change', rfl, rfl, hjoined, hleft, ?_, ?_⟩
  · rw [hbody', Service.body_withFollowers hbody, ← htidy]
    rfl
  · have hadvanced : (x.advance joined).id = x.id := hid
    rw [hadvanced] at hlast
    exact hlast

theorem exists_follow_unfollow (hindexed : s.records.Indexed) (hlive : x.current.isDeleted = false)
    (hnew : ∀ f ∈ x.current.followerList, f.id ≠ user.id)
    (hroom : x.current.version.tenths.toNat + 2 < UInt32.size)
    (hsaves : s.store.file.isSome = true → s.Saves [(a, .follow x.id user), (b, .unfollow x.id user.id)]) :
    ∃ e e', (s.step a (.follow x.id user)).2 = .ok e ∧
      ((s.step a (.follow x.id user)).1.step b (.unfollow x.id user.id)).2 = .ok e' := by
  have hget : s.records.get? x.id = some x.current := Records.get?_of_mem hx
  obtain ⟨e, he⟩ := Effect.follow_accepted hget hlive (by omega) a user
  have hfirst : (s.step a (.follow x.id user)).2 = .ok e := by
    rw [outcome_eq_answer fun h => (hsaves h).1, answer_of_edited hindexed.distinct rfl]
    exact he
  obtain ⟨joined, change, rfl, hbody, hjoined⟩ := Effect.follow_new hget hnew he
  have hid : joined.id = x.id := (congrArg Service.id hbody).trans rfl
  have hget' : (s.step a (.follow x.id user)).1.records.get? x.id = some joined :=
    Records.get?_eq_some.2 ⟨_, find?_of_changed hx hid hfirst, rfl⟩
  have hlive' : joined.isDeleted = false := (congrArg Service.isDeleted hbody).trans hlive
  have hversion := hjoined.version_eq
  obtain ⟨e', he'⟩ := Effect.unfollow_accepted hget' hlive' (by omega) b user.id
  refine ⟨_, e', hfirst, ?_⟩
  rw [outcome_eq_answer fun h => (hsaves (step_file s a _ ▸ h)).2.1,
    answer_of_edited (step_indexed hindexed a _).distinct rfl]
  exact he'

end

structure KeepsFollowers (t : State) (calls : List Mutation) (x : ServiceRecord) : Prop where
  standing : x.current.followerList = Mutation.standing x.id calls
  nodup : (x.current.followerList.map (·.id)).Nodup
  absent_iff : x.current.followers = none ↔ x.current.followerList = []
  mem_iff : ∀ user, user ∈ x.current.followerList.map (·.id) ↔ ∃ before added after,
    calls = before ++ .follow x.id added :: after ∧ added.id = user ∧ ∀ m ∈ after, m.drops x.id user = false
  other : ∀ actor m, (∀ user, m ≠ .follow x.id user) → (∀ user, m ≠ .unfollow x.id user) → m ≠ .remove x.id →
    ∃ y ∈ (t.step actor m).1.records.list, y.id = x.id ∧ y.current.followers = x.current.followers
  undone : ∀ user a b e e', (∀ f ∈ x.current.followerList, f.id ≠ user.id) →
    (t.step a (.follow x.id user)).2 = .ok e →
    ((t.step a (.follow x.id user)).1.step b (.unfollow x.id user.id)).2 = .ok e' →
    ∃ joined left change change', e = .changed x.current.version joined change ∧
      e' = .changed joined.version left change' ∧
      x.current.NextMinor joined change (some [⟨"followers", none, some (toValue user)⟩]) none ∧
      joined.NextMinor left change' none (some [⟨"followers", some (toValue user), none⟩]) ∧
      left.body = x.current.body ∧
      (t.run [(a, .follow x.id user), (b, .unfollow x.id user.id)]).records.find? x.id =
        some ((x.advance joined).advance left)
  accepted : ∀ user a b, (∀ f ∈ x.current.followerList, f.id ≠ user.id) → x.current.isDeleted = false →
    x.current.version.tenths.toNat + 2 < UInt32.size →
    (t.store.file.isSome = true → t.Saves [(a, .follow x.id user), (b, .unfollow x.id user.id)]) →
    ∃ e e', (t.step a (.follow x.id user)).2 = .ok e ∧
      ((t.step a (.follow x.id user)).1.step b (.unfollow x.id user.id)).2 = .ok e'

theorem run_tidyFollowers (files : Files) (settings : Settings) (file : Option Path)
    (steps : List (Actor × Mutation)) :
    ∀ x ∈ ((start files settings file).run steps).records.list, x.current.TidyFollowers := by
  intro x hx
  apply run_states settings _ _ files file steps x hx x.current x.current_mem_states
  · intro request _ id actor
    rfl
  · intro _ _ _ _ _ _ _ hrevised
    exact hrevised.tidyFollowers

/-- Over any run, the followers of a service are those who were added and not dropped since, each once and in the order
in which they joined. No other call changes them, and who joins and leaves again leaves them as they were. -/
theorem run_followers (files : Files) (settings : Settings) (file : Option Path) (steps : List (Actor × Mutation)) :
    let t := (start files settings file).run steps
    ∀ x ∈ t.records.list, t.KeepsFollowers ((start files settings file).performed steps) x := by
  intro t x hx
  have hindexed : t.records.Indexed := run_indexed files settings file steps
  have htidy : x.current.TidyFollowers := run_tidyFollowers files settings file steps x hx
  have hlist : x.current.followerList =
      Mutation.standing x.id ((start files settings file).performed steps) := by
    rw [← run_standing]
    exact (followers_of_get? (Records.get?_of_mem hx)).symm
  constructor
  case standing => exact hlist
  case nodup =>
    rw [hlist]
    exact Mutation.nodup_standing _ _
  case absent_iff => exact htidy.eq_none_iff
  case mem_iff =>
    intro user
    rw [hlist]
    exact Mutation.mem_standing
  case other =>
    intro actor m hfollow hunfollow hremove
    obtain ⟨y, hy, hid⟩ := (step_kept hx actor m).resolve_right hremove
    have hsame : (t.step actor m).1.followers x.id = t.followers x.id :=
      step_followers_other hfollow hunfollow hremove
    have hafter := followers_of_get? (Records.get?_of_mem hy)
    rw [hid, hsame, followers_of_get? (Records.get?_of_mem hx)] at hafter
    have hmem : y ∈ ((start files settings file).run (steps ++ [(actor, m)])).records.list := by
      rw [run_concat]
      exact hy
    exact ⟨y, hy, hid, (run_tidyFollowers files settings file _ y hmem).followers_eq htidy hafter.symm⟩
  case undone =>
    intro user a b e e' hnew h h'
    exact step_follow_unfollow hx htidy hnew h h'
  case accepted =>
    intro user a b hnew hlive hroom hsaves
    exact exists_follow_unfollow hx hindexed hlive hnew hroom hsaves

def ann : Reference := .user ⟨7⟩ "ann"

def ben : Reference := .user ⟨8⟩ "ben"

def followSteps : List (Actor × Mutation) :=
  [(⟨"ann", .manual, 1⟩, .create (.ofConnection "probe" (.ofLaunch (.ofCommand "run"))) ⟨1⟩),
    (⟨"ann", .manual, 2⟩, .follow ⟨1⟩ ann),
    (⟨"ben", .manual, 3⟩, .follow ⟨1⟩ ben),
    (⟨"ann", .manual, 4⟩, .follow ⟨1⟩ { ann with displayName := some "Ann" }),
    (⟨"ann", .manual, 5⟩, .unfollow ⟨1⟩ ann.id),
    (⟨"ann", .manual, 6⟩, .follow ⟨1⟩ { ann with displayName := some "Anne" })]

theorem run_followers_returned :
    let t := (start (.empty []) ⟨.reject, 10⟩ none).run followSteps
    let user := Reference.user ⟨9⟩ "cid"
    let between := [(⟨"ben", .manual, 7⟩, Mutation.follow ⟨1⟩ user), (⟨"ben", .manual, 8⟩, .unfollow ⟨1⟩ user.id)]
    ∃ x ∈ t.records.list, x.current.followers = some [ben, { ann with displayName := some "Anne" }] ∧
      t.KeepsFollowers ((start (.empty []) ⟨.reject, 10⟩ none).performed followSteps) x ∧
      ∃ joined left, left.followers = x.current.followers ∧
        left.version.tenths.toNat = x.current.version.tenths.toNat + 2 ∧
        (t.run between).records.find? x.id = some ((x.advance joined).advance left) := by
  intro t user between
  have hstored : ∃ x ∈ t.records.list, x.id = ⟨1⟩ ∧ x.current.isDeleted = false ∧
      x.current.version.tenths.toNat = 5 ∧
      x.current.followers = some [ben, { ann with displayName := some "Anne" }] := by decide +kernel
  obtain ⟨x, hx, hid, hlive, hversion, hfollowers⟩ := hstored
  have hkeeps := run_followers (.empty []) ⟨.reject, 10⟩ none followSteps x hx
  have hnew : ∀ f ∈ x.current.followerList, f.id ≠ user.id := by
    rw [Service.followerList, hfollowers]
    decide
  obtain ⟨e, e', he, he'⟩ := hkeeps.accepted user ⟨"ben", .manual, 7⟩ ⟨"ben", .manual, 8⟩ hnew hlive
    (by rw [hversion]; decide) fun hfile => absurd hfile Bool.false_ne_true
  obtain ⟨joined, left, _, _, -, -, hjoined, hleft, hbody, hfind⟩ := hkeeps.undone user _ _ e e' hnew he he'
  rw [hid] at hfind
  refine ⟨x, hx, hfollowers, hkeeps, joined, left, (congrArg Service.followers hbody).trans rfl, ?_, ?_⟩
  · rw [hleft.version_eq, hjoined.version_eq]
  · rw [hid]
    exact hfind

end Catalog.State

end ServiceCatalog
