import ServiceCatalog.Proofs.Change.Tracked

namespace ServiceCatalog

namespace Service

theorem patchField_spec (p : Patch) (state : ChangeLog × Service) (f : Field) :
    state.1.buckets.Within (patchField p state f).1.buckets ∧
      (patchField p state f).1.buckets.names.Perm
        (state.1.buckets.names ++
          if state.2.get f == (patchField p state f).2.get f then [] else [f.name]) ∧
      ((state.2.get f == (patchField p state f).2.get f) = false →
        (patchField p state f).1.buckets.Moved f.name (state.2.get f) ((patchField p state f).2.get f)) ∧
      ∀ g, g ≠ f → (patchField p state f).2.get g = state.2.get g := by
  obtain ⟨hwithin, hnames, hmoved⟩ := state.1.apply_spec f.name (state.2.get f) (p.get f)
  refine ⟨hwithin, ?_, ?_, fun g hg => get_set_of_ne _ hg _⟩
  · simpa only [patchField, get_set] using hnames
  · simpa only [patchField, get_set] using hmoved

theorem patch_fold_spec (p : Patch) (fields : List Field) (hfields : fields.Nodup)
    (state : ChangeLog × Service) :
    state.1.buckets.Within (fields.foldl (patchField p) state).1.buckets ∧
      (fields.foldl (patchField p) state).1.buckets.names.Perm (state.1.buckets.names ++
        (fields.filter fun f => state.2.get f != (fields.foldl (patchField p) state).2.get f).map Field.name) ∧
      (∀ f ∈ fields, (state.2.get f == (fields.foldl (patchField p) state).2.get f) = false →
        (fields.foldl (patchField p) state).1.buckets.Moved f.name (state.2.get f)
          ((fields.foldl (patchField p) state).2.get f)) ∧
      ∀ g, g ∉ fields → (fields.foldl (patchField p) state).2.get g = state.2.get g := by
  induction fields generalizing state with
  | nil => exact ⟨.refl _, by simp, by simp, fun _ _ => rfl⟩
  | cons f fields ih =>
    obtain ⟨hf, hfields⟩ := List.nodup_cons.1 hfields
    obtain ⟨hwithin, hnames, hmoved, hframe⟩ := patchField_spec p state f
    obtain ⟨hwithin', hnames', hmoved', hframe'⟩ := ih hfields (patchField p state f)
    rw [List.foldl_cons]
    -- the fields after the first are as they were before it
    have hrest : ∀ g ∈ fields, (patchField p state f).2.get g = state.2.get g := fun g hg =>
      hframe g fun he => hf (he ▸ hg)
    refine ⟨hwithin.trans hwithin', ?_, ?_, ?_⟩
    · have hfilter : (fields.filter fun g => (patchField p state f).2.get g
            != (fields.foldl (patchField p) (patchField p state f)).2.get g)
          = fields.filter fun g => state.2.get g
            != (fields.foldl (patchField p) (patchField p state f)).2.get g :=
        List.filter_congr fun g hg => by rw [hrest g hg]
      rw [hfilter] at hnames'
      refine hnames'.trans ((hnames.append_right _).trans ?_)
      rw [List.filter_cons, hframe' f hf]
      cases h : state.2.get f == (patchField p state f).2.get f <;> simp [bne, h]
    · intro g hg hd
      rcases List.mem_cons.1 hg with rfl | hg
      · rw [hframe' g hf] at hd ⊢
        exact (hmoved hd).mono hwithin'
      · rw [← hrest g hg] at hd ⊢
        exact hmoved' g hg hd
    · intro g hg
      rw [hframe' g (List.not_mem_of_not_mem_cons hg), hframe g (List.ne_of_not_mem_cons hg)]

theorem rename_spec {current : Service} {p : FieldPatch String} {renamed : ChangeLog × Service}
    (h : current.rename .empty p = .ok renamed) :
    renamed.1.buckets.names = (if current.name != renamed.2.name then ["name"] else []) ∧
      (current.name != renamed.2.name →
        ⟨"name", some (toValue current.name), some (toValue renamed.2.name)⟩ ∈ renamed.1.buckets.updated) ∧
      (∀ f, renamed.2.get f = current.get f) ∧ renamed.2.followers = current.followers ∧
      renamed.2.testResult = current.testResult ∧ renamed.2.deleted = current.deleted := by
  cases p with
  | clear => cases h
  | keep =>
    cases h
    simp [ChangeLog.empty, ChangeLog.buckets, Buckets.names]
  | set name =>
    have hget (q : String) (f : Field) :
        { current with name := q, qualifiedName := Name.qualify q }.get f = current.get f := by
      cases f <;> rfl
    by_cases he : current.name = name
    · subst he
      simp only [rename, ChangeLog.replace, beq_self_eq_true, if_true] at h
      cases h
      simp [ChangeLog.empty, ChangeLog.buckets, Buckets.names, hget]
    · simp only [rename, ChangeLog.replace, beq_false_of_ne he] at h
      cases h
      simp [ChangeLog.empty, ChangeLog.update, ChangeLog.buckets, Buckets.names, hget, he]

theorem set_name (s : Service) (f : Field) (a : Option f.Content) : (s.set f a).name = s.name := by
  cases f <;> rfl

theorem set_followers (s : Service) (f : Field) (a : Option f.Content) :
    (s.set f a).followers = s.followers := by
  cases f <;> rfl

theorem set_testResult (s : Service) (f : Field) (a : Option f.Content) :
    (s.set f a).testResult = s.testResult := by
  cases f <;> rfl

theorem set_deleted (s : Service) (f : Field) (a : Option f.Content) : (s.set f a).deleted = s.deleted := by
  cases f <;> rfl

variable {current next : Service} {log : ChangeLog}

theorem accounts_of_patch {p : Patch} {renamed : ChangeLog × Service}
    (hname : current.rename .empty p.name = .ok renamed) (hfields : patchFields p renamed = (log, next)) :
    Accounts current next log.buckets := by
  obtain ⟨hnames, hrenamed, hget, hfollowers, htest, hdeleted⟩ := rename_spec hname
  obtain ⟨hwithin, hnames', hmoved, -⟩ := patch_fold_spec p Field.all (by decide) renamed
  have hframe {α : Type} (view : Service → α) (hview : ∀ s f a, view (set s f a) = view s) :
      view next = view renamed.2 := by
    rw [← patchFields_frame view p hview renamed, hfields]
  rw [← patchFields, hfields] at hwithin hnames' hmoved
  simp only [hget] at hnames' hmoved
  rw [hnames, ← hframe name set_name] at hnames'
  rw [← hframe name set_name] at hrenamed
  have hsame : next.followers = current.followers ∧ next.testResult = current.testResult ∧
      next.isDeleted = current.isDeleted := by
    refine ⟨(hframe _ set_followers).trans hfollowers, (hframe _ set_testResult).trans htest, ?_⟩
    rw [isDeleted, isDeleted, hframe _ set_deleted, hdeleted]
  refine ⟨hnames'.trans (List.Perm.of_eq ?_), fun t ht => ?_⟩
  · have hlabels : (Field.all.filter fun f => current.get f != next.get f).map Field.name
        = ((Field.all.map Tracked.field).filter (·.differs current next)).map Tracked.label := by
      rw [List.filter_map, List.map_map]
      rfl
    rw [hlabels]
    simp only [Tracked.all, List.cons_append, List.filter_cons, List.filter_append, Tracked.differs, hsame]
    cases current.name != next.name <;> simp [Tracked.label]
  · cases t with
    | name => exact hwithin.updated (hrenamed ht)
    | field f =>
      refine hmoved f f.mem_all ?_
      simpa only [Tracked.differs, bne, Bool.not_eq_true'] using ht
    | followers => simp [Tracked.differs, hsame] at ht
    | testResult => simp [Tracked.differs, hsame] at ht
    | deleted => simp [Tracked.differs, hsame] at ht

theorem buckets_escalate (log : ChangeLog) (step : VersionStep) :
    (log.escalate step).buckets = log.buckets := rfl

theorem accounts_of_mark (current : Service) (deleted : Bool) :
    Accounts current { current with deleted := some deleted }
      (ChangeLog.empty.replace "deleted" current.isDeleted deleted).1.buckets := by
  refine .of_one .deleted (fun t ht => ?_) ?_ fun h => ?_
  · cases t with
    | field f => exact Tracked.differs_field_of_eq (by cases f <;> rfl)
    | deleted => exact absurd rfl ht
    | name | followers | testResult => simp [Tracked.differs]
  · have hnow : ({ current with deleted := some deleted } : Service).isDeleted = deleted := rfl
    by_cases hd : current.isDeleted = deleted
    · simp [Tracked.differs, hnow, hd, ChangeLog.replace, ChangeLog.empty, ChangeLog.buckets, Buckets.names]
    · simp [Tracked.differs, hnow, hd, ChangeLog.replace, ChangeLog.empty, ChangeLog.update,
        ChangeLog.buckets, Buckets.names, Tracked.label]
  · have hne : (current.isDeleted == deleted) = false := by
      rw [← Bool.not_eq_true']
      exact h
    rw [ChangeLog.replace, hne]
    exact List.mem_singleton.2 rfl

theorem accounts_of_followers (followers : Option (List Reference)) {b : Buckets}
    (hdiff : current.followers ≠ followers) (hnames : b.names = ["followers"])
    (hrecorded : Tracked.followers.Recorded current { current with followers := followers } b) :
    Accounts current { current with followers := followers } b := by
  refine .of_one .followers (fun t ht => ?_) ?_ fun _ => hrecorded
  · cases t with
    | field f => exact Tracked.differs_field_of_eq (by cases f <;> rfl)
    | followers => exact absurd rfl ht
    | name | deleted | testResult => simp [Tracked.differs, isDeleted]
  · simp [hnames, Tracked.differs, hdiff, Tracked.label]

theorem accounts_of_follow (current : Service) (user : Reference) :
    Accounts current { current with followers := some (current.followerList ++ [user]) }
      (ChangeLog.empty.addElement "followers" (toValue user)).buckets := by
  refine accounts_of_followers _ (fun h => ?_) rfl (.inl ⟨user, rfl, List.mem_singleton.2 rfl⟩)
  have hlength := congrArg (fun f : Option (List Reference) => (f.getD []).length) h
  simp [followerList] at hlength

theorem accounts_of_unfollow {user : Uuid} {follower : Reference}
    (hfollows : current.followerList.find? (·.id == user) = some follower) :
    Accounts current
      { current with
        followers :=
          if (current.followerList.eraseP (·.id == user)).isEmpty then none
          else some (current.followerList.eraseP (·.id == user)) }
      (ChangeLog.empty.deleteElement "followers" (toValue follower)).buckets := by
  obtain ⟨huser, l, r, hlist, hl⟩ := List.find?_eq_some_iff_append.1 hfollows
  have herase : current.followerList.eraseP (·.id == user) = l ++ r := by
    rw [hlist, List.eraseP_append_right _ (by simpa using hl), List.eraseP_cons_of_pos (by exact huser)]
  rw [herase]
  have hrest : (if (l ++ r).isEmpty then none else some (l ++ r)).getD [] = l ++ r := by
    cases l ++ r <;> rfl
  refine accounts_of_followers _ (fun h => ?_) rfl
    (.inr ⟨l, follower, r, hlist, hrest, List.mem_singleton.2 rfl⟩)
  have hlength := congrArg (fun f : Option (List Reference) => (f.getD []).length) h
  rw [hrest] at hlength
  have hbefore := congrArg List.length hlist
  simp only [followerList] at hbefore
  simp only [hbefore, List.length_append, List.length_cons] at hlength
  omega

theorem accounts_of_test (current : Service) (result : TestResult) :
    Accounts current
      { current with
        testResult := (ChangeLog.empty.apply "testConnectionResult" current.testResult (.set result)).2 }
      (ChangeLog.empty.apply "testConnectionResult" current.testResult (.set result)).1.buckets := by
  obtain ⟨-, hnames, hmoved⟩ :=
    ChangeLog.empty.apply_spec "testConnectionResult" current.testResult (.set result)
  have hempty : ChangeLog.empty.buckets.names = [] := rfl
  rw [hempty, List.nil_append] at hnames
  generalize ChangeLog.empty.apply "testConnectionResult" current.testResult (.set result) = applied
    at hnames hmoved ⊢
  refine .of_one .testResult (fun t ht => ?_) ?_ fun h => ?_
  · cases t with
    | field f => exact Tracked.differs_field_of_eq (by cases f <;> rfl)
    | testResult => exact absurd rfl ht
    | name | deleted | followers => simp [Tracked.differs, isDeleted]
  · by_cases hd : current.testResult = applied.2
    · simpa [Tracked.differs, hd] using hnames
    · simpa [Tracked.differs, hd, Tracked.label] using hnames
  · refine hmoved ?_
    rw [← Bool.not_eq_true']
    exact h

theorem Drafted.accounts {policy : DuplicatePolicy} {asked : Patch → Prop}
    (h : Drafted policy asked current next log) : Accounts current next log.buckets := by
  cases h with
  | patched _ _ _ hname hfields =>
    have haccounts := accounts_of_patch hname hfields
    split
    · rw [buckets_escalate]
      exact haccounts
    · exact haccounts
  | marked deleted => exact accounts_of_mark current deleted
  | followed => exact accounts_of_follow current _
  | unfollowed _ hfollows => exact accounts_of_unfollow hfollows
  | tested result => exact accounts_of_test current result

end Service

end ServiceCatalog
