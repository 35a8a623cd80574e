import ServiceCatalog.Proofs.Catalog.Answer
import ServiceCatalog.Proofs.Change.Account
import ServiceCatalog.Proofs.Service.Patching

namespace ServiceCatalog

namespace Service

def withFollowers (s : Service) (followers : Option (List Reference)) : Service := { s with followers := followers }

theorem body_withFollowers {s t : Service} {followers : Option (List Reference)}
    (h : s.body = (t.withFollowers followers).body) (others : Option (List Reference)) :
    (s.withFollowers others).body = (t.withFollowers others).body :=
  congrArg (fun s : Service => s.withFollowers others) h

def keptFollowers (l : List Reference) : Option (List Reference) := if l.isEmpty then none else some l

theorem getD_keptFollowers (l : List Reference) : (keptFollowers l).getD [] = l := by cases l <;> rfl

def TidyFollowers (s : Service) : Prop := s.followers = keptFollowers s.followerList

namespace TidyFollowers

variable {s t : Service} (hs : s.TidyFollowers)
include hs

theorem eq_none_iff : s.followers = none ↔ s.followerList = [] := by
  rw [hs, keptFollowers]
  simp

theorem followers_eq (ht : t.TidyFollowers) (h : s.followerList = t.followerList) : s.followers = t.followers := by
  rw [hs, ht, h]

end TidyFollowers

theorem Revised.tidyFollowers {policy : DuplicatePolicy} {asked : Patch → Prop} {actor : Actor}
    {current s next : Service} {change : ChangeDescription} {log : ChangeLog}
    (h : Revised policy asked actor current s change next log) (hcurrent : current.TidyFollowers) :
    s.TidyFollowers := by
  rw [h.released]
  have hsame (hframe : next.followers = current.followers) :
      (next.asVersion s.version actor change).TidyFollowers := by
    rw [TidyFollowers, followerList] at hcurrent ⊢
    rwa [← hframe] at hcurrent
  cases h.drafted with
  | @patched p renamed log _ _ _ _ hname hfields =>
    have hframe := patchFields_frame followers p set_followers renamed
    rw [hfields, rename_frame followers (fun _ _ _ => rfl) hname] at hframe
    exact hsame hframe
  | marked | tested => exact hsame rfl
  | @followed user =>
    have hkept : keptFollowers (current.followerList ++ [user]) = some (current.followerList ++ [user]) := by
      simp [keptFollowers]
    exact hkept.symm
  | @unfollowed user =>
    exact congrArg keptFollowers (getD_keptFollowers (current.followerList.eraseP (·.id == user))).symm

structure NextMinor (prev next : Service) (change : ChangeDescription) (added deleted : Option (List FieldChange)) :
    Prop where
  version_eq : next.version.tenths.toNat = prev.version.tenths.toNat + 1
  change_eq : next.change = some change
  added_eq : change.fieldsAdded = added
  updated_eq : change.fieldsUpdated = none
  deleted_eq : change.fieldsDeleted = deleted

end Service

namespace Effect

variable {settings : Settings} {records : Records} {actor : Actor} {current : Service} {e : Effect}

section

variable {next : Service} {log : ChangeLog}

theorem followers_of_commit (h : commit actor current next log = .ok e)
    (hnext : next.followers = current.followers) : e.service.followers = current.followers := by
  obtain ⟨u, hu, rfl⟩ := Outcome.map_eq_ok.1 h
  rw [service_ofUpdate]
  rcases Service.commit_eq_ok.1 hu with ⟨-, rfl⟩ | ⟨-, v, -, rfl⟩
  · rfl
  · exact hnext

variable (hstep : log.step = .minor) (hchanged : log.isEmpty = false)
include hstep hchanged

theorem commit_minor (hupdated : log.updated = []) (h : commit actor current next log = .ok e) :
    ∃ s change, e = .changed current.version s change ∧ s.body = next.body ∧
      current.NextMinor s change (ChangeLog.bucket log.added) (ChangeLog.bucket log.deleted) := by
  obtain ⟨u, hu, rfl⟩ := Outcome.map_eq_ok.1 h
  rcases Service.commit_eq_ok.1 hu with ⟨hempty, -⟩ | ⟨-, v, hv, rfl⟩
  · rw [hchanged] at hempty
    cases hempty
  · have hnumber := VersionStep.next?_eq_some hv
    have hbucket : ChangeLog.bucket log.updated = none := by
      rw [hupdated]
      rfl
    rw [hstep] at hnumber
    exact ⟨_, _, rfl, rfl, hnumber, rfl, rfl, hbucket, rfl⟩

theorem commit_accepted (hroom : current.version.tenths.toNat + 1 < UInt32.size) (actor : Actor) :
    ∃ e, commit actor current next log = .ok e := by
  have hfits : current.version.tenths.toNat + log.step.tenths < UInt32.size := by
    rw [hstep]
    exact hroom
  obtain ⟨v, change, -, hcommit⟩ := Service.exists_commit current next log actor hchanged hfits
  exact ⟨_, Outcome.map_eq_ok.2 ⟨_, hcommit, rfl⟩⟩

end

theorem followers_of_patch {p : Patch} (h : patch settings actor current p = .ok e) :
    e.service.followers = current.followers := by
  obtain ⟨u, hu, rfl⟩ := Outcome.map_eq_ok.1 h
  obtain ⟨-, renamed, log, next, hname, hfields, hcommit⟩ := Service.update_eq_ok.1 hu
  have hframe := Service.patchFields_frame Service.followers p Service.set_followers renamed
  rw [hfields, Service.rename_frame Service.followers (fun _ _ _ => rfl) hname] at hframe
  exact followers_of_commit (Outcome.map_eq_ok.2 ⟨u, hcommit, rfl⟩) hframe

variable {id : Uuid} (hget : records.get? id = some current)
include hget

theorem load_bind_eq_ok {k : Service → Outcome Effect} : records.load id >>= k = .ok e ↔ k current = .ok e := by
  rw [Records.load_eq_ok.2 hget, Outcome.ok_bind]

theorem loadLive_bind_eq_ok {k : Service → Outcome Effect} :
    loadLive records id >>= k = .ok e ↔ current.isDeleted = false ∧ k current = .ok e := by
  rw [Outcome.bind_eq_ok]
  constructor
  · rintro ⟨s, hs, hk⟩
    obtain ⟨hs, hlive⟩ := loadLive_eq_ok.1 hs
    obtain rfl := Option.some.inj (hget.symm.trans hs)
    exact ⟨hlive, hk⟩
  · rintro ⟨hlive, hk⟩
    exact ⟨current, loadLive_eq_ok.2 ⟨hget, hlive⟩, hk⟩

theorem followers_of_update {p : Patch} {base : Option Version} (h : update settings records actor id p base = .ok e) :
    e.service.followers = current.followers := by
  obtain ⟨s, hs, -, -, hpatch⟩ := update_eq_ok.1 h
  obtain rfl := Option.some.inj (hget.symm.trans hs)
  exact followers_of_patch hpatch

theorem followers_of_mark {deleted : Bool} (h : mark records actor id deleted = .ok e) :
    e.service.followers = current.followers := by
  have hcommit : commit actor current { current with deleted := some deleted }
      (ChangeLog.empty.replace "deleted" current.isDeleted deleted).1 = .ok e := (load_bind_eq_ok hget).1 h
  exact followers_of_commit hcommit rfl

theorem followers_of_recordTest {result : TestResult} {time : Int64}
    (h : recordTest records actor id result time = .ok e) : e.service.followers = current.followers := by
  let draft := ChangeLog.empty.apply "testConnectionResult" current.testResult
    (.set { result with lastUpdatedAt := some (result.lastUpdatedAt.getD time) })
  have hcommit : commit actor current { current with testResult := draft.2 } draft.1 = .ok e :=
    ((loadLive_bind_eq_ok hget).1 h).2
  exact followers_of_commit hcommit rfl

theorem follow_eq_ok {user : Reference} :
    follow records actor id user = .ok e ↔ current.isDeleted = false ∧
      if current.followerList.any (·.id == user.id) then e = .unchanged current
      else commit actor current (current.withFollowers (some (current.followerList ++ [user])))
        (ChangeLog.empty.addElement "followers" (toValue user)) = .ok e := by
  rw [follow, loadLive_bind_eq_ok hget]
  apply and_congr_right
  intro _
  split
  · exact ⟨fun h => (Except.ok.inj h).symm, fun h => congrArg Except.ok h.symm⟩
  · exact Iff.rfl

theorem unfollow_eq_ok {user : Uuid} :
    unfollow records actor id user = .ok e ↔ current.isDeleted = false ∧
      match current.followerList.find? (·.id == user) with
      | none => e = .unchanged current
      | some follower =>
        commit actor current
          (current.withFollowers (Service.keptFollowers (current.followerList.eraseP (·.id == user))))
          (ChangeLog.empty.deleteElement "followers" (toValue follower)) = .ok e := by
  rw [unfollow, loadLive_bind_eq_ok hget]
  apply and_congr_right
  intro _
  cases current.followerList.find? (·.id == user) with
  | none => exact ⟨fun h => (Except.ok.inj h).symm, fun h => congrArg Except.ok h.symm⟩
  | some follower => exact Iff.rfl

theorem followerList_of_follow {user : Reference} (h : follow records actor id user = .ok e) :
    e.service.followerList =
      if current.followerList.any (·.id == user.id) then current.followerList else current.followerList ++ [user] := by
  obtain ⟨-, h⟩ := (follow_eq_ok hget).1 h
  split
  · next hfollows =>
    rw [if_pos hfollows] at h
    rw [h, Effect.service]
  · next hnew =>
    rw [if_neg hnew] at h
    obtain ⟨s, change, rfl, hbody, -⟩ := commit_minor rfl rfl rfl h
    exact (congrArg Service.followerList hbody).trans rfl

theorem followerList_of_unfollow {user : Uuid} (h : unfollow records actor id user = .ok e) :
    e.service.followerList = current.followerList.eraseP (·.id == user) := by
  obtain ⟨-, h⟩ := (unfollow_eq_ok hget).1 h
  cases hfind : current.followerList.find? (·.id == user) with
  | none =>
    simp only [hfind] at h
    rw [h, Effect.service, List.eraseP_of_forall_not (List.find?_eq_none.1 hfind)]
  | some follower =>
    simp only [hfind] at h
    obtain ⟨s, change, rfl, hbody, -⟩ := commit_minor rfl rfl rfl h
    exact (congrArg Service.followerList hbody).trans (Service.getD_keptFollowers _)

theorem follow_new {user : Reference} (hnew : ∀ f ∈ current.followerList, f.id ≠ user.id)
    (h : follow records actor id user = .ok e) :
    ∃ joined change, e = .changed current.version joined change ∧
      joined.body = (current.withFollowers (some (current.followerList ++ [user]))).body ∧
      current.NextMinor joined change (some [⟨"followers", none, some (toValue user)⟩]) none := by
  have hany : ¬ current.followerList.any (·.id == user.id) = true := by simpa using hnew
  obtain ⟨-, h⟩ := (follow_eq_ok hget).1 h
  rw [if_neg hany] at h
  exact commit_minor rfl rfl rfl h

theorem unfollow_last {user : Reference} {l : List Reference} (hlist : current.followerList = l ++ [user])
    (hnew : ∀ f ∈ l, f.id ≠ user.id) (h : unfollow records actor id user.id = .ok e) :
    ∃ left change, e = .changed current.version left change ∧
      left.body = (current.withFollowers (Service.keptFollowers l)).body ∧
      current.NextMinor left change none (some [⟨"followers", some (toValue user), none⟩]) := by
  have hnone : l.find? (·.id == user.id) = none := List.find?_eq_none.2 (by simpa using hnew)
  have hfind : current.followerList.find? (·.id == user.id) = some user := by
    rw [hlist, List.find?_append, hnone]
    simp
  have herase : current.followerList.eraseP (·.id == user.id) = l := by
    rw [hlist, List.eraseP_append_right _ (by simpa using hnew)]
    simp
  obtain ⟨-, h⟩ := (unfollow_eq_ok hget).1 h
  simp only [hfind, herase] at h
  exact commit_minor rfl rfl rfl h

theorem follow_accepted (hlive : current.isDeleted = false)
    (hroom : current.version.tenths.toNat + 1 < UInt32.size) (actor : Actor) (user : Reference) :
    ∃ e, follow records actor id user = .ok e := by
  simp only [follow_eq_ok hget, hlive, true_and]
  split
  · exact ⟨_, rfl⟩
  · exact commit_accepted rfl rfl hroom actor

theorem unfollow_accepted (hlive : current.isDeleted = false)
    (hroom : current.version.tenths.toNat + 1 < UInt32.size) (actor : Actor) (user : Uuid) :
    ∃ e, unfollow records actor id user = .ok e := by
  simp only [unfollow_eq_ok hget, hlive, true_and]
  split
  · exact ⟨_, rfl⟩
  · exact commit_accepted rfl rfl hroom actor

end Effect

end ServiceCatalog
