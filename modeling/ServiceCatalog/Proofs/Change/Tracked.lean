import Mathlib.Data.List.Nodup
import ServiceCatalog.Proofs.Service.Draft
import ServiceCatalog.Proofs.Service.Equality

namespace ServiceCatalog

structure Buckets where
  added : List FieldChange
  updated : List FieldChange
  deleted : List FieldChange

namespace Buckets

def names (b : Buckets) : List String := (b.added ++ b.updated ++ b.deleted).map (·.name)

structure Within (b c : Buckets) : Prop where
  added : b.added ⊆ c.added
  updated : b.updated ⊆ c.updated
  deleted : b.deleted ⊆ c.deleted

theorem Within.refl (b : Buckets) : b.Within b := ⟨fun _ h => h, fun _ h => h, fun _ h => h⟩

theorem Within.trans {b c d : Buckets} (h : b.Within c) (h' : c.Within d) : b.Within d :=
  ⟨fun _ hx => h'.added (h.added hx), fun _ hx => h'.updated (h.updated hx),
    fun _ hx => h'.deleted (h.deleted hx)⟩

def Moved {α : Type} [Wire α] (b : Buckets) (name : String) : Option α → Option α → Prop
  | none, none => False
  | none, some new => ⟨name, none, some (toValue new)⟩ ∈ b.added
  | some old, some new => ⟨name, some (toValue old), some (toValue new)⟩ ∈ b.updated
  | some old, none => ⟨name, some (toValue old), none⟩ ∈ b.deleted

theorem Moved.mono {α : Type} [Wire α] {b c : Buckets} (h : b.Within c) {name : String} {old new : Option α}
    (hb : b.Moved name old new) : c.Moved name old new := by
  cases old <;> cases new
  · exact hb
  · exact h.added hb
  · exact h.deleted hb
  · exact h.updated hb

end Buckets

def ChangeDescription.buckets (d : ChangeDescription) : Buckets := ⟨d.added, d.updated, d.deleted⟩

namespace ChangeLog

def buckets (log : ChangeLog) : Buckets := ⟨log.added, log.updated, log.deleted⟩

theorem getD_bucket (changes : List FieldChange) : (bucket changes).getD [] = changes := by
  cases changes <;> rfl

theorem buckets_describe (log : ChangeLog) (v : Version) (actor : Actor) :
    (log.describe v actor).buckets = log.buckets := by
  simp [ChangeDescription.buckets, ChangeDescription.added, ChangeDescription.updated,
    ChangeDescription.deleted, describe, getD_bucket, buckets]

theorem within_addElement (log : ChangeLog) (name : String) (v : Value) :
    log.buckets.Within (log.addElement name v).buckets :=
  ⟨List.subset_append_left _ _, fun _ h => h, fun _ h => h⟩

theorem within_update (log : ChangeLog) (name : String) (old new : Value) :
    log.buckets.Within (log.update name old new).buckets :=
  ⟨fun _ h => h, List.subset_append_left _ _, fun _ h => h⟩

theorem within_deleteElement (log : ChangeLog) (name : String) (v : Value) :
    log.buckets.Within (log.deleteElement name v).buckets :=
  ⟨fun _ h => h, fun _ h => h, List.subset_append_left _ _⟩

theorem names_addElement (log : ChangeLog) (name : String) (v : Value) :
    (log.addElement name v).buckets.names.Perm (log.buckets.names ++ [name]) := by
  simp only [Buckets.names, buckets, addElement, List.map_append, List.map_cons, List.map_nil]
  grind

theorem names_update (log : ChangeLog) (name : String) (old new : Value) :
    (log.update name old new).buckets.names.Perm (log.buckets.names ++ [name]) := by
  simp only [Buckets.names, buckets, update, List.map_append, List.map_cons, List.map_nil]
  grind

theorem names_deleteElement (log : ChangeLog) (name : String) (v : Value) :
    (log.deleteElement name v).buckets.names.Perm (log.buckets.names ++ [name]) := by
  simp only [Buckets.names, buckets, deleteElement, List.map_append, List.map_cons, List.map_nil]
  grind

variable {α : Type} [Wire α] [BEq α] [ReflBEq α]

theorem apply_spec (log : ChangeLog) (name : String) (old : Option α) (p : FieldPatch α) :
    log.buckets.Within (log.apply name old p).1.buckets ∧
      (log.apply name old p).1.buckets.names.Perm
        (log.buckets.names ++ if old == (log.apply name old p).2 then [] else [name]) ∧
      ((old == (log.apply name old p).2) = false →
        (log.apply name old p).1.buckets.Moved name old (log.apply name old p).2) := by
  cases p with
  | keep => simp [apply, Buckets.Within.refl]
  | clear =>
    cases old with
    | none => simp [apply, Buckets.Within.refl]
    | some a =>
      refine ⟨within_deleteElement _ _ _, by simpa [apply] using names_deleteElement log name (toValue a), ?_⟩
      simp [apply, Buckets.Moved, buckets, deleteElement]
  | set b =>
    cases old with
    | none =>
      refine ⟨within_addElement _ _ _, by simpa [apply] using names_addElement log name (toValue b), ?_⟩
      simp [apply, Buckets.Moved, buckets, addElement]
    | some a =>
      by_cases h : (a == b) = true
      · simp [apply, h, Buckets.Within.refl]
      · simp only [apply, h]
        refine ⟨within_update _ _ _ _, by simpa [h] using names_update log name (toValue a) (toValue b), ?_⟩
        simp [Buckets.Moved, buckets, update]

end ChangeLog

inductive Tracked where
  | name
  | field (f : Field)
  | followers
  | testResult
  | deleted
deriving DecidableEq

namespace Tracked

def all : List Tracked := .name :: Field.all.map .field ++ [.followers, .testResult, .deleted]

def label : Tracked → String
  | .name => "name"
  | .field f => f.name
  | .followers => "followers"
  | .testResult => "testConnectionResult"
  | .deleted => "deleted"

theorem mem_all (t : Tracked) : t ∈ all := by
  cases t with
  | field f => simp [all, f.mem_all]
  | name | followers | testResult | deleted => simp [all]

theorem nodup_labels : (all.map label).Nodup := by decide

theorem label_inj {t u : Tracked} (h : t.label = u.label) : t = u :=
  List.inj_on_of_nodup_map nodup_labels t.mem_all u.mem_all h

def differs (prev next : Service) : Tracked → Bool
  | .name => prev.name != next.name
  | .field f => prev.get f != next.get f
  | .followers => prev.followers != next.followers
  | .testResult => prev.testResult != next.testResult
  | .deleted => prev.isDeleted != next.isDeleted

theorem differs_field_of_eq {prev next : Service} {f : Field} (h : next.get f = prev.get f) :
    (field f).differs prev next = false := by
  simp only [differs, h, bne, BEq.rfl, Bool.not_true]

def Recorded (prev next : Service) (b : Buckets) : Tracked → Prop
  | .name => ⟨"name", some (toValue prev.name), some (toValue next.name)⟩ ∈ b.updated
  | .field f => b.Moved f.name (prev.get f) (next.get f)
  | .followers =>
    (∃ user, next.followerList = prev.followerList ++ [user] ∧
        ⟨"followers", none, some (toValue user)⟩ ∈ b.added) ∨
      ∃ l user r, prev.followerList = l ++ user :: r ∧ next.followerList = l ++ r ∧
        ⟨"followers", some (toValue user), none⟩ ∈ b.deleted
  | .testResult => b.Moved "testConnectionResult" prev.testResult next.testResult
  | .deleted => ⟨"deleted", some (toValue prev.isDeleted), some (toValue next.isDeleted)⟩ ∈ b.updated

end Tracked

structure Accounts (prev next : Service) (b : Buckets) : Prop where
  names : b.names.Perm ((Tracked.all.filter (·.differs prev next)).map Tracked.label)
  recorded : ∀ t : Tracked, t.differs prev next = true → t.Recorded prev next b

namespace Accounts

variable {prev next : Service} {b : Buckets}

theorem mem_names (h : Accounts prev next b) (t : Tracked) :
    t.label ∈ b.names ↔ t.differs prev next = true := by
  rw [h.names.mem_iff, List.mem_map]
  constructor
  · rintro ⟨u, hu, he⟩
    rw [← Tracked.label_inj he]
    exact (List.mem_filter.1 hu).2
  · intro hd
    exact ⟨t, List.mem_filter.2 ⟨t.mem_all, hd⟩, rfl⟩

theorem tracked (h : Accounts prev next b) {name : String} (hn : name ∈ b.names) :
    ∃ t : Tracked, t.label = name := by
  rw [h.names.mem_iff, List.mem_map] at hn
  obtain ⟨t, -, ht⟩ := hn
  exact ⟨t, ht⟩

theorem nodup (h : Accounts prev next b) : b.names.Nodup := by
  rw [h.names.nodup_iff]
  exact Tracked.nodup_labels.sublist (List.filter_sublist.map _)

theorem of_one (t : Tracked) (hframe : ∀ u, u ≠ t → u.differs prev next = false)
    (hnames : b.names = if t.differs prev next then [t.label] else [])
    (hrecorded : t.differs prev next = true → t.Recorded prev next b) : Accounts prev next b := by
  have hfilter : Tracked.all.filter (·.differs prev next) = if t.differs prev next then [t] else [] := by
    have heq : (fun u : Tracked => u.differs prev next) = fun u => u == t && t.differs prev next := by
      funext u
      by_cases hu : u = t
      · simp [hu]
      · simp [hu, hframe u hu]
    rw [heq]
    cases t.differs prev next with
    | false => simp
    | true =>
      have hone : Tracked.all.filter (· == t) = [t] := by
        rw [List.filter_beq, List.count_eq_one_of_mem (List.Nodup.of_map _ Tracked.nodup_labels) t.mem_all]
        rfl
      simpa using hone
  refine ⟨?_, fun u hu => ?_⟩
  · rw [hnames, hfilter]
    cases t.differs prev next <;> exact List.Perm.refl _
  · by_cases h : u = t
    · subst h
      exact hrecorded hu
    · rw [hframe u h] at hu
      cases hu

end Accounts

end ServiceCatalog
