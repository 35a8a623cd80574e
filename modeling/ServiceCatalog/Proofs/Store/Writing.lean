import Mathlib.Data.List.DropRight
import ServiceCatalog.Proofs.Store.Names

namespace ServiceCatalog

namespace Write

def id : Write → Uuid
  | insert s => s.id
  | replace s _ => s.id
  | remove id => id

def recorded : Write → Option ServiceRecord → Option ServiceRecord
  | insert s, _ => some (.ofService s)
  | replace s _, old => old.map (·.advance s)
  | remove _, _ => none

def Clashes (r : Records) : Write → Prop
  | insert s => ∃ x ∈ r.list, x.current.name = s.name
  | replace s _ => ∃ x ∈ r.list, x.current.name = s.name ∧ x.id ≠ s.id
  | remove _ => False

def Meets (r : Records) : Write → Prop
  | insert s => r.get? s.id = none
  | replace s base => ∃ current, r.get? s.id = some current ∧ current.version = base
  | remove id => ∃ current, r.get? id = some current

theorem clashes_insert {r : Records} {s : Service} : (insert s).Clashes r ↔ r.nameTaken s.name none = true := by
  rw [Records.nameTaken_iff]
  simp [Clashes]

theorem clashes_replace {r : Records} {s : Service} {base : Version} :
    (replace s base).Clashes r ↔ r.nameTaken s.name (some s.id) = true := by
  rw [Records.nameTaken_iff]
  simp [Clashes]

end Write

namespace Records

def attempt (r : Records) (w : Write) : Records × Outcome Unit :=
  match r.write w with
  | .ok t => (t, .ok ())
  | .error e => (r, .error e)

def run (r : Records) (writes : List Write) : Records := writes.foldl (fun r w => (r.attempt w).1) r

structure Call where
  before : Records
  write : Write

namespace Call

def succeeds (c : Call) : Bool := (c.before.write c.write).toBool

def inserts (id : Uuid) (c : Call) : Bool :=
  match c.write with
  | .insert s => s.id == id && c.succeeds
  | _ => false

def displaced? (id : Uuid) (c : Call) : Option Service :=
  match c.write with
  | .replace s _ => if s.id == id && c.succeeds then c.before.get? id else none
  | _ => none

end Call

def calls (r : Records) : List Write → List Call
  | [] => []
  | w :: writes => ⟨r, w⟩ :: (r.attempt w).1.calls writes

def displaced (id : Uuid) (calls : List Call) : List Service :=
  (calls.rtakeWhile fun c => !c.inserts id).filterMap (·.displaced? id)

variable {r t : Records} {w : Write} {id : Uuid}

theorem run_concat (r : Records) (writes : List Write) (w : Write) :
    r.run (writes ++ [w]) = ((r.run writes).attempt w).1 := by
  rw [run, List.foldl_append]
  rfl

theorem calls_concat (r : Records) (writes : List Write) (w : Write) :
    r.calls (writes ++ [w]) = r.calls writes ++ [⟨r.run writes, w⟩] := by
  induction writes generalizing r with
  | nil => rfl
  | cons first writes ih =>
    rw [List.cons_append, calls, ih, calls, List.cons_append]
    rfl

theorem attempt_of_ok (h : r.write w = .ok t) : r.attempt w = (t, .ok ()) := by rw [attempt, h]

theorem attempt_of_error {e : CatalogError} (h : r.write w = .error e) : r.attempt w = (r, .error e) := by
  rw [attempt, h]

theorem displaced_concat_of_not_inserts {c : Call} (h : c.inserts id = false) (calls : List Call) :
    displaced id (calls ++ [c]) = displaced id calls ++ (c.displaced? id).toList := by
  have hkept : (!c.inserts id) = true := by rw [h]; rfl
  rw [displaced, List.rtakeWhile_concat_pos (fun c : Call => !c.inserts id) calls c hkept, List.filterMap_append]
  cases hc : c.displaced? id <;> simp [displaced, hc]

theorem displaced_concat_of_inserts {c : Call} (h : c.inserts id = true) (calls : List Call) :
    displaced id (calls ++ [c]) = [] := by
  have hdropped : ¬ (!c.inserts id) = true := by simp [h]
  rw [displaced, List.rtakeWhile_concat_neg (fun c : Call => !c.inserts id) calls c hdropped]
  rfl

theorem find?_of_write (h : r.write w = .ok t) (id : Uuid) :
    t.find? id = if id = w.id then w.recorded (r.find? id) else r.find? id := by
  cases w with
  | insert s =>
    obtain ⟨-, -, rfl⟩ := insert_eq_ok.1 h
    exact find?_put r (.ofService s) id
  | replace s base =>
    obtain ⟨-, x, hx, -, rfl⟩ := replace_eq_ok.1 h
    have hadvance : (x.advance s).id = s.id := rfl
    change _ = if id = s.id then (r.find? id).map (·.advance s) else r.find? id
    rw [find?_put, hadvance]
    by_cases hid : id = s.id
    · rw [if_pos hid, if_pos hid, hid, hx]
      rfl
    · rw [if_neg hid, if_neg hid]
  | remove gone =>
    obtain ⟨-, rfl⟩ := remove_eq_ok.1 h
    exact find?_erase r gone id

theorem get?_eq_none : r.get? id = none ↔ r.find? id = none := Option.map_eq_none_iff

theorem exists_write_iff : (∃ t, r.write w = .ok t) ↔ w.Meets r ∧ ¬ w.Clashes r := by
  cases w with
  | insert s =>
    rw [Write.clashes_insert, Bool.not_eq_true, Write.Meets, get?_eq_none]
    simp only [write, insert_eq_ok, exists_and_left, exists_eq, and_true]
  | replace s base =>
    rw [Write.clashes_replace, Bool.not_eq_true, Write.Meets, and_comm]
    simp only [write, replace_eq_ok, exists_and_left, get?_eq_some]
    grind
  | remove gone =>
    simp only [write, remove_eq_ok, Write.Meets, Write.Clashes, get?_eq_some]
    grind

theorem write_eq_error {e : CatalogError} (h : r.write w = .error e) :
    e = .missing (.id w.id) ∧ r.get? w.id = none ∧ ¬ w.Clashes r ∨
      (∃ c, e = .conflict c) ∧ (w.Clashes r ∨ ∃ current, r.get? w.id = some current) := by
  cases w with
  | insert s =>
    simp only [write, insert] at h
    split at h
    · next hx =>
      obtain ⟨x, hx⟩ := Option.isSome_iff_exists.1 hx
      cases h
      exact .inr ⟨⟨_, rfl⟩, .inr ⟨_, get?_eq_some.2 ⟨x, hx, rfl⟩⟩⟩
    · split at h
      · next htaken =>
        cases h
        exact .inr ⟨⟨_, rfl⟩, .inl (Write.clashes_insert.2 htaken)⟩
      · cases h
  | replace s base =>
    simp only [write, replace] at h
    split at h
    · next htaken =>
      cases h
      exact .inr ⟨⟨_, rfl⟩, .inl (Write.clashes_replace.2 htaken)⟩
    · next hfree =>
      split at h
      · next hx =>
        cases h
        exact .inl ⟨rfl, get?_eq_none.2 hx, fun hclash => hfree (Write.clashes_replace.1 hclash)⟩
      · next x hx =>
        split at h
        · cases h
          exact .inr ⟨⟨_, rfl⟩, .inr ⟨_, get?_eq_some.2 ⟨x, hx, rfl⟩⟩⟩
        · cases h
  | remove gone =>
    simp only [write, remove] at h
    split at h
    · cases h
    · next hx =>
      cases h
      exact .inl ⟨rfl, get?_eq_none.2 (Option.not_isSome_iff_eq_none.1 hx), fun hclash => hclash⟩

theorem run_distinct (writes : List Write) : (empty.run writes).Distinct := by
  induction writes using List.reverseRecOn with
  | nil => exact fun x hx => nomatch hx
  | append_singleton writes w ih =>
    rw [run_concat]
    cases h : (empty.run writes).write w with
    | error e =>
      rw [attempt_of_error h]
      exact ih
    | ok t =>
      rw [attempt_of_ok h]
      exact ih.write h

theorem displaced_concat (h : r.write w = .ok t) (calls : List Call) {x : ServiceRecord}
    (hkept : ∀ y, r.find? id = some y → y.history = displaced id calls) (hx : t.find? id = some x) :
    x.history = displaced id (calls ++ [⟨r, w⟩]) := by
  have hsucceeds : (Call.mk r w).succeeds = true := by rw [Call.succeeds, h]; rfl
  rw [find?_of_write h] at hx
  by_cases hid : id = w.id
  · rw [if_pos hid] at hx
    cases w with
    | insert s =>
      obtain rfl := Option.some.inj hx
      rw [displaced_concat_of_inserts]
      · rfl
      · simp [Call.inserts, hsucceeds, show s.id = id from hid.symm]
    | replace s base =>
      obtain ⟨y, hy, rfl⟩ := Option.map_eq_some_iff.1 hx
      have hcurrent : r.get? id = some y.current := get?_eq_some.2 ⟨y, hy, rfl⟩
      rw [displaced_concat_of_not_inserts rfl, ← hkept y hy]
      simp [Call.displaced?, hsucceeds, show s.id = id from hid.symm, hcurrent, ServiceRecord.advance]
    | remove gone => cases hx
  · rw [if_neg hid] at hx
    have hother : (w.id == id) = false := beq_false_of_ne (Ne.symm hid)
    rw [hkept x hx]
    cases w with
    | insert s =>
      have hinserts : (Call.mk r (.insert s)).inserts id = false := by
        simp [Call.inserts, show (s.id == id) = false from hother]
      rw [displaced_concat_of_not_inserts hinserts]
      simp [Call.displaced?]
    | replace s base =>
      rw [displaced_concat_of_not_inserts rfl]
      simp [Call.displaced?, show (s.id == id) = false from hother]
    | remove gone =>
      rw [displaced_concat_of_not_inserts rfl]
      simp [Call.displaced?]

theorem displaced_concat_error {e : CatalogError} (h : r.write w = .error e) (calls : List Call) :
    displaced id (calls ++ [⟨r, w⟩]) = displaced id calls := by
  have hfails : (Call.mk r w).succeeds = false := by rw [Call.succeeds, h]; rfl
  have hinserts : (Call.mk r w).inserts id = false := by cases w <;> simp [Call.inserts, hfails]
  have hnone : (Call.mk r w).displaced? id = none := by cases w <;> simp [Call.displaced?, hfails]
  rw [displaced_concat_of_not_inserts hinserts, hnone, Option.toList_none, List.append_nil]

theorem run_history (writes : List Write) {x : ServiceRecord} (hx : (empty.run writes).find? id = some x) :
    x.history = displaced id (empty.calls writes) := by
  induction writes using List.reverseRecOn generalizing x with
  | nil => cases hx
  | append_singleton writes w ih =>
    rw [run_concat] at hx
    rw [calls_concat]
    cases h : (empty.run writes).write w with
    | error e =>
      rw [attempt_of_error h] at hx
      rw [displaced_concat_error h]
      exact ih hx
    | ok t =>
      rw [attempt_of_ok h] at hx
      exact displaced_concat h _ (fun _ => ih) hx

/-- Whatever is written to records that were empty, every record is filed under the identifier of its service, no two
services share a name, and the history of a service is what was displaced since its insertion. A write succeeds exactly
if its name is free and the records meet what it asks of them, and is then all that changes. One that fails changes
nothing, and names an absent record only if nothing else stands in its way. -/
theorem run_writes (writes : List Write) :
    let r := empty.run writes
    (∀ x ∈ r.list, r.find? x.current.id = some x) ∧
      (∀ x ∈ r.list, ∀ y ∈ r.list, x.current.name = y.current.name → x = y) ∧
      (∀ id, r.history id =
        if r.get? id = none then .error (.missing (.id id)) else .ok (displaced id (empty.calls writes))) ∧
      ∀ w, ((r.attempt w).2 = .ok () ↔ w.Meets r ∧ ¬ w.Clashes r) ∧
        ((r.attempt w).2 = .ok () → ∀ id, (r.attempt w).1.find? id =
          if id = w.id then w.recorded (r.find? id) else r.find? id) ∧
        ∀ e, (r.attempt w).2 = .error e → (r.attempt w).1 = r ∧
          (e = .missing (.id w.id) ∧ r.get? w.id = none ∧ ¬ w.Clashes r ∨
            (∃ c, e = .conflict c) ∧ (w.Clashes r ∨ ∃ current, r.get? w.id = some current)) := by
  intro r
  refine ⟨fun _ => find?_of_mem, run_distinct writes, ?_, ?_⟩
  · intro id
    rw [history]
    cases hx : r.find? id with
    | none => rw [if_pos (get?_eq_none.2 hx)]
    | some x =>
      have hget : ¬ r.get? id = none := by simp [get?, hx]
      rw [if_neg hget, ← run_history writes hx]
  · intro w
    rw [← exists_write_iff]
    cases h : r.write w with
    | ok t =>
      rw [attempt_of_ok h]
      exact ⟨⟨fun _ => ⟨t, rfl⟩, fun _ => rfl⟩, fun _ => find?_of_write h, nofun⟩
    | error e =>
      rw [attempt_of_error h]
      refine ⟨⟨nofun, nofun⟩, nofun, ?_⟩
      intro e' he
      obtain rfl := Except.error.inj he
      exact ⟨rfl, write_eq_error h⟩

end Records

end ServiceCatalog
