import Mathlib.Data.List.Sort
import ServiceCatalog.Proofs.Json.Dict
import ServiceCatalog.Store.Records

namespace ServiceCatalog

theorem Filed.id_inj {l : List ServiceRecord} (hl : Filed l) {x y : ServiceRecord} (hx : x ∈ l)
    (hy : y ∈ l) (h : x.id = y.id) : x = y := by
  induction l with
  | nil => cases hx
  | cons z l ih =>
    obtain ⟨hz, hl⟩ := List.pairwise_cons.1 hl
    rcases List.mem_cons.1 hx with rfl | hx' <;> rcases List.mem_cons.1 hy with rfl | hy'
    · rfl
    · exact absurd (h ▸ hz y hy') (BitVec.lt_irrefl _)
    · exact absurd (h ▸ hz x hx') (BitVec.lt_irrefl _)
    · exact ih hl hx' hy'

theorem Filed.nodup {l : List ServiceRecord} (hl : Filed l) : l.Nodup :=
  List.Pairwise.imp (fun hab he => by subst he; exact BitVec.lt_irrefl _ hab) hl

def ServiceRecord.states (x : ServiceRecord) : List Service := x.history ++ [x.current]

theorem ServiceRecord.current_mem_states (x : ServiceRecord) : x.current ∈ x.states :=
  List.mem_append_right _ (List.mem_singleton.2 rfl)

namespace Records

theorem find?_eq_some {r : Records} {id : Uuid} {x : ServiceRecord} :
    r.find? id = some x ↔ x ∈ r.list ∧ x.id = id :=
  find?_key_eq_some fun _ hx _ hy he => r.filed.id_inj hx hy he

theorem find?_of_mem {r : Records} {x : ServiceRecord} (h : x ∈ r.list) : r.find? x.id = some x :=
  find?_eq_some.2 ⟨h, rfl⟩

theorem ext_find? {r t : Records} (h : ∀ id, r.find? id = t.find? id) : r = t := by
  have hsub (a b : Records) (h : ∀ id, a.find? id = b.find? id) : a.list ⊆ b.list := by
    intro x hx
    exact (find?_eq_some.1 (h x.id ▸ find?_of_mem hx)).1
  have hperm := (List.perm_ext_iff_of_nodup r.filed.nodup t.filed.nodup).2 fun x =>
    ⟨fun hx => hsub r t h hx, fun hx => hsub t r (fun id => (h id).symm) hx⟩
  refine ext (hperm.eq_of_pairwise (fun a b _ _ hab hba => ?_) r.filed t.filed)
  exact absurd (BitVec.lt_trans hab hba) (BitVec.lt_irrefl _)

theorem find?_place (x : ServiceRecord) (l : List ServiceRecord) (id : Uuid) :
    (place x l).find? (·.id == id) = if id = x.id then some x else l.find? (·.id == id) := by
  induction l with
  | nil => by_cases h : x.id = id <;> simp [place, h, Ne.symm]
  | cons y r ih =>
    simp only [place]
    split
    · by_cases h : id = x.id
      · simp [h]
      · simp [h, Ne.symm h]
    · split
      · next he =>
        by_cases h : id = x.id
        · simp [h]
        · simp [h, Ne.symm h, ← he]
      · next he =>
        rw [List.find?_cons, List.find?_cons, ih]
        by_cases h : id = y.id
        · subst h; simp [Ne.symm he]
        · simp [beq_false_of_ne (Ne.symm h)]

@[simp]
theorem find?_put (r : Records) (x : ServiceRecord) (id : Uuid) :
    (r.put x).find? id = if id = x.id then some x else r.find? id :=
  find?_place x r.list id

@[simp]
theorem find?_erase (r : Records) (gone id : Uuid) :
    (r.erase gone).find? id = if id = gone then none else r.find? id := by
  by_cases h : id = gone
  · subst h; simp [find?, erase]
  · simp only [find?, erase, h, if_false, List.find?_filter]
    congr 1
    funext x
    by_cases hx : x.id = id
    · subst hx; simp [h]
    · simp [hx]

theorem mem_put_iff {r : Records} {x y : ServiceRecord} :
    y ∈ (r.put x).list ↔ y = x ∨ y ∈ r.list ∧ y.id ≠ x.id := by
  have hfind : y ∈ (r.put x).list ↔ (r.put x).find? y.id = some y :=
    ⟨find?_of_mem, fun h => (find?_eq_some.1 h).1⟩
  rw [hfind, find?_put]
  by_cases h : y.id = x.id
  · simp [h, eq_comm]
  · have hne : y ≠ x := fun he => h (he ▸ rfl)
    simp [h, hne, find?_eq_some]

theorem mem_put {r : Records} {x y : ServiceRecord} (h : y ∈ (r.put x).list) : y = x ∨ y ∈ r.list :=
  (mem_put_iff.1 h).imp_right And.left

theorem mem_ofList {l : List ServiceRecord} {x : ServiceRecord} (h : x ∈ (ofList l).list) : x ∈ l := by
  have hfold (l : List ServiceRecord) : ∀ r : Records, x ∈ (l.foldl put r).list → x ∈ l ∨ x ∈ r.list := by
    induction l with
    | nil => exact fun r hx => .inr hx
    | cons y l ih =>
      intro r hx
      rcases ih (r.put y) hx with hx | hx
      · exact .inl (List.mem_cons_of_mem _ hx)
      · rcases mem_put hx with rfl | hx
        · exact .inl List.mem_cons_self
        · exact .inr hx
  rcases hfold l empty h with hx | hx
  · exact hx
  · cases hx

theorem mem_erase {r : Records} {id : Uuid} {y : ServiceRecord} (h : y ∈ (r.erase id).list) :
    y ∈ r.list :=
  (List.mem_filter.1 h).1

theorem get?_eq_some {r : Records} {id : Uuid} {s : Service} :
    r.get? id = some s ↔ ∃ x, r.find? id = some x ∧ x.current = s :=
  Option.map_eq_some_iff

theorem mem_of_get? {r : Records} {id : Uuid} {s : Service} (h : r.get? id = some s) :
    ∃ x ∈ r.list, x.id = id ∧ x.current = s := by
  obtain ⟨x, hx, he⟩ := get?_eq_some.1 h
  obtain ⟨hmem, hid⟩ := find?_eq_some.1 hx
  exact ⟨x, hmem, hid, he⟩

theorem get?_of_mem {r : Records} {x : ServiceRecord} (h : x ∈ r.list) : r.get? x.id = some x.current :=
  get?_eq_some.2 ⟨x, find?_of_mem h, rfl⟩

theorem id_of_get? {r : Records} {id : Uuid} {s : Service} (h : r.get? id = some s) : s.id = id := by
  obtain ⟨x, -, hid, rfl⟩ := mem_of_get? h
  exact hid

theorem load_eq_ok {r : Records} {id : Uuid} {s : Service} : r.load id = .ok s ↔ r.get? id = some s := by
  cases h : r.get? id <;> simp [load, h]

theorem get?_of_getNamed? {r : Records} {q : String} {s : Service} (h : r.getNamed? q = some s) :
    r.get? s.id = some s := by
  obtain ⟨x, hx, rfl⟩ := Option.map_eq_some_iff.1 h
  exact get?_of_mem (List.mem_of_find?_eq_some hx)

theorem insert_eq_ok {r t : Records} {s : Service} :
    r.insert s = .ok t ↔
      r.find? s.id = none ∧ r.nameTaken s.name none = false ∧ t = r.put (.ofService s) := by
  simp only [insert]
  cases r.find? s.id <;> cases r.nameTaken s.name none <;> simp [eq_comm]

theorem replace_eq_ok {r t : Records} {s : Service} {base : Version} :
    r.replace s base = .ok t ↔
      r.nameTaken s.name (some s.id) = false ∧
        ∃ x, r.find? s.id = some x ∧ x.current.version = base ∧ t = r.put (x.advance s) := by
  simp only [replace]
  cases r.nameTaken s.name (some s.id) with
  | true => simp
  | false =>
    cases r.find? s.id with
    | none => simp
    | some x => by_cases h : x.current.version = base <;> simp [h, eq_comm (a := t)]

theorem remove_eq_ok {r t : Records} {id : Uuid} :
    r.remove id = .ok t ↔ (∃ x, r.find? id = some x) ∧ t = r.erase id := by
  simp only [remove]
  cases r.find? id <;> simp [eq_comm]

end Records

end ServiceCatalog
