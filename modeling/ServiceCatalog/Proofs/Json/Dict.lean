import Mathlib.Data.List.Find
import Mathlib.Data.List.Induction
import Mathlib.Data.List.Nodup
import ServiceCatalog.Json.Dict

namespace ServiceCatalog

variable {α : Type}

theorem find?_key_eq_some {κ : Type} [DecidableEq κ] {key : α → κ} {l : List α}
    (hinj : ∀ a ∈ l, ∀ b ∈ l, key a = key b → a = b) {k : κ} {a : α} :
    l.find? (key · == k) = some a ↔ a ∈ l ∧ key a = k := by
  constructor
  · intro h
    exact ⟨List.mem_of_find?_eq_some h, by simpa using List.find?_some h⟩
  · rintro ⟨ha, rfl⟩
    have hfound : (l.find? (key · == key a)).isSome = true := List.find?_isSome.2 ⟨a, ha, by simp⟩
    obtain ⟨b, hb⟩ := Option.isSome_iff_exists.1 hfound
    have hkey : key b = key a := by simpa using List.find?_some hb
    rwa [hinj b (List.mem_of_find?_eq_some hb) a ha hkey] at hb

namespace Dict

theorem find?_place (k : String) (v : α) (l : List (String × α)) (key : String) :
    (place k v l).find? (·.1 == key) = if key = k then some (k, v) else l.find? (·.1 == key) := by
  induction l with
  | nil => by_cases h : k = key <;> simp [place, h, Ne.symm]
  | cons p r ih =>
    obtain ⟨j, w⟩ := p
    simp only [place]
    split
    · by_cases h : key = k
      · simp [h]
      · simp [h, Ne.symm h]
    · split
      · next he =>
        by_cases h : key = k
        · simp [h]
        · simp [h, Ne.symm h, ← he]
      · next he =>
        rw [List.find?_cons, List.find?_cons, ih]
        by_cases h : key = j
        · subst h; simp [Ne.symm he]
        · simp [beq_false_of_ne (Ne.symm h)]

@[simp]
theorem get?_insert (d : Dict α) (k : String) (v : α) (key : String) :
    (d.insert k v).get? key = if key = k then some v else d.get? key := by
  simp only [get?, insert, find?_place]
  split <;> rfl

theorem get?_ofList_const (keys : List String) (v : α) (key : String) :
    (ofList (keys.map (·, v))).get? key = if key ∈ keys then some v else none := by
  suffices ∀ d : Dict α, ((keys.map (·, v)).foldl (fun d p => d.insert p.1 p.2) d).get? key =
      if key ∈ keys then some v else d.get? key from this empty
  induction keys with
  | nil => simp
  | cons k keys ih =>
    intro d
    rw [List.map_cons, List.foldl_cons, ih, get?_insert]
    by_cases hk : key = k <;> by_cases hkeys : key ∈ keys <;> simp [hk, hkeys]

theorem get?_ofList (l : List (String × α)) (k : String) :
    (ofList l).get? k = (l.reverse.find? (·.1 == k)).map (·.2) := by
  unfold ofList
  induction l using List.reverseRecOn with
  | nil => rfl
  | append_singleton l p ih =>
    rw [List.foldl_append, List.foldl_cons, List.foldl_nil, get?_insert, ih, List.reverse_append,
      List.reverse_singleton, List.singleton_append, List.find?_cons]
    by_cases hk : k = p.1
    · simp [hk]
    · simp [hk, beq_false_of_ne (Ne.symm hk)]

theorem get?_ofList_of_nodup {l : List (String × α)} (h : (l.map Prod.fst).Nodup) (k : String) :
    (ofList l).get? k = (l.find? (·.1 == k)).map (·.2) := by
  rw [get?_ofList]
  congr 1
  apply List.find?_eq_find?_of_perm l.reverse_perm
  rintro p ⟨hp, hpk⟩ q ⟨hq, hqk⟩
  have he : p.1 = q.1 := (eq_of_beq hpk).trans (eq_of_beq hqk).symm
  exact List.inj_on_of_nodup_map h (List.mem_reverse.1 hp) (List.mem_reverse.1 hq) he

theorem keys_nodup (d : Dict α) : (d.entries.map Prod.fst).Nodup := by
  apply List.pairwise_map.2
  apply d.ascending.imp
  intro p q hlt he
  rw [he] at hlt
  exact String.lt_irrefl _ hlt

theorem get?_eq_some {d : Dict α} {k : String} {v : α} : d.get? k = some v ↔ (k, v) ∈ d.entries := by
  have hfind {p : String × α} : d.entries.find? (·.1 == k) = some p ↔ p ∈ d.entries ∧ p.1 = k :=
    find?_key_eq_some fun _ hp _ hq he => List.inj_on_of_nodup_map d.keys_nodup hp hq he
  rw [get?, Option.map_eq_some_iff]
  constructor
  · rintro ⟨p, hp, rfl⟩
    obtain ⟨hmem, rfl⟩ := hfind.1 hp
    exact hmem
  · intro hmem
    exact ⟨(k, v), hfind.2 ⟨hmem, rfl⟩, rfl⟩

theorem place_of_all_lt {k : String} {v : α} {l : List (String × α)} (h : ∀ p ∈ l, p.1 < k) :
    place k v l = l ++ [(k, v)] := by
  induction l with
  | nil => rfl
  | cons p l ih =>
    obtain ⟨j, w⟩ := p
    obtain ⟨hj, hl⟩ := List.forall_mem_cons.1 h
    have hkj : ¬ k < j := fun hkj => String.lt_irrefl k (String.lt_trans hkj hj)
    have hne : k ≠ j := fun he => String.lt_irrefl k (he ▸ hj)
    rw [place, if_neg hkj, if_neg hne, ih hl, List.cons_append]

theorem ofList_entries (d : Dict α) : ofList d.entries = d := by
  suffices ∀ (l : List (String × α)) (e : Dict α), Ascending (e.entries ++ l) →
      (l.foldl (fun d p => d.insert p.1 p.2) e).entries = e.entries ++ l from
    ext (this d.entries empty d.ascending)
  intro l
  induction l with
  | nil => simp
  | cons p l ih =>
    intro e h
    obtain ⟨-, -, hlt⟩ := List.pairwise_append.1 h
    have hinsert : (e.insert p.1 p.2).entries = e.entries ++ [p] :=
      place_of_all_lt fun q hq => hlt q hq p List.mem_cons_self
    have hassoc : e.entries ++ p :: l = e.entries ++ [p] ++ l := by simp
    rw [List.foldl_cons, ih, hinsert, hassoc]
    rw [hinsert, ← hassoc]
    exact h

end Dict

end ServiceCatalog
