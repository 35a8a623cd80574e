namespace ServiceCatalog

variable {α β : Type}

def Ascending (entries : List (String × α)) : Prop :=
  entries.Pairwise fun a b => a.1 < b.1

structure Dict (α : Type) where
  entries : List (String × α)
  ascending : Ascending entries

namespace Dict

def empty : Dict α := ⟨[], .nil⟩

instance : Inhabited (Dict α) := ⟨empty⟩

theorem ext {d e : Dict α} (h : d.entries = e.entries) : d = e := by
  cases d; cases e; cases h; rfl

instance [BEq α] : BEq (Dict α) := ⟨fun d e => d.entries == e.entries⟩

instance [DecidableEq α] : DecidableEq (Dict α) := fun d e =>
  if h : d.entries = e.entries then isTrue (ext h) else isFalse fun he => h (he ▸ rfl)

def place (k : String) (v : α) : List (String × α) → List (String × α)
  | [] => [(k, v)]
  | (j, w) :: r =>
    if k < j then (k, v) :: (j, w) :: r
    else if k = j then (k, v) :: r
    else (j, w) :: place k v r

theorem mem_place {k : String} {v : α} {l : List (String × α)} {p : String × α}
    (h : p ∈ place k v l) : p = (k, v) ∨ p ∈ l := by
  induction l with
  | nil => simpa [place] using h
  | cons q r ih =>
    obtain ⟨j, w⟩ := q
    simp only [place] at h
    split at h
    · simpa using h
    · split at h
      · rcases List.mem_cons.1 h with h | h
        · exact .inl h
        · exact .inr (List.mem_cons_of_mem _ h)
      · rcases List.mem_cons.1 h with h | h
        · exact .inr (h ▸ List.mem_cons_self)
        · exact (ih h).imp id (List.mem_cons_of_mem _)

theorem place_ascending {k : String} {v : α} {l : List (String × α)} (h : Ascending l) :
    Ascending (place k v l) := by
  induction l with
  | nil => exact List.pairwise_singleton _ _
  | cons q r ih =>
    obtain ⟨j, w⟩ := q
    obtain ⟨hj, hr⟩ := List.pairwise_cons.1 h
    simp only [place]
    split
    · next hk =>
      refine List.pairwise_cons.2 ⟨fun p hp => ?_, h⟩
      rcases List.mem_cons.1 hp with rfl | hp
      · exact hk
      · exact String.lt_trans hk (hj p hp)
    · split
      · next hk => subst hk; exact List.pairwise_cons.2 ⟨hj, hr⟩
      · next hlt hne =>
        refine List.pairwise_cons.2 ⟨fun p hp => ?_, ih hr⟩
        rcases mem_place hp with rfl | hp
        · have := String.le_antisymm (a := k) (b := j)
          grind [String.not_le, String.not_lt]
        · exact hj p hp

def insert (d : Dict α) (k : String) (v : α) : Dict α :=
  ⟨place k v d.entries, place_ascending d.ascending⟩

def ofList (l : List (String × α)) : Dict α :=
  l.foldl (fun d p => d.insert p.1 p.2) empty

theorem mem_ofList {l : List (String × α)} {p : String × α} (h : p ∈ (ofList l).entries) : p ∈ l := by
  suffices ∀ d : Dict α, p ∈ (l.foldl (fun d p => d.insert p.1 p.2) d).entries →
      p ∈ d.entries ∨ p ∈ l from (this empty h).resolve_left (by simp [empty])
  clear h
  induction l with
  | nil => exact fun d h => .inl h
  | cons q r ih =>
    intro d h
    rcases ih _ h with h | h
    · rcases mem_place h with rfl | h
      · exact .inr List.mem_cons_self
      · exact .inl h
    · exact .inr (List.mem_cons_of_mem _ h)

def get? (d : Dict α) (k : String) : Option α :=
  (d.entries.find? (·.1 == k)).map (·.2)

def contains (d : Dict α) (k : String) : Bool := d.entries.any (·.1 == k)

def keys (d : Dict α) : List String := d.entries.map (·.1)

def isEmpty (d : Dict α) : Bool := d.entries.isEmpty

end Dict

end ServiceCatalog
