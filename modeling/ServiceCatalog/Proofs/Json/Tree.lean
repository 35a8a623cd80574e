import ServiceCatalog.Json.Basic

namespace ServiceCatalog

namespace Json

theorem induct {motive : Json → Prop} (null : motive .null) (bool : ∀ b, motive (.bool b))
    (int : ∀ n, motive (.int n)) (float : ∀ x, motive (.float x)) (str : ∀ s, motive (.str s))
    (arr : ∀ items, (∀ j ∈ items, motive j) → motive (.arr items))
    (obj : ∀ fields, (∀ p ∈ fields, motive p.2) → motive (.obj fields))
    (illegible : motive .illegible) : ∀ j, motive j
  | .null => null
  | .bool b => bool b
  | .int n => int n
  | .float x => float x
  | .str s => str s
  | .arr items => arr items fun j _ => induct null bool int float str arr obj illegible j
  | .obj fields => obj fields fun p _ => induct null bool int float str arr obj illegible p.2
  | .illegible => illegible
termination_by j => sizeOf j
decreasing_by
  · next hj =>
    have := List.sizeOf_lt_of_mem hj
    simp only [Json.arr.sizeOf_spec]
    omega
  · next hp =>
    have := List.sizeOf_lt_of_mem hp
    cases p
    simp only [Json.obj.sizeOf_spec, Prod.mk.sizeOf_spec] at *
    omega

inductive Part (p : Json) : Json → Prop
  | self : Part p p
  | item {items : List Json} {j : Json} (hj : j ∈ items) (hp : Part p j) : Part p (.arr items)
  | field {fields : List (String × Json)} {f : String × Json} (hf : f ∈ fields) (hp : Part p f.2) :
    Part p (.obj fields)

theorem Part.trans {p q j : Json} (hpq : Part p q) (hqj : Part q j) : Part p j := by
  induction hqj with
  | self => exact hpq
  | item hj _ ih => exact .item hj ih
  | field hf _ ih => exact .field hf ih

theorem part_arr {p : Json} {items : List Json} :
    Part p (.arr items) ↔ p = .arr items ∨ ∃ j ∈ items, Part p j := by
  constructor
  · rintro (_ | ⟨hj, hp⟩)
    · exact .inl rfl
    · exact .inr ⟨_, hj, hp⟩
  · rintro (rfl | ⟨j, hj, hp⟩)
    · exact .self
    · exact .item hj hp

theorem part_obj {p : Json} {fields : List (String × Json)} :
    Part p (.obj fields) ↔ p = .obj fields ∨ ∃ f ∈ fields, Part p f.2 := by
  constructor
  · rintro (_ | _ | ⟨hf, hp⟩)
    · exact .inl rfl
    · exact .inr ⟨_, hf, hp⟩
  · rintro (rfl | ⟨f, hf, hp⟩)
    · exact .self
    · exact .field hf hp

mutual

def floats : Json → List Binary64
  | .float x => [x]
  | .arr items => floatsAll items
  | .obj fields => floatsFields fields
  | _ => []

def floatsAll : List Json → List Binary64
  | [] => []
  | j :: r => j.floats ++ floatsAll r

def floatsFields : List (String × Json) → List Binary64
  | [] => []
  | (_, j) :: r => j.floats ++ floatsFields r

end

theorem mem_floatsAll {x : Binary64} {items : List Json} :
    x ∈ floatsAll items ↔ ∃ j ∈ items, x ∈ j.floats := by
  induction items with
  | nil => simp [floatsAll]
  | cons j items ih => simp [floatsAll, ih]

theorem mem_floatsFields {x : Binary64} {fields : List (String × Json)} :
    x ∈ floatsFields fields ↔ ∃ p ∈ fields, x ∈ p.2.floats := by
  induction fields with
  | nil => simp [floatsFields]
  | cons p fields ih => simp [floatsFields, ih]

theorem part_float {x : Binary64} {j : Json} : Part (.float x) j ↔ x ∈ j.floats := by
  induction j using induct with
  | arr items ih =>
    simp only [part_arr, reduceCtorEq, false_or, floats, mem_floatsAll]
    exact exists_congr fun j => and_congr_right (ih j)
  | obj fields ih =>
    simp only [part_obj, reduceCtorEq, false_or, floats, mem_floatsFields]
    exact exists_congr fun p => and_congr_right (ih p)
  | float y =>
    rw [floats, List.mem_singleton]
    constructor
    · rintro ⟨⟩
      rfl
    · rintro rfl
      exact .self
  | null | bool | int | str | illegible => exact ⟨nofun, nofun⟩

theorem legibleAll_iff {items : List Json} : legibleAll items = true ↔ ∀ j ∈ items, j.legible = true := by
  induction items with
  | nil => simp [legibleAll]
  | cons j items ih => simp [legibleAll, ih]

theorem legibleFields_iff {fields : List (String × Json)} :
    legibleFields fields = true ↔ ∀ p ∈ fields, p.2.legible = true := by
  induction fields with
  | nil => simp [legibleFields]
  | cons p fields ih => simp [legibleFields, ih]

@[simp]
theorem legible_arr {items : List Json} :
    (arr items).legible = true ↔ ∀ j ∈ items, j.legible = true := by
  rw [legible, legibleAll_iff]

@[simp]
theorem legible_obj {fields : List (String × Json)} :
    (obj fields).legible = true ↔ ∀ p ∈ fields, p.2.legible = true := by
  rw [legible, legibleFields_iff]

theorem legible_of_part {p j : Json} (h : Part p j) (hj : j.legible = true) : p.legible = true := by
  induction h with
  | self => exact hj
  | item hmem _ ih => exact ih (legible_arr.1 hj _ hmem)
  | field hmem _ ih => exact ih (legible_obj.1 hj _ hmem)

mutual

def depth : Json → Nat
  | .arr items => depthAll items + 1
  | .obj fields => depthFields fields + 1
  | _ => 0

def depthAll : List Json → Nat
  | [] => 0
  | j :: r => max j.depth (depthAll r)

def depthFields : List (String × Json) → Nat
  | [] => 0
  | (_, j) :: r => max j.depth (depthFields r)

end

theorem depthAll_le {items : List Json} {d : Nat} : depthAll items ≤ d ↔ ∀ j ∈ items, j.depth ≤ d := by
  induction items with
  | nil => simp [depthAll]
  | cons j items ih => simp only [depthAll, Nat.max_le, ih, List.forall_mem_cons]

theorem depthFields_le {fields : List (String × Json)} {d : Nat} :
    depthFields fields ≤ d ↔ ∀ p ∈ fields, p.2.depth ≤ d := by
  induction fields with
  | nil => simp [depthFields]
  | cons p fields ih => simp only [depthFields, Nat.max_le, ih, List.forall_mem_cons]

theorem depth_arr_le {items : List Json} {d : Nat} :
    (arr items).depth ≤ d ↔ 0 < d ∧ ∀ j ∈ items, j.depth ≤ d - 1 := by
  rw [depth, ← depthAll_le]
  omega

theorem depth_obj_le {fields : List (String × Json)} {d : Nat} :
    (obj fields).depth ≤ d ↔ 0 < d ∧ ∀ p ∈ fields, p.2.depth ≤ d - 1 := by
  rw [depth, ← depthFields_le]
  omega

mutual

/-- The tree as it is read where `d` containers are legible, one in the other. -/
def cut (d : Nat) : Json → Json
  | .arr items => if d = 0 then .illegible else .arr (cutAll (d - 1) items)
  | .obj fields => if d = 0 then .illegible else .obj (cutFields (d - 1) fields)
  | .null => .null
  | .bool b => .bool b
  | .int n => .int n
  | .float x => .float x
  | .str s => .str s
  | .illegible => .illegible

def cutAll (d : Nat) : List Json → List Json
  | [] => []
  | j :: r => j.cut d :: cutAll d r

def cutFields (d : Nat) : List (String × Json) → List (String × Json)
  | [] => []
  | (k, j) :: r => (k, j.cut d) :: cutFields d r

end

theorem cutAll_eq_map (d : Nat) (items : List Json) : cutAll d items = items.map (cut d) := by
  induction items with
  | nil => rfl
  | cons j items ih => rw [cutAll, ih, List.map_cons]

theorem cutFields_eq_map (d : Nat) (fields : List (String × Json)) :
    cutFields d fields = fields.map fun p => (p.1, p.2.cut d) := by
  induction fields with
  | nil => rfl
  | cons p fields ih => rw [cutFields, ih, List.map_cons]

theorem cut_arr (d : Nat) (items : List Json) :
    (arr items).cut d = if d = 0 then .illegible else .arr (items.map (cut (d - 1))) := by
  rw [cut, cutAll_eq_map]

theorem cut_obj (d : Nat) (fields : List (String × Json)) :
    (obj fields).cut d =
      if d = 0 then .illegible else .obj (fields.map fun p => (p.1, p.2.cut (d - 1))) := by
  rw [cut, cutFields_eq_map]

theorem cut_ne_null {j : Json} (h : j ≠ .null) {d : Nat} : j.cut d ≠ .null := by
  cases j with
  | null => exact absurd rfl h
  | arr items =>
    rw [cut]
    split <;> nofun
  | obj fields =>
    rw [cut]
    split <;> nofun
  | bool | int | float | str | illegible => nofun

theorem cut_eq_self {j : Json} : ∀ {d : Nat}, j.depth ≤ d → j.cut d = j := by
  induction j using induct with
  | arr items ih =>
    intro d h
    obtain ⟨hd, h⟩ := depth_arr_le.1 h
    rw [cut_arr, if_neg (by omega)]
    congr 1
    refine (List.map_congr_left fun j hj => ?_).trans (List.map_id _)
    exact ih j hj (h j hj)
  | obj fields ih =>
    intro d h
    obtain ⟨hd, h⟩ := depth_obj_le.1 h
    rw [cut_obj, if_neg (by omega)]
    congr 1
    refine (List.map_congr_left fun p hp => ?_).trans (List.map_id _)
    rw [ih p hp (h p hp)]
    rfl
  | null | bool | int | float | str | illegible => intros; rfl

theorem legible_cut {j : Json} (hj : j.legible = true) :
    ∀ {d : Nat}, (j.cut d).legible = true ↔ j.depth ≤ d := by
  induction j using induct with
  | arr items ih =>
    intro d
    rw [cut_arr, depth_arr_le]
    by_cases hd : d = 0
    · simp [hd, legible]
    · rw [if_neg hd, legible_arr, List.forall_mem_map]
      have hitems := legible_arr.1 hj
      constructor
      · intro h
        exact ⟨by omega, fun j hmem => (ih j hmem (hitems j hmem)).1 (h j hmem)⟩
      · rintro ⟨-, h⟩ j hmem
        exact (ih j hmem (hitems j hmem)).2 (h j hmem)
  | obj fields ih =>
    intro d
    rw [cut_obj, depth_obj_le]
    by_cases hd : d = 0
    · simp [hd, legible]
    · rw [if_neg hd, legible_obj, List.forall_mem_map]
      have hfields := legible_obj.1 hj
      constructor
      · intro h
        exact ⟨by omega, fun p hmem => (ih p hmem (hfields p hmem)).1 (h p hmem)⟩
      · rintro ⟨-, h⟩ p hmem
        exact (ih p hmem (hfields p hmem)).2 (h p hmem)
  | null | bool | int | float | str => simp [cut, legible, depth]
  | illegible => simp [legible] at hj

end Json

end ServiceCatalog
