import ServiceCatalog.Proofs.Json.Literal
import ServiceCatalog.Proofs.Json.Tree

namespace ServiceCatalog

namespace Json

def Ranged (j : Json) : Prop := ∀ n, Part (.int n) j → Literal.InRange n

theorem Ranged.part {p j : Json} (hj : Ranged j) (hp : Part p j) : Ranged p :=
  fun n hn => hj n (hn.trans hp)

theorem ranged_arr {items : List Json} (h : ∀ j ∈ items, Ranged j) : Ranged (.arr items) := by
  rintro n (_ | ⟨hj, hp⟩)
  exact h _ hj n hp

theorem ranged_obj {fields : List (String × Json)} (h : ∀ p ∈ fields, Ranged p.2) : Ranged (.obj fields) := by
  rintro n (_ | _ | ⟨hf, hp⟩)
  exact h _ hf n hp

theorem ranged_illegible : Ranged .illegible := nofun

theorem ranged_null : Ranged .null := nofun

theorem ranged_bool (b : Bool) : Ranged (.bool b) := nofun

theorem ranged_str (s : String) : Ranged (.str s) := nofun

theorem Literal.ranged_value (l : Literal) : Ranged l.value := by
  have hfloat : Ranged ((l.float?.map Json.float).getD .illegible) := by
    cases l.float? <;> nofun
  unfold value
  simp only
  split
  · split
    · split
      · exact hfloat
      · next h =>
        rintro n ⟨⟩
        simp only [Bool.or_eq_true, decide_eq_true_eq, not_or] at h
        constructor <;> omega
    · split
      · next h =>
        rintro n ⟨⟩
        change Digits.toNat l.whole < 0x10000000000000000 at h
        constructor <;> omega
      · exact hfloat
  · exact hfloat

theorem ranged_of_readWord {word cs r : List Char} {j k : Json} (hj : Ranged j)
    (h : readWord word j cs = some (k, r)) : Ranged k := by
  unfold readWord at h
  split at h
  · cases h
    exact hj
  · cases h

structure Ranging (fuel : Nat) : Prop where
  value : ∀ {d cs j r}, readValue fuel d cs = some (j, r) → Ranged j
  items : ∀ {d cs items r}, readItems fuel d cs = some (items, r) → ∀ j ∈ items, Ranged j
  moreItems : ∀ {d cs items r}, readMoreItems fuel d cs = some (items, r) → ∀ j ∈ items, Ranged j
  fields : ∀ {d cs fields r}, readFields fuel d cs = some (some fields, r) → ∀ p ∈ fields, Ranged p.2
  moreFields : ∀ {d cs fields r}, readMoreFields fuel d cs = some (some fields, r) → ∀ p ∈ fields, Ranged p.2
  field : ∀ {d cs k j r}, readField fuel d cs = some (k, j, r) → Ranged j

variable {fuel d : Nat} {cs r : List Char}

theorem Ranging.value_succ (ih : Ranging fuel) {j : Json} (h : readValue (fuel + 1) d cs = some (j, r)) :
    Ranged j := by
  simp only [readValue] at h
  split at h
  · cases h
  · obtain ⟨⟨s, r⟩, -, h⟩ := Option.map_eq_some_iff.1 h
    cases h
    cases s with
    | none => exact ranged_illegible
    | some s => exact ranged_str s
  · obtain ⟨⟨items, r⟩, hitems, h⟩ := Option.bind_eq_some_iff.1 h
    cases h
    split
    · exact ranged_illegible
    · exact ranged_arr (ih.items hitems)
  · obtain ⟨⟨fields, r⟩, hfields, h⟩ := Option.bind_eq_some_iff.1 h
    cases fields with
    | none =>
      cases h
      exact ranged_illegible
    | some fields =>
      cases h
      split
      · exact ranged_illegible
      · exact ranged_obj (ih.fields hfields)
  · exact ranged_of_readWord ranged_null h
  · exact ranged_of_readWord (ranged_bool true) h
  · exact ranged_of_readWord (ranged_bool false) h
  · obtain ⟨⟨l, r⟩, -, h⟩ := Option.map_eq_some_iff.1 h
    cases h
    exact l.ranged_value

theorem Ranging.cons_items (ih : Ranging fuel) {items : List Json}
    (h : (do
      let (j, r) ← readValue fuel d cs
      let (js, r) ← readMoreItems fuel d r
      return (j :: js, r)) = some (items, r)) : ∀ j ∈ items, Ranged j := by
  obtain ⟨⟨j, r₁⟩, hj, h⟩ := Option.bind_eq_some_iff.1 h
  obtain ⟨⟨js, r₂⟩, hjs, h⟩ := Option.bind_eq_some_iff.1 h
  cases h
  exact List.forall_mem_cons.2 ⟨ih.value hj, ih.moreItems hjs⟩

theorem Ranging.cons_fields (ih : Ranging fuel) {fields : List (String × Json)}
    (h : (do
      let (k, j, r) ← readField fuel d cs
      let (fs, r) ← readMoreFields fuel d r
      return (do return (← k, j) :: (← fs), r)) = some (some fields, r)) : ∀ p ∈ fields, Ranged p.2 := by
  obtain ⟨⟨k, j, r₁⟩, hj, h⟩ := Option.bind_eq_some_iff.1 h
  obtain ⟨⟨fs, r₂⟩, hfs, h⟩ := Option.bind_eq_some_iff.1 h
  cases k with
  | none => simp at h
  | some k =>
    cases fs with
    | none => simp at h
    | some fs =>
      cases h
      exact List.forall_mem_cons.2 ⟨ih.field hj, ih.moreFields hfs⟩

theorem Ranging.field_succ (ih : Ranging fuel) {k : Option String} {j : Json}
    (h : readField (fuel + 1) d cs = some (k, j, r)) : Ranged j := by
  simp only [readField] at h
  split at h
  · obtain ⟨⟨k, r₁⟩, -, h⟩ := Option.bind_eq_some_iff.1 h
    dsimp only at h
    split at h
    · obtain ⟨⟨j, r₂⟩, hj, h⟩ := Option.bind_eq_some_iff.1 h
      cases h
      exact ih.value hj
    · cases h
  · cases h

theorem ranging (fuel : Nat) : Ranging fuel := by
  induction fuel with
  | zero =>
    constructor
    all_goals
      intros
      simp_all [readValue, readItems, readMoreItems, readFields, readMoreFields, readField]
  | succ fuel ih =>
    refine ⟨ih.value_succ, fun h => ?_, fun h => ?_, fun h => ?_, fun h => ?_, ih.field_succ⟩
    · simp only [readItems] at h
      split at h
      · cases h
        exact List.forall_mem_nil _
      · exact ih.cons_items h
    · simp only [readMoreItems] at h
      split at h
      · cases h
        exact List.forall_mem_nil _
      · exact ih.cons_items h
      · cases h
    · simp only [readFields] at h
      split at h
      · cases h
        exact List.forall_mem_nil _
      · exact ih.cons_fields h
    · simp only [readMoreFields] at h
      split at h
      · cases h
        exact List.forall_mem_nil _
      · exact ih.cons_fields h
      · cases h

theorem ranged_of_read? {s : String} {j : Json} (h : read? s = some j) : Ranged j := by
  obtain ⟨⟨j', r⟩, hread, h⟩ := Option.bind_eq_some_iff.1 h
  dsimp only at h
  split at h
  · cases h
    exact (ranging _).value hread
  · cases h

end Json

end ServiceCatalog
