import Mathlib.Data.List.Nodup
import ServiceCatalog.Tag.Selection

namespace ServiceCatalog

theorem eraseDupsBy_filter {α : Type} {r : α → α → Bool} {p : α → Bool} (hp : ∀ a b, r b a = true → p b = p a) :
    ∀ l : List α, (l.filter p).eraseDupsBy r = (l.eraseDupsBy r).filter p
  | [] => rfl
  | a :: l => by
    -- the recursion is on what is left of the rest, so it goes by the length
    have ih := eraseDupsBy_filter hp (l.filter fun b => r b a = false)
    rw [List.eraseDupsBy_cons, List.filter_cons, List.filter_cons, ← ih]
    cases ha : p a with
    | true =>
      rw [if_pos rfl, if_pos rfl, List.eraseDupsBy_cons, List.filter_filter, List.filter_filter]
      simp only [Bool.and_comm]
    | false =>
      have hsame : ∀ b ∈ l, (p b && decide (r b a = false)) = p b := by
        intro b _
        cases hr : r b a with
        | true => simp [hp a b hr, ha]
        | false => simp
      rw [if_neg Bool.false_ne_true, if_neg Bool.false_ne_true, List.filter_filter, List.filter_congr hsame]
termination_by l => l.length
decreasing_by exact Nat.lt_succ_of_le (List.length_filter_le _ _)

namespace Label

theorem added_eq (present : List String) (selected : List TagSelection) :
    added present selected =
      ((selected.eraseDupsBy (·.tag == ·.tag)).filter fun t => !present.contains t.tag).map TagSelection.label := by
  induction selected generalizing present with
  | nil => rfl
  | cons s r ih =>
    have hrest : (r.filter fun t => (t.tag == s.tag) = false).eraseDupsBy (·.tag == ·.tag) =
        (r.eraseDupsBy (·.tag == ·.tag)).filter fun t => (t.tag == s.tag) = false := by
      apply eraseDupsBy_filter
      intro t u h
      rw [eq_of_beq h]
    rw [added, List.eraseDupsBy_cons, hrest, List.filter_cons, List.filter_filter, ih, ih]
    cases hs : present.contains s.tag with
    | true =>
      rw [if_pos rfl, if_neg (by decide)]
      congr 1
      apply List.filter_congr
      intro t _
      by_cases ht : t.tag = s.tag
      · simp [ht, List.contains_iff_mem.1 hs]
      · simp [ht]
    | false =>
      rw [if_neg (by decide), if_pos (by decide), List.map_cons]
      congr 2
      apply List.filter_congr
      intro t _
      simp [Bool.and_comm]

theorem added_congr {present present' : List String} {selected : List TagSelection}
    (h : ∀ t ∈ selected, t.tag ∈ present ↔ t.tag ∈ present') : added present selected = added present' selected := by
  induction selected generalizing present present' with
  | nil => rfl
  | cons s r ih =>
    obtain ⟨hs, hr⟩ := List.forall_mem_cons.1 h
    have hcontains : present.contains s.tag = present'.contains s.tag := by
      rw [Bool.eq_iff_iff, List.contains_iff_mem, List.contains_iff_mem, hs]
    have hcons : ∀ t ∈ r, t.tag ∈ s.tag :: present ↔ t.tag ∈ s.tag :: present' := by
      intro t ht
      rw [List.mem_cons, List.mem_cons, hr t ht]
    rw [added, added, hcontains, ih hr, ih hcons]

section

variable {present : List String} {current : List Label} {selected : List TagSelection} {tag : String}

theorem mem_tags_added :
    tag ∈ (added present selected).map (·.tag) ↔ tag ∈ selected.map (·.tag) ∧ tag ∉ present := by
  induction selected generalizing present with
  | nil => simp [added]
  | cons s r ih =>
    rw [added]
    split
    · next hs =>
      rw [ih, List.map_cons, List.mem_cons]
      grind
    · next hs =>
      rw [List.map_cons, List.mem_cons, ih, List.map_cons, List.mem_cons]
      have hlabel : s.label.tag = s.tag := rfl
      grind

theorem nodup_added : ((added present selected).map (·.tag)).Nodup := by
  induction selected generalizing present with
  | nil => exact List.nodup_nil
  | cons s r ih =>
    rw [added]
    split
    · exact ih
    · apply List.nodup_cons.2
      refine ⟨?_, ih⟩
      intro hs
      exact (mem_tags_added.1 hs).2 List.mem_cons_self

theorem added_eq_nil (h : ∀ t ∈ selected, t.tag ∈ present) : added present selected = [] := by
  apply List.map_eq_nil_iff.1
  apply List.eq_nil_iff_forall_not_mem.2
  intro tag htag
  obtain ⟨hselected, hnew⟩ := mem_tags_added.1 htag
  obtain ⟨t, ht, rfl⟩ := List.mem_map.1 hselected
  exact hnew (h t ht)

theorem reconcile_eq_self (h : ∀ tag, tag ∈ current.map (·.tag) ↔ tag ∈ selected.map (·.tag)) :
    reconcile current selected = current := by
  have hkept : (current.filter fun l => selected.any (·.tag == l.tag)) = current := by
    apply List.filter_eq_self.2
    intro l hl
    obtain ⟨t, ht, htag⟩ := List.mem_map.1 ((h l.tag).1 (List.mem_map_of_mem hl))
    exact List.any_eq_true.2 ⟨t, ht, beq_iff_eq.2 htag⟩
  rw [reconcile, hkept, added_eq_nil, List.append_nil]
  intro t ht
  exact (h t.tag).2 (List.mem_map_of_mem ht)

theorem reconcile_ofLabel : reconcile current (current.map .ofLabel) = current := by
  apply reconcile_eq_self
  intro tag
  rw [List.map_map]
  rfl

theorem mem_tags_reconcile :
    tag ∈ (reconcile current selected).map (·.tag) ↔ tag ∈ selected.map (·.tag) := by
  have hkept : tag ∈ (current.filter fun l => selected.any (·.tag == l.tag)).map (·.tag) ↔
      tag ∈ current.map (·.tag) ∧ tag ∈ selected.map (·.tag) := by
    simp only [List.mem_map, List.mem_filter, List.any_eq_true, beq_iff_eq]
    grind
  rw [reconcile, List.map_append, List.mem_append, mem_tags_added, hkept]
  tauto

theorem nodup_reconcile (h : (current.map (·.tag)).Nodup) : ((reconcile current selected).map (·.tag)).Nodup := by
  rw [reconcile, List.map_append]
  apply List.Nodup.append
  · exact h.sublist (List.filter_sublist.map _)
  · exact nodup_added
  · intro tag hkept hnew
    exact (mem_tags_added.1 hnew).2 hkept

theorem reconcile_reconcile : reconcile (reconcile current selected) selected = reconcile current selected :=
  reconcile_eq_self fun _ => mem_tags_reconcile

end

/-- The labels of selected tags stay as they are and in their order. A label put on by hand follows for every other
selected tag, with what the first selection of the tag says, in the order of these selections. -/
theorem reconcile_exact (current : List Label) (selected : List TagSelection) :
    reconcile current selected =
        current.filter (·.tag ∈ selected.map (·.tag)) ++
          ((selected.eraseDupsBy (·.tag == ·.tag)).filter (·.tag ∉ current.map (·.tag))).map (fun t =>
            { tag := t.tag, origin := .manual, source := t.source, state := .confirmed, name := t.name,
              displayName := t.displayName, description := t.description, style := t.style, href := none }) ∧
      (∀ tag, tag ∈ (reconcile current selected).map (·.tag) ↔ tag ∈ selected.map (·.tag)) ∧
      ((current.map (·.tag)).Nodup → ((reconcile current selected).map (·.tag)).Nodup) ∧
      reconcile current (current.map .ofLabel) = current ∧
      reconcile (reconcile current selected) selected = reconcile current selected := by
  refine ⟨?_, fun _ => mem_tags_reconcile, nodup_reconcile, reconcile_ofLabel, reconcile_reconcile⟩
  have hkept : (current.filter fun l => selected.any (·.tag == l.tag)) =
      current.filter (·.tag ∈ selected.map (·.tag)) := by
    apply List.filter_congr
    intro l _
    rw [Bool.eq_iff_iff]
    simp
  -- a selected tag is kept if it is there at all, so what is new does not depend on what was dropped
  have hpresent : ∀ t ∈ selected, t.tag ∈ (current.filter (·.tag ∈ selected.map (·.tag))).map (·.tag) ↔
      t.tag ∈ current.map (·.tag) := by
    intro t ht
    have htag : t.tag ∈ selected.map (·.tag) := List.mem_map_of_mem ht
    grind
  rw [reconcile, hkept, added_congr hpresent, added_eq]
  congr 2
  apply List.filter_congr
  intro t _
  simp only [List.contains_eq_mem, decide_not]

theorem reconcile_exact_repeating :
    let derived := { manual "PII.Sensitive" .classification with origin := .derived }
    let current := [derived, manual "Glossary.Files" .glossary]
    let selected := [.ofTag "Team.Search" .classification, .ofTag "PII.Sensitive" .glossary,
      .ofTag "Team.Search" .glossary]
    (current.map (·.tag)).Nodup ∧
      reconcile current selected = [derived, manual "Team.Search" .classification] ∧
      ((reconcile current selected).map (·.tag)).Nodup ∧
      reconcile (reconcile current selected) selected = reconcile current selected := by
  intro derived current selected
  obtain ⟨hexact, -, hnodup, -, hagain⟩ := reconcile_exact current selected
  have hdistinct : (current.map (·.tag)).Nodup := by decide +kernel
  exact ⟨hdistinct, hexact.trans (by decide +kernel), hnodup hdistinct, hagain⟩

end Label

end ServiceCatalog
