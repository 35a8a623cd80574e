import ServiceCatalog.Catalog.Effect
import ServiceCatalog.Proofs.Tag.Reconciling

namespace ServiceCatalog

namespace Label

def tiers (labels : List Label) : List Label := labels.filter isTier

def untiered (labels : List Label) : List Label := labels.filter fun l => !l.isTier

theorem isTier_untiered (labels : List Label) : ∀ l ∈ untiered labels, l.isTier = false := by
  intro l hl
  simpa using (List.mem_filter.1 hl).2

theorem head?_tiers (labels : List Label) : (tiers labels).head? = labels.find? isTier := by
  rw [tiers, List.head?_filter]

def arranged (labels : List Label) : List Label := untiered labels ++ tiers labels

theorem arranged_perm (labels : List Label) : (arranged labels).Perm labels :=
  List.perm_append_comm.trans (List.filter_append_perm isTier labels)

section

variable {tier : Option Label} {editable : List Label} (htier : ∀ l ∈ tier, l.isTier = true)
  (heditable : ∀ l ∈ editable, l.isTier = false)
include htier heditable

theorem tiers_mergeTier : tiers (mergeTier tier editable) = tier.toList := by
  have hnone : editable.filter isTier = [] := by
    apply List.filter_eq_nil_iff.2
    intro l hl
    simp [heditable l hl]
  rw [tiers, mergeTier, List.filter_append, hnone, List.nil_append]
  apply List.filter_eq_self.2
  intro l hl
  exact htier l (Option.mem_toList.1 hl)

theorem untiered_mergeTier : untiered (mergeTier tier editable) = editable := by
  have hall : (editable.filter fun l => !l.isTier) = editable := by
    apply List.filter_eq_self.2
    intro l hl
    simp [heditable l hl]
  have hnone : (tier.toList.filter fun l => !l.isTier) = [] := by
    apply List.filter_eq_nil_iff.2
    intro l hl
    simp [htier l (Option.mem_toList.1 hl)]
  rw [untiered, mergeTier, List.filter_append, hall, hnone, List.append_nil]

theorem splitTier_mergeTier : splitTier (mergeTier tier editable) = (tier, editable) := by
  have hfirst : (mergeTier tier editable).find? isTier = tier := by
    rw [← head?_tiers, tiers_mergeTier htier heditable]
    cases tier <;> rfl
  have hothers : ((mergeTier tier editable).filter fun l => !l.isTier) = editable :=
    untiered_mergeTier htier heditable
  rw [splitTier, hfirst, hothers]

end

def selecting (selected : List TagSelection) (labels : List Label) : List Label :=
  mergeTier (splitTier labels).1 (reconcile (splitTier labels).2 (selected.filter fun t => !t.isTier))

def tiering (tier : Option TagSelection) (labels : List Label) : List Label :=
  mergeTier (tier.map (Effect.tierLabel (splitTier labels).1)) (splitTier labels).2

theorem isTier_splitTier (labels : List Label) : ∀ l ∈ (splitTier labels).1, l.isTier = true :=
  fun _ h => List.find?_some h

theorem isTier_reconcile {current : List Label} {selected : List TagSelection} :
    ∀ l ∈ reconcile current (selected.filter fun t => !t.isTier), l.isTier = false := by
  intro l hl
  have htag := mem_tags_reconcile.1 (List.mem_map_of_mem (f := (·.tag)) hl)
  obtain ⟨t, ht, htag⟩ := List.mem_map.1 htag
  have htier : isTierTag t.tag = false := by simpa [TagSelection.isTier] using (List.mem_filter.1 ht).2
  rwa [htag] at htier

section

variable (selected : List TagSelection) (labels : List Label)

theorem untiered_selecting :
    untiered (selecting selected labels) = reconcile (untiered labels) (selected.filter fun t => !t.isTier) :=
  untiered_mergeTier (isTier_splitTier labels) isTier_reconcile

theorem tiers_selecting : tiers (selecting selected labels) = (tiers labels).take 1 := by
  rw [selecting, tiers_mergeTier (isTier_splitTier labels) isTier_reconcile, List.take_one, head?_tiers]
  rfl

theorem selecting_selecting : selecting selected (selecting selected labels) = selecting selected labels := by
  have hsplit : splitTier (selecting selected labels) =
      ((splitTier labels).1, reconcile (splitTier labels).2 (selected.filter fun t => !t.isTier)) :=
    splitTier_mergeTier (isTier_splitTier labels) isTier_reconcile
  rw [selecting, hsplit, reconcile_reconcile]
  rfl

end

theorem tierLabel_of_eq {l : Label} {t : TagSelection} (h : l.tag = t.tag) : Effect.tierLabel (some l) t = l := by
  rw [Effect.tierLabel, Option.filter_some, if_pos (beq_iff_eq.2 h), Option.getD_some]

theorem tierLabel_of_ne {existing : Option Label} {t : TagSelection} (h : ∀ l ∈ existing, l.tag ≠ t.tag) :
    Effect.tierLabel existing t = t.label := by
  cases existing with
  | none => rfl
  | some l =>
    have hother : (l.tag == t.tag) = false := beq_false_of_ne (h l rfl)
    rw [Effect.tierLabel, Option.filter_some, hother, if_neg Bool.false_ne_true, Option.getD_none]

theorem tierLabel_tag (existing : Option Label) (t : TagSelection) : (Effect.tierLabel existing t).tag = t.tag := by
  by_cases h : ∃ l ∈ existing, l.tag = t.tag
  · obtain ⟨l, rfl, htag⟩ := h
    rw [tierLabel_of_eq htag, htag]
  · rw [tierLabel_of_ne fun l hl htag => h ⟨l, hl, htag⟩]
    rfl

section

variable {tier : Option TagSelection} (htier : ∀ t ∈ tier, t.isTier = true) (labels : List Label)
include htier

theorem isTier_tierLabel : ∀ l ∈ tier.map (Effect.tierLabel (splitTier labels).1), l.isTier = true := by
  intro l hl
  obtain ⟨t, ht, rfl⟩ := Option.map_eq_some_iff.1 hl
  rw [isTier, tierLabel_tag]
  exact htier t ht

theorem untiered_tiering : untiered (tiering tier labels) = untiered labels :=
  untiered_mergeTier (isTier_tierLabel htier labels) (isTier_untiered labels)

theorem tiers_tiering :
    tiers (tiering tier labels) = (tier.map (Effect.tierLabel (tiers labels).head?)).toList := by
  rw [head?_tiers]
  exact tiers_mergeTier (isTier_tierLabel htier labels) (isTier_untiered labels)

theorem tiering_tiering : tiering tier (tiering tier labels) = tiering tier labels := by
  have hsplit : splitTier (tiering tier labels) = _ :=
    splitTier_mergeTier (isTier_tierLabel htier labels) (isTier_untiered labels)
  rw [tiering, hsplit]
  cases tier with
  | none => rfl
  | some t =>
    rw [Option.map_some, Option.map_some, tierLabel_of_eq (tierLabel_tag _ t)]
    rfl

end

section

variable {labels : List Label}

theorem mergeTier_own (h : (tiers labels).length ≤ 1) :
    mergeTier (splitTier labels).1 (untiered labels) = arranged labels := by
  have hfirst : (splitTier labels).1.toList = tiers labels := by
    rw [← List.take_of_length_le h, List.take_one, head?_tiers]
    rfl
  rw [mergeTier, hfirst, arranged]

theorem selecting_own (h : (tiers labels).length ≤ 1) :
    selecting ((untiered labels).map .ofLabel) labels = arranged labels := by
  have hselected : (((untiered labels).map TagSelection.ofLabel).filter fun t => !t.isTier) =
      (untiered labels).map .ofLabel := by
    apply List.filter_eq_self.2
    intro t ht
    obtain ⟨l, hl, rfl⟩ := List.mem_map.1 ht
    have hlabel : isTierTag l.tag = false := isTier_untiered labels l hl
    simp [TagSelection.isTier, TagSelection.ofLabel, hlabel]
  have hothers : (splitTier labels).2 = untiered labels := rfl
  rw [selecting, hselected, hothers, reconcile_ofLabel, mergeTier_own h]

theorem tiering_own {tier : Option TagSelection} (htier : tier.map (·.tag) = (tiers labels).head?.map (·.tag))
    (h : (tiers labels).length ≤ 1) : tiering tier labels = arranged labels := by
  have hfirst : (splitTier labels).1 = (tiers labels).head? := (head?_tiers labels).symm
  have hown : tier.map (Effect.tierLabel (splitTier labels).1) = (splitTier labels).1 := by
    rw [hfirst]
    cases htiers : (tiers labels).head? with
    | none =>
      rw [htiers, Option.map_none, Option.map_eq_none_iff] at htier
      rw [htier, Option.map_none]
    | some l =>
      rw [htiers, Option.map_some, Option.map_eq_some_iff] at htier
      obtain ⟨t, rfl, htag⟩ := htier
      rw [Option.map_some, tierLabel_of_eq htag.symm]
  rw [tiering, hown]
  exact mergeTier_own h

theorem isTier_own {tier : Option TagSelection} (htier : tier.map (·.tag) = (tiers labels).head?.map (·.tag)) :
    ∀ t ∈ tier, t.isTier = true := by
  intro t ht
  rw [Option.mem_def.1 ht, Option.map_some, eq_comm, Option.map_eq_some_iff] at htier
  obtain ⟨l, hl, htag⟩ := htier
  have hlabel : isTierTag l.tag = true := (List.mem_filter.1 (List.mem_of_head? hl)).2
  rwa [htag] at hlabel

end

end Label

end ServiceCatalog
