import ServiceCatalog.Proofs.Catalog.Paging

namespace ServiceCatalog

namespace ListQuery

structure Awaits (q : ListQuery) (shown : List Service) (s : Service) : Prop where
  selects : q.selects s = true
  follows : ∀ cursor ∈ q.after, cursor < s.qualifiedName
  beyond : ∀ last ∈ shown.getLast?, last.qualifiedName < s.qualifiedName

variable {q : ListQuery} {services : List Service} {s : Service}

theorem follows_iff : q.follows s = true ↔ ∀ cursor ∈ q.after, cursor < s.qualifiedName := by
  rw [follows_eq, Option.all_eq_true]
  simp only [decide_eq_true_eq, Option.mem_def]

theorem exists_awaited_iff (h : InOrder services) (n : Nat) :
    (∃ s ∈ services, q.Awaits ((q.remaining services).take n) s) ↔ n < (q.remaining services).length := by
  have hinorder : InOrder (q.remaining services) := remaining_inOrder h q
  constructor
  · rintro ⟨s, hs, hawaits⟩
    apply Nat.not_le.1
    intro hall
    -- all that is left would be on the page, and so would be this service
    have hmem : s ∈ q.remaining services := (mem_remaining hs hawaits.selects).2 (follows_iff.2 hawaits.follows)
    have hbeyond := hawaits.beyond
    rw [List.take_of_length_le hall] at hbeyond
    obtain ⟨last, hlast⟩ := Option.isSome_iff_exists.1 (List.getLast?_isSome.2 (List.ne_nil_of_mem hmem))
    exact absurd (hbeyond last hlast) (not_lt_of_ge (hinorder.le_getLast hlast s hmem))
  · intro hmore
    have hsplit : (q.remaining services).take n ++ (q.remaining services).drop n = q.remaining services :=
      List.take_append_drop ..
    have hleft : (q.remaining services).drop n ≠ [] := by
      apply List.ne_nil_of_length_pos
      rw [List.length_drop]
      omega
    obtain ⟨s, hs⟩ := List.exists_mem_of_ne_nil _ hleft
    obtain ⟨hservice, hfollows⟩ := List.mem_filter.1 (List.mem_of_mem_drop hs)
    obtain ⟨hservice, hselects⟩ := List.mem_filter.1 hservice
    refine ⟨s, hservice, hselects, follows_iff.1 hfollows, fun last hlast => ?_⟩
    rw [← hsplit] at hinorder
    exact (List.pairwise_append.1 hinorder).2.2 last (List.mem_of_getLast? hlast) s hs

end ListQuery

namespace Catalog

variable {c : Catalog} {q : ListQuery}

theorem after_eq_none_iff (h : c.records.Indexed) {page : Page} (hpage : c.list q = .ok page) :
    page.paging.after = none ↔
      q.limit.getD c.settings.pageSize = 0 ∨ ¬ ∃ s ∈ c.records.services, q.Awaits page.data s := by
  have hinorder := h.services_inOrder
  rw [list_eq q rfl, guard_eq_ok] at hpage
  obtain rfl := Except.ok.inj hpage.2
  generalize q.limit.getD c.settings.pageSize = n at hpage ⊢
  rw [ListQuery.page_eq hinorder, ListQuery.exists_awaited_iff hinorder, ite_eq_right_iff, Option.map_eq_none_iff,
    List.getLast?_eq_none_iff, List.take_eq_nil_iff]
  constructor
  · intro hempty
    by_cases hmore : n < (q.remaining c.records.services).length
    · refine (hempty hmore).imp_right fun hnil => ?_
      rw [hnil] at hmore
      cases hmore
    · exact .inr hmore
  · rintro (hzero | hall) hmore
    · exact .inl hzero
    · exact absurd hmore hall

theorem after_eq_some {page : Page} (h : c.records.Indexed) (hpage : c.list q = .ok page) {cursor : String}
    (hafter : page.paging.after = some cursor) :
    ∃ last, page.data.getLast? = some last ∧ last.qualifiedName = cursor := by
  rw [list_eq q rfl, guard_eq_ok] at hpage
  obtain rfl := Except.ok.inj hpage.2
  rw [ListQuery.page_eq h.services_inOrder] at hafter ⊢
  dsimp only at hafter ⊢
  rw [Option.ite_none_right_eq_some] at hafter
  exact Option.map_eq_some_iff.1 hafter.2

namespace State

/-- Over any run from a catalog without records, a list is refused only for a page that is too large, and otherwise its
page has a cursor, the name of the last service on it, as long as a service is left and the page has room for one. -/
theorem run_last_page (files : Files) (settings : Settings) (file : Option Path) (steps : List (Actor × Mutation))
    (q : ListQuery) :
    let t := (start files settings file).run steps
    let n := q.limit.getD settings.pageSize
    (maxPageSize < n ∧ t.catalog.list q = .error (.invalid (.limitTooLarge n))) ∨
      n ≤ maxPageSize ∧ ∃ page, t.catalog.list q = .ok page ∧ page.data.length ≤ n ∧
        (page.paging.after = none ↔ n = 0 ∨ ¬ ∃ s ∈ t.records.services, q.Awaits page.data s) ∧
        ∀ cursor ∈ page.paging.after, ∃ last ∈ page.data.getLast?, last.qualifiedName = cursor := by
  intro t n
  have hindexed : t.catalog.records.Indexed := run_indexed files settings file steps
  have hsize : q.limit.getD t.catalog.settings.pageSize = n := by
    rw [run_settings]
    rfl
  have hlist := list_eq q hsize
  rcases Nat.lt_or_ge maxPageSize n with hlarge | hfits
  · left
    rw [if_pos hlarge] at hlist
    exact ⟨hlarge, hlist⟩
  · right
    rw [if_neg (Nat.not_lt.2 hfits)] at hlist
    refine ⟨hfits, q.page n t.catalog.records.services, hlist, List.length_take_le .., ?_, ?_⟩
    · have hiff := after_eq_none_iff hindexed hlist
      rwa [hsize] at hiff
    · intro cursor hcursor
      exact after_eq_some hindexed hlist hcursor

/-- A page without room has no cursor, although a service is left. -/
theorem empty_page_ends :
    let t := (start (.empty []) ⟨.reject, 10⟩ none).run [registering "probe" ⟨1⟩]
    let q : ListQuery := ⟨.live, none, some 0, some "a"⟩
    ∃ page, t.catalog.list q = .ok page ∧ page.paging.after = none ∧
      ∃ s ∈ t.records.services, q.Awaits page.data s := by
  intro t q
  have hindexed : t.catalog.records.Indexed := run_indexed ..
  have hlist : t.catalog.list q = .ok (q.page 0 t.records.services) := (list_eq q rfl).trans (if_neg (by decide))
  have hprobe : ∃ s ∈ t.records.services, q.selects s = true ∧ "a" < s.qualifiedName := by decide +kernel
  obtain ⟨s, hs, hselects, hlt⟩ := hprobe
  have hempty : (q.page 0 t.records.services).data = [] := rfl
  refine ⟨_, hlist, (after_eq_none_iff hindexed hlist).2 (.inl rfl), s, hs, hselects, ?_, ?_⟩
  · intro cursor hcursor
    obtain rfl : "a" = cursor := Option.some.inj hcursor
    exact hlt
  · intro last hlast
    rw [hempty] at hlast
    cases hlast

end State

end Catalog

end ServiceCatalog
