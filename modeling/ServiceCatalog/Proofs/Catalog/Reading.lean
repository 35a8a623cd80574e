import Mathlib.Data.List.Sort
import Mathlib.Data.String.Basic
import ServiceCatalog.Catalog.Basic
import ServiceCatalog.Proofs.Store.Names

namespace ServiceCatalog

def InOrder (l : List Service) : Prop := l.Pairwise fun a b => a.qualifiedName < b.qualifiedName

theorem InOrder.filter {l : List Service} (h : InOrder l) (p : Service → Bool) : InOrder (l.filter p) :=
  List.Pairwise.filter p h

theorem InOrder.filter_after {a b : List Service} {s : Service} (h : InOrder (a ++ b))
    (hlast : a.getLast? = some s) :
    (a ++ b).filter (fun t => s.qualifiedName < t.qualifiedName) = b := by
  obtain ⟨before, rfl⟩ := List.getLast?_eq_some_iff.1 hlast
  obtain ⟨ha, -, hab⟩ := List.pairwise_append.1 h
  have hbefore : ∀ t ∈ before, t.qualifiedName < s.qualifiedName := fun t ht =>
    (List.pairwise_append.1 ha).2.2 t ht s (List.mem_singleton.2 rfl)
  have hnone : (before ++ [s]).filter (fun t => s.qualifiedName < t.qualifiedName) = [] := by
    apply List.filter_eq_nil_iff.2
    intro t ht
    rw [decide_eq_true_iff]
    rcases List.mem_append.1 ht with ht | ht
    · exact lt_asymm (hbefore t ht)
    · rw [List.mem_singleton.1 ht]
      exact lt_irrefl _
  have hall : b.filter (fun t => s.qualifiedName < t.qualifiedName) = b := by
    apply List.filter_eq_self.2
    intro t ht
    exact decide_eq_true (hab s (List.mem_append_right _ (List.mem_singleton.2 rfl)) t ht)
  rw [List.filter_append, hnone, hall, List.nil_append]

namespace Records

theorem mem_services {r : Records} {s : Service} : s ∈ r.services ↔ ∃ x ∈ r.list, x.current = s := by
  simp [services, sorted]

theorem exists_services {r : Records} {p : Service → Prop} :
    (∃ s ∈ r.services, p s) ↔ ∃ x ∈ r.list, p x.current := by
  simp [mem_services]

theorem pairwise_mergeSort (l : List ServiceRecord) :
    (l.mergeSort fun x y => x.current.qualifiedName ≤ y.current.qualifiedName).Pairwise fun x y =>
      x.current.qualifiedName ≤ y.current.qualifiedName := by
  apply (List.pairwise_mergeSort _ _ l).imp
  · exact fun hle => of_decide_eq_true hle
  · intro x y z hxy hyz
    exact decide_eq_true (le_trans (of_decide_eq_true hxy) (of_decide_eq_true hyz))
  · intro x y
    simpa using le_total x.current.qualifiedName y.current.qualifiedName

theorem Indexed.services_inOrder {r : Records} (h : r.Indexed) : InOrder r.services := by
  have hsorted : r.sorted.Pairwise fun x y => x.current.qualifiedName ≤ y.current.qualifiedName :=
    pairwise_mergeSort r.list
  have hnodup : r.sorted.Nodup := (List.mergeSort_perm _ _).nodup_iff.2 r.filed.nodup
  have hmem : ∀ x ∈ r.sorted, x ∈ r.list := fun x hx => (List.mergeSort_perm _ _).mem_iff.1 hx
  apply List.pairwise_map.2
  apply (hsorted.and hnodup).imp_of_mem
  rintro x y hx hy ⟨hle, hne⟩
  -- equal names are those of one record, which is listed once
  apply lt_of_le_of_ne hle
  intro he
  exact hne (h.qualifiedName_inj (hmem x hx) (hmem y hy) he)

theorem Indexed.qualifiedNames_nodup {r : Records} (h : r.Indexed) : (r.services.map (·.qualifiedName)).Nodup := by
  apply List.pairwise_map.2
  exact h.services_inOrder.imp ne_of_lt

theorem Indexed.names_nodup {r : Records} (h : r.Indexed) : (r.services.map (·.name)).Nodup := by
  have hqualify : ∀ s ∈ r.services, s.qualifiedName = Name.qualify s.name := by
    intro s hs
    obtain ⟨x, hx, rfl⟩ := mem_services.1 hs
    exact h.qualified x hx
  apply List.pairwise_map.2
  apply h.services_inOrder.imp_of_mem
  intro a b ha hb hlt he
  rw [hqualify a ha, hqualify b hb, he] at hlt
  exact lt_irrefl _ hlt

end Records

namespace ListQuery

def remaining (q : ListQuery) (services : List Service) : List Service :=
  (services.filter q.selects).filter q.follows

variable {q : ListQuery} {services : List Service} {s t : Service}

theorem follows_after :
    { q with after := some s.qualifiedName }.follows t = true ↔ s.qualifiedName < t.qualifiedName :=
  decide_eq_true_iff

theorem follows_of_lt (hs : q.follows s = true) (hlt : s.qualifiedName < t.qualifiedName) : q.follows t = true := by
  cases hafter : q.after with
  | none => simp [follows, hafter]
  | some cursor =>
    simp only [follows, hafter, decide_eq_true_eq] at hs ⊢
    exact lt_trans hs hlt

theorem page_eq (h : InOrder services) (limit : Nat) :
    q.page limit services =
      ⟨(q.remaining services).take limit,
        ⟨if limit < (q.remaining services).length then
          ((q.remaining services).take limit).getLast?.map (·.qualifiedName)
          else none, (services.filter q.selects).length⟩⟩ := by
  have hsorted : (services.filter q.selects).mergeSort (fun a b => a.qualifiedName ≤ b.qualifiedName)
      = services.filter q.selects := by
    apply List.mergeSort_of_pairwise
    apply (h.filter q.selects).imp
    exact fun hlt => decide_eq_true (le_of_lt hlt)
  rw [page, hsorted]
  rfl

theorem remaining_inOrder (h : InOrder services) (q : ListQuery) : InOrder (q.remaining services) :=
  (h.filter _).filter _

theorem remaining_after (h : InOrder services) {n : Nat}
    (hlast : ((q.remaining services).take n).getLast? = some s) :
    { q with after := some s.qualifiedName }.remaining services = (q.remaining services).drop n := by
  have hsplit : (q.remaining services).take n ++ (q.remaining services).drop n = q.remaining services :=
    List.take_append_drop ..
  have hinorder : InOrder ((q.remaining services).take n ++ (q.remaining services).drop n) := by
    rw [hsplit]
    exact remaining_inOrder h q
  have hs : q.follows s = true := by
    have hmem : s ∈ q.remaining services := List.mem_of_mem_take (List.mem_of_getLast? hlast)
    exact (List.mem_filter.1 hmem).2
  -- what comes after the new cursor comes after the old one
  have hnext : { q with after := some s.qualifiedName }.remaining services
      = (q.remaining services).filter fun t => s.qualifiedName < t.qualifiedName := by
    rw [remaining, remaining, List.filter_filter (l := services.filter q.selects)]
    apply List.filter_congr
    intro t _
    by_cases hlt : s.qualifiedName < t.qualifiedName
    · rw [follows_after.2 hlt, decide_eq_true hlt, follows_of_lt hs hlt, Bool.and_self]
    · rw [Bool.eq_false_iff.2 (mt follows_after.1 hlt), decide_eq_false hlt, Bool.false_and]
  rw [hnext, ← hsplit, hinorder.filter_after hlast, hsplit]

end ListQuery

namespace Catalog

inductive Pages : List Catalog → ListQuery → List Page → Prop
  | last {c : Catalog} {q : ListQuery} {page : Page} (hpage : c.list q = .ok page)
      (hlast : page.paging.after = none) : Pages [c] q [page]
  | next {c : Catalog} {q : ListQuery} {page : Page} {cursor : String} {rest : List Catalog} {pages : List Page}
      (hpage : c.list q = .ok page) (hnext : page.paging.after = some cursor)
      (hrest : Pages rest { q with after := some cursor } pages) :
      Pages (c :: rest) q (page :: pages)

structure IsPage (n : Nat) (c : Catalog) (q : ListQuery) (page : Page) : Prop where
  indexed : c.records.Indexed
  data : page.data = (q.remaining c.records.services).take n
  total : page.paging.total = (c.records.services.filter q.selects).length

variable {c : Catalog} {q : ListQuery} {n : Nat}

theorem list_eq (q : ListQuery) (hlimit : q.limit.getD c.settings.pageSize = n) :
    c.list q = if maxPageSize < n then .error (.invalid (.limitTooLarge n))
      else .ok (q.page n c.records.services) := by
  subst hlimit
  rfl

theorem list_inOrder (h : c.records.Indexed) {page : Page} (hpage : c.list q = .ok page) : InOrder page.data := by
  rw [list_eq q rfl, guard_eq_ok] at hpage
  rw [← Except.ok.inj hpage.2, ListQuery.page_eq h.services_inOrder]
  exact (ListQuery.remaining_inOrder h.services_inOrder q).sublist (List.take_sublist ..)

theorem list_cases (h : c.records.Indexed) (hpos : 0 < n) (hn : n ≤ maxPageSize)
    (hlimit : q.limit.getD c.settings.pageSize = n) :
    ∃ page, c.list q = .ok page ∧ IsPage n c q page ∧
      ((q.remaining c.records.services).length ≤ n ∧ page.paging.after = none ∨
        ∃ s, n < (q.remaining c.records.services).length ∧
          ((q.remaining c.records.services).take n).getLast? = some s ∧
          page.paging.after = some s.qualifiedName) := by
  refine ⟨_, (list_eq q hlimit).trans (if_neg (Nat.not_lt.2 hn)), ?_⟩
  rw [ListQuery.page_eq h.services_inOrder]
  refine ⟨⟨h, rfl, rfl⟩, ?_⟩
  by_cases hmore : n < (q.remaining c.records.services).length
  · have hne : (q.remaining c.records.services).take n ≠ [] := by
      apply List.ne_nil_of_length_pos
      rw [List.length_take]
      omega
    obtain ⟨s, hlast⟩ := Option.ne_none_iff_exists'.1 (mt List.getLast?_eq_none_iff.1 hne)
    exact .inr ⟨s, hmore, hlast, by simp [hmore, hlast]⟩
  · exact .inl ⟨Nat.not_lt.1 hmore, if_neg hmore⟩

theorem exists_pages (h : c.records.Indexed) (hpos : 0 < n) (hn : n ≤ maxPageSize) (hlimit : q.limit = some n) :
    ∃ pages, Pages (List.replicate pages.length c) q pages ∧
      pages.flatMap Page.data = q.remaining c.records.services := by
  -- on what is left: a page with a cursor is not empty, so that less is left after it
  induction hsize : (q.remaining c.records.services).length using Nat.strong_induction_on generalizing q with
  | h size ih =>
    have hasked : q.limit.getD c.settings.pageSize = n := by rw [hlimit, Option.getD_some]
    obtain ⟨page, hlist, hpage, ⟨hall, hafter⟩ | ⟨s, hmore, hlast, hafter⟩⟩ := list_cases h hpos hn hasked
    · refine ⟨[page], .last hlist hafter, ?_⟩
      rw [List.flatMap_cons, List.flatMap_nil, List.append_nil, hpage.data, List.take_of_length_le hall]
    · have hdrop := ListQuery.remaining_after h.services_inOrder hlast
      have hsmaller : ({ q with after := some s.qualifiedName }.remaining c.records.services).length < size := by
        rw [hdrop, List.length_drop]
        omega
      obtain ⟨pages, hpages, hdata⟩ := @ih _ hsmaller { q with after := some s.qualifiedName } hlimit rfl
      refine ⟨page :: pages, .next hlist hafter hpages, ?_⟩
      rw [List.flatMap_cons, hdata, hdrop, hpage.data, List.take_append_drop]

theorem get_eq_ok {id : Uuid} {included : Include} {s : Service} :
    c.get id included = .ok s ↔ c.records.get? id = some s ∧ included.admits s.isDeleted = true := by
  simp only [get, Outcome.bind_eq_ok, Records.load_eq_ok]
  constructor
  · rintro ⟨t, ht, h⟩
    split at h
    · next hadmits =>
      cases h
      exact ⟨ht, hadmits⟩
    · cases h
  · rintro ⟨hs, hadmits⟩
    exact ⟨s, hs, if_pos hadmits⟩

theorem getNamed_eq_ok {q : String} {included : Include} {s : Service} :
    c.getNamed q included = .ok s ↔ c.records.getNamed? q = some s ∧ included.admits s.isDeleted = true := by
  have hfilter : (c.records.getNamed? q).filter (fun s => included.admits s.isDeleted) = some s ↔
      c.records.getNamed? q = some s ∧ included.admits s.isDeleted = true := Option.filter_eq_some_iff
  rw [← hfilter, getNamed]
  cases (c.records.getNamed? q).filter (fun s => included.admits s.isDeleted) <;> simp

def Sees (c : Catalog) (included : Include) (s : Service) : Prop :=
  s ∈ c.records.services ∧ included.admits s.isDeleted = true

theorem get_sees {included : Include} {s : Service} : c.get s.id included = .ok s ↔ c.Sees included s := by
  rw [get_eq_ok, Sees, Records.mem_services]
  apply and_congr_left'
  constructor
  · intro h
    obtain ⟨x, hx, -, he⟩ := Records.mem_of_get? h
    exact ⟨x, hx, he⟩
  · rintro ⟨x, hx, rfl⟩
    exact Records.get?_of_mem hx

theorem getNamed_sees (hindexed : c.records.Indexed) {included : Include} {s : Service} :
    c.getNamed s.qualifiedName included = .ok s ↔ c.Sees included s := by
  rw [getNamed_eq_ok, Sees, Records.mem_services, hindexed.getNamed?_eq_some]
  simp

theorem pages_sees (hindexed : c.records.Indexed) (included : Include) {n : Nat} (hpos : 0 < n)
    (hn : n ≤ maxPageSize) :
    ∃ pages, Pages (List.replicate pages.length c) ⟨included, none, some n, none⟩ pages ∧
      ∀ s, s ∈ pages.flatMap Page.data ↔ c.Sees included s := by
  obtain ⟨pages, hpages, hdata⟩ := exists_pages (q := ⟨included, none, some n, none⟩) hindexed hpos hn rfl
  refine ⟨pages, hpages, fun s => ?_⟩
  rw [hdata]
  simp [ListQuery.remaining, ListQuery.selects, ListQuery.follows, Sees]

end Catalog

end ServiceCatalog
