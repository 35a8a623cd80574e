import Mathlib.Data.List.Permutation
import ServiceCatalog.Proofs.Catalog.Naming

namespace ServiceCatalog

theorem InOrder.nodup {l : List Service} (h : InOrder l) : l.Nodup := by
  apply h.imp
  rintro a b hlt rfl
  exact lt_irrefl _ hlt

theorem InOrder.le_getLast {l : List Service} (h : InOrder l) {s : Service} (hlast : l.getLast? = some s) :
    ∀ t ∈ l, t.qualifiedName ≤ s.qualifiedName := by
  obtain ⟨before, rfl⟩ := List.getLast?_eq_some_iff.1 hlast
  intro t ht
  rcases List.mem_append.1 ht with ht | ht
  · exact le_of_lt ((List.pairwise_append.1 h).2.2 t ht s (List.mem_singleton.2 rfl))
  · rw [List.mem_singleton.1 ht]

theorem InOrder.append {a b : List Service} (ha : InOrder a) (hb : InOrder b)
    (hab : ∀ s ∈ a, ∀ t ∈ b, s.qualifiedName < t.qualifiedName) : InOrder (a ++ b) :=
  List.pairwise_append.2 ⟨ha, hb, hab⟩

namespace Page

def shows (id : Uuid) (p : Page) : Bool := p.data.any (·.id == id)

def Ended (pages : List Page) : Prop := ∃ p, pages.getLast? = some p ∧ p.paging.after = none

theorem ended_cons {p : Page} {pages : List Page} {cursor : String} (h : p.paging.after = some cursor) :
    Ended (p :: pages) ↔ Ended pages := by
  cases pages with
  | nil => simp [Ended, h]
  | cons => simp [Ended]

end Page

namespace ListQuery

variable {q : ListQuery} {t : Service}

theorem follows_eq (q : ListQuery) (t : Service) : q.follows t = q.after.all (· < t.qualifiedName) := by
  unfold follows
  cases q.after <;> rfl

theorem mem_remaining {services : List Service} (ht : t ∈ services) (hselects : q.selects t = true) :
    t ∈ q.remaining services ↔ q.follows t = true := by
  simp [remaining, ht, hselects]

end ListQuery

namespace Catalog

def walk : List Catalog → ListQuery → Outcome (List Page)
  | [], _ => .ok []
  | c :: rest, q => do
    let page ← c.list q
    match page.paging.after with
    | none => return [page]
    | some cursor => return page :: (← walk rest { q with after := some cursor })

inductive Walked (n : Nat) : List Catalog → ListQuery → List Page → Prop
  | stop (q : ListQuery) : Walked n [] q []
  | last {c : Catalog} {rest : List Catalog} {q : ListQuery} {page : Page} (hpage : IsPage n c q page)
      (hall : (q.remaining c.records.services).length ≤ n) (hafter : page.paging.after = none) :
      Walked n (c :: rest) q [page]
  | next {c : Catalog} {rest : List Catalog} {q : ListQuery} {page : Page} {s : Service} {pages : List Page}
      (hpage : IsPage n c q page) (hmore : n < (q.remaining c.records.services).length)
      (hlast : ((q.remaining c.records.services).take n).getLast? = some s)
      (hafter : page.paging.after = some s.qualifiedName)
      (hrest : Walked n rest { q with after := some s.qualifiedName } pages) :
      Walked n (c :: rest) q (page :: pages)

variable {c : Catalog} {q : ListQuery} {n : Nat}

theorem walk_eq {catalogs : List Catalog} (h : ∀ c ∈ catalogs, c.records.Indexed) (hpos : 0 < n)
    (hn : n ≤ maxPageSize) (hlimit : ∀ c ∈ catalogs, q.limit.getD c.settings.pageSize = n) :
    ∃ pages, walk catalogs q = .ok pages ∧ Walked n catalogs q pages := by
  induction catalogs generalizing q with
  | nil => exact ⟨[], rfl, .stop q⟩
  | cons c rest ih =>
    obtain ⟨hindexed, h⟩ := List.forall_mem_cons.1 h
    obtain ⟨hsize, hlimit⟩ := List.forall_mem_cons.1 hlimit
    obtain ⟨page, hlist, hpage, ⟨hall, hafter⟩ | ⟨s, hmore, hlast, hafter⟩⟩ := list_cases hindexed hpos hn hsize
    · refine ⟨[page], ?_, .last hpage hall hafter⟩
      simp only [walk, hlist, Outcome.ok_bind, hafter]
      rfl
    · obtain ⟨pages, hwalk, hwalked⟩ := @ih { q with after := some s.qualifiedName } h hlimit
      refine ⟨page :: pages, ?_, .next hpage hmore hlast hafter hwalked⟩
      simp only [walk, hlist, Outcome.ok_bind, hafter, hwalk]
      rfl

theorem IsPage.shows_iff {page : Page} (h : IsPage n c q page) {id : Uuid} {t : Service}
    (hget : c.records.get? id = some t) :
    page.shows id = true ↔ t ∈ (q.remaining c.records.services).take n := by
  simp only [Page.shows, h.data, List.any_eq_true, beq_iff_eq]
  constructor
  · rintro ⟨u, hu, rfl⟩
    have hservice : u ∈ c.records.services := (List.mem_filter.1 (List.mem_filter.1 (List.mem_of_mem_take hu)).1).1
    obtain ⟨x, hx, rfl⟩ := Records.mem_services.1 hservice
    rwa [← Option.some.inj ((Records.get?_of_mem hx).symm.trans hget)]
  · exact fun ht => ⟨t, ht, Records.id_of_get? hget⟩

namespace Walked

variable {catalogs : List Catalog} {pages : List Page} {name : String}

theorem inOrder (h : Walked n catalogs q pages) :
    InOrder (pages.flatMap Page.data) ∧ ∀ s ∈ pages.flatMap Page.data, q.follows s = true := by
  have hfollows {c : Catalog} {q : ListQuery} {page : Page} (hpage : IsPage n c q page) :
      ∀ s ∈ page.data, q.follows s = true := by
    intro s hs
    rw [hpage.data] at hs
    exact (List.mem_filter.1 (List.mem_of_mem_take hs)).2
  have hdata {c : Catalog} {q : ListQuery} {page : Page} (hpage : IsPage n c q page) : InOrder page.data := by
    rw [hpage.data]
    exact (ListQuery.remaining_inOrder hpage.indexed.services_inOrder q).sublist (List.take_sublist ..)
  induction h with
  | stop => exact ⟨.nil, List.forall_mem_nil _⟩
  | last hpage =>
    rw [List.flatMap_cons, List.flatMap_nil, List.append_nil]
    exact ⟨hdata hpage, hfollows hpage⟩
  | @next c rest q page s pages hpage hmore hlast hafter hrest ih =>
    obtain ⟨hinorder, hlater⟩ := ih
    have hlast : page.data.getLast? = some s := by
      rw [hpage.data]
      exact hlast
    have hs : ∀ t ∈ pages.flatMap Page.data, s.qualifiedName < t.qualifiedName := fun t ht =>
      ListQuery.follows_after.1 (hlater t ht)
    rw [List.flatMap_cons]
    constructor
    · apply (hdata hpage).append hinorder
      intro t ht u hu
      exact lt_of_le_of_lt ((hdata hpage).le_getLast hlast t ht) (hs u hu)
    · refine List.forall_mem_append.2 ⟨hfollows hpage, fun t ht => ?_⟩
      exact ListQuery.follows_of_lt (hfollows hpage s (List.mem_of_getLast? hlast)) (hs t ht)

theorem countP_shows (h : Walked n catalogs q pages) {id : Uuid}
    (hthere : ∀ c ∈ catalogs.take pages.length, ∃ t, c.records.get? id = some t ∧ t.qualifiedName = name ∧
      q.selects t = true) (hended : Page.Ended pages) :
    pages.countP (Page.shows id) = if q.after.all (· < name) then 1 else 0 := by
  have hservice {c : Catalog} {t : Service} (hget : c.records.get? id = some t) : t ∈ c.records.services := by
    obtain ⟨x, hx, -, rfl⟩ := Records.mem_of_get? hget
    exact Records.mem_services.2 ⟨x, hx, rfl⟩
  induction h with
  | stop =>
    obtain ⟨page, hpage, -⟩ := hended
    cases hpage
  | last hpage hall hafter =>
    obtain ⟨t, hget, rfl, hselects⟩ := hthere _ List.mem_cons_self
    have hshows := hpage.shows_iff hget
    rw [List.take_of_length_le hall, ListQuery.mem_remaining (hservice hget) hselects, ListQuery.follows_eq] at hshows
    rw [List.countP_singleton]
    simp only [hshows]
  | @next c rest q page s pages hpage hmore hlast hafter hrest ih =>
    obtain ⟨t, hget, rfl, hselects⟩ := hthere c List.mem_cons_self
    have hrestCount := ih (fun c hc => hthere c (List.mem_cons_of_mem _ hc)) ((Page.ended_cons hafter).1 hended)
    have hnow := ListQuery.mem_remaining (q := q) (hservice hget) hselects
    have hlater := ListQuery.mem_remaining (q := { q with after := some s.qualifiedName }) (hservice hget) hselects
    rw [ListQuery.remaining_after hpage.indexed.services_inOrder hlast, ListQuery.follows_eq] at hlater
    rw [ListQuery.follows_eq, ← List.take_append_drop n (q.remaining _), List.mem_append, ← hpage.shows_iff hget,
      hlater] at hnow
    -- nothing is both on the page and left after it
    have hinorder := ListQuery.remaining_inOrder hpage.indexed.services_inOrder q
    have hdisjoint := List.disjoint_take_drop hinorder.nodup (le_refl n)
    have hone : page.shows id = true → ¬ Option.all (· < t.qualifiedName) (some s.qualifiedName) = true := by
      intro hshows hafter
      exact hdisjoint ((hpage.shows_iff hget).1 hshows) (hlater.2 hafter)
    rw [List.countP_cons, hrestCount]
    dsimp only at hnow ⊢
    grind

theorem ne_nil (h : Walked n catalogs q pages) (hended : Page.Ended pages) : catalogs ≠ [] := by
  rintro rfl
  cases h
  obtain ⟨page, hpage, -⟩ := hended
  cases hpage

theorem unchanged (h : Walked n catalogs q pages) {r : Records} (hsame : ∀ c ∈ catalogs, c.records = r) :
    pages.flatMap Page.data = (q.remaining r.services).take (n * catalogs.length) ∧
      (catalogs ≠ [] → (Page.Ended pages ↔ (q.remaining r.services).length ≤ n * catalogs.length)) ∧
      (∀ page ∈ pages.dropLast, page.data.length = n) ∧
      ∀ page ∈ pages, page.paging.total = (r.services.filter q.selects).length := by
  induction h with
  | stop => simp
  | @last c rest q page hpage hall hafter =>
    obtain rfl := hsame c List.mem_cons_self
    have hroom : n ≤ n * (c :: rest).length := Nat.le_mul_of_pos_right n (by simp)
    refine ⟨?_, fun _ => ?_, by simp, ?_⟩
    · rw [List.flatMap_cons, List.flatMap_nil, List.append_nil, hpage.data, List.take_of_length_le hall,
        List.take_of_length_le (hall.trans hroom)]
    · exact iff_of_true ⟨page, rfl, hafter⟩ (hall.trans hroom)
    · exact List.forall_mem_singleton.2 hpage.total
  | @next c rest q page s pages hpage hmore hlast hafter hrest ih =>
    obtain ⟨rfl, hsame⟩ := List.forall_mem_cons.1 hsame
    obtain ⟨hdata, hended, hfull, htotal⟩ := ih hsame
    have hdrop := ListQuery.remaining_after hpage.indexed.services_inOrder hlast
    rw [hdrop] at hdata hended
    have hsize : n * (c :: rest).length = n + n * rest.length := by
      rw [List.length_cons, Nat.mul_succ, Nat.add_comm]
    rw [hsize]
    refine ⟨?_, fun _ => ?_, ?_, List.forall_mem_cons.2 ⟨hpage.total, htotal⟩⟩
    · rw [List.flatMap_cons, hdata, hpage.data, List.take_add]
    · rw [Page.ended_cons hafter]
      rcases List.eq_nil_or_concat rest with rfl | ⟨_, _, hrest'⟩
      · apply iff_of_false
        · exact fun h => hrest.ne_nil h rfl
        · simpa using hmore
      · rw [hended (by simp [hrest']), List.length_drop]
        omega
    · cases pages with
      | nil => exact List.forall_mem_nil _
      | cons next later =>
        rw [List.dropLast_cons_cons]
        refine List.forall_mem_cons.2 ⟨?_, hfull⟩
        rw [hpage.data, List.length_take]
        omega

end Walked

namespace State

def visits (s : State) : List (List (Actor × Mutation)) → List Catalog
  | [] => []
  | steps :: later => (s.run steps).catalog :: (s.run steps).visits later

theorem visits_run {s : State} {stretches : List (List (Actor × Mutation))} :
    ∀ c ∈ s.visits stretches, ∃ steps, c = (s.run steps).catalog := by
  induction stretches generalizing s with
  | nil => exact List.forall_mem_nil _
  | cons steps later ih =>
    refine List.forall_mem_cons.2 ⟨⟨steps, rfl⟩, fun c hc => ?_⟩
    obtain ⟨more, rfl⟩ := ih c hc
    exact ⟨steps ++ more, by rw [run_append]⟩

/-- Whatever is done to the catalog between the pages: a walk shows services in the order of their names, and if it
ends, those that keep their name and are selected throughout are on one page each. If nothing changes it ends after
so many pages, which are the services selected, cut into pieces of the size asked for. -/
theorem walk_pages (files : Files) (settings : Settings) (file : Option Path)
    (stretches : List (List (Actor × Mutation))) {q : ListQuery} {n : Nat} (hafter : q.after = none)
    (hlimit : q.limit.getD settings.pageSize = n) (hpos : 0 < n) (hn : n ≤ maxPageSize) :
    let catalogs := (start files settings file).visits stretches
    ∃ pages, walk catalogs q = .ok pages ∧ InOrder (pages.flatMap Page.data) ∧
      (Page.Ended pages → ∀ id name,
        (∀ c ∈ catalogs.take pages.length, ∃ t, c.records.get? id = some t ∧ t.qualifiedName = name ∧
          q.selects t = true) →
        pages.countP (Page.shows id) = 1) ∧
      ∀ r : Records, (∀ c ∈ catalogs, c.records = r) →
        let selected := r.services.filter q.selects
        (Page.Ended pages → pages.flatMap Page.data = selected) ∧
          (catalogs ≠ [] → (Page.Ended pages ↔ selected.length ≤ n * catalogs.length)) ∧
          (∀ page ∈ pages.dropLast, page.data.length = n) ∧ ∀ page ∈ pages, page.paging.total = selected.length := by
  intro catalogs
  have hindexed : ∀ c ∈ catalogs, c.records.Indexed := by
    intro c hc
    obtain ⟨steps, rfl⟩ := visits_run c hc
    exact run_indexed files settings file steps
  have hlimit : ∀ c ∈ catalogs, q.limit.getD c.settings.pageSize = n := by
    intro c hc
    obtain ⟨steps, rfl⟩ := visits_run c hc
    rw [run_settings]
    exact hlimit
  obtain ⟨pages, hwalk, hwalked⟩ := walk_eq hindexed hpos hn hlimit
  refine ⟨pages, hwalk, hwalked.inOrder.1, fun hended id name hthere => ?_, fun r hsame => ?_⟩
  · rw [hwalked.countP_shows hthere hended, hafter]
    rfl
  · have hall : q.remaining r.services = r.services.filter q.selects := by
      apply List.filter_eq_self.2
      intro s _
      rw [ListQuery.follows, hafter]
    have hunchanged := hwalked.unchanged hsame
    rw [hall] at hunchanged
    obtain ⟨hdata, hended, hrest⟩ := hunchanged
    refine ⟨fun h => ?_, hended, hrest⟩
    rw [hdata, List.take_of_length_le ((hended (hwalked.ne_nil h)).1 h)]

def registering (name : String) (id : Uuid) : Actor × Mutation :=
  (⟨"ann", .manual, 1⟩, .create (.ofConnection name (.ofLaunch (.ofCommand "run"))) id)

def busyStretches : List (List (Actor × Mutation)) :=
  [[registering "b" ⟨1⟩, registering "d" ⟨2⟩], [registering "a" ⟨3⟩, registering "c" ⟨4⟩],
    [(⟨"ben", .manual, 2⟩, .delete ⟨1⟩)]]

theorem walk_pages_busy :
    let q : ListQuery := ⟨.live, none, some 1, none⟩
    let catalogs := (start (.empty []) ⟨.reject, 10⟩ none).visits busyStretches
    q.after = none ∧ q.limit.getD 10 = 1 ∧ 0 < 1 ∧ 1 ≤ maxPageSize ∧
      ∃ pages, walk catalogs q = .ok pages ∧ (pages.flatMap Page.data).map (·.name) = ["b", "c", "d"] ∧
        pages.countP (Page.shows ⟨2⟩) = 1 := by
  intro q catalogs
  have hnames : (walk catalogs q).toOption.map (fun pages => (pages.flatMap Page.data).map (·.name))
      = some ["b", "c", "d"] := by cbv
  have hlast : (walk catalogs q).toOption.bind (fun pages => pages.getLast?.map (·.paging.after)) = some none := by
    cbv
  have hthere : ∀ c ∈ catalogs, (c.records.get? ⟨2⟩).any (fun t => t.qualifiedName == "d" && q.selects t) = true := by
    decide +kernel
  obtain ⟨pages, hwalk, -, hcount, -⟩ :=
    walk_pages (.empty []) ⟨.reject, 10⟩ none busyStretches (q := q) (n := 1) rfl rfl (by decide) (by decide)
  have hwalk : walk catalogs q = .ok pages := hwalk
  rw [hwalk] at hnames hlast
  obtain ⟨page, hpage, hafter⟩ := Option.map_eq_some_iff.1 hlast
  refine ⟨rfl, rfl, by decide, by decide, pages, hwalk, Option.some.inj hnames, ?_⟩
  refine hcount ⟨page, hpage, hafter⟩ ⟨2⟩ "d" fun c hc => ?_
  obtain ⟨t, hget, ht⟩ := (Option.any_eq_true ..).1 (hthere c (List.mem_of_mem_take hc))
  simp only [Bool.and_eq_true, beq_iff_eq] at ht
  exact ⟨t, hget, ht⟩

end State

end Catalog

end ServiceCatalog
