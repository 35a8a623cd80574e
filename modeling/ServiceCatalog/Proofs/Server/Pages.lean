import ServiceCatalog.Proofs.Server.Paging

namespace ServiceCatalog

namespace Session

variable {τ α : Type} {s t : Session τ} {method key : String}

def asked (s : Session τ) (method : String) (params : Json) : Except SessionFault (Session τ) :=
  { s with lastId := s.lastId + 1 }.send (requestMessage (s.lastId + 1) method params)

def response (s : Session τ) (method : String) (params : Json) : Except SessionFault Json :=
  match s.asked method params with
  | .error e => .error e
  | .ok t => t.outcome method (t.inbox.find? (Message.answers (s.lastId + 1)))

def Unmistaken (s : Session τ) (method : String) (params : Json) : Prop :=
  ∀ t ∈ (s.asked method params).toOption, ∀ m ∈ t.inbox.find? (Message.carries (s.lastId + 1)),
    Message.isResponse m = true

instance (s : Session τ) (method : String) (params : Json) : Decidable (s.Unmistaken method params) :=
  inferInstanceAs (Decidable (∀ t ∈ (s.asked method params).toOption, ∀ m ∈ t.inbox.find? _, _))

theorem request_unmistaken {params : Json} (h : s.Unmistaken method params) :
    (s.request method params).1 = s.response method params := by
  unfold response
  rcases request_cases s method params with ⟨hphase, hrequest⟩ | ⟨t, timedOut, hsend, hrequest⟩
  · have hasked : s.asked method params = .error .unwritable := by
      unfold asked send
      rw [hphase]
    rw [hrequest, hasked]
  · have hasked : s.asked method params = .ok t := hsend
    have hsame : t.inbox.find? (Message.carries (s.lastId + 1)) = t.inbox.find? (Message.answers (s.lastId + 1)) :=
      (Message.find?_answers _ _).2 (h t (by rw [hasked]; rfl))
    rw [hrequest, hasked, hsame]

variable [Wire α]

def answeredPage (α : Type) [Wire α] (method key : String) (cursor : Option String) (s : Session τ) :
    Except SessionFault (List α × Option String) :=
  match s.response method (pageParams cursor) with
  | .error e => .error e
  | .ok result =>
    match readPage key result with
    | none => .error (.malformed method)
    | some page => .ok page

theorem page_unmistaken {cursor : Option String} (h : s.Unmistaken method (pageParams cursor)) :
    s.page α method key cursor =
      (s.answeredPage α method key cursor, (s.request method (pageParams cursor)).2) := by
  have houtcome := request_unmistaken h
  unfold page answeredPage
  generalize s.request method (pageParams cursor) = asked at houtcome ⊢
  obtain ⟨outcome, t⟩ := asked
  obtain rfl : outcome = s.response method (pageParams cursor) := houtcome
  cases s.response method (pageParams cursor) with
  | error e => rfl
  | ok result =>
    dsimp only
    cases readPage (α := α) key result <;> rfl

/-- The pages that a server answers with, from a cursor on: the cursors they hand out, their items, and the fault that
the last answer is in place of a page. -/
inductive Chain (α : Type) [Wire α] (method key : String) :
    Option String → Session τ → List String → List (List α) → Option SessionFault → Prop
  | last {cursor : Option String} {s : Session τ} {items : List α}
      (hpage : s.answeredPage α method key cursor = .ok (items, none)) :
      Chain α method key cursor s [] [items] none
  | broken {cursor : Option String} {s : Session τ} {e : SessionFault}
      (hpage : s.answeredPage α method key cursor = .error e) : Chain α method key cursor s [] [] (some e)
  | turn {cursor : Option String} {s : Session τ} {items : List α} {next : String} {cursors : List String}
      {pages : List (List α)} {fault : Option SessionFault}
      (hpage : s.answeredPage α method key cursor = .ok (items, some next))
      (hrest : Chain α method key (some next) (s.request method (pageParams cursor)).2 cursors pages fault) :
      Chain α method key cursor s (next :: cursors) (items :: pages) fault

def Clear (method : String) : Option String → Session τ → List String → Prop
  | cursor, s, [] => s.Unmistaken method (pageParams cursor)
  | cursor, s, next :: cursors =>
    s.Unmistaken method (pageParams cursor) ∧ Clear method (some next) (s.request method (pageParams cursor)).2 cursors

instance decidableClear (method : String) :
    ∀ (cursor : Option String) (s : Session τ) (cursors : List String), Decidable (Clear method cursor s cursors)
  | cursor, s, [] => inferInstanceAs (Decidable (s.Unmistaken method (pageParams cursor)))
  | cursor, s, next :: cursors =>
    have := decidableClear method (some next) (s.request method (pageParams cursor)).2 cursors
    inferInstanceAs (Decidable (_ ∧ _))

def listRequests (method : String) : Nat → Option String → List String → Option SessionFault → List Json
  | n, cursor, [], fault => if fault = some .unwritable then [] else [requestMessage (n + 1) method (pageParams cursor)]
  | n, cursor, next :: cursors, fault =>
    requestMessage (n + 1) method (pageParams cursor) :: listRequests method (n + 1) (some next) cursors fault

def collected (pages : List (List α)) : Option SessionFault → Except SessionFault (List α)
  | none => .ok pages.flatten
  | some e => .error e

omit [Wire α] in
theorem prepend_collected {items : List α} {pages : List (List α)} {fault : Option SessionFault}
    {r : Except SessionFault (List α) × Session τ} (h : r.1 = collected pages fault) :
    (prepend items r).1 = collected (items :: pages) fault := by
  obtain ⟨outcome, t⟩ := r
  obtain rfl : outcome = collected pages fault := h
  cases fault <;> rfl

omit [Wire α] in
theorem prepend_snd (items : List α) (r : Except SessionFault (List α) × Session τ) : (prepend items r).2 = r.2 := by
  obtain ⟨_ | _, _⟩ := r <;> rfl

variable {cursor : Option String} {cursors : List String} {pages : List (List α)} {fault : Option SessionFault}

theorem request_read {params : Json} (hphase : s.phase ≠ .launched)
    (h : s.response method params ≠ .error .unwritable) :
    let t := (s.request method params).2
    t.phase ≠ .launched ∧ t.lastId = s.lastId + 1 ∧
      t.received = s.received ++ [requestMessage (s.lastId + 1) method params] := by
  rcases request_cases s method params with ⟨hexited, -⟩ | ⟨t, timedOut, hsend, hrequest⟩
  · have hasked : s.asked method params = .error .unwritable := by
      unfold asked send
      rw [hexited]
    rw [response, hasked] at h
    exact absurd rfl h
  · obtain ⟨hlaunched, -, hlastId, hreceived⟩ := written_of_send hsend
    rw [hrequest]
    refine ⟨hlaunched, hlastId, ?_⟩
    rcases hreceived with hread | ⟨hlaunched, -⟩
    · exact hread
    · exact absurd hlaunched hphase

theorem outcome_writable (s : Session τ) (answer : Option Value) :
    s.outcome method answer ≠ .error .unwritable := by
  cases answer with
  | none =>
    unfold outcome
    cases s.phase <;> simp
  | some answer =>
    show resultOf method answer ≠ .error .unwritable
    unfold resultOf
    cases refusal? answer <;> simp

theorem request_unread {params : Json} (h : s.response method params = .error .unwritable) :
    (s.request method params).2.received = s.received := by
  rcases request_cases s method params with ⟨-, hrequest⟩ | ⟨t, timedOut, hsend, -⟩
  · rw [hrequest]
  · have hasked : s.asked method params = .ok t := hsend
    unfold response at h
    rw [hasked] at h
    exact absurd h (outcome_writable t _)

theorem answeredPage_eq_unwritable :
    s.answeredPage α method key cursor = .error .unwritable ↔
      s.response method (pageParams cursor) = .error .unwritable := by
  unfold answeredPage
  cases s.response method (pageParams cursor) with
  | error e => simp
  | ok result =>
    dsimp only
    cases readPage (α := α) key result <;> simp

theorem page_read {r : Except SessionFault (List α × Option String)} (hphase : s.phase ≠ .launched)
    (hpage : s.answeredPage α method key cursor = r) (hr : r ≠ .error .unwritable) :
    let t := (s.request method (pageParams cursor)).2
    t.phase ≠ .launched ∧ t.lastId = s.lastId + 1 ∧
      t.received = s.received ++ [requestMessage (s.lastId + 1) method (pageParams cursor)] :=
  request_read hphase fun h => hr (hpage.symm.trans (answeredPage_eq_unwritable.2 h))

theorem Chain.collect (h : Chain α method key cursor s cursors pages fault) (hclear : Clear method cursor s cursors)
    (hdistinct : (cursor :: cursors.map some).IsChain (· ≠ ·)) (n : Nat) :
    let call := s.collect (α := α) method key (cursors.length + (n + 1)) cursor
    call.1 = collected pages fault ∧
      (s.phase ≠ .launched → call.2.received = s.received ++ listRequests method s.lastId cursor cursors fault) := by
  induction h with
  | last hpage =>
    rw [List.length_nil, Nat.zero_add, collect_succ, page_unmistaken hclear, hpage]
    refine ⟨by simp [collected], fun hphase => ?_⟩
    exact (page_read hphase hpage (by simp)).2.2
  | @broken cursor s e hpage =>
    rw [List.length_nil, Nat.zero_add, collect_succ, page_unmistaken hclear, hpage]
    refine ⟨rfl, fun hphase => ?_⟩
    by_cases he : e = .unwritable
    · subst he
      exact (request_unread (answeredPage_eq_unwritable.1 hpage)).trans (List.append_nil _).symm
    · rw [listRequests, if_neg (by simpa using he)]
      exact (page_read hphase hpage (by simpa using he)).2.2
  | @turn cursor s items next cursors pages fault hpage hrest ih =>
    obtain ⟨hunmistaken, hclear⟩ := hclear
    obtain ⟨hnext, hdistinct⟩ := List.isChain_cons_cons.1 hdistinct
    obtain ⟨hitems, hreceived⟩ := ih hclear hdistinct
    rw [List.length_cons, Nat.add_right_comm, collect_succ, page_unmistaken hunmistaken, hpage]
    dsimp only
    rw [if_neg hnext]
    refine ⟨prepend_collected hitems, fun hphase => ?_⟩
    obtain ⟨hphase', hlastId, hread⟩ := page_read hphase hpage (by simp)
    rw [prepend_snd, hreceived hphase', hread, hlastId, List.append_assoc]
    rfl

/-- Whatever a server does, a call for a list sends the cursors of the chain in their order and gives all items of its
pages, or the fault that it ends with and none of them, as long as no request is mistaken in its answer and no cursor
is handed out twice in a row. -/
theorem list_chain (kind : ListKind) (s : Session τ)
    (h : Chain α kind.method kind.capability none s cursors pages fault) (hclear : Clear kind.method none s cursors)
    (hdistinct : cursors.IsChain (· ≠ ·)) (bound : Nat) (hbound : cursors.length < bound) :
    let call := s.list (α := α) kind bound
    call.1 = collected pages fault ∧
      (s.phase ≠ .launched →
        call.2.received = s.received ++ listRequests kind.method s.lastId none cursors fault) := by
  have hcursors : (none :: cursors.map some).IsChain (· ≠ ·) := by
    rw [List.isChain_cons, List.isChain_map]
    refine ⟨?_, hdistinct.imp fun a b hab he => hab (Option.some.inj he)⟩
    intro cursor hcursor
    obtain ⟨c, -, rfl⟩ := List.mem_map.1 (List.mem_of_mem_head? hcursor)
    exact nofun
  obtain ⟨more, rfl⟩ := Nat.exists_eq_add_of_lt hbound
  exact h.collect hclear hcursors more

omit [Wire α] in
theorem exists_page {page : Except SessionFault (List α × Option String)} {β : Type} {f : α → β} {told : List β}
    {next : Option String} (h : page.toOption.map (fun p => (p.1.map f, p.2)) = some (told, next)) :
    ∃ items, page = .ok (items, next) ∧ items.map f = told := by
  obtain ⟨⟨items, next⟩, hpage, htold⟩ := Option.map_eq_some_iff.1 h
  obtain ⟨rfl, rfl⟩ := Prod.mk.inj htold
  cases page with
  | error e => cases hpage
  | ok p =>
    obtain rfl := Option.some.inj hpage
    exact ⟨items, rfl, rfl⟩

def twoPages : Session (List (Option (List String))) :=
  (launch (.ofScript [
      some [(responseMessage 1 (.obj [])).compact],
      some [],
      toolPage 2 "w" (some "a"),
      toolPage 3 "x" none])
    (.ofSeconds 30)).exchanges [.request handshakeMethod handshakeParams, .notify "notifications/initialized"]

def begun (s : Session τ) : Bool :=
  match s.phase with
  | .launched => false
  | _ => true

def toolNames (page : Except SessionFault (List Tool × Option String)) : Option (List String × Option String) :=
  page.toOption.map fun p => (p.1.map Tool.name, p.2)

theorem list_chain_two_pages :
    ∃ first second : List Tool, first.map Tool.name = ["w"] ∧ second.map Tool.name = ["x"] ∧
      Chain Tool "tools/list" "tools" none twoPages ["a"] [first, second] none ∧
      Clear "tools/list" none twoPages ["a"] ∧
      (twoPages.tools 5).1 = .ok (first ++ second) ∧
      (twoPages.tools 5).2.received =
        twoPages.received ++ listRequests "tools/list" 1 none ["a"] none := by
  let next := (twoPages.request "tools/list" (pageParams none)).2
  have htold : twoPages.begun = true ∧ twoPages.lastId = 1 ∧ Clear "tools/list" none twoPages ["a"] ∧
      toolNames (twoPages.answeredPage Tool "tools/list" "tools" none) = some (["w"], some "a") ∧
      toolNames (next.answeredPage Tool "tools/list" "tools" (some "a")) = some (["x"], none) := by
    decide +kernel
  obtain ⟨hbegun, hlastId, hclear, hfirst, hsecond⟩ := htold
  obtain ⟨first, hpage, hfirst⟩ := exists_page hfirst
  obtain ⟨second, hpage', hsecond⟩ := exists_page hsecond
  have hchain : Chain Tool "tools/list" "tools" none twoPages ["a"] [first, second] none :=
    .turn hpage (.last hpage')
  have hphase : twoPages.phase ≠ .launched := by
    intro hlaunched
    rw [begun, hlaunched] at hbegun
    cases hbegun
  obtain ⟨hitems, hreceived⟩ := list_chain .tools twoPages hchain hclear (.singleton _) 5 (by decide)
  rw [collected, List.flatten_cons, List.flatten_cons, List.flatten_nil, List.append_nil] at hitems
  rw [hlastId] at hreceived
  exact ⟨first, second, hfirst, hsecond, hchain, hclear, hitems, hreceived hphase⟩

/-- A request of the server is taken for the page that it answers with, and the list comes out empty. -/
theorem chain_misread :
    ∃ items : List Tool, items.map Tool.name = ["read_file"] ∧
      Chain Tool "tools/list" "tools" none rootsAsked [] [items] none ∧
      ∀ bound, 0 < bound → (rootsAsked.tools bound).1 = .ok [] := by
  have htold : toolNames (rootsAsked.answeredPage Tool "tools/list" "tools" none) = some (["read_file"], none) ∧
      toolNames (rootsAsked.page Tool "tools/list" "tools" none).1 = some ([], none) := by decide +kernel
  obtain ⟨hanswered, htaken⟩ := htold
  obtain ⟨items, hpage, hitems⟩ := exists_page hanswered
  obtain ⟨others, hpage', hothers⟩ := exists_page htaken
  obtain rfl : others = [] := List.map_eq_nil_iff.1 hothers
  refine ⟨items, hitems, .last hpage, fun bound hbound => ?_⟩
  obtain ⟨more, rfl⟩ := Nat.exists_eq_add_of_lt hbound
  have hcollect : (rootsAsked.collect (α := Tool) "tools/list" "tools" (0 + more + 1) none).1 = .ok [] := by
    rw [collect_succ]
    generalize rootsAsked.page Tool "tools/list" "tools" none = taken at hpage'
    obtain ⟨outcome, t⟩ := taken
    obtain rfl : outcome = .ok ([], none) := hpage'
    rfl
  exact hcollect

end Session

end ServiceCatalog
