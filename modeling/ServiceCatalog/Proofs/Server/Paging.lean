import Mathlib.Data.Finset.Card
import Mathlib.Data.List.Chain
import ServiceCatalog.Proofs.Server.Matching

namespace ServiceCatalog

namespace Session

variable {τ α : Type} {s t u : Session τ} {method key : String}

def prepend (items : List α) : Except SessionFault (List α) × Session τ → Except SessionFault (List α) × Session τ
  | (.error e, s) => (.error e, s)
  | (.ok more, s) => (.ok (items ++ more), s)

theorem prepend_nil (r : Except SessionFault (List α) × Session τ) : prepend [] r = r := by
  obtain ⟨_ | _, _⟩ := r <;> rfl

theorem prepend_append (items more : List α) (r : Except SessionFault (List α) × Session τ) :
    prepend (items ++ more) r = prepend items (prepend more r) := by
  obtain ⟨_ | rest, _⟩ := r
  · rfl
  · simp only [prepend, List.append_assoc]

theorem prepend_error {items : List α} {r : Except SessionFault (List α) × Session τ} {e : SessionFault} :
    (prepend items r).1 = .error e ↔ r.1 = .error e := by
  obtain ⟨_ | _, _⟩ := r
  · rfl
  · exact ⟨nofun, nofun⟩

variable [Wire α]

theorem request_error {params : Json} {e : SessionFault} (h : s.request method params = (.error e, t)) :
    e ≠ .repeatedCursor method ∧ e ≠ .endless method := by
  have hrefused {answer : Value} (he : resultOf method answer = .error e) :
      e ≠ .repeatedCursor method ∧ e ≠ .endless method := by
    unfold resultOf at he
    split at he
    · cases he
      exact ⟨nofun, nofun⟩
    · cases he
  rcases request_cases s method params with ⟨-, hrequest⟩ | ⟨u, timedOut, -, hrequest⟩
  · rw [hrequest] at h
    cases h
    exact ⟨nofun, nofun⟩
  · rw [hrequest] at h
    have he := congrArg Prod.fst h
    dsimp only at he
    unfold outcome at he
    split at he
    · exact hrefused he
    · split at he
      · cases he
        exact ⟨nofun, nofun⟩
      · cases he
        exact ⟨nofun, nofun⟩

theorem request_ok {params result : Json} (h : s.request method params = (.ok result, t)) :
    Written { s with lastId := s.lastId + 1 } t (requestMessage (s.lastId + 1) method params) := by
  rcases request_cases s method params with ⟨-, hrequest⟩ | ⟨u, timedOut, hsend, hrequest⟩
  · rw [hrequest] at h
    cases h
  · rw [hrequest] at h
    obtain rfl := congrArg Prod.snd h
    obtain ⟨hphase, hprogram, hlastId, hreceived⟩ := written_of_send hsend
    exact ⟨hphase, hprogram, hlastId, hreceived⟩

def page (α : Type) [Wire α] (method key : String) (cursor : Option String) (s : Session τ) :
    Except SessionFault (List α × Option String) × Session τ :=
  match s.request method (pageParams cursor) with
  | (.error e, s) => (.error e, s)
  | (.ok result, s) =>
    match readPage key result with
    | none => (.error (.malformed method), s)
    | some page => (.ok page, s)

theorem page_error {cursor : Option String} {e : SessionFault} (h : s.page α method key cursor = (.error e, t)) :
    e ≠ .repeatedCursor method ∧ e ≠ .endless method := by
  unfold page at h
  split at h
  · next hrequest =>
    cases h
    exact request_error hrequest
  · split at h
    · cases h
      exact ⟨nofun, nofun⟩
    · cases h

theorem page_ok {cursor : Option String} {p : List α × Option String}
    (h : s.page α method key cursor = (.ok p, t)) :
    Written { s with lastId := s.lastId + 1 } t (requestMessage (s.lastId + 1) method (pageParams cursor)) := by
  unfold page at h
  split at h
  · cases h
  · next hrequest =>
    split at h
    · cases h
    · cases h
      exact request_ok hrequest

theorem collect_succ (pages : Nat) (cursor : Option String) (s : Session τ) :
    s.collect (α := α) method key (pages + 1) cursor =
      match s.page α method key cursor with
      | (.error e, t) => (.error e, t)
      | (.ok (items, none), t) => (.ok items, t)
      | (.ok (items, some next), t) =>
        if cursor = some next then (.error (.repeatedCursor method), t)
        else prepend items (t.collect method key pages (some next)) := by
  rw [collect, page]
  cases s.request method (pageParams cursor) with
  | mk result t =>
    cases result with
    | error e => rfl
    | ok result =>
      dsimp only
      cases readPage (α := α) key result with
      | none => rfl
      | some p =>
        obtain ⟨items, _ | next⟩ := p
        · rfl
        · rfl

inductive Walk (α : Type) [Wire α] (method key : String) :
    Option String → Session τ → List String → List α → Option String → Session τ → Prop
  | stay (cursor : Option String) (s : Session τ) : Walk α method key cursor s [] [] cursor s
  | turn {cursor last : Option String} {next : String} {cursors : List String} {items more : List α}
      {s t u : Session τ} (hpage : s.page α method key cursor = (.ok (items, some next), t))
      (hnext : cursor ≠ some next) (hrest : Walk α method key (some next) t cursors more last u) :
      Walk α method key cursor s (next :: cursors) (items ++ more) last u

def Last (α : Type) [Wire α] (method key : String) (cursor : Option String) (s : Session τ) : Prop :=
  ∀ items next t, s.page α method key cursor = (.ok (items, some next), t) → cursor = some next

variable {cursor last : Option String} {cursors : List String} {items : List α}

theorem Walk.collect (h : Walk α method key cursor s cursors items last t) (pages : Nat) :
    s.collect method key (cursors.length + pages) cursor = prepend items (t.collect method key pages last) := by
  induction h with
  | stay => rw [List.length_nil, Nat.zero_add, prepend_nil]
  | turn hpage hnext _ ih =>
    rw [List.length_cons, Nat.add_right_comm, collect_succ, hpage]
    dsimp only
    rw [if_neg hnext, ih, prepend_append]

theorem Walk.isChain (h : Walk α method key cursor s cursors items last t) :
    (cursor :: cursors.map some).IsChain (· ≠ ·) := by
  induction h with
  | stay => exact .singleton _
  | turn _ hnext _ ih => exact .cons_cons hnext ih

def pageRequests (method : String) : Nat → Option String → List String → List Json
  | _, _, [] => []
  | n, cursor, next :: r =>
    requestMessage (n + 1) method (pageParams cursor) :: pageRequests method (n + 1) (some next) r

theorem Walk.received (h : Walk α method key cursor s cursors items last t) (hs : s.phase ≠ .launched) :
    t.received = s.received ++ pageRequests method s.lastId cursor cursors := by
  induction h with
  | stay => rw [pageRequests, List.append_nil]
  | turn hpage _ _ ih =>
    obtain ⟨hphase, -, hlastId, hreceived⟩ := page_ok hpage
    obtain hread | ⟨hlaunched, -⟩ := hreceived
    · rw [ih hphase, hread, hlastId, pageRequests, List.append_assoc]
      rfl
    · exact absurd hlaunched hs

theorem Last.collect (h : Last α method key cursor s) (pages : Nat) :
    s.collect (α := α) method key (pages + 1) cursor = s.collect method key 1 cursor := by
  rw [collect_succ, collect_succ]
  split
  · rfl
  · rfl
  · next hpage => rw [if_pos (h _ _ _ hpage), if_pos (h _ _ _ hpage)]

theorem Last.ne_endless (h : Last α method key cursor s) :
    (s.collect (α := α) method key 1 cursor).1 ≠ .error (.endless method) := by
  rw [collect_succ]
  split
  · next hpage =>
    intro he
    cases he
    exact (page_error hpage).2 rfl
  · exact nofun
  · next hpage =>
    rw [if_pos (h _ _ _ hpage)]
    exact nofun

theorem walk_or_last (α : Type) [Wire α] (method key : String) (n : Nat) (cursor : Option String) (s : Session τ) :
    (∃ cursors items last t, Walk α method key cursor s cursors items last t ∧ cursors.length = n) ∨
      ∃ cursors items last t, Walk α method key cursor s cursors items last t ∧ cursors.length < n ∧
        Last α method key last t := by
  induction n generalizing cursor s with
  | zero => exact .inl ⟨[], [], cursor, s, .stay cursor s, rfl⟩
  | succ n ih =>
    by_cases hlast : Last α method key cursor s
    · exact .inr ⟨[], [], cursor, s, .stay cursor s, Nat.succ_pos n, hlast⟩
    · -- A page that is not the last gives way to the walk from the next one.
      unfold Last at hlast
      push Not at hlast
      obtain ⟨items, next, t, hpage, hnext⟩ := hlast
      rcases ih (some next) t with ⟨cursors, more, last, u, hwalk, hlength⟩ |
        ⟨cursors, more, last, u, hwalk, hlength, hlast⟩
      · exact .inl ⟨_, _, _, _, .turn hpage hnext hwalk, congrArg (· + 1) hlength⟩
      · exact .inr ⟨_, _, _, _, .turn hpage hnext hwalk, Nat.succ_lt_succ hlength, hlast⟩

theorem collect_endless_iff (pages : Nat) (cursor : Option String) (s : Session τ) :
    (s.collect (α := α) method key pages cursor).1 = .error (.endless method) ↔
      ∃ cursors items last t, Walk α method key cursor s cursors items last t ∧ cursors.length = pages := by
  constructor
  · intro h
    rcases walk_or_last α method key pages cursor s with hwalk |
      ⟨cursors, items, last, t, hwalk, hlength, hlast⟩
    · exact hwalk
    · obtain ⟨more, rfl⟩ := Nat.exists_eq_add_of_lt hlength
      rw [Nat.add_assoc, hwalk.collect, prepend_error, hlast.collect] at h
      exact absurd h hlast.ne_endless
  · rintro ⟨cursors, items, last, t, hwalk, rfl⟩
    rw [← Nat.add_zero cursors.length, hwalk.collect, prepend_error]
    rfl

theorem collect_add {pages : Nat} (h : (s.collect (α := α) method key pages cursor).1 ≠ .error (.endless method))
    (more : Nat) : s.collect (α := α) method key (pages + more) cursor = s.collect method key pages cursor := by
  rcases walk_or_last α method key pages cursor s with hwalk |
    ⟨cursors, items, last, t, hwalk, hlength, hlast⟩
  · exact absurd ((collect_endless_iff pages cursor s).2 hwalk) h
  · obtain ⟨rest, rfl⟩ := Nat.exists_eq_add_of_lt hlength
    have hcollect (n : Nat) : s.collect method key (cursors.length + (n + 1)) cursor =
        prepend items (t.collect method key 1 last) := by
      rw [hwalk.collect, hlast.collect]
    rw [Nat.add_assoc cursors.length, hcollect, Nat.add_assoc, Nat.add_right_comm, hcollect]

def Repeats (α : Type) [Wire α] (method key : String) (cursor : Option String) (s : Session τ) : Prop :=
  ∃ items next t, s.page α method key cursor = (.ok (items, some next), t) ∧ cursor = some next

theorem Last.repeats (h : Last α method key cursor s)
    (he : (s.collect (α := α) method key 1 cursor).1 = .error (.repeatedCursor method)) :
    Repeats α method key cursor s := by
  rw [collect_succ] at he
  split at he
  · next hpage =>
    cases he
    exact absurd rfl (page_error hpage).1
  · cases he
  · next hpage => exact ⟨_, _, _, hpage, h _ _ _ hpage⟩

theorem collect_repeated_iff (pages : Nat) (cursor : Option String) (s : Session τ) :
    (s.collect (α := α) method key pages cursor).1 = .error (.repeatedCursor method) ↔
      ∃ cursors items last t, Walk α method key cursor s cursors items last t ∧ cursors.length < pages ∧
        Repeats α method key last t := by
  constructor
  · intro h
    rcases walk_or_last α method key pages cursor s with hwalk |
      ⟨cursors, items, last, t, hwalk, hlength, hlast⟩
    · rw [(collect_endless_iff pages cursor s).2 hwalk] at h
      cases h
    · obtain ⟨more, rfl⟩ := Nat.exists_eq_add_of_lt hlength
      rw [Nat.add_assoc, hwalk.collect, prepend_error, hlast.collect] at h
      exact ⟨cursors, items, last, t, hwalk, hlength, hlast.repeats h⟩
  · rintro ⟨cursors, items, last, t, hwalk, hlength, page, next, u, hpage, hlast⟩
    obtain ⟨more, rfl⟩ := Nat.exists_eq_add_of_lt hlength
    rw [Nat.add_assoc, hwalk.collect, prepend_error, collect_succ, hpage]
    dsimp only
    rw [if_pos hlast]

theorem Walk.length_le (h : Walk α method key none s cursors items last t) {F : Finset String}
    (hF : ∀ c ∈ cursors, c ∈ F) (hnodup : F.card ≤ 1 ∨ cursors.Nodup) : cursors.length ≤ F.card := by
  have hcard (hn : cursors.Nodup) : cursors.length ≤ F.card := by
    rw [← List.toFinset_card_of_nodup hn]
    apply Finset.card_le_card
    intro c hc
    exact hF c (List.mem_toFinset.1 hc)
  rcases hnodup with hone | hnodup
  · -- Of one cursor no two are neighbours, so there is none or one.
    have hchain := h.isChain
    match cursors with
    | [] => exact Nat.zero_le _
    | [c] => exact hcard (List.nodup_singleton c)
    | c :: d :: _ =>
      have hne : c ≠ d := by
        rintro rfl
        exact (List.isChain_cons_cons.1 (List.isChain_cons_cons.1 hchain).2).1 rfl
      have hsame := Finset.card_le_one.1 hone c (hF c List.mem_cons_self) d
        (hF d (List.mem_cons_of_mem _ List.mem_cons_self))
      exact absurd hsame hne
  · exact hcard hnodup

/-- The cursors that a call sends differ from one request to the next, and it fails for a cursor only if that
comes back at once. Among finitely many cursors it ends after one more request than there are, if there is one
cursor only or none comes back later. -/
theorem collect_ends (α : Type) [Wire α] (method key : String) (s : Session τ) :
    (∀ cursors items last t, Walk α method key none s cursors items last t →
        (none :: cursors.map some).IsChain (· ≠ ·) ∧
          (s.phase ≠ .launched → t.received = s.received ++ pageRequests method s.lastId none cursors)) ∧
      (∀ pages, (s.collect (α := α) method key pages none).1 = .error (.repeatedCursor method) ↔
        ∃ cursors items last t, Walk α method key none s cursors items last t ∧ cursors.length < pages ∧
          Repeats α method key last t) ∧
      (∀ pages, (s.collect (α := α) method key pages none).1 = .error (.endless method) ↔
        ∃ cursors items last t, Walk α method key none s cursors items last t ∧ cursors.length = pages) ∧
      ∀ F : Finset String,
        (∀ cursors items last t, Walk α method key none s cursors items last t → ∀ c ∈ cursors, c ∈ F) →
        (F.card ≤ 1 ∨ ∀ cursors items last t, Walk α method key none s cursors items last t → cursors.Nodup) →
        ∃ result, result.1 ≠ .error (.endless method) ∧
          ∀ pages, F.card < pages → s.collect (α := α) method key pages none = result := by
  refine ⟨?_, ?_, ?_, ?_⟩
  · intro cursors items last t hwalk
    exact ⟨hwalk.isChain, hwalk.received⟩
  · intro pages
    exact collect_repeated_iff pages none s
  · intro pages
    exact collect_endless_iff pages none s
  · intro F hF hnodup
    have hends : (s.collect (α := α) method key (F.card + 1) none).1 ≠ .error (.endless method) := by
      intro hendless
      obtain ⟨cursors, items, last, t, hwalk, hlength⟩ := (collect_endless_iff _ none s).1 hendless
      have hle := hwalk.length_le (hF _ _ _ _ hwalk) (hnodup.imp_right fun h => h _ _ _ _ hwalk)
      omega
    refine ⟨s.collect method key (F.card + 1) none, hends, ?_⟩
    intro pages hpages
    obtain ⟨more, rfl⟩ := Nat.exists_eq_add_of_lt hpages
    rw [Nat.add_right_comm, collect_add hends]

def toolPage (id : Nat) (tool : String) (next : Option String) : Option (List String) :=
  some [(responseMessage id (.record [
    ("tools", some (.arr [.obj [("name", .str tool)]])),
    ("nextCursor", next.map Json.str)])).compact]

def circling : Session (List (Option (List String))) :=
  (launch (.ofScript [
      some [(responseMessage 1 (.obj [])).compact],
      some [],
      toolPage 2 "w" (some "a"),
      toolPage 3 "x" (some "b"),
      toolPage 4 "y" (some "a"),
      toolPage 5 "z" none])
    (.ofSeconds 30)).exchanges [.request handshakeMethod handshakeParams, .notify "notifications/initialized"]

def sentCursor? (message : Json) : Option String :=
  ((message.field? "params").bind (·.field? "cursor")).bind Json.str?

/-- The cursor is sent in two requests, and the call gives the tools of all pages. -/
theorem cursor_sent_again :
    (circling.tools 4).2.received.filterMap sentCursor? = ["a", "b", "a"] ∧
      (circling.tools 4).1.toOption.map (·.map Tool.name) = some ["w", "x", "y", "z"] := by
  decide +kernel

end Session

end ServiceCatalog
