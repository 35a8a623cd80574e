import Mathlib.Data.List.TakeWhile
import ServiceCatalog.Proofs.Server.Arrival

/-!
Which message a request takes for its answer: of those that wait, the first that carries its number. No
earlier request had that number, so a late answer is never taken; a message of the server's own that carries
it is.
-/

namespace ServiceCatalog

namespace Message

def carries (id : Nat) (m : Value) : Bool := id? m = some id

def isResponse (m : Value) : Bool :=
  (m.tree.field? "method").isNone && ((m.tree.field? "result").isSome || (m.tree.field? "error").isSome)

def answers (id : Nat) (m : Value) : Bool := carries id m && isResponse m

theorem find?_answers (id : Nat) (l : List Value) :
    l.find? (carries id) = l.find? (answers id) ↔ ∀ m ∈ l.find? (carries id), isResponse m = true := by
  induction l with
  | nil => exact ⟨fun _ => nofun, fun _ => rfl⟩
  | cons m l ih =>
    cases hm : carries id m with
    | false =>
      have hanswers : answers id m = false := by rw [answers, hm, Bool.false_and]
      rw [List.find?_cons_of_neg (by simp [hm]), List.find?_cons_of_neg (by simp [hanswers])]
      exact ih
    | true =>
      have hanswers : answers id m = isResponse m := by rw [answers, hm, Bool.true_and]
      rw [List.find?_cons_of_pos hm]
      constructor
      · intro hsame k hk
        have hfound := List.find?_some (hsame.symm.trans hk)
        rw [answers, Bool.and_eq_true] at hfound
        exact hfound.2
      · intro hresponse
        rw [List.find?_cons_of_pos (hanswers.trans (hresponse m rfl))]

end Message

inductive Exchange where
  | request (method : String) (params : Json)
  | notify (method : String)

def Exchange.isRequest : Exchange → Bool
  | .request _ _ => true
  | .notify _ => false

namespace Session

variable {τ : Type} {s t : Session τ} {seen : List Value}

def exchange (s : Session τ) : Exchange → Session τ
  | .request method params => (s.request method params).2
  | .notify method =>
    match s.send (notification method) with
    | .ok t => t
    | .error _ => s

def exchanges (s : Session τ) (calls : List Exchange) : Session τ := calls.foldl exchange s

theorem handshake_exchanges (s : Session τ) : ∃ calls, s.handshake.2 = s.exchanges calls := by
  have hrequest : s.exchanges [.request handshakeMethod handshakeParams] =
      (s.request handshakeMethod handshakeParams).2 := rfl
  unfold handshake
  split
  · next hs => exact ⟨_, by rw [hrequest, hs]⟩
  · next u hs =>
    rw [hs] at hrequest
    split
    · exact ⟨_, hrequest.symm⟩
    · split
      · exact ⟨_, hrequest.symm⟩
      · next v hsend =>
        refine ⟨[.request handshakeMethod handshakeParams, .notify "notifications/initialized"], ?_⟩
        change v = (s.exchanges [.request handshakeMethod handshakeParams]).exchange
          (.notify "notifications/initialized")
        rw [hrequest, exchange, hsend]

theorem collect_exchanges {α : Type} [Wire α] (method key : String) (pages : Nat) (cursor : Option String)
    (s : Session τ) : ∃ calls, (s.collect (α := α) method key pages cursor).2 = s.exchanges calls := by
  induction pages generalizing cursor s with
  | zero => exact ⟨[], rfl⟩
  | succ pages ih =>
    have hrequest : s.exchanges [.request method (pageParams cursor)] =
        (s.request method (pageParams cursor)).2 := rfl
    rw [collect]
    split
    · next hs => exact ⟨_, by rw [hrequest, hs]⟩
    · next u hs =>
      rw [hs] at hrequest
      split
      · exact ⟨_, hrequest.symm⟩
      · exact ⟨_, hrequest.symm⟩
      · next next _ =>
        split
        · exact ⟨_, hrequest.symm⟩
        · obtain ⟨calls, hcalls⟩ := ih (some next) u
          refine ⟨.request method (pageParams cursor) :: calls, ?_⟩
          change _ = (s.exchanges [.request method (pageParams cursor)]).exchanges calls
          rw [hrequest, ← hcalls]
          split
          · next hmore => rw [hmore]
          · next hmore => rw [hmore]

theorem findAnswer_eq (id : Nat) (inbox : List Value) :
    findAnswer id inbox = (inbox.find? (Message.carries id)).map
      fun m => (m, (inbox.dropWhile fun m => !Message.carries id m).tail) := by
  induction inbox with
  | nil => rfl
  | cons m inbox ih =>
    rw [findAnswer]
    split
    · next hm =>
      have hcarries : Message.carries id m = true := decide_eq_true hm
      rw [List.find?_cons_of_pos hcarries, List.dropWhile_cons_of_neg (by simp [hcarries])]
      rfl
    · next hm =>
      have hcarries : Message.carries id m = false := decide_eq_false hm
      rw [List.find?_cons_of_neg (by simp [hcarries]), List.dropWhile_cons_of_pos (by simp [hcarries])]
      exact ih

def outcome (s : Session τ) (method : String) : Option Value → Except SessionFault Json
  | some answer => resultOf method answer
  | none =>
    match s.phase with
    | .exited => .error (.exited method)
    | _ => .error (.timedOut method s.patience)

theorem await_eq (s : Session τ) (id : Nat) (method : String) :
    ∃ timedOut, s.await id method = (s.outcome method (s.inbox.find? (Message.carries id)),
      { s with inbox := (s.inbox.dropWhile fun m => !Message.carries id m).tail, timedOut := timedOut }) := by
  unfold await
  rw [findAnswer_eq]
  cases hfind : s.inbox.find? (Message.carries id) with
  | some m => exact ⟨s.timedOut, rfl⟩
  | none =>
    have hall : (s.inbox.dropWhile fun m => !Message.carries id m) = [] := by
      rw [List.find?_eq_head?_dropWhile_not] at hfind
      exact List.head?_eq_none_iff.1 hfind
    rw [hall]
    cases hphase : s.phase with
    | exited => exact ⟨s.timedOut, by simp only [outcome, hphase, Option.map_none, List.tail_nil]⟩
    | launched | running => exact ⟨true, by simp only [outcome, hphase, Option.map_none, List.tail_nil]⟩

theorem Tracked.look (h : s.Tracked seen) {looked rest : List Value} (hinbox : s.inbox = looked ++ rest)
    (timedOut : Bool) : Tracked { s with inbox := rest, timedOut := timedOut } (seen ++ looked) := by
  rw [Tracked] at h ⊢
  dsimp only
  split at h
  · rw [hinbox, ← List.append_assoc] at h
    exact h
  · rw [TookIn, hinbox, ← List.append_assoc] at h
    exact h

/-- How a request with a number is matched with a message, given what the session looked at before. -/
structure Answered (s t : Session τ) (id : Nat) (method : String) (result : Except SessionFault Json)
    (seen waiting : List Value) : Prop where
  before : s.arrived = seen ++ s.inbox
  after : t.arrived = seen ++ waiting
  result_eq : result = t.outcome method (waiting.find? (Message.carries id))
  left : t.inbox = (waiting.dropWhile fun m => !Message.carries id m).tail

theorem request_cases (s : Session τ) (method : String) (params : Json) :
    s.phase = .exited ∧ s.request method params = (.error .unwritable, { s with lastId := s.lastId + 1 }) ∨
      ∃ u timedOut, { s with lastId := s.lastId + 1 }.send (requestMessage (s.lastId + 1) method params) = .ok u ∧
        s.request method params = (u.outcome method (u.inbox.find? (Message.carries (s.lastId + 1))),
          { u with
            inbox := (u.inbox.dropWhile fun m => !Message.carries (s.lastId + 1) m).tail, timedOut := timedOut }) := by
  unfold Session.request
  dsimp only
  split
  · next e he =>
    obtain ⟨hphase, rfl⟩ := send_error he
    exact .inl ⟨hphase, rfl⟩
  · next u hu =>
    have hlastId : u.lastId = s.lastId + 1 := (written_of_send hu).lastId
    obtain ⟨timedOut, hawait⟩ := await_eq u (s.lastId + 1) method
    rw [hlastId]
    exact .inr ⟨u, timedOut, hu, hawait⟩

theorem Tracked.request (h : s.Tracked seen) (method : String) (params : Json) :
    let t := (s.request method params).2
    (∃ seen, t.Tracked seen) ∧ t.program = s.program ∧ t.lastId = s.lastId + 1 ∧
      (s.phase = .exited ∧ (s.request method params).1 = .error .unwritable ∨
        (t.received = s.received ++ [requestMessage (s.lastId + 1) method params] ∨
          t.phase = .exited ∧ t.received = s.received) ∧
        ∃ waiting, Answered s t (s.lastId + 1) method (s.request method params).1 seen waiting) := by
  have hnumbered : Tracked { s with lastId := s.lastId + 1 } seen := h
  rcases request_cases s method params with ⟨hphase, hrequest⟩ | ⟨u, timedOut, hu, hrequest⟩
  · rw [hrequest]
    exact ⟨⟨seen, hnumbered⟩, rfl, rfl, .inl ⟨hphase, rfl⟩⟩
  · obtain ⟨-, hprogram, hlastId, hreceived⟩ := written_of_send hu
    have htracked := hnumbered.send hu
    -- The messages before the answer are skipped, then the answer is taken; the others stay.
    have hskipped := htracked.look
      (List.takeWhile_append_dropWhile (p := fun m => !Message.carries (s.lastId + 1) m)).symm timedOut
    have htaken := hskipped.look (List.take_append_drop 1 _).symm timedOut
    rw [List.drop_one] at htaken
    rw [hrequest]
    exact ⟨⟨_, htaken⟩, hprogram, hlastId,
      .inr ⟨hreceived.imp id And.right, u.inbox, h.arrived_eq, htracked.arrived_eq, rfl, rfl⟩⟩

theorem Tracked.exchange (h : s.Tracked seen) (call : Exchange) :
    (∃ seen, (s.exchange call).Tracked seen) ∧ (s.exchange call).program = s.program ∧
      (s.exchange call).lastId = s.lastId + [call].countP Exchange.isRequest := by
  cases call with
  | request method params =>
    obtain ⟨htracked, hprogram, hlastId, -⟩ := h.request method params
    exact ⟨htracked, hprogram, hlastId⟩
  | notify method =>
    unfold Session.exchange
    dsimp only
    split
    · next t hsend =>
      have hwritten := written_of_send hsend
      exact ⟨⟨seen, h.send hsend⟩, hwritten.program, hwritten.lastId⟩
    · exact ⟨⟨seen, h⟩, rfl, rfl⟩

theorem Tracked.exchanges (h : s.Tracked seen) (calls : List Exchange) :
    (∃ seen, (s.exchanges calls).Tracked seen) ∧ (s.exchanges calls).program = s.program ∧
      (s.exchanges calls).lastId = s.lastId + calls.countP Exchange.isRequest := by
  induction calls generalizing s seen with
  | nil => exact ⟨⟨seen, h⟩, rfl, rfl⟩
  | cons call calls ih =>
    obtain ⟨⟨seen', hcall⟩, hprogram, hlastId⟩ := h.exchange call
    obtain ⟨htracked, hprogram', hlastId'⟩ := ih hcall
    refine ⟨htracked, hprogram'.trans hprogram, ?_⟩
    calc (s.exchanges (call :: calls)).lastId
        = (s.exchange call).lastId + calls.countP Exchange.isRequest := hlastId'
      _ = s.lastId + (call :: calls).countP Exchange.isRequest := by
          rw [hlastId, Nat.add_assoc, ← List.countP_append, List.singleton_append]

/-- Whatever a client has sent before, its next request bears a number that no earlier one had, and takes the
first message with that number among those that arrived and were not looked at. That is the first response to
it unless a message with its number that is none arrives before. -/
theorem request_matched (program : Program τ) (patience : Duration) (calls : List Exchange) (method : String)
    (params : Json) :
    let s := (launch program patience).exchanges calls
    let t := (s.request method params).2
    let id := calls.countP Exchange.isRequest + 1
    t.program = program ∧ t.lastId = id ∧
      (s.phase = .exited ∧ (s.request method params).1 = .error .unwritable ∨
        (t.received = s.received ++ [requestMessage id method params] ∨
          t.phase = .exited ∧ t.received = s.received) ∧
        ∃ seen waiting, Answered s t id method (s.request method params).1 seen waiting ∧
          (waiting.find? (Message.carries id) = waiting.find? (Message.answers id) ↔
            ∀ m ∈ waiting.find? (Message.carries id), Message.isResponse m = true)) := by
  intro s t id
  obtain ⟨⟨seen, hs⟩, hprogram, hcount⟩ := (tracked_launch program patience).exchanges calls
  obtain ⟨-, hprogram', hlastId, hrequest⟩ := hs.request method params
  have hid : s.lastId + 1 = id := by
    rw [hcount]
    change 0 + _ + 1 = _
    rw [Nat.zero_add]
  rw [hid] at hlastId hrequest
  refine ⟨hprogram'.trans hprogram, hlastId, ?_⟩
  refine hrequest.imp_right fun ⟨hreceived, waiting, hanswered⟩ => ⟨hreceived, seen, waiting, hanswered, ?_⟩
  exact Message.find?_answers _ _

def responseMessage (id : Nat) (result : Json) : Json :=
  .obj [("jsonrpc", .str "2.0"), ("id", .int id), ("result", result)]

def readFileTools : Json := .obj [("tools", .arr [.obj [("name", .str "read_file")]])]

def rootsAsked : Session (List (Option (List String))) :=
  (launch (.ofScript [
      some [(responseMessage 1 (.obj [])).compact],
      some [],
      some [(requestMessage 2 "roots/list" (.obj [])).compact, (responseMessage 2 readFileTools).compact]])
    (.ofSeconds 30)).exchanges [.request handshakeMethod handshakeParams, .notify "notifications/initialized"]

/-- The request of the server is taken for the answer to the client's, and the tools come out empty. -/
theorem roots_request_taken :
    let call := rootsAsked.request "tools/list" (pageParams none)
    ((call.2.arrived.filter (Message.carries 2)).map fun m =>
        (Message.isResponse m, (resultOf "tools/list" m).toOption.map Json.compact)) =
      [(false, some "null"), (true, some readFileTools.compact)] ∧
      call.1.toOption.map Json.compact = some "null" ∧
      (rootsAsked.tools 1).1.toOption.map List.length = some 0 := by
  decide +kernel

end Session

end ServiceCatalog
