import Mathlib.Algebra.Group.Nat.Defs
import ServiceCatalog.Proofs.Json.Layout
import ServiceCatalog.Proofs.Server.Paging
import ServiceCatalog.Proofs.Wire.Value

namespace ServiceCatalog

namespace Json

theorem ne_newline_of_escape (c : Char) : ∀ d ∈ escape c, d ≠ '\n' := by
  have hhex : ∀ n < 16, hexDigit n ≠ '\n' := by decide
  unfold escape
  split
  case h_8 hnewline _ _ =>
    split
    · next hc =>
      have hhigh := hhex (c.toNat / 16) (by omega)
      have hlow := hhex (c.toNat % 16) (by omega)
      simp only [List.forall_mem_cons]
      exact ⟨by decide, by decide, by decide, by decide, hhigh, hlow, List.forall_mem_nil _⟩
    · rw [List.forall_mem_singleton]
      exact hnewline
  all_goals simp

theorem ne_newline_of_quote (s : String) : ∀ c ∈ quote s, c ≠ '\n' := by
  rw [quote, List.forall_mem_cons, List.forall_mem_append, List.forall_mem_singleton]
  refine ⟨by decide, ?_, by decide⟩
  intro c hc
  obtain ⟨d, -, hd⟩ := List.mem_flatMap.1 hc
  exact ne_newline_of_escape d c hd

end Json

namespace Message

theorem splitLines_line {cs : List Char} (h : ∀ c ∈ cs, c ≠ '\n') : splitLines (cs ++ ['\n']) = ([cs], []) := by
  induction cs with
  | nil => rfl
  | cons c cs ih =>
    obtain ⟨hc, hcs⟩ := List.forall_mem_cons.1 h
    rw [List.cons_append, splitLines.eq_3 c _ hc, ih hcs]

end Message

namespace Session

open Json

def cursorMessage (n : Nat) (next : String) : Json := responseMessage n (.obj [("nextCursor", .str next)])

theorem compactChars_cursorMessage (n : Nat) (next : String) :
    (cursorMessage n next).compactChars = '{' :: (quote "jsonrpc" ++ ':' :: (quote "2.0" ++
      ',' :: (quote "id" ++ ':' :: (Digits.ofInt n ++ ',' :: (quote "result" ++ ':' ::
        '{' :: (quote "nextCursor" ++ ':' :: (quote next ++ ['}', '}']))))))) := by
  simp only [cursorMessage, responseMessage, compactChars, compactFields, List.cons_append, List.append_assoc,
    List.nil_append]

theorem read?_cursorMessage {n : Nat} (hn : n < 2 ^ 64) (next : String) :
    read? (cursorMessage n next).compact = some (cursorMessage n next) := by
  have hread (fuel : Nat) : readValue (fuel + 10) nestingLimit (cursorMessage n next).compactChars =
      some (cursorMessage n next, []) := by
    have hid : Literal.InRange n := ⟨by omega, by omega⟩
    -- The reader takes the fields one by one; the last is an object of its own.
    rw [compactChars_cursorMessage]
    apply readValue_obj
    apply readFields_cons (readField_quote (readValue_quote _ _ _ _))
    apply readMoreFields_cons (readField_quote (readValue_int hid (closes_cons (.inl rfl) _) _ _))
    apply readMoreFields_cons (readField_quote (readValue_obj ?_)) (readMoreFields_nil _ _ _)
    exact readFields_cons (readField_quote (readValue_quote _ _ _ _)) (readMoreFields_nil _ _ _)
  have hfuel : ∃ fuel, 3 * (cursorMessage n next).compactChars.length + 3 = fuel + 10 := by
    refine ⟨3 * (cursorMessage n next).compactChars.length - 7, ?_⟩
    simp only [compactChars_cursorMessage, List.length_cons, List.length_append]
    omega
  obtain ⟨fuel, hfuel⟩ := hfuel
  simp only [read?, compact, readAll, readFront, String.toList_ofList, hfuel, hread]
  rfl

theorem ofLine?_cursorMessage {n : Nat} (hn : n < 2 ^ 64) (next : String) :
    Message.ofLine? (cursorMessage n next).compactChars = some (.ofTree (cursorMessage n next)) := by
  have hblank : (cursorMessage n next).compactChars.all isBlank = false := by
    rw [compactChars_cursorMessage]
    rfl
  have hread : Value.read? (cursorMessage n next).compact = some (.ofTree (cursorMessage n next)) := by
    rw [Value.read?, read?_cursorMessage hn]
    rfl
  rw [Message.ofLine?, hblank]
  exact hread

theorem ne_newline_of_cursorMessage (n : Nat) (next : String) :
    ∀ c ∈ (cursorMessage n next).compactChars, c ≠ '\n' := by
  have hdigits : ∀ c ∈ Digits.ofInt n, c ≠ '\n' := by
    rintro c hc rfl
    rw [Digits.ofInt, if_neg (by omega)] at hc
    exact absurd (Digits.isDigit_of_mem_ofNat hc) (by decide)
  have hquote := ne_newline_of_quote
  simp only [compactChars_cursorMessage, List.forall_mem_cons, List.forall_mem_append]
  exact ⟨by decide, hquote _, by decide, hquote _, by decide, hquote _, by decide, hdigits, by decide, hquote _,
    by decide, by decide, hquote _, by decide, hquote _, by decide, by decide, List.forall_mem_nil _⟩

def handing (next : Nat → String) : Program Nat where
  start := ("", some 1)
  step n _ := ((cursorMessage n (next n)).compact ++ "\n", some (n + 1))

structure Poised (next : Nat → String) (n : Nat) (s : Session Nat) : Prop where
  program : s.program = handing next
  phase : s.phase = .running (n + 1) ∨ n = 0 ∧ s.phase = .launched
  lastId : s.lastId = n
  inbox : s.inbox = []
  unfinished : s.unfinished = []

theorem field?_cursorMessage (n : Nat) (next k : String) :
    (Value.ofTree (cursorMessage n next)).tree.field? k = ((cursorMessage n next).field? k).map normalize := by
  apply field?_normalize
  change ["jsonrpc", "id", "result"].Nodup
  decide

theorem id?_cursorMessage (n : Nat) (next : String) :
    Message.id? (.ofTree (cursorMessage n next)) = some n := by
  have hfield : (Value.ofTree (cursorMessage n next)).tree.field? "id" = some (.int n) := by
    rw [field?_cursorMessage]
    rfl
  rw [Message.id?, hfield]
  exact if_pos (Int.natCast_nonneg n)

theorem resultOf_cursorMessage (n : Nat) (next : String) (method : String) :
    resultOf method (.ofTree (cursorMessage n next)) = .ok (.obj [("nextCursor", .str next)]) := by
  have herror : (Value.ofTree (cursorMessage n next)).tree.field? "error" = none := by
    rw [field?_cursorMessage]
    rfl
  have hresult : (Value.ofTree (cursorMessage n next)).tree.field? "result" =
      some (.obj [("nextCursor", .str next)]) := by
    rw [field?_cursorMessage]
    rfl
  rw [resultOf, refusal?, herror, hresult]
  rfl

theorem splitLines_cursorMessage (n : Nat) (next : String) :
    Message.splitLines ((cursorMessage n next).compact ++ "\n").toList =
      ([(cursorMessage n next).compactChars], []) := by
  rw [String.toList_append, compact, String.toList_ofList]
  exact Message.splitLines_line (ne_newline_of_cursorMessage n next)

variable {next : Nat → String} {n : Nat} {s : Session Nat}

theorem Poised.request (h : Poised next n s) (hn : n + 1 < 2 ^ 64) (method : String) (params : Json) :
    ∃ t, s.request method params = (.ok (.obj [("nextCursor", .str (next (n + 1)))]), t) ∧
      Poised next (n + 1) t := by
  cases s with
  | mk program phase inbox unfinished received lastId patience timedOut =>
  obtain ⟨hprogram, hphase, hlastId, hinbox, hunfinished⟩ := h
  dsimp only at hprogram hphase hlastId hinbox hunfinished
  subst hlastId hprogram hinbox hunfinished
  have hsend (message : Json) :
      send ⟨handing next, phase, [], [], received, lastId + 1, patience, timedOut⟩ message =
        .ok ⟨handing next, .running (lastId + 2), [.ofTree (cursorMessage (lastId + 1) (next (lastId + 1)))], [],
          received ++ [message], lastId + 1, patience, timedOut⟩ := by
    rcases hphase with rfl | ⟨rfl, rfl⟩
    · simp only [send, deliver, absorb, handing, List.nil_append, splitLines_cursorMessage,
        List.filterMap_cons, List.filterMap_nil, ofLine?_cursorMessage hn]
    · simp only [send, deliver, absorb, handing, String.toList_empty, List.nil_append, Message.splitLines,
        splitLines_cursorMessage, List.filterMap_cons, List.filterMap_nil, ofLine?_cursorMessage hn]
  have hfind : findAnswer (lastId + 1) [.ofTree (cursorMessage (lastId + 1) (next (lastId + 1)))] =
      some (.ofTree (cursorMessage (lastId + 1) (next (lastId + 1))), []) := by
    rw [findAnswer, if_pos (id?_cursorMessage _ _)]
  simp only [Session.request, hsend, await, hfind, resultOf_cursorMessage]
  exact ⟨_, rfl, rfl, .inl rfl, rfl, rfl, rfl⟩

variable {α : Type} [Wire α] {key : String}

theorem readPage_cursor (hkey : key ≠ "nextCursor") (next : String) :
    readPage (α := α) key (.obj [("nextCursor", .str next)]) = some ([], some next) := by
  have hitems : (Json.obj [("nextCursor", .str next)]).field? key = none := by
    simp [field?, hkey.symm]
  rw [readPage, hitems]
  rfl

theorem Poised.walk (method : String) (hkey : key ≠ "nextCursor") (hnext : ∀ n, next n ≠ next (n + 1))
    (pages : Nat) (h : Poised next n s) (hn : n + pages < 2 ^ 64) {cursor : Option String}
    (hcursor : cursor ≠ some (next (n + 1))) :
    ∃ last t, Walk α method key cursor s ((List.range' (n + 1) pages).map next) [] last t := by
  induction pages generalizing n s cursor with
  | zero => exact ⟨cursor, s, .stay cursor s⟩
  | succ pages ih =>
    obtain ⟨t, hrequest, ht⟩ := h.request (by omega) method (pageParams cursor)
    have hpage : s.page α method key cursor = (.ok ([], some (next (n + 1))), t) := by
      rw [page, hrequest]
      dsimp only
      rw [readPage_cursor hkey]
    have hother : some (next (n + 1)) ≠ some (next (n + 2)) := by
      intro he
      exact hnext (n + 1) (Option.some.inj he)
    obtain ⟨last, u, hwalk⟩ := ih ht (by omega) hother
    exact ⟨last, u, .turn hpage hcursor hwalk⟩

theorem handing_walk (α : Type) [Wire α] (method key : String) (hkey : key ≠ "nextCursor")
    (hnext : ∀ n, next n ≠ next (n + 1)) (patience : Duration) {pages : Nat} (hpages : pages < 2 ^ 64) :
    ∃ last t, Walk α method key none (launch (handing next) patience) ((List.range' 1 pages).map next) [] last t := by
  have hlaunch : Poised next 0 (launch (handing next) patience) := ⟨rfl, .inr ⟨rfl, rfl⟩, rfl, rfl, rfl⟩
  exact hlaunch.walk method hkey hnext pages (by omega) nofun

theorem alternating_endless (patience : Duration) {pages : Nat} (hpages : pages < 2 ^ 64) :
    ((launch (handing fun n => if n % 2 = 0 then "b" else "a") patience).tools pages).1 =
      .error (.endless "tools/list") := by
  have hnext (n : Nat) : (if n % 2 = 0 then "b" else "a") ≠ if (n + 1) % 2 = 0 then "b" else "a" := by
    split
    · rw [if_neg (by omega)]
      decide
    · rw [if_pos (by omega)]
      decide
  obtain ⟨last, t, hwalk⟩ := handing_walk Tool "tools/list" "tools" (by decide) hnext patience hpages
  have hlength : ((List.range' 1 pages).map fun n => if n % 2 = 0 then "b" else "a").length = pages := by
    rw [List.length_map, List.length_range']
  exact (collect_endless_iff pages none _).2 ⟨_, [], last, t, hwalk, hlength⟩

end Session

end ServiceCatalog
