import ServiceCatalog.Server.Session

/-!
The messages that arrive are the lines of all that a program prints, in their order and however its output
is cut. What a session has not looked at yet is the rest of them.
-/

namespace ServiceCatalog

variable {τ : Type}

namespace Message

theorem splitLines_append (cs more : List Char) :
    splitLines (cs ++ more) = ((splitLines cs).1 ++ (splitLines ((splitLines cs).2 ++ more)).1,
      (splitLines ((splitLines cs).2 ++ more)).2) := by
  induction cs with
  | nil => rfl
  | cons c cs ih =>
    by_cases hc : c = '\n'
    · subst hc
      rw [List.cons_append, splitLines, ih, splitLines]
      rfl
    · have hstep (r : List Char) := splitLines.eq_3 c r hc
      rw [List.cons_append, hstep, hstep, ih]
      cases hcs : splitLines cs with
      | mk lines rest =>
        cases lines with
        | nil => rw [List.nil_append, List.cons_append, List.nil_append, hstep]
        | cons line lines => rfl

def incoming (printed : List Char × Option τ) : List Value :=
  match printed.2 with
  | some _ => (splitLines printed.1).1.filterMap ofLine?
  | none => ((splitLines printed.1).1 ++ [(splitLines printed.1).2]).filterMap ofLine?

end Message

namespace Program

def hear (p : Program τ) (printed : List Char × Option τ) (line : String) : List Char × Option τ :=
  match printed.2 with
  | some state => (printed.1 ++ (p.step state line).1.toList, (p.step state line).2)
  | none => printed

def talk (p : Program τ) (lines : List String) : List Char × Option τ :=
  lines.foldl p.hear (p.start.1.toList, p.start.2)

theorem talk_concat (p : Program τ) (lines : List String) (line : String) :
    p.talk (lines ++ [line]) = p.hear (p.talk lines) line := by
  simp only [talk, List.foldl_append, List.foldl_cons, List.foldl_nil]

end Program

namespace Session

variable {s t : Session τ} {seen : List Value} {message : Json} {id : Nat} {method : String}

def printed (s : Session τ) : List Char × Option τ := s.program.talk (s.received.map Json.compact)

def arrived (s : Session τ) : List Value :=
  match s.phase with
  | .launched => []
  | _ => Message.incoming s.printed

def TookIn (s : Session τ) (seen : List Value) (printed : List Char × Option τ) : Prop :=
  Message.incoming printed = seen ++ s.inbox ∧
    match printed.2 with
    | some state => s.phase = .running state ∧ s.unfinished = (Message.splitLines printed.1).2
    | none => s.phase = .exited

/-- A session that has looked at some of the messages that arrived, and no others are gone. -/
def Tracked (s : Session τ) (seen : List Value) : Prop :=
  match s.phase with
  | .launched => s.received = [] ∧ s.unfinished = [] ∧ seen ++ s.inbox = []
  | _ => s.TookIn seen s.printed

theorem tracked_launch (program : Program τ) (patience : Duration) : (launch program patience).Tracked [] :=
  ⟨rfl, rfl, rfl⟩

theorem tracked_of_tookIn (hphase : s.phase ≠ .launched) (h : s.TookIn seen s.printed) : s.Tracked seen := by
  unfold Tracked
  split
  · next hlaunched => exact absurd hlaunched hphase
  · exact h

theorem Tracked.arrived_eq (h : s.Tracked seen) : s.arrived = seen ++ s.inbox := by
  cases hphase : s.phase with
  | launched =>
    rw [Tracked, hphase] at h
    rw [arrived, hphase]
    exact h.2.2.symm
  | running | exited =>
    rw [Tracked, hphase] at h
    rw [arrived, hphase]
    exact h.1

theorem absorb_frame (s : Session τ) (printed : String × Option τ) :
    (s.absorb printed).phase ≠ .launched ∧ (s.absorb printed).program = s.program ∧
      (s.absorb printed).lastId = s.lastId ∧ (s.absorb printed).received = s.received := by
  unfold absorb
  dsimp only
  split <;> exact ⟨nofun, rfl, rfl, rfl⟩

theorem absorb_tookIn {text : List Char} (hunfinished : s.unfinished = (Message.splitLines text).2)
    (hseen : (Message.splitLines text).1.filterMap Message.ofLine? = seen ++ s.inbox)
    (printed : String × Option τ) : (s.absorb printed).TookIn seen (text ++ printed.1.toList, printed.2) := by
  -- The line that was unfinished goes on with the first of what is printed now.
  have hsplit := Message.splitLines_append text printed.1.toList
  rw [← hunfinished] at hsplit
  unfold absorb
  dsimp only
  split
  · next state hstate =>
    refine ⟨?_, by rw [hstate]; exact ⟨rfl, by rw [hsplit]⟩⟩
    simp only [Message.incoming, hstate, hsplit, List.filterMap_append, hseen, List.append_assoc]
  · next hstate =>
    refine ⟨?_, by rw [hstate]⟩
    simp only [Message.incoming, hstate, hsplit, List.filterMap_append, hseen, List.append_assoc]

theorem deliver_frame (s : Session τ) (state : τ) (message : Json) :
    (s.deliver state message).phase ≠ .launched ∧ (s.deliver state message).program = s.program ∧
      (s.deliver state message).lastId = s.lastId ∧ (s.deliver state message).received = s.received ++ [message] :=
  absorb_frame _ _

theorem TookIn.deliver {state : τ} (h : s.TookIn seen s.printed) (hstate : s.printed.2 = some state)
    (message : Json) : (s.deliver state message).TookIn seen (s.deliver state message).printed := by
  obtain ⟨hincoming, hphase⟩ := h
  rw [hstate] at hphase
  rw [Message.incoming, hstate] at hincoming
  have hprinted : (s.deliver state message).printed =
      (s.printed.1 ++ (s.program.step state message.compact).1.toList,
        (s.program.step state message.compact).2) := by
    obtain ⟨-, hprogram, -, hreceived⟩ := deliver_frame s state message
    rw [Session.printed, hprogram, hreceived, List.map_append, List.map_singleton, Program.talk_concat,
      Program.hear, ← Session.printed, hstate]
  rw [hprinted]
  exact absorb_tookIn (s := { s with received := s.received ++ [message] }) hphase.2 hincoming _

theorem Tracked.absorb_start (h : s.Tracked seen) (hphase : s.phase = .launched) :
    (s.absorb s.program.start).TookIn seen (s.absorb s.program.start).printed := by
  rw [Tracked, hphase] at h
  obtain ⟨hreceived, hunfinished, hseen⟩ := h
  have hprinted : (s.absorb s.program.start).printed = ([] ++ s.program.start.1.toList, s.program.start.2) := by
    obtain ⟨-, hprogram, -, hsame⟩ := absorb_frame s s.program.start
    rw [Session.printed, hprogram, hsame, hreceived]
    rfl
  rw [hprinted]
  refine absorb_tookIn ?_ ?_ _
  · exact hunfinished
  · exact hseen.symm

theorem TookIn.running {state : τ} {printed : List Char × Option τ} (h : s.TookIn seen printed)
    (hphase : s.phase = .running state) : printed.2 = some state := by
  have hstate := h.2
  split at hstate
  · next hprinted =>
    have hsame := hphase.symm.trans hstate.1
    cases hsame
    exact hprinted
  · rw [hphase] at hstate
    cases hstate

structure Written (s t : Session τ) (message : Json) : Prop where
  phase : t.phase ≠ .launched
  program : t.program = s.program
  lastId : t.lastId = s.lastId
  received : t.received = s.received ++ [message] ∨
    s.phase = .launched ∧ t.phase = .exited ∧ t.received = s.received

/-- A program that is running is given the message. One that is only launched prints first, and may exit. -/
theorem send_cases (h : s.send message = .ok t) :
    (∃ state, s.phase = .running state ∧ t = s.deliver state message) ∨
      s.phase = .launched ∧
        ((∃ state, (s.absorb s.program.start).phase = .running state ∧
            t = (s.absorb s.program.start).deliver state message) ∨
          (s.absorb s.program.start).phase = .exited ∧ t = s.absorb s.program.start) := by
  unfold Session.send at h
  split at h
  · cases h
  · next state hphase =>
    cases h
    exact .inl ⟨state, hphase, rfl⟩
  · next hphase =>
    dsimp only at h
    refine .inr ⟨hphase, ?_⟩
    split at h
    · next state hstate =>
      cases h
      exact .inl ⟨state, hstate, rfl⟩
    · next hstopped =>
      cases h
      refine .inr ⟨?_, rfl⟩
      cases hstate : (s.absorb s.program.start).phase with
      | launched => exact absurd hstate (absorb_frame s _).1
      | running state => exact absurd hstate (hstopped state)
      | exited => rfl

theorem written_of_send (h : s.send message = .ok t) : Written s t message := by
  obtain ⟨hlaunched, hprogram, hlastId, hreceived⟩ := absorb_frame s s.program.start
  rcases send_cases h with ⟨state, -, rfl⟩ | ⟨hphase, ⟨state, -, rfl⟩ | ⟨hexited, rfl⟩⟩
  · obtain ⟨hphase, hprogram, hlastId, hreceived⟩ := deliver_frame s state message
    exact ⟨hphase, hprogram, hlastId, .inl hreceived⟩
  · obtain ⟨hphase, hprogram', hlastId', hreceived'⟩ := deliver_frame (s.absorb s.program.start) state message
    rw [hreceived] at hreceived'
    exact ⟨hphase, hprogram'.trans hprogram, hlastId'.trans hlastId, .inl hreceived'⟩
  · exact ⟨hlaunched, hprogram, hlastId, .inr ⟨hphase, hexited, hreceived⟩⟩

theorem Tracked.send (h : s.Tracked seen) (hs : s.send message = .ok t) : t.Tracked seen := by
  apply tracked_of_tookIn (written_of_send hs).phase
  rcases send_cases hs with ⟨state, hphase, rfl⟩ | ⟨hphase, ⟨state, hstate, rfl⟩ | ⟨-, rfl⟩⟩
  · rw [Tracked, hphase] at h
    exact h.deliver (h.running hphase) message
  · have hstart := h.absorb_start hphase
    exact hstart.deliver (hstart.running hstate) message
  · exact h.absorb_start hphase

theorem send_error {e : SessionFault} (h : s.send message = .error e) : s.phase = .exited ∧ e = .unwritable := by
  unfold Session.send at h
  split at h
  · next hphase =>
    cases h
    exact ⟨hphase, rfl⟩
  · cases h
  · dsimp only at h
    split at h
    · cases h
    · cases h

end Session

end ServiceCatalog
