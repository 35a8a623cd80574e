import ServiceCatalog.Proofs.Server.Matching
import ServiceCatalog.Proofs.Wire.Request

namespace ServiceCatalog

open Wire

theorem Json.ranged_of_field? {j k : Json} {name : String} (hj : j.Ranged) (h : j.field? name = some k) :
    k.Ranged := by
  cases j with
  | obj fields =>
    obtain ⟨f, hf, rfl⟩ := Option.map_eq_some_iff.1 h
    exact hj.part (.field (List.mem_of_find?_eq_some hf) .self)
  | null | bool | int | float | str | arr | illegible => cases h

namespace Session

variable {τ : Type}

theorem ranged_of_ofLine? {line : List Char} {v : Value} (h : Message.ofLine? line = some v) : v.tree.Ranged := by
  unfold Message.ofLine? at h
  split at h
  · cases h
  · obtain ⟨j, hj, h⟩ := Option.bind_eq_some_iff.1 h
    split at h
    · cases h
      exact (Json.ranged_of_read? hj).normalize
    · cases h

def Heard (s : Session τ) : Prop := ∀ v ∈ s.inbox, v.tree.Ranged

theorem Heard.absorb {s : Session τ} (h : s.Heard) (printed : String × Option τ) : (s.absorb printed).Heard := by
  have hlines (lines : List (List Char)) : ∀ v ∈ lines.filterMap Message.ofLine?, v.tree.Ranged := by
    intro v hv
    obtain ⟨line, -, hline⟩ := List.mem_filterMap.1 hv
    exact ranged_of_ofLine? hline
  unfold Session.absorb
  dsimp only
  split
  · exact List.forall_mem_append.2 ⟨h, hlines _⟩
  · exact List.forall_mem_append.2 ⟨h, hlines _⟩

theorem Heard.deliver {s : Session τ} (h : s.Heard) (state : τ) (message : Json) :
    (s.deliver state message).Heard :=
  Heard.absorb (s := { s with received := s.received ++ [message] }) h _

theorem Heard.send {s t : Session τ} (h : s.Heard) {message : Json} (hs : s.send message = .ok t) : t.Heard := by
  rcases send_cases hs with ⟨state, -, rfl⟩ | ⟨-, ⟨state, -, rfl⟩ | ⟨-, rfl⟩⟩
  · exact h.deliver _ _
  · exact (h.absorb _).deliver _ _
  · exact h.absorb _

theorem ranged_of_resultOf {method : String} {answer : Value} {j : Json} (h : answer.tree.Ranged)
    (hj : resultOf method answer = .ok j) : j.Ranged := by
  unfold resultOf at hj
  split at hj
  · cases hj
  · cases hj
    cases hfield : answer.tree.field? "result" with
    | none => exact Json.ranged_null
    | some k => exact Json.ranged_of_field? h hfield

theorem Heard.request {s : Session τ} (h : s.Heard) (method : String) (params : Json) :
    (s.request method params).2.Heard ∧ ∀ j, (s.request method params).1 = .ok j → j.Ranged := by
  have hnumbered : { s with lastId := s.lastId + 1 }.Heard := h
  rcases request_cases s method params with ⟨-, hrequest⟩ | ⟨u, timedOut, hsend, hrequest⟩
  · rw [hrequest]
    exact ⟨hnumbered, nofun⟩
  · have hu := hnumbered.send hsend
    rw [hrequest]
    constructor
    · intro v hv
      apply hu
      exact (List.dropWhile_sublist _).subset (List.mem_of_mem_tail hv)
    · intro j hj
      dsimp only at hj
      unfold outcome at hj
      split at hj
      · next answer hfind => exact ranged_of_resultOf (hu answer (List.mem_of_find?_eq_some hfind)) hj
      · split at hj <;> cases hj

theorem Heard.handshake {s : Session τ} (h : s.Heard) : s.handshake.2.Heard := by
  have hrequest := (h.request handshakeMethod handshakeParams).1
  unfold Session.handshake
  split
  · next hs =>
    rw [hs] at hrequest
    exact hrequest
  · next hs =>
    rw [hs] at hrequest
    split
    · exact hrequest
    · split
      · exact hrequest
      · next ht => exact hrequest.send ht

variable {α : Type}

theorem told_eq_ok {ω : Type} {call : Session τ → Except SessionFault α × Session τ} {s : Session τ} {w : ω} {a : α}
    {t : Session τ × ω} (h : told call (s, w) = (.ok a, t)) : call s = (.ok a, t.1) := by
  unfold told at h
  dsimp only at h
  split at h
  · next hcall =>
    cases h
    exact hcall
  · cases h

variable [Wire α]

theorem accepted_of_readPage {key : String} {result : Json} {items : List α} {cursor : Option String}
    (h : result.Ranged) (hpage : readPage key result = some (items, cursor)) : ∀ a ∈ items, Accepted a := by
  obtain ⟨l, hl, he⟩ := Option.bind_eq_some_iff.1 hpage
  cases he
  have hranged : ((result.field? key).getD (.arr [])).Ranged := by
    cases hfield : result.field? key with
    | none => exact Json.ranged_arr (List.forall_mem_nil _)
    | some j => exact Json.ranged_of_field? h hfield
  exact mem_of_decode hranged hl

theorem Heard.collect {method key : String} {pages : Nat} :
    ∀ {cursor : Option String} {s t : Session τ} {items : List α}, s.Heard →
      s.collect method key pages cursor = (.ok items, t) → ∀ a ∈ items, Accepted a := by
  induction pages with
  | zero =>
    intro cursor s t items h hs
    cases hs
  | succ pages ih =>
    intro cursor s t items h hs
    obtain ⟨hnext, hranged⟩ := h.request method (pageParams cursor)
    rw [Session.collect] at hs
    split at hs
    · cases hs
    · next result s' hrequest =>
      rw [hrequest] at hnext hranged
      split at hs
      · cases hs
      · next hpage =>
        cases hs
        exact accepted_of_readPage (hranged _ rfl) hpage
      · next page next hpage =>
        split at hs
        · cases hs
        · split at hs
          · cases hs
          · next more s'' hmore =>
            cases hs
            exact List.forall_mem_append.2
              ⟨accepted_of_readPage (hranged _ rfl) hpage, ih hnext hmore⟩

theorem accepted_discovered {ω : Type} {start : LaunchConfig → Except FileFault (Program τ)} {patience : Duration}
    {pages : Nat} {launch : LaunchConfig} {w : ω} {found : Discovered}
    (h : ((connector start patience pages).discover launch w).1.discovered = some found) :
    ∀ l ∈ found.tools, ∀ t ∈ l, Accepted t := by
  unfold Connector.discover at h
  split at h
  · cases h
  · next s w hconnect =>
    have hs : s.Heard := by
      unfold connector at hconnect
      dsimp only at hconnect
      split at hconnect
      · cases hconnect
        exact List.forall_mem_nil _
      · cases hconnect
    split at h
    · cases h
    · next info t hhandshake =>
      have ht : t.1.Heard := by
        have hheard := hs.handshake
        rwa [told_eq_ok hhandshake] at hheard
      have htools : found.tools
          = (Connector.takeList info .tools (connector start patience pages).tools t).2.1 :=
        (congrArg Discovered.tools (Option.some.inj h)).symm
      intro l hl
      rw [htools, Connector.takeList] at hl
      split at hl
      · split at hl
        · next items t' htools =>
          cases hl
          exact ht.collect (told_eq_ok htools)
        · cases hl
      · cases hl
        exact List.forall_mem_nil _

end Session

end ServiceCatalog
