import ServiceCatalog.Proofs.Wire.Request
import ServiceCatalog.Service.Import

namespace ServiceCatalog

open Wire

theorem Wire.find?_decodeFields {α : Type} [Wire α] {fields : List (String × Json)} {l : List (String × α)}
    (h : decodeFields fields = some l) (k : String) :
    (l.reverse.find? (·.1 == k)).map some =
      (fields.reverse.find? (·.1 == k)).map fun p => (decode p.2).map (p.1, ·) := by
  induction fields generalizing l with
  | nil =>
    cases h
    rfl
  | cons p fields ih =>
    rw [decodeFields, List.mapM_cons] at h
    obtain ⟨q, hq, h⟩ := Option.bind_eq_some_iff.1 h
    obtain ⟨l, hl, h⟩ := Option.bind_eq_some_iff.1 h
    cases h
    obtain ⟨a, ha, rfl⟩ := Option.map_eq_some_iff.1 hq
    rw [List.reverse_cons, List.reverse_cons, List.find?_append, List.find?_append, Option.map_or, Option.map_or,
      ih hl, List.find?_singleton, List.find?_singleton]
    cases p.1 == k <;> simp [ha]

namespace ClientConfig

def serversTree? : Json → Option Json
  | .arr items => items.head?
  | tree => tree.field? "mcpServers"

def listing (tree : Json) : List (String × Json) :=
  match serversTree? tree with
  | some (.obj entries) => entries
  | _ => []

def entry? (tree : Json) (name : String) : Option Json := ((listing tree).reverse.find? (·.1 == name)).map (·.2)

theorem servers_of_decode {tree : Json} {c : ClientConfig} (h : decode tree = some c) :
    (serversTree? tree = none ∧ c.servers = .empty) ∨
      ∃ j, serversTree? tree = some j ∧ decode j = some c.servers := by
  have hrun (s t : Fields) (hc : (do return { servers := ← Fields.withDefault "mcpServers" .empty } :
      FieldReader ClientConfig) s = some (c, t)) : (s.first? "mcpServers" = none ∧ c.servers = .empty) ∨
        ∃ j, s.first? "mcpServers" = some j ∧ decode j = some c.servers := by
    obtain ⟨⟨d, t'⟩, hd, hc⟩ := Option.bind_eq_some_iff.1 hc
    cases hc
    exact Fields.withDefault_cases hd
  cases tree with
  | obj fields =>
    obtain ⟨⟨_, t⟩, hc, rfl⟩ := Option.map_eq_some_iff.1 h
    exact hrun _ t hc
  | arr items =>
    change readRecord _ (.arr items) = some c at h
    unfold readRecord at h
    dsimp only at h
    split at h
    · next hc =>
      cases h
      exact hrun _ _ hc
    · cases h
  | _ => cases h

theorem decodeFields_listing {tree : Json} {c : ClientConfig} (h : decode tree = some c) :
    ∃ l, decodeFields (listing tree) = some l ∧ c.servers = .ofList l := by
  rw [listing]
  obtain ⟨hnone, hempty⟩ | ⟨j, hj, hservers⟩ := servers_of_decode h
  · rw [hnone, hempty]
    exact ⟨[], rfl, rfl⟩
  · rw [hj]
    cases j with
    | obj fields =>
      obtain ⟨l, hl, he⟩ := Option.map_eq_some_iff.1 hservers
      exact ⟨l, hl, he.symm⟩
    | _ => cases hservers

theorem get?_servers {tree : Json} {c : ClientConfig} (h : decode tree = some c) (name : String) {s : ClientServer} :
    c.servers.get? name = some s ↔ ∃ j, entry? tree name = some j ∧ decode j = some s := by
  obtain ⟨l, hl, hservers⟩ := decodeFields_listing h
  have hfind := find?_decodeFields hl name
  rw [hservers, Dict.get?_ofList, entry?]
  cases hentry : (listing tree).reverse.find? (·.1 == name) with
  | none =>
    rw [hentry] at hfind
    simp [Option.map_eq_none_iff.1 hfind]
  | some p =>
    rw [hentry] at hfind
    obtain ⟨q, hq, hp⟩ := Option.map_eq_some_iff.1 hfind
    obtain ⟨a, ha, rfl⟩ := Option.map_eq_some_iff.1 hp.symm
    simp [hq, ha]

end ClientConfig

theorem ClientServer.registration?_eq_some {name : String} {s : ClientServer} {r : Registration} :
    s.registration? name = some r ↔
      ∃ command, s.command = some command ∧ isBlankText command = false ∧
        r = .ofConnection name (.ofLaunch ⟨command, s.args, s.env, s.cwd⟩) := by
  unfold registration?
  cases s.command with
  | none => simp
  | some command =>
    have hvalue : r = .ofConnection name (.ofLaunch ⟨command, s.args, s.env, s.cwd⟩) ↔
        .ofConnection name (.ofLaunch ⟨command, s.args, s.env, s.cwd⟩) = r := eq_comm
    cases hblank : isBlankText command <;> simp [Option.filter_some, hblank, hvalue]

namespace ClientConfig

theorem mem_registrations {c : ClientConfig} {r : Registration} :
    r ∈ c.registrations ↔ ∃ s, c.servers.get? r.name = some s ∧ s.registration? r.name = some r := by
  simp only [registrations, List.mem_filterMap, Prod.exists, Dict.get?_eq_some]
  constructor
  · rintro ⟨name, s, hmem, hr⟩
    obtain ⟨_, -, -, rfl⟩ := ClientServer.registration?_eq_some.1 hr
    exact ⟨s, hmem, hr⟩
  · rintro ⟨s, hmem, hr⟩
    exact ⟨r.name, s, hmem, hr⟩

theorem registrations_ascending (c : ClientConfig) : c.registrations.Pairwise fun r t => r.name < t.name := by
  apply List.pairwise_filterMap.2
  apply c.servers.ascending.imp
  rintro ⟨name, s⟩ ⟨name', s'⟩ hlt r hr r' hr'
  obtain ⟨_, -, -, rfl⟩ := ClientServer.registration?_eq_some.1 hr
  obtain ⟨_, -, -, rfl⟩ := ClientServer.registration?_eq_some.1 hr'
  exact hlt

theorem readRegistrations_eq_ok {text : String} {requests : List Registration} :
    readRegistrations text = .ok requests ↔
      ∃ tree, ∃ c : ClientConfig, Json.read? text = some tree ∧ decode tree = some c ∧ c.registrations = requests := by
  have hdecode : (decodeText? text : Option ClientConfig) = (Json.read? text).bind decode := rfl
  unfold readRegistrations
  rw [hdecode]
  cases Json.read? text with
  | none => simp
  | some tree => cases h : (decode tree : Option ClientConfig) <;> simp [h]

theorem mem_readRegistrations {text : String} {requests : List Registration}
    (h : readRegistrations text = .ok requests) :
    ∃ tree, Json.read? text = some tree ∧ ∀ r, r ∈ requests ↔
      ∃ j s command, entry? tree r.name = some j ∧ decode j = some (s : ClientServer) ∧ s.command = some command ∧
        isBlankText command = false ∧
        r = .ofConnection r.name (.ofLaunch ⟨command, s.args, s.env, s.cwd⟩) := by
  obtain ⟨tree, c, hread, hdecode, rfl⟩ := readRegistrations_eq_ok.1 h
  refine ⟨tree, hread, fun r => ?_⟩
  simp only [mem_registrations, get?_servers hdecode, ClientServer.registration?_eq_some]
  constructor
  · rintro ⟨s, ⟨j, hj, hs⟩, command, hcommand, hblank, hr⟩
    exact ⟨j, s, command, hj, hs, hcommand, hblank, hr⟩
  · rintro ⟨j, s, command, hj, hs, hcommand, hblank, hr⟩
    exact ⟨s, ⟨j, hj, hs⟩, command, hcommand, hblank, hr⟩

end ClientConfig

end ServiceCatalog
