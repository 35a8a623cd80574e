import ServiceCatalog.Proofs.Catalog.Run
import ServiceCatalog.Proofs.Server.Session
import ServiceCatalog.Proofs.Service.Sound
import ServiceCatalog.Proofs.Store.Document

/-!
Reopening: the file that a run leaves behind is opened as the records of its catalog, unless they nest too
deep. Requests that were read do not nest too deep, but their document stands around them.
-/

namespace ServiceCatalog

open Wire

namespace Mutation

def Accepted : Mutation → Prop
  | create request _ | put request _ => Wire.Accepted request
  | update _ patch _ => Wire.Accepted patch
  | discover _ probe => ∀ launch found, (probe launch).discovered = some found →
      ∀ l ∈ found.tools, ∀ t ∈ l, Wire.Accepted t
  | _ => True

theorem accepted_session {ω τ : Type} (start : LaunchConfig → Except FileFault (Program τ)) (patience : Duration)
    (pages : Nat) (w : ω) (id : Uuid) :
    Accepted (.discover id fun launch => ((Session.connector start patience pages).discover launch w).1) :=
  fun _ _ hfound => Session.accepted_discovered hfound

theorem Accepted.asks_sound {m : Mutation} (h : m.Accepted) {p : Patch} (hp : m.asks p) : p.Sound := by
  cases m with
  | put request id =>
    cases hp
    exact (Registration.sound_of_accepted h).patch
  | update id patch base =>
    cases hp
    exact Patch.sound_of_accepted h
  | discover id probe =>
    obtain ⟨launch, found, hfound, rfl⟩ := hp
    exact Discovered.sound_patch (h launch found hfound)
  | selectTags | setTier =>
    obtain ⟨tags, rfl⟩ := hp
    exact Patch.sound_patchTags tags
  | create | delete | restore | remove | follow | unfollow | recordTest | test => exact hp.elim

end Mutation

def Outcome.storageFault? {α : Type} : Outcome α → Option StorageFault
  | .error (.storage fault) => some fault
  | _ => none

namespace Catalog.State

def Saves : State → List (Actor × Mutation) → Prop
  | _, [] => True
  | s, step :: steps => (s.step step.1 step.2).2.storageFault? = none ∧ Saves (s.step step.1 step.2).1 steps

instance decidableSaves : ∀ (s : State) (steps : List (Actor × Mutation)), Decidable (s.Saves steps)
  | _, [] => isTrue trivial
  | s, step :: steps =>
    have := decidableSaves (s.step step.1 step.2).1 steps
    inferInstanceAs (Decidable (_ ∧ _))

structure Kept (file : Path) (s : State) : Prop where
  file_eq : s.store.file = some file
  sound : s.records.Sound
  written : s.document? = some s.records.text ∨ Store.open s.files file = .ok s.store

theorem records_sound {s : State} {actor : Actor} {m : Mutation} (hs : s.records.Sound) (hm : m.Accepted) :
    (s.step actor m).1.records.Sound := by
  intro x hx
  rcases record_cases hx with
    hx | ⟨request, id, hrequest, -, rfl⟩ | ⟨y, hy, t, change, next, log, rfl, hrevised⟩
  · exact hs x hx
  · have hrequest : Wire.Accepted request := by
      rcases hrequest with rfl | rfl <;> exact hm
    exact List.forall_mem_singleton.2 ((Registration.sound_of_accepted hrequest).service id actor)
  · have hy := hs y hy
    have hcurrent := hy y.current y.current_mem_states
    exact List.forall_mem_append.2 ⟨hy, List.forall_mem_singleton.2
      (hrevised.sound (fun p => hm.asks_sound) hcurrent)⟩

theorem text?_of_write {file : Path} {s : State} {actor : Actor} {m : Mutation} (hfile : s.store.file = some file)
    (hwrite : (s.step actor m).2.toOption.bind Effect.write? ≠ none) :
    (s.step actor m).1.files.text? file = some (s.step actor m).1.records.text := by
  rcases step_cases s actor m with ⟨e, he, -, -, -⟩ | ⟨effect, hok, -, ⟨hnone, -⟩ | ⟨w, hw⟩⟩
  · rw [he] at hwrite
    exact absurd rfl hwrite
  · rw [hok] at hwrite
    exact absurd hnone hwrite
  · exact hw.text? hfile

theorem kept_step {file : Path} {s : State} {actor : Actor} {m : Mutation} (hs : Kept file s)
    (hm : m.Accepted) (hsaves : (s.step actor m).2.storageFault? = none) :
    Kept file (s.step actor m).1 := by
  have hsound : (s.step actor m).1.records.Sound := records_sound hs.sound hm
  rcases step_cases s actor m with ⟨e, he, -, -, hsame⟩ | ⟨effect, -, -, ⟨-, hsame⟩ | ⟨w, hw⟩⟩
  · have hfault : ∀ fault, e ≠ .storage fault := by
      rintro fault rfl
      rw [he] at hsaves
      cases hsaves
    rwa [hsame hfault]
  · rwa [hsame]
  · have hfile : (s.step actor m).1.store.file = some file := hw.file_eq.trans hs.file_eq
    refine ⟨hfile, hsound, .inl ?_⟩
    rw [document?, Store.document?, hfile]
    exact hw.text? hs.file_eq

theorem kept_run {file : Path} {s : State} {steps : List (Actor × Mutation)} (hs : Kept file s)
    (hsteps : ∀ step ∈ steps, step.2.Accepted) (hsaves : s.Saves steps) : Kept file (s.run steps) := by
  induction steps generalizing s with
  | nil => exact hs
  | cons step steps ih =>
    obtain ⟨hstep, hsteps⟩ := List.forall_mem_cons.1 hsteps
    exact ih (kept_step hs hstep hsaves.1) hsteps hsaves.2

theorem Kept.opened {file : Path} {s : State} (hs : Kept file s) (hfloats : Document.Restored s.records) :
    Store.open s.files file =
      if s.document? = some s.records.text ∧ Json.nestingLimit < Document.depth s.records
      then .error .malformed else .ok s.store := by
  have hstore : s.store = ⟨s.records, some file⟩ := by rw [← hs.file_eq]; rfl
  by_cases htext : s.document? = some s.records.text
  · have hfile : s.files.text? file = some s.records.text := by
      rwa [document?, Store.document?, hs.file_eq] at htext
    rw [Store.open_text hfile hs.sound hfloats, hstore]
    by_cases hd : Document.depth s.records ≤ Json.nestingLimit
    · rw [if_pos hd, if_neg fun h => absurd h.2 (Nat.not_lt.2 hd)]
    · rw [if_neg hd, if_pos ⟨htext, Nat.not_le.1 hd⟩]
  · rw [if_neg fun h => htext h.1]
    exact hs.written.resolve_left htext

/-- Whether the file can be opened again after a run depends on the depth of its document alone. -/
theorem run_reopened {files : Files} {settings : Settings} {file : Path} {store : Store}
    {steps : List (Actor × Mutation)} (hopen : Store.open files file = .ok store)
    (hsteps : ∀ step ∈ steps, step.2.Accepted) (hsaves : Saves ⟨files, settings, store⟩ steps)
    (hfloats : Document.Restored (run ⟨files, settings, store⟩ steps).records) :
    let after := run ⟨files, settings, store⟩ steps
    Store.open after.files file =
      if after.document? = some after.records.text ∧ Json.nestingLimit < Document.depth after.records
      then .error .malformed else .ok after.store := by
  obtain ⟨hsound, hfile⟩ := Store.sound_of_open hopen
  have hstart : Kept file ⟨files, settings, store⟩ := ⟨hfile, hsound, .inr hopen⟩
  exact (kept_run hstart hsteps hsaves).opened hfloats

def nested : Nat → Json
  | 0 => .null
  | n + 1 => .arr [nested n]

def nestedTool (n : Nat) : Tool := { Tool.ofName "dig" with inputSchema := some (.ofTree (nested n)) }

def nestedRequest (n : Nat) : Registration :=
  { Registration.ofConnection "probe" (.ofLaunch (.ofCommand "run")) with availableTools := some [nestedTool n] }

theorem ranged_nested (n : Nat) : (nested n).Ranged := by
  induction n with
  | zero => exact Json.ranged_null
  | succ n ih => exact Json.ranged_arr (List.forall_mem_singleton.2 ih)

theorem present_nestedTools (n : Nat) : Present [nestedTool (n + 1)] := by
  have hschema : ∀ v ∈ some (Value.ofTree (nested (n + 1))), Present v := by
    rintro v ⟨⟩
    exact ⟨sincere_value (ranged_nested (n + 1)).normalize, nofun⟩
  have htool : Present (nestedTool (n + 1)) := Tool.present ⟨hschema, nofun, nofun⟩
  exact ⟨sincere_list (List.forall_mem_singleton.2 htool.toSincere), nofun⟩

theorem sound_nestedRequest (n : Nat) : (nestedRequest (n + 1)).Sound := by
  constructor
  · rintro c ⟨⟩
    exact Connection.present_ofLaunch _
  · rintro l ⟨⟩
    exact present_nestedTools n

theorem accepted_nestedRequest (n : Nat) : Wire.Accepted (nestedRequest (n + 1)) :=
  (sound_nestedRequest n).present.accepted

def catalogFile : Path := .ofText "/catalog.json"

def fresh : State := start (.empty []) ⟨.reject, 10⟩ (some catalogFile)

def nestedSteps (n : Nat) : List (Actor × Mutation) :=
  [(⟨"ann", .manual, 1⟩, .create (nestedRequest n) ⟨1⟩), (⟨"ben", .manual, 2⟩, .delete ⟨1⟩)]

theorem run_reopened_nested :
    Store.open fresh.files catalogFile = .ok fresh.store ∧ (∀ step ∈ nestedSteps 3, step.2.Accepted) ∧
      fresh.Saves (nestedSteps 3) ∧ Document.Restored (fresh.run (nestedSteps 3)).records ∧
      Store.open (fresh.run (nestedSteps 3)).files catalogFile = .ok (fresh.run (nestedSteps 3)).store := by
  have hopen : Store.open fresh.files catalogFile = .ok fresh.store := by rfl
  have hsteps : ∀ step ∈ nestedSteps 3, step.2.Accepted :=
    List.forall_mem_cons.2 ⟨accepted_nestedRequest 2, List.forall_mem_singleton.2 trivial⟩
  have hsaves : fresh.Saves (nestedSteps 3) := by decide +kernel
  have hfloats : Document.Restored (fresh.run (nestedSteps 3)).records := by decide +kernel
  have hdepth : ¬ Json.nestingLimit < Document.depth (fresh.run (nestedSteps 3)).records := by decide +kernel
  refine ⟨hopen, hsteps, hsaves, hfloats, ?_⟩
  exact (run_reopened hopen hsteps hsaves hfloats).trans (if_neg fun h => hdepth h.2)

/-- The request nests no deeper than the reader allows, the document around it does. -/
theorem nested_not_reopened :
    decodeText? (prettyText (nestedRequest 124)) = some (nestedRequest 124) ∧
      Store.open fresh.files catalogFile = .ok fresh.store ∧
      fresh.Saves ((nestedSteps 124).take 1) ∧
      Store.open (fresh.run ((nestedSteps 124).take 1)).files catalogFile = .error .malformed := by
  have hpresent := (sound_nestedRequest 123).present
  have hread : decodeText? (prettyText (nestedRequest 124)) = some (nestedRequest 124) := by
    have hfloats : ∀ x ∈ (encode (nestedRequest 124)).floats, x.Restored := by decide +kernel
    have hprintable : (encode (nestedRequest 124)).Printable :=
      ⟨hpresent.legible, hpresent.ranged, fun x hx => hfloats x (Json.part_float.1 hx)⟩
    have hdepth : (encode (nestedRequest 124)).depth ≤ Json.nestingLimit := by decide +kernel
    rw [decodeText?, prettyText, Json.read?_pretty hprintable, Option.bind_eq_bind, Option.bind_some,
      hpresent.decode_cut, if_pos hdepth]
  refine ⟨hread, by rfl, by decide +kernel, ?_⟩
  have hwrite : (fresh.step ⟨"ann", .manual, 1⟩ (.create (nestedRequest 124) ⟨1⟩)).2.toOption.bind
      Effect.write? ≠ none := by
    rw [← Option.isSome_iff_ne_none]
    decide +kernel
  have htext : (fresh.run ((nestedSteps 124).take 1)).files.text? catalogFile
      = some (fresh.run ((nestedSteps 124).take 1)).records.text := text?_of_write rfl hwrite
  have hrecords : (fresh.run ((nestedSteps 124).take 1)).records.Sound :=
    records_sound (List.forall_mem_nil _) (Wire.accepted_of_text hread)
  have hfloats : Document.Restored (fresh.run ((nestedSteps 124).take 1)).records := by decide +kernel
  have hdepth : ¬ Document.depth (fresh.run ((nestedSteps 124).take 1)).records ≤ Json.nestingLimit := by
    decide +kernel
  exact (Store.open_text htext hrecords hfloats).trans (if_neg hdepth)

end Catalog.State

end ServiceCatalog
