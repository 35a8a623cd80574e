import ServiceCatalog.Proofs.Catalog.Answer
import ServiceCatalog.Proofs.Catalog.Reopen

namespace ServiceCatalog

namespace Catalog

inductive Question where
  | get (id : Uuid) (included : Include)
  | getNamed (qualifiedName : String) (included : Include)
  | list (q : ListQuery)
  | versions (id : Uuid)
  | version (id : Uuid) (v : Version)

inductive Request where
  | mutate (actor : Actor) (m : Mutation)
  | look (q : Question)

inductive Reply where
  | effect (outcome : Outcome Effect)
  | service (outcome : Outcome Service)
  | page (outcome : Outcome Page)
  | versions (outcome : Outcome VersionList)

inductive Event where
  | ask (r : Request)
  | reopen

def Request.Accepted : Request → Prop
  | mutate _ m => m.Accepted
  | look _ => True

def Reply.storageFault? : Reply → Option StorageFault
  | effect outcome => outcome.storageFault?
  | service _ | page _ | versions _ => none

def Event.request? : Event → Option Request
  | ask r => some r
  | reopen => none

def look (c : Catalog) : Question → Reply
  | .get id included => .service (c.get id included)
  | .getNamed qualifiedName included => .service (c.getNamed qualifiedName included)
  | .list q => .page (c.list q)
  | .versions id => .versions (c.versions id)
  | .version id v => .service (c.version id v)

section
variable {c d : Catalog} (hsettings : c.settings = d.settings) (hrecords : c.records = d.records)
include hsettings hrecords

theorem answer_congr (actor : Actor) (m : Mutation) : c.answer actor m = d.answer actor m := by
  rw [answer, answer, hsettings, hrecords]

theorem look_congr (q : Question) : c.look q = d.look q := by
  have hversions (id : Uuid) : c.versions id = d.versions id := by rw [versions, versions, hrecords]
  cases q with
  | get id included => rw [look, look, get, get, hrecords]
  | getNamed qualifiedName included => rw [look, look, getNamed, getNamed, hrecords]
  | list q => rw [look, look, list, list, hsettings, hrecords]
  | versions id => rw [look, look, hversions]
  | version id v => rw [look, look, version, version, hversions]

end

namespace State

def ask (s : State) : Request → State × Reply
  | .mutate actor m => ((s.step actor m).1, .effect (s.step actor m).2)
  | .look q => (s, s.catalog.look q)

def asked (s : State) : List Request → State × List Reply
  | [] => (s, [])
  | r :: requests =>
    let (t, replies) := (s.ask r).1.asked requests
    (t, (s.ask r).2 :: replies)

def reopen (s : State) : Outcome State :=
  match s.store.file with
  | none => .ok s
  | some file => (Store.open s.files file).map fun store => ⟨s.files, { s.catalog with store := store }⟩

def serve (s : State) : List Event → Outcome (State × List Reply)
  | [] => .ok (s, [])
  | .ask r :: events => do
    let (t, replies) ← (s.ask r).1.serve events
    return (t, (s.ask r).2 :: replies)
  | .reopen :: events => do (← s.reopen).serve events

/-- No write fails, and whenever the file is opened its document nests no deeper than the reader allows and its
numbers are read as they were. -/
def Undisturbed (s : State) : List Event → Prop
  | [] => True
  | .ask r :: events => (s.ask r).2.storageFault? = none ∧ (s.ask r).1.Undisturbed events
  | .reopen :: events =>
    (Document.depth s.records ≤ Json.nestingLimit ∧ Document.Restored s.records) ∧
      ∀ t ∈ s.reopen.toOption, t.Undisturbed events

structure Mirrors (file : Path) (memory s : State) : Prop where
  settings_eq : memory.catalog.settings = s.catalog.settings
  records_eq : memory.records = s.records
  memory : memory.store.file = none
  kept : Kept file s

variable {file : Path} {memory s : State} {actor : Actor} {m : Mutation}

theorem outcome_of_saves (hsaves : (s.step actor m).2.storageFault? = none) :
    (s.step actor m).2 = s.catalog.answer actor m := by
  apply (s.step_outcome actor m).resolve_right
  rintro ⟨fault, hfault⟩
  rw [hfault] at hsaves
  cases hsaves

theorem mirrors_step (h : Mirrors file memory s) (hm : m.Accepted)
    (hsaves : (s.step actor m).2.storageFault? = none) :
    (memory.step actor m).2 = (s.step actor m).2 ∧
      Mirrors file (memory.step actor m).1 (s.step actor m).1 := by
  have hanswer := outcome_of_saves hsaves
  have houtcome : (memory.step actor m).2 = (s.step actor m).2 := by
    rw [outcome_of_memory h.memory, hanswer]
    exact answer_congr h.settings_eq h.records_eq actor m
  have hrecords : (memory.step actor m).1.records = (s.step actor m).1.records := by
    have hmemory := memory.step_records actor m
    rw [houtcome, h.records_eq] at hmemory
    exact Except.ok.inj (hmemory.symm.trans (s.step_records actor m))
  refine ⟨houtcome, ?_, hrecords, ?_, kept_step h.kept hm hsaves⟩
  · rw [step_settings, step_settings, h.settings_eq]
  · exact (step_file memory actor m).trans h.memory

theorem mirrors_ask {r : Request} (h : Mirrors file memory s) (hr : r.Accepted)
    (hsaves : (s.ask r).2.storageFault? = none) :
    (memory.ask r).2 = (s.ask r).2 ∧ Mirrors file (memory.ask r).1 (s.ask r).1 := by
  cases r with
  | mutate actor m => exact (mirrors_step h hr hsaves).imp_left (congrArg Reply.effect)
  | look q => exact ⟨look_congr h.settings_eq h.records_eq q, h⟩

theorem Kept.reopen (h : Kept file s) (hdepth : Document.depth s.records ≤ Json.nestingLimit)
    (hfloats : Document.Restored s.records) : s.reopen = .ok s := by
  have hopened : Store.open s.files file = .ok s.store :=
    (h.opened hfloats).trans (if_neg fun hdeep => absurd hdeep.2 (Nat.not_lt.2 hdepth))
  rw [State.reopen, h.file_eq]
  dsimp only
  rw [hopened]
  rfl

theorem Kept.undisturbed_reopen {events : List Event} (h : Kept file s)
    (hdepth : Document.depth s.records ≤ Json.nestingLimit) (hfloats : Document.Restored s.records)
    (hundisturbed : s.Undisturbed events) : s.Undisturbed (.reopen :: events) := by
  refine ⟨⟨hdepth, hfloats⟩, ?_⟩
  rw [h.reopen hdepth hfloats]
  rintro t ⟨⟩
  exact hundisturbed

theorem mirrors_serve {events : List Event} (h : Mirrors file memory s)
    (haccepted : ∀ r, .ask r ∈ events → r.Accepted) (hundisturbed : s.Undisturbed events) :
    ∃ t, s.serve events = .ok (t, (memory.asked (events.filterMap Event.request?)).2) ∧
      Mirrors file (memory.asked (events.filterMap Event.request?)).1 t := by
  induction events generalizing s memory with
  | nil => exact ⟨s, rfl, h⟩
  | cons event events ih =>
    have haccepted' : ∀ r, .ask r ∈ events → r.Accepted := fun r hr => haccepted r (List.mem_cons_of_mem _ hr)
    cases event with
    | ask r =>
      obtain ⟨hsaves, hundisturbed⟩ := hundisturbed
      obtain ⟨hreply, hmirrors⟩ := mirrors_ask h (haccepted r List.mem_cons_self) hsaves
      obtain ⟨t, hserve, ht⟩ := ih hmirrors haccepted' hundisturbed
      refine ⟨t, ?_, ht⟩
      rw [serve, hserve]
      simp only [List.filterMap_cons, Event.request?, asked, hreply]
      rfl
    | reopen =>
      obtain ⟨⟨hdepth, hfloats⟩, hundisturbed⟩ := hundisturbed
      have hreopen : s.reopen = .ok s := h.kept.reopen hdepth hfloats
      rw [hreopen] at hundisturbed
      obtain ⟨t, hserve, ht⟩ := ih h haccepted' (hundisturbed s rfl)
      refine ⟨t, ?_, ht⟩
      rw [serve, hreopen]
      exact hserve

/-- Whoever asks a catalog cannot tell from its replies whether it is kept in a file and opened again in between, or
kept in memory. -/
theorem serve_eq_asked {files : Files} {file : Path} {events : List Event} (hmissing : files.find? file = none)
    (others : Files) (settings : Settings) (haccepted : ∀ r, .ask r ∈ events → r.Accepted)
    (hundisturbed : (start files settings (some file)).Undisturbed events) :
    let memory := (start others settings none).asked (events.filterMap Event.request?)
    Store.open files file = .ok (start files settings (some file)).store ∧
      ∃ t, (start files settings (some file)).serve events = .ok (t, memory.2) ∧ t.records = memory.1.records := by
  have hopen : Store.open files file = .ok (start files settings (some file)).store := by
    rw [Store.open, hmissing]
    rfl
  have hkept : Kept file (start files settings (some file)) := ⟨rfl, List.forall_mem_nil _, .inr hopen⟩
  have hmirrors : Mirrors file (start others settings none) (start files settings (some file)) :=
    ⟨rfl, rfl, rfl, hkept⟩
  obtain ⟨t, hserve, ht⟩ := mirrors_serve hmirrors haccepted hundisturbed
  exact ⟨hopen, t, hserve, ht.records_eq.symm⟩

def reopenedEvents : List Event :=
  [.ask (.mutate ⟨"ann", .manual, 1⟩ (.create (nestedRequest 3) ⟨1⟩)), .reopen,
    .ask (.mutate ⟨"ben", .manual, 2⟩ (.delete ⟨1⟩)), .reopen, .ask (.look (.versions ⟨1⟩))]

theorem serve_eq_asked_reopened :
    Files.find? (.empty []) catalogFile = none ∧ (∀ r, .ask r ∈ reopenedEvents → r.Accepted) ∧
      fresh.Undisturbed reopenedEvents ∧
      ∃ t, fresh.serve reopenedEvents =
        .ok (t, ((start (.empty []) ⟨.reject, 10⟩ none).asked (reopenedEvents.filterMap Event.request?)).2) := by
  have hmissing : Files.find? (.empty []) catalogFile = none := by rfl
  have haccepted : ∀ r, .ask r ∈ reopenedEvents → r.Accepted := by
    intro r hr
    simp only [reopenedEvents, List.mem_cons, Event.ask.injEq, reduceCtorEq, List.not_mem_nil, or_false,
      false_or] at hr
    rcases hr with rfl | rfl | rfl
    · exact accepted_nestedRequest 2
    · exact trivial
    · exact trivial
  have hsaves : fresh.Saves (nestedSteps 3) := by decide +kernel
  have hcreated : Kept catalogFile (fresh.run ((nestedSteps 3).take 1)) :=
    kept_step ⟨rfl, List.forall_mem_nil _, .inr rfl⟩ (accepted_nestedRequest 2) hsaves.1
  have hdeleted : Kept catalogFile (fresh.run (nestedSteps 3)) := kept_step hcreated trivial hsaves.2.1
  have hundisturbed : fresh.Undisturbed reopenedEvents := by
    refine ⟨hsaves.1, hcreated.undisturbed_reopen (by decide +kernel) (by decide +kernel) ⟨hsaves.2.1, ?_⟩⟩
    exact hdeleted.undisturbed_reopen (by decide +kernel) (by decide +kernel) ⟨rfl, trivial⟩
  obtain ⟨-, t, hserve, -⟩ := serve_eq_asked hmissing (.empty []) ⟨.reject, 10⟩ haccepted hundisturbed
  exact ⟨hmissing, haccepted, hundisturbed, t, hserve⟩

def nullStep : Actor × Mutation := (⟨"ann", .manual, 1⟩, .create (nestedRequest 0) ⟨1⟩)

def nullEvents : List Event := [.ask (.mutate nullStep.1 nullStep.2), .reopen, .ask (.look (.get ⟨1⟩ .all))]

def deepenedSteps : List (Actor × Mutation) :=
  [(⟨"ann", .manual, 1⟩, .create (.ofConnection "probe" (.ofLaunch (.ofCommand "run"))) ⟨1⟩),
    (⟨"ann", .manual, 1⟩, .update ⟨1⟩ { Patch.empty with availableTools := .set [nestedTool 120] } none)]

def deepenedEvents : List Event :=
  deepenedSteps.map (fun step => .ask (.mutate step.1 step.2)) ++ [.reopen, .ask (.look (.get ⟨1⟩ .all))]

def toldSchemas : Reply → List Bool
  | .service (.ok s) => s.toolList.map (·.inputSchema.isSome)
  | _ => []

theorem reopen_text {s : State} {file : Path} {text : String} (hfile : s.store.file = some file)
    (htext : s.files.text? file = some text) :
    s.reopen = (Document.readRecords text).map fun r => ⟨s.files, { s.catalog with store := ⟨r, some file⟩ }⟩ := by
  rw [reopen, hfile]
  dsimp only
  rw [Store.open, Files.find?_of_text? htext, Files.read_of_text? htext]
  simp only [Option.isNone_some, Bool.false_eq_true, if_false]
  cases Document.readRecords text <;> rfl

theorem serve_mutations_error {s : State} {steps : List (Actor × Mutation)} {events : List Event} {e : CatalogError}
    (h : (s.run steps).serve events = .error e) :
    s.serve (steps.map (fun step => .ask (.mutate step.1 step.2)) ++ events) = .error e := by
  induction steps generalizing s with
  | nil => exact h
  | cons step steps ih =>
    have hrest := ih h
    simp only [List.map_cons, List.cons_append, serve]
    rw [State.ask, hrest]
    rfl

theorem serve_reopened {s : State} {file : Path} {step : Actor × Mutation} {q : Question}
    (hfile : s.store.file = some file)
    (hwrite : (s.step step.1 step.2).2.toOption.bind Effect.write? ≠ none) :
    (s.serve [.ask (.mutate step.1 step.2), .reopen, .ask (.look q)]).toOption.map (fun r => r.2.map toldSchemas) =
      (Document.readRecords (s.step step.1 step.2).1.records.text).toOption.map fun r =>
        [[], toldSchemas ({ (s.step step.1 step.2).1.catalog with store := ⟨r, some file⟩ }.look q)] := by
  have htext := text?_of_write hfile hwrite
  generalize hafter : (s.step step.1 step.2).1 = after at htext ⊢
  have hfile' : after.store.file = some file := by rw [← hafter, step_file, hfile]
  simp only [serve, State.ask, hafter, reopen_text hfile' htext]
  cases Document.readRecords after.records.text <;> rfl

theorem null_not_mirrored :
    fresh.Undisturbed nullEvents ∧ ∃ t replies, fresh.serve nullEvents = .ok (t, replies) ∧
      replies ≠ ((start (.empty []) ⟨.reject, 10⟩ none).asked (nullEvents.filterMap Event.request?)).2 := by
  have hsaves : fresh.Saves [nullStep] := by decide +kernel
  have hdepth : Document.depth (fresh.step nullStep.1 nullStep.2).1.records ≤ Json.nestingLimit := by decide +kernel
  have hfloats : Document.Restored (fresh.step nullStep.1 nullStep.2).1.records := by decide +kernel
  have hundisturbed : fresh.Undisturbed nullEvents := ⟨hsaves.1, ⟨hdepth, hfloats⟩, fun t _ => ⟨rfl, trivial⟩⟩
  have hwrite : (fresh.step nullStep.1 nullStep.2).2.toOption.bind Effect.write? ≠ none := by
    rw [← Option.isSome_iff_ne_none]
    decide +kernel
  have hfile : (fresh.serve nullEvents).toOption.map (fun r => r.2.map toldSchemas) = some [[], [false]] := by
    rw [nullEvents, serve_reopened rfl hwrite, Document.readRecords, Records.text, Wire.decodeText?_prettyText]
    decide +kernel
  have hmemory : ((start (.empty []) ⟨.reject, 10⟩ none).asked (nullEvents.filterMap Event.request?)).2.map
      toldSchemas = [[], [true]] := by decide +kernel
  refine ⟨hundisturbed, ?_⟩
  generalize fresh.serve nullEvents = served at hfile ⊢
  cases served with
  | error e => cases hfile
  | ok served =>
    refine ⟨served.1, served.2, rfl, fun hsame => ?_⟩
    rw [← hsame] at hmemory
    exact absurd (hmemory.symm.trans (Option.some.inj hfile)) (by decide)

/-- A schema that is there and null is gone once the file is opened again, and a file that nests too deep, by the
record of a change to the tools, is not opened at all. -/
theorem reopened_not_mirrored :
    (fresh.Undisturbed nullEvents ∧ ∃ t replies, fresh.serve nullEvents = .ok (t, replies) ∧
      replies ≠ ((start (.empty []) ⟨.reject, 10⟩ none).asked (nullEvents.filterMap Event.request?)).2) ∧
    fresh.Saves deepenedSteps ∧ fresh.serve deepenedEvents = .error .malformed := by
  have hpatch : Patch.Sound { Patch.empty with availableTools := .set [nestedTool 120] } := by
    refine Patch.sound_of nofun ?_
    rintro l ⟨⟩
    exact present_nestedTools 119
  have hrequest : (Registration.ofConnection "probe" (.ofLaunch (.ofCommand "run"))).Sound := by
    refine ⟨?_, nofun⟩
    rintro c ⟨⟩
    exact Connection.present_ofLaunch _
  have hsteps : ∀ step ∈ deepenedSteps, step.2.Accepted :=
    List.forall_mem_cons.2 ⟨hrequest.present.accepted, List.forall_mem_singleton.2 hpatch.present.accepted⟩
  have hsaves : fresh.Saves deepenedSteps := by decide +kernel
  have hkept : Kept catalogFile (fresh.run deepenedSteps) :=
    kept_run ⟨rfl, List.forall_mem_nil _, .inr rfl⟩ hsteps hsaves
  have hfloats : Document.Restored (fresh.run deepenedSteps).records := by decide +kernel
  have hdeep : ¬ Document.depth (fresh.run deepenedSteps).records ≤ Json.nestingLimit := by decide +kernel
  have hopen : Document.readRecords (fresh.run deepenedSteps).records.text = .error .malformed :=
    (Document.readRecords_text hkept.sound hfloats).trans (if_neg hdeep)
  refine ⟨null_not_mirrored, hsaves, serve_mutations_error ?_⟩
  have hwrite : ((fresh.run (deepenedSteps.take 1)).step ⟨"ann", .manual, 1⟩ (.update ⟨1⟩
      { Patch.empty with availableTools := .set [nestedTool 120] } none)).2.toOption.bind Effect.write? ≠ none := by
    rw [← Option.isSome_iff_ne_none]
    decide +kernel
  have htext : (fresh.run deepenedSteps).files.text? catalogFile = some (fresh.run deepenedSteps).records.text :=
    text?_of_write (run_file fresh (deepenedSteps.take 1)) hwrite
  rw [serve, reopen_text hkept.file_eq htext, hopen]
  rfl

end State

end Catalog

end ServiceCatalog
