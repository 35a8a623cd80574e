import Mathlib.Logic.Function.Basic
import ServiceCatalog.Proofs.Catalog.Answer
import ServiceCatalog.Proofs.Store.Document

/-!
Catalogs that share a file. Each works on the copy of the records that it read when it was opened, and its
writes put that copy in place of the document, whatever the others have written since.
-/

namespace ServiceCatalog

namespace Write

def state? : Write → Option Service
  | insert s | replace s _ => some s
  | remove _ => none

def gone? : Write → Option Uuid
  | remove id => some id
  | _ => none

end Write

namespace Records

def Holds (r : Records) (t : Service) : Prop := ∃ x, r.find? t.id = some x ∧ t ∈ x.states

theorem holds_put {r : Records} {x : ServiceRecord} {t : Service} :
    (r.put x).Holds t ↔ if t.id = x.id then t ∈ x.states else r.Holds t := by
  simp only [Holds, find?_put]
  by_cases h : t.id = x.id <;> simp [h]

theorem holds_write {r after : Records} {w : Write} (h : r.write w = .ok after) (t : Service) :
    after.Holds t ↔ w.state? = some t ∨ r.Holds t ∧ w.gone? ≠ some t.id := by
  cases w with
  | insert s =>
    obtain ⟨hnone, -, rfl⟩ := insert_eq_ok.1 h
    have hid : (ServiceRecord.ofService s).id = s.id := rfl
    have hstates : t ∈ (ServiceRecord.ofService s).states ↔ s = t := by
      simp [ServiceRecord.states, ServiceRecord.ofService, eq_comm]
    rw [holds_put, hid, hstates]
    by_cases ht : t.id = s.id
    · simp [ht, Holds, hnone, Write.state?]
    · have hne : s ≠ t := fun he => ht (he ▸ rfl)
      simp [ht, hne, Write.state?, Write.gone?]
  | replace s base =>
    obtain ⟨-, x, hx, -, rfl⟩ := replace_eq_ok.1 h
    have hid : (x.advance s).id = s.id := rfl
    have hstates : t ∈ (x.advance s).states ↔ t ∈ x.states ∨ s = t := by
      simp [ServiceRecord.states, ServiceRecord.advance, eq_comm, or_assoc]
    rw [holds_put, hid, hstates]
    by_cases ht : t.id = s.id
    · simp [ht, Holds, hx, Write.state?, Write.gone?, or_comm]
    · have hne : s ≠ t := fun he => ht (he ▸ rfl)
      simp [ht, hne, Write.state?, Write.gone?]
  | remove id =>
    obtain ⟨-, rfl⟩ := remove_eq_ok.1 h
    by_cases ht : t.id = id
    · simp [Holds, ht, Write.state?, Write.gone?]
    · simp [Holds, ht, Write.state?, Write.gone?, Ne.symm ht]

end Records

structure Sharing (ι : Type) where
  files : Files
  file : Path
  catalogs : ι → Catalog
  document : Records

namespace Sharing

inductive Event (ι : Type) where
  | reopen (i : ι)
  | mutate (i : ι) (actor : Actor) (m : Mutation)

def Event.catalog {ι : Type} : Event ι → ι
  | reopen i | mutate i _ _ => i

variable {ι : Type}

def start (files : Files) (file : Path) (store : Store) (settings : ι → Settings) : Sharing ι :=
  ⟨files, file, fun i => ⟨settings i, store⟩, store.records⟩

def state (s : Sharing ι) (i : ι) : Catalog.State := ⟨s.files, s.catalogs i⟩

def outcome (s : Sharing ι) (i : ι) (actor : Actor) (m : Mutation) : Outcome Effect :=
  ((s.state i).step actor m).2

def write? (s : Sharing ι) : Event ι → Option Write
  | .reopen _ => none
  | .mutate i actor m => (s.outcome i actor m).toOption.bind Effect.write?

theorem wrote_of_write? {s : Sharing ι} {i : ι} {actor : Actor} {m : Mutation} {w : Write}
    (h : s.write? (.mutate i actor m) = some w) :
    ∃ effect, Catalog.State.Wrote (s.state i) ((s.state i).step actor m).1 effect w := by
  obtain ⟨effect, hok, hasked⟩ := Option.bind_eq_some_iff.1 h
  rcases (s.state i).step_cases actor m with ⟨e, he, -⟩ | ⟨effect', hok', -, ⟨hnone, -⟩ | ⟨w', hw⟩⟩
  · simp [outcome, he, Except.toOption] at hok
  · simp only [outcome, hok', Except.toOption, Option.some.injEq] at hok
    subst hok
    rw [hnone] at hasked
    cases hasked
  · simp only [outcome, hok', Except.toOption, Option.some.injEq] at hok
    subst hok
    have hsame : w' = w := Option.some.inj (hw.asked.symm.trans hasked)
    exact ⟨_, hsame ▸ hw⟩

theorem unwritten_of_write? {s : Sharing ι} {i : ι} {actor : Actor} {m : Mutation}
    (h : s.write? (.mutate i actor m) = none) :
    ((s.state i).step actor m).1.catalog = s.catalogs i ∧
      ((s.state i).step actor m).1.document? = (s.state i).document? := by
  rcases (s.state i).step_cases actor m with
    ⟨e, -, hcatalog, hdocument, -⟩ | ⟨effect, hok, -, ⟨-, hsame⟩ | ⟨w, hwrote⟩⟩
  · exact ⟨hcatalog, hdocument⟩
  · rw [hsame]
    exact ⟨rfl, rfl⟩
  · simp [write?, outcome, hok, Except.toOption, hwrote.asked] at h

/-- A catalog writes only where its copy holds, with the state it files, all that the document holds. -/
def Abreast (s : Sharing ι) (e : Event ι) : Prop :=
  ∀ w ∈ s.write? e, ∀ t, s.document.Holds t → w.gone? ≠ some t.id →
    (s.catalogs e.catalog).records.Holds t ∨ w.state? = some t

theorem abreast_of_eq {s : Sharing ι} {e : Event ι} (h : (s.catalogs e.catalog).records = s.document) :
    s.Abreast e := by
  intro w _ t ht _
  rw [h]
  exact .inl ht

structure Standing (first : Sharing ι) (s : Sharing ι) : Prop where
  file_eq : s.file = first.file
  opened : ∀ i, (s.catalogs i).store.file = some s.file
  text : s.files.text? s.file = some s.document.text ∨
    s.files.text? s.file = first.files.text? first.file ∧ s.document = first.document

theorem standing_start {files : Files} {file : Path} {store : Store} (hopen : Store.open files file = .ok store)
    (settings : ι → Settings) : Standing (start files file store settings) (start files file store settings) :=
  ⟨rfl, fun _ => (Store.sound_of_open hopen).2, .inr ⟨rfl, rfl⟩⟩

variable [DecidableEq ι]

def step (s : Sharing ι) : Event ι → Sharing ι
  | .reopen i =>
    match Store.open s.files s.file with
    | .ok store => { s with catalogs := Function.update s.catalogs i { s.catalogs i with store := store } }
    | .error _ => s
  | .mutate i actor m =>
    let after := ((s.state i).step actor m).1
    { s with
      files := after.files
      catalogs := Function.update s.catalogs i after.catalog
      document := if (s.write? (.mutate i actor m)).isSome then after.records else s.document }

def run (s : Sharing ι) (events : List (Event ι)) : Sharing ι := events.foldl step s

theorem document_of_none {s : Sharing ι} {e : Event ι} (h : s.write? e = none) :
    (s.step e).document = s.document := by
  cases e with
  | reopen i =>
    simp only [step]
    split <;> rfl
  | mutate i actor m => simp only [step, h, Option.isSome_none, Bool.false_eq_true, if_false]

theorem holds_step {s : Sharing ι} {e : Event ι} {w : Write} (h : s.write? e = some w) (t : Service) :
    (s.step e).document.Holds t ↔
      w.state? = some t ∨ (s.catalogs e.catalog).records.Holds t ∧ w.gone? ≠ some t.id := by
  cases e with
  | reopen i => cases h
  | mutate i actor m =>
    obtain ⟨effect, hw⟩ := wrote_of_write? h
    have hdocument : (s.step (.mutate i actor m)).document = ((s.state i).step actor m).1.records := by
      simp only [step, h, Option.isSome_some, if_true]
    rw [hdocument]
    exact Records.holds_write hw.records_eq t

def Keeps (s : Sharing ι) (e : Event ι) : Prop :=
  ∀ t, s.document.Holds t → (∀ w ∈ s.write? e, w.gone? ≠ some t.id) → (s.step e).document.Holds t

theorem keeps_iff {s : Sharing ι} {e : Event ι} : s.Keeps e ↔ s.Abreast e := by
  constructor
  · intro h w hw t ht hgone
    have hafter := h t ht fun w' hw' => by
      obtain rfl := Option.some.inj (hw.symm.trans hw')
      exact hgone
    rcases (holds_step hw t).1 hafter with hstate | ⟨hcopy, -⟩
    · exact .inr hstate
    · exact .inl hcopy
  · intro h t ht hspared
    cases hw : s.write? e with
    | none => rwa [document_of_none hw]
    | some w =>
      have hgone := hspared w hw
      rw [holds_step hw]
      rcases h w hw t ht hgone with hcopy | hstate
      · exact .inr ⟨hcopy, hgone⟩
      · exact .inl hstate

def Along (p : Sharing ι → Event ι → Prop) : Sharing ι → List (Event ι) → Prop
  | _, [] => True
  | s, e :: events => p s e ∧ Along p (s.step e) events

theorem along_append {p : Sharing ι → Event ι → Prop} {s : Sharing ι} {events more : List (Event ι)} :
    Along p s (events ++ more) ↔ Along p s events ∧ Along p (s.run events) more := by
  induction events generalizing s with
  | nil => exact ⟨fun h => ⟨trivial, h⟩, And.right⟩
  | cons e events ih =>
    rw [List.cons_append, Along, Along, ih, and_assoc]
    rfl

def Spares (id : Uuid) (s : Sharing ι) (e : Event ι) : Prop := ∀ w ∈ s.write? e, w.gone? ≠ some id

/-- What the document holds at any point of a run it holds at every later point, unless the service was
removed in between. -/
def Lossless (s : Sharing ι) (events : List (Event ι)) : Prop :=
  ∀ before between after, events = before ++ between ++ after → ∀ t, (s.run before).document.Holds t →
    Along (Spares t.id) (s.run before) between → ((s.run before).run between).document.Holds t

theorem holds_run {s : Sharing ι} {events : List (Event ι)} (h : Along Keeps s events) {t : Service}
    (ht : s.document.Holds t) (hspared : Along (Spares t.id) s events) : (s.run events).document.Holds t := by
  induction events generalizing s with
  | nil => exact ht
  | cons e events ih =>
    have hstep : (s.step e).document.Holds t := h.1 t ht hspared.1
    exact ih h.2 hstep hspared.2

theorem along_of_forall {p : Sharing ι → Event ι → Prop} {s : Sharing ι} {events : List (Event ι)}
    (h : ∀ before e after, events = before ++ e :: after → p (s.run before) e) : Along p s events := by
  induction events generalizing s with
  | nil => trivial
  | cons e events ih =>
    refine ⟨h [] e events rfl, ih fun before e' after he => ?_⟩
    exact h (e :: before) e' after (by rw [he, List.cons_append])

theorem lossless_iff {s : Sharing ι} {events : List (Event ι)} :
    s.Lossless events ↔ Along Abreast s events := by
  have hkeeps : Along Keeps s events ↔ Along Abreast s events := by
    have hsame : (Keeps : Sharing ι → Event ι → Prop) = Abreast := by
      funext s e
      exact propext keeps_iff
    rw [hsame]
  rw [← hkeeps]
  constructor
  · intro h
    -- a run of the one event, with what comes before it and after it
    refine along_of_forall fun before e after he t ht hspared => ?_
    exact h before [e] after (by rw [he, List.append_assoc]; rfl) t ht ⟨hspared, trivial⟩
  · rintro h before between after rfl t ht hspared
    exact holds_run (along_append.1 (along_append.1 h).1).2 ht hspared

theorem Standing.text?_of_write {first s : Sharing ι} (h : Standing first s) {e : Event ι} {w : Write}
    (hw : s.write? e = some w) : (s.step e).files.text? s.file = some (s.step e).document.text := by
  cases e with
  | reopen i => cases hw
  | mutate i actor m =>
    obtain ⟨effect, hwrote⟩ := wrote_of_write? hw
    simp only [Sharing.step, hw, Option.isSome_some, if_true]
    exact hwrote.text? (h.opened i)

theorem Standing.opened_update {first s : Sharing ι} (h : Standing first s) {i : ι} {c : Catalog}
    (hc : c.store.file = some s.file) (j : ι) :
    (Function.update s.catalogs i c j).store.file = some s.file := by
  by_cases hj : j = i
  · subst hj
    rwa [Function.update_self]
  · rw [Function.update_of_ne hj]
    exact h.opened j

theorem Standing.step {first s : Sharing ι} (h : Standing first s) (e : Event ι) :
    Standing first (s.step e) := by
  cases e with
  | reopen i =>
    simp only [Sharing.step]
    split
    · next store hstore => exact ⟨h.file_eq, h.opened_update (Store.sound_of_open hstore).2, h.text⟩
    · exact h
  | mutate i actor m =>
    have hfile := h.opened i
    cases hw : s.write? (.mutate i actor m) with
    | some w =>
      obtain ⟨effect, hwrote⟩ := wrote_of_write? hw
      exact ⟨h.file_eq, h.opened_update (hwrote.file_eq.trans hfile), .inl (h.text?_of_write hw)⟩
    | none =>
      obtain ⟨hcatalog, hdocument⟩ := unwritten_of_write? hw
      have hafter : ((s.state i).step actor m).1.store.file = some s.file := by
        rw [Catalog.State.store, hcatalog]
        exact hfile
      have hbefore : (s.state i).store.file = some s.file := hfile
      have htext : ((s.state i).step actor m).1.files.text? s.file = s.files.text? s.file := by
        simp only [Catalog.State.document?, Store.document?, hafter, hbefore, Option.bind_some] at hdocument
        exact hdocument
      refine ⟨h.file_eq, h.opened_update hafter, ?_⟩
      simp only [Sharing.step, hw, Option.isSome_none, Bool.false_eq_true, if_false]
      rw [htext]
      exact h.text

theorem Standing.run {first s : Sharing ι} (h : Standing first s) (events : List (Event ι)) :
    Standing first (s.run events) := by
  induction events generalizing s with
  | nil => exact h
  | cons e events ih => exact ih (h.step e)

omit [DecidableEq ι] in
theorem outcome_update {s : Sharing ι} {i : ι} {id : Uuid} {current : Service}
    (hget : (s.catalogs i).records.get? id = some current) (actor : Actor) (p : Patch) (base : Version) :
    s.outcome i actor (.update id p (some base)) =
      if base = current.version then s.outcome i actor (.update id p none)
      else .error (.conflict (.stalePatch id current.version base)) := by
  have heffect := Effect.update_some (s.catalogs i).settings hget actor p base
  by_cases hbase : base = current.version
  · rw [if_pos hbase] at heffect ⊢
    simp only [outcome, state, Catalog.State.step, Catalog.mutate, Mutation.effect, Mutation.perform, heffect]
  · rw [if_neg hbase] at heffect ⊢
    simp only [outcome, state, Catalog.State.step, Catalog.mutate, Mutation.effect, Mutation.perform, heffect]

/-- Whether updates are lost depends on the copies of the catalogs alone. -/
theorem run_shared {files : Files} {file : Path} {store : Store} (hopen : Store.open files file = .ok store)
    (settings : ι → Settings) (events : List (Event ι)) :
    let first := start files file store settings
    let after := first.run events
    (after.files.text? file = some after.document.text ∨
        after.files.text? file = files.text? file ∧ after.document = store.records) ∧
      (∀ e w t, after.write? e = some w → w.state? = some t → (after.step e).document.Holds t) ∧
      (first.Lossless events ↔ Along Abreast first events) ∧
      (∀ i actor m, after.outcome i actor m = (after.catalogs i).answer actor m ∨
        ∃ fault, after.outcome i actor m = .error (.storage fault)) ∧
      ∀ i actor id p base current, (after.catalogs i).records.get? id = some current →
        after.outcome i actor (.update id p (some base)) =
          if base = current.version then after.outcome i actor (.update id p none)
          else .error (.conflict (.stalePatch id current.version base)) := by
  intro first after
  have hafter := (standing_start hopen settings).run events
  have hfile : after.file = file := hafter.file_eq
  have htext := hafter.text
  rw [hfile] at htext
  refine ⟨htext, fun e w t hw ht => ?_, lossless_iff, fun i actor m => ?_, fun i actor id p base current h => ?_⟩
  · exact (holds_step hw t).2 (.inl ht)
  · exact (after.state i).step_outcome actor m
  · exact outcome_update h actor p base

def probed : Records :=
  .ofList [.ofService ((Registration.ofConnection "probe" (.ofLaunch (.ofCommand "run"))).service ⟨1⟩
    ⟨"ann", .manual, 1⟩)]

def probedFile : Path := .ofText "/catalog.json"

def probedFiles : Files := (Files.empty []).put (.of ["catalog.json"]) (.text probed.text)

def probedTwice : Sharing Bool :=
  start probedFiles probedFile ⟨probed, some probedFile⟩ fun _ => ⟨.reject, 10⟩

def edit : Event Bool :=
  .mutate true ⟨"ben", .manual, 2⟩ (.update ⟨1⟩ { Patch.empty with description := .set "edited" } none)

def staleEdit : Event Bool :=
  .mutate false ⟨"cam", .manual, 3⟩
    (.update ⟨1⟩ { Patch.empty with displayName := .set "Probe" } (some .initial))

theorem open_probed : Store.open probedFiles probedFile = .ok ⟨probed, some probedFile⟩ := by
  have hsound : probed.Sound := by
    intro x hx t ht
    obtain rfl := List.mem_singleton.1 (Records.mem_ofList hx)
    obtain rfl := List.mem_singleton.1 ht
    refine Service.sound_of ?_ nofun nofun nofun
    rintro c ⟨⟩
    refine Connection.present ?_
    rintro config ⟨⟩
    exact ConnectionConfig.present nofun
  have hfloats : Document.Restored probed := by decide +kernel
  have hdepth : Document.depth probed ≤ Json.nestingLimit := by decide +kernel
  exact (Store.open_text rfl hsound hfloats).trans (if_pos hdepth)

theorem run_shared_edited :
    Store.open probedFiles probedFile = .ok ⟨probed, some probedFile⟩ ∧ probedTwice.Lossless [edit] :=
  have habreast : Along Abreast probedTwice [edit] := ⟨abreast_of_eq rfl, trivial⟩
  ⟨open_probed, (run_shared open_probed (fun _ => ⟨.reject, 10⟩) [edit]).2.2.1.2 habreast⟩

/-- The second edit is not refused, and its document does not hold what the first came to. -/
theorem edit_lost :
    Store.open probedFiles probedFile = .ok ⟨probed, some probedFile⟩ ∧
      ∃ t w w', probedTwice.write? edit = some w ∧ w.state? = some t ∧
        (probedTwice.step edit).write? staleEdit = some w' ∧ w'.gone? = none ∧
        ((probedTwice.step edit).step staleEdit).files.text? probedFile
          = some ((probedTwice.step edit).step staleEdit).document.text ∧
        ¬ ((probedTwice.step edit).step staleEdit).document.Holds t := by
  have hedited : ((probedTwice.write? edit).bind Write.state?).map (·.updatedBy) = some "ben" := by
    decide +kernel
  have hstale : ((probedTwice.step edit).write? staleEdit).map (·.gone?.isNone) = some true := by
    decide +kernel
  have hnone : ∀ x ∈ ((probedTwice.step edit).step staleEdit).document.list, ∀ t ∈ x.states,
      t.updatedBy ≠ "ben" := by
    decide +kernel
  obtain ⟨t, ht, hby⟩ := Option.map_eq_some_iff.1 hedited
  obtain ⟨w, hw, ht⟩ := Option.bind_eq_some_iff.1 ht
  obtain ⟨w', hw', hgone⟩ := Option.map_eq_some_iff.1 hstale
  refine ⟨open_probed, t, w, w', hw, ht, hw', Option.isNone_iff_eq_none.1 hgone, ?_, ?_⟩
  · exact ((standing_start open_probed _).step edit).text?_of_write hw'
  · rintro ⟨x, hx, hmem⟩
    exact hnone x (Records.find?_eq_some.1 hx).1 t hmem hby

end Sharing

end ServiceCatalog
