import ServiceCatalog.Proofs.Catalog.Independence
import ServiceCatalog.Proofs.Server.Report
import ServiceCatalog.Proofs.Service.Patching
import ServiceCatalog.Proofs.Service.Stepping

namespace ServiceCatalog

def TestResult.stamped (r : TestResult) (time : Int64) : TestResult := { r with lastUpdatedAt := some time }

namespace Service

def tested (s : Service) (result : TestResult) : Service := { s with testResult := some result }

theorem commit_tested {current : Service} (hroom : current.version.tenths.toNat + 1 < UInt32.size) (actor : Actor)
    (result : TestResult) :
    let draft := ChangeLog.empty.apply "testConnectionResult" current.testResult (.set result)
    ∃ u, current.commit { current with testResult := draft.2 } draft.1 actor = .ok u ∧
      u.service.body = (current.tested result).body ∧ u.service.id = current.id := by
  intro draft
  have hcontent : draft.2 = some result := by
    rw [ChangeLog.apply_content, FieldPatch.over]
    split
    · next hsame => exact eq_of_beq hsame
    · rfl
  cases hlog : draft.1.isEmpty with
  | true =>
    obtain ⟨-, hkept⟩ := ChangeLog.isEmpty_apply hlog
    have hsame : current.testResult = some result := by
      rw [← hcontent]
      exact (congrArg Prod.snd hkept).symm
    refine ⟨.unchanged current, commit_eq_ok.2 (.inl ⟨hlog, rfl⟩), ?_, rfl⟩
    rw [tested, ← hsame]
    rfl
  | false =>
    have hstep : draft.1.step = .minor := ChangeLog.apply_step ..
    have hfits : current.version.tenths.toNat + draft.1.step.tenths < UInt32.size := by
      rw [hstep]
      exact hroom
    obtain ⟨v, change, -, hcommit⟩ :=
      exists_commit current { current with testResult := draft.2 } draft.1 actor hlog hfits
    refine ⟨_, hcommit, ?_, rfl⟩
    rw [hcontent]
    rfl

end Service

namespace Mutation

variable {ω σ : Type}

def testing (c : Connector ω σ) (w : ω) (id : Uuid) (time : Int64) : Mutation :=
  .test id (fun launch => (c.discover launch w).1) time

section

variable (c : Connector ω σ) (w : ω) (settings : Settings) {records : Records} {id : Uuid} {current : Service}
  {launch : LaunchConfig} (hget : records.get? id = some current) (hlive : current.isDeleted = false)
  (hlaunch : current.launch? = some launch)
include hget hlive hlaunch

theorem launches_testing (actor : Actor) (time : Int64) :
    (testing c w id time).launches settings records actor = [launch] := by
  have hlaunchable := Effect.launchable_eq_ok.2 ⟨hget, hlive, hlaunch⟩
  simp only [testing, launches, perform, Effect.test, hlaunchable]
  rfl

theorem effect_testing (hroom : current.version.tenths.toNat + 1 < UInt32.size) (actor : Actor) (time : Int64) :
    ∃ e, (testing c w id time).effect settings records actor = .ok e ∧ (∀ s, e ≠ .removed s) ∧ e.service.id = id ∧
      e.service.body = (current.tested ((c.discover launch w).1.result.stamped time)).body := by
  have hload : Effect.loadLive records id = .ok current := Effect.loadLive_eq_ok.2 ⟨hget, hlive⟩
  have hlaunchable := Effect.launchable_eq_ok.2 ⟨hget, hlive, hlaunch⟩
  have htime : (c.discover launch w).1.result.lastUpdatedAt = none := c.lastUpdatedAt_discover launch w
  obtain ⟨u, hcommit, hbody, hid⟩ :=
    Service.commit_tested hroom actor ((c.discover launch w).1.result.stamped time)
  refine ⟨.ofUpdate current.version u, ?_, Effect.ofUpdate_ne_removed _ _, ?_, ?_⟩
  · simp only [testing, effect_test, Effect.recordTest, hlaunchable, hload, Outcome.ok_bind, htime, Option.getD_none]
    exact Outcome.map_eq_ok.2 ⟨u, hcommit, rfl⟩
  · rw [Effect.service_ofUpdate, hid, Records.id_of_get? hget]
  · rw [Effect.service_ofUpdate, hbody]

end

end Mutation

namespace Catalog.State

/-- Whatever a server does, a session with it is told as it went; and over any run, to test a live service that can be
launched launches it once and stores just what is told of the session, with the time of the catalog, so far as the
files allow. -/
theorem run_tested {ω σ : Type} (c : Connector ω σ) (w : ω) (files : Files) (settings : Settings) (file : Option Path)
    (steps : List (Actor × Mutation)) :
    let t := (start files settings file).run steps
    (∀ launch, c.Tells launch w (c.discover launch w).1) ∧
      ∀ x ∈ t.records.list, x.current.isDeleted = false → ∀ launch, x.current.launch? = some launch →
        x.current.version.tenths.toNat + 1 < UInt32.size → ∀ actor time,
          let after := t.step actor (.testing c w x.id time)
          (Mutation.testing c w x.id time).launches t.catalog.settings t.records actor = [launch] ∧
            ((∃ e, after.2 = .ok e ∧ after.1.records.get? x.id = some e.service ∧
                e.service.body = (x.current.tested ((c.discover launch w).1.result.stamped time)).body) ∨
              file.isSome = true ∧ ∃ fault, after.2 = .error (.storage fault)) := by
  intro t
  refine ⟨fun launch => c.tells launch w, fun x hx hlive launch hlaunch hroom actor time => ?_⟩
  have hdistinct : t.records.Distinct := (run_indexed files settings file steps).distinct
  have hfile : t.store.file = file := run_file _ _
  have hget : t.records.get? x.id = some x.current := Records.get?_of_mem hx
  obtain ⟨e, heffect, hkept, hid, hbody⟩ :=
    Mutation.effect_testing c w t.catalog.settings hget hlive hlaunch hroom actor time
  have hanswer : t.catalog.answer actor (.testing c w x.id time) = .ok e :=
    (answer_of_edited hdistinct rfl actor).trans heffect
  intro after
  rw [← hfile]
  refine ⟨Mutation.launches_testing c w t.catalog.settings hget hlive hlaunch actor time,
    (outcome_of_answer hanswer).imp_left fun hok => ⟨e, hok, ?_, hbody⟩⟩
  rw [← hid]
  exact get?_of_step hok hkept

def muteServer : Connector Unit Unit where
  connect _ w := (.ok (), w)
  handshake s := (.ok { ServerInfo.empty with capabilities := some (.ofTree (.obj [("tools", .obj [])])) }, s)
  tools s := (.error "busy", s)
  resources s := (.ok [.ofUri "file:///a"], s)
  prompts s := (.error "busy", s)

theorem run_tested_mute :
    let t := (start (.empty []) ⟨.reject, 10⟩ none).run pairSteps
    let report := (muteServer.discover (.ofCommand "run") ()).1
    muteServer.Tells (.ofCommand "run") () report ∧ report.result.status = some .failed ∧
      muteServer.calls (.ofCommand "run") () = [.connect (.ofCommand "run"), .handshake, .list .tools] ∧
      ∃ x ∈ t.records.list, x.current.isDeleted = false ∧ x.current.launch? = some (.ofCommand "run") ∧
        x.current.version.tenths.toNat + 1 < UInt32.size ∧
        let after := t.step ⟨"ben", .manual, 7⟩ (.testing muteServer () x.id 5)
        ∃ e, after.2 = .ok e ∧ after.1.records.get? x.id = some e.service ∧
          e.service.body = (x.current.tested (report.result.stamped 5)).body := by
  intro t report
  obtain ⟨htells, hstored⟩ := run_tested muteServer () (.empty []) ⟨.reject, 10⟩ none pairSteps
  have hprobe : ∃ x ∈ t.records.list, x.current.isDeleted = false ∧
      x.current.launch? = some (.ofCommand "run") ∧ x.current.version.tenths.toNat = 1 := by decide +kernel
  obtain ⟨x, hx, hlive, hlaunch, hversion⟩ := hprobe
  have hroom : x.current.version.tenths.toNat + 1 < UInt32.size := by
    rw [hversion]
    decide
  refine ⟨htells _, rfl, rfl, x, hx, hlive, hlaunch, hroom, ?_⟩
  rcases (hstored x hx hlive _ hlaunch hroom ⟨"ben", .manual, 7⟩ 5).2 with hok | ⟨hfile, -⟩
  · exact hok
  · cases hfile

end Catalog.State

end ServiceCatalog
