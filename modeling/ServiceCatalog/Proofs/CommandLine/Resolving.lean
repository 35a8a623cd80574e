import ServiceCatalog.CommandLine.Run
import ServiceCatalog.Proofs.Catalog.Freezing
import ServiceCatalog.Proofs.Entity.Uuid
import ServiceCatalog.Toml.Codec

namespace ServiceCatalog

theorem Uuid.ofText?_qualify (name : String) : ofText? (Name.qualify name) = ofText? name := by
  have hnone {s : String} {c : Char} (hc : c ∈ s.toList) (htextual : isTextual c = false) : ofText? s = none := by
    cases hu : ofText? s with
    | none => rfl
    | some u =>
      have hall := isTextual_of_ofText? hu c hc
      rw [htextual] at hall
      cases hall
  unfold Name.qualify
  split
  · next hdot =>
    have hquote : '"' ∈ ("\"" ++ name ++ "\"").toList := by simp
    rw [hnone (List.contains_iff_mem.1 hdot) (by decide), hnone hquote (by decide)]
  · rfl

namespace CommandLine

variable {r : Records} {text : String} {x : ServiceRecord}

theorem resolve_of_some {u : Uuid} (h : Uuid.ofText? text = some u) :
    resolve r text = (r.load u).mapError .refused := by
  simp only [resolve, h]
  cases r.load u <;> rfl

theorem resolve_of_none {s : Service} (h : Uuid.ofText? text = none)
    (hnamed : (r.getNamed? text <|> r.getNamed? (Name.qualify text)) = some s) : resolve r text = .ok s := by
  simp only [resolve, h, hnamed]

theorem resolve_id (hx : x ∈ r.list) : resolve r x.id.text = .ok x.current := by
  rw [resolve_of_some (Uuid.ofText?_text x.id), Records.load_eq_ok.2 (Records.get?_of_mem hx)]
  rfl

section
variable (hindexed : r.Indexed) (hx : x ∈ r.list)
include hindexed hx

theorem getNamed?_of_text (htext : text = x.current.name ∨ text = x.current.qualifiedName) :
    (r.getNamed? text <|> r.getNamed? (Name.qualify text)) = some x.current := by
  have hqualified := hindexed.qualified x hx
  have hfound {q : String} (hq : x.current.qualifiedName = q) : r.getNamed? q = some x.current :=
    hindexed.getNamed?_eq_some.2 ⟨x, hx, rfl, hq⟩
  rcases htext with rfl | rfl
  · rw [hfound hqualified]
    cases hnamed : r.getNamed? x.current.name with
    | none => rfl
    | some s =>
      obtain ⟨y, hy, rfl, hname⟩ := hindexed.getNamed?_eq_some.1 hnamed
      rw [hindexed.qualified y hy] at hname
      have hvalid : Name.check (Name.qualify y.current.name) = .ok () := by
        rw [hname]
        exact hindexed.valid x hx
      obtain rfl := hindexed.distinct y hy x hx ((Name.qualify_eq_self hvalid).symm.trans hname)
      rfl
  · rw [hfound rfl]
    rfl

theorem ofText?_of_text (htext : text = x.current.name ∨ text = x.current.qualifiedName) :
    Uuid.ofText? text = Uuid.ofText? x.current.name := by
  rcases htext with rfl | rfl
  · rfl
  · rw [hindexed.qualified x hx, Uuid.ofText?_qualify]

theorem resolve_iff (htext : text = x.current.name ∨ text = x.current.qualifiedName) :
    resolve r text = .ok x.current ↔ ∀ u, Uuid.ofText? x.current.name = some u → u = x.id := by
  have hsame := ofText?_of_text hindexed hx htext
  cases hu : Uuid.ofText? x.current.name with
  | none =>
    rw [resolve_of_none (hsame.trans hu) (getNamed?_of_text hindexed hx htext)]
    simp
  | some u =>
    rw [resolve_of_some (hsame.trans hu)]
    constructor
    · intro h v hv
      cases hload : r.load u with
      | error e =>
        rw [hload] at h
        cases h
      | ok s =>
        rw [hload] at h
        obtain rfl : s = x.current := Except.ok.inj h
        obtain rfl := Option.some.inj hv
        exact (Records.id_of_get? (Records.load_eq_ok.1 hload)).symm
    · intro h
      rw [h u rfl, Records.load_eq_ok.2 (Records.get?_of_mem hx)]
      rfl

end

def Command.service? : Command → Option String
  | .get service _ _ _ | .update service _ _ | .tag service _ | .tier service _ | .delete service _ _ | .restore service
  | .versions service | .follow service _ _ | .unfollow service _ | .recordTest service _ | .test service _
  | .discover service _ => some service
  | .create .. | .apply _ | .list _ | .form _ | .importServers .. => none

def Command.on (text : String) : Command → Command
  | .get _ included version hideConnection => .get text included version hideConnection
  | .update _ patch base => .update text patch base
  | .tag _ selected => .tag text selected
  | .tier _ wanted => .tier text wanted
  | .delete _ hard confirmed => .delete text hard confirmed
  | .restore _ => .restore text
  | .versions _ => .versions text
  | .follow _ user name => .follow text user name
  | .unfollow _ user => .unfollow text user
  | .recordTest _ file => .recordTest text file
  | .test _ patience => .test text patience
  | .discover _ patience => .discover text patience
  | c => c

namespace Desk

variable {τ : Type} {d : Desk τ}

/-- Nothing is written, or one mutation of the service is, which keeps all other records. -/
def Affects (d : Desk τ) (id : Uuid) (files : Files) : Prop :=
  files = d.files ∨ ∃ source m, m.target? d.catalog.records = some id ∧ files = (d.perform source m).1.files ∧
    ∀ y ∈ d.catalog.records.list, y.id ≠ id → y ∈ (d.perform source m).1.catalog.records.list

theorem tell_affects (id : Uuid) (lines : Except RunFault (List String)) : d.Affects id (d.tell lines).files := by
  cases lines <;> exact .inl rfl

theorem act_affects {id : Uuid} {source : ChangeSource} {m : Mutation} {telling : Effect → List String}
    (htarget : m.target? d.catalog.records = some id) : d.Affects id (d.act source (.ok m) telling).files := by
  have hfiles : (d.act source (.ok m) telling).files = (d.perform source m).1.files := by
    rw [act]
    cases d.perform source m with
    | mk d outcome => cases outcome <;> rfl
  refine .inr ⟨source, m, htarget, hfiles, fun y hy hid => ?_⟩
  have hother : m.target? d.catalog.records ≠ some y.id := by
    rw [htarget]
    exact fun he => hid (Option.some.inj he).symm
  exact Catalog.State.step_untargeted (s := d.toState) hy ⟨d.user, source, d.surroundings.time⟩ hother

theorem act_error_affects (id : Uuid) (source : ChangeSource) (e : RunFault) (telling : Effect → List String) :
    d.Affects id (d.act source (.error e) telling).files :=
  d.tell_affects id _

theorem removeService_affects {text : String} {e : Service} (h : d.resolve text = .ok e) (f : Format)
    (confirmed : Bool) : d.Affects e.id (d.removeService f text confirmed).files := by
  simp only [removeService, h, bind, Except.bind]
  cases lookUp (d.catalog.versions e.id) with
  | error fault => exact d.tell_affects _ _
  | ok history =>
    dsimp only [pure, Except.pure]
    split
    · exact d.tell_affects _ _
    · exact d.tell_affects _ _
    · exact act_affects rfl

theorem run_affects {text : String} {e : Service} (h : d.resolve text = .ok e) {c : Command}
    (hc : c.service? = some text) (f : Format) : d.Affects e.id (d.run f c).files := by
  cases c with
  | get | versions => exact d.tell_affects _ _
  | tag | tier | restore | follow | unfollow | discover =>
    obtain rfl := Option.some.inj hc
    rw [run, actOn, h]
    exact act_affects rfl
  | update _ patch =>
    obtain rfl := Option.some.inj hc
    rw [run, actOn, h]
    cases (readJson d.files patch : Except RunFault Patch) with
    | error fault => exact act_error_affects e.id _ fault _
    | ok p => exact act_affects rfl
  | recordTest _ file =>
    obtain rfl := Option.some.inj hc
    rw [run, actOn, h]
    cases (readJson d.files file : Except RunFault TestResult) with
    | error fault => exact act_error_affects e.id _ fault _
    | ok result => exact act_affects rfl
  | delete _ hard confirmed =>
    obtain rfl := Option.some.inj hc
    cases hard with
    | false =>
      rw [run, actOn, h]
      exact act_affects rfl
    | true => exact removeService_affects h f confirmed
  | test =>
    obtain rfl := Option.some.inj hc
    rw [run, h]
    exact act_affects rfl
  | create | apply | list | form | importServers => cases hc

theorem run_on {text : String} {e : Service} (h : d.resolve text = .ok e) (hid : d.resolve e.id.text = .ok e)
    {c : Command} (hc : c.service? = some text) (f : Format) : d.run f c = d.run f (c.on e.id.text) := by
  cases c with
  | create | apply | list | form | importServers => cases hc
  | delete _ hard =>
    obtain rfl := Option.some.inj hc
    cases hard <;> simp only [run, Command.on, actOn, removeService, h, hid]
  | _ =>
    obtain rfl := Option.some.inj hc
    simp only [run, Command.on, actOn, readService, h, hid]

end Desk

/-- Over any run, a stored service is named by its identifier, and by its name and its qualified name just if the name
is not a text of another identifier; otherwise they name the service of that identifier, or none. A command affects
the service that is named. -/
theorem run_resolved (files : Files) (settings : Settings) (file : Option Path) (steps : List (Actor × Mutation)) :
    let t := (Catalog.State.start files settings file).run steps
    ∀ x ∈ t.records.list,
      resolve t.records x.id.text = .ok x.current ∧
        (∀ text, text = x.current.name ∨ text = x.current.qualifiedName →
          (resolve t.records text = .ok x.current ↔ ∀ u, Uuid.ofText? x.current.name = some u → u = x.id) ∧
            ∀ u, Uuid.ofText? x.current.name = some u →
              resolve t.records text = (t.records.load u).mapError .refused) ∧
        ∀ (τ : Type) (d : Desk τ), d.toState = t → ∀ text, d.resolve text = .ok x.current →
          ∀ c : Command, c.service? = some text → ∀ f,
            d.run f c = d.run f (c.on x.id.text) ∧ d.Affects x.id (d.run f c).files := by
  intro t x hx
  have hindexed : t.records.Indexed := Catalog.State.run_indexed files settings file steps
  refine ⟨resolve_id hx, fun text htext => ⟨resolve_iff hindexed hx htext, fun u hu => ?_⟩, ?_⟩
  · exact resolve_of_some ((ofText?_of_text hindexed hx htext).trans hu)
  · intro τ d hd text htext c hc f
    have hmem : x ∈ d.toState.records.list := by rwa [hd]
    exact ⟨Desk.run_on htext (resolve_id hmem) hc f, Desk.run_affects htext hc f⟩

def versionedSteps : List (Actor × Mutation) :=
  [(⟨"ann", .manual, 1⟩, .create (.ofConnection "probe" (.ofLaunch (.ofCommand "run"))) ⟨1⟩),
    (⟨"ann", .manual, 2⟩, .create (.ofConnection "probe.v2" (.ofLaunch (.ofCommand "run"))) ⟨2⟩),
    (⟨"ben", .manual, 3⟩, .delete ⟨2⟩)]

def versionedDesk : Desk Unit where
  toState := (Catalog.State.start (.empty []) ⟨.reject, 10⟩ none).run versionedSteps
  surroundings := {
    files := .empty []
    environment := []
    codec := Toml.codec
    time := 9
    newId n := ⟨BitVec.ofNat 128 (n + 3)⟩
    launch _ _ := .error .missing
    pages := 0
    confirm _ := none
  }
  user := "cid"

theorem run_resolved_deleted :
    ∃ x ∈ versionedDesk.catalog.records.list, x.id = ⟨2⟩ ∧ x.current.isDeleted = true ∧
      versionedDesk.resolve "probe.v2" = .ok x.current ∧ versionedDesk.resolve "\"probe.v2\"" = .ok x.current ∧
        versionedDesk.resolve x.id.text = .ok x.current ∧
        versionedDesk.Affects x.id (versionedDesk.run .table (.delete "probe.v2" true true)).files := by
  have hprobe : ∃ x ∈ versionedDesk.catalog.records.list, x.id = ⟨2⟩ ∧ x.current.isDeleted = true ∧
      x.current.name = "probe.v2" ∧ x.current.qualifiedName = "\"probe.v2\"" ∧
        Uuid.ofText? x.current.name = none := by decide +kernel
  obtain ⟨x, hx, hid, hdeleted, hname, hqualified, hnone⟩ := hprobe
  obtain ⟨hresolve, htexts, hruns⟩ := run_resolved (.empty []) ⟨.reject, 10⟩ none versionedSteps x hx
  have hother : ∀ u, Uuid.ofText? x.current.name = some u → u = x.id := by
    rw [hnone]
    nofun
  have hbyName : versionedDesk.resolve "probe.v2" = .ok x.current := (htexts _ (.inl hname.symm)).1.2 hother
  have hbyQualified : versionedDesk.resolve "\"probe.v2\"" = .ok x.current :=
    (htexts _ (.inr hqualified.symm)).1.2 hother
  have hdelete := hruns Unit versionedDesk rfl "probe.v2" hbyName (.delete "probe.v2" true true) rfl .table
  exact ⟨x, hx, hid, hdeleted, hbyName, hbyQualified, hresolve, hdelete.2⟩

def idNamedSteps : List (Actor × Mutation) :=
  [(⟨"ann", .manual, 1⟩, .create (.ofConnection "probe" (.ofLaunch (.ofCommand "run"))) ⟨1⟩),
    (⟨"ann", .manual, 2⟩, .create (.ofConnection "00000000-0000-0000-0000-000000000001"
      (.ofLaunch (.ofCommand "run"))) ⟨2⟩),
    (⟨"ann", .manual, 3⟩, .create (.ofConnection "550e8400-e29b-41d4-a716-446655440000"
      (.ofLaunch (.ofCommand "run"))) ⟨3⟩)]

theorem id_name_misread :
    let r := ((Catalog.State.start (.empty []) ⟨.reject, 10⟩ none).run idNamedSteps).records
    (∃ x ∈ r.list, x.id = ⟨2⟩ ∧ (resolve r x.current.name).toOption.map (·.id) = some ⟨1⟩) ∧
      ∃ x ∈ r.list, x.id = ⟨3⟩ ∧ (resolve r x.current.name).toOption.map (·.id) = none := by
  decide +kernel

end CommandLine

end ServiceCatalog
