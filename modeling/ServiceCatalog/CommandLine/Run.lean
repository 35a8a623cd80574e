import ServiceCatalog.Catalog.Basic
import ServiceCatalog.CommandLine.Command
import ServiceCatalog.Config.File
import ServiceCatalog.Connection.Form
import ServiceCatalog.Server.Session
import ServiceCatalog.Service.Import
import ServiceCatalog.Service.Permission

/-!
Running a command. A run opens the catalog that the configuration names, looks up the service it is told
and performs its mutations. It ends at the first fault; what was told and written until then stands.
-/

namespace ServiceCatalog.CommandLine

structure Surroundings (τ : Type) where
  files : Files
  environment : Environment
  codec : Toml.Codec
  time : Int64
  newId : Nat → Uuid
  launch : Files → LaunchConfig → Except FileFault (Program τ)
  /-- How many pages a list is taken to have at most. The program that is modelled asks for pages without end. -/
  pages : Nat
  confirm : String → Option Bool

inductive RunFault where
  | unconfigured (fault : Config.FileFault)
  | unopened (store : Path) (reason : CatalogError)
  | refused (reason : CatalogError)
  | unknownService (service : String)
  | unreadable (file : Path)
  | invalidJson (file : Path)
  | invalidClientConfig (file : Path)
  | unconfirmed

def RunFault.message : RunFault → String
  | .unconfigured fault => fault.messages.headD ""
  | .unopened store _ => s!"Failed to open catalog at {store.display}"
  | .refused reason => reason.message
  | .unknownService service => s!"MCP service '{service}' not found"
  | .unreadable file => s!"Failed to read {file.display}"
  | .invalidJson file => s!"Invalid JSON in {file.display}"
  | .invalidClientConfig file => s!"Failed to parse client config {file.display}"
  | .unconfirmed => "Failed to read confirmation; pass -y to skip it"

structure Run where
  files : Files
  lines : List String
  fault : Option RunFault

def resolve (records : Records) (service : String) : Except RunFault Service :=
  match Uuid.ofText? service with
  | some id =>
    match records.load id with
    | .ok s => .ok s
    | .error e => .error (.refused e)
  | none =>
    match records.getNamed? service <|> records.getNamed? (Name.qualify service) with
    | some s => .ok s
    | none => .error (.unknownService service)

def readFile (files : Files) (file : Path) : Except RunFault String :=
  match files.read file with
  | .ok text => .ok text
  | .error _ => .error (.unreadable file)

def readJson {α : Type} [Wire α] (files : Files) (file : Path) : Except RunFault α := do
  match decodeText? (← readFile files file) with
  | some a => return a
  | none => .error (.invalidJson file)

def tellForm (kind : Option ConnectionKind) : List String :=
  let form := match kind with
    | some kind => kind.form.json
    | none => ConnectionKind.forms
  [(Value.ofTree form).tree.pretty]

structure Desk (τ : Type) extends Catalog.State where
  surroundings : Surroundings τ
  user : String

namespace Desk

variable {τ : Type}

def «open» (s : Surroundings τ) (i : Invocation) : Except RunFault (Desk τ) :=
  match Config.load s.codec s.files (i.config.getD (Config.defaultFile s.environment)) with
  | .error fault => .error (.unconfigured fault)
  | .ok config =>
    let file := i.store.getD (config.storeFile s.environment)
    match Store.open s.files file with
    | .error reason => .error (.unopened file reason)
    | .ok store =>
      .ok ⟨⟨s.files, ⟨config.settings, store⟩⟩, s, i.user.getD (config.userName s.environment)⟩

variable (d : Desk τ)

def resolve (service : String) : Except RunFault Service :=
  CommandLine.resolve d.catalog.records service

def perform (source : ChangeSource) (m : Mutation) : Desk τ × Outcome Effect :=
  let (s, outcome) := d.toState.step ⟨d.user, source, d.surroundings.time⟩ m
  ({ d with toState := s }, outcome)

def probe (patience : Duration) (launch : LaunchConfig) : Report :=
  ((Session.connector (d.surroundings.launch d.files) patience d.surroundings.pages).discover launch ()).1

def tell (lines : Except RunFault (List String)) : Run :=
  match lines with
  | .ok lines => ⟨d.files, lines, none⟩
  | .error e => ⟨d.files, [], some e⟩

def act (source : ChangeSource) (m : Except RunFault Mutation) (telling : Effect → List String) :
    Run :=
  match m with
  | .error e => d.tell (.error e)
  | .ok m =>
    match d.perform source m with
    | (d, .ok effect) => d.tell (.ok (telling effect))
    | (d, .error e) => d.tell (.error (.refused e))

def actOn (service : String) (source : ChangeSource) (verb : String) (f : Format)
    (m : Uuid → Except RunFault Mutation) : Run :=
  d.act source (do m (← d.resolve service).id) (tellEffect verb f)

def lookUp {α : Type} : Outcome α → Except RunFault α
  | .ok a => .ok a
  | .error e => .error (.refused e)

def readService (service : String) (included : Include) (version : Option Version) :
    Except RunFault Service := do
  let s ← d.resolve service
  match version with
  | some v => lookUp (d.catalog.version s.id v)
  | none => lookUp (d.catalog.get s.id included)

def discoverPut (patience : Option Duration) (put : Effect) :
    Desk τ × Except RunFault (String × List Effect) :=
  match patience with
  | none => (d, .ok (put.status, []))
  | some patience =>
    match d.perform .ingested (.discover put.service.id (d.probe patience)) with
    | (d, .ok effect) =>
      (d, .ok (if effect.change?.isSome then "discovered" else put.status, [effect]))
    | (d, .error e) =>
      (d, if e.isUnreachable then .ok ("unreachable", []) else .error (.refused e))

def importEach (f : Format) (patience : Option Duration) (d : Desk τ) (n : Nat)
    (statuses : List (String × Json)) : List Registration → Run
  | [] => d.tell (.ok (f.choose [] (Json.obj statuses.reverse).pretty))
  | request :: rest =>
    match d.perform .ingested (.put request (d.surroundings.newId n)) with
    | (d, .error e) => d.tell (.error (.refused e))
    | (d, .ok put) =>
      let lines := if f = .table then tellPut f put else []
      match d.discoverPut patience put with
      | (d, .error e) => ⟨d.files, lines, some e⟩
      | (d, .ok (status, effects)) =>
        let more := if f = .table then
          effects.flatMap (tellEffect "Discovered capabilities of" f) else []
        let run := importEach f patience d (n + 1) ((request.name, .str status) :: statuses) rest
        { run with lines := lines ++ more ++ run.lines }

def importServers (f : Format) (file : Path) (mode : ImportMode) : Run :=
  match readFile d.files file with
  | .error e => d.tell (.error e)
  | .ok text =>
    match ClientConfig.readRegistrations text, mode with
    | .error _, _ => d.tell (.error (.invalidClientConfig file))
    | .ok requests, .plan => d.tell (.ok (tellPlan f requests))
    | .ok requests, .put => importEach f none d 0 [] requests
    | .ok requests, .discover patience => importEach f (some patience) d 0 [] requests

def question (s : Service) (versions : Nat) : String :=
  s!"Permanently delete '{s.qualifiedName}' and all {natText versions} of its versions?"

def removeService (f : Format) (service : String) (confirmed : Bool) : Run :=
  let found := do
    let s ← d.resolve service
    return (s, (← lookUp (d.catalog.versions s.id)).versions.length)
  match found with
  | .error e => d.tell (.error e)
  | .ok (s, versions) =>
    match if confirmed then some true else d.surroundings.confirm (question s versions) with
    | none => d.tell (.error .unconfirmed)
    | some false => d.tell (.ok ["Deletion cancelled."])
    | some true => d.act .manual (.ok (.remove s.id)) (tellRemoved f)

def run (f : Format) : Command → Run
  | .create name launch description displayName =>
    let request := { Registration.ofConnection name (.ofLaunch launch) with
      description := description, displayName := displayName }
    d.act .manual (.ok (.create request (d.surroundings.newId 0))) (tellCreated f)
  | .apply file =>
    d.act .manual (do return .put (← readJson d.files file) (d.surroundings.newId 0)) (tellPut f)
  | .get service included version hideConnection => d.tell do
    let s ← d.readService service included version
    return tellService f ({ Permission.all with viewConnection := !hideConnection }.view s)
  | .list query => d.tell do return tellPage f (← lookUp (d.catalog.list query))
  | .update service patch base =>
    d.actOn service .manual "Updated" f fun id => do
      return .update id (← readJson d.files patch) base
  | .tag service selected => d.actOn service .manual "Tagged" f fun id => .ok (.selectTags id selected)
  | .tier service tier =>
    d.actOn service .manual "Updated tier of" f fun id => .ok (.setTier id tier)
  | .delete service false _ => d.actOn service .manual "Deleted" f fun id => .ok (.delete id)
  | .delete service true confirmed => d.removeService f service confirmed
  | .restore service => d.actOn service .manual "Restored" f fun id => .ok (.restore id)
  | .versions service => d.tell do
    return tellVersions f (← lookUp (d.catalog.versions (← d.resolve service).id))
  | .follow service user name =>
    d.actOn service .manual "Followed" f fun id =>
      .ok (.follow id (.user user (name.getD d.user)))
  | .unfollow service user =>
    d.actOn service .manual "Unfollowed" f fun id => .ok (.unfollow id user)
  | .recordTest service file =>
    d.actOn service .manual "Recorded connection test for" f fun id => do
      return .recordTest id (← readJson d.files file) d.surroundings.time
  | .test service patience =>
    d.act .automated (do
      return .test (← d.resolve service).id (d.probe patience) d.surroundings.time) (tellTest f)
  | .discover service patience =>
    d.actOn service .ingested "Discovered capabilities of" f fun id =>
      .ok (.discover id (d.probe patience))
  | .form kind => d.tell (.ok (tellForm kind))
  | .importServers file mode => d.importServers f file mode

end Desk

def Invocation.run {τ : Type} (s : Surroundings τ) (i : Invocation) : Run :=
  match i.command with
  | .form kind => ⟨s.files, tellForm kind, none⟩
  | command =>
    match Desk.open s i with
    | .ok d => d.run i.format command
    | .error e => ⟨s.files, [], some e⟩

end ServiceCatalog.CommandLine
