import ServiceCatalog.Server.Discovery
import ServiceCatalog.Service.Registration
import ServiceCatalog.Service.Update
import ServiceCatalog.Store.Records
import ServiceCatalog.Tag.Selection

/-!
What mutations of a catalog come to. A mutation is worked out on the records as they are; the write it
asks for, if any, names the version it is based on.
-/

namespace ServiceCatalog

structure Settings where
  policy : DuplicatePolicy
  pageSize : Nat
deriving DecidableEq

inductive Effect where
  | created (s : Service)
  | changed (base : Version) (s : Service) (change : ChangeDescription)
  | unchanged (s : Service)
  | removed (s : Service)

namespace Effect

def service : Effect → Service
  | created s | changed _ s _ | unchanged s | removed s => s

def change? : Effect → Option ChangeDescription
  | changed _ _ change => some change
  | _ => none

def write? : Effect → Option Write
  | created s => some (.insert s)
  | changed base s _ => some (.replace s base)
  | unchanged _ => none
  | removed s => some (.remove s.id)

def status : Effect → String
  | created _ => "created"
  | changed _ _ _ => "updated"
  | unchanged _ => "unchanged"
  | removed _ => "removed"

def ofUpdate (base : Version) (u : Update) : Effect :=
  match u.change with
  | some change => changed base u.service change
  | none => unchanged u.service

variable (settings : Settings) (records : Records) (actor : Actor)

def loadLive (id : Uuid) : Outcome Service := do
  let s ← records.load id
  if s.isDeleted then .error (.invalid (.editDeleted s.qualifiedName)) else return s

def commit (current next : Service) (log : ChangeLog) : Outcome Effect :=
  (current.commit next log actor).map (ofUpdate current.version)

def patch (current : Service) (p : Patch) : Outcome Effect :=
  (current.update settings.policy actor p).map (ofUpdate current.version)

def create (request : Registration) (id : Uuid) : Outcome Effect := do
  request.check settings.policy
  let qualifiedName := Name.qualify request.name
  if (records.getNamed? qualifiedName).isSome then
    .error (.conflict (.qualifiedNameTaken qualifiedName))
  else return created (request.service id actor)

def put (request : Registration) (id : Uuid) : Outcome Effect :=
  match records.getNamed? (Name.qualify request.name) with
  | none => create settings records actor request id
  | some current => do
    if current.isDeleted then .error (.invalid (.putDeleted (Name.qualify request.name)))
    request.check settings.policy
    patch settings actor current request.patch

def update (id : Uuid) (p : Patch) (base : Option Version) : Outcome Effect := do
  let current ← records.load id
  match base with
  | some base =>
    if base ≠ current.version then .error (.conflict (.stalePatch id current.version base))
  | none => pure ()
  patch settings actor (← loadLive records id) p

def mark (id : Uuid) (deleted : Bool) : Outcome Effect := do
  let current ← records.load id
  let (log, _) := ChangeLog.empty.replace "deleted" current.isDeleted deleted
  commit actor current { current with deleted := some deleted } log

def remove (id : Uuid) : Outcome Effect := do return removed (← records.load id)

def follow (id : Uuid) (user : Reference) : Outcome Effect := do
  let current ← loadLive records id
  if current.followerList.any (·.id == user.id) then return unchanged current
  else
    commit actor current { current with followers := some (current.followerList ++ [user]) }
      (ChangeLog.empty.addElement "followers" (toValue user))

def unfollow (id : Uuid) (user : Uuid) : Outcome Effect := do
  let current ← loadLive records id
  match current.followerList.find? (·.id == user) with
  | none => return unchanged current
  | some follower =>
    let rest := current.followerList.eraseP (·.id == user)
    commit actor current { current with followers := if rest.isEmpty then none else some rest }
      (ChangeLog.empty.deleteElement "followers" (toValue follower))

def recordTest (id : Uuid) (result : TestResult) (time : Int64) : Outcome Effect := do
  let current ← loadLive records id
  let result := { result with lastUpdatedAt := some (result.lastUpdatedAt.getD time) }
  let (log, result) := ChangeLog.empty.apply "testConnectionResult" current.testResult (.set result)
  commit actor current { current with testResult := result } log

def launchConfig (s : Service) : Outcome LaunchConfig :=
  match s.launch? with
  | some launch => .ok launch
  | none => .error (.invalid (.noCommand s.qualifiedName))

def launchable (id : Uuid) : Outcome (Service × LaunchConfig) := do
  let current ← loadLive records id
  return (current, ← launchConfig current)

/-- What a server tells is put into the service, as it was before the server was launched. -/
def learn (id : Uuid) (current : Service) (report : Report) : Outcome Effect :=
  match report.discovered with
  | some found => update settings records actor id found.patch (some current.version)
  | none =>
    .error (.unreachable current.qualifiedName
      (report.failure?.getD "server did not initialize"))

section

-- a server is launched by the probe alone, and the world is what tells
variable {ω : Type} (probe : LaunchConfig → ω → Report × ω)

def test (id : Uuid) (time : Int64) (w : ω) : Outcome Effect × ω :=
  match launchable records id with
  | .error e => (.error e, w)
  | .ok (_, launch) =>
    let (report, w) := probe launch w
    (recordTest records actor id report.result time, w)

def discover (id : Uuid) (w : ω) : Outcome Effect × ω :=
  match launchable records id with
  | .error e => (.error e, w)
  | .ok (current, launch) =>
    let (report, w) := probe launch w
    (learn settings records actor id current report, w)

end

def patchTags (tags : List Label) : Patch := { Patch.empty with tags := .ofList tags }

def selectTags (id : Uuid) (selected : List TagSelection) : Outcome Effect := do
  let current ← records.load id
  let (tier, editable) := Label.splitTier current.tagList
  let tags := Label.mergeTier tier (Label.reconcile editable (selected.filter fun s => !s.isTier))
  update settings records actor id (patchTags tags) none

def tierLabel (existing : Option Label) (tier : TagSelection) : Label :=
  (existing.filter fun l => l.tag == tier.tag).getD tier.label

def setTier (id : Uuid) (tier : Option TagSelection) : Outcome Effect := do
  match tier with
  | some t => if !t.isTier then .error (.invalid (.notTier t.tag))
  | none => pure ()
  let current ← records.load id
  let (existing, editable) := Label.splitTier current.tagList
  update settings records actor id
    (patchTags (Label.mergeTier (tier.map (tierLabel existing)) editable)) none

end Effect

end ServiceCatalog
