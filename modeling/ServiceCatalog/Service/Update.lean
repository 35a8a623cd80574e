import ServiceCatalog.Change.Log
import ServiceCatalog.Service.Error
import ServiceCatalog.Service.Patch

namespace ServiceCatalog

structure Update where
  service : Service
  change : Option ChangeDescription
deriving BEq

namespace Update

def unchanged (s : Service) : Update := ⟨s, none⟩

def isNoop (u : Update) : Bool := u.change.isNone

end Update

def loses (before after : List String) : Bool := before.any fun k => !after.contains k

namespace Service

def losesCapabilities (before after : Service) : Bool :=
  loses (before.toolList.map Tool.name) (after.toolList.map Tool.name)
    || loses (before.resourceList.map Resource.uri) (after.resourceList.map Resource.uri)
    || loses (before.promptList.map Prompt.name) (after.promptList.map Prompt.name)

def asVersion (s : Service) (version : Version) (actor : Actor) (change : ChangeDescription) : Service :=
  { s with
    version := version
    updatedAt := actor.time
    updatedBy := actor.user
    change := some change
    incrementalChange := some change }

def commit (current next : Service) (log : ChangeLog) (actor : Actor) : Outcome Update :=
  if log.isEmpty then .ok (.unchanged current)
  else
    match log.step.next? current.version with
    | none => .error (.invalid (.versionExhausted current.version current.qualifiedName))
    | some version =>
      let change := log.describe current.version actor
      .ok ⟨next.asVersion version actor change, some change⟩

def checkPatch (policy : DuplicatePolicy) (current : Service) (p : Patch) : Outcome Unit := do
  if p.id.any (· != current.id) then .error (.invalid .idChange)
  match p.kind with
  | some kind => if kind ≠ current.kind then .error (.invalid (.kindChange current.kind kind))
  | none => pure ()
  match p.name with
  | .set name => Outcome.lift .name (Name.check name)
  | _ => pure ()
  match p.connection with
  | .set c => Outcome.lift .connection (c.check current.kind)
  | _ => pure ()
  Outcome.lift .capability (p.capabilities.check policy)
  match p.tags with
  | .set tags => Outcome.lift .tags (Label.check tags)
  | _ => pure ()

def rename (s : Service) (log : ChangeLog) : FieldPatch String → Outcome (ChangeLog × Service)
  | .keep => .ok (log, s)
  | .clear => .error (.invalid .nameCleared)
  | .set name =>
    let (log, name) := log.replace "name" s.name name
    .ok (log, { s with name := name, qualifiedName := Name.qualify name })

def patchField (p : Patch) (state : ChangeLog × Service) (f : Field) : ChangeLog × Service :=
  let (log, a) := state.1.apply f.name (state.2.get f) (p.get f)
  (log, state.2.set f a)

def patchFields (p : Patch) (state : ChangeLog × Service) : ChangeLog × Service :=
  Field.all.foldl (patchField p) state

def update (policy : DuplicatePolicy) (actor : Actor) (current : Service) (p : Patch) :
    Outcome Update := do
  checkPatch policy current p
  let (log, next) := patchFields p (← current.rename .empty p.name)
  let log := if current.losesCapabilities next then log.escalate .major else log
  current.commit next log actor

end Service

end ServiceCatalog
