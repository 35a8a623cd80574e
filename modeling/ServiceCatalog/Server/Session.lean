import ServiceCatalog.Files.Basic
import ServiceCatalog.Server.Discovery
import ServiceCatalog.Server.Program
import ServiceCatalog.Time.Basic
import ServiceCatalog.Wire.Basic

/-!
Sessions with servers that speak JSON-RPC in lines. Requests are numbered; a request waits for the message
with its number and skips every other one.
-/

namespace ServiceCatalog

inductive SessionFault where
  | unlaunched (commandLine : String) (reason : FileFault)
  | unwritable
  | timedOut (method : String) (patience : Duration)
  | exited (method : String)
  | refused (method reason : String)
  | malformed (method : String)
  | repeatedCursor (method : String)
  /-- No more pages are to be asked for. The program that is modelled has no such bound and goes on. -/
  | endless (method : String)
deriving DecidableEq

def SessionFault.message : SessionFault → String
  | .unlaunched commandLine _ => s!"Failed to spawn MCP server: {commandLine}"
  | .unwritable => "Failed to write to MCP server stdin"
  | .timedOut method patience => s!"'{method}' timed out after {patience.text}"
  | .exited method => s!"MCP server exited before answering '{method}'"
  | .refused method reason => s!"'{method}' failed: {reason}"
  | .malformed method => s!"Malformed '{method}' response"
  | .repeatedCursor method => s!"'{method}' returned the same cursor twice"
  | .endless method => s!"'{method}' returned too many pages"

def SessionFault.explanation (e : SessionFault) : String :=
  match e with
  | .unlaunched _ reason => s!"{e.message}: {reason.message}"
  | .unwritable => e.message ++ ": Broken pipe (os error 32)"
  | e => e.message

/-- How far a program has come: not yet to its first line, to its next, or to its end. -/
inductive Phase (τ : Type) where
  | launched
  | running (state : τ)
  | exited

structure Session (τ : Type) where
  program : Program τ
  phase : Phase τ
  inbox : List Value
  unfinished : List Char
  received : List Json
  lastId : Nat
  patience : Duration
  timedOut : Bool

namespace Session

variable {τ : Type}

def launch (program : Program τ) (patience : Duration) : Session τ :=
  ⟨program, .launched, [], [], [], 0, patience, false⟩

/-- Takes in what the program printed and how it goes on. A line that an exit leaves unfinished is taken
as it is. -/
def absorb (s : Session τ) (printed : String × Option τ) : Session τ :=
  let (lines, rest) := Message.splitLines (s.unfinished ++ printed.1.toList)
  match printed.2 with
  | some state =>
    { s with
      phase := .running state
      inbox := s.inbox ++ lines.filterMap Message.ofLine?
      unfinished := rest }
  | none =>
    { s with
      phase := .exited
      inbox := s.inbox ++ (lines ++ [rest]).filterMap Message.ofLine?
      unfinished := [] }

def deliver (s : Session τ) (state : τ) (message : Json) : Session τ :=
  { s with received := s.received ++ [message] }.absorb (s.program.step state message.compact)

def send (s : Session τ) (message : Json) : Except SessionFault (Session τ) :=
  match s.phase with
  | .exited => .error .unwritable
  | .running state => .ok (s.deliver state message)
  | .launched =>
    let s := s.absorb s.program.start
    match s.phase with
    | .running state => .ok (s.deliver state message)
    | _ => .ok s

def findAnswer (id : Nat) : List Value → Option (Value × List Value)
  | [] => none
  | m :: r => if Message.id? m = some id then some (m, r) else findAnswer id r

def refusal? (answer : Value) : Option String :=
  (answer.tree.field? "error").map fun e =>
    ((e.field? "message").bind Json.str?).getD e.compact

def resultOf (method : String) (answer : Value) : Except SessionFault Json :=
  match refusal? answer with
  | some reason => .error (.refused method reason)
  | none => .ok ((answer.tree.field? "result").getD .null)

def requestMessage (id : Nat) (method : String) (params : Json) : Json :=
  .obj [("id", .int id), ("jsonrpc", .str "2.0"), ("method", .str method), ("params", params)]

def notification (method : String) : Json :=
  .obj [("jsonrpc", .str "2.0"), ("method", .str method), ("params", .obj [])]

def await (s : Session τ) (id : Nat) (method : String) : Except SessionFault Json × Session τ :=
  match findAnswer id s.inbox with
  | some (answer, rest) => (resultOf method answer, { s with inbox := rest })
  | none =>
    match s.phase with
    | .exited => (.error (.exited method), { s with inbox := [] })
    | _ => (.error (.timedOut method s.patience), { s with inbox := [], timedOut := true })

def request (s : Session τ) (method : String) (params : Json) :
    Except SessionFault Json × Session τ :=
  let s := { s with lastId := s.lastId + 1 }
  match s.send (requestMessage s.lastId method params) with
  | .error e => (.error e, s)
  | .ok s => s.await s.lastId method

def handshakeMethod : String := "initialize"

def handshakeParams : Json :=
  .obj [
    ("capabilities", .obj []),
    ("clientInfo", .obj [("name", .str "mcpcat"), ("version", .str "0.1.0")]),
    ("protocolVersion", .str "2024-11-05")]

def handshake (s : Session τ) : Except SessionFault ServerInfo × Session τ :=
  match s.request handshakeMethod handshakeParams with
  | (.error e, s) => (.error e, s)
  | (.ok result, s) =>
    match (decode result : Option ServerInfo) with
    | none => (.error (.malformed handshakeMethod), s)
    | some info =>
      match s.send (notification "notifications/initialized") with
      | .error e => (.error e, s)
      | .ok s => (.ok info, s)

def readPage {α : Type} [Wire α] (key : String) (result : Json) : Option (List α × Option String) := do
  let items ← decode ((result.field? key).getD (.arr []))
  return (items, (result.field? "nextCursor").bind Json.str?)

def pageParams (cursor : Option String) : Json :=
  .record [("cursor", cursor.map Json.str)]

def collect {α : Type} [Wire α] (method key : String) :
    Nat → Option String → Session τ → Except SessionFault (List α) × Session τ
  | 0, _, s => (.error (.endless method), s)
  | pages + 1, cursor, s =>
    match s.request method (pageParams cursor) with
    | (.error e, s) => (.error e, s)
    | (.ok result, s) =>
      match readPage key result with
      | none => (.error (.malformed method), s)
      | some (items, none) => (.ok items, s)
      | some (items, some next) =>
        if cursor = some next then (.error (.repeatedCursor method), s)
        else
          match collect method key pages (some next) s with
          | (.error e, s) => (.error e, s)
          | (.ok more, s) => (.ok (items ++ more), s)

end Session

namespace ListKind

def method : ListKind → String
  | .tools => "tools/list"
  | .resources => "resources/list"
  | .prompts => "prompts/list"

end ListKind

namespace Session

variable {τ : Type}

def list {α : Type} [Wire α] (kind : ListKind) (pages : Nat) (s : Session τ) :
    Except SessionFault (List α) × Session τ :=
  s.collect kind.method kind.capability pages none

def tools (pages : Nat) (s : Session τ) : Except SessionFault (List Tool) × Session τ :=
  s.list .tools pages

def resources (pages : Nat) (s : Session τ) : Except SessionFault (List Resource) × Session τ :=
  s.list .resources pages

def prompts (pages : Nat) (s : Session τ) : Except SessionFault (List Prompt) × Session τ :=
  s.list .prompts pages

def told {α ω : Type} (call : Session τ → Except SessionFault α × Session τ) : Call (Session τ × ω) α :=
  fun (s, w) => match call s with
    | (.ok a, s) => (.ok a, s, w)
    | (.error e, s) => (.error e.explanation, s, w)

def connector {ω : Type} (start : LaunchConfig → Except FileFault (Program τ)) (patience : Duration) (pages : Nat) :
    Connector ω (Session τ) where
  connect launch w :=
    match start launch with
    | .ok program => (.ok (Session.launch program patience), w)
    | .error reason => (.error (SessionFault.unlaunched launch.commandLine reason).explanation, w)
  handshake := told handshake
  tools := told (tools pages)
  resources := told (resources pages)
  prompts := told (prompts pages)

end Session

end ServiceCatalog
