import ServiceCatalog.Server.Info
import ServiceCatalog.Service.Patch
import ServiceCatalog.Text.Basic

/-!
Asking a server for what it offers. A session begins with a handshake, followed by one call for each
list; every call is a step of a connection test. Lists that a server does not advertise are not asked
for and count as empty.
-/

namespace ServiceCatalog

abbrev Call (σ α : Type) := σ → Except String α × σ

structure Connector (ω σ : Type) where
  connect : LaunchConfig → Call ω σ
  handshake : Call (σ × ω) ServerInfo
  tools : Call (σ × ω) (List Tool)
  resources : Call (σ × ω) (List Resource)
  prompts : Call (σ × ω) (List Prompt)

structure Discovered where
  server : ServerInfo
  tools : Option (List Tool)
  resources : Option (List Resource)
  prompts : Option (List Prompt)

structure Report where
  result : TestResult
  discovered : Option Discovered

namespace Discovered

def listPatch {α : Type} : Option (List α) → FieldPatch (List α)
  | none => .keep
  | some l => .ofList l

def patch (d : Discovered) : Patch :=
  { Patch.empty with
    availableTools := listPatch d.tools
    availableResources := listPatch d.resources
    availablePrompts := listPatch d.prompts
    serverInstructions := .ofOption (d.server.instructions.filter fun i => !isBlankText i) }

end Discovered

namespace Report

def passed (r : Report) : Bool := r.result.effectiveStatus = .successful

def failure? (r : Report) : Option String :=
  r.result.failedStep?.map fun s => s.errorLog.getD s.name

end Report

def TestResult.ofSteps (steps : List TestStep) : TestResult :=
  let r : TestResult := ⟨none, none, steps⟩
  { r with status := some r.effectiveStatus }

namespace TestStep

def pass (name : String) (mandatory : Bool) (message : String) : TestStep :=
  ⟨name, mandatory, true, some message, none⟩

def fail (name : String) (mandatory : Bool) (error : String) : TestStep :=
  ⟨name, mandatory, false, none, some error⟩

def skip (name : String) (mandatory : Bool) : TestStep :=
  ⟨name, mandatory, false, some "Skipped: server did not initialize", none⟩

end TestStep

inductive ListKind where
  | tools
  | resources
  | prompts
deriving DecidableEq

namespace ListKind

def step : ListKind → String
  | .tools => "ListTools"
  | .resources => "ListResources"
  | .prompts => "ListPrompts"

def mandatory : ListKind → Bool
  | .tools => true
  | _ => false

def capability : ListKind → String
  | .tools => "tools"
  | .resources => "resources"
  | .prompts => "prompts"

end ListKind

namespace Connector

variable {ω σ : Type}

def takeList {α : Type} (info : ServerInfo) (kind : ListKind) (call : Call σ (List α)) (s : σ) :
    TestStep × Option (List α) × σ :=
  if info.advertises kind.capability then
    match call s with
    | (.ok items, s) =>
      let message := s!"Found {natText items.length} {kind.capability}"
      (.pass kind.step kind.mandatory message, some items, s)
    | (.error e, s) => (.fail kind.step kind.mandatory e, none, s)
  else
    let message := s!"Server does not advertise {kind.capability}"
    (.pass kind.step kind.mandatory message, some [], s)

def greeting (info : ServerInfo) : String :=
  match info.name?, info.protocolVersion with
  | some name, some version => s!"Connected to '{name}' (protocol {version})"
  | some name, none => s!"Connected to '{name}'"
  | none, _ => "Connected"

def handshakeStep : String := "Initialize"

def unreached (error : String) : Report :=
  ⟨.ofSteps (.fail handshakeStep true error
    :: [ListKind.tools, .resources, .prompts].map fun k => .skip k.step k.mandatory), none⟩

def takeLists (c : Connector ω σ) (info : ServerInfo) (s : σ × ω) : Report × σ × ω :=
  let (toolStep, tools, s) := takeList info .tools c.tools s
  let (resourceStep, resources, s) := takeList info .resources c.resources s
  let (promptStep, prompts, s) := takeList info .prompts c.prompts s
  let steps := [.pass handshakeStep true (greeting info), toolStep, resourceStep, promptStep]
  (⟨.ofSteps steps, some ⟨info, tools, resources, prompts⟩⟩, s)

def discover (c : Connector ω σ) (launch : LaunchConfig) (w : ω) : Report × Option σ × ω :=
  match c.connect launch w with
  | (.error e, w) => (unreached e, none, w)
  | (.ok s, w) =>
    match c.handshake (s, w) with
    | (.error e, s, w) => (unreached e, some s, w)
    | (.ok info, t) =>
      let (report, s, w) := c.takeLists info t
      (report, some s, w)

end Connector

end ServiceCatalog
