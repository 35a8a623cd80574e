import ServiceCatalog.Service.Kind
import ServiceCatalog.Text.Basic

namespace ServiceCatalog

inductive ConnectionKind where
  | mcp
deriving DecidableEq

namespace ConnectionKind

def all : List ConnectionKind := [.mcp]

def name : ConnectionKind → String
  | .mcp => "Mcp"

def label : ConnectionKind → String
  | .mcp => "MCP"

def serviceKind : ConnectionKind → ServiceKind
  | .mcp => .mcp

def options : List (String × String) := all.map fun k => (k.label, k.name)

def ofName? : String → Option ConnectionKind
  | "Mcp" => some .mcp
  | _ => none

def ofText? (s : String) : Option ConnectionKind :=
  match s.toLower with
  | "mcp" => some .mcp
  | _ => none

def nameFault (s : String) : String := s!"Invalid MCP connection type: '{s}'. Valid values: Mcp"

instance : Wire ConnectionKind where
  encode k := .str k.name
  decode := Wire.decodeName ofName?

end ConnectionKind

structure LaunchConfig where
  command : String
  args : Option (List String)
  env : Option (Dict String)
  cwd : Option String
deriving DecidableEq

namespace LaunchConfig

def ofCommand (command : String) : LaunchConfig := ⟨command, none, none, none⟩

def withEnv (c : LaunchConfig) (key value : String) : LaunchConfig :=
  { c with env := some ((c.env.getD .empty).insert key value) }

def commandLine (c : LaunchConfig) : String := " ".intercalate (c.command :: c.args.getD [])

instance : Wire LaunchConfig where
  encode c := .record [
    ("command", some (encode c.command)),
    ("args", c.args.map encode),
    ("env", c.env.map encode),
    ("cwd", c.cwd.map encode)]
  decode := readRecord do
    return {
      command := ← Fields.withDefault "command" ""
      args := ← Fields.optional "args"
      env := ← Fields.optional "env"
      cwd := ← Fields.optional "cwd" }

end LaunchConfig

structure ConnectionConfig where
  kind : Option ConnectionKind
  launch : LaunchConfig
  options : Option (Dict String)
  arguments : Option (Dict Value)
deriving BEq

instance : Wire ConnectionConfig where
  encode c := .record [
    ("type", c.kind.map encode),
    ("config", some (encode c.launch)),
    ("connectionOptions", c.options.map encode),
    ("connectionArguments", c.arguments.map encode)]
  decode := readRecord do
    return {
      kind := ← Fields.optional "type"
      launch := ← Fields.required "config"
      options := ← Fields.optional "connectionOptions"
      arguments := ← Fields.optional "connectionArguments" }

structure Connection where
  config : Option ConnectionConfig
deriving BEq

inductive ConnectionFault where
  | unconfigured
  | wrongKind (connection : ConnectionKind) (service : ServiceKind)
  | blankCommand
  | blankVariable
deriving DecidableEq

def ConnectionFault.message : ConnectionFault → String
  | .unconfigured => "connection.config is required"
  | .wrongKind c s => s!"connection type '{c.name}' does not match service type '{s.name}'"
  | .blankCommand => "connection.config.config.command is required"
  | .blankVariable => "environment variable names must not be empty"

def LaunchConfig.check (c : LaunchConfig) : Except ConnectionFault Unit :=
  if isBlankText c.command then .error .blankCommand
  else if (c.env.getD .empty).keys.any isBlankText then .error .blankVariable
  else .ok ()

namespace Connection

def ofLaunch (launch : LaunchConfig) : Connection := ⟨some ⟨some .mcp, launch, none, none⟩⟩

def launch? (c : Connection) : Option LaunchConfig := c.config.map (·.launch)

def check (kind : ServiceKind) (c : Connection) : Except ConnectionFault Unit :=
  match c.config with
  | none => .error .unconfigured
  | some config =>
    match config.kind with
    | some k =>
      if k.serviceKind = kind then config.launch.check else .error (.wrongKind k kind)
    | none => config.launch.check

instance : Wire Connection where
  encode c := .record [("config", c.config.map encode)]
  decode := readRecord do
    return { config := ← Fields.optional "config" }

end Connection

end ServiceCatalog
