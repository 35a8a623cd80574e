import ServiceCatalog.Service.Registration
import ServiceCatalog.Wire.Basic

/-!
Registrations taken from the configuration of a client, which lists servers under their names. Servers
without a command cannot be launched and are left out.
-/

namespace ServiceCatalog

structure ClientServer where
  command : Option String
  args : Option (List String)
  env : Option (Dict String)
  cwd : Option String
  url : Option String

instance : Wire ClientServer where
  encode s := .record [
    ("command", s.command.map encode),
    ("args", s.args.map encode),
    ("env", s.env.map encode),
    ("cwd", s.cwd.map encode),
    ("url", s.url.map encode)]
  decode := readRecord do
    return {
      command := ← Fields.optional "command"
      args := ← Fields.optional "args"
      env := ← Fields.optional "env"
      cwd := ← Fields.optional "cwd"
      url := ← Fields.optional "url" }

structure ClientConfig where
  servers : Dict ClientServer

instance : Wire ClientConfig where
  encode c := .record [("mcpServers", some (encode c.servers))]
  decode := readRecord do
    return { servers := ← Fields.withDefault "mcpServers" .empty }

def ClientServer.registration? (name : String) (s : ClientServer) : Option Registration :=
  (s.command.filter fun c => !isBlankText c).map fun command =>
    .ofConnection name (.ofLaunch ⟨command, s.args, s.env, s.cwd⟩)

namespace ClientConfig

def registrations (c : ClientConfig) : List Registration :=
  c.servers.entries.filterMap fun (name, s) => s.registration? name

def readRegistrations (text : String) : Outcome (List Registration) :=
  match (decodeText? text : Option ClientConfig) with
  | some c => .ok c.registrations
  | none => .error .malformed

end ClientConfig

end ServiceCatalog
