import ServiceCatalog.CommandLine.Arguments
import ServiceCatalog.CommandLine.Report
import ServiceCatalog.Entity.Include
import ServiceCatalog.Files.Path
import ServiceCatalog.Tag.Selection
import ServiceCatalog.Time.Basic

namespace ServiceCatalog.CommandLine

inductive ImportMode where
  | plan
  | put
  | discover (patience : Duration)

inductive Command where
  | create (name : String) (launch : LaunchConfig) (description displayName : Option String)
  | apply (file : Path)
  | get (service : String) (included : Include) (version : Option Version) (hideConnection : Bool)
  | list (query : ListQuery)
  | update (service : String) (patch : Path) (base : Option Version)
  | tag (service : String) (selected : List TagSelection)
  | tier (service : String) (tier : Option TagSelection)
  | delete (service : String) (hard confirmed : Bool)
  | restore (service : String)
  | versions (service : String)
  | follow (service : String) (user : Uuid) (name : Option String)
  | unfollow (service : String) (user : Uuid)
  | recordTest (service : String) (file : Path)
  | test (service : String) (patience : Duration)
  | discover (service : String) (patience : Duration)
  | form (kind : Option ConnectionKind)
  | importServers (file : Path) (mode : ImportMode)

structure Invocation where
  config : Option Path
  store : Option Path
  user : Option String
  format : Format
  command : Command

def readPath (s : String) : Option Path := if s.isEmpty then none else some (.ofText s)

def readCount (s : String) : Option Nat :=
  let ds := match s.toList with
    | '+' :: r => r
    | r => r
  if ds.isEmpty || !ds.all Char.isDigit || UInt64.size ≤ Digits.toNat ds then none
  else some (Digits.toNat ds)

def readPatience (s : String) : Option Duration := (readCount s).map Duration.ofSeconds

def readVariable (s : String) : Option (String × String) :=
  match s.toList.dropWhile (· != '=') with
  | [] => none
  | _ :: value =>
    let key := s.toList.takeWhile (· != '=')
    if key.all isBlank then none else some (String.ofList key, String.ofList value)

namespace Command

open OptionSpec

def globalOptions : List OptionSpec := [value "config", value "store", value "user"]

def formatOption : OptionSpec := { value "format" with letter := some 'f' }

def options : List (String × List OptionSpec) := [
  ("create", [value "command", repeated "arg" true, repeated "env" false, value "cwd",
    value "description", value "display-name", formatOption]),
  ("apply", [formatOption]),
  ("get", [value "include", value "version", flag "hide-connection" none, formatOption]),
  ("list", [value "include", value "domain", value "limit", value "after", formatOption]),
  ("update", [value "patch", value "base-version", formatOption]),
  ("tag", [repeated "glossary" false, formatOption]),
  ("tier", [formatOption]),
  ("delete", [flag "hard" none, flag "yes" (some 'y'), formatOption]),
  ("restore", [formatOption]),
  ("versions", [formatOption]),
  ("follow", [value "id", value "name", formatOption]),
  ("unfollow", [value "id", formatOption]),
  ("test-result", [formatOption]),
  ("test-connection", [value "timeout", formatOption]),
  ("discover", [value "timeout", formatOption]),
  ("form-schema", []),
  ("import", [flag "dry-run" none, flag "discover" none, value "timeout", formatOption])]

def fullName : String → String
  | "ls" => "list"
  | "rm" => "delete"
  | name => name

variable (a : Arguments)

def readLaunch : Option LaunchConfig := do
  let command ← a.value? "command"
  let env ← (a.values "env").mapM readVariable
  let args := a.values "arg"
  let launch : LaunchConfig :=
    ⟨command, if args.isEmpty then none else some args, none, a.value? "cwd"⟩
  return env.foldl (fun l (key, value) => l.withEnv key value) launch

def readInclude : Option Include := do
  return (← a.readValue "include" Include.ofName?).getD .live

def readTimeout : Option Duration := do
  return (← a.readValue "timeout" readPatience).getD (.ofSeconds 30)

def selection (tags terms : List String) : List TagSelection :=
  tags.map (.ofTag · .classification) ++ terms.map (.ofTag · .glossary)

def readImportMode : Option ImportMode := do
  let patience ← readTimeout a
  match a.has "dry-run", a.has "discover" with
  | true, true => none
  | true, false => return .plan
  | false, true => return .discover patience
  | false, false => return .put

def read (name : String) : Option Command :=
  match name, a.operands with
  | "create", [service] => do
    return .create service (← readLaunch a) (a.value? "description") (a.value? "display-name")
  | "apply", [file] => do return .apply (← readPath file)
  | "get", [service] => do
    return .get service (← readInclude a) (← a.readValue "version" Version.ofText?)
      (a.has "hide-connection")
  | "list", [] => do
    return .list ⟨← readInclude a, a.value? "domain", ← a.readValue "limit" readCount,
      a.value? "after"⟩
  | "update", [service] => do
    return .update service (← a.required "patch" readPath)
      (← a.readValue "base-version" Version.ofText?)
  | "tag", service :: tags => some (.tag service (selection tags (a.values "glossary")))
  | "tier", [service] => some (.tier service none)
  | "tier", [service, wanted] => some (.tier service (some (.ofTag wanted .classification)))
  | "delete", [service] => some (.delete service (a.has "hard") (a.has "yes"))
  | "restore", [service] => some (.restore service)
  | "versions", [service] => some (.versions service)
  | "follow", [service] => do
    return .follow service (← a.required "id" Uuid.ofText?) (a.value? "name")
  | "unfollow", [service] => do return .unfollow service (← a.required "id" Uuid.ofText?)
  | "test-result", [service, file] => do return .recordTest service (← readPath file)
  | "test-connection", [service] => do return .test service (← readTimeout a)
  | "discover", [service] => do return .discover service (← readTimeout a)
  | "form-schema", [] => some (.form none)
  | "form-schema", [kind] => do return .form (some (← ConnectionKind.ofText? kind))
  | "import", [file] => do return .importServers (← readPath file) (← readImportMode a)
  | _, _ => none

end Command

def Invocation.ofArguments? (args : List String) : Option Invocation := do
  let front ← Arguments.read Command.globalOptions true args
  let name :: rest := front.operands | none
  let name := Command.fullName name
  let options ← (Command.options.find? (·.1 == name)).map (·.2)
  let a ← Arguments.read (Command.globalOptions ++ options) false rest
  return {
    config := (← a.readValue "config" readPath) <|> (← front.readValue "config" readPath)
    store := (← a.readValue "store" readPath) <|> (← front.readValue "store" readPath)
    user := a.value? "user" <|> front.value? "user"
    format := (← a.readValue "format" Format.ofName?).getD .table
    command := ← Command.read a name }

end ServiceCatalog.CommandLine
