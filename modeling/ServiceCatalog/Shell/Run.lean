import ServiceCatalog.Connection.Basic
import ServiceCatalog.Text.Basic
import ServiceCatalog.Files.Basic
import ServiceCatalog.Server.Program
import ServiceCatalog.Shell.Reader
import ServiceCatalog.Shell.Text

namespace ServiceCatalog.Shell

inductive Task where
  | run (c : Command)
  | onSuccess (c : Command)
  | onFailure (c : Command)
  | negate
  | loop (wanted : Bool) (condition body : Command)
  | again (wanted : Bool) (condition body : Command)
  | branch (yes no : Command)
  | read (names : List String) (raw : Bool)
  | copy
  | pause

structure State where
  bindings : List (String × String)
  name : String
  arguments : List String
  status : Nat
  todo : List Task

namespace State

def value (s : State) (name : String) : String :=
  match name.toNat? with
  | some 0 => s.name
  | some n => (s.arguments[n - 1]?).getD ""
  | none =>
    match name with
    | "#" => natText s.arguments.length
    | "?" => natText s.status
    | "@" | "*" => " ".intercalate s.arguments
    | _ => ((s.bindings.find? (·.1 == name)).map (·.2)).getD ""

def assign (s : State) (name value : String) : State :=
  { s with bindings := (name, value) :: s.bindings.filter (·.1 != name) }

def done (s : State) (status : Nat) : State := { s with status := status }

def push (s : State) (tasks : List Task) : State := { s with todo := tasks ++ s.todo }

end State

structure Expansion where
  complete : List (List Char)
  last : List Char
  present : Bool

namespace Expansion

def empty : Expansion := ⟨[], [], false⟩

def add (e : Expansion) (cs : List Char) (quoted : Bool) : Expansion :=
  { e with last := e.last ++ cs, present := e.present || quoted || !cs.isEmpty }

def close (e : Expansion) : Expansion :=
  if e.present then ⟨e.complete ++ [e.last], [], false⟩ else e

def addFields (e : Expansion) (cs : List Char) : Expansion :=
  let e := if cs.head?.any isFieldBlank then e.close else e
  let e := match fields cs with
    | [] => e
    | f :: r => r.foldl (fun e f => e.close.add f false) (e.add f false)
  if cs.getLast?.any isFieldBlank then e.close else e

def addEach (e : Expansion) : List (List Char) → Expansion
  | [] => e
  | f :: r => r.foldl (fun e f => e.close.add f true) (e.add f true)

def fields (e : Expansion) : List String := e.close.complete.map String.ofList

end Expansion

mutual

def expand : Nat → State → Word → Expansion → Expansion
  | 0, _, _, e => e
  | _ + 1, _, [], e => e
  | fuel + 1, s, .text cs quoted :: r, e => expand fuel s r (e.add cs quoted)
  | fuel + 1, s, .param "@" true :: r, e =>
    expand fuel s r (e.addEach (s.arguments.map String.toList))
  | fuel + 1, s, .param name quoted :: r, e =>
    let cs := (s.value name).toList
    expand fuel s r (if quoted then e.add cs true else e.addFields cs)
  | fuel + 1, s, .output c quoted :: r, e =>
    let (out, _) := advance fuel { s with todo := [.run c] }
    let cs := (out.reverse.dropWhile (· == '\n')).reverse
    expand fuel s r (if quoted then e.add cs true else e.addFields cs)

def expandText : Nat → State → Word → List Char
  | 0, _, _ => []
  | fuel + 1, s, w => (" ".intercalate (expand fuel s w .empty).fields).toList

def invoke : Nat → State → List String → List Char × State
  | 0, s, _ => ([], s)
  | _ + 1, s, [] => ([], s.done 0)
  | _ + 1, s, name :: args =>
    match name, args with
    | "exit", _ => ([], { s.done ((args.head?.bind String.toNat?).getD s.status) with todo := [] })
    | "exec", _ :: _ => ([], { s with todo := [.run (.simple [] (args.map fun a => [.text a.toList true]) false)] })
    | ":", _ | "true", _ | "export", _ | "set", _ | "trap", _ => ([], s.done 0)
    | "false", _ => ([], s.done 1)
    | "pwd", _ => ((s.value "PWD").toList ++ ['\n'], s.done 0)
    | "shift", _ => ([], { s.done 0 with arguments := s.arguments.drop 1 })
    | "echo", "-n" :: words => (escaped words, s.done 0)
    | "echo", words => (escaped words ++ ['\n'], s.done 0)
    | "printf", format :: args =>
      (formatAll args.length format.toList (args.map String.toList), s.done 0)
    | "read", "-r" :: names => ([], s.push [.read names true])
    | "read", names => ([], s.push [.read names false])
    | "cat", [] => ([], s.push [.copy])
    | "sleep", _ => ([], s.push [.pause])
    | _, _ => ([], s.done 127)
where
  escaped (words : List String) : List Char :=
    let cs := (" ".intercalate words).toList
    unescape cs.length cs

def runCommand : Nat → State → Command → List Char × State
  | 0, s, _ => ([], s)
  | fuel + 1, s, c =>
    match c with
    | .skip => ([], s)
    | .both a b => ([], s.push [.run a, .run b])
    | .andThen a b => ([], s.push [.run a, .onSuccess b])
    | .orElse a b => ([], s.push [.run a, .onFailure b])
    | .negate a => ([], s.push [.run a, .negate])
    | .loop wanted condition body => ([], s.push [.loop wanted condition body])
    | .branch condition yes no => ([], s.push [.run condition, .branch yes no])
    | .choose word cases =>
      let text := expandText fuel s word
      let chosen := cases.find? fun (patterns, _) =>
        patterns.any fun p => globMatches (pattern fuel s p) text
      ([], match chosen with
        | some (_, c) => (s.done 0).push [.run c]
        | none => s.done 0)
    | .simple assignments words silent =>
      let s := assignments.foldl (fun s (name, w) =>
        s.assign name (String.ofList (expandText fuel s w))) s
      let (out, s) := invoke fuel s (words.flatMap fun w => (expand fuel s w .empty).fields)
      (if silent then [] else out, s)

def pattern : Nat → State → Word → List Glob
  | 0, _, _ => []
  | _ + 1, _, [] => []
  | fuel + 1, s, .text cs quoted :: r => globs cs quoted ++ pattern fuel s r
  | fuel + 1, s, part :: r => globs (expandText fuel s [part]) true ++ pattern fuel s r

def advance : Nat → State → List Char × Option State
  | 0, s => ([], some { s with todo := [.pause] })
  | fuel + 1, s =>
    match s.todo with
    | [] => ([], none)
    | .read _ _ :: _ | .copy :: _ | .pause :: _ => ([], some s)
    | task :: rest =>
      let s := { s with todo := rest }
      let (out, s) := match task with
        | .run c => runCommand fuel s c
        | .onSuccess c => ([], if s.status = 0 then s.push [.run c] else s)
        | .onFailure c => ([], if s.status = 0 then s else s.push [.run c])
        | .negate => ([], s.done (if s.status = 0 then 1 else 0))
        | .loop wanted condition body => ([], s.push [.run condition, .again wanted condition body])
        | .again wanted condition body =>
          ([], if (s.status == 0) == wanted then s.push [.run body, .loop wanted condition body]
            else s.done 0)
        | .branch yes no => ([], if s.status = 0 then s.push [.run yes] else (s.done 0).push [.run no])
        | _ => ([], s)
      let (more, s) := advance fuel s
      (out ++ more, s)

end

def feed (s : State) (line : String) : List Char × State :=
  match s.todo with
  | .read names raw :: rest =>
    let cs := if raw then line.toList else dropBackslashes line.toList
    let values := splitAmong cs names.length
    ([], (names.zip values).foldl (fun s (n, v) => s.assign n (String.ofList v))
      { s.done 0 with todo := rest })
  | .copy :: _ => (line.toList ++ ['\n'], s)
  | _ => ([], s)

def patience : Nat := 10000

def program (s : State) : Program State where
  start :=
    let (out, s) := advance patience s
    (String.ofList out, s)
  step s line :=
    let (first, s) := feed s line
    let (out, s) := advance patience s
    (String.ofList (first ++ out), s)

def broken : Program State := ⟨("", none), fun s _ => ("", some s)⟩

def commands : List String := ["true", "false", "echo", "printf", "cat", "sleep", "pwd"]

def scripted (start : State) (text name : String) (arguments : List String) : Program State :=
  match readScript text with
  | some c => program { start with name := name, arguments := arguments, todo := [.run c] }
  | none => broken

def commandName (command : String) : String :=
  (["/bin/", "/usr/bin/"].findSome? fun d =>
    if d.toList.isPrefixOf command.toList then some (String.ofList (command.toList.drop d.length))
    else none).getD command

def launchFault (files : Files) (command : String) : FileFault :=
  if !command.contains '/' then .missing
  else
    match files.locate? (.ofText command) with
    | none => .missing
    | some l => if (files.node? l).isSome then .forbidden else files.absence l

def enter (files : Files) : Option String → Except FileFault Files
  | none => .ok files
  | some directory =>
    match files.locate? (.ofText directory) with
    | none => .error .missing
    | some l =>
      match files.node? l with
      | some .directory => .ok { files with workDirectory := l }
      | some (.text _) => .error .noDirectory
      | none => .error (files.absence l)

def launch (files : Files) (environment : List (String × String)) (config : LaunchConfig) :
    Except FileFault (Program State) := do
  let files ← enter files config.cwd
  let directory := ("PWD", "/" ++ "/".intercalate (files.workDirectory.map PathText.display))
  let bindings := directory :: (config.env.getD .empty).entries ++ environment
  let start : State := ⟨bindings, "", [], 0, []⟩
  let arguments := config.args.getD []
  let name := commandName config.command
  if name = "sh" then
    match arguments with
    | "-c" :: text :: rest => return scripted start text (rest.headD "sh") (rest.drop 1)
    | [] => return program { start with todo := [.pause] }
    | file :: rest =>
      match files.read (.ofText file) with
      | .ok text => return scripted start text file rest
      | .error _ => return broken
  else if commands.contains name then
    let words := (name :: arguments).map fun a => [.text a.toList true]
    return program { start with todo := [.run (.simple [] words false)] }
  else .error (launchFault files config.command)

end ServiceCatalog.Shell
