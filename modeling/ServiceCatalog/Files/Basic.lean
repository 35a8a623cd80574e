import ServiceCatalog.Files.Path

namespace ServiceCatalog

inductive FileFault where
  | missing
  | present
  | noDirectory
  | directory
  | forbidden
  | full
deriving DecidableEq

def FileFault.message : FileFault → String
  | .missing => "No such file or directory (os error 2)"
  | .present => "File exists (os error 17)"
  | .noDirectory => "Not a directory (os error 20)"
  | .directory => "Is a directory (os error 21)"
  | .forbidden => "Permission denied (os error 13)"
  | .full => "No space left on device (os error 28)"

inductive FileNode where
  | directory
  | text (content : String)
deriving DecidableEq

structure Files where
  workDirectory : Location
  nodes : List (Location × FileNode)
  /-- Why an attempt to make or write something at a location fails, whatever stands there. -/
  barred : Nat → Location → Option FileFault
  attempts : Nat
  process : Nat

namespace Files

def empty (workDirectory : Location) : Files := ⟨workDirectory, [], fun _ _ => none, 0, 0⟩

def node? (f : Files) (l : Location) : Option FileNode :=
  if l.isEmpty then some .directory else (f.nodes.find? (·.1 == l)).map (·.2)

def put (f : Files) (l : Location) (n : FileNode) : Files :=
  { f with nodes := (l, n) :: f.nodes.filter (·.1 != l) }

def remove (f : Files) (l : Location) : Files := { f with nodes := f.nodes.filter (·.1 != l) }

def removeTree (f : Files) (l : Location) : Files :=
  { f with nodes := f.nodes.filter fun (m, _) => !l.isPrefixOf m }

def locate? (f : Files) (p : Path) : Option Location := p.location? f.workDirectory

def find? (f : Files) (p : Path) : Option FileNode := (f.locate? p).bind f.node?

def content? (f : Files) (l : Location) : Option String :=
  match f.node? l with
  | some (.text s) => some s
  | _ => none

def text? (f : Files) (p : Path) : Option String := (f.locate? p).bind f.content?

def absence (f : Files) (l : Location) : FileFault :=
  if l.steps.any fun m => (f.content? m).isSome then .noDirectory else .missing

def read (f : Files) (p : Path) : Except FileFault String :=
  match f.locate? p with
  | none => .error .missing
  | some l =>
    match f.node? l with
    | some (.text s) => .ok s
    | some .directory => .error .directory
    | none => .error (f.absence l)

def attempt (f : Files) (l : Location) : Files × Option FileFault :=
  ({ f with attempts := f.attempts + 1 }, f.barred f.attempts l)

/-- Makes the directories at the locations that lack them, the outer ones first. Those made before a fault stay. -/
def makeEach (f : Files) : List Location → Files × Except FileFault Unit
  | [] => (f, .ok ())
  | l :: r =>
    match f.node? l with
    | some .directory => f.makeEach r
    | some (.text _) => (f, .error (if r.isEmpty then .present else .noDirectory))
    | none =>
      match f.attempt l with
      | (f, some fault) => (f, .error fault)
      | (f, none) => (f.put l .directory).makeEach r

def makeDirectories (f : Files) (p : Path) : Files × Except FileFault Unit :=
  match f.locate? p with
  | none => (f, .ok ())
  | some l => f.makeEach l.steps

def writeAt (f : Files) (l : Location) (content : String) : Files × Except FileFault Unit :=
  match f.attempt l, f.node? l with
  | (f, some fault), _ => (f, .error fault)
  | (f, none), some .directory => (f, .error .directory)
  | (f, none), some (.text _) => (f.put l (.text content), .ok ())
  | (f, none), none =>
    match f.node? l.dropLast with
    | some .directory => (f.put l (.text content), .ok ())
    | _ => (f, .error (f.absence l))

def write (f : Files) (p : Path) (content : String) : Files × Except FileFault Unit :=
  match f.locate? p with
  | none => (f, .error .missing)
  | some l => f.writeAt l content

/-- Moves a file from a location to a path, in place of a file that stands there, as systems other than Windows do. -/
def move (f : Files) (source : Location) (p : Path) : Files × Except FileFault Unit :=
  match f.content? source with
  | none => (f, .error .missing)
  | some content =>
    match (f.remove source).write p content with
    | (g, .ok ()) => (g, .ok ())
    | (g, .error fault) => ({ f with attempts := g.attempts }, .error fault)

end Files

end ServiceCatalog
