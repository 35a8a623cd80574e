import ServiceCatalog.Config.Text
import ServiceCatalog.Files.Basic

namespace ServiceCatalog

namespace Config

inductive FileFault where
  | unreadable (file : Path)
  | illegible (file : Path) (fault : TextFault)
  | noText
  | noDirectory (directory : Path)
  | unwritable (file : Path)

def FileFault.messages : FileFault → List String
  | .unreadable file => [s!"Failed to read config file: {file.display}"]
  | .illegible file fault => [s!"Failed to parse config file: {file.display}", fault.message]
  | .noText => [textFault]
  | .noDirectory directory => [s!"Failed to create config directory: {directory.display}"]
  | .unwritable file => [s!"Failed to write config file: {file.display}"]

section

variable (codec : Toml.Codec)

def load (files : Files) (file : Path) : Except FileFault Config :=
  if (files.find? file).isNone then .ok default
  else
    match files.read file with
    | .error _ => .error (.unreadable file)
    | .ok s =>
      match read codec s with
      | .ok c => .ok c
      | .error fault => .error (.illegible file fault)

def makeParent (files : Files) (file : Path) : Files × Except FileFault Unit :=
  match file.parent? with
  | none => (files, .ok ())
  | some directory =>
    match files.makeDirectories directory with
    | (files, .ok ()) => (files, .ok ())
    | (files, .error _) => (files, .error (.noDirectory directory))

def save (c : Config) (files : Files) (file : Path) : Files × Except FileFault Unit :=
  match c.text? codec with
  | none => (files, .error .noText)
  | some s =>
    match makeParent files file with
    | (files, .error fault) => (files, .error fault)
    | (files, .ok ()) =>
      match files.write file s with
      | (files, .ok ()) => (files, .ok ())
      | (files, .error _) => (files, .error (.unwritable file))

end

end Config

end ServiceCatalog
