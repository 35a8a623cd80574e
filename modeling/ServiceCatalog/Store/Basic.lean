import ServiceCatalog.Store.Records
import ServiceCatalog.Wire.Basic

/-!
Where the records of a catalog are kept: in memory only, or also in a file. A file is written before the
records in memory change, so that a failure leaves both as they were.
-/

namespace ServiceCatalog

structure Document where
  format : UInt32
  services : List ServiceRecord

namespace Document

def currentFormat : UInt32 := 1

instance : Wire Document where
  encode d := .record [
    ("formatVersion", some (encode d.format)), ("services", some (encode d.services))]
  decode := readRecord do
    return {
      format := ← Fields.required "formatVersion"
      services := ← Fields.withDefault "services" [] }

def ofRecords (r : Records) : Document := ⟨currentFormat, r.sorted⟩

def readRecords (text : String) : Outcome Records :=
  match (decodeText? text : Option Document) with
  | none => .error .malformed
  | some d =>
    if d.format = currentFormat then .ok (.ofList d.services)
    else .error (.storage (.unsupportedFormat d.format))

end Document

def Records.text (r : Records) : String := prettyText (Document.ofRecords r)

structure Store where
  records : Records
  file : Option Path

namespace Store

def ofRecords (r : Records) : Store := ⟨r, none⟩

def «open» (files : Files) (file : Path) : Outcome Store :=
  if (files.find? file).isNone then .ok ⟨.empty, some file⟩
  else
    match files.read file with
    | .error reason => .error (.storage (.unreadable file reason))
    | .ok text => do return ⟨← Document.readRecords text, some file⟩

def directory (file : Path) : Path :=
  (file.parent?.filter fun p => !p.units.isEmpty).getD (.ofText ".")

/-- Puts the document of the records in place: it is drafted beside the file, then the draft takes the
place of the file. The directory is made before. What was made until a fault stays. -/
def save (files : Files) (file : Path) (r : Records) : Files × Except StorageFault Unit :=
  match files.makeDirectories (directory file) with
  | (files, .error reason) => (files, .error (.noDirectory (directory file) reason))
  | (files, .ok ()) =>
    let l := (files.locate? file).getD []
    match files.writeAt (l.draft files.process) r.text with
    | (files, .error reason) =>
      (files, .error (.unwritable ((directory file).join (.ofText (l.draftName files.process))) reason))
    | (files, .ok ()) =>
      match files.move (l.draft files.process) file with
      | (files, .error reason) => (files, .error (.unreplaceable file reason))
      | (files, .ok ()) => (files, .ok ())

def write (s : Store) (files : Files) (w : Write) : Files × Outcome Store :=
  match s.records.write w with
  | .error e => (files, .error e)
  | .ok r =>
    match s.file with
    | none => (files, .ok { s with records := r })
    | some file =>
      match save files file r with
      | (files, .error fault) => (files, .error (.storage fault))
      | (files, .ok ()) => (files, .ok { s with records := r })

end Store

end ServiceCatalog
