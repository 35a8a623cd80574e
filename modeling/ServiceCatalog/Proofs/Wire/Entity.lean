import ServiceCatalog.Connection.Basic
import ServiceCatalog.Proofs.Entity.Uuid
import ServiceCatalog.Proofs.Entity.Version
import ServiceCatalog.Proofs.Wire.Record
import ServiceCatalog.Service.Basic

namespace ServiceCatalog

open Wire

instance : LawfulWire ServiceKind := ⟨fun k => .of_str rfl (by cases k <;> rfl)⟩

instance : LawfulWire ConnectionKind := ⟨fun k => .of_str rfl (by cases k; rfl)⟩

instance : LawfulWire TestStatus := ⟨fun s => .of_str rfl (by cases s <;> rfl)⟩

instance : LawfulWire ChangeSource := ⟨fun s => .of_str rfl (by cases s <;> rfl)⟩

instance : LawfulWire LabelOrigin := ⟨fun o => .of_str rfl (by cases o <;> rfl)⟩

instance : LawfulWire TagSource := ⟨fun s => .of_str rfl (by cases s <;> rfl)⟩

instance : LawfulWire LabelState := ⟨fun s => .of_str rfl (by cases s <;> rfl)⟩

namespace Takes

variable {α β : Type} [Wire α] [LawfulWire α] {name : String} {more : List (String × Option Json)} {b : β}

theorem required_bind {a : α} {f : α → FieldReader β} (h : Takes (f a) more b) :
    Takes (Fields.required name >>= f) ((name, some (encode a)) :: more) b :=
  .bind (.required (present a).toSincere name) h

theorem withDefault_bind {a default : α} {f : α → FieldReader β} (h : Takes (f a) more b) :
    Takes (Fields.withDefault name default >>= f) ((name, some (encode a)) :: more) b :=
  .bind (.withDefault (present a).toSincere name default) h

theorem optional_bind {o : Option α} {f : Option α → FieldReader β} (h : Takes (f o) more b) :
    Takes (Fields.optional name >>= f) ((name, o.map encode) :: more) b :=
  .bind (.optional (fun a _ => present a) name) h

end Takes

open Takes

instance : LawfulWire LabelStyle where
  present _ := present_record rfl (fun _ => rfl) (by simp) <| optional_bind <| optional_bind <| .pure _

instance : LawfulWire Label where
  present _ := present_record rfl (fun _ => rfl) (by simp) <| required_bind <| required_bind <|
    required_bind <| required_bind <| optional_bind <| optional_bind <| optional_bind <| optional_bind <|
    optional_bind <| .pure _

instance : LawfulWire Reference where
  present _ := present_record rfl (fun _ => rfl) (by simp) <| required_bind <| required_bind <|
    optional_bind <| optional_bind <| optional_bind <| optional_bind <| optional_bind <| optional_bind <|
    optional_bind <| .pure _

instance : LawfulWire Resource where
  present _ := present_record rfl (fun _ => rfl) (by simp) <| withDefault_bind <| optional_bind <|
    optional_bind <| optional_bind <| .pure _

instance : LawfulWire PromptArgument where
  present _ := present_record rfl (fun _ => rfl) (by simp) <| required_bind <| optional_bind <|
    optional_bind <| optional_bind <| .pure _

instance : LawfulWire Prompt where
  present _ := present_record rfl (fun _ => rfl) (by simp) <| withDefault_bind <| optional_bind <|
    optional_bind <| .pure _

instance : LawfulWire TestStep where
  present _ := present_record rfl (fun _ => rfl) (by simp) <| required_bind <| required_bind <|
    required_bind <| optional_bind <| optional_bind <| .pure _

instance : LawfulWire TestResult where
  present _ := present_record rfl (fun _ => rfl) (by simp) <| optional_bind <| optional_bind <|
    withDefault_bind <| .pure _

instance : LawfulWire ChangeSummary where
  present _ := present_record rfl (fun _ => rfl) (by simp) <| optional_bind <| optional_bind <|
    optional_bind <| .pure _

instance : LawfulWire LaunchConfig where
  present _ := present_record rfl (fun _ => rfl) (by simp) <| withDefault_bind <| optional_bind <|
    optional_bind <| optional_bind <| .pure _

end ServiceCatalog
