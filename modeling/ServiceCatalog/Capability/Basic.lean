import ServiceCatalog.Wire.Basic

namespace ServiceCatalog

structure ToolExample where
  description : Option String
  input : Option (Dict Value)
  output : Option (Dict Value)
  extra : Dict Value
deriving BEq

namespace ToolExample

def knownFields : List String := ["description", "input", "output"]

instance : Wire ToolExample where
  encode e := match Json.record [
      ("description", e.description.map encode),
      ("input", e.input.map encode),
      ("output", e.output.map encode)] with
    | .obj fields => .obj (fields ++ e.extra.entries.map fun (k, v) => (k, encode v))
    | j => j
  decode
    | .obj fields => do
      let rest := fields.filter fun (k, _) => !knownFields.contains k
      let extra ← Wire.decodeFields rest
      readRecord (do
        return {
          description := ← Fields.optional "description"
          input := ← Fields.optional "input"
          output := ← Fields.optional "output"
          extra := Dict.ofList extra }) (.obj fields)
    | _ => none

end ToolExample

structure Tool where
  name : String
  description : Option String
  category : Option String
  inputSchema : Option Value
  outputSchema : Option Value
  examples : Option (List ToolExample)
deriving BEq

namespace Tool

def ofName (name : String) : Tool := ⟨name, none, none, none, none, none⟩

instance : Wire Tool where
  encode t := .record [
    ("name", some (encode t.name)),
    ("description", t.description.map encode),
    ("category", t.category.map encode),
    ("inputSchema", t.inputSchema.map encode),
    ("outputSchema", t.outputSchema.map encode),
    ("examples", t.examples.map encode)]
  decode := readRecord do
    return {
      name := ← Fields.withDefault "name" ""
      description := ← Fields.optional "description"
      category := ← Fields.optional "category"
      inputSchema := ← Fields.optional "inputSchema"
      outputSchema := ← Fields.optional "outputSchema"
      examples := ← Fields.optional "examples" }

end Tool

structure Resource where
  uri : String
  name : Option String
  description : Option String
  mimeType : Option String
deriving DecidableEq

namespace Resource

def ofUri (uri : String) : Resource := ⟨uri, none, none, none⟩

instance : Wire Resource where
  encode r := .record [
    ("uri", some (encode r.uri)),
    ("name", r.name.map encode),
    ("description", r.description.map encode),
    ("mimeType", r.mimeType.map encode)]
  decode := readRecord do
    return {
      uri := ← Fields.withDefault "uri" ""
      name := ← Fields.optional "name"
      description := ← Fields.optional "description"
      mimeType := ← Fields.optional "mimeType" }

end Resource

structure PromptArgument where
  name : String
  description : Option String
  kind : Option String
  required : Option Bool
deriving DecidableEq

instance : Wire PromptArgument where
  encode a := .record [
    ("name", some (encode a.name)),
    ("description", a.description.map encode),
    ("type", a.kind.map encode),
    ("required", a.required.map encode)]
  decode := readRecord do
    return {
      name := ← Fields.required "name"
      description := ← Fields.optional "description"
      kind := ← Fields.optional "type"
      required := ← Fields.optional "required" }

structure Prompt where
  name : String
  description : Option String
  arguments : Option (List PromptArgument)
deriving DecidableEq

namespace Prompt

def ofName (name : String) : Prompt := ⟨name, none, none⟩

def withArgument (p : Prompt) (a : PromptArgument) : Prompt :=
  { p with arguments := some (p.arguments.getD [] ++ [a]) }

instance : Wire Prompt where
  encode p := .record [
    ("name", some (encode p.name)),
    ("description", p.description.map encode),
    ("arguments", p.arguments.map encode)]
  decode := readRecord do
    return {
      name := ← Fields.withDefault "name" ""
      description := ← Fields.optional "description"
      arguments := ← Fields.optional "arguments" }

end Prompt

structure Capabilities where
  tools : Option (List Tool)
  resources : Option (List Resource)
  prompts : Option (List Prompt)

end ServiceCatalog
