import ServiceCatalog.Connection.Basic

namespace ServiceCatalog

structure Form where
  schema : Json
  uiSchema : Json

namespace Form

def object (fields : List (String × Json)) : Json := .obj fields

def text (s : String) : Json := .str s

def part (type title description : String) (more : List (String × Json)) : Json :=
  object ([("type", text type), ("title", text title)]
    ++ (if description.isEmpty then [] else [("description", text description)]) ++ more)

def requiring (names : List String) : String × Json := ("required", .arr (names.map text))

def properties (fields : List (String × Json)) : String × Json := ("properties", object fields)

def listOf (title description : String) (fields : List (String × Json)) (names : List String) : Json :=
  part "array" title description
    [("items", object [("type", text "object"), properties fields, requiring names])]

def launchSchema : Json :=
  part "object" "Server Configuration" "" [
    properties [
      ("command",
        part "string" "Command" "Command to run the MCP server (e.g., npx, node, python)" []),
      ("args", part "array" "Arguments" "Arguments to pass to the command"
        [("items", object [("type", text "string")])]),
      ("env", part "object" "Environment Variables"
        "Environment variables to set when running the server"
        [("additionalProperties", object [("type", text "string")])]),
      ("cwd", part "string" "Working Directory" "Working directory for the server process" [])],
    requiring ["command"]]

def connectionSchema : Json :=
  part "object" "MCP Service Connection" "" [
    properties [("config", launchSchema)],
    requiring ["config"]]

def toolsSchema : Json :=
  listOf "Available Tools" "Tools provided by this MCP server" [
    ("name", part "string" "Tool Name" "" []),
    ("description", part "string" "Tool Description" "" []),
    ("category", part "string" "Category" "" []),
    ("inputSchema", part "object" "Input Schema" "JSON Schema for tool inputs" [])] ["name"]

def resourcesSchema : Json :=
  listOf "Available Resources" "Resources provided by this MCP server" [
    ("uri", part "string" "URI" "" []),
    ("name", part "string" "Resource Name" "" []),
    ("description", part "string" "Resource Description" "" []),
    ("mimeType", part "string" "MIME Type" "" [])] ["uri", "name"]

def promptsSchema : Json :=
  listOf "Available Prompts" "Prompts provided by this MCP server" [
    ("name", part "string" "Prompt Name" "" []),
    ("description", part "string" "Prompt Description" "" []),
    ("arguments", part "object" "Arguments" "Arguments for the prompt" [])] ["name"]

def mcpSchema : Json :=
  object [
    ("type", text "object"),
    properties [
      ("type", part "string" "Service Type" "" [
        ("enum", .arr [text ConnectionKind.mcp.name]), ("default", text ConnectionKind.mcp.name)]),
      ("connection", connectionSchema),
      ("availableTools", toolsSchema),
      ("availableResources", resourcesSchema),
      ("availablePrompts", promptsSchema),
      ("serverInstructions",
        part "string" "Server Instructions" "Instructions for using this MCP server" [])],
    requiring ["type", "connection"]]

def placeholder (s : String) : Json := object [("ui:placeholder", text s)]

def mcpPresentation : Json :=
  object [
    ("type", object [("ui:widget", text "hidden")]),
    ("connection", object [("config", object [
      ("command", placeholder "e.g., npx, node, python"),
      ("args", placeholder "e.g., -y, @modelcontextprotocol/server-everything"),
      ("cwd", placeholder "/path/to/server/directory")])]),
    ("serverInstructions", object [("ui:widget", text "textarea"), ("ui:rows", .int 4)])]

def json (f : Form) : Json :=
  .obj [("schema", f.schema.normalize), ("uiSchema", f.uiSchema.normalize)]

end Form

namespace ConnectionKind

def form : ConnectionKind → Form
  | .mcp => ⟨Form.mcpSchema, Form.mcpPresentation⟩

def forms : Json := .obj (all.map fun k => (k.name, k.form.json))

end ConnectionKind

end ServiceCatalog
