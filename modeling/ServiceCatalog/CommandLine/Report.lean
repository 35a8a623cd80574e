import ServiceCatalog.Capability.Rows
import ServiceCatalog.Catalog.Effect
import ServiceCatalog.Catalog.Listing
import ServiceCatalog.Time.Basic
import ServiceCatalog.Wire.Basic

namespace ServiceCatalog.CommandLine

def padded (width : Nat) (s : String) : String :=
  s ++ String.ofList (List.replicate (width - s.length) ' ')

def shortened (width : Nat) (s : String) : String :=
  if s.length ≤ width then s else String.ofList (s.toList.take (width - 3)) ++ "..."

def row (cells : List (Nat × String)) (last : String) : String :=
  cells.foldr (fun (width, s) r => padded width s ++ " " ++ r) last

def rule (width : Nat) : String := String.ofList (List.replicate width '-')

inductive Format where
  | table
  | json
deriving DecidableEq

def Format.ofName? : String → Option Format
  | "table" => some .table
  | "json" => some .json
  | _ => none

def Format.choose (f : Format) (table : List String) (json : String) : List String :=
  match f with
  | .table => table
  | .json => [json]

def doneLine (verb : String) (s : Service) : String :=
  s!"✓ {verb} '{s.qualifiedName}' (version {s.version.text})"

def unchangedLine (s : Service) : String :=
  s!"• '{s.qualifiedName}' unchanged at version {s.version.text}"

def changeLines (c : ChangeDescription) : List String :=
  c.added.map (fun f => s!"  + {f.name}") ++ c.updated.map (fun f => s!"  ~ {f.name}")
    ++ c.deleted.map (fun f => s!"  - {f.name}")

def tellEffect (verb : String) (f : Format) (e : Effect) : List String :=
  f.choose (match e.change? with
    | some c => doneLine verb e.service :: changeLines c
    | none => [unchangedLine e.service]) (prettyText e.service)

def tellCreated (f : Format) (e : Effect) : List String :=
  f.choose [doneLine "Created" e.service] (prettyText e.service)

def tellRemoved (f : Format) (e : Effect) : List String :=
  f.choose [s!"✓ Permanently deleted '{e.service.qualifiedName}'"] (prettyText e.service)

def tellPut (f : Format) (e : Effect) : List String :=
  match f, e.change? with
  | .table, some _ => tellEffect "Updated" f e
  | .table, none => [doneLine e.status e.service]
  | .json, _ =>
    let fields := [("entity", encode e.service), ("status", .str e.status)]
    [(Value.ofTree (.obj fields)).tree.pretty]

def stepLine (s : TestStep) : String :=
  let mark := if s.passed then "✓" else "✗"
  let detail := (s.errorLog <|> s.message).getD ""
  "  " ++ mark ++ " " ++ row [(14, s.name)] (shortened 60 detail)
    ++ if s.mandatory then "" else " (optional)"

def verdictWord : TestStatus → String
  | .successful => "passed"
  | .failed => "failed"
  | .running => "running"

def tellTest (f : Format) (e : Effect) : List String :=
  match e.service.testResult with
  | none => tellEffect "Tested" f e
  | some result =>
    let verdict := verdictWord result.effectiveStatus
    let head := s!"Connection test for '{e.service.qualifiedName}' {verdict}"
    f.choose (s!"{head} (version {e.service.version.text})" :: result.steps.map stepLine)
      (prettyText result)

def listHeader : List String :=
  [row [(24, "Name"), (8, "Version"), (6, "Tools"), (20, "Updated"), (12, "Updated By")] "Status",
    rule 80]

def listLine (s : Service) : String :=
  row [(24, shortened 24 s.qualifiedName), (8, s.version.text), (6, natText s.toolList.length),
    (20, timestampText s.updatedAt), (12, shortened 12 s.updatedBy)]
    (if s.isDeleted then "deleted" else "active")

def pagingLine (p : Page) : String :=
  let shown := s!"Showing {natText p.data.length} of {natText p.paging.total}"
  match p.paging.after with
  | some after => s!"{shown} (next page: --after '{after}')"
  | none => shown

def tellPage (f : Format) (p : Page) : List String :=
  f.choose
    (if p.data.isEmpty then
      ["No MCP services registered.", "Add one with: mcpcat create <name> --command <cmd>"]
    else listHeader ++ p.data.map listLine ++ ["", pagingLine p])
    (prettyText p)

def versionLine (s : Service) : String :=
  let changed := ", ".intercalate ((s.change.map ChangeDescription.changedFields).getD [])
  row [(8, s.version.text), (20, timestampText s.updatedAt), (12, shortened 12 s.updatedBy)]
    (if changed.isEmpty then "(created)" else changed)

def tellVersions (f : Format) (l : VersionList) : List String :=
  let header := row [(8, "Version"), (20, "Updated"), (12, "Updated By")] "Changed"
  f.choose (header :: rule 70 :: l.versions.map versionLine) (prettyText l)

def detailLine (title value : String) : String := "  " ++ row [(11, title ++ ":")] value

def launchLines (c : LaunchConfig) : List String :=
  [detailLine "Command" c.commandLine] ++ (c.cwd.map (detailLine "Directory")).toList
    ++ (c.env.getD .empty).entries.map fun (key, _) => detailLine "Env" key

def tableLines (title : String) (heading : String) (rows : List String) : List String :=
  if rows.isEmpty then []
  else
    ["", s!"{title} ({natText rows.length}):"]
      ++ (heading :: rule 70 :: rows).map fun line => "  " ++ line

def toolLine (r : ToolRow) : String :=
  row [(24, shortened 24 r.name), (14, shortened 14 r.category)] (shortened 40 r.description)

def resourceLine (r : ResourceRow) : String :=
  row [(20, shortened 20 r.name), (30, shortened 30 r.uri)] r.mimeType

def promptLine (r : PromptRow) : String := row [(20, shortened 20 r.name)] r.arguments

def detailLines (s : Service) : List String :=
  [s.label, detailLine "FQN" s.qualifiedName, detailLine "Id" s.id.text,
    detailLine "Type" s.kind.name, detailLine "Version" s.version.text,
    detailLine "Updated" s!"{timestampText s.updatedAt} by {s.updatedBy}"]
  ++ (if s.isDeleted then [detailLine "Status" "deleted"] else [])
  ++ (s.description.map (detailLine "About")).toList
  ++ ((s.connection.bind Connection.launch?).map launchLines).getD []
  ++ (if s.tagList.isEmpty then []
    else [detailLine "Tags" (", ".intercalate (s.tagList.map (·.tag)))])
  ++ (if s.followerList.isEmpty then []
    else [detailLine "Followers" (natText s.followerList.length)])
  ++ (s.testResult.map fun r => detailLine "Connection" r.effectiveStatus.name).toList
  ++ tableLines "Tools" (row [(24, "Name"), (14, "Category")] "Description")
    (s.toolList.map fun t => toolLine t.row)
  ++ tableLines "Resources" (row [(20, "Name"), (30, "URI")] "MIME Type")
    (s.resourceList.map fun r => resourceLine r.row)
  ++ tableLines "Prompts" (row [(20, "Name")] "Arguments")
    (s.promptList.map fun p => promptLine p.row)

def tellService (f : Format) (s : Service) : List String := f.choose (detailLines s) (prettyText s)

def planLine (r : Registration) : String :=
  let launch := r.connection.bind Connection.launch?
  "  " ++ row [(24, r.name)] ((launch.map LaunchConfig.commandLine).getD "")

def tellPlan (f : Format) (requests : List Registration) : List String :=
  f.choose (if requests.isEmpty then ["No importable servers found."] else requests.map planLine)
    (prettyText requests)

end ServiceCatalog.CommandLine
