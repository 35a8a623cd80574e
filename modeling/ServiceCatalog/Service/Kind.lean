import ServiceCatalog.Wire.Basic

namespace ServiceCatalog

inductive ServiceKind where
  | api
  | dashboard
  | database
  | drive
  | mcp
  | messaging
  | metadata
  | mlModel
  | pipeline
  | search
  | security
  | storage
deriving DecidableEq

namespace ServiceKind

def name : ServiceKind → String
  | .api => "Api"
  | .dashboard => "Dashboard"
  | .database => "Database"
  | .drive => "Drive"
  | .mcp => "Mcp"
  | .messaging => "Messaging"
  | .metadata => "Metadata"
  | .mlModel => "MlModel"
  | .pipeline => "Pipeline"
  | .search => "Search"
  | .security => "Security"
  | .storage => "Storage"

def ofName? : String → Option ServiceKind
  | "Api" => some .api
  | "Dashboard" => some .dashboard
  | "Database" => some .database
  | "Drive" => some .drive
  | "Mcp" => some .mcp
  | "Messaging" => some .messaging
  | "Metadata" => some .metadata
  | "MlModel" => some .mlModel
  | "Pipeline" => some .pipeline
  | "Search" => some .search
  | "Security" => some .security
  | "Storage" => some .storage
  | _ => none

instance : Wire ServiceKind where
  encode k := .str k.name
  decode := Wire.decodeName ofName?

end ServiceKind

end ServiceCatalog
