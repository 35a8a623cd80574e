import ServiceCatalog.Capability.Basic
import ServiceCatalog.Text.Basic
import ServiceCatalog.Url.Basic

namespace ServiceCatalog

inductive DuplicatePolicy where
  | warn
  | reject
deriving DecidableEq

namespace DuplicatePolicy

instance : Inhabited DuplicatePolicy := ⟨warn⟩

def name : DuplicatePolicy → String
  | .warn => "warn"
  | .reject => "reject"

def ofName? : String → Option DuplicatePolicy
  | "warn" => some .warn
  | "reject" => some .reject
  | _ => none

/-- Reads a name in any case. No letter beyond ASCII has its lower case in these names. -/
def ofText? (s : String) : Option DuplicatePolicy := ofName? s.toLower

def nameFault (s : String) : String := s!"Invalid duplicate policy: '{s}'. Valid values: warn, reject"

instance : Wire DuplicatePolicy where
  encode p := .str p.name
  decode := Wire.decodeName ofName?

end DuplicatePolicy

inductive CapabilityIssue where
  | repeatedTool (name : String)
  | repeatedResource (uri : String)
  | repeatedPrompt (name : String)
  | noAddress (uri : String)
deriving DecidableEq

namespace CapabilityIssue

def isDuplicate : CapabilityIssue → Bool
  | .noAddress _ => false
  | _ => true

def message : CapabilityIssue → String
  | .repeatedTool name => s!"duplicate tool name '{name}'"
  | .repeatedPrompt name => s!"duplicate prompt name '{name}'"
  | .repeatedResource uri => s!"duplicate resource uri '{uri}'"
  | .noAddress uri => s!"resource uri '{uri}' is not a valid URL"

end CapabilityIssue

inductive CapabilityFault where
  | blankTool
  | blankResource
  | blankPrompt
  | blankArgument (prompt : String)
  | duplicate (issue : CapabilityIssue)
deriving DecidableEq

def CapabilityFault.message : CapabilityFault → String
  | .blankTool => "availableTools[].name is required"
  | .blankResource => "availableResources[].uri is required"
  | .blankPrompt => "availablePrompts[].name is required"
  | .blankArgument prompt => s!"prompt '{prompt}' has an argument without a name"
  | .duplicate issue => issue.message

namespace Capabilities

def toolList (c : Capabilities) : List Tool := c.tools.getD []

def resourceList (c : Capabilities) : List Resource := c.resources.getD []

def promptList (c : Capabilities) : List Prompt := c.prompts.getD []

def checkPrompts : List Prompt → Except CapabilityFault Unit
  | [] => .ok ()
  | p :: r =>
    if isBlankText p.name then .error .blankPrompt
    else if (p.arguments.getD []).any fun a => isBlankText a.name then .error (.blankArgument p.name)
    else checkPrompts r

def checkRequired (c : Capabilities) : Except CapabilityFault Unit :=
  if c.toolList.any fun t => isBlankText t.name then .error .blankTool
  else if c.resourceList.any fun r => isBlankText r.uri then .error .blankResource
  else checkPrompts c.promptList

def issuesFrom {α : Type} (key : α → String) (issues : Bool → String → List CapabilityIssue) :
    List String → List α → List CapabilityIssue
  | _, [] => []
  | seen, a :: r => issues (seen.contains (key a)) (key a) ++ issuesFrom key issues (key a :: seen) r

def toolIssues (again : Bool) (name : String) : List CapabilityIssue :=
  if again then [.repeatedTool name] else []

def resourceIssues (again : Bool) (uri : String) : List CapabilityIssue :=
  (if again then [.repeatedResource uri] else []) ++ if Url.isAbsolute uri then [] else [.noAddress uri]

def promptIssues (again : Bool) (name : String) : List CapabilityIssue :=
  if again then [.repeatedPrompt name] else []

def issues (c : Capabilities) : List CapabilityIssue :=
  issuesFrom Tool.name toolIssues [] c.toolList
    ++ issuesFrom Resource.uri resourceIssues [] c.resourceList
    ++ issuesFrom Prompt.name promptIssues [] c.promptList

end Capabilities

def DuplicatePolicy.enforce (policy : DuplicatePolicy) (issues : List CapabilityIssue) :
    Except CapabilityFault Unit :=
  match policy, issues.find? CapabilityIssue.isDuplicate with
  | .reject, some issue => .error (.duplicate issue)
  | _, _ => .ok ()

def Capabilities.check (policy : DuplicatePolicy) (c : Capabilities) : Except CapabilityFault Unit := do
  c.checkRequired
  policy.enforce c.issues

end ServiceCatalog
