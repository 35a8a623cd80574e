import ServiceCatalog.Capability.Basic

namespace ServiceCatalog

def absentMark : String := "-"

structure ToolRow where
  name : String
  description : String
  category : String

structure ResourceRow where
  name : String
  uri : String
  mimeType : String
  description : String

structure PromptRow where
  name : String
  description : String
  arguments : String

def Tool.row (t : Tool) : ToolRow :=
  ⟨t.name, t.description.getD "", t.category.getD absentMark⟩

def Resource.row (r : Resource) : ResourceRow :=
  ⟨(r.name.filter fun n => !n.isEmpty).getD "Unnamed", r.uri, r.mimeType.getD absentMark,
    r.description.getD ""⟩

def PromptArgument.summary (a : PromptArgument) : String :=
  a.name ++ (a.kind.map fun k => s!" ({k})").getD "" ++
    if a.required == some true then " [required]" else ""

def Prompt.row (p : Prompt) : PromptRow :=
  let arguments := p.arguments.getD []
  ⟨p.name, p.description.getD "",
    if arguments.isEmpty then absentMark
    else ", ".intercalate (arguments.map PromptArgument.summary)⟩

end ServiceCatalog
