import ClearYourTools.Misc.Text

/-!
# Permission rules

`permissions/match.py`: deny rules about MCP servers, their tools and skills, and the
functions that match names against them. Folding the case of a name is a parameter.
-/

namespace ClearYourTools.Permissions

open Misc

inductive McpRuleKind where
  | server
  | serverWildcard
  | tool
deriving DecidableEq

structure ParsedMcpDenyRule where
  raw : Text
  kind : McpRuleKind
  server : Text
  tool : Option Text
deriving DecidableEq

def parseMcpDenyEntry (entry : Text) : Option ParsedMcpDenyRule :=
  let text := entry.strip
  if text = [] then none
  else if "/*".toList.isSuffixOf text then
    let server := Text.strip (text.take (text.length - 2))
    if server = [] then none else some ⟨text, .serverWildcard, server, none⟩
  else if text.contains '/' then
    let parts := Text.partition '/' text
    let server := parts.1.strip
    let tool := parts.2.strip
    if server = [] ∨ tool = [] then none else some ⟨text, .tool, server, some tool⟩
  else some ⟨text, .server, text, none⟩

def parseMcpDenyRules (entries : List Text) : List ParsedMcpDenyRule :=
  entries.filterMap parseMcpDenyEntry

def isMcpServerDenied (server : Text) (denyEntries : List Text) : Bool :=
  let name := server.strip
  if name = [] then false
  else (parseMcpDenyRules denyEntries).any fun rule =>
    (rule.kind == .server || rule.kind == .serverWildcard) && rule.server == name

def splitCatalogToolName (catalogName : Text) : Option (Text × Text) :=
  let name := catalogName.strip
  if name = [] ∨ ¬ name.contains '_' then none
  else
    let parts := Text.partition '_' name
    if parts.1 = [] ∨ parts.2 = [] then none else some parts

/-- `f"{server}/{tool}"`. -/
def toolKey (server tool : Text) : Text := server ++ '/' :: tool

/-- `equivalent_mcp_tool_deny_entries`: a set of keys, in the order in which they are added. -/
def equivalentMcpToolDenyEntries (server tool : Text) : List Text :=
  let serverName := server.strip
  let toolName := tool.strip
  if serverName = [] ∨ toolName = [] then []
  else
    let catalogName := serverName ++ '_' :: toolName
    let agentAlias :=
      if splitCatalogToolName catalogName = some (serverName, toolName) ∧
          catalogName.count '_' = 1 then [toolKey serverName catalogName]
      else []
    -- the reverse alias: agent-visible `hedl/hedl_batch` for `hedl/batch`
    let start := serverName ++ ['_']
    let bare := toolName.drop start.length
    let shortCatalog := serverName ++ '_' :: bare
    let reverseAlias :=
      if start.isPrefixOf toolName ∧ bare ≠ [] ∧ shortCatalog.count '_' = 1 ∧
          splitCatalogToolName shortCatalog = some (serverName, bare) ∧ bare ≠ toolName then
        [toolKey serverName bare, toolKey serverName toolName]
      else []
    toolKey serverName toolName :: (agentAlias ++ reverseAlias)

def mcpToolDenyRuleMatches (serverName toolName ruleTool : Text) : Bool :=
  let rule := ruleTool.strip
  if rule = [] then false
  else if rule = toolName then true
  else
    let catalogName := serverName ++ '_' :: toolName
    if rule = catalogName ∧ splitCatalogToolName catalogName = some (serverName, toolName) then
      true
    else (equivalentMcpToolDenyEntries serverName toolName).contains rule

def isMcpToolDenied (server tool : Text) (denyEntries : List Text) : Bool :=
  let serverName := server.strip
  let toolName := tool.strip
  if serverName = [] ∨ toolName = [] then false
  else if isMcpServerDenied serverName denyEntries then true
  else (parseMcpDenyRules denyEntries).any fun rule =>
    rule.kind == .tool && rule.server == serverName &&
      rule.tool.any (mcpToolDenyRuleMatches serverName toolName)

def isCatalogToolDenied (catalogName : Text) (denyEntries : List Text) : Bool :=
  let name := catalogName.strip
  if name = [] then false
  else
    match splitCatalogToolName name with
    | none => false
    | some (server, tool) =>
      if isMcpToolDenied server tool denyEntries then true
      else if name.count '_' = 1 then
        -- `hedl_batch` is also exposed as `hedl_hedl_batch`
        match splitCatalogToolName (server ++ '_' :: name) with
        | none => false
        | some (agentServer, agentTool) => isMcpToolDenied agentServer agentTool denyEntries
      else false

theorem isCatalogToolDenied_strip (name : Text) (entries : List Text) :
    isCatalogToolDenied name.strip entries = isCatalogToolDenied name entries := by
  simp only [isCatalogToolDenied, Text.strip_strip]

inductive SkillRuleKind where
  | name
  | path
deriving DecidableEq

structure ParsedSkillPermissionRule where
  raw : Text
  kind : SkillRuleKind
  value : Text
deriving DecidableEq

def skillPathPrefix : Text := "path:"

def parseSkillPermissionEntry (entry : Text) : Option ParsedSkillPermissionRule :=
  let text := entry.strip
  if text = [] then none
  else if Text.startsWith skillPathPrefix text then
    let pathValue := Text.strip (text.drop skillPathPrefix.length)
    if pathValue = [] then none else some ⟨text, .path, pathValue⟩
  else some ⟨text, .name, text⟩

section

variable (casefold : Text → Text)

def normalizeSkillName (name : Text) : Text := casefold name.strip

/-- The names of `split_skill_permission_entries`. -/
def skillNameEntries (entries : List Text) : List Text :=
  ((entries.filterMap parseSkillPermissionEntry).filter fun rule => rule.kind == .name).map
    ParsedSkillPermissionRule.value

def isSkillNameDenied (skillName : Text) (denyEntries : List Text) : Bool :=
  let target := normalizeSkillName casefold skillName
  if target = [] then false
  else (skillNameEntries denyEntries).any fun entry =>
    normalizeSkillName casefold entry == target

end

end ClearYourTools.Permissions
