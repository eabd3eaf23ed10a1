import ClearYourTools.Injection.BlockMerge
import ClearYourTools.Misc.Json
import ClearYourTools.Tiers.Models

/-!
# Writing injections

The formatters of `skills/inject.py`, `tools/inject.py` and `tools/source_inject.py`, and
`combine_injection_parts` of `proxy/user_message_inject.py`. What is looked up before a text is
written is an argument here.
-/

namespace ClearYourTools.Injection

open Misc Tiers
open Text (joinLines)

/-- `text.replace('\\"', '"')`. -/
def unescapeQuotes : Text → Text
  | '\\' :: '"' :: t => '"' :: unescapeQuotes t
  | c :: t => c :: unescapeQuotes t
  | [] => []

/-- `text.replace("&", "&amp;").replace("'", "&apos;")` on one character. -/
def attrChar (c : Char) : Text :=
  if c = '&' then "&amp;" else if c = '\'' then "&apos;" else [c]

def xmlSingleQuotedAttr (value : Text) : Text :=
  (unescapeQuotes (value.flatMap (Json.escapeChar false))).flatMap attrChar

/-- A tool with what its item shows: the description is empty where none is shown, and `details`
are the hint or the schema, and the examples block. -/
structure InjectedTool where
  tier : Tier
  name : Text
  description : Text
  details : List Text

def toolOpenTag (name description : Text) : Text :=
  let described := if description = [] then []
    else " description='".toList ++ xmlSingleQuotedAttr description ++ "'".toList
  "<tool name='".toList ++ xmlSingleQuotedAttr name ++ "'".toList ++ described ++ ">".toList

def formatToolItem (tool : InjectedTool) : Text :=
  if tool.name = [] then []
  else joinLines (toolOpenTag tool.name tool.description :: tool.details ++
    ["</tool>".toList])

def tierGroupOrder : List Tier := [.extraHot, .hot, .active, .cold, .dormant]

def tierWrapperTag (tier : Tier) : Text := "tier_t" ++ Text.ofNat tier.value

def formatTierGroup (tier : Tier) (items : List Text) : Text :=
  joinLines ['<' :: (tierWrapperTag tier ++ ['>']), joinLines items,
    '<' :: '/' :: (tierWrapperTag tier ++ ['>'])]

/-- The bucket of a tier: its items that are not empty. -/
def tierBucket (items : List (Tier × Text)) (tier : Tier) : List Text :=
  (items.filter fun e => e.1.value == tier.value && !e.2.isEmpty).map Prod.snd

/-- `format_tools_grouped_by_tier` and `format_skills_grouped_by_tier`, of rendered items. -/
def formatGroupedByTier (items : List (Tier × Text)) : Text :=
  joinLines ((tierGroupOrder.filter fun tier => !(tierBucket items tier).isEmpty).map
    fun tier => formatTierGroup tier (tierBucket items tier))

/-- What stands before the tools of a block: the description unless the session has seen it,
the workspace paths, and whether the session has seen the path. -/
structure ToolsHeader where
  intro : Option Text
  paths : List Text
  pathPreExposed : Bool

def strippedPaths (paths : List Text) : List Text :=
  (paths.map Text.strip).filter fun path => !path.isEmpty

def agentToolsOpenTag (header : ToolsHeader) : Text :=
  match strippedPaths header.paths with
  | [path] =>
    if header.pathPreExposed then "<agent-tools>"
    else "<agent-tools path='" ++ xmlSingleQuotedAttr path ++ "'>"
  | _ => "<agent-tools>"

def formatWorkspaceRootsBlock (paths : List Text) : Text :=
  let items := (strippedPaths paths).map fun path =>
    "<item path='" ++ xmlSingleQuotedAttr path ++ "'/>"
  if items = [] then []
  else joinLines ("<workspace_roots>".toList :: items ++ ["</workspace_roots>".toList])

def finalizeAgentToolsBlock (lines : List Text) : Text :=
  if lines.length < 2 ∨ lines.getLast? ≠ some toolsClose then
    ensureAgentToolsStartsOnNewLine (joinLines lines) []
  else if Text.strip (joinLines lines.tail.dropLast) = [] then []
  else ensureAgentToolsStartsOnNewLine (joinLines lines) []

def formatAgentTools (tools : List InjectedTool) (header : ToolsHeader) : Text :=
  let body := formatGroupedByTier (tools.map fun tool => (tool.tier, formatToolItem tool))
  if body.strip = [] then []
  else
    let roots := formatWorkspaceRootsBlock header.paths
    let rootsLines := if (strippedPaths header.paths).length ≤ 1 ∨ roots = [] then [] else [roots]
    finalizeAgentToolsBlock (agentToolsOpenTag header ::
      (header.intro.toList ++ rootsLines ++ [body, toolsClose]))

/-- The tool sources that have a section of their own. -/
inductive Source where
  | cytMcp
  | mcpc
  | cloudflare
  | executor
  | definitions
deriving DecidableEq

namespace Source

def tag : Source → Text
  | cytMcp => "cyt-mcp"
  | mcpc => "mcpc"
  | cloudflare => "cloudflare"
  | executor => "executor"
  | definitions => "definitions"

/-- The order of the sections in a block. -/
def order : List Source := [cytMcp, mcpc, cloudflare, executor, definitions]

end Source

def joinSection (prompt innerTag body : Text) : Text :=
  let body := body.strip
  if body = [] then []
  else
    let prompt := prompt.strip
    let inner := if prompt = [] then body else prompt ++ '\n' :: body
    joinLines ['<' :: (innerTag ++ ['>']), inner, '<' :: '/' :: (innerTag ++ ['>'])]

def formatScopeToolBlock (tag : Text) (tools : List InjectedTool) : Text :=
  let body := formatGroupedByTier (tools.map fun tool => (tool.tier, formatToolItem tool))
  if body.strip = [] then []
  else joinLines ['<' :: (tag ++ ['>']), body, '<' :: '/' :: (tag ++ ['>'])]

/-- `format_cyt_mcp_source_section`, for the tools of the workspace and those of the user. -/
def formatCytMcpSourceSection (promptParts : List Text)
    (workspaceTools userTools : List InjectedTool) : Text :=
  let wsBlock := formatScopeToolBlock "cyt-mcp-ws" workspaceTools
  let usrBlock := formatScopeToolBlock "cyt-mcp-usr" userTools
  if wsBlock = [] ∧ usrBlock = [] then []
  else
    let innerParts := (promptParts ++ [wsBlock, usrBlock]).filter fun part => !part.isEmpty
    joinLines ["<cyt-mcp>".toList, joinLines innerParts, "</cyt-mcp>".toList]

def formatMultiSourceAgentTools (sections : Source → Text) (header : ToolsHeader) : Text :=
  let ordered := Source.order.map fun source => (sections source).strip
  let inner := joinLines (ordered.filter fun part => !part.isEmpty)
  if inner.strip = [] then []
  else finalizeAgentToolsBlock (agentToolsOpenTag header ::
    (header.intro.toList ++ [inner, toolsClose]))

/-- A skill with what its item shows; a name or command that is empty is not shown. -/
structure InjectedSkill where
  tier : Tier
  path : Text
  name : Text
  command : Text
  body : Text

def skillOpenTag (path name command : Text) : Text :=
  if command = [] then
    if name = [] then "<skill path=\"" ++ path ++ "\">"
    else "<skill name=\"" ++ name ++ "\" path=\"" ++ path ++ "\">"
  else
    let attrs := if name = [] then [] else "name=\"".toList ++ name ++ "\" ".toList
    "<skill ".toList ++ attrs ++ "command='".toList ++ command ++ "'>".toList

def formatSkillItem (skill : InjectedSkill) : Text :=
  let body := skill.body.rstrip
  if body = [] then []
  else
    let command := if skill.command = [] then [] else xmlSingleQuotedAttr skill.command
    joinLines [skillOpenTag skill.path skill.name command, body, "</skill>"]

/-- `format_agent_skills`, with the intro and the tier legend unless the session has seen
them. -/
def formatAgentSkills (skills : List InjectedSkill) (intro legend : Option Text) : Text :=
  let body := formatGroupedByTier (skills.map fun skill => (skill.tier, formatSkillItem skill))
  if body.strip = [] then []
  else
    let heading := match intro with
      | some line => [line, []]
      | none => []
    joinLines (heading ++
      "<agent-skills>".toList :: (legend.toList ++ [body, "</agent-skills>".toList]))

/-- One step of `combine_injection_parts`: a part that is not blank goes behind the others. -/
def keepPart (kept : List Text) (part : Text) : List Text :=
  if part.strip = [] then kept
  else kept ++ [match kept.getLast? with
    | some last => ensureAgentToolsStartsOnNewLine part last
    | none => part]

def combineInjectionParts (parts : List Text) : Text :=
  Text.join ['\n', '\n'] (parts.foldl keepPart [])

/-- The tools of an injection: flat items, or the sections that the sources have written. -/
inductive ToolsPart where
  | flat (tools : List InjectedTool)
  | sources (sections : Source → Text)

/-- What is injected into a turn at a time. -/
structure Delta where
  skills : List InjectedSkill
  skillsIntro : Option Text
  skillsLegend : Option Text
  tools : ToolsPart
  toolsHeader : ToolsHeader

namespace Delta

variable (d : Delta)

def toolsText : Text :=
  match d.tools with
  | .flat tools => formatAgentTools tools d.toolsHeader
  | .sources sections => formatMultiSourceAgentTools sections d.toolsHeader

def text : Text :=
  combineInjectionParts [formatAgentSkills d.skills d.skillsIntro d.skillsLegend, d.toolsText]

def skillItems : List Text := (d.skills.map formatSkillItem).filter fun item => !item.isEmpty

def toolItems : List Text :=
  match d.tools with
  | .flat tools => (tools.map formatToolItem).filter fun item => !item.isEmpty
  | .sources _ => []

/-- The section of a source in the injection, empty if there is none. -/
def sourceSection (source : Source) : Text :=
  match d.tools with
  | .flat _ => []
  | .sources sections => (sections source).strip

end Delta

/-! ## What a turn text holds -/

open Misc

/-- A block of either kind. -/
def anyBlock : Matcher := fun t =>
  (Matcher.element skillsOpen skillsClose t).or (Matcher.element toolsOpen toolsClose t)

/-- The blocks of a text, each with the text before and behind it. -/
def blocks (t : Text) : List (Text × Text × Text) := anyBlock.places t

/-- A skill item: from its tag to the line that closes it. -/
def writtenSkill : Matcher := (Matcher.literal "<skill ").andThen (Matcher.upTo "\n</skill>")

/-- A tool item: from its tag to the line that closes it. -/
def writtenTool : Matcher := (Matcher.literal "<tool name='").andThen (Matcher.upTo "\n</tool>")

variable (source : Source)

/-- The line that opens the section of a source. -/
def Source.opening : Text := '<' :: (source.tag ++ ['>', '\n'])

/-- The line that closes the section of a source. -/
def Source.closing : Text := '\n' :: '<' :: '/' :: (source.tag ++ ['>'])

def writtenSection : Matcher :=
  (Matcher.literal source.opening).andThen (Matcher.upTo source.closing)

/-- A source section, or a tool item that is in none. -/
def writtenUnit : Matcher := fun t =>
  (Source.order.findSome? fun source => writtenSection source t).or (writtenTool t)

/-- The source of a section; a tool item has none. -/
def sourceOf (u : Text) : Option Source :=
  Source.order.find? fun source => source.opening.isPrefixOf u

/-- The injection writes another item with the key, or another section of the source. -/
def Delta.Redefines (d : Delta) (u : Text) : Prop :=
  match sourceOf u with
  | some source => d.sourceSection source ≠ []
  | none => toolItemKey u ∈ d.toolItems.map toolItemKey

/-- The merge has lost nothing: the result has every text of the turn that meets no block, every
item and section of the injection, and the items and sections of the blocks of the turn whose
key the injection does not write again. -/
structure Lossless (existing : Text) (d : Delta) (merged : Text) : Prop where
  outside : ∀ x o y, existing = x ++ (o ++ y) →
    (∀ p ∈ blocks existing, x.length + o.length ≤ p.1.length ∨
      p.1.length + p.2.1.length ≤ x.length) →
    o.strip ≠ [] → o <:+: merged
  skillItems : ∀ u ∈ d.skillItems, u <:+: merged
  toolItems : ∀ u ∈ d.toolItems, u <:+: merged
  sections : ∀ source, d.sourceSection source <:+: merged
  priorSkills : ∀ p ∈ blocks existing, skillsOpen <+: p.2.1 →
    ∀ u ∈ writtenSkill.findAll p.2.1, skillItemKey u ∉ d.skillItems.map skillItemKey → u <:+: merged
  priorUnits : ∀ p ∈ blocks existing, toolsOpen <+: p.2.1 →
    ∀ u ∈ writtenUnit.findAll p.2.1, ¬ d.Redefines u → u <:+: merged

end ClearYourTools.Injection
