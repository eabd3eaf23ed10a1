import ClearYourTools.Bm25Search.Skills
import ClearYourTools.Misc.Tally
import ClearYourTools.Permissions.Match

/-!
# Accepting the proposals of the wizard

`permissions/wizard.py` with the edits of `permissions/editor.py` that it makes: all proposals of a
tier are accepted, and the deny lists of the workspace, those of all layers in force, get an entry
for each.
-/

/-!
## Path rules

`permissions/match.py`. The home directory, symbolic links, the kinds of files and lower case are
parameters.
-/

namespace ClearYourTools.Permissions

open Misc

/-- The root of a path: two slashes are a root of their own, three are one. -/
inductive PathRoot where
  | relative
  | slash
  | doubleSlash
deriving DecidableEq

def PathRoot.text : PathRoot → Text
  | relative => []
  | slash => "/"
  | doubleSlash => "//"

/-- The root of a text by the number of the slashes in front. -/
def PathRoot.ofSlashes : ℕ → PathRoot
  | 0 => relative
  | 2 => doubleSlash
  | _ => slash

def isPathPart (part : Text) : Bool := part != [] && part != ['.'] && !part.contains '/'

/-- `PurePosixPath`. -/
structure PurePath where
  root : PathRoot
  parts : List Text
  isPart : ∀ part ∈ parts, isPathPart part = true
deriving DecidableEq

namespace PurePath

/-- `PurePosixPath(text)`. -/
def ofText (text : Text) : PurePath where
  root := .ofSlashes (text.takeWhile (· == '/')).length
  parts := (text.splitOn '/').filter isPathPart
  isPart _ hpart := (List.mem_filter.mp hpart).2

variable (path : PurePath)

/-- `as_posix`, `str`. -/
def posix : Text :=
  if path.root = .relative ∧ path.parts = [] then "."
  else path.root.text ++ Text.join ['/'] path.parts

def allParts : List Text :=
  if path.root = .relative then path.parts else path.root.text :: path.parts

def name : Text := path.parts.getLast?.getD []

def parent : PurePath where
  root := path.root
  parts := path.parts.dropLast
  isPart part hpart := path.isPart part (List.dropLast_subset _ hpart)

def isAbsolute : Bool := path.root != .relative

/-- `path / other`. -/
def join (path other : PurePath) : PurePath :=
  if other.isAbsolute then other
  else ⟨path.root, path.parts ++ other.parts,
    List.forall_mem_append.mpr ⟨path.isPart, other.isPart⟩⟩

/-- `relative_to`, where it raises no error. -/
def relativeTo (path base : PurePath) : Option PurePath :=
  if path.root = base.root ∧ base.parts <+: path.parts then
    some ⟨.relative, path.parts.drop base.parts.length,
      fun part hpart => path.isPart part (List.mem_of_mem_drop hpart)⟩
  else none

def suffix : Text :=
  let stem := (path.name.reverse.dropWhile (· != '.')).reverse
  if stem.length ≤ 1 ∨ stem.length = path.name.length then []
  else path.name.drop (stem.length - 1)

end PurePath

/-- What the functions on paths ask the system: `expanduser`, `resolve` and `is_file`. -/
structure PathEnv where
  expandUser : PurePath → PurePath
  resolve : PurePath → PurePath
  isFile : PurePath → Bool
  lower : Text → Text

variable (env : PathEnv)

def skillMdName : Text := "skill.md"
def skillsMdName : Text := "skills.md"

def skillPermissionDir (path : PurePath) : PurePath :=
  let candidate := env.expandUser path
  if [skillMdName, skillsMdName].contains (env.lower candidate.name) then candidate.parent
  else if env.isFile candidate then candidate.parent
  else candidate

/-- `format_skill_path_permission_entry` in a workspace: none for a path without a text. -/
def formatSkillPathPermissionEntry (path : Text) (workspaceRoot : PurePath) : Option Text :=
  let text := path.strip
  if text = [] then none
  else
    let candidate := skillPermissionDir env (.ofText text)
    let base := env.resolve (env.expandUser workspaceRoot)
    let resolved :=
      if candidate.isAbsolute then env.resolve candidate else env.resolve (base.join candidate)
    let text :=
      match resolved.relativeTo base with
      | some relative => relative.posix
      | none => resolved.posix
    some (skillPathPrefix ++ if "/".toList.isSuffixOf text then text else text ++ ['/'])

def resolvePermissionPath (path : PurePath) (base : Option PurePath) : PurePath :=
  let candidate := env.expandUser path
  let candidate := if candidate.isAbsolute then candidate else (base.map (·.join candidate)).getD
    candidate
  if candidate.isAbsolute then env.resolve candidate else candidate

/-- `_skill_path_rule_kind`: whether a rule is about a file. -/
def isFileRule (rulePath : PurePath) : Bool :=
  env.lower rulePath.suffix == ".md" || env.isFile rulePath

/-- The loop of `_normalize_rule_path_parts` that takes `./` off. -/
def dropDotSlash : Text → Text
  | '.' :: '/' :: rest => dropDotSlash rest
  | text => text

def normalizeRulePathParts (rulePath : Text) : List Text :=
  (PurePath.ofText (dropDotSlash
    (Text.strip (rulePath.map fun c => if c = '\\' then '/' else c)))).allParts

def findMatchingRuleSegmentIndex (skillParts ruleParts : List Text) : Option ℕ :=
  if ruleParts = [] ∨ skillParts.length < ruleParts.length then none
  else (List.range (skillParts.length - ruleParts.length + 1)).find? fun start =>
    (skillParts.drop start).take ruleParts.length == ruleParts

def skillPathMatchesRuleSegments (skill : PurePath) (rulePath : Text) : Bool :=
  let ruleParts := normalizeRulePathParts rulePath
  match findMatchingRuleSegmentIndex skill.allParts ruleParts with
  | none => false
  | some start =>
    let matched := skill.allParts.take (start + ruleParts.length)
    if isFileRule env (.ofText rulePath) then skill.allParts == matched
    else skill.allParts == matched || skill.parent.allParts == matched ||
      matched.isPrefixOf skill.allParts

def skillPathMatchesRule (skillPath rulePath : Text) (base : Option PurePath) : Bool :=
  let skill := skillPermissionDir env (resolvePermissionPath env (.ofText skillPath) base)
  let rule := skillPermissionDir env (resolvePermissionPath env (.ofText rulePath) base)
  skill == rule || skill.parent == rule || (skill.relativeTo rule).isSome ||
    skillPathMatchesRuleSegments env skill rulePath

/-- The paths of `split_skill_permission_entries`. -/
def skillPathEntries (entries : List Text) : List Text :=
  ((entries.filterMap parseSkillPermissionEntry).filter fun rule => rule.kind == .path).map
    ParsedSkillPermissionRule.value

def isSkillPathDenied (skillPath : Text) (denyEntries : List Text) (base : Option PurePath) :
    Bool :=
  let pathText := skillPath.strip
  if pathText = [] then false
  else (skillPathEntries denyEntries).any fun entry => skillPathMatchesRule env pathText entry base

def isSkillPermissionDenied (casefold : Text → Text) (skillName skillPath : Text)
    (denyEntries : List Text) (base : Option PurePath) : Bool :=
  isSkillNameDenied casefold skillName denyEntries ||
    isSkillPathDenied env skillPath denyEntries base

/-!
## Proposals of the permissions wizard

`permissions/inventory/skills.py`, `permissions/proposals.py`.
-/

/-- A row of `_enumerate_skill_rows_for_layer`. -/
structure SkillRow where
  name : Text
  path : PurePath
  nameFromFrontmatter : Bool

structure SkillInventoryItem where
  name : Text
  path : Text
  enabled : Bool
  nameFromFrontmatter : Bool
  fromWorkspace : Bool

/-- The rows of the two layers. -/
structure SkillLayers where
  user : List SkillRow
  workspace : List SkillRow

def SkillLayers.rows (layers : SkillLayers) : List SkillRow := layers.user ++ layers.workspace

section

variable (env : PathEnv) (casefold : Text → Text)

/-- What the loop of `_merge_skill_inventory_rows` makes of a row. -/
def mergeSkillRow (fromWorkspace : Bool) (merged : Dict Text (SkillRow × Bool)) (row : SkillRow) :
    Dict Text (SkillRow × Bool) :=
  if fromWorkspace || !merged.contains (casefold row.name) then
    merged.set (casefold row.name) (row, fromWorkspace)
  else merged

/-- `_merge_skill_inventory_rows` of the effective scope. -/
def mergeSkillInventoryRows (layers : SkillLayers) : List (SkillRow × Bool) :=
  let merged := layers.workspace.foldl (mergeSkillRow casefold true)
    (layers.user.foldl (mergeSkillRow casefold false) .empty)
  merged.vals.insertionSort fun a b =>
    Bm25Search.textLe (casefold a.1.name) (casefold b.1.name) = true

/-- An item of `list_skills`. -/
def inventoryItem (deny : List Text) (base : PurePath) (row : SkillRow × Bool) :
    SkillInventoryItem where
  name := row.1.name
  path := row.1.path.posix
  enabled := !isSkillPermissionDenied env casefold row.1.name row.1.path.posix deny (some base)
  nameFromFrontmatter := row.1.nameFromFrontmatter
  fromWorkspace := row.2

/-- `list_skills`: the enabled items and the disabled ones. -/
def listSkills (layers : SkillLayers) (deny : List Text) (base : PurePath) :
    List SkillInventoryItem × List SkillInventoryItem :=
  ((mergeSkillInventoryRows casefold layers).map (inventoryItem env casefold deny base)).partition
    SkillInventoryItem.enabled

end

inductive ProposalTier where
  | t0
  | t1
deriving DecidableEq

structure ToolProposal where
  server : Text
  tool : Text
  entityId : Text
  tier : ProposalTier
  serverConfigPath : Option Text
  serverConfigLine : Option ℤ
deriving DecidableEq

structure SkillProposal where
  name : Text
  path : PurePath
  entityId : Text
  tier : ProposalTier
  discoveryConfigPath : Option Text
  discoveryDirectory : Option Text
deriving DecidableEq

structure ServerRollupProposal where
  server : Text
  tools : List ToolProposal
  tier : ProposalTier

structure SkillDirRollupProposal where
  directory : PurePath
  directoryDisplay : Text
  skills : List SkillProposal
  tier : ProposalTier

def toolEnabled (server tool : Text) (deny : List Text) : Bool := !isMcpToolDenied server tool deny

/-- The catalog tools of a server that are enabled, each once: `servers_in_catalog`. -/
def enabledTools (catalog : List Text) (deny : List Text) (server : Text) : List Text :=
  (catalog.filterMap fun name =>
    match splitCatalogToolName name with
    | none => none
    | some (srv, tool) => if toolEnabled srv tool deny && srv == server then some tool else none
    ).eraseDups

/-- The test of the loop over the servers. -/
def isServerRollup (enabled : List Text) (proposals : List ToolProposal) : Bool :=
  !enabled.isEmpty && enabled.all (proposals.map ToolProposal.tool).contains &&
    proposals.length == enabled.length

/-- The proposals by server, in the order of the servers: `sorted(tools_by_server.items())`. -/
def toolsByServer (proposals : List ToolProposal) : List (Text × List ToolProposal) :=
  (groupsBy ToolProposal.server proposals).entries.insertionSort fun a b =>
    Bm25Search.textLe a.1 b.1 = true

/-- What a partition has so far. -/
structure ToolPartition where
  serverRollups : List ServerRollupProposal
  leftoverTools : List ToolProposal

/-- What the loop of `_partition_tool_proposals` makes of a server. -/
def partitionServer (catalog : List Text) (deny : List Text) (targetTier : ProposalTier)
    (partition : ToolPartition) (group : Text × List ToolProposal) : ToolPartition :=
  if isServerRollup (enabledTools catalog deny group.1) group.2 then
    { partition with
      serverRollups := partition.serverRollups ++ [⟨group.1, group.2, targetTier⟩] }
  else { partition with leftoverTools := partition.leftoverTools ++ group.2 }

/-- What the last loop adds: a proposal that is nowhere. -/
def addLeftoverTool (rollupServers : List Text) (leftover : List ToolProposal)
    (proposal : ToolProposal) : List ToolProposal :=
  if !rollupServers.contains proposal.server && !leftover.contains proposal then
    leftover ++ [proposal]
  else leftover

def partitionToolProposals (proposals : List ToolProposal) (catalog : List Text)
    (effectiveDeny : List Text) (targetTier : ProposalTier) : ToolPartition :=
  let partition := (toolsByServer proposals).foldl
    (partitionServer catalog effectiveDeny targetTier) ⟨[], []⟩
  { partition with
    leftoverTools := proposals.foldl
      (addLeftoverTool (partition.serverRollups.map ServerRollupProposal.server))
      partition.leftoverTools }

section

variable (env : PathEnv)

/-- What the loop of `_resolve_skill_root` makes of a root: one with more parts is better. -/
def betterRoot (resolved : PurePath) (best : Option PurePath) (root : PurePath) :
    Option PurePath :=
  let rootResolved := env.resolve (env.expandUser root)
  if (resolved.relativeTo rootResolved).isSome &&
      best.all fun best => best.allParts.length < rootResolved.allParts.length then
    some rootResolved
  else best

def resolveSkillRoot (path : PurePath) (roots : List PurePath) : Option PurePath :=
  roots.foldl (betterRoot env (env.resolve (env.expandUser path))) none

/-- `_skill_directory_for_proposal`. -/
def skillDirectoryFor (path : PurePath) : PurePath :=
  if env.lower path.name = skillMdName then path.parent else path

def proposalRoot (roots : List PurePath) (proposal : SkillProposal) : Option PurePath :=
  resolveSkillRoot env (skillDirectoryFor env proposal.path) roots

def indexSkillProposalsByRoot (proposals : List SkillProposal) (roots : List PurePath) :
    Dict PurePath (List SkillProposal) × List SkillProposal :=
  (groupsOf (proposalRoot env roots) proposals,
    proposals.filter fun proposal => (proposalRoot env roots proposal).isNone)

/-- `enabled_skills_by_root`: the names under a root, each once. -/
def enabledSkillNames (items : List SkillInventoryItem) (roots : List PurePath) (root : PurePath) :
    List Text :=
  ((items.filter fun item => resolveSkillRoot env (.ofText item.path) roots == some root).map
    SkillInventoryItem.name).eraseDups

/-- The test of the loop over the roots. -/
def isSkillDirRollup (enabled : List Text) (proposals : List SkillProposal) : Bool :=
  !enabled.isEmpty && enabled.all (proposals.map SkillProposal.name).contains &&
    proposals.length == enabled.length

def skillDirDisplay (directory workspaceRoot : PurePath) : Text :=
  match (env.resolve directory).relativeTo (env.resolve workspaceRoot) with
  | some relative => relative.posix
  | none => directory.posix

/-- What a partition has so far. -/
structure SkillPartition where
  skillDirRollups : List SkillDirRollupProposal
  leftoverSkills : List SkillProposal

/-- What the loop of `_partition_skill_proposals` makes of a root. -/
def partitionRoot (items : List SkillInventoryItem) (roots : List PurePath)
    (projectRoot : PurePath) (targetTier : ProposalTier) (partition : SkillPartition)
    (group : PurePath × List SkillProposal) : SkillPartition :=
  if isSkillDirRollup (enabledSkillNames env items roots group.1) group.2 then
    { partition with
      skillDirRollups := partition.skillDirRollups ++
        [⟨group.1, skillDirDisplay env group.1 projectRoot, group.2, targetTier⟩] }
  else { partition with leftoverSkills := partition.leftoverSkills ++ group.2 }

/-- What the last loop adds: a proposal that is nowhere. -/
def addLeftoverSkill (roots rollupDirs : List PurePath) (leftover : List SkillProposal)
    (proposal : SkillProposal) : List SkillProposal :=
  if !((proposalRoot env roots proposal).any rollupDirs.contains) && !leftover.contains proposal then
    leftover ++ [proposal]
  else leftover

def partitionSkillProposals (proposals : List SkillProposal) (items : List SkillInventoryItem)
    (roots : List PurePath) (projectRoot : PurePath) (targetTier : ProposalTier) : SkillPartition :=
  let index := indexSkillProposalsByRoot env proposals roots
  let sorted := index.1.entries.insertionSort fun a b =>
    Bm25Search.textLe a.1.posix b.1.posix = true
  let partition := sorted.foldl (partitionRoot env items roots projectRoot targetTier)
    ⟨[], index.2⟩
  { partition with
    leftoverSkills := proposals.foldl (addLeftoverSkill env roots
      (partition.skillDirRollups.map SkillDirRollupProposal.directory)) partition.leftoverSkills }

end

structure TierProposalBundle where
  tier : ProposalTier
  tools : List ToolProposal
  skills : List SkillProposal
  serverRollups : List ServerRollupProposal
  skillDirRollups : List SkillDirRollupProposal
  leftoverTools : List ToolProposal
  leftoverSkills : List SkillProposal

structure AppliedChanges where
  servers : List Text
  tools : List (Text × Text)
  skillDirs : List PurePath
  skillFiles : List SkillProposal

variable (env : PathEnv)

def applyAcceptAllDecisions (bundle : TierProposalBundle) : AppliedChanges where
  servers := bundle.serverRollups.map ServerRollupProposal.server
  tools := (bundle.tools.filter fun proposal =>
    !(bundle.serverRollups.map ServerRollupProposal.server).contains proposal.server).map
      fun proposal => (proposal.server, proposal.tool)
  skillDirs := bundle.skillDirRollups.map SkillDirRollupProposal.directory
  skillFiles := bundle.skills.filter fun proposal =>
    !(bundle.skillDirRollups.map SkillDirRollupProposal.directory).contains
      (skillDirectoryFor env proposal.path)

structure DenyLists where
  mcp : List Text
  skills : List Text

/-- `if entry not in deny: deny.append(entry)`. -/
def addDenyEntry (deny : List Text) (entry : Text) : List Text :=
  if deny.contains entry then deny else deny ++ [entry]

def disableMcpServer (lists : DenyLists) (server : Text) : DenyLists :=
  { lists with mcp := addDenyEntry lists.mcp server.strip }

def disableMcpTool (lists : DenyLists) (tool : Text × Text) : DenyLists :=
  { lists with mcp := addDenyEntry lists.mcp (toolKey tool.1.strip tool.2.strip) }

/-- `disable_skill` of a path: none where the path has no text. -/
def disableSkillPath (workspaceRoot : PurePath) (lists : DenyLists) (path : PurePath) :
    Option DenyLists :=
  (formatSkillPathPermissionEntry env path.posix workspaceRoot).map fun entry =>
    { lists with skills := addDenyEntry lists.skills entry }

/-- `apply_changes`: none where an edit raises an error. -/
def applyChanges (workspaceRoot : PurePath) (changes : AppliedChanges) (lists : DenyLists) :
    Option DenyLists :=
  let lists := changes.servers.foldl disableMcpServer lists
  let lists := (changes.tools.filter fun tool => !changes.servers.contains tool.1).foldl
    disableMcpTool lists
  (changes.skillDirs.foldlM (disableSkillPath env workspaceRoot) lists).bind
    (((changes.skillFiles.map fun proposal => skillDirectoryFor env proposal.path).filter fun dir =>
      !changes.skillDirs.contains dir).foldlM (disableSkillPath env workspaceRoot))

/-- What the wizard starts from. -/
structure WizardInput where
  toolProposals : List ToolProposal
  skillProposals : List SkillProposal
  catalog : List Text
  layers : SkillLayers
  skillRoots : List PurePath
  workspaceRoot : PurePath
  targetTier : ProposalTier
  deny : DenyLists

section

variable (casefold : Text → Text) (input : WizardInput)

def toolPartition : ToolPartition :=
  partitionToolProposals input.toolProposals input.catalog input.deny.mcp input.targetTier

def enabledSkills : List SkillInventoryItem :=
  (listSkills env casefold input.layers input.deny.skills input.workspaceRoot).1

def skillPartition : SkillPartition :=
  partitionSkillProposals env input.skillProposals (enabledSkills env casefold input)
    input.skillRoots input.workspaceRoot input.targetTier

def proposalBundle : TierProposalBundle where
  tier := input.targetTier
  tools := input.toolProposals
  skills := input.skillProposals
  serverRollups := (toolPartition input).serverRollups
  skillDirRollups := (skillPartition env casefold input).skillDirRollups
  leftoverTools := (toolPartition input).leftoverTools
  leftoverSkills := (skillPartition env casefold input).leftoverSkills

/-- The deny lists after all proposals are accepted. -/
def acceptAll : Option DenyLists :=
  applyChanges env input.workspaceRoot
    (applyAcceptAllDecisions env (proposalBundle env casefold input)) input.deny

end

end ClearYourTools.Permissions
