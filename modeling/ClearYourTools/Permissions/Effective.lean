import ClearYourTools.CytClient.Sessions
import ClearYourTools.Permissions.Match

/-!
# Effective permissions

`permissions/schema.py`, the readers of `config/sections.py` and `permissions/merge.py`: the deny
and allow lists of a configuration file, and their union over the user's file and the files of a
workspace. A file is the dictionary that its YAML is loaded to, after the migrations that run
before it is read.
-/

/-! ## Editing permission overlays: `permissions/editor.py`, `config.yaml` -/

namespace ClearYourTools.Permissions

open Misc

/-- A value that is no dictionary. Of a list only the `str` of its items is read. -/
inductive Leaf where
  | list (items : List Text)
  | other

/-- The entries of a dictionary. -/
inductive Fields where
  | nil
  | dict (key : Text) (value : Fields) (rest : Fields)
  | leaf (key : Text) (value : Leaf) (rest : Fields)

inductive Value where
  | dict (fields : Fields)
  | leaf (value : Leaf)

namespace Fields

/-- `dict.get`. -/
def get? (k : Text) : Fields → Option Value
  | nil => none
  | dict key value rest => if key = k then some (.dict value) else rest.get? k
  | leaf key value rest => if key = k then some (.leaf value) else rest.get? k

/-- An entry in front of a dictionary. -/
def cons (key : Text) : Value → Fields → Fields
  | .dict fields, rest => .dict key fields rest
  | .leaf value, rest => .leaf key value rest

/-- The entries of `overlay` under keys that `base` does not have. -/
def added (base : Fields) : Fields → Fields
  | nil => nil
  | dict key value rest =>
    if (base.get? key).isSome then added base rest else .dict key value (added base rest)
  | leaf key value rest =>
    if (base.get? key).isSome then added base rest else .leaf key value (added base rest)

/-- Two dictionaries after one another. -/
def append : Fields → Fields → Fields
  | nil, other => other
  | dict key value rest, other => .dict key value (rest.append other)
  | leaf key value rest, other => .leaf key value (rest.append other)

/-- The entries of `base` with what `overlay` makes of them. -/
def overridden : Fields → Fields → Fields
  | nil, _ => nil
  | dict key value rest, overlay =>
    match overlay.get? key with
    | some (.dict value') =>
      .dict key ((overridden value value').append (added value value')) (overridden rest overlay)
    | some (.leaf value') => .leaf key value' (overridden rest overlay)
    | none => .dict key value (overridden rest overlay)
  | leaf key value rest, overlay =>
    cons key ((overlay.get? key).getD (.leaf value)) (overridden rest overlay)

def deepMerge (base overlay : Fields) : Fields :=
  (overridden base overlay).append (added base overlay)

end Fields

inductive PermissionKind where
  | mcp
  | skills
deriving DecidableEq

inductive PermissionAgentTarget where
  | cursor
  | claude
  | codex
  | all
deriving DecidableEq

def PermissionAgentTarget.name : PermissionAgentTarget → Text
  | cursor => "cursor"
  | claude => "claude"
  | codex => "codex"
  | all => "all"

variable (kind : PermissionKind)

def overlayPath (agentTarget : PermissionAgentTarget) : List Text :=
  match kind, agentTarget with
  | .mcp, .all => ["tools".toList, "permissions".toList]
  | .mcp, agent => ["agents".toList, agent.name, "tools".toList, "permissions".toList]
  | .skills, .all => ["skills".toList, "permissions".toList]
  | .skills, agent => ["agents".toList, agent.name, "skills".toList, "permissions".toList]

def legacyOverlayPath (agentTarget : PermissionAgentTarget) : Option (List Text) :=
  match kind, agentTarget with
  | .skills, _ => none
  | .mcp, .all => some ["mcp".toList, "permissions".toList]
  | .mcp, agent => some ["agents".toList, agent.name, "mcp".toList, "permissions".toList]

/-- The walk of `_permissions_lists` to the dictionary under the keys. -/
def descend (config : Fields) : List Text → Option Fields
  | [] => some config
  | key :: keys =>
    match config.get? key with
    | some (.dict block) => descend block keys
    | _ => none

/-- The items of a list, stripped, without the empty ones. -/
def strippedItems : Option Value → List Text
  | some (.leaf (.list items)) => (items.map Text.strip).filter fun item => !item.isEmpty
  | _ => []

variable (config : Fields)

/-- `_permissions_lists`: the deny and the allow list. -/
def permissionsLists (keys : List Text) : List Text × List Text :=
  match descend config keys with
  | none => ([], [])
  | some current =>
    (strippedItems (current.get? "deny"), strippedItems (current.get? "allow"))

def loadPermissionsLists (kind : PermissionKind) (agentTarget : PermissionAgentTarget) :
    List Text × List Text :=
  let lists := permissionsLists config (overlayPath kind agentTarget)
  if lists.1 ≠ [] ∨ lists.2 ≠ [] then lists
  else
    match legacyOverlayPath kind agentTarget with
    | some legacy => permissionsLists config legacy
    | none => lists

/-- The nested dictionary of `_build_overlay`. -/
def nestedOverlay (permissions : Fields) : List Text → Fields
  | [] => permissions
  | key :: keys => .dict key (nestedOverlay permissions keys) .nil

/-- `_build_overlay`, with an allow list. -/
def buildOverlay (agentTarget : PermissionAgentTarget) (deny allow : List Text) : Fields :=
  nestedOverlay (.leaf "deny" (.list deny) (.leaf "allow" (.list allow) .nil))
    (overlayPath kind agentTarget)

/-- `_save_lists`: the configuration that `save_user_config` writes. -/
def saveLists (kind : PermissionKind) (agentTarget : PermissionAgentTarget) (deny allow : List Text) :
    Fields :=
  config.deepMerge (buildOverlay kind agentTarget deny allow)

variable (deny : List Text)

def removeServerDenyEntries (server : Text) : List Text :=
  deny.filter fun entry =>
    match parseMcpDenyEntry entry with
    | none => true
    | some rule => !(rule.server == server.strip)

def removeToolDenyEntry (server tool : Text) : List Text :=
  deny.filter fun entry => !(equivalentMcpToolDenyEntries server tool).contains entry.strip

def removeSkillNameDenyEntry (skillName : Text) : List Text :=
  deny.filter fun entry =>
    match parseSkillPermissionEntry entry with
    | none => true
    | some rule => !(rule.kind == .name && rule.value == skillName.strip)

/-- The common body of the edits: load the lists, change the deny list, save. -/
def editDeny (edit : List Text → List Text) (config : Fields) (agentTarget : PermissionAgentTarget) :
    Fields :=
  let lists := loadPermissionsLists config kind agentTarget
  saveLists config kind agentTarget (edit lists.1) lists.2

/-- `enable_mcp_server`, as far as the permissions file goes. -/
def enableMcpServer (server : Text) : Fields → PermissionAgentTarget → Fields :=
  editDeny .mcp fun deny => removeServerDenyEntries deny server

def enableMcpTool (server tool : Text) : Fields → PermissionAgentTarget → Fields :=
  editDeny .mcp fun deny => removeToolDenyEntry deny server tool

/-- `enable_skill` without a path. -/
def enableSkill (skillName : Text) : Fields → PermissionAgentTarget → Fields :=
  editDeny .skills fun deny => removeSkillNameDenyEntry deny skillName

open Misc CytClient

variable {φ : Type}

/-- `str.lower` with the way in which Python writes values. -/
structure PermissionsEnv (φ : Type) extends Json.PyFormat φ where
  lower : Text → Text

instance : Coe (PermissionsEnv φ) (Json.PyFormat φ) := ⟨PermissionsEnv.toPyFormat⟩

def toolsKey : Text := "tools"
def mcpKey : Text := "mcp"
def skillsKey : Text := "skills"
def agentsKey : Text := "agents"
def permissionsKey : Text := "permissions"
def denyKey : Text := "deny"
def allowKey : Text := "allow"
def pathKey : Text := "path"
def nameKey : Text := "name"

/-- `PermissionLists`, which `McpPermissions` and `SkillsPermissions` have the fields of. -/
structure PermissionLists where
  deny : List Text
  allow : List Text

structure EffectivePermissions where
  mcp : PermissionLists
  skills : PermissionLists

section

variable (env : PermissionsEnv φ)

/-- `str(value or "").strip()`. -/
def strippedOr (value : Json φ) : Text :=
  Text.strip (if Json.truthy env value then Json.toStr env value else [])

/-- The rule of a mapping with one item. -/
def mappedRule (key value : Text) : Option Text :=
  if value = [] then none
  else if key = pathKey then some (skillPathPrefix ++ value)
  else if key = nameKey then some value
  else none

def normalizePermissionEntry : Json φ → Option Text
  | .obj [(key, value)] => mappedRule (env.lower key.strip) (strippedOr env value)
  | .obj _ => none
  | item => if strippedOr env item = [] then none else some (strippedOr env item)

def stringList : Option (Json φ) → List Text
  | some (.arr items) => items.filterMap (normalizePermissionEntry env)
  | _ => []

def PermissionLists.fromRaw : Option (Record φ) → PermissionLists
  | some raw => ⟨stringList env (Json.get? raw denyKey), stringList env (Json.get? raw allowKey)⟩
  | none => ⟨[], []⟩

/-- The value under a key, if it is a dictionary. -/
def dictAt (fields : Record φ) (key : Text) : Option (Record φ) :=
  match Json.get? fields key with
  | some (.obj block) => some block
  | _ => none

variable (cfg : Record φ)

def globalMcpPermissionsRaw : Option (Record φ) :=
  ((dictAt cfg toolsKey).bind (dictAt · permissionsKey)).or
    ((dictAt cfg mcpKey).bind (dictAt · permissionsKey))

/-- `config["agents"][agent]`, if it is a dictionary. -/
def agentBlock (agent : PermissionAgentTarget) : Option (Record φ) :=
  (dictAt cfg agentsKey).bind (dictAt · agent.name)

def agentToolsBlock (agent : PermissionAgentTarget) : Option (Record φ) :=
  (agentBlock cfg agent).bind fun block => (dictAt block toolsKey).or (dictAt block mcpKey)

def agentToolsPermissionsRaw (agent : PermissionAgentTarget) : Option (Record φ) :=
  (agentToolsBlock cfg agent).bind (dictAt · permissionsKey)

variable (config : Record φ)

def mcpPermissionsFromConfig : PermissionLists :=
  .fromRaw env (globalMcpPermissionsRaw config)

def skillsPermissionsFromConfig : PermissionLists :=
  .fromRaw env ((dictAt config skillsKey).bind (dictAt · permissionsKey))

def agentMcpPermissions (agent : PermissionAgentTarget) : PermissionLists :=
  .fromRaw env (agentToolsPermissionsRaw config agent)

def agentSkillsPermissions (agent : PermissionAgentTarget) : PermissionLists :=
  .fromRaw env (((agentBlock config agent).bind (dictAt · skillsKey)).bind
    (dictAt · permissionsKey))

end

/-- The configuration files of a workspace: the shared one, and for each agent the older ones
that exist, in the order in which they are looked for. -/
structure WorkspaceFiles (φ : Type) where
  shared : Option (Record φ)
  legacy : PermissionAgentTarget → List (Record φ)

namespace WorkspaceFiles

def agents : List PermissionAgentTarget := [.cursor, .claude, .codex]

variable (files : WorkspaceFiles φ)

/-- The files without the first older one of an agent. -/
def dropLegacy (agent : PermissionAgentTarget) : PermissionAgentTarget → List (Record φ) :=
  fun agent' => if agent' = agent then (files.legacy agent').tail else files.legacy agent'

/-- The agent whose older file becomes the shared one. -/
def promotedAgent : Option PermissionAgentTarget :=
  agents.find? fun agent => !(files.legacy agent).isEmpty

/-- `ensure_canonical_workspace_config`: without a shared file the first older one is moved to its
place. -/
def promoted : WorkspaceFiles φ :=
  match files.shared, files.promotedAgent with
  | none, some agent => ⟨(files.legacy agent).head?, files.dropLegacy agent⟩
  | _, _ => files

/-- `load_workspace_all_agents_config_overlay`. -/
def sharedConfig : Record φ := files.promoted.shared.getD []

/-- `load_workspace_config_overlay`, for one agent, after the shared file is loaded. -/
def agentConfig (agent : PermissionAgentTarget) : Record φ :=
  (files.promoted.legacy agent).head?.getD []

end WorkspaceFiles

section

/-- An item of a layer in front of which `merged` was read. -/
def addRule (merged : List Text) (item : Text) : List Text :=
  if item.strip = [] ∨ item.strip ∈ merged then merged else merged ++ [item.strip]

def unionStringLists (layers : List (List Text)) : List Text := layers.flatten.foldl addRule []

/-- The union of both lists of the layers. -/
def unionLists (layers : List PermissionLists) : PermissionLists :=
  ⟨unionStringLists (layers.map PermissionLists.deny),
    unionStringLists (layers.map PermissionLists.allow)⟩

variable (env : PermissionsEnv φ)

variable (globalCfg : Record φ)

/-- The layers of `_effective_permissions_for_agent` and `_effective_permissions_all_agents` about
MCP servers. -/
def mcpLayers (files : WorkspaceFiles φ) :
    PermissionAgentTarget → List PermissionLists
  | .all => [mcpPermissionsFromConfig env globalCfg, mcpPermissionsFromConfig env files.sharedConfig]
  | agent =>
    [mcpPermissionsFromConfig env globalCfg, agentMcpPermissions env globalCfg agent,
      mcpPermissionsFromConfig env files.sharedConfig,
      mcpPermissionsFromConfig env (files.agentConfig agent),
      agentMcpPermissions env (files.agentConfig agent) agent]

def skillsLayers (files : WorkspaceFiles φ) :
    PermissionAgentTarget → List PermissionLists
  | .all =>
    [skillsPermissionsFromConfig env globalCfg, skillsPermissionsFromConfig env files.sharedConfig]
  | agent =>
    [skillsPermissionsFromConfig env globalCfg, agentSkillsPermissions env globalCfg agent,
      skillsPermissionsFromConfig env files.sharedConfig,
      skillsPermissionsFromConfig env (files.agentConfig agent),
      agentSkillsPermissions env (files.agentConfig agent) agent]

/-- `effective_permissions`, in a workspace. -/
def effectivePermissions (files : WorkspaceFiles φ) (agent : PermissionAgentTarget) :
    EffectivePermissions :=
  ⟨unionLists (mcpLayers env globalCfg files agent),
    unionLists (skillsLayers env globalCfg files agent)⟩

end

theorem mem_foldl_addRule (items : List Text) (merged : List Text) (rule : Text) :
    rule ∈ items.foldl addRule merged ↔
      rule ∈ merged ∨ rule ≠ [] ∧ ∃ item ∈ items, item.strip = rule := by
  induction items generalizing merged with
  | nil =>
    rw [List.foldl_nil]
    exact ⟨.inl, fun h => h.elim id fun h => nomatch h.2⟩
  | cons item items ih =>
    rw [List.foldl_cons, ih]
    have hadd : rule ∈ addRule merged item ↔ rule ∈ merged ∨ rule ≠ [] ∧ item.strip = rule := by
      unfold addRule
      split
      · rename_i h
        constructor
        · exact .inl
        · rintro (hrule | ⟨hne, rfl⟩)
          · exact hrule
          · exact h.resolve_left hne
      · rename_i h
        rw [List.mem_append, List.mem_singleton]
        constructor
        · rintro (hrule | rfl)
          · exact .inl hrule
          · exact .inr ⟨fun hnil => h (.inl hnil), rfl⟩
        · rintro (hrule | ⟨-, rfl⟩)
          · exact .inl hrule
          · exact .inr rfl
    rw [hadd, or_assoc, ← and_or_left, List.exists_mem_cons_iff]

theorem mem_unionStringLists {layers : List (List Text)} {rule : Text} :
    rule ∈ unionStringLists layers ↔
      rule ≠ [] ∧ ∃ layer ∈ layers, ∃ item ∈ layer, item.strip = rule := by
  have hflat : (∃ item ∈ layers.flatten, item.strip = rule) ↔
      ∃ layer ∈ layers, ∃ item ∈ layer, item.strip = rule := by
    constructor
    · rintro ⟨item, hitem, hrule⟩
      obtain ⟨layer, hlayer, hitem⟩ := List.mem_flatten.mp hitem
      exact ⟨layer, hlayer, item, hitem, hrule⟩
    · rintro ⟨layer, hlayer, item, hitem, hrule⟩
      exact ⟨item, List.mem_flatten.mpr ⟨layer, hlayer, hitem⟩, hrule⟩
  rw [unionStringLists, mem_foldl_addRule, hflat]
  exact or_iff_right List.not_mem_nil

/-- A rule that is read from a list is stripped and not empty. -/
def Normal (rule : Text) : Prop := rule ≠ [] ∧ rule.strip = rule

end ClearYourTools.Permissions
