import ClearYourTools.Migrations.PruningTools
import ClearYourTools.Permissions.Effective

/-!
# Permissions at run time

`load_config` of `config/__init__.py` and `permissions/runtime.py`: the user's file over the
bundled defaults, of which only the sections that hold permissions are written out, and the two
ways in which the permissions of an agent are looked up.
-/

namespace ClearYourTools.Permissions

open Misc CytClient

variable {φ : Type}

/-- Reading numbers, and the policies that `apply_policy_catalog_merge` leaves, if it leaves any. -/
structure RuntimeEnv (φ : Type) extends PermissionsEnv φ where
  int : Text → Option ℤ
  policies : Record φ → Option (Json φ)

instance : Coe (RuntimeEnv φ) (PermissionsEnv φ) := ⟨RuntimeEnv.toPermissionsEnv⟩

/-- What YAML loads: no dictionary has a key twice. -/
structure ConfigFile (φ : Type) where
  content : Record φ
  valid : (Json.obj content).Valid

/-- The `permissions` of a section. -/
def permissionsItem (deny : List String) : Text × Json φ :=
  (permissionsKey, .obj [(denyKey, .arr (deny.map fun rule => .str rule.toList)),
    (allowKey, .arr [])])

/-- A block below `agents`. -/
def agentDefaults (injectVia : String) (directories denySkills : List String) : Json φ :=
  .obj [
    (toolsKey, .obj [("inject_via", .str injectVia.toList), permissionsItem []]),
    (skillsKey, .obj [
      ("directories", .arr (directories.map fun directory => .str directory.toList)),
      permissionsItem denySkills])]

def loadBundledDefaultsYaml : Record φ := [
  (toolsKey, .obj [permissionsItem []]),
  (skillsKey, .obj [permissionsItem []]),
  (agentsKey, .obj [
    (PermissionAgentTarget.cursor.name,
      agentDefaults "hook" ["~/.cursor/skills", ".cursor/skills"] []),
    (PermissionAgentTarget.claude.name,
      agentDefaults "proxy" ["~/.claude/skills", ".claude/skills"] []),
    (PermissionAgentTarget.codex.name,
      agentDefaults "proxy" ["~/.codex/skills", ".codex/skills"]
        ["path:.codex/skills/.system", "path:~/.codex/skills/.system"])])]

/-- `block.pop("permissions", None)` on a dictionary. -/
def dropPermissions : Json φ → Json φ
  | .obj block => .obj (Json.popKey block permissionsKey)
  | v => v

/-- The loop over `skills` and `mcp` in `_strip_permissions_blocks`. -/
def stripSections (fields : Record φ) : Record φ :=
  fields.map fun kv =>
    (kv.1, if kv.1 = skillsKey ∨ kv.1 = mcpKey then dropPermissions kv.2 else kv.2)

/-- The same in the block of an agent. -/
def stripAgentBlock : Json φ → Json φ
  | .obj block => .obj (stripSections block)
  | v => v

/-- The blocks of all agents. -/
def stripAgents : Json φ → Json φ
  | .obj agents => .obj (agents.map fun kv => (kv.1, stripAgentBlock kv.2))
  | v => v

def stripPermissionsBlocks (config : Record φ) : Record φ :=
  (stripSections config).map fun kv =>
    (kv.1, if kv.1 = agentsKey then stripAgents kv.2 else kv.2)

def bundledDefaults : Record φ := stripPermissionsBlocks loadBundledDefaultsYaml

section

variable (env : RuntimeEnv φ)

def policiesKey : Text := "policies"

def applyPolicyCatalogMerge (merged overlay : Record φ) : Record φ :=
  match env.policies overlay with
  | some policies => Json.set merged policiesKey policies
  | none => Json.popKey merged policiesKey

/-- The bundled defaults under a normalized configuration. -/
def overDefaults (normalized : Record φ) : Record φ :=
  applyPolicyCatalogMerge env (Json.deepMerge bundledDefaults normalized) normalized

def configWithBundledDefaults (userConfig : Record φ) : Record φ :=
  overDefaults env (Migrations.normalizeLegacyConfig env.int userConfig)

/-- `load_config`, with a user's file. -/
def loadConfig (user : ConfigFile φ) : Record φ := configWithBundledDefaults env user.content

/-- The skills of an agent's block have permissions. -/
def blockHasPermissions : Json φ → Bool
  | .obj block => ((dictAt block skillsKey).bind (Json.get? · permissionsKey)).isSome
  | _ => false

def configHasPermissionsOverlay (config : Record φ) : Bool :=
  ((dictAt config skillsKey).bind (Json.get? · permissionsKey)).isSome ||
    ((dictAt config agentsKey).any fun agents => agents.any fun kv => blockHasPermissions kv.2) ||
      ((dictAt config mcpKey).bind (Json.get? · permissionsKey)).isSome

/-- `resolve_effective_permissions` for an agent in a workspace, with a configuration. -/
def resolveEffectivePermissions (user : ConfigFile φ) (files : WorkspaceFiles φ)
    (agent : PermissionAgentTarget) (config : Option (Record φ)) : EffectivePermissions :=
  match config with
  | none => effectivePermissions env user.content files agent
  | some config =>
    if configHasPermissionsOverlay config then
      effectivePermissions env config files agent
    else effectivePermissions env user.content files agent

end

/-- Two permissions deny the same. -/
structure SameDenials (a b : EffectivePermissions) : Prop where
  mcp : ∀ rule, rule ∈ a.mcp.deny ↔ rule ∈ b.mcp.deny
  skills : ∀ rule, rule ∈ a.skills.deny ↔ rule ∈ b.skills.deny

/-- A deny list of the user's file, and whether the merged configuration has a section of the
bundled defaults in its place. -/
structure FileLayer where
  deny : List Text
  hidden : Bool

/-- The user's file says nothing about the permissions of `tools`. -/
def toolsHideMcp (user : Record φ) : Bool :=
  match Json.get? user toolsKey with
  | none => true
  | some (.obj tools) => (Json.get? tools permissionsKey).isNone
  | some _ => false

/-- The user's block of an agent says nothing about `tools`. -/
def agentToolsHideMcp (user : Record φ) (agent : PermissionAgentTarget) : Bool :=
  (agentBlock user agent).any fun block => (Json.get? block toolsKey).isNone

/-- The MCP deny lists of the user's file that count for an agent. -/
def fileLayers (env : PermissionsEnv φ) (user : Record φ) : PermissionAgentTarget → List FileLayer
  | .all => [⟨(mcpPermissionsFromConfig env user).deny, toolsHideMcp user⟩]
  | agent =>
    [⟨(mcpPermissionsFromConfig env user).deny, toolsHideMcp user⟩,
      ⟨(agentMcpPermissions env user agent).deny, agentToolsHideMcp user agent⟩]

/-- The MCP deny lists of the workspace. -/
def workspaceLayers (env : PermissionsEnv φ) (files : WorkspaceFiles φ) :
    PermissionAgentTarget → List (List Text)
  | .all => [(mcpPermissionsFromConfig env files.sharedConfig).deny]
  | agent =>
    [(mcpPermissionsFromConfig env files.sharedConfig).deny,
      (mcpPermissionsFromConfig env (files.agentConfig agent)).deny,
      (agentMcpPermissions env (files.agentConfig agent) agent).deny]

/-- Every rule of a hidden list is also in a list that is not. -/
def HiddenElsewhere (env : PermissionsEnv φ) (user : Record φ) (files : WorkspaceFiles φ)
    (agent : PermissionAgentTarget) : Prop :=
  ∀ layer ∈ fileLayers env user agent, layer.hidden = true → ∀ rule ∈ layer.deny,
    (∃ layer' ∈ fileLayers env user agent, layer'.hidden = false ∧ rule ∈ layer'.deny) ∨
      ∃ list ∈ workspaceLayers env files agent, rule ∈ list

end ClearYourTools.Permissions
