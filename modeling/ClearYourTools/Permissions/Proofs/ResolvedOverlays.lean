import ClearYourTools.Permissions.Runtime

/-!
# One policy on two routes

The merged configuration says the same about skills as the user's file. About MCP servers it says
the same but for the older sections that the empty lists of the bundled defaults stand in front of.
-/

namespace ClearYourTools.Permissions

open Misc CytClient List Option
open Json (get? deepMerge)
open PermissionLists (fromRaw)

variable {φ : Type}

section

variable {base overlay block : Record φ} {key key' : Text}

theorem dictAt_of_get? {fields block : Record φ} {key : Text}
    (h : get? fields key = some (.obj block)) : dictAt fields key = some block := by
  rw [dictAt, h]

theorem get?_deepMerge_of_none (h : get? base key = none) :
    get? (deepMerge base overlay) key = get? overlay key := by
  rw [Json.get?_deepMerge, h]
  cases get? overlay key <;> rfl

theorem dictAt_deepMerge_of_none (h : get? base key = none) :
    dictAt (deepMerge base overlay) key = dictAt overlay key := by
  rw [dictAt, get?_deepMerge_of_none h, dictAt]

/-- What stands over a dictionary of the base. -/
def overDict (block : Record φ) : Option (Json φ) → Option (Record φ)
  | none => some block
  | some (.obj fields) => some (deepMerge block fields)
  | some _ => none

theorem dictAt_deepMerge (h : get? base key = some (.obj block)) :
    dictAt (deepMerge base overlay) key = overDict block (get? overlay key) := by
  rw [dictAt, Json.get?_deepMerge, h]
  cases hkey : get? overlay key with
  | none => rfl
  | some v =>
    cases v with
    | obj fields =>
      dsimp only
      rw [Json.mergedValue_obj]
      rfl
    | _ => rfl

theorem get?_dictAt_deepMerge (h : get? base key = some (.obj block))
    (hkey : get? block key' = none) :
    (dictAt (deepMerge base overlay) key).bind (get? · key') =
      (dictAt overlay key).bind (get? · key') := by
  rw [dictAt_deepMerge h, dictAt]
  cases get? overlay key with
  | none => exact hkey
  | some v =>
    cases v with
    | obj fields => exact get?_deepMerge_of_none hkey
    | _ => rfl

/-- The dictionary of a value, if it is one. -/
def asDict : Option (Json φ) → Option (Record φ)
  | some (.obj block) => some block
  | _ => none

theorem bind_dictAt (fields : Option (Record φ)) (key : Text) :
    fields.bind (dictAt · key) = asDict (fields.bind (get? · key)) := by
  cases fields <;> rfl

theorem dictAt_dictAt_deepMerge (h : get? base key = some (.obj block))
    (hkey : get? block key' = none) :
    (dictAt (deepMerge base overlay) key).bind (dictAt · key') =
      (dictAt overlay key).bind (dictAt · key') := by
  rw [bind_dictAt, get?_dictAt_deepMerge h hkey, ← bind_dictAt]

/-- A test of values that nothing in the base passes finds in a merged dictionary what it finds in
the overlay. -/
theorem any_deepMerge {q : Json φ → Bool} (hoverlay : (overlay.map Prod.fst).Nodup)
    (hbase : ∀ kv ∈ base, q kv.2 = false ∧ ∀ v, q (Json.mergedValue kv.2 v) = q v) :
    (deepMerge base overlay).any (fun kv => q kv.2) = overlay.any fun kv => q kv.2 := by
  rw [Bool.eq_iff_iff, List.any_eq_true, List.any_eq_true]
  constructor
  · rintro ⟨kv, hkv, hq⟩
    rcases mem_append.mp hkv with hkv | hkv
    · rw [Json.mergedFields_eq] at hkv
      obtain ⟨kv', hkv', rfl⟩ := List.mem_map.mp hkv
      cases hget : get? overlay kv'.1 with
      | none =>
        rw [hget] at hq
        rw [map_none, getD_none, (hbase kv' hkv').1] at hq
        cases hq
      | some v =>
        rw [hget] at hq
        rw [map_some, getD_some, (hbase kv' hkv').2] at hq
        obtain ⟨before, after, rfl, -⟩ := lookup_eq_some_iff.mp hget
        exact ⟨_, mem_append_right before mem_cons_self, hq⟩
    · exact ⟨kv, (mem_filter.mp hkv).1, hq⟩
  · rintro ⟨kv, hkv, hq⟩
    cases hget : get? base kv.1 with
    | none =>
      refine ⟨kv, mem_append_right _ (mem_filter.mpr ⟨hkv, ?_⟩), hq⟩
      rw [hget]
      rfl
    | some v =>
      obtain ⟨before, after, hsplit, -⟩ := lookup_eq_some_iff.mp hget
      have hmem : (kv.1, v) ∈ base := hsplit ▸ mem_append_right before mem_cons_self
      have hover : get? overlay kv.1 = some kv.2 := Json.get?_of_mem hoverlay hkv
      refine ⟨(kv.1, Json.mergedValue v kv.2), mem_append_left _ ?_, ?_⟩
      · rw [Json.mergedFields_eq]
        refine List.mem_map.mpr ⟨(kv.1, v), hmem, ?_⟩
        rw [hover]
        rfl
      · exact ((hbase _ hmem).2 kv.2).trans hq

end

/-- The permissions of the bundled defaults. -/
def emptyPermissions : Record φ := [(denyKey, .arr []), (allowKey, .arr [])]

/-- The block of an agent in the bundled defaults, without the permissions of its skills. -/
def bundledBlock (injectVia : String) (directories : List String) : Record φ := [
  (toolsKey, .obj [("inject_via", .str injectVia.toList), permissionsItem []]),
  (skillsKey, .obj [
    ("directories", .arr (directories.map fun directory => .str directory.toList))])]

/-- `agents` of the bundled defaults. -/
def bundledAgents : Record φ := [
  (PermissionAgentTarget.cursor.name, .obj
    (bundledBlock "hook" ["~/.cursor/skills", ".cursor/skills"])),
  (PermissionAgentTarget.claude.name, .obj
    (bundledBlock "proxy" ["~/.claude/skills", ".claude/skills"])),
  (PermissionAgentTarget.codex.name, .obj
    (bundledBlock "proxy" ["~/.codex/skills", ".codex/skills"]))]

theorem get?_bundledDefaults_tools :
    get? (bundledDefaults : Record φ) toolsKey = some (.obj [permissionsItem []]) := rfl

theorem get?_bundledDefaults_skills :
    get? (bundledDefaults : Record φ) skillsKey = some (.obj []) := rfl

theorem get?_bundledDefaults_mcp : get? (bundledDefaults : Record φ) mcpKey = none := rfl

theorem get?_bundledDefaults_agents :
    get? (bundledDefaults : Record φ) agentsKey = some (.obj bundledAgents) := rfl

theorem get?_bundledAgents {agent : PermissionAgentTarget} (h : agent ≠ .all) :
    ∃ injectVia directories, get? (bundledAgents : Record φ) agent.name =
      some (.obj (bundledBlock injectVia directories)) := by
  cases agent with
  | cursor => exact ⟨_, _, rfl⟩
  | claude => exact ⟨_, _, rfl⟩
  | codex => exact ⟨_, _, rfl⟩
  | all => exact absurd rfl h

section

variable (env : RuntimeEnv φ) (user : ConfigFile φ)

variable {key : Text}

section

variable (h : key ∈ [toolsKey, mcpKey, skillsKey, agentsKey])
include h

theorem get?_loadConfig :
    get? (loadConfig env user) key = get? (deepMerge bundledDefaults user.content) key := by
  have hpolicies : key ≠ policiesKey := by
    rintro rfl
    exact absurd h (by decide)
  have hcyt : key ≠ Migrations.cytKey := by
    rintro rfl
    exact absurd h (by decide)
  have hpruning : key ≠ Migrations.pruningKey := by
    rintro rfl
    exact absurd h (by decide)
  have happly : ∀ merged overlay : Record φ,
      get? (applyPolicyCatalogMerge env merged overlay) key = get? merged key := by
    intro merged overlay
    unfold applyPolicyCatalogMerge
    split
    · exact Json.get?_set_of_ne hpolicies _
    · exact Json.get?_popKey_of_ne hpolicies
  rw [loadConfig, configWithBundledDefaults, overDefaults, happly, Json.get?_deepMerge,
    Json.get?_deepMerge, Migrations.get?_normalizeLegacyConfig_of_ne env.int hcyt hpruning]

theorem dictAt_loadConfig :
    dictAt (loadConfig env user) key = dictAt (deepMerge bundledDefaults user.content) key := by
  rw [dictAt, get?_loadConfig env user h, dictAt]

end

theorem dictAt_loadConfig_mcp : dictAt (loadConfig env user) mcpKey = dictAt user.content mcpKey := by
  rw [dictAt_loadConfig env user (by decide), dictAt_deepMerge_of_none get?_bundledDefaults_mcp]

theorem dictAt_loadConfig_agents : dictAt (loadConfig env user) agentsKey =
    overDict bundledAgents (get? user.content agentsKey) := by
  rw [dictAt_loadConfig env user (by decide), dictAt_deepMerge get?_bundledDefaults_agents]

/-- The block of an agent over the bundled one, below the user's `agents`. -/
def overBlock (agent : PermissionAgentTarget) (block : Record φ) :
    Option (Json φ) → Option (Record φ)
  | none => some block
  | some (.obj agents) => overDict block (get? agents agent.name)
  | some _ => none

variable {agent : PermissionAgentTarget} {block : Record φ}

theorem agentBlock_loadConfig (h : get? (bundledAgents : Record φ) agent.name = some (.obj block)) :
    agentBlock (loadConfig env user) agent =
      overBlock agent block (get? user.content agentsKey) := by
  rw [agentBlock, dictAt_loadConfig_agents]
  cases get? user.content agentsKey with
  | none => exact dictAt_of_get? h
  | some v =>
    cases v with
    | obj agents => exact dictAt_deepMerge h
    | _ => rfl

theorem skillsPermissions_loadConfig : skillsPermissionsFromConfig env
    (loadConfig env user) = skillsPermissionsFromConfig env user.content := by
  rw [skillsPermissionsFromConfig, dictAt_loadConfig env user (by decide),
    dictAt_dictAt_deepMerge get?_bundledDefaults_skills rfl, skillsPermissionsFromConfig]

theorem get?_dictAt_agentBlock_loadConfig {fields : Record φ} {key' : Text}
    (h : get? (bundledAgents : Record φ) agent.name = some (.obj block))
    (hkey : get? block key = some (.obj fields)) (hkey' : get? fields key' = none) :
    ((agentBlock (loadConfig env user) agent).bind (dictAt · key)).bind (get? · key') =
      ((agentBlock user.content agent).bind (dictAt · key)).bind (get? · key') := by
  have hblock : (dictAt block key).bind (get? · key') = none := by
    rw [dictAt_of_get? hkey]
    exact hkey'
  rw [agentBlock_loadConfig env user h, agentBlock, dictAt]
  cases get? user.content agentsKey with
  | none => exact hblock
  | some v =>
    cases v with
    | obj agents =>
      dsimp only [overBlock, bind_some]
      rw [dictAt]
      cases get? agents agent.name with
      | none => exact hblock
      | some w =>
        cases w with
        | obj fields => exact get?_dictAt_deepMerge hkey hkey'
        | _ => rfl
    | _ => rfl

theorem agentSkillsPermissions_loadConfig (hagent : agent ≠ .all) :
    agentSkillsPermissions env (loadConfig env user) agent =
      agentSkillsPermissions env user.content agent := by
  obtain ⟨injectVia, directories, hblock⟩ := get?_bundledAgents (φ := φ) hagent
  rw [agentSkillsPermissions, bind_dictAt,
    get?_dictAt_agentBlock_loadConfig env user hblock rfl rfl, ← bind_dictAt,
    agentSkillsPermissions]

theorem deny_over_emptyPermissions (permissions : Record φ) :
    (fromRaw env (some (deepMerge emptyPermissions permissions))).deny =
      (fromRaw env (some permissions)).deny := by
  dsimp only [fromRaw]
  rw [Json.get?_deepMerge]
  have hbase : get? (emptyPermissions : Record φ) denyKey = some (.arr []) := rfl
  rw [hbase]
  cases get? permissions denyKey <;> rfl

theorem dictAt_permissions_over {section' : Record φ}
    (h : get? block permissionsKey = some (.obj emptyPermissions)) :
    dictAt (deepMerge block section') permissionsKey =
      overDict emptyPermissions (get? section' permissionsKey) :=
  dictAt_deepMerge h

/-- What the merged configuration shows of a list. -/
def FileLayer.shown (layer : FileLayer) : List Text := bif layer.hidden then [] else layer.deny

theorem FileLayer.mem_shown {layer : FileLayer} {rule : Text} :
    rule ∈ layer.shown ↔ layer.hidden = false ∧ rule ∈ layer.deny := by
  obtain ⟨deny, hidden⟩ := layer
  cases hidden with
  | false => exact (and_iff_right rfl).symm
  | true =>
    constructor
    · intro h
      cases h
    · rintro ⟨h, -⟩
      cases h

theorem mcpDeny_loadConfig :
    (mcpPermissionsFromConfig env (loadConfig env user)).deny =
      FileLayer.shown ⟨(mcpPermissionsFromConfig env user.content).deny,
        toolsHideMcp user.content⟩ := by
  have htools : dictAt (loadConfig env user) toolsKey =
      overDict [permissionsItem []] (get? user.content toolsKey) := by
    rw [dictAt_loadConfig env user (by decide), dictAt_deepMerge get?_bundledDefaults_tools]
  unfold mcpPermissionsFromConfig globalMcpPermissionsRaw toolsHideMcp
  rw [htools, dictAt_loadConfig_mcp]
  have huser : dictAt user.content toolsKey = asDict (get? user.content toolsKey) := rfl
  rw [huser]
  cases get? user.content toolsKey with
  | none => rfl
  | some v =>
    cases v with
    | obj tools =>
      dsimp only [overDict, asDict, bind_some]
      rw [dictAt_permissions_over rfl]
      have hpermissions : dictAt tools permissionsKey = asDict (get? tools permissionsKey) :=
        rfl
      rw [hpermissions]
      cases get? tools permissionsKey with
      | none => rfl
      | some w =>
        cases w with
        | obj permissions => exact deny_over_emptyPermissions env permissions
        | _ => rfl
    | _ => rfl

theorem agentMcpDeny_loadConfig (hagent : agent ≠ .all) :
    (agentMcpPermissions env (loadConfig env user) agent).deny =
      FileLayer.shown ⟨(agentMcpPermissions env user.content agent).deny,
        agentToolsHideMcp user.content agent⟩ := by
  obtain ⟨injectVia, directories, hblock⟩ := get?_bundledAgents (φ := φ) hagent
  unfold agentMcpPermissions agentToolsPermissionsRaw agentToolsBlock agentToolsHideMcp
  rw [agentBlock_loadConfig env user hblock]
  have huser : agentBlock user.content agent =
      (asDict (get? user.content agentsKey)).bind (dictAt · agent.name) := rfl
  rw [huser]
  cases get? user.content agentsKey with
  | none => rfl
  | some v =>
    cases v with
    | obj agents =>
      dsimp only [overBlock, asDict, bind_some]
      have hagents : dictAt agents agent.name = asDict (get? agents agent.name) := rfl
      rw [hagents]
      cases get? agents agent.name with
      | none => rfl
      | some w =>
        cases w with
        | obj block =>
          dsimp only [overDict, asDict, bind_some, any_some]
          have htools : dictAt (deepMerge (bundledBlock injectVia directories) block) toolsKey =
              overDict [("inject_via", .str injectVia.toList), permissionsItem []]
                (get? block toolsKey) := dictAt_deepMerge rfl
          have hmcp : dictAt (deepMerge (bundledBlock injectVia directories) block) mcpKey =
              dictAt block mcpKey := dictAt_deepMerge_of_none rfl
          have hblockTools : dictAt block toolsKey = asDict (get? block toolsKey) := rfl
          rw [htools, hmcp, hblockTools]
          cases get? block toolsKey with
          | none => rfl
          | some u =>
            cases u with
            | obj tools =>
              dsimp only [overDict, asDict, some_or, bind_some]
              rw [dictAt_permissions_over rfl]
              have hpermissions : dictAt tools permissionsKey =
                  asDict (get? tools permissionsKey) := rfl
              rw [hpermissions]
              cases get? tools permissionsKey with
              | none => rfl
              | some t =>
                cases t with
                | obj permissions => exact deny_over_emptyPermissions env permissions
                | _ => rfl
            | _ => rfl
        | _ => rfl
    | _ => rfl

theorem blockHasPermissions_merged {skills : Record φ}
    (hskills : get? block skillsKey = some (.obj skills))
    (hnone : get? skills permissionsKey = none) (v : Json φ) :
    blockHasPermissions (Json.mergedValue (.obj block) v) = blockHasPermissions v := by
  cases v with
  | obj fields =>
    rw [Json.mergedValue_obj, blockHasPermissions, get?_dictAt_deepMerge hskills hnone,
      blockHasPermissions]
  | _ => rfl

theorem blockHasPermissions_bundled : ∀ kv ∈ (bundledAgents : Record φ),
    blockHasPermissions kv.2 = false ∧
      ∀ v, blockHasPermissions (Json.mergedValue kv.2 v) = blockHasPermissions v := by
  intro kv hkv
  simp only [bundledAgents, mem_cons, not_mem_nil, or_false] at hkv
  rcases hkv with rfl | rfl | rfl
  all_goals exact ⟨rfl, blockHasPermissions_merged rfl rfl⟩

theorem configHasPermissionsOverlay_loadConfig :
    configHasPermissionsOverlay (loadConfig env user) =
      configHasPermissionsOverlay user.content := by
  have hskills : (dictAt (loadConfig env user) skillsKey).bind (get? · permissionsKey) =
      (dictAt user.content skillsKey).bind (get? · permissionsKey) := by
    rw [dictAt_loadConfig env user (by decide)]
    exact get?_dictAt_deepMerge get?_bundledDefaults_skills rfl
  have hagents : ((dictAt (loadConfig env user) agentsKey).any fun agents =>
      agents.any fun kv => blockHasPermissions kv.2) =
      (dictAt user.content agentsKey).any fun agents =>
        agents.any fun kv => blockHasPermissions kv.2 := by
    have huser : dictAt user.content agentsKey = asDict (get? user.content agentsKey) := rfl
    rw [dictAt_loadConfig_agents, huser]
    cases hget : get? user.content agentsKey with
    | none => rfl
    | some v =>
      cases v with
      | obj agents =>
        have hvalid : (agents.map Prod.fst).Nodup := (user.valid.get? hget).1
        exact any_deepMerge hvalid blockHasPermissions_bundled
      | _ => rfl
  rw [configHasPermissionsOverlay, hskills, hagents, dictAt_loadConfig_mcp,
    configHasPermissionsOverlay]

end

section

variable (env : PermissionsEnv φ)

theorem normal_strippedOr {v : Json φ} (h : strippedOr env v ≠ []) : Normal (strippedOr env v) :=
  ⟨h, Text.strip_strip _⟩

variable {rule : Text}

theorem normal_of_normalizePermissionEntry {item : Json φ}
    (h : normalizePermissionEntry env item = some rule) : Normal rule := by
  unfold normalizePermissionEntry at h
  split at h
  · rename_i key value
    unfold mappedRule at h
    split at h
    · cases h
    rename_i hne
    split at h
    · cases h
      refine ⟨append_ne_nil_of_left_ne_nil (by decide) _, Text.stripped_iff.mp ?_⟩
      exact Text.stripped_append (by decide) (Text.stripped_of_ends ⟨rfl, rfl⟩).1 hne
        (Text.stripped_strip _).2
    · split at h
      · cases h
        exact normal_strippedOr env hne
      · cases h
  · cases h
  · split at h
    · cases h
    · rename_i hne
      cases h
      exact normal_strippedOr env hne

theorem normal_of_mem_deny {raw : Option (Record φ)}
    (h : rule ∈ (fromRaw env raw).deny) : Normal rule := by
  cases raw with
  | none => cases h
  | some raw =>
    dsimp only [fromRaw, stringList] at h
    split at h
    · obtain ⟨item, -, hitem⟩ := mem_filterMap.mp h
      exact normal_of_normalizePermissionEntry env hitem
    · cases h

theorem mem_unionStringLists_of_normal {layers : List (List Text)}
    (h : ∀ layer ∈ layers, ∀ rule ∈ layer, Normal rule) :
    rule ∈ unionStringLists layers ↔ ∃ layer ∈ layers, rule ∈ layer := by
  rw [mem_unionStringLists]
  constructor
  · rintro ⟨-, layer, hlayer, item, hitem, rfl⟩
    rw [(h layer hlayer item hitem).2]
    exact ⟨layer, hlayer, hitem⟩
  · rintro ⟨layer, hlayer, hrule⟩
    exact ⟨(h layer hlayer rule hrule).1, layer, hlayer, rule, hrule, (h layer hlayer rule hrule).2⟩

/-- The MCP deny lists of a configuration that count for an agent. -/
def ownLayers (config : Record φ) : PermissionAgentTarget → List (List Text)
  | .all => [(mcpPermissionsFromConfig env config).deny]
  | agent => [(mcpPermissionsFromConfig env config).deny, (agentMcpPermissions env config agent).deny]

theorem map_deny_mcpLayers (config : Record φ) (files : WorkspaceFiles φ)
    (agent : PermissionAgentTarget) :
    (mcpLayers env config files agent).map PermissionLists.deny =
      ownLayers env config agent ++ workspaceLayers env files agent := by
  cases agent <;> rfl

theorem normal_of_mem_mcpLayers {config : Record φ} {files : WorkspaceFiles φ}
    {agent : PermissionAgentTarget} :
    ∀ layer ∈ (mcpLayers env config files agent).map PermissionLists.deny,
      ∀ rule ∈ layer, Normal rule := by
  have hraw : ∀ lists ∈ mcpLayers env config files agent, ∃ raw, lists = .fromRaw env raw := by
    intro lists hlists
    cases agent with
    | all =>
      simp only [mcpLayers, mem_cons, not_mem_nil, or_false] at hlists
      rcases hlists with rfl | rfl
      all_goals exact ⟨_, rfl⟩
    | _ =>
      simp only [mcpLayers, mem_cons, not_mem_nil, or_false] at hlists
      rcases hlists with rfl | rfl | rfl | rfl | rfl
      all_goals exact ⟨_, rfl⟩
  intro layer hlayer rule hrule
  obtain ⟨lists, hlists, rfl⟩ := List.mem_map.mp hlayer
  obtain ⟨raw, rfl⟩ := hraw lists hlists
  exact normal_of_mem_deny env hrule

theorem mem_mcp_deny {config : Record φ} {files : WorkspaceFiles φ} {agent : PermissionAgentTarget} :
    rule ∈ (effectivePermissions env config files agent).mcp.deny ↔
      (∃ layer ∈ ownLayers env config agent, rule ∈ layer) ∨
        ∃ layer ∈ workspaceLayers env files agent, rule ∈ layer := by
  have hdeny : (effectivePermissions env config files agent).mcp.deny =
      unionStringLists ((mcpLayers env config files agent).map PermissionLists.deny) := rfl
  rw [hdeny, mem_unionStringLists_of_normal (normal_of_mem_mcpLayers env), map_deny_mcpLayers]
  constructor
  · rintro ⟨layer, hlayer, hrule⟩
    rcases mem_append.mp hlayer with hlayer | hlayer
    · exact .inl ⟨layer, hlayer, hrule⟩
    · exact .inr ⟨layer, hlayer, hrule⟩
  · rintro (⟨layer, hlayer, hrule⟩ | ⟨layer, hlayer, hrule⟩)
    · exact ⟨layer, mem_append_left _ hlayer, hrule⟩
    · exact ⟨layer, mem_append_right _ hlayer, hrule⟩

end

section

variable (env : RuntimeEnv φ) (user : ConfigFile φ) (files : WorkspaceFiles φ)
  (agent : PermissionAgentTarget)

theorem ownLayers_content : ownLayers env user.content agent =
    (fileLayers env user.content agent).map FileLayer.deny := by
  cases agent <;> rfl

theorem ownLayers_loadConfig : ownLayers env (loadConfig env user) agent =
    (fileLayers env user.content agent).map FileLayer.shown := by
  have hagent : ∀ agent, agent ≠ .all →
      [(mcpPermissionsFromConfig env (loadConfig env user)).deny,
        (agentMcpPermissions env (loadConfig env user) agent).deny] =
      [FileLayer.shown ⟨(mcpPermissionsFromConfig env user.content).deny,
          toolsHideMcp user.content⟩,
        FileLayer.shown ⟨(agentMcpPermissions env user.content agent).deny,
          agentToolsHideMcp user.content agent⟩] := by
    intro agent h
    rw [mcpDeny_loadConfig, agentMcpDeny_loadConfig env user h]
  cases agent with
  | all => exact congrArg (fun deny => [deny]) (mcpDeny_loadConfig env user)
  | cursor => exact hagent .cursor (by decide)
  | claude => exact hagent .claude (by decide)
  | codex => exact hagent .codex (by decide)

theorem skillsLayers_loadConfig :
    skillsLayers env (loadConfig env user) files agent =
      skillsLayers env user.content files agent := by
  cases agent with
  | all => rw [skillsLayers, skillsPermissions_loadConfig, skillsLayers]
  | _ =>
    rw [skillsLayers, skillsPermissions_loadConfig,
      agentSkillsPermissions_loadConfig env user (by decide), skillsLayers]
    all_goals exact fun h => nomatch h

theorem shown_iff_hiddenElsewhere :
    (∀ rule, rule ∈ (effectivePermissions env.toPermissionsEnv (loadConfig env user) files
        agent).mcp.deny ↔
      rule ∈ (effectivePermissions env user.content files agent).mcp.deny) ↔
      HiddenElsewhere env user.content files agent := by
  have hshown : ∀ rule, (∃ list ∈ ownLayers env (loadConfig env user) agent,
      rule ∈ list) ↔ ∃ layer ∈ fileLayers env user.content agent,
        layer.hidden = false ∧ rule ∈ layer.deny := by
    intro rule
    rw [ownLayers_loadConfig]
    simp only [List.mem_map, exists_exists_and_eq_and]
    exact exists_congr fun layer => and_congr_right fun _ => FileLayer.mem_shown
  have hall : ∀ rule, (∃ list ∈ ownLayers env user.content agent, rule ∈ list) ↔
      ∃ layer ∈ fileLayers env user.content agent, rule ∈ layer.deny := by
    intro rule
    rw [ownLayers_content]
    simp only [List.mem_map, exists_exists_and_eq_and]
  constructor
  · intro h layer hlayer _ rule hrule
    have hmem := (h rule).mpr (mem_mcp_deny env.toPermissionsEnv |>.mpr
      (.inl ((hall rule).mpr ⟨layer, hlayer, hrule⟩)))
    rcases (mem_mcp_deny env.toPermissionsEnv).mp hmem with hown | hworkspace
    · exact .inl ((hshown rule).mp hown)
    · exact .inr hworkspace
  · intro h rule
    rw [mem_mcp_deny, mem_mcp_deny, hshown, hall]
    constructor
    · rintro (⟨layer, hlayer, -, hrule⟩ | hworkspace)
      · exact .inl ⟨layer, hlayer, hrule⟩
      · exact .inr hworkspace
    · rintro (⟨layer, hlayer, hrule⟩ | hworkspace)
      · cases hhidden : layer.hidden with
        | false => exact .inl ⟨layer, hlayer, hhidden, hrule⟩
        | true => exact h layer hlayer hhidden rule hrule
      · exact .inr hworkspace

/-- The merged configuration and the user's file give the same permissions exactly when the file is
what both routes read, or every rule that the defaults hide stands elsewhere, too. -/
theorem resolveEffectivePermissions_sameDenials_iff :
    SameDenials (resolveEffectivePermissions env user files agent (some (loadConfig env user)))
        (effectivePermissions env user.content files agent) ↔
      (configHasPermissionsOverlay user.content = true →
        HiddenElsewhere env user.content files agent) := by
  dsimp only [resolveEffectivePermissions]
  rw [configHasPermissionsOverlay_loadConfig]
  cases configHasPermissionsOverlay user.content with
  | false => exact ⟨fun _ h => (by cases h), fun _ => ⟨fun _ => Iff.rfl, fun _ => Iff.rfl⟩⟩
  | true =>
    have hskills : (effectivePermissions env (loadConfig env user) files
        agent).skills = (effectivePermissions env user.content files agent).skills :=
      congrArg unionLists (skillsLayers_loadConfig env user files agent)
    rw [if_pos rfl, ← shown_iff_hiddenElsewhere]
    constructor
    · intro h _
      exact h.mcp
    · intro h
      refine ⟨h rfl, fun rule => ?_⟩
      rw [hskills]

end

def plainEnv : RuntimeEnv Empty where
  toPyFormat := Json.noFloats
  lower := id
  int := fun digits => if digits = "008" then some 8 else some 2
  policies := fun _ => none

/-- A file of the newest revision with an older section that denies one server. -/
def olderSection : ConfigFile Empty where
  content := [
    ("cyt", .obj [("schema_version", .str "008_cache_layout_consolidation")]),
    (mcpKey, .obj [(permissionsKey, .obj [(denyKey, .arr [.str "github"])])])]
  valid := by
    simp only [Json.Valid, Json.ValidFields, Json.ValidItems, and_true]
    decide

def noWorkspaceFiles : WorkspaceFiles Empty := ⟨none, fun _ => []⟩

/-- The user's file denies the server, the merged configuration does not. -/
theorem olderSection_not_denied :
    ¬ SameDenials (resolveEffectivePermissions plainEnv olderSection noWorkspaceFiles .cursor
        (some (loadConfig plainEnv olderSection)))
      (effectivePermissions plainEnv olderSection.content noWorkspaceFiles
        .cursor) := by
  intro h
  have hfile : "github".toList ∈ (effectivePermissions plainEnv
      olderSection.content noWorkspaceFiles .cursor).mcp.deny := by decide +kernel
  have hmerged : "github".toList ∉ (resolveEffectivePermissions plainEnv olderSection
      noWorkspaceFiles .cursor (some (loadConfig plainEnv olderSection))).mcp.deny := by
    decide +kernel
  exact hmerged ((h.mcp _).mpr hfile)

end ClearYourTools.Permissions
