import ClearYourTools.CytMcp.Proofs.WireNames
import ClearYourTools.Misc.Runs

/-!
# The deny list after a reload

A reload filters what the cache shows already, and it keeps a cache that it would empty.
-/

namespace ClearYourTools.CytMcp

open Misc CytClient List
open Permissions (isCatalogToolDenied isCatalogToolDenied_strip isMcpToolDenied isMcpServerDenied
  parseMcpDenyRules)
open Injection.SessionLog (nameKey toolNameKey serverKeyKey isMetaTool)

variable {φ : Type} {env : CatalogEnv φ} {backendTools : List (BackendTool φ)}
variable {config config' : AggregatorConfig} {cache : RuntimeToolCache φ}

/-- The backend tools that the server keys and the deny list allow. -/
def allowedTools (backendTools : List (BackendTool φ)) (config : AggregatorConfig) :
    List (BackendTool φ) :=
  backendTools.filter fun tool => nameAllowed config tool.name

/-- The entry of a backend tool in the catalog. -/
def backendEntry (env : CatalogEnv φ) (serverKeys : List Text) (tool : BackendTool φ) : Record φ :=
  enrichToolIdentity env (mcpToolToCatalogDict tool) (longestFirst serverKeys)

/-- Catalog and search index hold exactly the allowed tools. -/
structure HoldsAllowed (env : CatalogEnv φ) (backendTools : List (BackendTool φ))
    (config : AggregatorConfig) (cache : RuntimeToolCache φ) : Prop where
  tools : cache.tools = (allowedTools backendTools config).map (backendEntry env config.serverKeys)
  searchIndex : ∀ name, cache.searchIndex.contains name = true ↔
    name ∈ (allowedTools backendTools config).map BackendTool.name

theorem isMcpToolDenied_nil (server tool : Text) : isMcpToolDenied server tool [] = false := by
  simp [isMcpToolDenied, isMcpServerDenied, parseMcpDenyRules]

theorem isCatalogToolDenied_nil (name : Text) : isCatalogToolDenied name [] = false := by
  unfold isCatalogToolDenied
  dsimp only
  split
  · rfl
  split
  · rfl
  rw [isMcpToolDenied_nil, if_neg (by simp)]
  split
  · split
    · rfl
    · exact isMcpToolDenied_nil _ _
  · rfl

theorem nameAllowed_iff {name : Text} : nameAllowed config name = true ↔
    isMetaTool name = false ∧
      (config.serverKeys = [] ∨ toolNameAllowedForServers name config.serverKeys = true) ∧
      isCatalogToolDenied name config.mcpDeny = false := by
  unfold nameAllowed
  cases hdeny : config.mcpDeny with
  | nil => simp [isCatalogToolDenied_nil]
  | cons entry entries => simp [and_assoc]

theorem get?_mcpToolToCatalogDict (tool : BackendTool φ) {key : Text}
    (h : key ∈ [serverKeyKey, mcpServerKey, toolNameKey]) :
    Json.get? (mcpToolToCatalogDict tool) key = none := by
  have hcases : key = serverKeyKey ∨ key = mcpServerKey ∨ key = toolNameKey := by
    simpa only [mem_cons, not_mem_nil, or_false] using h
  unfold mcpToolToCatalogDict nonemptyField
  rcases hcases with rfl | rfl | rfl
  · split <;> split <;> rfl
  · split <;> split <;> rfl
  · split <;> split <;> rfl

theorem fieldOr_mcpToolToCatalogDict (tool : BackendTool φ) :
    fieldOr env (mcpToolToCatalogDict tool) nameKey = tool.name :=
  fieldOr_str rfl

variable (serverKeys : List Text)

theorem fieldOr_backendEntry (tool : BackendTool φ) :
    fieldOr env (backendEntry env serverKeys tool) nameKey = tool.name ∨
      fieldOr env (backendEntry env serverKeys tool) nameKey = tool.name.strip := by
  have hserver : Text.strip (Json.strOr env (mcpToolToCatalogDict tool) serverKeyKey
      (fieldOr env (mcpToolToCatalogDict tool) mcpServerKey)) = [] := by
    have hserverKey : fieldOr env (mcpToolToCatalogDict tool) serverKeyKey = [] :=
      fieldOr_none (get?_mcpToolToCatalogDict tool (by simp))
    rw [fieldOr_none (get?_mcpToolToCatalogDict tool (by simp)), ← fieldOr, hserverKey]
    rfl
  unfold backendEntry enrichToolIdentity
  dsimp only
  rw [if_neg (fun h => h.1 hserver)]
  split
  · exact .inl (fieldOr_mcpToolToCatalogDict tool)
  rename_i identity hsplit
  split
  · exact .inl (fieldOr_mcpToolToCatalogDict tool)
  · right
    rw [fieldOr_mcpToolToCatalogDict] at hsplit
    rw [fieldOr_str (t := identity.wireName), wireName_of_splitWireName hsplit, Text.strip_strip]
    rw [Json.get?_set_of_ne (by decide), Json.get?_set_of_ne (by decide), Json.get?_set_self]

theorem isCatalogToolDenied_backendEntry (tool : BackendTool φ) (entries : List Text) :
    isCatalogToolDenied (fieldOr env (backendEntry env serverKeys tool) nameKey) entries =
      isCatalogToolDenied tool.name entries := by
  rcases @fieldOr_backendEntry _ env serverKeys tool with hname | hname
  · rw [hname]
  · rw [hname, isCatalogToolDenied_strip]

theorem holdsAllowed_refreshCatalogCache (hempty : cache.tools.length = 0) (force : Bool) :
    HoldsAllowed env backendTools config
      (refreshCatalogCache env backendTools cache config force) := by
  unfold refreshCatalogCache
  dsimp only
  rw [if_neg (by omega), if_neg (by omega)]
  constructor
  · simp only [buildCatalogFromTools, List.map_map]
    rfl
  · intro name
    simp only [buildCatalogFromTools, Dict.contains_writeAll_empty, List.map_map]
    rfl

theorem holdsAllowed_start (config : AggregatorConfig) :
    HoldsAllowed env backendTools config (PushContext.start env backendTools config).cache :=
  @holdsAllowed_refreshCatalogCache _ env backendTools config ⟨[], .empty⟩ rfl false

/-- No denial of a backend tool is lifted, some tool stays allowed, and where one does not, those
that stay are shown under their own names. -/
structure Refilters (env : CatalogEnv φ) (backendTools : List (BackendTool φ))
    (config config' : AggregatorConfig) : Prop where
  none_lifted : ∀ tool ∈ backendTools, nameAllowed config' tool.name = true →
    nameAllowed config tool.name = true
  some_left : ∃ tool ∈ backendTools, nameAllowed config' tool.name = true
  named : allowedTools backendTools config' ≠ allowedTools backendTools config →
    ∀ tool ∈ backendTools, nameAllowed config' tool.name = true →
      fieldOr env (backendEntry env config.serverKeys tool) nameKey = tool.name

theorem refilters_self (h : ∃ tool ∈ backendTools, nameAllowed config tool.name = true) :
    Refilters env backendTools config config :=
  ⟨fun _ _ hallowed => hallowed, h, fun hne => absurd rfl hne⟩

theorem mem_allowedTools {tool : BackendTool φ} : tool ∈ allowedTools backendTools config ↔
    tool ∈ backendTools ∧ nameAllowed config tool.name = true :=
  mem_filter

theorem filter_allowedTools (hkeys : config'.serverKeys = config.serverKeys) :
    (allowedTools backendTools config).filter (fun tool =>
        !isCatalogToolDenied tool.name config'.mcpDeny) =
      (allowedTools backendTools config').filter fun tool => nameAllowed config tool.name := by
  unfold allowedTools
  rw [filter_filter, filter_filter]
  apply filter_congr
  intro tool _
  rw [Bool.eq_iff_iff, Bool.and_eq_true, Bool.and_eq_true, Bool.not_eq_true', nameAllowed_iff,
    nameAllowed_iff, hkeys]
  tauto

section

variable (h : HoldsAllowed env backendTools config cache)
include h

variable (hkeys : config'.serverKeys = config.serverKeys)
include hkeys

theorem HoldsAllowed.filter_tools :
    cache.tools.filter (fun entry =>
        !isCatalogToolDenied (fieldOr env entry nameKey) config'.mcpDeny) =
      ((allowedTools backendTools config').filter fun tool => nameAllowed config tool.name).map
        (backendEntry env config.serverKeys) := by
  rw [h.tools, filter_map, ← filter_allowedTools hkeys]
  congr 1
  apply filter_congr
  intro tool _
  rw [Function.comp_apply, isCatalogToolDenied_backendEntry]

theorem HoldsAllowed.reapply_eq_self (hkept : allowedTools backendTools config' = [] ∨
      ∀ tool ∈ backendTools, nameAllowed config tool.name = true →
        nameAllowed config' tool.name = true) :
    reapplyDenyOverlays env cache config' = cache := by
  unfold reapplyDenyOverlays
  dsimp only
  rw [h.filter_tools hkeys]
  rcases hkept with hnone | hall
  · rw [hnone, filter_nil, map_nil]
    split
    · rfl
    · rfl
  · rw [if_pos]
    rw [h.tools, length_map, length_map]
    unfold allowedTools
    rw [filter_filter]
    congr 1
    apply filter_congr
    intro tool htool
    rw [Bool.eq_iff_iff, Bool.and_eq_true]
    exact ⟨And.left, fun hallowed => ⟨hallowed, hall tool htool hallowed⟩⟩

/-- A cache that follows the old list follows the new one when it is filtered. -/
theorem HoldsAllowed.reapply (hrefilters : Refilters env backendTools config config') :
    HoldsAllowed env backendTools config' (reapplyDenyOverlays env cache config') := by
  have hall : (allowedTools backendTools config').filter
      (fun tool => nameAllowed config tool.name) = allowedTools backendTools config' := by
    rw [filter_eq_self]
    intro tool htool
    obtain ⟨hmem, hallowed⟩ := mem_allowedTools.mp htool
    exact hrefilters.none_lifted tool hmem hallowed
  have hfiltered := h.filter_tools hkeys
  rw [hall] at hfiltered
  have hsublist : (allowedTools backendTools config').Sublist
      (allowedTools backendTools config) := by
    rw [← hall, ← filter_allowedTools hkeys]
    exact filter_sublist
  unfold reapplyDenyOverlays
  dsimp only
  rw [hfiltered]
  split
  · -- Nothing is denied, so the two lists allow the same.
    rename_i hlength
    rw [h.tools, length_map, length_map] at hlength
    have hsame := hsublist.eq_of_length hlength
    constructor
    · rw [hsame, hkeys]
      exact h.tools
    · rw [hsame]
      exact h.searchIndex
  · rename_i hlength
    have hdropped : allowedTools backendTools config' ≠ allowedTools backendTools config := by
      intro hsame
      rw [h.tools, hsame] at hlength
      exact hlength rfl
    rw [if_neg]
    · constructor
      · rw [hkeys]
      · intro name
        have hnames : ((allowedTools backendTools config').map
              (backendEntry env config.serverKeys)).map (fun entry => fieldOr env entry nameKey) =
            (allowedTools backendTools config').map BackendTool.name := by
          rw [List.map_map]
          apply map_congr_left
          intro tool htool
          obtain ⟨hmem, hallowed⟩ := mem_allowedTools.mp htool
          exact hrefilters.named hdropped tool hmem hallowed
        rw [hnames, Dict.contains_filter_key, h.searchIndex, contains_iff_mem]
        exact ⟨And.right, fun hname => ⟨(hsublist.map _).subset hname, hname⟩⟩
    · obtain ⟨tool, htool, hallowed⟩ := hrefilters.some_left
      have hmem := mem_allowedTools.mpr ⟨htool, hallowed⟩
      simpa using ne_nil_of_mem hmem

end

/-- The tools that `hydrate_runtime_cache` takes from what a reload finds. -/
def Reload.tools (reload : Reload φ) : List (Record φ) :=
  if reload.registryTools.length ≤ reload.diskTools.length then reload.diskTools
  else reload.registryTools

/-- Those of them that may be shown. -/
def shownTools (env : CatalogEnv φ) (config : AggregatorConfig) (tools : List (Record φ)) :
    List (Record φ) :=
  tools.filter fun raw =>
    let name := Text.strip (fieldOr env raw nameKey)
    name != [] && nameAllowed config name

/-- What the disk or the registry would show is nothing, or the allowed backend tools. -/
def HydratesBackend (env : CatalogEnv φ) (backendTools : List (BackendTool φ))
    (config : AggregatorConfig) (tools : List (Record φ)) : Prop :=
  let shown := shownTools env config tools
  shown = [] ∨
    shown.map (catalogEntryFromDict env config) =
        (allowedTools backendTools config).map (backendEntry env config.serverKeys) ∧
      ∀ name, name ∈ shown.map (fun raw => Text.strip (fieldOr env raw nameKey)) ↔
        name ∈ (allowedTools backendTools config).map BackendTool.name

/-- The reload of an empty cache finds nothing or the backend tools, and the reload of another one
can be made by filtering it. -/
def ReloadKeeps (env : CatalogEnv φ) (backendTools : List (BackendTool φ))
    (context : PushContext φ) (reload : Reload φ) : Prop :=
  let config := { context.config with mcpDeny := reload.mcpDeny }
  if context.cache.tools = [] then HydratesBackend env backendTools config reload.tools
  else Refilters env backendTools context.config config

variable (tools : List (Record φ))

theorem catalogEntriesFromDicts_fst :
    (catalogEntriesFromDicts env tools config).1 =
      (shownTools env config tools).map (catalogEntryFromDict env config) := by
  unfold catalogEntriesFromDicts shownTools
  dsimp only
  rw [filter_map, List.map_map]
  rfl

theorem contains_catalogEntriesFromDicts (name : Text) :
    (catalogEntriesFromDicts env tools config).2.contains name = true ↔
      name ∈ (shownTools env config tools).map fun raw => Text.strip (fieldOr env raw nameKey) := by
  unfold catalogEntriesFromDicts shownTools
  dsimp only
  rw [Dict.contains_writeAll_empty, filter_map, List.map_map, List.map_map]
  rfl

theorem hydrateRuntimeCache_cases (cache : RuntimeToolCache φ) {reload : Reload φ}
    (h : HydratesBackend env backendTools config reload.tools) :
    hydrateRuntimeCache env cache config reload.diskTools reload.registryTools = cache ∨
      HoldsAllowed env backendTools config
        (hydrateRuntimeCache env cache config reload.diskTools reload.registryTools) := by
  unfold hydrateRuntimeCache
  dsimp only
  rw [← Reload.tools, catalogEntriesFromDicts_fst]
  rcases h with hnone | ⟨htools, hnames⟩
  · left
    rw [hnone]
    rfl
  split
  · exact .inl rfl
  · right
    constructor
    · exact htools
    · intro name
      rw [contains_catalogEntriesFromDicts, hnames]

variable {context : PushContext φ}

/-- A cache that follows the deny list before the reload follows the list that the reload finds. -/
theorem holdsAllowed_refreshedCache {reload : Reload φ}
    (h : HoldsAllowed env backendTools context.config context.cache)
    (hkeeps : ReloadKeeps env backendTools context reload) :
    HoldsAllowed env backendTools { context.config with mcpDeny := reload.mcpDeny }
      (refreshedCache env backendTools context.cache
        { context.config with mcpDeny := reload.mcpDeny } context.config.mcpDeny reload) := by
  unfold ReloadKeeps at hkeeps
  unfold refreshedCache
  dsimp only at hkeeps ⊢
  split at hkeeps
  · rename_i hempty
    rw [if_pos (length_eq_zero_iff.mpr hempty)]
    rcases hydrateRuntimeCache_cases context.cache hkeeps with hsame | hholds
    · rw [hsame, if_pos (length_eq_zero_iff.mpr hempty)]
      exact holdsAllowed_refreshCatalogCache (length_eq_zero_iff.mpr hempty) false
    split
    · rename_i hnone
      exact holdsAllowed_refreshCatalogCache hnone false
    rename_i hsome
    split
    · apply hholds.reapply rfl
      apply refilters_self
      rw [hholds.tools, length_map, length_eq_zero_iff] at hsome
      obtain ⟨tool, htool⟩ := exists_mem_of_ne_nil _ hsome
      exact ⟨tool, mem_allowedTools.mp htool⟩
    · exact hholds
  · rename_i hne
    have hlength : ¬ context.cache.tools.length = 0 := fun hzero =>
      hne (length_eq_zero_iff.mp hzero)
    rw [if_neg hlength, if_neg hlength]
    split
    · exact h.reapply rfl hkeeps
    · rename_i hsame
      rw [← not_not.mp hsame]
      exact h

theorem refreshedCache_eq_self {reload : Reload φ}
    (h : HoldsAllowed env backendTools context.config context.cache)
    (hne : allowedTools backendTools context.config ≠ [])
    (hkept : allowedTools backendTools { context.config with mcpDeny := reload.mcpDeny } = [] ∨
      ∀ tool ∈ backendTools, nameAllowed context.config tool.name = true →
        nameAllowed { context.config with mcpDeny := reload.mcpDeny } tool.name = true) :
    refreshedCache env backendTools context.cache
      { context.config with mcpDeny := reload.mcpDeny } context.config.mcpDeny reload =
        context.cache := by
  have hlength : ¬ context.cache.tools.length = 0 := by
    rw [h.tools, length_map, length_eq_zero_iff]
    exact hne
  unfold refreshedCache
  dsimp only
  rw [if_neg hlength, if_neg hlength]
  split
  · exact h.reapply_eq_self rfl hkept
  · rfl

/-- In a run whose reloads lift no denial and leave some tool, the cache follows the deny list. -/
theorem holdsAllowed_of_reloadKeeps {reloads : List (Reload φ)} {context : PushContext φ}
    (run : Run (PushContext.step env backendTools) (ReloadKeeps env backendTools)
      (.start env backendTools config) reloads context) :
    HoldsAllowed env backendTools context.config context.cache := by
  apply run.invariant (P := fun context =>
    HoldsAllowed env backendTools context.config context.cache)
  · exact holdsAllowed_start config
  · intro context reload context' hholds hkeeps hnext
    cases hnext
    exact holdsAllowed_refreshedCache hholds hkeeps

def namedTool (name : String) : BackendTool Empty := ⟨name.toList, [], [], [], []⟩

/-- Two tools of one server. -/
def docsTools : List (BackendTool Empty) := [namedTool "docs_read", namedTool "docs_write"]

def docsConfig (mcpDeny : List String) : AggregatorConfig :=
  ⟨["docs".toList], mcpDeny.map String.toList⟩

def reloadDeny (mcpDeny : List String) : Reload Empty := ⟨mcpDeny.map String.toList, [], []⟩

theorem docsTools_named (config : AggregatorConfig) : ∀ tool ∈ docsTools,
    fieldOr plainCatalogEnv (backendEntry plainCatalogEnv config.serverKeys tool) nameKey =
      tool.name := by
  intro tool htool
  have hstrip : tool.name.strip = tool.name := by
    rcases mem_cons.mp htool with rfl | htool
    · decide +kernel
    · cases mem_singleton.mp htool
      decide +kernel
  rcases @fieldOr_backendEntry _ plainCatalogEnv config.serverKeys tool with hname | hname
  · exact hname
  · rw [hname, hstrip]

/-- A denied tool is gone after the reload. -/
theorem docsTools_denied : ∃ context,
    Run (PushContext.step plainCatalogEnv docsTools) (ReloadKeeps plainCatalogEnv docsTools)
      (.start plainCatalogEnv docsTools (docsConfig [])) [reloadDeny ["docs/write"]] context ∧
    HoldsAllowed plainCatalogEnv docsTools context.config context.cache := by
  have hkeeps : ReloadKeeps plainCatalogEnv docsTools
      (.start plainCatalogEnv docsTools (docsConfig [])) (reloadDeny ["docs/write"]) := by
    unfold ReloadKeeps
    dsimp only
    rw [if_neg]
    · refine ⟨?_, ?_, fun _ tool htool _ => docsTools_named _ tool htool⟩
      · decide +kernel
      · decide +kernel
    · rw [(holdsAllowed_start _).tools, map_eq_nil_iff]
      exact ne_nil_of_length_pos (by decide +kernel)
  have hrun : Run (PushContext.step plainCatalogEnv docsTools)
      (ReloadKeeps plainCatalogEnv docsTools) (.start plainCatalogEnv docsTools (docsConfig []))
      ([] ++ [reloadDeny ["docs/write"]]) _ := .snoc .nil hkeeps rfl
  exact ⟨_, hrun, holdsAllowed_of_reloadKeeps hrun⟩

theorem HoldsAllowed.not_of_length (h : HoldsAllowed env backendTools config cache)
    (hlength : (allowedTools backendTools config').length ≠
      (allowedTools backendTools config).length) :
    ¬ HoldsAllowed env backendTools config' cache := by
  intro h'
  have htools := congrArg List.length (h'.tools.symm.trans h.tools)
  rw [length_map, length_map] at htools
  exact hlength htools

/-- A tool whose denial is lifted stays away, and tools that are all denied stay. -/
theorem docsTools_kept :
    (∃ context, Run (PushContext.step plainCatalogEnv docsTools) (fun _ _ => True)
        (.start plainCatalogEnv docsTools (docsConfig ["docs/write"])) [reloadDeny []] context ∧
      ¬ HoldsAllowed plainCatalogEnv docsTools context.config context.cache) ∧
    ∃ context, Run (PushContext.step plainCatalogEnv docsTools) (fun _ _ => True)
        (.start plainCatalogEnv docsTools (docsConfig [])) [reloadDeny ["docs"]] context ∧
      ¬ HoldsAllowed plainCatalogEnv docsTools context.config context.cache := by
  constructor
  · refine ⟨_, .snoc .nil trivial rfl, ?_⟩
    have hself := @refreshedCache_eq_self _ plainCatalogEnv docsTools
      (.start plainCatalogEnv docsTools (docsConfig ["docs/write"])) (reloadDeny [])
      (holdsAllowed_start _)
      (ne_nil_of_length_pos (by decide +kernel)) (.inr (by decide +kernel))
    dsimp only [refreshPermissionsCatalog]
    rw [hself]
    exact (holdsAllowed_start _).not_of_length (by decide +kernel)
  · refine ⟨_, .snoc .nil trivial rfl, ?_⟩
    have hself := @refreshedCache_eq_self _ plainCatalogEnv docsTools
      (.start plainCatalogEnv docsTools (docsConfig [])) (reloadDeny ["docs"])
      (holdsAllowed_start _)
      (ne_nil_of_length_pos (by decide +kernel))
      (.inl (eq_nil_of_length_eq_zero (by decide +kernel)))
    dsimp only [refreshPermissionsCatalog]
    rw [hself]
    exact (holdsAllowed_start _).not_of_length (by decide +kernel)

end ClearYourTools.CytMcp
