import ClearYourTools.CytMcp.Proofs.DenyReload
import ClearYourTools.CytMcp.SessionWorkspace
import ClearYourTools.Misc.Mapped

/-!
# The scope of a session

The process tells the tools of a session from the others by the start of the wire name, and answers
from a cache where it can.
-/

namespace ClearYourTools.CytMcp

open Misc CytClient List
open Permissions (isCatalogToolDenied isCatalogToolDenied_strip)
open Injection.SessionLog (nameKey toolNameKey descriptionKey inputSchemaKey serverKeyKey isMetaTool)
open MountedTool (wireTool wireName)

variable {φ : Type} {env : CatalogEnv φ} {fastMcp : FastMcp φ}
variable {process : Process φ} {runtime : SessionRuntime φ}

/-- The server of the tool is one of the configuration of the session. -/
def owns (runtime : SessionRuntime φ) (mounted : MountedTool φ) : Bool :=
  (runtime.config.serverKeys.map Text.strip).contains mounted.serverKey

/-- The current deny list denies the tool. -/
def denies (runtime : SessionRuntime φ) (mounted : MountedTool φ) : Bool :=
  isCatalogToolDenied mounted.wireName runtime.config.mcpDeny

def ownTools (process : Process φ) (runtime : SessionRuntime φ) : List (MountedTool φ) :=
  process.mounted.filter fun mounted => owns runtime mounted && !denies runtime mounted

/-- The stub of a tool of the session. -/
def ownStub (env : CatalogEnv φ) (fastMcp : FastMcp φ) (runtime : SessionRuntime φ)
    (mounted : MountedTool φ) : BackendTool φ :=
  withoutOutputSchema (stubFromTool env fastMcp runtime.stubRetain mounted.wireTool)

/-- The search tool, as the session has it, and the stubs of its tools. -/
def expectedStubs (env : CatalogEnv φ) (fastMcp : FastMcp φ) (process : Process φ)
    (runtime : SessionRuntime φ) : List (BackendTool φ) :=
  withoutOutputSchema (runtime.searchTool.getD process.searchTool) ::
    (ownTools process runtime).map (ownStub env fastMcp runtime)

variable (mounted : MountedTool φ)

theorem wireTool_name : mounted.wireTool.name = mounted.wireName := rfl

theorem separator_mem_wireName : '_' ∈ mounted.wireName := by
  simp [wireName, wireNameFor]

theorem separator_mem_strip {name : Text} (h : '_' ∈ name) : '_' ∈ name.strip := by
  obtain ⟨x, y, rfl⟩ := append_of_mem h
  rw [Text.strip_append_cons x (by decide) y]
  simp

theorem ne_search_of_mem {name : Text} (h : '_' ∈ name) : name ≠ mcpWireSearchToolName := by
  rintro rfl
  exact absurd h (by decide)

theorem strip_wireName_ne_nil : Text.strip mounted.wireName ≠ [] :=
  ne_nil_of_mem (separator_mem_strip (separator_mem_wireName mounted))

theorem toolNameAllowedForServers_strip (name : Text) (serverKeys : List Text) :
    toolNameAllowedForServers name.strip serverKeys = toolNameAllowedForServers name serverKeys := by
  simp only [toolNameAllowedForServers, Text.strip_strip]

variable {tool : BackendTool φ}

theorem getD_searchTool_name (h : tool.name = mcpWireSearchToolName) :
    (runtime.searchTool.getD tool).name = mcpWireSearchToolName := by
  cases hsearch : runtime.searchTool with
  | none => exact h
  | some search => exact runtime.searchTool_name search hsearch

theorem stubOf_name (retain : RetainSpec) (tool : BackendTool φ) :
    (stubOf env fastMcp retain runtime.searchTool tool).name = tool.name := by
  unfold stubOf
  split
  · rename_i hname
    exact (getD_searchTool_name hname).trans hname.symm
  · exact fastMcp.fromTool_name _ _

variable {retain : RetainSpec}
variable {refreshed : Option (BackendTool φ)}

theorem stubOf_of_ne (h : tool.name ≠ mcpWireSearchToolName) :
    stubOf env fastMcp retain refreshed tool =
      withoutOutputSchema (stubFromTool env fastMcp retain tool) := if_neg h

theorem stubOf_search (h : tool.name = mcpWireSearchToolName) :
    stubOf env fastMcp retain refreshed tool = withoutOutputSchema (refreshed.getD tool) := if_pos h

theorem shownStub_name (retain : RetainSpec) (tool : BackendTool φ) :
    (withoutOutputSchema (stubFromTool env fastMcp retain tool)).name = tool.name :=
  fastMcp.fromTool_name _ _

theorem ownStub_name :
    (ownStub env fastMcp runtime mounted).name = mounted.wireName := fastMcp.fromTool_name _ _

theorem stub_eq_iff {retain retain' : RetainSpec} {tool tool' : BackendTool φ} :
    withoutOutputSchema (stubFromTool env fastMcp retain tool) =
        withoutOutputSchema (stubFromTool env fastMcp retain' tool') ↔
      tool.name = tool'.name ∧
        stubParameters env retain tool = stubParameters env retain' tool' ∧
        stubDescription retain tool = stubDescription retain' tool' ∧ tool.title = tool'.title ∧
        (withoutOutputSchema tool).rest = (withoutOutputSchema tool').rest := by
  simp only [withoutOutputSchema, stubFromTool, BackendTool.mk.injEq, fastMcp.fromTool_name,
    fastMcp.fromTool_title, fastMcp.fromTool_rest]

theorem stubAllowed_search (serverKeys denyEntries : List Text) (applyServerFilter : Bool) :
    stubAllowed serverKeys denyEntries applyServerFilter mcpWireSearchToolName = true := by
  have hallowed : toolNameAllowedForServers mcpWireSearchToolName serverKeys = true := by
    unfold toolNameAllowedForServers
    dsimp only
    rw [show Text.strip mcpWireSearchToolName = mcpWireSearchToolName from by decide]
    simp
  unfold stubAllowed
  rw [hallowed]
  simp

theorem stubAllowed_iff {serverKeys denyEntries : List Text} {name : Text} (hkeys : serverKeys ≠ [])
    (hname : name ≠ mcpWireSearchToolName) :
    stubAllowed serverKeys denyEntries true name = true ↔
      toolNameAllowedForServers name serverKeys = true ∧
        isCatalogToolDenied name denyEntries = false := by
  unfold stubAllowed
  have hempty : serverKeys.isEmpty = false := by
    cases serverKeys with
    | nil => exact absurd rfl hkeys
    | cons key keys => rfl
  cases hdeny : denyEntries with
  | nil => simp [hempty, isCatalogToolDenied_nil]
  | cons entry entries => simp [hempty, hname]

theorem listTools_of_search {tools : List (BackendTool φ)} {search : BackendTool φ}
    (hsearch : search ∈ tools) (hname : search.name = mcpWireSearchToolName) :
    listTools env fastMcp retain runtime tools =
      buildToolStubs env fastMcp retain tools runtime.searchTool runtime.config.serverKeys
        runtime.config.mcpDeny true := by
  have hne : buildToolStubs env fastMcp retain tools runtime.searchTool runtime.config.serverKeys
      runtime.config.mcpDeny true ≠ [] := by
    refine ne_nil_of_mem (mem_map_of_mem (mem_filter.mpr ⟨hsearch, ?_⟩))
    rw [hname]
    exact stubAllowed_search _ _ _
  unfold listTools
  dsimp only
  rw [if_neg]
  simp [hne]

theorem ne_search_of_mem_listTools {tools : List (BackendTool φ)}
    (htools : ∀ tool ∈ tools, tool.name ≠ mcpWireSearchToolName) {stub : BackendTool φ}
    (h : stub ∈ listTools env fastMcp retain runtime tools) : stub.name ≠ mcpWireSearchToolName := by
  have hbuilt : ∀ applyServerFilter, stub ∈ buildToolStubs env fastMcp retain tools
      runtime.searchTool runtime.config.serverKeys runtime.config.mcpDeny applyServerFilter →
      stub.name ≠ mcpWireSearchToolName := by
    intro applyServerFilter hstub
    obtain ⟨tool, htool, rfl⟩ := mem_map.mp hstub
    rw [stubOf_name]
    exact htools tool (mem_filter.mp htool).1
  unfold listTools at h
  dsimp only at h
  split at h
  · exact hbuilt false h
  · exact hbuilt true h

theorem listTools_perm_iff (spoil : Text → Text) {retain : RetainSpec} {tools : List (BackendTool φ)}
    {search : BackendTool φ} (hsearch : search.name = mcpWireSearchToolName)
    (hkeys : runtime.config.serverKeys ≠ []) {listed : MountedTool φ → Bool}
    {view : MountedTool φ → BackendTool φ}
    (htools : tools.Perm (search :: (process.mounted.filter listed).map view))
    (hview : ∀ mounted, (view mounted).name = spoil mounted.wireName)
    (hspoil : ∀ name, spoil (spoil name) = spoil name)
    (hlisted : ∀ a b : MountedTool φ, spoil a.wireName = spoil b.wireName → listed a = listed b)
    (hother : ∀ mounted : MountedTool φ, spoil mounted.wireName ≠ mcpWireSearchToolName) :
    (listTools env fastMcp retain runtime tools).Perm (expectedStubs env fastMcp process runtime) ↔
      withoutOutputSchema (runtime.searchTool.getD search) =
          withoutOutputSchema (runtime.searchTool.getD process.searchTool) ∧
        ∀ mounted ∈ process.mounted,
          ((listed mounted = true ∧
              toolNameAllowedForServers (spoil mounted.wireName) runtime.config.serverKeys = true ∧
              isCatalogToolDenied (spoil mounted.wireName) runtime.config.mcpDeny = false) ↔
            (owns runtime mounted && !denies runtime mounted) = true) ∧
          ((owns runtime mounted && !denies runtime mounted) = true →
            withoutOutputSchema (stubFromTool env fastMcp retain (view mounted)) =
              ownStub env fastMcp runtime mounted) := by
  have hmem : search ∈ tools := htools.symm.subset mem_cons_self
  rw [listTools_of_search hmem hsearch]
  have hbuilt : (buildToolStubs env fastMcp retain tools runtime.searchTool
      runtime.config.serverKeys runtime.config.mcpDeny true).Perm
      (withoutOutputSchema (runtime.searchTool.getD search) ::
        (process.mounted.filter fun mounted =>
          listed mounted && stubAllowed runtime.config.serverKeys runtime.config.mcpDeny true
            (view mounted).name).map
          fun mounted => withoutOutputSchema (stubFromTool env fastMcp retain (view mounted))) := by
    unfold buildToolStubs
    refine ((htools.filter _).map _).trans (List.Perm.of_eq ?_)
    rw [filter_cons_of_pos (by rw [hsearch]; exact stubAllowed_search _ _ _), map_cons,
      stubOf_search hsearch, filter_map, filter_filter, List.map_map]
    congr 1
    have hmap : ∀ selected : List (MountedTool φ),
        selected.map (stubOf env fastMcp retain runtime.searchTool ∘ view) =
          selected.map fun mounted =>
            withoutOutputSchema (stubFromTool env fastMcp retain (view mounted)) := by
      intro selected
      refine map_congr_left fun mounted _ => ?_
      exact stubOf_of_ne (by rw [hview]; exact hother mounted)
    rw [hmap]
    congr 1
    refine filter_congr fun mounted _ => ?_
    rw [Function.comp_apply, Bool.and_comm]
  have hcongr := hbuilt.congr_left (expectedStubs env fastMcp process runtime)
  rw [hcongr]
  unfold expectedStubs ownTools
  rw [cons_perm_cons_iff BackendTool.name ?_ ?_]
  · refine and_congr_right fun _ => ?_
    have hstub : ∀ mounted, (withoutOutputSchema
        (stubFromTool env fastMcp retain (view mounted))).name = spoil mounted.wireName :=
      fun mounted => (shownStub_name retain (view mounted)).trans (hview mounted)
    refine (map_filter_perm_iff process.distinct hspoil hstub ownStub_name ?_).trans ?_
    · intro a b hab
      rw [hlisted a b hab, hview, hview, hab]
    · refine forall₂_congr fun mounted _ => and_congr_left' (iff_congr ?_ Iff.rfl)
      rw [Bool.and_eq_true, hview, stubAllowed_iff hkeys (hother mounted)]
  · exact (getD_searchTool_name hsearch).trans (getD_searchTool_name process.searchTool_name).symm
  · intro stub hstub
    obtain ⟨mounted, -, rfl⟩ := mem_map.mp hstub
    rw [ownStub_name]
    exact fun h => ne_search_of_mem (separator_mem_wireName mounted)
      (h.trans (getD_searchTool_name process.searchTool_name))

/-- The tool that the list is built from when it comes out of a cache. -/
def cachedTool : BackendTool φ :=
  ⟨Text.strip mounted.wireName, mounted.tool.inputSchema, mounted.tool.description, [], []⟩

variable (serverKeys : List Text)

theorem get?_backendEntry (tool : BackendTool φ) {key : Text} (hname : key ≠ nameKey)
    (hserver : key ≠ serverKeyKey) (htool : key ≠ toolNameKey) :
    Json.get? (backendEntry env serverKeys tool) key = Json.get? (mcpToolToCatalogDict tool) key := by
  unfold backendEntry enrichToolIdentity
  dsimp only
  split
  · rw [Json.get?_set_of_ne hname, Json.get?_set_of_ne htool, Json.get?_set_of_ne hserver]
  · split
    · rfl
    · split
      · rfl
      · rw [Json.get?_set_of_ne htool, Json.get?_set_of_ne hserver, Json.get?_set_of_ne hname]

theorem fieldOr_description (tool : BackendTool φ) :
    fieldOr env (backendEntry env serverKeys tool) descriptionKey = tool.description := by
  have hfield : Json.get? (backendEntry env serverKeys tool) descriptionKey =
      if tool.description = [] then none else some (.str tool.description) := by
    rw [get?_backendEntry serverKeys tool (by decide) (by decide) (by decide)]
    unfold mcpToolToCatalogDict nonemptyField
    split <;> split <;> rfl
  split at hfield
  · rename_i hempty
    rw [fieldOr_none hfield, hempty]
  · exact fieldOr_str hfield

theorem toolFromCatalogEntry_backendEntry (mounted : MountedTool φ) :
    toolFromCatalogEntry env (backendEntry env serverKeys mounted.wireTool) =
      some (cachedTool mounted) := by
  have hname : Text.strip (fieldOr env (backendEntry env serverKeys mounted.wireTool) nameKey) =
      Text.strip mounted.wireName := by
    rcases @fieldOr_backendEntry _ env serverKeys mounted.wireTool with h | h
    · rw [h]
      rfl
    · rw [h, Text.strip_strip]
      rfl
  have hschema : Json.get? (backendEntry env serverKeys mounted.wireTool) wireSchemaKey =
      some (.obj mounted.tool.inputSchema) := by
    rw [get?_backendEntry serverKeys _ (by decide) (by decide) (by decide)]
    rfl
  unfold toolFromCatalogEntry
  dsimp only
  rw [hname, if_neg, hschema, fieldOr_description]
  · rfl
  · rintro (hnil | hsearch)
    · exact strip_wireName_ne_nil mounted hnil
    · exact ne_search_of_mem (separator_mem_strip (separator_mem_wireName mounted)) hsearch

/-- A cache that `refresh_catalog_cache` has filled from the tools of the process. -/
def RefreshedBy (env : CatalogEnv φ) (process : Process φ) (config : AggregatorConfig)
    (cache : RuntimeToolCache φ) : Prop :=
  ∃ before force, (force = true ∨ before.tools = []) ∧
    (∃ tool ∈ process.listing, nameAllowed config tool.name = true) ∧
    cache = refreshCatalogCache env process.listing before config force

variable {config : AggregatorConfig}
variable {cache : RuntimeToolCache φ}

theorem RefreshedBy.tools (h : RefreshedBy env process config cache) :
    cache.tools = (allowedTools process.listing config).map (backendEntry env config.serverKeys) ∧
      cache.tools ≠ [] := by
  obtain ⟨before, force, hforce, ⟨tool, htool, hallowed⟩, rfl⟩ := h
  have hentries : ((buildCatalogFromTools process.listing config).1.map
      (enrichToolIdentity env · (longestFirst config.serverKeys))) =
      (allowedTools process.listing config).map (backendEntry env config.serverKeys) := by
    simp only [buildCatalogFromTools, List.map_map]
    rfl
  have hne : (allowedTools process.listing config).map (backendEntry env config.serverKeys) ≠ [] :=
    ne_nil_of_mem (mem_map_of_mem (mem_filter.mpr ⟨htool, hallowed⟩))
  have hrefresh : (refreshCatalogCache env process.listing before config force).tools =
      (allowedTools process.listing config).map (backendEntry env config.serverKeys) := by
    unfold refreshCatalogCache
    dsimp only
    rw [if_neg, hentries, if_neg]
    · rintro ⟨hempty, -⟩
      exact hne (List.isEmpty_iff.mp hempty)
    · rintro ⟨hbefore, hunforced⟩
      rcases hforce with hforce | hforce
      · rw [hforce] at hunforced
        cases hunforced
      · rw [hforce] at hbefore
        cases hbefore
  exact ⟨hrefresh, by rw [hrefresh]; exact hne⟩

theorem isMetaTool_search : isMetaTool mcpWireSearchToolName = true := by decide

theorem allowedTools_listing (process : Process φ) (config : AggregatorConfig) :
    (allowedTools process.listing config).Perm
      ((process.mounted.filter fun mounted => nameAllowed config mounted.wireName).map
        wireTool) := by
  have hsearch : ¬ nameAllowed config process.searchTool.name = true := by
    rw [process.searchTool_name]
    unfold nameAllowed
    rw [isMetaTool_search]
    exact Bool.false_ne_true
  have hperm := process.listing_perm.filter fun tool => nameAllowed config tool.name
  rw [filter_cons, if_neg hsearch, filter_map] at hperm
  simp only [Function.comp_def, wireTool_name] at hperm
  exact hperm

theorem RefreshedBy.cachedTools (h : RefreshedBy env process config cache) :
    (cache.tools.filterMap (toolFromCatalogEntry env)).Perm
      ((process.mounted.filter fun mounted => nameAllowed config mounted.wireName).map
        cachedTool) := by
  have hsome : (toolFromCatalogEntry env) ∘ (backendEntry env config.serverKeys) ∘
      wireTool = some ∘ cachedTool := by
    funext mounted
    simp only [Function.comp_apply, toolFromCatalogEntry_backendEntry]
  have hperm := ((allowedTools_listing process config).map
    (backendEntry env config.serverKeys)).filterMap (toolFromCatalogEntry env)
  rw [← h.tools.1, List.map_map, filterMap_map, hsome, filterMap_eq_map] at hperm
  exact hperm

/-- Two vocabularies make the same stub of the tool. -/
def SameVocabulary (env : CatalogEnv φ) (retain retain' : RetainSpec) (tool : BackendTool φ) :
    Prop :=
  stubParameters env retain tool = stubParameters env retain' tool ∧
    stubDescription retain tool = stubDescription retain' tool

structure LiveServes (env : CatalogEnv φ) (process : Process φ) (runtime : SessionRuntime φ) :
    Prop where
  scope : ∀ mounted ∈ process.mounted, denies runtime mounted = false →
    (toolNameAllowedForServers mounted.wireName runtime.config.serverKeys = true ↔
      owns runtime mounted = true)
  vocabulary : ∀ mounted ∈ ownTools process runtime,
    SameVocabulary env process.bootstrap.stubRetain runtime.stubRetain mounted.tool

/-- The cache of `source`, filled under the configuration `filled`, serves a session. -/
structure CacheServes (env : CatalogEnv φ) (process : Process φ)
    (runtime source : SessionRuntime φ) (filled : AggregatorConfig) : Prop where
  scope : ∀ mounted ∈ process.mounted, denies runtime mounted = false →
    (nameAllowed filled mounted.wireName = true ∧
        toolNameAllowedForServers mounted.wireName runtime.config.serverKeys = true ↔
      owns runtime mounted = true)
  search : ∃ tool, source.searchTool = some tool ∧
    withoutOutputSchema (runtime.searchTool.getD tool) =
      withoutOutputSchema (runtime.searchTool.getD process.searchTool)
  plain : ∀ mounted ∈ ownTools process runtime, Text.strip mounted.wireName = mounted.wireName ∧
    mounted.tool.title = [] ∧ (withoutOutputSchema mounted.tool).rest = []
  vocabulary : ∀ mounted ∈ ownTools process runtime,
    SameVocabulary env source.stubRetain runtime.stubRetain mounted.tool

theorem mem_ownTools {mounted : MountedTool φ} : mounted ∈ ownTools process runtime ↔
    mounted ∈ process.mounted ∧ (owns runtime mounted && !denies runtime mounted) = true :=
  mem_filter

theorem scope_iff {listed owned denied : Bool} {allowed : Prop} :
    ((listed = true ∧ allowed ∧ denied = false) ↔ (owned && !denied) = true) ↔
      (denied = false → (listed = true ∧ allowed ↔ owned = true)) := by
  cases denied <;> cases listed <;> cases owned <;> simp

theorem liveServes_iff (hkeys : runtime.config.serverKeys ≠ []) :
    (listTools env fastMcp process.bootstrap.stubRetain runtime process.listing).Perm
      (expectedStubs env fastMcp process runtime) ↔ LiveServes env process runtime := by
  have hall : process.mounted.filter (fun _ => true) = process.mounted :=
    filter_eq_self.mpr fun _ _ => rfl
  have hlisting : process.listing.Perm (process.searchTool ::
      (process.mounted.filter fun _ => true).map wireTool) := by
    rw [hall]
    exact process.listing_perm
  rw [listTools_perm_iff id process.searchTool_name hkeys hlisting wireTool_name
    (fun _ => rfl) (fun _ _ _ => rfl)
    (fun mounted => ne_search_of_mem (separator_mem_wireName mounted)), and_iff_right rfl]
  constructor
  · intro h
    constructor
    · intro mounted hmounted hdenied
      have hscope := scope_iff.mp (h mounted hmounted).1 hdenied
      rwa [and_iff_right rfl] at hscope
    · intro mounted hown
      obtain ⟨hmounted, hown⟩ := mem_ownTools.mp hown
      have hstub := stub_eq_iff.mp ((h mounted hmounted).2 hown)
      exact ⟨hstub.2.1, hstub.2.2.1⟩
  · intro h mounted hmounted
    refine ⟨scope_iff.mpr fun hdenied => ?_, fun hown => ?_⟩
    · rw [and_iff_right rfl]
      exact h.scope mounted hmounted hdenied
    · have hsame := h.vocabulary mounted (mem_ownTools.mpr ⟨hmounted, hown⟩)
      exact stub_eq_iff.mpr ⟨rfl, hsame.1, hsame.2, rfl, rfl⟩

theorem nameAllowed_of_strip {name name' : Text}
    (h : name.strip = name'.strip) : nameAllowed config name = nameAllowed config name' := by
  rw [Bool.eq_iff_iff, nameAllowed_iff, nameAllowed_iff, ← isMetaTool_strip name,
    ← isMetaTool_strip name', ← toolNameAllowedForServers_strip name,
    ← toolNameAllowedForServers_strip name', ← isCatalogToolDenied_strip name,
    ← isCatalogToolDenied_strip name', h]

theorem cacheServes_iff {source : SessionRuntime φ} {filled : AggregatorConfig}
    (hkeys : runtime.config.serverKeys ≠ [])
    (hfilled : RefreshedBy env process filled source.cache) :
    (listStubsFromRuntimeCache env fastMcp runtime source).Perm
      (expectedStubs env fastMcp process runtime) ↔
        CacheServes env process runtime source filled := by
  have hcached := hfilled.cachedTools
  unfold listStubsFromRuntimeCache
  cases hsearch : source.searchTool with
  | none =>
    -- a cache without a search tool answers without one
    refine ⟨fun h => ?_, fun h => ?_⟩
    · have hmem := h.symm.subset mem_cons_self
      have hname : (withoutOutputSchema (runtime.searchTool.getD process.searchTool)).name =
          mcpWireSearchToolName := getD_searchTool_name process.searchTool_name
      refine absurd hname (ne_search_of_mem_listTools (fun tool htool => ?_) hmem)
      rw [Option.toList_none, List.append_nil] at htool
      obtain ⟨mounted, -, rfl⟩ := mem_map.mp (hcached.subset htool)
      exact ne_search_of_mem (separator_mem_strip (separator_mem_wireName mounted))
    · obtain ⟨tool, htool, -⟩ := h.search
      rw [hsearch] at htool
      cases htool
  | some search =>
    have htools : (source.cache.tools.filterMap (toolFromCatalogEntry env) ++
        (some search).toList).Perm (search :: (process.mounted.filter fun mounted =>
          nameAllowed filled mounted.wireName).map cachedTool) :=
      perm_append_comm.trans (hcached.cons search)
    rw [listTools_perm_iff Text.strip (source.searchTool_name search hsearch) hkeys
      htools (fun _ => rfl) Text.strip_strip (fun a b hab => nameAllowed_of_strip hab)
      (fun mounted => ne_search_of_mem (separator_mem_strip (separator_mem_wireName mounted)))]
    simp only [toolNameAllowedForServers_strip, isCatalogToolDenied_strip]
    constructor
    · rintro ⟨hsame, h⟩
      refine ⟨?_, ⟨search, hsearch, hsame⟩, ?_, ?_⟩
      · intro mounted hmounted hdenied
        exact scope_iff.mp (h mounted hmounted).1 hdenied
      · intro mounted hown
        obtain ⟨hmounted, hown⟩ := mem_ownTools.mp hown
        obtain ⟨hname, -, -, htitle, hrest⟩ := stub_eq_iff.mp ((h mounted hmounted).2 hown)
        exact ⟨hname, htitle.symm, hrest.symm⟩
      · intro mounted hown
        obtain ⟨hmounted, hown⟩ := mem_ownTools.mp hown
        obtain ⟨-, hparameters, hdescription, -, -⟩ :=
          stub_eq_iff.mp ((h mounted hmounted).2 hown)
        exact ⟨hparameters, hdescription⟩
    · intro h
      obtain ⟨tool, htool, hsame⟩ := h.search
      rw [hsearch] at htool
      cases htool
      refine ⟨hsame, fun mounted hmounted => ⟨scope_iff.mpr (h.scope mounted hmounted), ?_⟩⟩
      intro hown
      have hmem := mem_ownTools.mpr ⟨hmounted, hown⟩
      obtain ⟨hname, htitle, hrest⟩ := h.plain mounted hmem
      obtain ⟨hparameters, hdescription⟩ := h.vocabulary mounted hmem
      exact stub_eq_iff.mpr ⟨hname, hparameters, hdescription, htitle.symm, hrest.symm⟩

/-- A cache that is empty, or filled by `refresh_catalog_cache` under a configuration. -/
def CacheState (env : CatalogEnv φ) (process : Process φ) (cache : RuntimeToolCache φ) :
    Option AggregatorConfig → Prop
  | none => cache.tools = []
  | some config => RefreshedBy env process config cache

theorem CacheState.eq_nil_iff {filled : Option AggregatorConfig}
    (h : CacheState env process cache filled) : cache.tools = [] ↔ filled = none := by
  cases filled with
  | none => exact iff_of_true h rfl
  | some config => exact iff_of_false h.tools.2 (by simp)

/-- Neither the disk nor the registry has a catalog, and no refresh ends while the request waits. -/
def noReads : CacheReads φ := ⟨[], [], none, [], []⟩

/-- What answers a session serves it: its own cache, filled under `own`, the one of the bootstrap
runtime, filled under `boot`, or else the live list. -/
def Serves (env : CatalogEnv φ) (process : Process φ) (runtime : SessionRuntime φ)
    (isBootstrap : Bool) (own boot : Option AggregatorConfig) : Prop :=
  match own, isBootstrap, boot with
  | some config, _, _ => CacheServes env process runtime runtime config
  | none, false, some config => CacheServes env process runtime process.bootstrap config
  | none, true, _ => LiveServes env process runtime
  | none, false, none => LiveServes env process runtime

theorem hydrate_nil (h : runtime.cache.tools = []) : runtime.hydrate env [] [] = runtime := by
  unfold SessionRuntime.hydrate hydrateRuntimeCache catalogEntriesFromDicts
  simp [h]

theorem warmed_eq {reads : CacheReads φ} (h : runtime.cache.tools = [] → reads = noReads) :
    warmed env runtime reads = runtime := by
  unfold warmed
  by_cases hempty : runtime.cache.tools = []
  · rw [h hempty]
    simp [noReads, hydrate_nil hempty, hempty]
  · simp [hempty]

/-- For every process, every session that has a tool in scope, and every state of the caches that
`refresh_catalog_cache` makes: the answer to `tools/list` is the search tool and the stubs of
exactly the tools of the session, each once, if and only if what answers serves the session. -/
theorem onListTools_perm_iff {own boot : Option AggregatorConfig} {reads : CacheReads φ}
    (hscope : ∃ mounted ∈ process.mounted, owns runtime mounted = true ∧
      denies runtime mounted = false)
    (hown : CacheState env process runtime.cache own)
    (hboot : CacheState env process process.bootstrap.cache boot)
    (hreads : own = none → reads = noReads) (isBootstrap : Bool) :
    (onListTools env fastMcp process runtime isBootstrap reads).Perm
      (expectedStubs env fastMcp process runtime) ↔
        Serves env process runtime isBootstrap own boot := by
  have hkeys : runtime.config.serverKeys ≠ [] := by
    obtain ⟨mounted, -, howns, -⟩ := hscope
    intro hnil
    rw [owns, hnil] at howns
    cases howns
  unfold onListTools
  dsimp only
  rw [warmed_eq fun hempty => hreads (hown.eq_nil_iff.mp hempty)]
  unfold listSource Serves
  cases own with
  | some config =>
    rw [if_pos hown.tools.2]
    exact cacheServes_iff hkeys hown
  | none =>
    have hnil : runtime.cache.tools = [] := hown
    rw [if_neg (not_not_intro hnil)]
    cases isBootstrap with
    | true =>
      rw [if_neg fun h => Bool.false_ne_true h.1.symm]
      exact liveServes_iff hkeys
    | false =>
      cases boot with
      | some config =>
        rw [if_pos ⟨rfl, hboot.tools.2⟩]
        exact cacheServes_iff hkeys hboot
      | none =>
        rw [if_neg fun h => h.2 hboot]
        exact liveServes_iff hkeys

/-- A tool without anything but a name. -/
def bareTool (name : Text) : BackendTool Empty := ⟨name, [], [], [], []⟩

theorem git_key : Text.strip "git".toList = "git".toList ∧ "git".toList ≠ [] := by decide

theorem web_key : Text.strip "web".toList = "web".toList ∧ "web".toList ≠ [] := by decide

theorem gitLab_key : Text.strip "git_lab".toList = "git_lab".toList ∧ "git_lab".toList ≠ [] := by
  decide

def gitTool : MountedTool Empty := ⟨"git", git_key.1, git_key.2, bareTool "log"⟩

def webTool : MountedTool Empty := ⟨"web", web_key.1, web_key.2, bareTool "fetch"⟩

/-- A tool of a server whose key starts with the key of another one. -/
def gitLabTool : MountedTool Empty := ⟨"git_lab", gitLab_key.1, gitLab_key.2, bareTool "issues"⟩

theorem bareSearch_name : ∀ tool ∈ some (bareTool mcpWireSearchToolName),
    tool.name = mcpWireSearchToolName := by
  rintro tool ⟨⟩
  rfl

/-- The session of the workspace with the server `git`. -/
def gitSession : SessionRuntime Empty where
  config := ⟨["git".toList], []⟩
  loadedDeny := []
  stubRetain := ⟨some [nameKey], some [nameKey]⟩
  cache := ⟨[], .empty⟩
  searchTool := some (bareTool mcpWireSearchToolName)
  searchTool_name := bareSearch_name

/-- A process that has mounted a tool of `git` and one of another workspace. -/
def twoWorkspaces (other : MountedTool Empty)
    (distinct : ([gitTool, other].map wireName).Nodup) : Process Empty where
  bootstrap := gitSession
  mounted := [gitTool, other]
  distinct := distinct
  searchTool := bareTool mcpWireSearchToolName
  searchTool_name := rfl
  listing := bareTool mcpWireSearchToolName :: [gitTool, other].map wireTool
  listing_perm := .refl _

theorem webTool_distinct : ([gitTool, webTool].map wireName).Nodup := by decide

theorem gitLabTool_distinct : ([gitTool, gitLabTool].map wireName).Nodup := by decide

def plainFastMcp : FastMcp Empty where
  fromTool tool description := { tool with description := description }
  fromTool_name _ _ := rfl
  fromTool_title _ _ := rfl
  fromTool_rest _ _ := rfl

theorem onListTools_perm_iff_web :
    (onListTools plainCatalogEnv plainFastMcp (twoWorkspaces webTool webTool_distinct) gitSession
      true noReads).Perm
      (expectedStubs plainCatalogEnv plainFastMcp (twoWorkspaces webTool webTool_distinct)
        gitSession) := by
  refine (@onListTools_perm_iff _ plainCatalogEnv plainFastMcp
    (twoWorkspaces webTool webTool_distinct) gitSession none none noReads
    ⟨gitTool, mem_cons_self, by decide⟩ rfl rfl (fun _ => rfl) true).mpr
    ⟨?_, fun _ _ => ⟨rfl, rfl⟩⟩
  change ∀ mounted ∈ [gitTool, webTool], _
  rintro mounted (_ | ⟨_, _ | ⟨_, ⟨⟩⟩⟩)
  · decide
  · decide

theorem gitLab_listed :
    "git_lab_issues".toList ∈ (onListTools plainCatalogEnv plainFastMcp
      (twoWorkspaces gitLabTool gitLabTool_distinct) gitSession true noReads).map BackendTool.name ∧
    owns gitSession gitLabTool = false ∧
    "git_lab_issues".toList ∉ (expectedStubs plainCatalogEnv plainFastMcp
      (twoWorkspaces gitLabTool gitLabTool_distinct) gitSession).map BackendTool.name := by
  decide +kernel

end ClearYourTools.CytMcp
