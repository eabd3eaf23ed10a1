import ClearYourTools.CytMcp.Catalog

/-!
# The tools of a session

`cyt_mcp/session_workspace_middleware.py` and the transform of `cyt_mcp/stubs.py`: one process
mounts the backends of all workspaces, and lists to a session the tools of its own.
-/

/-! ## Stubs for the tool list: `cyt_mcp/stubs.py`, `cyt_mcp/stub_catalog.py` -/

namespace ClearYourTools.CytMcp

open Misc CytClient
open Injection.SessionLog (nameKey descriptionKey inputSchemaKey)

variable {φ : Type}

/-- `RetainSpec`; a list that is not there is `none`. -/
structure RetainSpec where
  tool : Option (List Text)
  requiredProperties : Option (List Text)

def retainIncludesToolField (retain : RetainSpec) (field : Text) : Bool :=
  match retain.tool with
  | none => field == nameKey
  | some toolFields => toolFields.contains field

def retainIncludesRequiredNames (retain : RetainSpec) : Bool :=
  match retain.requiredProperties with
  | none => false
  | some names => names.contains nameKey

def typeKey : Text := "type"
def propertiesKey : Text := "properties"
def requiredKey : Text := "required"

def minimalObjectSchema : Record φ := [(typeKey, .str "object"), (propertiesKey, .obj [])]

section

variable (p : Json.PyFormat φ)

def requiredPropertyNames (schema : Record φ) : List Text :=
  match Json.get? schema requiredKey with
  | some (.arr required) => (required.map (Json.toStr p)).filter fun name => name.strip != []
  | _ => []

/-- What is kept of the schema of a property. -/
def minimalProp (properties : Record φ) (name : Text) : Json φ :=
  match Json.get? properties name with
  | some (.obj prop) =>
    let kept := (["type", "enum", "items", "anyOf", "oneOf"].map String.toList).filterMap fun key =>
      (Json.get? prop key).map fun v => (key, v)
    if kept.isEmpty then .obj [(typeKey, (Json.get? prop typeKey).getD (.str "string"))]
    else .obj kept
  | _ => .obj [(typeKey, .str "string")]

def minimalRequiredSchema (fullSchema : Record φ) : Record φ :=
  match Json.get? fullSchema propertiesKey with
  | some (.obj properties) =>
    let requiredNames := requiredPropertyNames p fullSchema
    if requiredNames.isEmpty then minimalObjectSchema
    else
      [(typeKey, .str "object"),
        (propertiesKey, .obj (requiredNames.foldl
          (fun props name => Json.set props name (minimalProp properties name)) [])),
        (requiredKey, .arr (requiredNames.map .str))]
  | _ => minimalObjectSchema

def stubParameters (retain : RetainSpec) (tool : BackendTool φ) : Record φ :=
  if retainIncludesRequiredNames retain then minimalRequiredSchema p tool.inputSchema
  else minimalObjectSchema

end

/-- `Tool.from_tool(tool, description=description)` of the framework: a copy, but for what a caller
gives. -/
structure FastMcp (φ : Type) where
  fromTool : BackendTool φ → Text → BackendTool φ
  fromTool_name : ∀ tool description, (fromTool tool description).name = tool.name
  fromTool_title : ∀ tool description, (fromTool tool description).title = tool.title
  fromTool_rest : ∀ tool description, (fromTool tool description).rest = tool.rest

/-- `tool.model_copy(update={"output_schema": None})`. -/
def withoutOutputSchema (tool : BackendTool φ) : BackendTool φ :=
  { tool with rest := tool.rest.filter fun field => field.1 != "outputSchema" }

def stubDescription (retain : RetainSpec) (tool : BackendTool φ) : Text :=
  if retainIncludesToolField retain descriptionKey then tool.description else []

variable (env : CatalogEnv φ) (fastMcp : FastMcp φ)

def stubFromTool (retain : RetainSpec) (tool : BackendTool φ) : BackendTool φ :=
  { fastMcp.fromTool tool (stubDescription retain tool) with
    description := stubDescription retain tool
    inputSchema := stubParameters env retain tool }

/-- The tests of `_build_tool_stubs`. -/
def stubAllowed (serverKeys denyEntries : List Text) (applyServerFilter : Bool) (name : Text) :
    Bool :=
  !(applyServerFilter && !serverKeys.isEmpty && !toolNameAllowedForServers name serverKeys) &&
    !(!denyEntries.isEmpty && name != mcpWireSearchToolName &&
      Permissions.isCatalogToolDenied name denyEntries)

/-- The stub of one tool; the search tool is the refreshed one of the active cache, if there is
one. -/
def stubOf (retain : RetainSpec) (refreshed : Option (BackendTool φ)) (tool : BackendTool φ) :
    BackendTool φ :=
  if tool.name = mcpWireSearchToolName then withoutOutputSchema (refreshed.getD tool)
  else withoutOutputSchema (stubFromTool env fastMcp retain tool)

def buildToolStubs (retain : RetainSpec) (tools : List (BackendTool φ))
    (refreshed : Option (BackendTool φ)) (serverKeys denyEntries : List Text)
    (applyServerFilter : Bool) : List (BackendTool φ) :=
  (tools.filter fun tool => stubAllowed serverKeys denyEntries applyServerFilter tool.name).map
    (stubOf env fastMcp retain refreshed)

def toolFromCatalogEntry (entry : Record φ) : Option (BackendTool φ) :=
  let name := Text.strip (fieldOr env entry nameKey)
  if name = [] ∨ name = mcpWireSearchToolName then none
  else
    let parameters :=
      match Json.get? entry wireSchemaKey with
      | some (.obj schema) => schema
      | _ =>
        match Json.get? entry inputSchemaKey with
        | some (.obj schema) => schema
        | _ => minimalObjectSchema
    some ⟨name, parameters, fieldOr env entry descriptionKey, [], []⟩

open Misc Bm25Search CytClient

open Injection.SessionLog (nameKey descriptionKey)

variable {φ : Type}

/-- A tool of a mounted server, under the name that the backend gives it. `mount_backend_servers`
strips the key and skips an empty one. -/
structure MountedTool (φ : Type) where
  serverKey : Text
  key_strip : serverKey.strip = serverKey
  key_ne_nil : serverKey ≠ []
  tool : BackendTool φ

/-- The name of the tool in the process. -/
def MountedTool.wireName (mounted : MountedTool φ) : Text :=
  wireNameFor mounted.serverKey mounted.tool.name

/-- The tool as the process lists it. -/
def MountedTool.wireTool (mounted : MountedTool φ) : BackendTool φ :=
  { mounted.tool with name := mounted.wireName }

/-- `WorkspaceSessionRuntime`. `config` is that of the holder, with the current deny list; the
configuration that was loaded differs from it in the deny list only. -/
structure SessionRuntime (φ : Type) where
  config : AggregatorConfig
  loadedDeny : List Text
  stubRetain : RetainSpec
  cache : RuntimeToolCache φ
  searchTool : Option (BackendTool φ)
  searchTool_name : ∀ tool ∈ searchTool, tool.name = mcpWireSearchToolName

/-- A process: its bootstrap runtime, the tools of the mounted servers, its own search tool, and
the list of them all in the order of the framework. -/
structure Process (φ : Type) where
  bootstrap : SessionRuntime φ
  mounted : List (MountedTool φ)
  distinct : (mounted.map MountedTool.wireName).Nodup
  searchTool : BackendTool φ
  searchTool_name : searchTool.name = mcpWireSearchToolName
  listing : List (BackendTool φ)
  listing_perm : listing.Perm (searchTool :: mounted.map MountedTool.wireTool)

def searchToolBaseDescription : Text :=
  ("Returns the full MCP tool definition for a cyt-mcp backend tool by name. " ++
    "Use when hook-injected stubs lack properties or metadata you need. " ++
    "The tool_name argument must be one of the backend tools exposed by this server.").toList

def buildSearchInputSchema (allowedNames : List Text) : Record φ :=
  let enumValues := ((allowedNames.filter fun name =>
    name != [] && name != "cyt-mcp_get-tool-definitions" &&
      name != mcpWireSearchToolName).eraseDups).insertionSort fun a b => textLe a b = true
  [(typeKey, .str "object"),
    (propertiesKey, .obj [("tool_name", .obj [(typeKey, .str "string"),
      (descriptionKey, .str "Backend cyt-mcp tool name to look up."),
      ("enum", .arr (enumValues.map .str))])]),
    (requiredKey, .arr [.str "tool_name"]),
    ("additionalProperties", .bool false)]

variable (env : CatalogEnv φ) (fastMcp : FastMcp φ)

def refreshSearchToolSchema (cache : RuntimeToolCache φ) (tool : BackendTool φ) : BackendTool φ :=
  { tool with
    inputSchema := buildSearchInputSchema (cache.tools.map fun entry => fieldOr env entry nameKey)
    description := if tool.description = [] then searchToolBaseDescription else tool.description }

theorem SessionRuntime.refreshed_name (runtime : SessionRuntime φ) (cache : RuntimeToolCache φ) :
    ∀ tool ∈ runtime.searchTool.map (refreshSearchToolSchema env cache),
      tool.name = mcpWireSearchToolName := by
  intro tool htool
  obtain ⟨before, hbefore, rfl⟩ := Option.mem_map.mp htool
  exact runtime.searchTool_name before hbefore

/-- `cache.replace` and `refresh_search_tool_schema`. -/
def SessionRuntime.fill (runtime : SessionRuntime φ) (cache : RuntimeToolCache φ) :
    SessionRuntime φ :=
  { runtime with
    cache := cache
    searchTool := runtime.searchTool.map (refreshSearchToolSchema env cache)
    searchTool_name := runtime.refreshed_name env cache }

/-- `hydrate_runtime_cache` for the runtime of a session, whose cache is empty. -/
def SessionRuntime.hydrate (runtime : SessionRuntime φ) (diskTools registryTools : List (Record φ)) :
    SessionRuntime φ :=
  let cache := hydrateRuntimeCache env runtime.cache
    { runtime.config with mcpDeny := runtime.loadedDeny } diskTools registryTools
  if cache.tools.isEmpty then runtime else runtime.fill env cache

/-- `StubListTransform.list_tools` in a request of a session with runtime `active`. -/
def listTools (retain : RetainSpec) (active : SessionRuntime φ) (tools : List (BackendTool φ)) :
    List (BackendTool φ) :=
  let stubs := buildToolStubs env fastMcp retain tools active.searchTool active.config.serverKeys
    active.config.mcpDeny true
  -- nothing in scope: everything, rather than an empty list
  if stubs.isEmpty && !tools.isEmpty then
    buildToolStubs env fastMcp retain tools active.searchTool active.config.serverKeys
      active.config.mcpDeny false
  else stubs

def listStubsFromRuntimeCache (active source : SessionRuntime φ) : List (BackendTool φ) :=
  listTools env fastMcp source.stubRetain active
    (source.cache.tools.filterMap (toolFromCatalogEntry env) ++ source.searchTool.toList)

/-- What `on_list_tools` finds while it waits for a cache that is empty: the tools on the disk and
in the registry, before and after, and the cache of a refresh that ends in between. -/
structure CacheReads (φ : Type) where
  diskTools : List (Record φ)
  registryTools : List (Record φ)
  refreshed : Option (RuntimeToolCache φ)
  laterDiskTools : List (Record φ)
  laterRegistryTools : List (Record φ)

/-- The runtime after the attempts to fill its cache. -/
def warmed (runtime : SessionRuntime φ) (reads : CacheReads φ) : SessionRuntime φ :=
  let hydrated :=
    if runtime.cache.tools.isEmpty then runtime.hydrate env reads.diskTools reads.registryTools
    else runtime
  let waited :=
    if hydrated.cache.tools.isEmpty then reads.refreshed.elim hydrated (hydrated.fill env)
    else hydrated
  if waited.cache.tools.isEmpty then
    waited.hydrate env reads.laterDiskTools reads.laterRegistryTools
  else waited

/-- The runtime whose cache answers, if one does. -/
def listSource (process : Process φ) (runtime : SessionRuntime φ) (isBootstrap : Bool) :
    Option (SessionRuntime φ) :=
  if runtime.cache.tools ≠ [] then some runtime
  else if isBootstrap = false ∧ process.bootstrap.cache.tools ≠ [] then some process.bootstrap
  else none

/-- `SessionWorkspaceMiddleware.on_list_tools`; `call_next` lists the tools of the process through
its transform. -/
def onListTools (process : Process φ) (runtime : SessionRuntime φ) (isBootstrap : Bool)
    (reads : CacheReads φ) : List (BackendTool φ) :=
  let active := warmed env runtime reads
  match listSource process active isBootstrap with
  | some source => listStubsFromRuntimeCache env fastMcp active source
  | none => listTools env fastMcp process.bootstrap.stubRetain active process.listing

end ClearYourTools.CytMcp
