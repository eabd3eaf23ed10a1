import ClearYourTools.Permissions.Match
import ClearYourTools.Pruners.ToolsFilter

/-!
# The tool catalog of cyt-mcp

`cyt_mcp/catalog.py` with the cache of `cyt_mcp/runtime_cache.py`: the tools that a process shows,
as it pushes them to the hook daemon, and the hash of them.
-/

namespace ClearYourTools.CytMcp

open Misc Bm25Search CytClient
open Injection.SessionLog (nameKey toolNameKey descriptionKey inputSchemaKey serverKeyKey
  catalogSourceKey sortKeys isMetaTool)
open Json (get? strOr)

variable {φ : Type}

/-- What the functions of this directory call: the digest, which has no white space, and the server
keys of the configuration. -/
structure CatalogEnv (φ : Type) extends Json.PyFormat φ where
  sha256 : Text → Text
  configuredServerKeys : List Text
  sha256_strip : ∀ t, (sha256 t).strip = sha256 t
  sha256_ne_nil : ∀ t, sha256 t ≠ []

instance : Coe (CatalogEnv φ) (Json.PyFormat φ) := ⟨CatalogEnv.toPyFormat⟩

def wireSchemaKey : Text := "inputSchema"
def mcpServerKey : Text := "mcp_server"
def catalogScopeKey : Text := "cyt_catalog_scope"

/-- `RuntimeToolCache`: the tools of the catalog, and those by name that the search gives. -/
structure RuntimeToolCache (φ : Type) where
  tools : List (Record φ)
  searchIndex : Dict Text (Record φ)

def mcpWireSearchToolName : Text := "get-tool-definitions"

def toolNameAllowedForServers (toolName : Text) (serverKeys : List Text) : Bool :=
  let name := toolName.strip
  name == [] || name == mcpWireSearchToolName ||
    serverKeys.any fun key => (key ++ ['_']).isPrefixOf name

variable (env : CatalogEnv φ)

/-- `str(tool.get(key) or "")`. -/
def fieldOr (tool : Record φ) (key : Text) : Text := strOr env tool key []

def enrichToolIdentity (tool : Record φ) (serverKeys : List Text) : Record φ :=
  let server := Text.strip (strOr env tool serverKeyKey
    (fieldOr env tool mcpServerKey))
  let bare := Text.strip (fieldOr env tool toolNameKey)
  let wire := Text.strip (fieldOr env tool nameKey)
  if server ≠ [] ∧ bare ≠ [] then
    Json.set (Json.set (Json.set tool serverKeyKey (.str server)) toolNameKey (.str bare)) nameKey
      (.str (wireNameFor server bare))
  else
    match splitWireName env.configuredServerKeys wire serverKeys with
    | none => tool
    | some identity =>
      if isFalseWireSplit env.configuredServerKeys identity then tool
      else
        Json.set (Json.set (Json.set tool nameKey (.str identity.wireName)) serverKeyKey
          (.str identity.serverKey)) toolNameKey (.str identity.backendToolName)

/-- A field that is not `None`, as text. -/
def textField (tool : Record φ) (key : Text) : Record φ :=
  match get? tool key with
  | none | some .null => []
  | some v => [(key, .str (Json.toStr env v))]

/-- `_canonical_tool_entry`, by its name. The two copies of it are the same. -/
def canonicalToolEntry (tool : Record φ) : Text × Json φ :=
  let name := fieldOr env tool nameKey
  let schema :=
    match Json.orElse env (get? tool inputSchemaKey) (get? tool wireSchemaKey) with
    | some (.obj fields) => fields
    | _ => []
  (name, .obj ((nameKey, .str name) :: textField env tool descriptionKey ++
    [(inputSchemaKey, .obj schema)]))

def catalogToolsContentHash (tools : List (Record φ)) : Text :=
  let canonical := (tools.map (canonicalToolEntry env)).insertionSort fun a b =>
    textLe a.1 b.1 = true
  env.sha256 (Json.dumps env false (sortKeys (.arr (canonical.map Prod.snd))))

/-- The schema that `catalog_payload` gives a tool. -/
def payloadSchema (searchIndex : Dict Text (Record φ)) (name : Text) (tool : Record φ) : Record φ :=
  let schema :=
    match get? tool wireSchemaKey with
    | some (.obj schema) => schema
    | _ =>
      match get? tool inputSchemaKey with
      | some (.obj schema) => schema
      | _ => []
  match searchIndex.get? name with
  | none => schema
  | some indexEntry =>
    Pruners.pickFullestInputSchema env [[(inputSchemaKey, .obj schema)], indexEntry]

/-- Where the server of an entry comes from. -/
def stampCatalogScope (serverOrigins : Dict Text Text) (entry : Record φ) : Record φ :=
  let serverKey := Text.strip (fieldOr env entry serverKeyKey)
  match serverOrigins.get? serverKey with
  | some origin =>
    if serverKey ≠ [] ∧ ["user".toList, "workspace".toList].contains origin then
      Json.set entry catalogScopeKey (.str origin)
    else entry
  | none => entry

/-- What `catalog_payload` makes of a tool. -/
def payloadEntry (searchIndex : Dict Text (Record φ)) (serverOrigins : Dict Text Text)
    (tool : Record φ) : Record φ :=
  let name := Text.strip (fieldOr env tool nameKey)
  let entry := (nameKey, .str name) ::
    (inputSchemaKey, .obj (payloadSchema env searchIndex name tool)) ::
    (catalogSourceKey, .str "cyt_mcp") ::
    (textField env tool descriptionKey ++ textField env tool serverKeyKey ++
      textField env tool toolNameKey)
  stampCatalogScope env serverOrigins (enrichToolIdentity env entry serverOrigins.keys)

/-- `catalog_payload`, its tools. -/
def catalogPayload (cache : RuntimeToolCache φ) (serverOrigins : Dict Text Text) :
    List (Record φ) :=
  (cache.tools.filter fun tool =>
    let name := Text.strip (fieldOr env tool nameKey)
    name != [] && !isMetaTool name).map (payloadEntry env cache.searchIndex serverOrigins)

/-! ## Filling the catalog cache: `cyt_mcp/catalog_build.py` -/

open Misc CytClient

open Injection.SessionLog (nameKey toolNameKey descriptionKey inputSchemaKey serverKeyKey
  isMetaTool)

variable {φ : Type}

/-- A tool of a backend, as `to_mcp_tool` gives it; `rest` are the fields of `outputSchema`,
`annotations`, `execution` and `meta` that it has. -/
structure BackendTool (φ : Type) where
  name : Text
  inputSchema : Record φ
  description : Text
  title : Text
  rest : Record φ

/-- What the cache reads of `AggregatorConfig`: the keys of `mcp_servers` and the deny list. -/
structure AggregatorConfig where
  serverKeys : List Text
  mcpDeny : List Text

/-- A field of a text that is not empty. -/
def nonemptyField (key value : Text) : Record φ := if value = [] then [] else [(key, .str value)]

def mcpToolToCatalogDict (tool : BackendTool φ) : Record φ :=
  [(nameKey, .str tool.name), (wireSchemaKey, .obj tool.inputSchema)] ++
    nonemptyField descriptionKey tool.description ++ nonemptyField "title" tool.title

def mcpToolToSearchIndexEntry (tool : BackendTool φ) : Record φ :=
  mcpToolToCatalogDict tool ++ tool.rest

/-- Whether a name gets into a catalog: no meta tool, of a server, and not denied. -/
def nameAllowed (config : AggregatorConfig) (name : Text) : Bool :=
  !isMetaTool name &&
    (config.serverKeys.isEmpty || toolNameAllowedForServers name config.serverKeys) &&
    !(!config.mcpDeny.isEmpty && Permissions.isCatalogToolDenied name config.mcpDeny)

def buildCatalogFromTools (tools : List (BackendTool φ)) (config : AggregatorConfig) :
    List (Record φ) × Dict Text (Record φ) :=
  let allowed := tools.filter fun tool => nameAllowed config tool.name
  (allowed.map mcpToolToCatalogDict,
    Dict.empty.writeAll (allowed.map fun tool => (tool.name, mcpToolToSearchIndexEntry tool)))

variable (env : CatalogEnv φ)

def searchIndexFromCatalogEntry (entry : Record φ) : Record φ :=
  let schema :=
    match get? entry wireSchemaKey with
    | some (.obj schema) => schema
    | _ =>
      match get? entry inputSchemaKey with
      | some (.obj schema) => schema
      | _ => []
  [(nameKey, .str (fieldOr env entry nameKey)), (wireSchemaKey, .obj schema)] ++
    (["description", "title", "outputSchema", "annotations", "execution", "meta", "server_key",
        "tool_name"].map String.toList).filterMap fun key =>
      match get? entry key with
      | none | some .null => none
      | some v => some (key, v)

def catalogEntryFromDict (config : AggregatorConfig) (raw : Record φ) : Record φ :=
  let entry :=
    match get? raw wireSchemaKey with
    | some (.obj _) => raw
    | _ =>
      match get? raw inputSchemaKey with
      | some (.obj schema) => Json.set raw wireSchemaKey (.obj schema)
      | _ => raw
  enrichToolIdentity env entry (longestFirst config.serverKeys)

def catalogEntriesFromDicts (tools : List (Record φ)) (config : AggregatorConfig) :
    List (Record φ) × Dict Text (Record φ) :=
  let named := (tools.map fun raw => (Text.strip (fieldOr env raw nameKey), raw)).filter fun item =>
    item.1 != [] && nameAllowed config item.1
  (named.map fun item => catalogEntryFromDict env config item.2,
    Dict.empty.writeAll (named.map fun item =>
      (item.1, searchIndexFromCatalogEntry env (catalogEntryFromDict env config item.2))))

/-- `hydrate_runtime_cache`, with the tools that the disk and the registry hold. -/
def hydrateRuntimeCache (cache : RuntimeToolCache φ) (config : AggregatorConfig)
    (diskTools registryTools : List (Record φ)) : RuntimeToolCache φ :=
  let tools := if registryTools.length ≤ diskTools.length then diskTools else registryTools
  let filled := catalogEntriesFromDicts env tools config
  if filled.1.isEmpty then cache else ⟨filled.1, filled.2⟩

def reapplyDenyOverlays (cache : RuntimeToolCache φ) (config : AggregatorConfig) :
    RuntimeToolCache φ :=
  let filteredEntries := cache.tools.filter fun entry =>
    !Permissions.isCatalogToolDenied (fieldOr env entry nameKey) config.mcpDeny
  let allowedNames := filteredEntries.map fun entry => fieldOr env entry nameKey
  if filteredEntries.length = cache.tools.length then cache
  else if filteredEntries.isEmpty then cache
  else ⟨filteredEntries, cache.searchIndex.filter fun name _ => allowedNames.contains name⟩

/-- `refresh_catalog_cache`, from the tools that the backends list. -/
def refreshCatalogCache (backendTools : List (BackendTool φ)) (cache : RuntimeToolCache φ)
    (config : AggregatorConfig) (force : Bool) : RuntimeToolCache φ :=
  let before := cache.tools.length
  if 0 < before ∧ force = false then cache
  else
    let built := buildCatalogFromTools backendTools config
    let entries := built.1.map (enrichToolIdentity env · (longestFirst config.serverKeys))
    if entries.isEmpty ∧ 0 < before then cache else ⟨entries, built.2⟩

/-! ## Pushing the catalog to the hook daemon: `cyt_mcp/hook_daemon_push.py` -/

/-- What the functions use of a `PushContext`, with `_last_success_hash` at its key. -/
structure PushContext (φ : Type) where
  config : AggregatorConfig
  cache : RuntimeToolCache φ
  lastSuccessHash : Option Text

/-- What a reload reads: the deny list, and the tools on the disk and in the registry. -/
structure Reload (φ : Type) where
  mcpDeny : List Text
  diskTools : List (Record φ)
  registryTools : List (Record φ)

variable (env : CatalogEnv φ) (backendTools : List (BackendTool φ))

/-- The cache after `_refresh_permissions_catalog`, with the reloaded configuration. -/
def refreshedCache (cache : RuntimeToolCache φ) (config : AggregatorConfig) (denyBefore : List Text)
    (reload : Reload φ) : RuntimeToolCache φ :=
  let hydrated :=
    if cache.tools.length = 0 then
      hydrateRuntimeCache env cache config reload.diskTools reload.registryTools
    else cache
  if hydrated.tools.length = 0 then refreshCatalogCache env backendTools hydrated config false
  else if denyBefore ≠ config.mcpDeny then reapplyDenyOverlays env hydrated config
  else hydrated

/-- `_refresh_permissions_catalog`, with whether the clients should refresh. -/
def refreshPermissionsCatalog (context : PushContext φ) (reload : Reload φ) :
    PushContext φ × Bool :=
  let config := { context.config with mcpDeny := reload.mcpDeny }
  let cache := refreshedCache env backendTools context.cache config context.config.mcpDeny reload
  (⟨config, cache, none⟩,
    catalogToolsContentHash env cache.tools != catalogToolsContentHash env context.cache.tools ||
      context.config.mcpDeny != reload.mcpDeny)

/-- The process after it has started, with a cache that `refresh_catalog_cache` has filled. -/
def PushContext.start (config : AggregatorConfig) : PushContext φ :=
  ⟨config, refreshCatalogCache env backendTools ⟨[], .empty⟩ config false, none⟩

/-- One reload after the other. -/
def PushContext.step (context : PushContext φ) (reload : Reload φ) : Option (PushContext φ) :=
  some (refreshPermissionsCatalog env backendTools context reload).1

end ClearYourTools.CytMcp
