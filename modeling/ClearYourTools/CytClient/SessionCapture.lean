import ClearYourTools.Injection.ToolCatalogEmit

/-!
# Catalogs of a session on the side of the client

`merge_tool_into_cyt_mcp_catalog` of `cyt_client/session_capture.py` with the identities of
`cyt_mcp/tool_identity.py`, the markers of `cyt_client/session_compaction.py`, and the exchange
between client and hook: the client sends the hashes of its catalogs, and stores the answer.
-/

namespace ClearYourTools.CytClient

open Misc CytMcp
open Injection (Source)
open Injection.SessionLog (SessionEnv nameKey toolNameKey catalogSourceKey descriptionKey
  inputSchemaKey serverKeyKey kindKey keyKey hashKey bundleHash catalogLogEntry catalogLogKey
  bundleToolsKey catalogEntryKind emitToolCatalogSessionLog)

variable {φ : Type}

def serverKeyCandidatesFromWireName (wireName : Text) : List Text :=
  let parts := wireName.strip.splitOn '_'
  (List.range (parts.length - 1)).map fun index => Text.join ['_'] (parts.take (index + 1))

/-- `_explicit_server_keys_from_tools` of one tool. -/
def explicitServerKeys (tool : Record φ) : List Text :=
  match Json.get? tool serverKeyKey with
  | some (.str serverKey) => if serverKey.strip = [] then [] else [serverKey.strip]
  | _ => []

section

variable (p : Json.PyFormat φ)

/-- `_wire_prefix_keys_from_tools` of one tool. -/
def wirePrefixKeys (configured : List Text) (tool : Record φ) : List Text :=
  let candidates := serverKeyCandidatesFromWireName (fieldText p tool nameKey)
  if configured = [] then candidates.take 1 else candidates.filter configured.contains

/-- `server_keys_for_enrichment` of one tool, in some order. -/
def serverKeysForEnrichment (configured : List Text) (tool : Record φ) : List Text :=
  configured ++ explicitServerKeys tool ++ wirePrefixKeys p configured tool

variable (tool : Record φ)

/-- `str(tool.get("server_key") or tool.get("mcp_server") or "").strip()`. -/
def serverKeyOf : Text := (Json.strOr p tool serverKeyKey (fieldText p tool "mcp_server")).strip

def withIdentity (name serverKey toolName : Text) : Record φ :=
  Json.set (Json.set (Json.set tool nameKey (.str name)) serverKeyKey (.str serverKey)) toolNameKey
    (.str toolName)

def enrichToolIdentity (configured serverKeys : List Text) (tool : Record φ) : Record φ :=
  if serverKeyOf p tool ≠ [] ∧ strippedText p tool toolNameKey ≠ [] then
    withIdentity tool (wireNameFor (serverKeyOf p tool) (strippedText p tool toolNameKey))
      (serverKeyOf p tool) (strippedText p tool toolNameKey)
  else
    match splitWireName configured (strippedText p tool nameKey) serverKeys with
    | none => tool
    | some identity =>
      withIdentity tool identity.wireName identity.serverKey identity.backendToolName

/-- `require_backend_identity`, `none` where it raises. -/
def requireBackendIdentity : Option (Text × Text) :=
  if serverKeyOf p tool ≠ [] ∧ strippedText p tool toolNameKey ≠ [] then
    some (serverKeyOf p tool, strippedText p tool toolNameKey)
  else none

variable (definition : Record φ)

/-- `definition.get("inputSchema") or definition.get("input_schema") or {}`, if it is a
dictionary. -/
def capturedSchema : Record φ :=
  match Json.orElse p (Json.get? definition "inputSchema")
    (Json.orElse p (Json.get? definition inputSchemaKey) none) with
  | some (.obj schema) => schema
  | _ => []

/-- A text of the definition, if it is not blank. -/
def capturedText (key : Text) : Record φ :=
  match Json.get? definition key with
  | some (.str value) => if value.strip = [] then [] else [(key, .str value.strip)]
  | _ => []

/-- The description of the definition, if it has one. -/
def capturedDescription : Record φ :=
  match Json.get? definition descriptionKey with
  | none | some .null => []
  | some v => [(descriptionKey, .str (Json.toStr p v))]

/-- The record before it has its identity. -/
def capturedRecord (toolName : Text) (definition : Record φ) : Record φ :=
  [(nameKey, .str toolName), (inputSchemaKey, .obj (capturedSchema p definition))] ++
    (capturedDescription p definition ++ (capturedText definition serverKeyKey ++
      (capturedText definition toolNameKey ++ capturedText definition "mcp_server")))

end

section

variable (env : SessionEnv φ)

variable (configured : List Text)

/-- `_tool_record_for_catalog`, `none` where it raises. -/
def toolRecordForCatalog (toolName : Text) (definition : Record φ) : Option (Record φ) :=
  let p := env.toPyFormat
  let record := capturedRecord p toolName definition
  (requireBackendIdentity p (enrichToolIdentity p configured
    (serverKeysForEnrichment p configured record) record)).map fun identity =>
      let stamped := Json.set (withIdentity record (wireNameFor identity.1 identity.2) identity.1
        identity.2) catalogSourceKey (.str cytMcpCatalog)
      Json.set stamped hashKey (.str (catalogToolRecordContentHash env cytMcpCatalog stamped))

def catalogToolRecordCore (record : Record φ) : Record φ := record.filter fun kv => kv.1 != hashKey

def canonicalToolsSorted (p : Json.PyFormat φ) (tools : List (Record φ)) : List (Record φ) :=
  tools.insertionSort fun a b => Bm25Search.textLe (fieldText p a nameKey) (fieldText p b nameKey)

def buildCytMcpCatalogEntry (tools : List (Record φ)) : Record φ :=
  catalogLogEntry .cytMcp
    (bundleHash env .cytMcp (canonicalToolsSorted env (tools.map catalogToolRecordCore)))
    (canonicalToolsSorted env tools)

/-- A record in the place of the first one of its name, or behind the records. -/
def placeRecord (p : Json.PyFormat φ) (toolName : Text) (record : Record φ) :
    List (Record φ) → List (Record φ)
  | [] => [record]
  | item :: items =>
    if strippedText p item nameKey = toolName then record :: items
    else item :: placeRecord p toolName record items

/-- `merge_tool_into_cyt_mcp_catalog`, `none` where it raises. -/
def mergeToolIntoCytMcpCatalog (log : Option Text) (toolName : Text) (definition : Record φ) :
    Option (Record φ) :=
  (toolRecordForCatalog env configured toolName definition).map fun record =>
    buildCytMcpCatalogEntry env (placeRecord env toolName record
      (catalogTools (readLatestToolCatalogs env log) cytMcpCatalog))

/-- `persist_cyt_mcp_search_result`, of the result that it extracts. An exception leaves the log as
it is, and the test of the hash is made again when the entry is appended. -/
def persistCytMcpSearchResult (log agent : Option Text) (toolName : Text) (definition : Record φ) :
    Option Text :=
  match mergeToolIntoCytMcpCatalog env configured log toolName definition with
  | none => log
  | some entry => appendToolCatalogEntries env log [entry] agent

def compactionKind : Text := "compaction"

def buildCompactionEntry (payload : Record φ) : Record φ :=
  [(kindKey, .str compactionKind), (keyKey, .str compactionKind), ("payload", .obj payload)]

variable (log agent : Option Text)

def persistCompactionToSessionLog (payload : Record φ) : Option Text :=
  appendSessionLog env log [buildCompactionEntry payload] agent

/-- The part of the payload with which `_attach_cyt_session_log` sends the hashes. -/
def hashesPayload (hashes : List (Text × Text)) : Record φ :=
  if hashes.isEmpty then []
  else [("tool_catalog_hashes", .obj (hashes.map fun kv => (kv.1, .str kv.2)))]

/-- The catalogs of the answer are stored first, as `_persist_session_log_response` does, then the
entries of no kind that is deduplicated. An exception of the hook leaves the log as it is. -/
def storeAnswer : Option (List (Record φ)) → Option Text
  | none => log
  | some entries =>
    let stored := appendToolCatalogEntries env log
      (entries.filter fun entry => fieldIs entry kindKey catalogEntryKind) agent
    appendSessionLog env stored
      (entries.filter fun entry => !fieldIs entry kindKey catalogEntryKind) agent

/-- A prompt: the hook answers from the hashes of the log and a master catalog. -/
def promptCatalogs (catalog : List (Record φ)) (toolsInjectEnabled : Bool) : Option Text :=
  storeAnswer env log agent (emitToolCatalogSessionLog env catalog
    (hashesPayload (readToolCatalogHashes env.toPyFormat log)) toolsInjectEnabled)

end

/-- A JSON object as Python holds it. -/
abbrev PyRecord (φ : Type) := { record : Record φ // (Json.obj record).Valid }

/-- A tool of a master catalog: a `cyt_mcp` tool has its server and its own name. -/
structure MasterTool (p : Json.PyFormat φ) where
  record : Record φ
  valid : (Json.obj record).Valid
  identified : Injection.SessionLog.catalogKindOf p record = .cytMcp →
    serverKeyOf p record ≠ [] ∧ strippedText p record toolNameKey ≠ []

/-- What happens to the catalogs of a session. -/
inductive SyncEvent (p : Json.PyFormat φ)
  | prompt (master : List (MasterTool p)) (toolsInjectEnabled : Bool)
  | compaction (payload : PyRecord φ)
  | capture (toolName : Text) (definition : PyRecord φ)

/-- A session: the configured servers and the agent. -/
structure SyncSession (φ : Type) where
  env : SessionEnv φ
  configured : List Text
  agent : Option Text

namespace SyncSession

variable (session : SyncSession φ)

/-- The log after an event. -/
def step (log : Option Text) : SyncEvent session.env.toPyFormat → Option Text
  | .prompt master toolsInjectEnabled =>
    promptCatalogs session.env log session.agent (master.map MasterTool.record) toolsInjectEnabled
  | .compaction payload =>
    persistCompactionToSessionLog session.env log session.agent payload.1
  | .capture toolName definition =>
    persistCytMcpSearchResult session.env session.configured log session.agent toolName definition.1

/-- The log after a session. -/
def run (events : List (SyncEvent session.env.toPyFormat)) : Option Text :=
  events.foldl session.step none

end SyncSession

end ClearYourTools.CytClient
