import ClearYourTools.CytClient.PreToolHook
import ClearYourTools.Pruners.ToolsFilter

/-!
# Catalogs for the session log

`injection/tool_catalog_emit.py` with the catalog bundles of `injection/session_log_build.py`: for
each catalog a prompt is answered with the records of all its tools, or with a stub where the
client has the bundle of the same hash.
-/

namespace ClearYourTools.Injection.SessionLog

open Misc CytClient Pruners

variable {φ : Type}

def bundleToolsKey : Text := "tools"
def catalogEntryKind : Text := "tool_catalog"

section

variable (p : Json.PyFormat φ)

variable (tool : Record φ)

/-- `_catalog_kind_from_source` of the source of a tool. -/
def catalogKindOf : Source := (Source.ofName? (toolSource p tool .executor)).getD .executor

/-- `partition_catalog_by_source`, of one catalog. -/
def toolsOfKind (catalog : List (Record φ)) (kind : Source) : List (Record φ) :=
  catalog.filter fun tool => decide (catalogKindOf p tool = kind)

variable (kind : Source)

def toolHasCatalogName (tool : Record φ) : Bool := lookupName p kind tool != []

/-- The name of the record before the identity is stamped on it. -/
def bundleName (tool : Record φ) : Text :=
  let wireName := strippedField p tool nameKey
  let bareName := strippedField p tool toolNameKey
  if kind = .cytMcp then if wireName = [] then bareName else wireName
  else if bareName = [] then wireName else bareName

def dictField (key : Text) : Record φ :=
  match Json.get? tool key with
  | some (.obj fields) => [(key, .obj fields)]
  | _ => []

/-- `_mcpc_injection_schema_body` of a tool that has no schema. -/
def schemalessMcpcBody : Record φ := dictField tool "annotations" ++ dictField tool "execution"

def toolInputSchemaForCatalog (tool : Record φ) : Record φ :=
  match declaredInputSchema p tool with
  | some schema => schema
  | none => if kind = .mcpc then schemalessMcpcBody tool else []

/-- The tools of the catalog that have the name of the record. -/
def namesakes (catalogTools : List (Record φ)) (tool : Record φ) : List (Record φ) :=
  catalogTools.filter fun item => strippedField p item nameKey == bundleName p kind tool

/-- The schema of a record: the fullest one among the namesakes. -/
def bundleSchema (catalogTools : List (Record φ)) (tool : Record φ) : Record φ :=
  if (namesakes p kind catalogTools tool).isEmpty then toolInputSchemaForCatalog p kind tool
  else pickFullestInputSchema p (tool :: namesakes p kind catalogTools tool)

/-- The fields that a record begins with. -/
def recordHead (catalogTools : List (Record φ)) (tool : Record φ) : Record φ :=
  [(nameKey, .str (bundleName p kind tool)),
    (inputSchemaKey, .obj (bundleSchema p kind catalogTools tool))]

/-- The same with the identity of a `cyt_mcp` tool, `none` where it is incomplete. -/
def stampedHead (catalogTools : List (Record φ)) (tool : Record φ) : Option (Record φ) :=
  if kind = .cytMcp ∧ isMetaTool (bundleName p kind tool) = false then
    stampCytMcpIdentity p (recordHead p kind catalogTools tool) tool
  else some (recordHead p kind catalogTools tool)

/-- The session of an `mcpc` tool as a field, if it is not blank. -/
def sessionField (tool : Record φ) : Record φ :=
  if kind = .mcpc ∧ strippedField p tool mcpcSessionKey ≠ [] then
    [(mcpcSessionKey, .str (strippedField p tool mcpcSessionKey))]
  else []

/-- `_tool_record_core_for_catalog_bundle`, `none` where it raises. -/
def toolRecordCore (catalogTools : List (Record φ)) (tool : Record φ) : Option (Record φ) :=
  (stampedHead p kind catalogTools tool).map fun record =>
    record ++ (descriptionField p tool ++ sessionField p kind tool)

/-- The records of the tools that have a name. -/
def bundleCores (tools : List (Record φ)) : Option (List (Record φ)) :=
  (tools.filter (toolHasCatalogName p kind)).mapM (toolRecordCore p kind tools)

/-- The order of the records in the hash. -/
def recordLe (a b : Record φ) : Bool :=
  if fieldText p a mcpcSessionKey = fieldText p b mcpcSessionKey then
    Bm25Search.textLe (fieldText p a nameKey) (fieldText p b nameKey)
  else Bm25Search.textLe (fieldText p a mcpcSessionKey) (fieldText p b mcpcSessionKey)

def catalogLogKey : Text := catalogPrefix ++ kind.catalogName

def toolCatalogHashesFromPayload (payload : Record φ) : List (Text × Text) :=
  match Json.get? payload "tool_catalog_hashes" with
  | some (.obj raw) =>
    raw.foldl (fun hashes kv =>
      match kv.2 with
      | .str value =>
        if kv.1.strip = [] ∨ value.strip = [] then hashes
        else Dict.setEntries kv.1.strip value.strip hashes
      | _ => hashes) []
  | _ => []

end

section

variable (env : SessionEnv φ)

variable (kind : Source)

/-- The record of which `catalog_tool_record_content_hash` takes the hash. -/
def hashedRecord (record : Record φ) : Record φ :=
  if kind = .cytMcp ∧ strippedField env record catalogSourceKey = [] then
    Json.set record catalogSourceKey (.str Source.cytMcp.catalogName)
  else record

/-- `catalog_tool_record_content_hash`. -/
def bundleRecordHash (record : Record φ) : Text :=
  toolDefinitionContentHash env
    (if kind = .mcpc then mcpcToolDefinitionForHash env record
    else executorToolDefinitionForHash env (hashedRecord env kind record))

/-- The value of which the hash of a bundle is taken. -/
def bundlePayload (records : List (Record φ)) : Json φ :=
  .obj [(catalogKey, .str kind.catalogName), (bundleToolsKey, .arr (records.map .obj))]

/-- `_sha256_json` of a bundle. -/
def bundleHash (records : List (Record φ)) : Text :=
  env.sha256 (Json.dumps env false (sortKeys (bundlePayload kind records)))

/-- `catalog_bundle_content_hash`, of the records of the tools. -/
def catalogBundleContentHash (cores : List (Record φ)) : Text :=
  bundleHash env kind (cores.insertionSort fun a b => recordLe env a b)

def catalogLogEntry (hash : Text) (records : List (Record φ)) : Record φ :=
  [(kindKey, .str catalogEntryKind), (keyKey, .str (catalogLogKey kind)), (catalogKey,
    .str kind.catalogName), (hashKey, .str hash), (bundleToolsKey, .arr (records.map .obj))]

def buildToolCatalogLogEntry (cores : List (Record φ)) : Record φ :=
  catalogLogEntry kind (catalogBundleContentHash env kind cores)
    (cores.map fun core => core ++ [(hashKey, .str (bundleRecordHash env kind core))])

def buildToolCatalogStubEntry (hash : Text) : Record φ := catalogLogEntry kind hash []

/-- The body of the loop of `emit_tool_catalog_session_log`, `none` where it raises. -/
def emitCatalog (clientHashes : List (Text × Text)) (catalog : List (Record φ)) (kind : Source) :
    Option (List (Record φ)) :=
  let tools := toolsOfKind env catalog kind
  if tools.isEmpty then some []
  else
    (bundleCores env kind tools).map fun cores =>
      if clientHashes.lookup (catalogLogKey kind) = some (catalogBundleContentHash env kind cores)
      then [buildToolCatalogStubEntry kind (catalogBundleContentHash env kind cores)]
      else [buildToolCatalogLogEntry env kind cores]

def emitToolCatalogSessionLog (catalog : List (Record φ)) (payload : Record φ)
    (toolsInjectEnabled : Bool) : Option (List (Record φ)) :=
  (Source.order.mapM (emitCatalog env (toolCatalogHashesFromPayload payload) catalog)).map
    fun entries => buildSessionStateEntry toolsInjectEnabled none none :: entries.flatten

end

end ClearYourTools.Injection.SessionLog
