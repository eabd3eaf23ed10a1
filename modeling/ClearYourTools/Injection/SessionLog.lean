import ClearYourTools.Bm25Search.Skills
import ClearYourTools.CytClient.Sessions
import ClearYourTools.CytMcp.ToolIdentity
import ClearYourTools.Injection.Formats

/-!
# Session log index

`injection/session_log.py`: from the entries of a session log, whether an item is injected in
skinny form, in full, or not at all.
-/

/-!
## Session log entries of tools

`injection/session_log_build.py`. The schema and example lines of a fragment are parameters.
-/

namespace ClearYourTools.Injection

open Misc Bm25Search CytClient CytMcp

variable {φ : Type}

namespace Source

/-- The value of `cyt_catalog_source` for the catalog. -/
def catalogName : Source → Text
  | cytMcp => "cyt_mcp"
  | mcpc => "mcpc"
  | cloudflare => "cloudflare"
  | executor => "executor"
  | definitions => "definitions"

def ofName? (name : Text) : Option Source := order.find? fun source => source.catalogName == name

end Source

namespace SessionLog

/-- What the functions of this directory call: whether the configuration has the mcpc catalog,
`hashlib.sha256(..).hexdigest()` of a text, which has no white space, and the parts of a
fragment that come from the schema and the examples of a tool. -/
structure SessionEnv (φ : Type) extends Json.PyFormat φ where
  usesMcpcToolCatalog : Bool
  sha256 : Text → Text
  toolDetails : Record φ → List Text
  examplesBlock : Record φ → Text
  mcpcSchemaBody : Record φ → Json φ
  cliExample : Text → Text → Json φ → Text
  minimizeJsonSingleQuotes : Json φ → Text
  pickFullestInputSchema : List (Record φ) → Record φ
  skillFragment : Record φ → Text
  resourceFragment : Record φ → Text
  lawful : toFloatFormat.Lawful
  sha256_strip : ∀ t, (sha256 t).strip = sha256 t
  sha256_ne_nil : ∀ t, sha256 t ≠ []

instance : Coe (SessionEnv φ) (Json.PyFormat φ) := ⟨SessionEnv.toPyFormat⟩

def nameKey : Text := "name"
def toolNameKey : Text := "tool_name"
def mcpcSessionKey : Text := "mcpc_session"
def catalogSourceKey : Text := "cyt_catalog_source"
def descriptionKey : Text := "description"
def inputSchemaKey : Text := "input_schema"
def serverKeyKey : Text := "server_key"
def contentHashKey : Text := "content_hash"

variable (p : Json.PyFormat φ)

/-- `str(tool.get(key) or "").strip()`. -/
def strippedField (tool : Record φ) (key : Text) : Text := (fieldText p tool key).strip

def cytMcpWireName (tool : Record φ) : Text := strippedField p tool nameKey

/-- `str(tool.get("tool_name") or tool.get("name") or "").strip()`. -/
def catalogToolName (tool : Record φ) : Text :=
  (Json.strOr p tool toolNameKey (fieldText p tool nameKey)).strip

/-- `str(tool.get("cyt_catalog_source") or catalog).strip()`. -/
def toolSource (tool : Record φ) (catalog : Source) : Text :=
  (Json.strOr p tool catalogSourceKey catalog.catalogName).strip

def toolCatalogKind (env : SessionEnv φ) (tool : Record φ) : Source :=
  match Source.ofName? (strippedField env tool catalogSourceKey) with
  | some source => source
  | none => if env.usesMcpcToolCatalog then .mcpc else .executor

/-- The name by which a catalog is searched. -/
def lookupName (catalog : Source) (tool : Record φ) : Text :=
  if catalog = .cytMcp then cytMcpWireName p tool else catalogToolName p tool

/-- The test of the loop of `_full_tool_from_catalog` and `_resolve_tool_for_hash`. -/
def isOriginalOf (catalog : Source) (tool original : Record φ) : Bool :=
  let session := strippedField p tool mcpcSessionKey
  let source := toolSource p tool catalog
  let originalSource := strippedField p original catalogSourceKey
  lookupName p catalog original == lookupName p catalog tool &&
    !(source != [] && originalSource != [] && originalSource != source) &&
    !(catalog == .mcpc && session != [] && strippedField p original mcpcSessionKey != session)

/-- `_full_tool_from_catalog`, and `_resolve_tool_for_hash` which is the same loop. -/
def fullToolFromCatalog (catalogTools : List (Record φ)) (catalog : Source) (tool : Record φ) :
    Record φ :=
  (catalogTools.find? (isOriginalOf p catalog tool)).getD tool

def toolItemName (catalog : Source) (tool : Record φ) : Text :=
  if toolSource p tool catalog = Source.cytMcp.catalogName then cytMcpWireName p tool
  else catalogToolName p tool

def toolItemKey (catalog : Source) (tool : Record φ) : Text :=
  let name := toolItemName p catalog tool
  match Source.ofName? (toolSource p tool catalog) with
  | some .mcpc =>
    "tool:mcpc:" ++ strippedField p tool mcpcSessionKey ++ ':' :: name
  | some .cytMcp => "tool:cyt_mcp:" ++ name
  | some .cloudflare => "tool:cloudflare:" ++ name
  | some .definitions => "tool:definitions:" ++ name
  | some .executor | none => "tool:executor:" ++ name

def toolItemLegacyKeys (catalog : Source) (tool : Record φ) : List Text :=
  let name := toolItemName p catalog tool
  if name = [] then []
  else
    let session := strippedField p tool mcpcSessionKey
    let mcpcKey :=
      if toolSource p tool catalog = Source.mcpc.catalogName ∧ session ≠ [] then
        ["tool:".toList ++ session ++ ':' :: name]
      else []
    (mcpcKey ++ ["tool:".toList ++ name]).filter fun key =>
      decide (key ≠ toolItemKey p catalog tool)

def insertField (kv : Text × Json φ) : List (Text × Json φ) → List (Text × Json φ)
  | [] => [kv]
  | kv' :: kvs => if textLe kv.1 kv'.1 then kv :: kv' :: kvs else kv' :: insertField kv kvs

mutual

/-- A value with the keys of its objects in order, as `sort_keys` writes them. -/
def sortKeys : Json φ → Json φ
  | .arr items => .arr (sortKeysItems items)
  | .obj fields => .obj (sortKeysFields fields)
  | v => v

def sortKeysItems : List (Json φ) → List (Json φ)
  | [] => []
  | v :: vs => sortKeys v :: sortKeysItems vs

def sortKeysFields : List (Text × Json φ) → List (Text × Json φ)
  | [] => []
  | (k, v) :: kvs => insertField (k, sortKeys v) (sortKeysFields kvs)

end

def toolDefinitionContentHash (env : SessionEnv φ) (definition : Record φ) : Text :=
  env.sha256 ("v1-tool-def\x00" ++
    Json.dumps env false (sortKeys (.obj definition)))

/-- The first value that counts as true under one of the keys. -/
def firstTrue (tool : Record φ) (keys : List Text) : Option (Json φ) :=
  keys.findSome? fun key => Json.orElse p (Json.get? tool key) none

/-- `value if isinstance(value, dict) else {}`. -/
def dictOrEmpty : Option (Json φ) → Record φ
  | some (.obj fields) => fields
  | _ => []

/-- The description of a definition, if the tool has one. -/
def hashedDescription (tool : Record φ) : Record φ :=
  match Json.get? tool descriptionKey with
  | none | some .null => []
  | some v => [(descriptionKey, .str (Json.toStr p v))]

def mcpcToolDefinitionForHash (tool : Record φ) : Record φ :=
  let schema := dictOrEmpty (firstTrue p tool [inputSchemaKey, "inputSchema"])
  let session := strippedField p tool mcpcSessionKey
  let name :=
    if strippedField p tool nameKey ≠ [] then strippedField p tool nameKey
    else if session ≠ [] then session ++ '/' :: catalogToolName p tool
    else catalogToolName p tool
  [(nameKey, .str name), ("id", .str name), ("inputSchema", .obj schema)] ++
    hashedDescription p tool

def executorToolDefinitionForHash (tool : Record φ) : Record φ :=
  let schema := dictOrEmpty
    (firstTrue p tool [inputSchemaKey, "parameters", "inputSchema"])
  let name := strippedField p tool nameKey
  let hashName :=
    if strippedField p tool catalogSourceKey = Source.cytMcp.catalogName ∨ name ≠ [] then name
    else strippedField p tool toolNameKey
  [(nameKey, .str hashName), (inputSchemaKey, .obj schema)] ++ hashedDescription p tool

def originalToolDefinitionForHash (catalog : Source) (tool : Record φ) : Record φ :=
  match Json.get? tool "full_schema" with
  | some (.obj fields) => fields
  | _ =>
    if catalog = .mcpc then mcpcToolDefinitionForHash p tool
    else executorToolDefinitionForHash p tool

/-- The hash that a tool carries. -/
def explicitHash? (tool : Record φ) : Option Text :=
  match Json.get? tool contentHashKey with
  | some (.str hash) => if hash.strip = [] then none else some hash.strip
  | _ => none

def toolContentHash (env : SessionEnv φ) (catalogTools : List (Record φ)) (catalog : Source)
    (tool : Record φ) : Text :=
  match explicitHash? tool with
  | some hash => hash
  | none => toolDefinitionContentHash env (originalToolDefinitionForHash env catalog
      (fullToolFromCatalog env catalogTools catalog tool))

/-- The `static` flag of a tool. -/
def isStatic (tool : Record φ) : Bool :=
  match Json.get? tool "static" with
  | some (.bool b) => b
  | _ => false

def nameParts (tool : Record φ) : List Text :=
  ["integration".toList, "owner".toList, "connection".toList, toolNameKey].map
    (strippedField p tool)

def agentVisibleToolName (tool : Record φ) : Text :=
  if strippedField p tool nameKey = [] ∨ isStatic tool = true ∨
      fieldText p tool "integration".toList = "executor".toList ∨
      "executor.".toList.isPrefixOf (strippedField p tool nameKey) then
    strippedField p tool nameKey
  else if (nameParts p tool).contains [] then strippedField p tool nameKey
  else Text.join ['.'] (nameParts p tool)

/-- What `format_tool_item` shows of a tool. Its tier does not show. -/
def shownTool (env : SessionEnv φ) (includeDescription : Bool) (tool : Record φ) :
    InjectedTool where
  tier := .hot
  name := agentVisibleToolName env tool
  description :=
    if includeDescription then strippedField env tool descriptionKey else []
  details := env.toolDetails tool

def formatMcpcToolItem (env : SessionEnv φ) (includeDescription : Bool) (tool : Record φ) :
    Text :=
  let p := env.toPyFormat
  let name := catalogToolName p tool
  let session := strippedField p tool mcpcSessionKey
  let description := strippedField p tool descriptionKey
  if name = [] ∨ session = [] then []
  else
    let schema := env.mcpcSchemaBody tool
    let described := if includeDescription ∧ description ≠ [] then
        " description='".toList ++ xmlSingleQuotedAttr description ++ "'".toList
      else []
    let openTag := "<tool name='".toList ++ xmlSingleQuotedAttr name ++ "' title='".toList ++
      xmlSingleQuotedAttr (Json.strOr p tool "title".toList name).strip ++
      "' mcpc-session='".toList ++ xmlSingleQuotedAttr session ++ "'".toList ++ described ++
      ">".toList
    let examples := env.examplesBlock tool
    Text.joinLines ([openTag, "<cli>".toList, env.cliExample session name schema,
      "</cli>".toList, "<json-schema>".toList, env.minimizeJsonSingleQuotes schema,
      "</json-schema>".toList] ++ (if examples = [] then [] else [examples]) ++
      ["</tool>".toList])

def formatToolFragment (env : SessionEnv φ) (catalog : Source) (includeDescription : Bool)
    (tool : Record φ) : Text :=
  if catalog = .mcpc then formatMcpcToolItem env includeDescription tool
  else formatToolItem (shownTool env includeDescription tool)

/-- The replacements of `normalize_json_text`. -/
def normalizeChar (c : Char) : Text :=
  if c.toNat = 0x2018 ∨ c.toNat = 0x2019 then ['\'']
  else if c.toNat = 0x201C ∨ c.toNat = 0x201D then ['"']
  else if c.toNat = 0x2026 then ['.', '.', '.']
  else if c.toNat = 0x2014 then ['-', '-']
  else if c.toNat = 0x2013 then ['-']
  else [c]

def normalizeJsonText (value : Text) : Text := value.flatMap normalizeChar

mutual

def normalizeJsonValue : Json φ → Json φ
  | .str s => .str (normalizeJsonText s)
  | .arr items => .arr (normalizeJsonItems items)
  | .obj fields => .obj (normalizeJsonFields fields)
  | v => v

def normalizeJsonItems : List (Json φ) → List (Json φ)
  | [] => []
  | v :: vs => normalizeJsonValue v :: normalizeJsonItems vs

def normalizeJsonFields : List (Text × Json φ) → List (Text × Json φ)
  | [] => []
  | (k, v) :: kvs => (k, normalizeJsonValue v) :: normalizeJsonFields kvs

end

def isMetaTool (toolName : Text) : Bool :=
  let name := toolName.strip
  name == [] || name == "cyt-mcp_get-tool-definitions" ||
    name == "get-tool-definitions" || "_get-tool-definitions".toList.isSuffixOf name ||
    "__get-tool-definitions".toList.isSuffixOf name

/-- `_stamp_cyt_mcp_identity`, `none` where the identity is incomplete. -/
def stampCytMcpIdentity (record tool : Record φ) : Option (Record φ) :=
  let serverKey := (Json.strOr p tool serverKeyKey (fieldText p tool "mcp_server")).strip
  let toolName := strippedField p tool toolNameKey
  if serverKey = [] ∨ toolName = [] then none
  else some (Json.set (Json.set (Json.set record nameKey (.str (wireNameFor serverKey toolName)))
    serverKeyKey (.str serverKey)) toolNameKey (.str toolName))

/-- The schema that `_tool_input_schema_for_catalog` returns before it looks at the catalog. -/
def declaredInputSchema (tool : Record φ) : Option (Record φ) :=
  let inner := match Json.get? tool "full_schema" with
    | some (.obj fields) =>
      Json.orElse p (Json.get? fields inputSchemaKey) (Json.get? fields "inputSchema")
    | _ => none
  match inner with
  | some (.obj fields) => some fields
  | _ =>
    [inputSchemaKey, "inputSchema", "parameters"].findSome? fun key =>
      match Json.get? tool key with
      | some (.obj (kv :: kvs)) => some (kv :: kvs)
      | _ => none

/-- `_tool_input_schema_for_catalog` of a `cyt_mcp` tool. -/
def cytMcpInputSchema (tool : Record φ) : Record φ := (declaredInputSchema p tool).getD []

/-- The fields that every tool entry begins with. -/
def toolEntryHead (env : SessionEnv φ) (catalogTools : List (Record φ)) (catalog : Source)
    (full : Bool) (tool : Record φ) : Record φ :=
  [("kind", .str "tool"),
    ("key", .str (toolItemKey env catalog tool)),
    ("hash", .str (toolContentHash env catalogTools catalog tool)),
    ("full", .bool full), ("catalog", .str catalog.catalogName),
    (nameKey, .str (lookupName env catalog tool))]

/-- The description of an entry, if it is shown and not empty. -/
def entryDescription (env : SessionEnv φ) (includeDescription : Bool) (normalize : Text → Text)
    (tool : Record φ) : Record φ :=
  let description := strippedField env tool descriptionKey
  if includeDescription ∧ description ≠ [] then
    [(descriptionKey, .str (normalize description))]
  else []

/-- The server of an entry, without the values that are empty. -/
def entryServer : Option (List (Text × Text)) → Record φ
  | none | some [] => []
  | some server => [("server", .obj ((server.filter fun kv => !kv.2.isEmpty).map
      fun kv => (kv.1, .str kv.2)))]

/-- `build_tool_log_entry`, `none` where it raises. -/
def buildToolLogEntry (env : SessionEnv φ) (catalogTools : List (Record φ)) (catalog : Source)
    (full includeDescription : Bool) (server : Option (List (Text × Text))) (tool : Record φ) :
    Option (Record φ) :=
  let p := env.toPyFormat
  let head := toolEntryHead env catalogTools catalog full tool
  let name := lookupName p catalog tool
  match catalog with
  | .mcpc =>
    let session := strippedField p tool mcpcSessionKey
    let schema := env.mcpcSchemaBody tool
    some (head ++ [("title".toList, .str (Json.strOr p tool "title".toList name).strip),
      (mcpcSessionKey, .str session), (inputSchemaKey, schema),
      ("cli".toList, .str (env.cliExample session name schema))] ++
      entryDescription env includeDescription id tool ++ entryServer server)
  | .cytMcp =>
    let stamped := if isMetaTool name then some head else stampCytMcpIdentity p head tool
    stamped.map fun entry =>
      -- the entry's name is the stamped one
      let wireName := strippedField p entry nameKey
      let namesakes := catalogTools.filter fun item => strippedField p item nameKey == wireName
      let schema := if namesakes.isEmpty then cytMcpInputSchema p tool
        else env.pickFullestInputSchema (tool :: namesakes)
      entry ++ [(inputSchemaKey, normalizeJsonValue (.obj schema)),
        ("source", .str "hook_injection")] ++
        entryDescription env includeDescription normalizeJsonText tool
  | _ =>
    let schema := dictOrEmpty (firstTrue p tool [inputSchemaKey, "parameters"])
    some (head ++ [(inputSchemaKey, normalizeJsonValue (.obj schema))] ++
      entryDescription env includeDescription normalizeJsonText tool)

end SessionLog

end ClearYourTools.Injection

namespace ClearYourTools.Injection.SessionLog

open Misc CytClient

variable {φ : Type}

def kindKey : Text := "kind"
def keyKey : Text := "key"
def hashKey : Text := "hash"
def fullKey : Text := "full"
def catalogKey : Text := "catalog"
def toolKind : Text := "tool"
def sessionStateKind : Text := "session_state"
def injectStateKey : Text := "session_state:inject"

/-- `entry.get(key, default)` as a field of a tool, under a name of its own. -/
def copiedField (entry : Record φ) (key name : Text) (default : Json φ) : Record φ :=
  [(name, (Json.get? entry key).getD default)]

/-- A field that a tool has only if the entry has it. -/
def optionalField (entry : Record φ) (key : Text) : Record φ :=
  match Json.get? entry key with
  | some v => [(key, v)]
  | none => []

variable (p : Json.PyFormat φ)

/-- A field of the server of an entry, if it counts as true. -/
def serverField (server : Record φ) (key name : Text) : Record φ :=
  match Json.orElse p (Json.get? server key) none with
  | some v => [(name, v)]
  | none => []

/-- The text of a field, if it is not blank. -/
def textField (entry : Record φ) (key : Text) : Record φ :=
  let value := strippedField p entry key
  if value = [] then [] else [(key, .str value)]

/-- The fields of `_tool_dict_from_log_entry` that depend on the catalog of the entry. -/
def catalogFields (entry : Record φ) : Record φ :=
  let described := optionalField entry descriptionKey
  if fieldIs entry catalogKey Source.mcpc.catalogName then
    let name := (Json.get? entry nameKey).getD (.str [])
    let server := match Json.get? entry "server" with
      | some (.obj server) =>
        copiedField server nameKey "server_name" (.str []) ++
          serverField p server "instructions" "server_instructions" ++
          serverField p server descriptionKey "server_description"
      | _ => []
    [(toolNameKey, name)] ++ copiedField entry mcpcSessionKey mcpcSessionKey (.str []) ++
      copiedField entry "title" "title" name ++ described ++ server
  else if fieldIs entry catalogKey Source.cytMcp.catalogName then
    textField p entry serverKeyKey ++ textField p entry toolNameKey ++
      [(catalogSourceKey, .str Source.cytMcp.catalogName)] ++ described
  else described

def entryHash? (entry : Record φ) : Option Text :=
  match Json.get? entry hashKey with
  | some (.str hash) => if hash.strip = [] then none else some hash.strip
  | _ => none

def toolDictFromLogEntry (entry : Record φ) : Record φ :=
  copiedField entry nameKey nameKey (.str []) ++
    [(inputSchemaKey, (Json.orElse p (Json.get? entry inputSchemaKey) none).getD (.obj []))] ++
    catalogFields p entry ++
    match entryHash? entry with
    | some hash => [(contentHashKey, .str hash)]
    | none => []

def entryCatalog (entry : Record φ) : Source :=
  match Json.get? entry catalogKey with
  | some (.str name) => (Source.ofName? name).getD .executor
  | _ => .executor

def formatEntryFragment (env : SessionEnv φ) (entry : Record φ) : Text :=
  if fieldIs entry kindKey toolKind then
    formatToolFragment env (entryCatalog entry) (Json.get? entry descriptionKey).isSome
      (toolDictFromLogEntry env entry)
  else if fieldIs entry kindKey "skill" then env.skillFragment entry
  else if fieldIs entry kindKey "resource" then env.resourceFragment entry
  else []

/-- `SessionLogIndex`: the entries after the latest compaction. -/
abbrev SessionLogIndex (φ : Type) := List (Record φ)

namespace SessionLogIndex

variable (env : SessionEnv φ) (index : SessionLogIndex φ) (key : Text) (aliases : List Text)

/-- The fragments of `verbatim_corpus`. -/
def fragments : List Text :=
  ((index.map (formatEntryFragment env)).filter fun fragment => fragment.strip != []).map
    Text.strip

def verbatimCorpus : Text := Text.joinLines (fragments env index)

variable (p : Json.PyFormat φ)

/-- The entries of a key, under whatever alias. -/
def entriesOf : List (Record φ) :=
  index.filter fun entry => (key :: aliases).contains (fieldText p entry keyKey)

def countKey : ℕ := (entriesOf index key aliases p).length

def latestHash : Option Text := (entriesOf index key aliases p).reverse.findSome? entryHash?

/-- The test of the loop of `has_satisfied_full`. -/
def satisfies (currentHash : Text) (entry : Record φ) : Bool :=
  (match Json.get? entry fullKey with
    | some full => Json.truthy p full
    | none => false) &&
  match Json.get? entry hashKey with
  | some (.str hash) => hash.strip == currentHash
  | _ => false

def hasSatisfiedFull (currentHash : Text) : Bool :=
  (entriesOf index key aliases p).any (satisfies p currentHash)

def hookInvocationCount : ℕ :=
  (index.filter fun entry => fieldIs entry kindKey sessionStateKind &&
    fieldText p entry keyKey == injectStateKey).length

end SessionLogIndex

inductive InjectionMode where
  | skip
  | skinny
  | full
deriving DecidableEq

def fullPromotionThreshold : ℕ := 3

def isPreExposed (fragment sessionText : Text) : Bool :=
  fragment.strip != [] && sessionText.strip != [] && decide (fragment <:+: sessionText)

/-- The text in which `resolve_injection_mode` looks for fragments. -/
def combinedText (sessionText corpus : Text) : Text :=
  if corpus.strip = [] then sessionText
  else if sessionText.strip = [] then corpus
  else sessionText ++ '\n' :: corpus

def resolveInjectionMode (env : SessionEnv φ) (key : Text) (currentHash : Text)
    (index : SessionLogIndex φ) (sessionText formattedSkinny formattedFull : Text)
    (aliases : List Text) : InjectionMode :=
  let p := env.toPyFormat
  let combined := combinedText sessionText (index.verbatimCorpus env)
  let latest := index.latestHash key aliases p
  let count := index.countKey key aliases p
  let invocation := index.hookInvocationCount p + 1
  let logged := 1 ≤ count ∧ latest = some currentHash
  if index.hasSatisfiedFull key aliases p currentHash then .skip
  else if invocation = fullPromotionThreshold + 1 ∧ logged then .full
  else if fullPromotionThreshold + 1 < invocation ∧ logged then .skip
  else if isPreExposed formattedSkinny combined ∨ isPreExposed formattedFull combined then .skip
  else if latest.isSome ∧ latest ≠ some currentHash then .full
  else if fullPromotionThreshold ≤ count then .full
  else if logged then .skip
  else .skinny

/-! ## The session gate: `injection/session_gate.py` -/

/-- What `gate_tools_for_session` is called with, besides the tools. -/
structure GateCall (φ : Type) where
  sessionText : Text
  index : SessionLogIndex φ
  catalogTools : List (Record φ)
  includeToolDescription : Bool
  serverContext : Text → Text → Option (List (Text × Text))

/-- What the loop of `gate_tools_for_session` has built. -/
structure GateState (φ : Type) where
  kept : List (Record φ)
  logEntries : List (Record φ)
  fullFlags : Dict Text Bool

namespace GateState

def start : GateState φ := ⟨[], [], Dict.empty⟩

end GateState

/-- The key by which the gate knows a tool. -/
def gateKey (env : SessionEnv φ) (tool : Record φ) : Text :=
  toolItemKey env (toolCatalogKind env tool) tool

/-- The aliases by which the gate looks a tool up. -/
def gateAliases (env : SessionEnv φ) (tool : Record φ) : List Text :=
  toolItemLegacyKeys env (toolCatalogKind env tool) tool

/-- The form of a tool that is injected in full. -/
def fullSource (env : SessionEnv φ) (catalogTools : List (Record φ)) (tool : Record φ) :
    Record φ :=
  fullToolFromCatalog env catalogTools (toolCatalogKind env tool) tool

/-- The hash that the gate compares with the log. -/
def gateHash (env : SessionEnv φ) (catalogTools : List (Record φ)) (tool : Record φ) : Text :=
  toolContentHash env catalogTools (toolCatalogKind env tool) (fullSource env catalogTools tool)

namespace GateCall

variable (env : SessionEnv φ) (call : GateCall φ)

variable (tool : Record φ)

def skinnyFragment : Text :=
  formatToolFragment env (toolCatalogKind env tool) call.includeToolDescription tool

def fullFragment : Text :=
  formatToolFragment env (toolCatalogKind env tool) call.includeToolDescription
    (fullSource env call.catalogTools tool)

def mode : InjectionMode :=
  resolveInjectionMode env (gateKey env tool) (gateHash env call.catalogTools tool) call.index
    call.sessionText (call.skinnyFragment env tool) (call.fullFragment env tool)
    (gateAliases env tool)

variable (full : Bool)

/-- The form of a tool that is injected. -/
def injectTool (tool : Record φ) : Record φ :=
  if full then fullSource env call.catalogTools tool else tool

/-- The entry of an injected tool. -/
def entry (tool : Record φ) : Option (Record φ) :=
  let catalog := toolCatalogKind env tool
  let injected := call.injectTool env full tool
  let server := if catalog = .mcpc then
      call.serverContext (strippedField env injected mcpcSessionKey) (catalogToolName env injected)
    else none
  buildToolLogEntry env call.catalogTools catalog full call.includeToolDescription server injected

/-- A turn of the loop that injects a tool, `none` where it raises. -/
def inject (state : GateState φ) (tool : Record φ) : Option (GateState φ) :=
  (call.entry env full tool).map fun entry =>
    { kept := state.kept ++ [call.injectTool env full tool]
      logEntries := state.logEntries ++ [entry]
      fullFlags := state.fullFlags.set (gateKey env tool) full }

/-- The body of the loop of `gate_tools_for_session`. -/
def gateTool (state : GateState φ) (tool : Record φ) : Option (GateState φ) :=
  match call.mode env tool with
  | .skip => some state
  | .skinny => call.inject env false state tool
  | .full => call.inject env true state tool

/-- `gate_tools_for_session`, `none` where it raises. -/
def gateToolsForSession (tools : List (Record φ)) : Option (GateState φ) :=
  tools.foldlM (call.gateTool env) GateState.start

end GateCall

/-- A flag of a session state, if it is given. -/
def flagField (name : Text) : Option Bool → Record φ
  | some b => [(name, .bool b)]
  | none => []

/-- The way of injection of a session state, if it is one of the two. -/
def injectViaField : Option Text → Record φ
  | some via =>
    if via = "hook" ∨ via = "proxy" then [("inject_via", .str via)] else []
  | none => []

def buildSessionStateEntry (toolsInjectEnabled : Bool) (hallucinationGateEnabled : Option Bool)
    (injectVia : Option Text) : Record φ :=
  [(kindKey, .str sessionStateKind), (keyKey, .str injectStateKey),
    ("tools_inject_enabled", .bool toolsInjectEnabled)] ++
    flagField "hallucination_gate_enabled" hallucinationGateEnabled ++
    injectViaField injectVia

/-- A prompt of a session: the tools that it gates, and what the gate and the client are called
with. -/
structure Prompt (φ : Type) where
  tools : List (Record φ)
  sessionText : Text
  catalogTools : List (Record φ)
  includeToolDescription : Bool
  serverContext : Text → Text → Option (List (Text × Text))
  toolsInjectEnabled : Bool
  hallucinationGateEnabled : Option Bool
  injectVia : Option Text
  agent : Option Text

namespace Prompt

variable (env : SessionEnv φ) (prompt : Prompt φ)

variable (log : Option Text)

/-- The call of the gate in the prompt, with the index of the log. -/
def call : GateCall φ where
  sessionText := prompt.sessionText
  index := readSessionLog env log true
  catalogTools := prompt.catalogTools
  includeToolDescription := prompt.includeToolDescription
  serverContext := prompt.serverContext

def stateEntry : Record φ :=
  buildSessionStateEntry prompt.toolsInjectEnabled prompt.hallucinationGateEnabled
    prompt.injectVia

/-- The log after the client has appended the entries of the prompt. -/
def appendEntries (entries : List (Record φ)) : Option Text :=
  appendSessionLog env
    (appendToolEntries env log entries prompt.agent) [prompt.stateEntry] prompt.agent

/-- One prompt: what the gate gives, and the log afterwards. -/
def run : Option (GateState φ × Option Text) :=
  ((prompt.call env log).gateToolsForSession env prompt.tools).map fun state =>
    (state, prompt.appendEntries env log state.logEntries)

end Prompt

/-- A prompt that a session has run: the log before it, and what the gate gave. -/
structure Step (φ : Type) where
  log : Option Text
  prompt : Prompt φ
  state : GateState φ

/-- The prompts of a session, one after the other, over its log. -/
def runSession (env : SessionEnv φ) : Option Text → List (Prompt φ) → Option (List (Step φ))
  | _, [] => some []
  | log, prompt :: prompts =>
    match prompt.run env log with
    | none => none
    | some (state, log') =>
      (runSession env log' prompts).map fun steps => ⟨log, prompt, state⟩ :: steps

end ClearYourTools.Injection.SessionLog
