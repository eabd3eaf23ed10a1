import Mathlib.Data.List.Sort
import ClearYourTools.CytClient.ToolGate
import ClearYourTools.Injection.PreExposure

/-!
# The answer to a tool call

`_handle_pre_tool` and the end of `main` of `cyt_client/cli.py`, with the messages of denials of
`cyt_client/tool_gate.py`. The feedback on an allowed call is left out, and so is what the hook
writes to the standard error.
-/

/-!
## The exposure of a denial

`cyt_client/session_pre_tool_exposure.py`, `cyt_client/catalog_hash.py`.
-/

namespace ClearYourTools.CytClient

open Misc
open Injection (Source)
open Injection.SessionLog (SessionEnv PreExposureContext nameKey toolNameKey mcpcSessionKey
  catalogSourceKey descriptionKey inputSchemaKey serverKeyKey keyKey hashKey isMetaTool)
open Json (get?)

variable {φ : Type}

/-- The exceptions that reach a caller. -/
inductive HookException
  | osError
  | valueError (message : Text)
  | indexError
deriving DecidableEq

/-- What the hook reads besides the payload and the log: the schema validator, the text of the
transcript that the payload names (`_hook_transcript_text`), `repr` of a text and of a list of
texts, and the last part of a path. -/
structure HookEnv (φ : Type) extends SessionEnv φ where
  validate : SchemaValidator φ
  isAlnum : Char → Bool
  hookTranscriptText : Record φ → Text
  textRepr : Text → Text
  textsRepr : List Text → Text
  pathName : Text → Text

instance : Coe (HookEnv φ) (SessionEnv φ) := ⟨HookEnv.toSessionEnv⟩

section

variable (p : Json.PyFormat φ)

variable (record : Record φ)

/-- `str(description).strip()` of a description that is not `None`. -/
def strippedDescription : Text :=
  match get? record descriptionKey with
  | none | some .null => []
  | some v => (Json.toStr p v).strip

/-- The description as a field, if it is not blank. -/
def descriptionField : Record φ :=
  if strippedDescription p record = [] then []
  else [(descriptionKey, .str (strippedDescription p record))]

/-- `tool_record.get("input_schema") or {}`. -/
def schemaValue : Json φ := (Json.orElse p (get? record inputSchemaKey) none).getD (.obj [])

/-- The same, if it is a dictionary. -/
def schemaFields : Record φ := (dict? (get? record inputSchemaKey)).getD []

/-- `str(record.get(key) or "").strip()`. -/
def strippedText (key : Text) : Text := (fieldText p record key).strip

/-- `str(mcpc_session or tool_record.get("mcpc_session") or "").strip()`. -/
def sessionText (mcpcSession : Option Text) (record : Record φ) : Text :=
  match mcpcSession with
  | some (c :: session) => Text.strip (c :: session)
  | _ => strippedText p record mcpcSessionKey

def cytMcpOrExecutorDefinition : Record φ :=
  [(nameKey, .str (strippedText p record nameKey)), (inputSchemaKey, .obj (schemaFields record))] ++
    descriptionField p record

def mcpcDefinition : Record φ :=
  let session := strippedText p record mcpcSessionKey
  let toolName := strippedText p record toolNameKey
  let name :=
    if strippedText p record nameKey ≠ [] then strippedText p record nameKey
    else if session ≠ [] then session ++ '/' :: toolName else toolName
  [(nameKey, .str name), ("id", .str name),
    ("inputSchema", .obj (schemaFields record))] ++ descriptionField p record

end

def catalogToolRecordContentHash (env : SessionEnv φ) (catalog : Text) (record : Record φ) : Text :=
  Injection.SessionLog.toolDefinitionContentHash env
    (if catalog = mcpcCatalog then mcpcDefinition env record
    else cytMcpOrExecutorDefinition env record)

def toolItemKeyFor (catalog toolName session : Text) : Text :=
  if catalog = mcpcCatalog then "tool:mcpc:" ++ session ++ ':' :: toolName
  else if catalog = cytMcpCatalog then "tool:cyt_mcp:" ++ toolName
  else if catalog = definitionsCatalog then "tool:definitions:" ++ toolName
  else "tool:executor:" ++ toolName

def preToolDenySource : Text := "cyt-client_pre-tool-deny"

/-- The error of a record of the `cyt_mcp` catalog without a server or a name of its own. -/
def missingIdentityMessage (env : HookEnv φ) (name : Text) : Text :=
  "cyt_mcp Type-1 catalog tool " ++ env.textRepr name ++
    " missing explicit server_key/tool_name mapping"

section

variable (env : HookEnv φ)

variable (record : Record φ)

/-- The hash of the definition of a record. -/
def definitionHash (catalog : Text) (mcpcSession : Option Text) : Text :=
  let p := env.toPyFormat
  let hasSession := mcpcSession.getD [] != [] ||
    (Json.orElse p (get? record mcpcSessionKey) none).isSome
  catalogToolRecordContentHash env catalog
    ([(nameKey, .str (strippedText p record nameKey)),
      (inputSchemaKey, .obj (schemaFields record))] ++ descriptionField p record ++
      bif catalog == mcpcCatalog && hasSession then
        [(mcpcSessionKey, .str (sessionText p mcpcSession record))]
      else [])

/-- The hash of an entry: the one that the record has, or the one of its definition. -/
def recordHash (catalog : Text) (mcpcSession : Option Text) : Text :=
  match get? record hashKey with
  | some (.str hash) =>
    if hash.strip = [] then definitionHash env record catalog mcpcSession else hash.strip
  | _ => definitionHash env record catalog mcpcSession

/-- The fields that an entry begins with. -/
def denyEntryHead (catalog : Text) (mcpcSession : Option Text) (full : Bool) (key name : Text) :
    Record φ :=
  [("kind", .str "tool"), (keyKey, .str key),
    (hashKey, .str (recordHash env record catalog mcpcSession)), ("full", .bool full),
    ("catalog", .str catalog), (nameKey, .str name)]

/-- `str(tool_record.get("server_key") or tool_record.get("mcp_server") or "").strip()`. -/
def recordServerKey : Text :=
  (Json.strOr env record serverKeyKey
    (fieldText env record "mcp_server")).strip

/-- `str(tool_record.get("tool_name") or "").strip()`. -/
def recordToolName : Text := strippedText env record toolNameKey

def buildType1ToolEntryFromCatalogRecord (catalog : Text) (mcpcSession : Option Text) (full : Bool) :
    Except HookException (Record φ) :=
  let p := env.toPyFormat
  let name := strippedText p record nameKey
  let schema := (inputSchemaKey, Json.obj (schemaFields record))
  let source := ("source".toList, Json.str preToolDenySource)
  let described := descriptionField p record
  if catalog = mcpcCatalog then
    let session := sessionText p mcpcSession record
    .ok (denyEntryHead env record catalog mcpcSession full (toolItemKeyFor catalog name session)
      name ++ [(mcpcSessionKey, .str session), schema, source] ++ described ++
      [("title".toList, .str name)])
  else if catalog = cytMcpCatalog ∧ isMetaTool name = false then
    let serverKey := recordServerKey env record
    let bareName := recordToolName env record
    if serverKey = [] ∨ bareName = [] then .error (.valueError (missingIdentityMessage env name))
    else
      let wireName := CytMcp.wireNameFor serverKey bareName
      .ok (denyEntryHead env record catalog mcpcSession full (toolItemKeyFor catalog wireName [])
        wireName ++ [schema, source, (serverKeyKey, .str serverKey), (toolNameKey, .str bareName)] ++
        described)
  else
    .ok (denyEntryHead env record catalog mcpcSession full (toolItemKeyFor catalog name []) name ++
      [schema, source] ++ described)

def getToolDefinitionsDescription : Text :=
  ("Returns the full MCP tool definition for a cyt-mcp backend tool by name. " ++
    "Use when hook-injected stubs lack properties or metadata you need. " ++
    "The tool_name argument must be one of the backend tools exposed by this server.").toList

def minimalGetToolDefinitionsRecord : Record φ :=
  let toolName : Json φ := .obj [("type", .str "string"),
    (descriptionKey, .str "Backend cyt-mcp tool name to look up.")]
  [(nameKey, .str getToolDefinitionsTool),
    (inputSchemaKey, .obj [("type", .str "object"),
      ("properties", .obj [(toolNameKey, toolName)]),
      ("required", .arr [.str toolNameKey]), ("additionalProperties", .bool false)]),
    (descriptionKey, .str getToolDefinitionsDescription)]

/-- The record of `build_get_tool_definitions_type1_entry`. -/
def getToolDefinitionsRecord (catalogs : Catalogs φ) : Record φ :=
  match findToolInCatalog env catalogs cytMcpCatalog getToolDefinitionsTool none with
  | none => minimalGetToolDefinitionsRecord
  | some record =>
    match get? record descriptionKey with
    | none | some .null => record
    | some v => Json.set record descriptionKey (.str (Json.toStr env v))

def buildGetToolDefinitionsType1Entry (catalogs : Catalogs φ) (full : Bool) :
    Except HookException (Record φ) :=
  buildType1ToolEntryFromCatalogRecord env (getToolDefinitionsRecord env catalogs) cytMcpCatalog
    none full

/-- `_deny_definition_record`, and `_tool_definition_record` of the gate, which is the same code. -/
def denyDefinitionRecord (catalog : Text) (mcpcSession : Option Text) : Record φ :=
  let session := Json.orElse env (mcpcSession.map .str)
    (Json.orElse env (get? record mcpcSessionKey) none)
  [(nameKey, (get? record nameKey).getD .null),
    (inputSchemaKey, schemaValue env record)] ++ descriptionField env record ++
    match session with
    | some session => if catalog = mcpcCatalog then [(mcpcSessionKey, session)] else []
    | none => []

/-- The definition, under a name if it has none. -/
def namedDefinition (catalog : Text) (mcpcSession : Option Text) (name : Text) : Record φ :=
  let definition := denyDefinitionRecord env record catalog mcpcSession
  match Json.orElse env (get? definition nameKey) none with
  | some _ => definition
  | none => Json.set definition nameKey (.str name)

def minimizedJson (definition : Record φ) : Text := Json.dumps env false (.obj definition)

/-- A text as a field, if it is not empty. -/
def nonemptyText (key text : Text) : Record φ := if text = [] then [] else [(key, .str text)]

def masterToolForPreExposure (catalog : Text) (mcpcSession : Option Text) : Record φ :=
  let p := env.toPyFormat
  let name := strippedText p record nameKey
  [(nameKey, .str name), (inputSchemaKey, schemaValue p record), (catalogSourceKey,
    .str catalog)] ++ descriptionField p record ++ (if catalog = cytMcpCatalog then
      nonemptyText serverKeyKey (strippedText p record serverKeyKey) ++
        nonemptyText toolNameKey (strippedText p record toolNameKey)
    else [(toolNameKey, .str name)]) ++
    if catalog = mcpcCatalog then nonemptyText mcpcSessionKey (sessionText p mcpcSession record)
    else []

variable (payload : Record φ)

def hookSessionEntries (log : Option Text) : List (Record φ) :=
  match log with
  | some _ => (readSessionLogFile env log).2
  | none =>
    match get? payload "cyt_session_log" with
    | some (.arr items) => (items.filterMap fun item => dict? (some item)).filter fun item =>
        !isMeta item
    | _ => []

/-- `_post_compaction_turn_corpus`, of the entries after the compaction. -/
def turnCorpus (entries : List (Record φ)) : Text :=
  Text.joinLines (((entries.filter fun entry => fieldIs entry "kind".toList "turn".toList).flatMap
    fun entry => ["prompt".toList, "assistant".toList].map (strippedText env entry)).filter
      fun part => part != [])

/-- `"\n".join(part for part in parts if part.strip())`. -/
def joinNonBlank (parts : List Text) : Text :=
  Text.joinLines (parts.filter fun part => part.strip != [])

/-- `PreExposureContext.for_hook_payload`. -/
def preExposureContext (log : Option Text) : PreExposureContext φ :=
  let entries := hookSessionEntries env payload log
  let index := entriesAfterLatestCompaction entries
  let hadCompaction := entries.any fun entry => fieldIs entry "kind" "compaction"
  let prompt := ((payloadLayers payload).findSome? fun layer => nonBlank layer "prompt")
  let transcript := bif hadCompaction then [] else env.hookTranscriptText payload
  let payloadText := joinNonBlank [prompt.getD [], turnCorpus env index, transcript]
  { payloadText
    index
    combinedText := joinNonBlank
      [payloadText, Injection.SessionLog.SessionLogIndex.verbatimCorpus env index,
        turnCorpus env index] }

def isToolDefinitionPreExposedForDeny (log : Option Text) (catalog : Text) (record : Record φ)
    (mcpcSession : Option Text) : Bool :=
  let ctx := preExposureContext env payload log
  let kind := (Source.ofName? catalog).getD .executor
  let master := masterToolForPreExposure env record catalog mcpcSession
  let fragment := Injection.SessionLog.formatToolFragment env kind true master
  let mode := Injection.SessionLog.resolveInjectionMode env
    (Injection.SessionLog.toolItemKey env kind master)
    (Injection.SessionLog.toolContentHash env [] kind master) ctx.index
    ctx.payloadText fragment fragment
    (Injection.SessionLog.toolItemLegacyKeys env kind master)
  let json := minimizedJson env (namedDefinition env record catalog mcpcSession
    (strippedText env record nameKey))
  -- the line "Correct tool definition: ..." contains the definition
  decide (mode = .skip) || [ctx.payloadText, ctx.combinedText].any fun text =>
    decide (json <:+: text)

/-- The session log of a payload: whether the payload names one, the text of its file, and whether
the file can be read and written. -/
structure SessionLogFile where
  hasPath : Bool
  text : Option Text
  readable : Bool
  writable : Bool

def toolRecordFromSessionCatalog (exposure : PreToolDenyExposure φ) (catalogs : Catalogs φ) :
    Option (Record φ) :=
  (findToolInCatalog env catalogs exposure.catalog exposure.toolName
    exposure.mcpcSession).or exposure.toolRecord

/-- The test of the loop of `_session_has_full_tool`. -/
def isFullToolEntry (key contentHash : Text) (entry : Record φ) : Bool :=
  let p := env.toPyFormat
  fieldText p entry "kind" == "tool" && fieldText p entry keyKey == key &&
    (Json.orElse p (get? entry "full") none).isSome &&
    fieldText p entry hashKey == contentHash

/-- The end of `persist_pre_tool_deny_exposure`: whether the entry is appended, and the log then. -/
def appendDenyEntry (log : SessionLogFile) (agent : Option Text) (entry : Record φ) :
    Except HookException (Bool × Option Text) :=
  let p := env.toPyFormat
  if (readSessionLog p log.text true).any
      (isFullToolEntry env (fieldText p entry keyKey) (fieldText p entry hashKey)) then
    .ok (false, log.text)
  else if log.writable then
    .ok (true, appendSessionLog p log.text [entry] agent)
  else .error .osError

def persistPreToolDenyExposure (log : SessionLogFile) (agent : Option Text)
    (exposure : Option (PreToolDenyExposure φ)) : Except HookException (Bool × Option Text) :=
  match exposure with
  | none => .ok (false, log.text)
  | some exposure =>
    if log.hasPath = false then .ok (false, log.text)
    else if log.readable = false then .error .osError
    else
      let catalogs := readLatestToolCatalogs env log.text
      match exposure.persist with
      | .getToolDefinitions =>
        (buildGetToolDefinitionsType1Entry env catalogs true).bind (appendDenyEntry env log agent)
      | .catalogTool =>
        match toolRecordFromSessionCatalog env exposure catalogs with
        | none => .ok (false, log.text)
        | some record =>
          if isToolDefinitionPreExposedForDeny env payload log.text exposure.catalog record
              exposure.mcpcSession then .ok (false, log.text)
          else
            (buildType1ToolEntryFromCatalogRecord env record exposure.catalog exposure.mcpcSession
              true).bind (appendDenyEntry env log agent)

end

open Injection.SessionLog (nameKey inputSchemaKey)

variable {φ : Type} (env : HookEnv φ)

variable (reason : Text)

def isUnknownToolReason : Bool :=
  decide ("not in" <:+: reason) && decide ("Type-2 catalog" <:+: reason)

def catalogToolNames (catalogs : Catalogs φ) (catalog : Text) (mcpcSession : Option Text) :
    List Text :=
  let ofSession (tool : Record φ) : Bool :=
    let own := strippedText env tool Injection.SessionLog.mcpcSessionKey
    let session := mcpcSession.getD []
    !(catalog == mcpcCatalog && !session.isEmpty && !own.isEmpty && own != session)
  let names := ((catalogTools catalogs catalog).filter ofSession).map fun tool =>
    strippedText env tool nameKey
  ((names.filter fun name => name != []).eraseDups).insertionSort fun a b =>
    Bm25Search.textLe a b = true

def formatAvailableTools (names : List Text) : Text :=
  if names = [] then "Available tools:\n(none)"
  else "Available tools:\n" ++ Text.joinLines (names.map ("- " ++ ·))

variable (toolName : Text)

def toolDenyHeader (requestedToolName : Option Text) : Text :=
  let stripped := Text.strip (requestedToolName.getD [])
  let requested := if stripped = [] then toolName else stripped
  if requested = toolName then "Tool " ++ env.textRepr toolName
  else "Tool " ++ env.textRepr requested ++ " (catalog name " ++
    env.textRepr toolName ++ [')']

/-- A message of a schema mismatch, with the definition unless it is omitted. -/
def withDefinition (base : Text) (tool : Record φ) (catalog toolName : Text)
    (mcpcSession : Option Text) (omitDefinition : Bool) : Text :=
  bif omitDefinition then base
  else base ++ "\n\nCorrect tool definition: " ++
    minimizedJson env (namedDefinition env tool catalog mcpcSession toolName)

def denyUnknownCytMcp (toolName reason : Text) (catalogs : Catalogs φ)
    (omitGetToolDefinitionsHint : Bool) : Text :=
  let base := "Hallucinated cyt-mcp tool call for " ++ env.textRepr toolName ++
    ": " ++ reason ++ "\n\n" ++
    formatAvailableTools (catalogToolNames env catalogs cytMcpCatalog none)
  bif omitGetToolDefinitionsHint then base
  else base ++ "\n\nUse MCP tool `get-tool-definitions` with arguments:\n" ++
    minimizedJson env [("tool_name", .str toolName)]

def denyMessageCytMcp (tool : Record φ) (schemaError : Text) (catalogs : Catalogs φ)
    (requestedToolName : Option Text) (omitHint omitDefinition : Bool) : Text :=
  let header := toolDenyHeader env toolName requestedToolName
  if isUnknownToolReason schemaError then
    let told := "Hallucinated cyt-mcp tool call for " ++ env.textRepr toolName ++ [':']
    let requested := requestedToolName.getD []
    let subject := if requested = [] ∨ requested = toolName then [':']
      else " for " ++ env.textRepr toolName ++ [':']
    Injection.replaceFirst told (header ++ ": hallucinated cyt-mcp tool call" ++ subject)
      (denyUnknownCytMcp env toolName schemaError catalogs omitHint)
  else
    withDefinition env (header ++ ": invalid cyt-mcp tool arguments: " ++ schemaError) tool
      cytMcpCatalog toolName none omitDefinition

def denyMessageMcpc (session toolName : Text) (tool : Record φ) (schemaError : Text)
    (catalogs : Catalogs φ) (omitDefinition : Bool) : Text :=
  let call := session ++ " tools-call " ++ env.textRepr toolName ++ ": " ++
    schemaError
  if isUnknownToolReason schemaError then
    "Hallucinated mcpc Shell call for " ++ call ++ "\n\n" ++
      formatAvailableTools (catalogToolNames env catalogs mcpcCatalog (some session)) ++
      ("\n\nFix the Shell command to use a tool from the mcpc Type-2 catalog for this " ++
        "session.").toList
  else
    withDefinition env ("Invalid mcpc Shell arguments for " ++ call) tool mcpcCatalog
      toolName (some session) omitDefinition

def denyMessageDefinitions (tool : Record φ) (schemaError : Text) (catalogs : Catalogs φ)
    (omitDefinition : Bool) : Text :=
  let call := env.textRepr toolName ++ ": " ++ schemaError
  if isUnknownToolReason schemaError then
    "Hallucinated definitions tool call for " ++ call ++ "\n\n" ++
      formatAvailableTools (catalogToolNames env catalogs definitionsCatalog none) ++
      "\n\nUse a tool name from the definitions Type-2 catalog."
  else
    withDefinition env ("Invalid definitions tool arguments for " ++ call) tool
      definitionsCatalog toolName none omitDefinition

def workspaceRootsFromPayload (payload : Record φ) : List Text :=
  (payloadLayers payload).flatMap fun layer =>
    match get? layer "workspace_roots" with
    | some (.arr items) => (items.filterMap Json.str?).filterMap fun item =>
        if item.strip = [] then none else some item.strip
    | _ => []

/-- What `_schema_fixup_hint` says of required properties. -/
def missingHint (args : Record φ) (required : List (Json φ)) (payload : Record φ) : List Text :=
  match workspaceRootsFromPayload payload with
  | [] => []
  | primaryRoot :: _ =>
    let name := env.pathName primaryRoot
    let projectDefault := if name = [] then primaryRoot else name
    let missing := ([("repo".toList, primaryRoot), ("project".toList, projectDefault)].filter
      fun item => (required.filterMap Json.str?).contains item.1 &&
        (get? args item.1).isNone).map fun item => item.1 ++ '=' :: env.textRepr item.2
    if missing = [] then []
    else ["Missing required: ".toList ++ Text.join ", ".toList missing]

def schemaFixupHint (args schema payload : Record φ) : Text :=
  match get? schema "properties" with
  | some (.obj properties) =>
    let missing :=
      match get? schema "required" with
      | some (.arr required) => missingHint env args required payload
      | _ => []
    let isClosed :=
      match get? schema "additionalProperties" with
      | none | some (.bool false) => true
      | _ => false
    let unknown := (args.map Prod.fst).filter fun key =>
      (get? properties key).isNone && isClosed
    let allowed := (properties.map Prod.fst).insertionSort fun a b => Bm25Search.textLe a b = true
    let unknownHint :=
      if unknown = [] then []
      else ["Use backend property names exactly as listed in input_schema (unknown: ".toList ++
        env.textsRepr unknown ++ "; allowed: " ++ env.textsRepr allowed ++ [')']]
    Text.joinLines (missing ++ unknownHint)
  | _ => []

/-- The reason of a denial for a tool that its catalog has not. -/
def notInCatalog (catalog : Text) : Text := "tool not in " ++ catalog ++ " Type-2 catalog"

/-- The record of a tool that its catalog has not. -/
def unlistedRecord : Record φ := [(nameKey, .str toolName), (inputSchemaKey, .obj [])]

def schemaMismatchText (payload : Record φ) (args : Record φ) (log : Option Text)
    (catalog toolName reason : Text) (tool : Record φ) (mcpcSession : Option Text)
    (hallucinationOn : Bool) : Text :=
  let omitDefinition := isToolDefinitionPreExposedForDeny env payload log catalog tool mcpcSession
  if catalog = mcpcCatalog then
    denyMessageMcpc env (mcpcSession.getD []) toolName tool reason [] omitDefinition
  else
    let fixup := schemaFixupHint env args (inputSchema tool) payload
    let reason := if fixup = [] then reason else reason ++ "\n\n" ++ fixup
    if catalog = cytMcpCatalog then
      denyMessageCytMcp env toolName tool reason [] (some toolName) hallucinationOn omitDefinition
    else denyMessageDefinitions env toolName tool reason [] omitDefinition

/-- `validation.reason` of a denial. -/
def reasonText (context : GateContext φ) (payload : Record φ) (args : Record φ)
    (log : Option Text) (exposure : Option (PreToolDenyExposure φ)) : DenyReason → Text
  | .toolNameRequired => "tool_name is required"
  | .unknownTool catalog toolName =>
    if catalog = cytMcpCatalog then
      denyMessageCytMcp env toolName (unlistedRecord toolName) (notInCatalog catalog)
        context.catalogs none context.hallucinationOn false
    else denyMessageDefinitions env toolName (unlistedRecord toolName) (notInCatalog catalog)
      context.catalogs false
  | .unknownMcpcTool session toolName =>
    denyMessageMcpc env session toolName (unlistedRecord toolName)
      (notInCatalog mcpcCatalog ++ " for this session") context.catalogs false
  | .schemaMismatch catalog toolName reason =>
    schemaMismatchText env payload args log catalog toolName reason
      ((exposure.bind PreToolDenyExposure.toolRecord).getD [])
      (exposure.bind PreToolDenyExposure.mcpcSession) context.hallucinationOn

/-- What the hook prints, and its exit code. -/
structure HookOutput (φ : Type) where
  document : Json φ
  exitCode : ℕ

/-- What the hook is called with: `agent` is `infer_harness_agent(payload)`, `launchAgent` the
stripped `CYT_LAUNCH_AGENT`, and `intercepted` the output of the read interceptor, if it handles the
payload. -/
structure HookCall (φ : Type) where
  payload : Record φ
  log : SessionLogFile
  agent : Option Text
  launchAgent : Text
  configOn : Bool
  cursorOutput : Bool
  intercepted : Option (HookOutput φ)

def permissionField (verdict : Text) : Text × Json φ := ("permission", .str verdict)

def permissionDecisionField (verdict : Text) : Text × Json φ := ("permissionDecision", .str verdict)

def hookSpecificOutput (fields : Record φ) : Json φ :=
  .obj [("hookSpecificOutput", .obj fields)]

def formatPreToolAllow : Json φ := .obj [permissionField "allow"]

def formatCodexPreToolAllow : Json φ := .obj [permissionDecisionField "allow"]

def formatCursorDeny : Json φ :=
  .obj [permissionField "deny", ("user_message", .str reason)]

def formatCodexDeny : Json φ :=
  .obj [permissionDecisionField "deny", ("permissionDecisionReason", .str reason)]

def formatClaudeDeny : Json φ :=
  hookSpecificOutput [permissionDecisionField "deny", ("reason", .str reason)]

namespace HookCall

variable (call : HookCall φ)

/-- `infer_harness_agent(payload) or os.environ.get("CYT_LAUNCH_AGENT", "").strip()`. -/
def harness : Text :=
  match call.agent with
  | some (c :: agent) => c :: agent
  | _ => call.launchAgent

/-- `validate_pre_tool_call`. -/
def validation : PreToolValidation φ :=
  validatePreToolCall env env.validate env.isAlnum call.agent call.configOn
    call.log.text call.payload

/-- The arguments that the gate has checked. -/
def checkedArgs : Record φ := (extractToolCall env call.payload call.agent).2.getD []

def allowOutput : HookOutput φ :=
  let agent := if call.harness = [] then "cursor".toList else call.harness
  if call.cursorOutput = true ∨ agent = "cursor" then ⟨formatPreToolAllow, 0⟩
  else if agent = "codex" then ⟨formatCodexPreToolAllow, 0⟩
  else ⟨hookSpecificOutput [permissionDecisionField "allow"], 0⟩

/-- The output of a denied call. -/
def denyOutput (reason : Text) : HookOutput φ :=
  if call.cursorOutput = true ∨ call.harness = "cursor" then ⟨formatCursorDeny reason, 2⟩
  else if call.harness = "codex" then ⟨formatCodexDeny reason, 2⟩
  else ⟨formatClaudeDeny reason, 2⟩

/-- `persist_pre_tool_deny_exposure` under the handler for an `OSError`. -/
def persistExposure (exposure : Option (PreToolDenyExposure φ)) : Except HookException Unit :=
  match persistPreToolDenyExposure env call.payload call.log call.agent exposure with
  | .ok _ | .error .osError => .ok ()
  | .error e => .error e

def handlePreTool : Except HookException (HookOutput φ) :=
  match call.intercepted with
  | some output => .ok output
  | none =>
    match call.validation env with
    | .allow => .ok call.allowOutput
    | .deny reason exposure =>
      match call.persistExposure env exposure with
      | .error e => .error e
      | .ok () =>
        let reason := reasonText env
          (loadGateContext env call.log.text call.configOn) call.payload
          (call.checkedArgs env) call.log.text exposure reason
        -- `reason.splitlines()[0]`, for the standard error
        match Text.splitLines reason with
        | [] => .error .indexError
        | _ :: _ => .ok (call.denyOutput reason)

/-- `main`, for an event that `is_pre_tool_event` takes: every exception ends in an allow. -/
def main : HookOutput φ :=
  match call.handlePreTool env with
  | .ok output => output
  | .error _ => ⟨formatPreToolAllow, 0⟩

end HookCall

end ClearYourTools.CytClient
