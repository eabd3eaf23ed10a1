import ClearYourTools.Injection.SessionLog
import ClearYourTools.Misc.Tally

/-!
# The store of tool examples

`tool_examples/store.py`: the projects, the captures of calls and the example rows of a database,
as its tables. `ON DELETE CASCADE` removes the examples of a capture with it.
-/

/-!
## Flattened arguments

`tool_examples/flatten.py`: the arguments of a call as rows of a path and a value, without what
stands under redacted keys, and the paths of `tool_examples/maintenance.py` that a capture may
have.
-/

namespace ClearYourTools.ToolExamples

open Misc

variable {φ : Type}

structure FlattenedExample where
  jsonPath : Text
  value : Text
  valueType : Text
deriving DecidableEq

def pathPrefix : Text := "inputSchema.properties"

/-- `_key_redacted`, with a pattern as the keys that its search finds. -/
def keyRedacted (patterns : List (Text → Bool)) (key : Text) : Bool :=
  patterns.any fun pattern => pattern key

def valueType : Json φ → Text
  | .null => "null"
  | .bool _ => "boolean"
  | .int _ => "integer"
  | .float _ => "number"
  | .str _ => "string"
  | .arr _ => "list"
  | .obj _ => "dict"

def serializeValue (f : Json.FloatFormat φ) : Json φ → Option Text
  | .arr _ => none
  | .obj _ => none
  | v => some (Json.dumps f false v)

def shouldSkipValue : Json φ → Bool
  | .str s => s.strip.isEmpty
  | .arr items => items.isEmpty
  | .obj fields => fields.isEmpty
  | _ => false

def walkScalar (f : Json.FloatFormat φ) (v : Json φ) (path : Text) : List FlattenedExample :=
  if shouldSkipValue v then []
  else
    match serializeValue f v with
    | some value => [⟨path, value, valueType v⟩]
    | none => []

section

variable (f : Json.FloatFormat φ) (patterns : List (Text → Bool))

mutual

def walkValue : Json φ → Text → List FlattenedExample
  | .obj fields, path => if fields.isEmpty then [] else walkObject fields path
  | .arr items, path => if items.isEmpty then [] else walkItems items path
  | v, path => walkScalar f v path

def walkObject : List (Text × Json φ) → Text → List FlattenedExample
  | [], _ => []
  | (key, v) :: fields, start =>
    if keyRedacted patterns key then walkObject fields start
    else walkValue v (start ++ '.' :: key) ++ walkObject fields start

/-- The loop over the items of an array in `_walk_value`. -/
def walkItems : List (Json φ) → Text → List FlattenedExample
  | [], _ => []
  | .obj fields :: items, path =>
    walkObject fields (path ++ ".items[].properties") ++ walkItems items path
  | v :: items, path => walkScalar f v (path ++ ".items[]") ++ walkItems items path

end

def flattenArgs (args : List (Text × Json φ)) : List FlattenedExample :=
  walkObject f patterns args pathPrefix

end

/-- `spec.get("type") == name`. -/
def typeIs (spec : List (Text × Json φ)) (name : Text) : Bool :=
  match Json.get? spec "type" with
  | some (.str s) => s == name
  | _ => false

mutual

/-- `_valid_paths_from_schema`, over the fields of the schema up to its `properties`. -/
def validPathsFromSchema : List (Text × Json φ) → Text → List Text
  | [], _ => []
  | (key, .obj properties) :: fields, start =>
    if key = "properties" then validPathsOfProperties properties start
    else validPathsFromSchema fields start
  | (key, _) :: fields, start =>
    if key = "properties" then [] else validPathsFromSchema fields start

/-- The loop of `_valid_paths_from_schema` over the properties. -/
def validPathsOfProperties : List (Text × Json φ) → Text → List Text
  | [], _ => []
  | (key, .obj spec) :: properties, start =>
    let path := start ++ '.' :: key
    path ::
      ((if typeIs spec "object" then validPathsFromSchema spec path
        else if typeIs spec "array" then validPathsOfItems spec path
        else []) ++ validPathsOfProperties properties start)
  | (key, _) :: properties, start =>
    (start ++ '.' :: key) :: validPathsOfProperties properties start

/-- The paths under the `items` of an array. -/
def validPathsOfItems : List (Text × Json φ) → Text → List Text
  | [], _ => []
  | (key, .obj items) :: fields, path =>
    if key = "items" then
      if typeIs items "object" then
        validPathsFromSchema items (path ++ ".items[].properties")
      else []
    else validPathsOfItems fields path
  | (key, _) :: fields, path =>
    if key = "items" then [] else validPathsOfItems fields path

end

def validPathsForCapture (f : Json.FloatFormat φ) (schema args : List (Text × Json φ)) :
    List Text :=
  (flattenArgs f [] args).map FlattenedExample.jsonPath ++ validPathsFromSchema schema pathPrefix

/-- The rows that `record_tool_examples_capture` writes. -/
def recordedExamples (f : Json.FloatFormat φ) (patterns : List (Text → Bool))
    (schema args : List (Text × Json φ)) : List FlattenedExample :=
  (flattenArgs f patterns args).filter fun item =>
    (validPathsForCapture f schema args).contains item.jsonPath

/-- A row of `tool_example_project`. -/
structure ProjectRow where
  projectId : ℕ
  rootPath : Text
  createdMs : ℕ
  lastSeenMs : ℕ
deriving DecidableEq

/-- A row of `tool_input_schema`. -/
structure CaptureRow where
  schemaId : ℕ
  projectId : ℕ
  mcpServer : Text
  toolName : Text
  schemaJson : Text
  inputJson : Text
  schemaHash : Text
  inputHash : Text
  firstSeenMs : ℕ
  lastSeenMs : ℕ
deriving DecidableEq

/-- A row of `tool_example`. -/
structure ExampleRow where
  schemaId : ℕ
  jsonPath : Text
  value : Text
  valueType : Text
  timestampMs : ℕ
  successCount : ℕ
deriving DecidableEq

/-- The tables, and the identifiers that were last given out. -/
structure Store where
  projects : List ProjectRow
  captures : List CaptureRow
  examples : List ExampleRow
  lastProjectId : ℕ
  lastSchemaId : ℕ
deriving DecidableEq

/-- What the store calls: the digest, how a root path is resolved, the case folding of Python, and
the configured server keys of some projects and those of the configuration of the wire names. -/
structure ExamplesEnv (φ : Type) extends Json.PyFormat φ where
  sha256 : Text → Text
  resolvePath : Text → Text
  casefold : Text → Text
  knownServerKeys : List Text → List Text
  configuredServerKeys : List Text
  lawful : toFloatFormat.Lawful

instance : Coe (ExamplesEnv φ) (Json.PyFormat φ) := ⟨ExamplesEnv.toPyFormat⟩

variable (env : ExamplesEnv φ)

def contentHash (value : Json φ) : Text :=
  env.sha256 (Json.dumps env false (Injection.SessionLog.sortKeys value))

/-- `_INVALID_IDENTITY_MARKERS`, of a name that is not empty. -/
def unknownMarker : Text := "unknown"

def isValidToolExampleIdentity (mcpServer toolName : Text) : Bool :=
  let server := mcpServer.strip
  let bare := toolName.strip
  server != [] && bare != [] && env.casefold server != [] && env.casefold server != unknownMarker &&
    env.casefold bare != [] && env.casefold bare != unknownMarker

def ephemeralWorkspaceMarkers : List Text :=
  ["/pytest-of-", "/t/pytest-", "/tmp/pytest-", "/temp/pytest-", "/private/var/folders/",
    "/var/folders/"].map String.toList

def isEphemeralWorkspacePath (path : Text) : Bool :=
  let text := path.map fun c => if c = '\\' then '/' else c
  ephemeralWorkspaceMarkers.any fun marker => decide (marker <:+: text)

namespace Store

variable (store : Store)

def empty : Store := ⟨[], [], [], 0, 0⟩

/-- The rows of the captures that stay, with their examples. -/
def keepCaptures (keep : CaptureRow → Bool) : Store :=
  let gone := (store.captures.filter fun row => !keep row).map CaptureRow.schemaId
  { store with
    captures := store.captures.filter keep
    examples := store.examples.filter fun row => !gone.contains row.schemaId }

def purgeEphemeralProjects : Store :=
  let gone := (store.projects.filter fun row => isEphemeralWorkspacePath row.rootPath).map
    ProjectRow.projectId
  { store.keepCaptures fun row => !gone.contains row.projectId with
    projects := store.projects.filter fun row => !isEphemeralWorkspacePath row.rootPath }

/-- `lower(trim(name))` of SQLite is empty or a placeholder. -/
def isPlaceholder (name : Text) : Bool :=
  let trimmed := ((name.dropWhile (· == ' ')).reverse.dropWhile (· == ' ')).reverse
  trimmed == [] || trimmed.map Char.toLower == unknownMarker

def purgeInvalidIdentitySchemas : Store :=
  store.keepCaptures fun row => !(isPlaceholder row.mcpServer || isPlaceholder row.toolName)

def purgeMisparsedIdentitySchemas (serverKeys : List Text) : Store :=
  store.keepCaptures fun row =>
    CytMcp.isCanonicalSchemaIdentity env.configuredServerKeys row.mcpServer row.toolName serverKeys

def purgeOrphanExamples : Store :=
  { store with
    examples := store.examples.filter fun row =>
      (store.captures.map CaptureRow.schemaId).contains row.schemaId }

def serverKeysForIdentityPurge : List Text :=
  env.knownServerKeys ((store.projects.map ProjectRow.rootPath).filter fun path => path.strip != [])

/-- `ToolExamplesStore.open`, of the database of the user or of another one. -/
def opened (isDefaultUserDb : Bool) : Store :=
  if isDefaultUserDb then
    let store := store.purgeEphemeralProjects.purgeInvalidIdentitySchemas
    let serverKeys := store.serverKeysForIdentityPurge env
    let store := if serverKeys = [] then store else store.purgeMisparsedIdentitySchemas env serverKeys
    store.purgeOrphanExamples
  else store

def getOrCreateProject (rootPath : Text) (nowMs : ℕ) : ℕ × Store :=
  let canonical := env.resolvePath rootPath
  match store.projects.find? fun row => row.rootPath == canonical with
  | some found =>
    (found.projectId,
      { store with
        projects := store.projects.map fun row =>
          if row.projectId = found.projectId then { row with lastSeenMs := nowMs } else row })
  | none =>
    let projectId := store.lastProjectId + 1
    (projectId,
      { store with
        projects := store.projects ++ [⟨projectId, canonical, nowMs, nowMs⟩]
        lastProjectId := projectId })

/-- The `INSERT ... ON CONFLICT` of an example row. -/
def upsertExample (schemaId nowMs : ℕ) (rows : List ExampleRow) (item : FlattenedExample) :
    List ExampleRow :=
  let isRow := fun row : ExampleRow =>
    row.schemaId == schemaId && row.jsonPath == item.jsonPath && row.value == item.value
  if rows.any isRow then
    rows.map fun row =>
      if isRow row then { row with timestampMs := nowMs, successCount := row.successCount + 1 }
      else row
  else rows ++ [⟨schemaId, item.jsonPath, item.value, item.valueType, nowMs, 1⟩]

variable (projectId : ℕ)

def captureRow (mcpServer toolName : Text) (schema args : List (Text × Json φ)) (nowMs schemaId : ℕ) :
    CaptureRow where
  schemaId := schemaId
  projectId := projectId
  mcpServer := mcpServer
  toolName := toolName
  schemaJson := Json.dumps env false (.obj schema)
  inputJson := Json.dumps env false (.obj args)
  schemaHash := contentHash env (.obj schema)
  inputHash := contentHash env (.obj args)
  firstSeenMs := nowMs
  lastSeenMs := nowMs

/-- Whether a row is in conflict with another one: the `UNIQUE` columns of `tool_input_schema`. -/
def sameCapture (row row' : CaptureRow) : Bool :=
  row.projectId == row'.projectId && row.mcpServer == row'.mcpServer &&
    row.toolName == row'.toolName && row.schemaHash == row'.schemaHash &&
    row.inputHash == row'.inputHash

/-- `upsert_capture` of a valid identity, with the flattened examples that it is given. -/
def upsertCapture (mcpServer toolName : Text) (schema args : List (Text × Json φ))
    (flattened : List FlattenedExample) (nowMs : ℕ) : Store :=
  let new := captureRow env projectId mcpServer toolName schema args nowMs (store.lastSchemaId + 1)
  match store.captures.find? (sameCapture new) with
  | some found =>
    { store with
      captures := store.captures.map fun row =>
        if row.schemaId = found.schemaId then { row with lastSeenMs := nowMs } else row
      examples := flattened.foldl (upsertExample found.schemaId nowMs) store.examples }
  | none =>
    { store with
      captures := store.captures ++ [new]
      examples := flattened.foldl (upsertExample new.schemaId nowMs) store.examples
      lastSchemaId := new.schemaId }

/-- A `LIMIT`, which a negative number leaves out. -/
def limited {α : Type} (limit : ℤ) (rows : List α) : List α :=
  if limit < 0 then rows else rows.take limit.toNat

/-- `list_captures`, as rows. -/
def listCaptures (mcpServer toolName : Text) (schemaHash : Option Text) (limit : ℤ) :
    List CaptureRow :=
  limited limit ((store.captures.filter fun row =>
    row.projectId == projectId && row.mcpServer == mcpServer && row.toolName == toolName &&
      schemaHash.all (row.schemaHash == ·)).insertionSort fun row row' =>
        row'.lastSeenMs ≤ row.lastSeenMs)

end Store

/-! ## Recording and injecting examples: `tool_examples/record.py`, `tool_examples/enrich.py` -/

open Misc CytClient Injection.SessionLog

/-- `ToolExamplesConfig`, of which these are read, and whether the database is that of the user. -/
structure ToolExamplesConfig where
  enabled : Bool
  isDefaultUserDb : Bool
  redactKeyPatterns : List (Text → Bool)
  fullCallExamples : Bool
  maxFullCallExamples : ℤ
  crossSchemaFallback : Bool
  maxCapturesPerTool : ℤ
  maxValueChars : ℤ

/-- The arguments of a call. -/
@[ext]
structure ToolArgs (φ : Type) where
  fields : Record φ
  valid : (Json.obj fields).Valid

/-- What `record_tool_examples_capture` is called with, besides the arguments, with the root of the
project and the times at which the project and the capture are written. -/
structure CaptureCall (φ : Type) where
  cfg : ToolExamplesConfig
  projectRoot : Option Text
  mcpServer : Text
  toolName : Text
  inputSchema : Record φ
  projectMs : ℕ
  captureMs : ℕ

/-- A project root that is there and not ephemeral. -/
def usableRoot : Option Text → Option Text
  | some root => if isEphemeralWorkspacePath root then none else some root
  | none => none

/-- The root of the project for which a call is recorded, if it is recorded. -/
def CaptureCall.recordedRoot (env : ExamplesEnv φ) (call : CaptureCall φ) : Option Text :=
  if call.cfg.enabled && isValidToolExampleIdentity env call.mcpServer call.toolName then
    usableRoot call.projectRoot
  else none

/-- `record_tool_examples_capture`: the store afterwards. -/
def recordToolExamplesCapture (env : ExamplesEnv φ) (call : CaptureCall φ) (args : ToolArgs φ)
    (store : Store) : Store :=
  match call.recordedRoot env with
  | none => store
  | some root =>
    let project := (store.opened env call.cfg.isDefaultUserDb).getOrCreateProject env root
      call.projectMs
    project.2.upsertCapture env project.1 call.mcpServer call.toolName call.inputSchema args.fields
      (recordedExamples env call.cfg.redactKeyPatterns call.inputSchema args.fields)
      call.captureMs

/-- What the enrichment of tools calls: the backend identity of a tool, the order in which the
fused scores put the serialized calls, and the validation of a value by a schema. -/
structure EnrichEnv (φ : Type) extends ExamplesEnv φ where
  resolveMcpServerAndTool : Record φ → Text × Text
  fusedOrder : Text → List (Text × ℕ) → List Text
  validateJsonSchema : Record φ → Record φ → Bool

instance : Coe (EnrichEnv φ) (ExamplesEnv φ) := ⟨EnrichEnv.toExamplesEnv⟩

variable (env : EnrichEnv φ)

def schemaFromTool (tool : Record φ) : Record φ :=
  dictOrEmpty (firstTrue env tool
    ["input_schema".toList, "inputSchema".toList, "parameters".toList])

def inputSchemaFromTool (tool : Record φ) : Record φ :=
  (["input_schema".toList, "inputSchema".toList, "parameters".toList].findSome? fun key =>
    match Json.get? tool key with
    | some (.obj (field :: fields)) => some (field :: fields)
    | _ => none).getD []

def inputSchemaProperties (schema : Record φ) : List Text :=
  (dictOrEmpty (Json.get? schema "properties")).map Prod.fst

def projectExampleToSchema (example' schema : Record φ) : Option (Record φ) :=
  let projected := example'.filter fun field => (inputSchemaProperties schema).contains field.1
  if schema.isEmpty || projected.isEmpty || !env.validateJsonSchema projected schema then none
  else some projected

def entangleExamplesWithSchema (examples : List (Record φ)) (schema : Record φ) :
    List (Record φ) :=
  (examples.foldl (fun state example' =>
    match projectExampleToSchema env example' schema with
    | none => state
    | some projected =>
      let key := Json.dumps env false (sortKeys (.obj projected))
      if state.2.contains key then state else (state.1 ++ [projected], state.2 ++ [key]))
    (([], []) : List (Record φ) × List Text)).1

/-- `rank_full_call_examples` of calls with their times. -/
def rankFullCallExamples (query : Text) (captures : List (Record φ × ℕ)) (maxCount : ℤ) :
    List (Record φ) :=
  let serialized := fun payload : Record φ => Json.dumps env false (.obj payload)
  if captures.isEmpty || maxCount ≤ 0 then []
  else
    ((env.fusedOrder query (captures.map fun capture => (serialized capture.1, capture.2))).take
      maxCount.toNat).filterMap fun value =>
        (captures.find? fun capture => serialized capture.1 == value).map Prod.fst

/-- `_row_to_capture`: the arguments and the time of a capture, `none` where it raises. -/
def rowToCapture (row : CaptureRow) : Option (Record φ × ℕ) :=
  (Json.loads env.toFloatFormat row.schemaJson).bind fun _ =>
    (Json.loads env row.inputJson).map fun input =>
      (dictOrEmpty (some input), row.lastSeenMs)

variable (cfg : ToolExamplesConfig)

def attachCallExamples (query : Text) (captures : List (Record φ × ℕ)) (out : Record φ) :
    Record φ :=
  let ranked := rankFullCallExamples env query captures cfg.maxFullCallExamples
  let schema := inputSchemaFromTool out
  let entangled :=
    if schema.isEmpty then ranked else entangleExamplesWithSchema env ranked schema
  if !cfg.fullCallExamples || ranked.isEmpty || entangled.isEmpty then out
  else
    Json.set (Json.set out "cyt_injection_examples" (.arr (entangled.map .obj)))
      "cyt_injection_examples_max_chars" (.int cfg.maxValueChars)

/-- The rows of the captures of a tool, with the fallback to other schemas. -/
def capturesOfTool (projectId : ℕ) (store : Store) (tool : Record φ) : List CaptureRow :=
  let identity := env.resolveMcpServerAndTool tool
  let captures := fun schemaHash =>
    store.listCaptures projectId identity.1 identity.2 schemaHash cfg.maxCapturesPerTool
  let found := captures (if cfg.crossSchemaFallback then none
    else some (contentHash env (.obj (schemaFromTool env tool))))
  if found.isEmpty && !cfg.crossSchemaFallback then captures none else found

/-- `_enrich_single_tool`, `none` where it raises. -/
def enrichSingleTool (query : Text) (projectId : ℕ) (store : Store) (tool : Record φ) :
    Option (Record φ) :=
  if (schemaFromTool env tool).isEmpty then some tool
  else
    ((capturesOfTool env cfg projectId store tool).mapM (rowToCapture env)).map fun captures =>
      if captures.isEmpty then tool else attachCallExamples env cfg query captures tool

/-- What `enrich_tools_with_examples` is called with, with the root of the project and the time at
which it is written. -/
structure EnrichCall (φ : Type) where
  cfg : ToolExamplesConfig
  projectRoot : Option Text
  projectMs : ℕ
  query : Text
  tools : List (Record φ)

/-- `enrich_tools_with_examples`, `none` where it raises. -/
def enrichToolsWithExamples (call : EnrichCall φ) (store : Store) : Option (List (Record φ)) :=
  if call.tools.isEmpty || call.query.isEmpty || !call.cfg.enabled then some call.tools
  else
    match usableRoot call.projectRoot with
    | none => some call.tools
    | some root =>
      let project := (store.opened env.toExamplesEnv call.cfg.isDefaultUserDb).getOrCreateProject
        env.toExamplesEnv root call.projectMs
      call.tools.mapM (enrichSingleTool env call.cfg call.query project.1 project.2)

/-! ## Retention of tool examples -/

/-- The retention block of `tool_examples_config`, of which no number is checked. -/
structure RetentionConfig where
  maxPerPath : ℤ := 20
  minPerPath : ℤ := 3
  maxCapturesPerTool : ℤ := 50
  minCapturesPerTool : ℤ := 5
  maxAgeDays : ℤ := 90
  minPerSchemaHash : ℤ := 5
  minHistoricalPerPath : ℤ := 20

/-- `success_count ASC, timestamp_ms ASC`. -/
def RarestOldest (row row' : ExampleRow) : Prop :=
  row.successCount < row'.successCount ∨
    row.successCount = row'.successCount ∧ row.timestampMs ≤ row'.timestampMs

/-- How the database orders the rows that a pass goes through. -/
structure RowOrders where
  newestExample : OrderBy fun row row' : ExampleRow => row'.timestampMs ≤ row.timestampMs
  rarestOldest : OrderBy RarestOldest
  newestCapture : OrderBy fun row row' : CaptureRow => row'.lastSeenMs ≤ row.lastSeenMs

/-- What the examples of a path have in common. -/
def ExampleRow.path (row : ExampleRow) : ℕ × Text := (row.schemaId, row.jsonPath)

/-- What the captures of a tool have in common. -/
def CaptureRow.tool (row : CaptureRow) : ℕ × Text × Text :=
  (row.projectId, row.mcpServer, row.toolName)

variable (orders : RowOrders)

/-- The examples of a path that `prune_stale_examples` deletes. -/
def staleVictims (cutoffMs minPerPath minHistoricalPerPath : ℤ) (group : List ExampleRow) :
    List ExampleRow :=
  let rows := orders.newestExample.sort group
  if (rows.length : ℤ) ≤ minPerPath then []
  else
    let stale := rows.filter fun row => (row.timestampMs : ℤ) < cutoffMs
    let keepHistorical := min minHistoricalPerPath stale.length
    let historical :=
      if keepHistorical > 0 then stale.drop (stale.length - keepHistorical.toNat) else []
    let recent := rows.filter fun row => cutoffMs ≤ (row.timestampMs : ℤ)
    let maxDeletable := max 0 ((rows.length : ℤ) - minPerPath)
    (stale.filter fun row => !(recent ++ historical).contains row).take maxDeletable.toNat

/-- The examples of a path that `enforce_example_path_limit` deletes. -/
def pathVictims (maxPerPath minPerPath : ℤ) (group : List ExampleRow) : List ExampleRow :=
  let total : ℤ := group.length
  if total ≤ maxPerPath then []
  else Store.limited (total - max maxPerPath minPerPath) (orders.rarestOldest.sort group)

/-- The captures of a tool that are the newest of their schema. -/
def protectedCaptures (minPerSchemaHash : ℤ) (rows : List CaptureRow) : List CaptureRow :=
  (Table.keys CaptureRow.schemaHash rows).flatMap fun schemaHash =>
    ((Table.group CaptureRow.schemaHash rows schemaHash).insertionSort fun row row' =>
      row'.lastSeenMs ≤ row.lastSeenMs).take (max minPerSchemaHash 1).toNat

/-- The captures of a tool that `enforce_capture_retention` deletes. -/
def captureVictims (maxCaptures minCaptures minPerSchemaHash : ℤ) (group : List CaptureRow) :
    List CaptureRow :=
  let rows := orders.newestCapture.sort group
  let total : ℤ := rows.length
  let target := max maxCaptures minCaptures
  if total ≤ target then []
  else
    let evictCandidates := rows.filter fun row =>
      !(protectedCaptures minPerSchemaHash rows).contains row
    (evictCandidates.insertionSort fun row row' => row.lastSeenMs ≤ row'.lastSeenMs).take
      (total - target).toNat

/-- The loop of `count_stale_examples` over the stale rows of a path. -/
def countStaleFrom (kept : List ExampleRow) (maxDeletable : ℤ) (deleteCount : ℕ) :
    List ExampleRow → ℕ
  | [] => deleteCount
  | row :: rows =>
    if kept.contains row then countStaleFrom kept maxDeletable deleteCount rows
    else if maxDeletable ≤ deleteCount then deleteCount
    else countStaleFrom kept maxDeletable (deleteCount + 1) rows

/-- What `count_stale_examples` adds for a path. -/
def countStaleOfPath (cutoffMs minPerPath minHistoricalPerPath : ℤ) (group : List ExampleRow) : ℕ :=
  let rows := orders.newestExample.sort group
  if (rows.length : ℤ) ≤ minPerPath then 0
  else
    let stale := rows.filter fun row => (row.timestampMs : ℤ) < cutoffMs
    let keepHistorical := min minHistoricalPerPath stale.length
    let historical :=
      if keepHistorical > 0 then stale.drop (stale.length - keepHistorical.toNat) else []
    let recent := rows.filter fun row => cutoffMs ≤ (row.timestampMs : ℤ)
    countStaleFrom (recent ++ historical) (max 0 ((rows.length : ℤ) - minPerPath)) 0 stale

/-- What `count_capture_retention_removable` adds for a tool. -/
def countRemovableOfTool (maxCaptures minCaptures minPerSchemaHash : ℤ)
    (group : List CaptureRow) : ℕ :=
  let rows := orders.newestCapture.sort group
  let totalCount : ℤ := group.length
  let target := max maxCaptures minCaptures
  if totalCount ≤ target then 0
  else
    let evictCandidates := rows.filter fun row =>
      !(protectedCaptures minPerSchemaHash rows).contains row
    (min (evictCandidates.length : ℤ) (totalCount - target)).toNat

namespace Store

variable (store : Store)

/-- `prune_stale_examples`, with how many rows it deletes. -/
def pruneStaleExamples (cutoffMs minPerPath minHistoricalPerPath : ℤ) : Store × ℕ :=
  let swept := Table.sweep ExampleRow.path
    (staleVictims orders cutoffMs minPerPath minHistoricalPerPath) store.examples
  ({ store with examples := swept.1 }, swept.2)

/-- `enforce_example_path_limit`, with how many rows it deletes. -/
def enforceExamplePathLimit (maxPerPath minPerPath : ℤ) : Store × ℕ :=
  let swept := Table.sweep ExampleRow.path (pathVictims orders maxPerPath minPerPath) store.examples
  ({ store with examples := swept.1 }, swept.2)

/-- `enforce_capture_retention` of one tool, with how many captures it has deleted. -/
def retainCaptures (maxCaptures minCaptures minPerSchemaHash : ℤ) (state : Store × ℕ)
    (tool : ℕ × Text × Text) : Store × ℕ :=
  let gone := captureVictims orders maxCaptures minCaptures minPerSchemaHash
    (Table.group CaptureRow.tool state.1.captures tool)
  (state.1.keepCaptures fun row => !gone.contains row, state.2 + gone.length)

def enforceCaptureRetention (maxCaptures minCaptures minPerSchemaHash : ℤ) : Store × ℕ :=
  (Table.keys CaptureRow.tool store.captures).foldl
    (retainCaptures orders maxCaptures minCaptures minPerSchemaHash) (store, 0)

def countStaleExamples (cutoffMs minPerPath minHistoricalPerPath : ℤ) : ℕ :=
  Table.tally ExampleRow.path (countStaleOfPath orders cutoffMs minPerPath minHistoricalPerPath)
    store.examples

def countCaptureRetentionRemovable (maxCaptures minCaptures minPerSchemaHash : ℤ) : ℕ :=
  Table.tally CaptureRow.tool
    (countRemovableOfTool orders maxCaptures minCaptures minPerSchemaHash) store.captures

end Store

/-- What a run leaves after each pass, and how many rows each pass deletes. -/
structure RetentionRun where
  pruned : Store × ℕ
  capped : Store × ℕ
  retained : Store × ℕ

/-- The three passes of `run_tool_examples_maintenance`. -/
def runRetention (config : RetentionConfig) (nowMs : ℤ) (store : Store) : RetentionRun :=
  let cutoffMs := nowMs - config.maxAgeDays * 86400 * 1000
  let pruned :=
    store.pruneStaleExamples orders cutoffMs config.minPerPath config.minHistoricalPerPath
  let capped := pruned.1.enforceExamplePathLimit orders config.maxPerPath config.minPerPath
  ⟨pruned, capped, capped.1.enforceCaptureRetention orders config.maxCapturesPerTool
    config.minCapturesPerTool config.minPerSchemaHash⟩

end ClearYourTools.ToolExamples
