import ClearYourTools.Injection.PreExposure
import ClearYourTools.Proxy.UserMessageInject

/-!
# The tool arrays of an OpenAI Responses request

`transform_openai_request` for what a request says of tools: the root `tools[]` and the `tools` of
its `tool_search_output` items are rebuilt from what the pruners leave, and then gated by the log
of the session, to which the entries of what is sent are appended. The texts that are injected
into the user turn leave the arrays alone.
-/

/-!
## The tools of an OpenAI Responses request

`proxy/openai_responses.py`, `proxy/user_message_inject.py`.
-/

namespace ClearYourTools.Proxy

open Misc
open Json (get? PyFormat truthy)

variable {φ : Type}

def nameKey : Text := "name"
def toolsKey : Text := "tools"
def descriptionKey : Text := "description"
def strictKey : Text := "strict"
def parametersKey : Text := "parameters"
def deferLoadingKey : Text := "defer_loading"

/-- `str(tool.get("name", ""))`. -/
def toolName (p : PyFormat φ) (tool : Fields φ) : Text :=
  match get? tool nameKey with
  | none => []
  | some v => Json.toStr p v

/-- `_openai_tool_pass_through`: a native tool, which has no name. -/
def openaiToolPassThrough (p : PyFormat φ) (tool : Fields φ) : Bool := (toolName p tool).isEmpty

def isNamespace (tool : Fields φ) : Bool := fieldIs tool typeKey "namespace"

/-- The objects among `tool.get("tools") or []`. -/
def namespaceTools (p : PyFormat φ) (tool : Fields φ) : List (Fields φ) :=
  match Json.orElse p (get? tool toolsKey) none with
  | some (.arr items) =>
    items.filterMap fun item =>
      match item with
      | .obj child => some child
      | _ => none
  | _ => []

def openaiNamespaceToolName (ns name : Text) : Text :=
  if "mcp__".toList.isPrefixOf ns ∧ name ≠ [] then ns ++ '_' :: '_' :: name
  else if name = [] then ns
  else name

def flattenOpenaiToolsForPruning (p : PyFormat φ) (tools : List (Fields φ)) :
    List (Fields φ) :=
  tools.flatMap fun tool =>
    if isNamespace tool then
      ((namespaceTools p tool).filter fun child => !openaiToolPassThrough p child).map fun child =>
        Json.set child nameKey (.str (openaiNamespaceToolName (toolName p tool) (toolName p child)))
    else if openaiToolPassThrough p tool then []
    else [tool]

def toolSchemaKeys : List Text := [parametersKey, "input_schema", "inputSchema"]

def schemaValueFromApi (apiTool : Fields φ) (schemaKey : Text) : Option (Json φ) :=
  match get? apiTool schemaKey with
  | some v => some v
  | none =>
    if schemaKey = parametersKey then get? apiTool "input_schema"
    else get? apiTool parametersKey

/-- One schema key in `merge_api_tool_onto_original`; a value of `None` is not taken over. -/
def overlaySchema (original apiTool out : Fields φ) (schemaKey : Text) : Fields φ :=
  match get? original schemaKey, schemaValueFromApi apiTool schemaKey with
  | none, _ | _, none | _, some .null => out
  | some _, some v => Json.set out schemaKey v

def mergeApiToolOntoOriginal (original apiTool : Fields φ) : Fields φ :=
  let out := match get? apiTool descriptionKey with
    | some description => Json.set original descriptionKey description
    | none => original
  toolSchemaKeys.foldl (overlaySchema original apiTool) out

section

variable (p : PyFormat φ) (isMcp : Text → Bool)

def isSystemNamedTool (name : Text) : Bool := !name.isEmpty && !isMcp name

variable (prunedNamed : List (Fields φ))

/-- `pruned_by_name.get(name)`: the last of the pruned system tools with the name. -/
def prunedByName (name : Text) : Option (Fields φ) :=
  (prunedNamed.filter fun tool =>
    isSystemNamedTool isMcp (toolName p tool) &&
      truthy p ((get? tool nameKey).getD .null) &&
      toolName p tool == name).getLast?

/-- A named entry in the rebuilt array: nothing for an MCP tool, else the entry with what was
pruned under its name. -/
def keepSystemEntry (fullName : Text) (entry : Fields φ) : Option (Fields φ) :=
  if ¬ isSystemNamedTool isMcp fullName then none
  else
    match prunedByName p isMcp prunedNamed fullName with
    | some pruned => some (mergeApiToolOntoOriginal entry pruned)
    | none => some entry

def mergeSystemOnlyNamespaceChildren (ns : Text) (children : List (Fields φ)) : List (Fields φ) :=
  children.filterMap fun child =>
    if openaiToolPassThrough p child then some child
    else
      keepSystemEntry p isMcp prunedNamed (openaiNamespaceToolName ns (toolName p child)) child

/-- `_merge_system_only_namespace_tool`, whose two branches are the same. -/
def mergeSystemOnlyNamespaceTool (tool : Fields φ) : Option (Fields φ) :=
  let keptChildren := mergeSystemOnlyNamespaceChildren p isMcp prunedNamed (toolName p tool)
    (namespaceTools p tool)
  if keptChildren = [] then none
  else some (Json.set tool toolsKey (.arr (keptChildren.map .obj)))

def openaiToolsKeepSystemOnly (original prunedNamed : List (Fields φ)) : List (Fields φ) :=
  original.filterMap fun tool =>
    if openaiToolPassThrough p tool then some tool
    else if isNamespace tool then mergeSystemOnlyNamespaceTool p isMcp prunedNamed tool
    else keepSystemEntry p isMcp prunedNamed (toolName p tool) tool

def minimalObjectSchema : Json φ :=
  .obj [(typeKey, .str "object"), ("properties", .obj [])]

variable (tool : Fields φ)

def openaiToolDescription : Text := Json.strOr p tool descriptionKey []

/-- The stub of a function under a type, with `defer_loading` where the function has it. -/
def functionStub (type : Json φ) (tool : Fields φ) : Fields φ :=
  [(typeKey, type), (nameKey, .str (toolName p tool)),
    (descriptionKey, .str (openaiToolDescription p tool)),
    (strictKey, (get? tool strictKey).getD (.bool false)),
    (parametersKey, minimalObjectSchema)] ++
  ((get? tool deferLoadingKey).map fun v => (deferLoadingKey, v)).toList

def openaiMcpFunctionChildStub (child : Fields φ) : Fields φ :=
  functionStub p (.str "function") child

def openaiMcpFlatFunctionStub : Fields φ :=
  functionStub p ((get? tool typeKey).getD (.str "function")) tool

def openaiMcpNamespaceStub : Fields φ :=
  let named := (namespaceTools p tool).filter fun child => !openaiToolPassThrough p child
  [(typeKey, .str "namespace"), (nameKey, .str (toolName p tool)),
    (descriptionKey, .str (openaiToolDescription p tool)),
    (toolsKey, .arr (named.map fun child => .obj (openaiMcpFunctionChildStub p child)))]

def openaiMcpToolStubs (original : List (Fields φ)) : List (Fields φ) :=
  original.filterMap fun tool =>
    if openaiToolPassThrough p tool then none
    else if isNamespace tool then
      if isMcp (toolName p tool) then some (openaiMcpNamespaceStub p tool) else none
    else if isMcp (toolName p tool) then some (openaiMcpFlatFunctionStub p tool)
    else none

def openaiAppendMcpStubs (systemTools original : List (Fields φ)) : List (Fields φ) :=
  systemTools ++ openaiMcpToolStubs p isMcp original

/-- `_openai_split_for_user_inject`: the final tools, and the MCP tools to inject. -/
def openaiSplitForUserInject (originalTools : List (Fields φ))
    (prunedNamed : Option (List (Fields φ))) : List (Fields φ) × List (Fields φ) :=
  let flatOriginal := flattenOpenaiToolsForPruning p originalTools
  let named := prunedNamed.getD flatOriginal
  (openaiAppendMcpStubs p isMcp (openaiToolsKeepSystemOnly p isMcp originalTools named)
      originalTools,
    named.filter fun tool => isMcp (toolName p tool))

end

open Misc CytClient Injection.SessionLog

/-- `PruneResult.status`. -/
inductive PruneStatus where
  | applied
  | passThrough
  | skipped
  | failed
deriving DecidableEq

/-- `PruneResult`, of which only the tools and the status are read. -/
structure PruneResult (φ : Type) where
  tools : Option (List (Fields φ))
  status : PruneStatus

section

variable (p : PyFormat φ)

variable (prunedNamed : List (Fields φ))

/-- `_pruned_tools_by_name(pruned_named).get(name)`. -/
def prunedToolsByName (name : Text) : Option (Fields φ) :=
  (prunedNamed.filter fun tool =>
    truthy p ((get? tool nameKey).getD .null) && toolName p tool == name).getLast?

/-- A named entry in the rebuilt array: what was pruned under its name, merged onto it. -/
def mergePrunedEntry (fullName : Text) (entry : Fields φ) : Option (Fields φ) :=
  (prunedToolsByName p prunedNamed fullName).map (mergeApiToolOntoOriginal entry)

def mergePrunedNamespaceChildren (ns : Text) (children : List (Fields φ)) : List (Fields φ) :=
  children.filterMap fun child =>
    if openaiToolPassThrough p child then some child
    else mergePrunedEntry p prunedNamed (openaiNamespaceToolName ns (toolName p child)) child

def mergePrunedNamespaceTool (tool : Fields φ) : Option (Fields φ) :=
  let keptChildren := mergePrunedNamespaceChildren p prunedNamed (toolName p tool)
    (namespaceTools p tool)
  if keptChildren = [] then none
  else some (Json.set tool toolsKey (.arr (keptChildren.map .obj)))

def mergePrunedOpenaiTools (original prunedNamed : List (Fields φ)) : List (Fields φ) :=
  original.filterMap fun tool =>
    if openaiToolPassThrough p tool then some tool
    else if isNamespace tool then mergePrunedNamespaceTool p prunedNamed tool
    else mergePrunedEntry p prunedNamed (toolName p tool) tool

end

def combinePruneResults : Option (PruneResult φ) → Option (PruneResult φ) → Option (PruneResult φ)
  | existing, none => existing
  | none, some new => some new
  | some existing, some new =>
    some
      { tools := new.tools.or existing.tools
        status :=
          if new.status = .applied ∨ existing.status = .applied then .applied
          else if new.status = .failed then .failed
          else if existing.status = .passThrough then new.status
          else existing.status }

/-- A request: its tool arrays, the root first and then those of the `tool_search_output` items,
whether it has a user query, its session text, whether the tools go to the user turn, the policy
by which an array passes the pruners, and what the pruners give for the array at an index. -/
structure OpenaiRequest (φ : Type) where
  toolArrays : List (List (Fields φ))
  hasUserQuery : Bool
  sessionText : Text
  userMessageInject : Bool
  requestPassThrough : List (Fields φ) → Bool
  pruneResults : ℕ → Option (PruneResult φ)

/-- What the pruning of an array leaves: the array that is written back, the result, and the MCP
tools for the user turn. -/
structure PrunedArray (φ : Type) where
  tools : List (Fields φ)
  result : Option (PruneResult φ)
  mcpForInject : List (Fields φ)

namespace OpenaiRequest

variable (p : PyFormat φ) (isMcp : Text → Bool) (request : OpenaiRequest φ)

variable (tools : List (Fields φ))

/-- The final tools where nothing was pruned, and the MCP tools among them. -/
def unprunedTools : List (Fields φ) × List (Fields φ) :=
  if request.userMessageInject then openaiSplitForUserInject p isMcp tools none else (tools, [])

/-- `_finalize_openai_prune_result` with what `_openai_apply_coordinated_sources` writes back. -/
def finalizePruneResult (result : PruneResult φ) : PrunedArray φ :=
  match result.status, result.tools with
  | .applied, some pruned =>
    let final :=
      if request.userMessageInject then openaiSplitForUserInject p isMcp tools (some pruned)
      else (mergePrunedOpenaiTools p tools pruned, [])
    ⟨final.1, some { result with tools := some final.1 }, final.2⟩
  | .passThrough, _ =>
    let final := request.unprunedTools p isMcp tools
    ⟨final.1, some result, final.2⟩
  | _, _ => ⟨tools, some result, []⟩

/-- The pruning of one array, and whether it passes the pruners. -/
def pruneArray (index : ℕ) : PrunedArray φ :=
  if tools = [] then ⟨tools, none, []⟩
  else if request.requestPassThrough tools then
    let final := request.unprunedTools p isMcp tools
    ⟨final.1, some ⟨none, .passThrough⟩, final.2⟩
  else if flattenOpenaiToolsForPruning p tools = [] then ⟨tools, none, []⟩
  else
    match request.pruneResults index with
    | some result => request.finalizePruneResult p isMcp tools result
    | none => ⟨tools, none, []⟩

/-- The pruned arrays, in the order of the request. -/
def prunedArrays : List (PrunedArray φ) :=
  request.toolArrays.zipIdx.map fun x => request.pruneArray p isMcp x.1 x.2

/-- The pruned arrays in the order in which `_openai_prune_request_tools` takes them: those that
pass the pruners first. -/
def orderedArrays : List (PrunedArray φ) :=
  let marked := request.toolArrays.zip (request.prunedArrays p isMcp)
  ((marked.filter fun x => request.requestPassThrough x.1) ++
    marked.filter fun x => !request.requestPassThrough x.1).map Prod.snd

/-- The tools of the result of the request, from which the gate takes full definitions. -/
def catalogTools : List (Fields φ) :=
  let results := (request.orderedArrays p isMcp).map PrunedArray.result
  ((results.foldl combinePruneResults none).bind PruneResult.tools).getD []

def mcpForInject : List (Fields φ) :=
  (request.orderedArrays p isMcp).flatMap PrunedArray.mcpForInject

end OpenaiRequest

variable (env : SessionEnv φ)

def preExposureForProxy (sessionText : Text) (log : Option Text) : PreExposureContext φ :=
  let index := readSessionLog env log true
  ⟨sessionText, index, combinedText sessionText (SessionLogIndex.verbatimCorpus env index)⟩

/-- The key and the hash of an entry of a tool, if it has both. -/
def entryKeyHash (p : PyFormat φ) (entry : Record φ) : Option (Text × Text) :=
  let key := (fieldText p entry keyKey).strip
  let hash := (fieldText p entry hashKey).strip
  if key ≠ [] ∧ hash ≠ [] then some (key, hash) else none

def existingToolKeysAndHashes (p : PyFormat φ) (log : Option Text) : List (Text × Text) :=
  ((readSessionLogFile p log).2.filter fun entry =>
    CytClient.fieldIs entry kindKey toolKind).filterMap (entryKeyHash p)

/-- The body of the loop of `filter_new_tool_entries`: the fresh entries, and what exists. -/
def filterNewToolEntry (p : PyFormat φ) (state : List (Record φ) × List (Text × Text))
    (entry : Record φ) : List (Record φ) × List (Text × Text) :=
  if ¬ CytClient.fieldIs entry kindKey toolKind then (state.1 ++ [entry], state.2)
  else
    match entryKeyHash p entry with
    | some pair =>
      if state.2.contains pair then state else (state.1 ++ [entry], state.2 ++ [pair])
    | none => (state.1 ++ [entry], state.2)

def filterNewToolEntries (p : PyFormat φ) (log : Option Text) (entries : List (Record φ)) :
    List (Record φ) :=
  (entries.foldl (filterNewToolEntry p) ([], existingToolKeysAndHashes p log)).1

def persistProxySessionLogEntries (agent : Text) (log : Option Text) (entries : List (Record φ)) :
    Option Text :=
  appendSessionLog env log (filterNewToolEntries env log entries)
    (some agent)

/-- `_openai_apply_native_pre_exposure`: the gated arrays and the entries, `none` where it
raises. -/
def applyNativePreExposure (ctx : PreExposureContext φ) (catalogTools : List (Fields φ))
    (arrays : List (List (Fields φ))) : Option (List (List (Fields φ)) × List (Record φ)) :=
  (arrays.mapM fun tools => gateAndFilterNativeTools env ctx catalogTools tools).map fun results =>
    (results.map Prod.fst, results.flatMap Prod.snd)

/-- The call of the gate for the tools of the user turn. -/
def userTurnCall (ctx : PreExposureContext φ) (catalogTools : List (Fields φ)) : FilterCall φ :=
  ⟨ctx, catalogTools, none, false⟩

/-- `_openai_finish_transform`: the arrays and the entries for the log, `none` where it raises. -/
def openaiFinishTransform (isMcp : Text → Bool) (log : Option Text) (request : OpenaiRequest φ) :
    Option (List (List (Fields φ)) × List (Record φ)) :=
  let p := env.toPyFormat
  let ctx := preExposureForProxy env request.sessionText log
  let catalogTools := request.catalogTools p isMcp
  let arrays := (request.prunedArrays p isMcp).map PrunedArray.tools
  if request.userMessageInject then
    if request.mcpForInject p isMcp = [] then some (arrays, [])
    else
      ((userTurnCall ctx catalogTools).gateAndFilterTools env (request.mcpForInject p isMcp)).map
        fun result => (arrays, result.2)
  else applyNativePreExposure env ctx catalogTools arrays

/-- `transform_openai_request`: the arrays that go out and the log afterwards. Where the
transformation raises, the proxy forwards the body as it came. -/
def transformOpenaiRequest (isMcp : Text → Bool) (agent : Text) (log : Option Text)
    (request : OpenaiRequest φ) : List (List (Fields φ)) × Option Text :=
  if request.toolArrays.all List.isEmpty || !request.hasUserQuery then (request.toolArrays, log)
  else
    match openaiFinishTransform env isMcp log request with
    | some (arrays, entries) => (arrays, persistProxySessionLogEntries env agent log entries)
    | none => (request.toolArrays, log)

/-- A request that a session has sent: the log before it, and the arrays that went out. -/
structure RequestStep (φ : Type) where
  log : Option Text
  request : OpenaiRequest φ
  outgoing : List (List (Fields φ))

/-- The requests of a session, one after the other, over its log. -/
def runRequests (env : SessionEnv φ) (isMcp : Text → Bool) (agent : Text) :
    Option Text → List (OpenaiRequest φ) → List (RequestStep φ)
  | _, [] => []
  | log, request :: requests =>
    let sent := transformOpenaiRequest env isMcp agent log request
    ⟨log, request, sent.1⟩ :: runRequests env isMcp agent sent.2 requests

end ClearYourTools.Proxy
