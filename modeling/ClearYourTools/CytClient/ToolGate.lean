import ClearYourTools.CytClient.Sessions
import ClearYourTools.Misc.Search

/-!
# The tool gate

`cyt_client/tool_gate.py`: a tool call that the harness is about to make is checked against the
tool catalogs of the session log. The payload is the JSON object that the harness sends. The
schema validator, the agent and the two switches of the configuration are parameters. Of a denial
the model keeps what its message is made from.
-/

/-!
## mcpc calls in shell commands

`cyt_client/mcpc_shell.py`: the session, tool name and arguments of an `mcpc` tool call are read
off the text of a shell command. Which characters are alphanumeric is a parameter.
-/

namespace ClearYourTools.CytClient

open Misc
open Json (get? PyFormat)
open Matcher (many1 literalIgnoreCase literal searchMap many)

variable {φ : Type}

structure McpcShellCall (φ : Type) where
  session : Text
  toolName : Text
  args : Record φ

/-- The state of `shlex`: between tokens, in a word, in quotes, or after a backslash in a word
or in double quotes. -/
inductive ShlexState where
  | blank
  | word
  | quoted (quote : Char)
  | escaped (quote : Option Char)
deriving DecidableEq

def isShlexSpace (c : Char) : Bool := c == ' ' || c == '\t' || c == '\r' || c == '\n'

def isQuote (c : Char) : Bool := c == '\'' || c == '"'

/-- The tokens of a text that goes on from the characters `rev`, in reverse order, of a token;
`none` is the `ValueError` for an open quotation or a backslash at the end. -/
def shlexFrom : ShlexState → Text → Text → Option (List Text)
  | .blank, _, [] => some []
  | .word, rev, [] => some [rev.reverse]
  | .quoted _, _, [] => none
  | .escaped _, _, [] => none
  | .blank, rev, c :: t =>
    if isShlexSpace c then shlexFrom .blank rev t
    else if c = '\\' then shlexFrom (.escaped none) [] t
    else if isQuote c then shlexFrom (.quoted c) [] t
    else shlexFrom .word [c] t
  | .word, rev, c :: t =>
    if isShlexSpace c then (shlexFrom .blank [] t).map fun ts => rev.reverse :: ts
    else if isQuote c then shlexFrom (.quoted c) rev t
    else if c = '\\' then shlexFrom (.escaped none) rev t
    else shlexFrom .word (c :: rev) t
  | .quoted quote, rev, c :: t =>
    if c = quote then shlexFrom .word rev t
    else if c = '\\' ∧ quote = '"' then shlexFrom (.escaped (some quote)) rev t
    else shlexFrom (.quoted quote) (c :: rev) t
  | .escaped none, rev, c :: t => shlexFrom .word (c :: rev) t
  | .escaped (some quote), rev, c :: t =>
    -- in double quotes a backslash stays, unless it is before a backslash or the quote
    if c ≠ '\\' ∧ c ≠ quote then shlexFrom (.quoted quote) (c :: '\\' :: rev) t
    else shlexFrom (.quoted quote) (c :: rev) t

variable (t : Text)

/-- `shlex.split(text)`. -/
def shlexSplit : Option (List Text) := shlexFrom .blank [] t

def parseShellJsonLiteral (f : Json.FloatFormat φ) (raw : Text) : Option (Json φ) :=
  let stripped := raw.strip
  if stripped = [] then none
  else
    -- unwrap the quotes of `echo '...'`
    let inner :=
      if 2 ≤ stripped.length ∧ stripped.head? = stripped.getLast? ∧
          stripped.head?.any isQuote then stripped.tail.dropLast
      else stripped
    match Json.loads f inner with
    | some v => some v
    | none =>
      match shlexSplit inner with
      | some (token :: _) => Json.loads f token
      | _ => none

/-- `\s*\|\s*mcpc\s+`. -/
def pipeToMcpc : Matcher :=
  (many isSpace).andThen ((literal ['|']).andThen
    ((many isSpace).andThen ((literalIgnoreCase "mcpc").andThen (many1 isSpace))))

/-- `(.+?)\s*\|\s*mcpc\s+`: the group. -/
def untilPipe : Text → Option Text
  | [] => none
  | c :: t => (pipeToMcpc.search t).map fun r => c :: r.1

/-- `echo\s+(.+?)\s*\|\s*mcpc\s+` at the start of a text: the group. The space is taken as a
whole first, and then less and less of it. -/
def echoPayload : Option Text :=
  (literalIgnoreCase "echo" t).bind fun r =>
    let n := (r.2.takeWhile isSpace).length
    ((List.range n).map fun i => n - i).findSome? fun k => untilPipe (r.2.drop k)

def toolsCallWord : Text := "tools-call"

/-- `text.split(None, 1)`, when it has two parts: the second one. -/
def secondPart : Option Text :=
  let rest := (t.lstrip.dropWhile fun c => !isSpace c).dropWhile isSpace
  if rest = [] then none else some rest

def dict? : Option (Json φ) → Option (Record φ)
  | some (.obj fields) => some fields
  | _ => none

def extractJsonPayload (f : Json.FloatFormat φ) (command : Text) : Option (Record φ) :=
  let echoed := (searchMap echoPayload command).bind fun group =>
    dict? (parseShellJsonLiteral f group.strip)
  let afterCall := ((literal toolsCallWord).search command).bind fun r =>
    (secondPart r.2.2.strip).bind fun part => dict? (parseShellJsonLiteral f part.strip)
  echoed.or afterCall

section

variable (isAlnum : Char → Bool)

/-- `[\w.-]`. -/
def isSessionChar (c : Char) : Bool := isAlnum c || c == '_' || c == '.' || c == '-'

/-- `[^\s|;&]`. -/
def isToolChar (c : Char) : Bool := !isSpace c && c != '|' && c != ';' && c != '&'

/-- `mcpc\s+(@[\w.-]+)\s+tools-call\s+`: the session, and what follows. -/
def mcpcToolsCallStart (t : Text) : Option (Text × Text) := do
  let mcpc ← literalIgnoreCase "mcpc" t
  let space ← many1 isSpace mcpc.2
  let at' ← literal ['@'] space.2
  let name ← many1 (isSessionChar isAlnum) at'.2
  let space ← many1 isSpace name.2
  let call ← literalIgnoreCase toolsCallWord space.2
  let space ← many1 isSpace call.2
  some ('@' :: name.1, space.2)

/-- `_MCPC_TOOLS_CALL_RE` at the start of a text: the two groups. -/
def mcpcToolsCall (t : Text) : Option (Text × Text) := do
  let start ← mcpcToolsCallStart isAlnum t
  let tool ← many1 isToolChar start.2
  some (start.1, tool.1)

def parseMcpcShellCommand (f : Json.FloatFormat φ) (command : Text) : Option (McpcShellCall φ) :=
  let text := command.strip
  if text = [] ∨ (searchMap (literalIgnoreCase "mcpc") text).isNone then none
  else
    match searchMap (mcpcToolsCall isAlnum) text with
    | none => none
    | some (session, toolName) =>
      if session.strip = [] ∨ toolName.strip = [] then none
      else some ⟨session.strip, toolName.strip, (extractJsonPayload f text).getD []⟩

end

/-- `_shell_single_quoted` of `cyt/tools/mcpc_inject.py`. -/
def shellSingleQuoted (value : Text) : Text :=
  '\'' :: (value.flatMap fun c => if c = '\'' then "'\\''" else [c]) ++ ['\'']

/-- `_cli_example` for the JSON text of the arguments. -/
def cliExample (session toolName encoded : Text) : Text :=
  "echo " ++ shellSingleQuoted encoded ++ " | mcpc " ++ session ++
    " tools-call " ++ toolName

abbrev Catalogs (φ : Type) := List (Text × Record φ)

/-- `validate_json_schema(arguments, schema)`. -/
abbrev SchemaValidator (φ : Type) := Record φ → Record φ → Bool × Text

inductive ExposurePersist where
  | getToolDefinitions
  | catalogTool
deriving DecidableEq

structure PreToolDenyExposure (φ : Type) where
  persist : ExposurePersist
  catalog : Text
  toolName : Text
  toolRecord : Option (Record φ)
  mcpcSession : Option Text

/-- What the message of a denial is made from. -/
inductive DenyReason where
  | toolNameRequired
  | unknownTool (catalog toolName : Text)
  | unknownMcpcTool (session toolName : Text)
  | schemaMismatch (catalog toolName reason : Text)

inductive PreToolValidation (φ : Type) where
  | allow
  | deny (reason : DenyReason) (exposure : Option (PreToolDenyExposure φ))

def PreToolValidation.allowed : PreToolValidation φ → Bool
  | .allow => true
  | .deny _ _ => false

def getToolDefinitionsTool : Text := "cyt-mcp_get-tool-definitions"

def cytMcpServerNames : List Text :=
  ["cyt-mcp".toList, "cyt-mcp-usr".toList, "cyt-mcp-ws".toList, "cyt-mcp-workspace".toList,
    "cyt_mcp"]

def shellToolNames : List Text := ["Shell".toList, "shell".toList, "Bash".toList, "bash".toList]

/-- `text.split("__")`, going on from the characters `rev`, in reverse order, of a piece. -/
def splitUnderscoresFrom (rev : Text) : Text → List Text
  | [] => [rev.reverse]
  | '_' :: '_' :: t => rev.reverse :: splitUnderscoresFrom [] t
  | c :: t => splitUnderscoresFrom (c :: rev) t

def splitUnderscores : List Text := splitUnderscoresFrom [] t

variable (name : Text)

/-- `[part for part in name.split("__") if part]`. -/
def nameParts : List Text := (splitUnderscores name).filter fun part => !part.isEmpty

def mcpWord : Text := "mcp"

/-- `f"{server}_{tool}"`. -/
def joinName (server tool : Text) : Text := server ++ '_' :: tool

def normalizeMcpDoubleUnderscoreName : Option Text :=
  match nameParts name with
  | [first, server] => if first = mcpWord then some server else none
  | first :: server :: rest =>
    if first = mcpWord then some (joinName server (Text.join "__" rest)) else none
  | _ => none

def userPrefixes : List Text := ["user-cyt-mcp-".toList, "user_cyt_mcp_".toList]

def stripCytMcpUserPrefix : Text :=
  match userPrefixes.find? fun start => start.isPrefixOf name with
  | some start => name.drop start.length
  | none => name

def normalizeMcpUnderscoreToolName (agent : Option Text) : Option Text :=
  if ¬ "mcp__".toList.isPrefixOf name then none
  else
    match normalizeMcpDoubleUnderscoreName name with
    | some normalized =>
      if cytMcpServerNames.any fun server => (server ++ ['_']).isPrefixOf normalized &&
          "_get-tool-definitions".toList.isSuffixOf normalized then some getToolDefinitionsTool
      else some normalized
    | none =>
      let pieces := splitUnderscores name
      if agent = some "codex".toList ∧ 3 ≤ pieces.length then
        let server := pieces.getD 1 []
        let tool := Text.join "__".toList (pieces.drop 2)
        if server = [] ∨ tool = [] then none else some (joinName server tool)
      else none

/-- `name.upper().startswith("MCP:")`. -/
def hasMcpColon : Bool := (literalIgnoreCase "mcp:" name).isSome

def normalizeMcpToolName (rawName : Text) (agent : Option Text) : Text :=
  let name := rawName.strip
  if name = [] then []
  else
    let name := stripCytMcpUserPrefix name
    let name := if hasMcpColon name then Text.strip (name.drop 4) else name
    match normalizeMcpUnderscoreToolName name agent with
    | some normalized => normalized
    | none => if name = "get-tool-definitions" then getToolDefinitionsTool else name

def isCytMcpGetToolDefinitionsTool (toolName : Text) (agent : Option Text) : Bool :=
  normalizeMcpToolName toolName agent == getToolDefinitionsTool

def rawRoutesThroughCytMcpServer (rawName : Text) : Bool :=
  let name := rawName.strip
  let byParts :=
    "mcp__".toList.isPrefixOf name &&
      match nameParts name with
      | _ :: server :: _ => cytMcpServerNames.contains server
      | _ => false
  let byColon :=
    hasMcpColon name &&
      (let rest := Text.strip (name.drop 4)
       cytMcpServerNames.contains (rest.takeWhile (· != '_')) || "cyt-mcp".toList.isPrefixOf rest)
  byParts || byColon

section

variable (p : PyFormat φ)

variable (payload : Record φ)

def payloadLayers : List (Record φ) :=
  match get? payload "payload" with
  | some (.obj nested) => [payload, nested]
  | _ => [payload]

/-- A string field that is not blank, stripped. -/
def nonBlank (layer : Record φ) (key : Text) : Option Text :=
  match get? layer key with
  | some (.str s) => if s.strip = [] then none else some s.strip
  | _ => none

def firstStr (keys : List Text) : Option Text :=
  (payloadLayers payload).findSome? fun layer => keys.findSome? (nonBlank layer)

def parseToolArgsFromLayer (layer : Record φ) : Option (Record φ) :=
  ["tool_input".toList, "toolInput".toList, "arguments".toList, "args".toList,
    "input".toList].findSome? fun key =>
      match get? layer key with
      | some (.obj args) => some args
      | some (.str s) =>
        if s.strip = [] then none else dict? (Json.loads p s)
      | _ => none

def extractToolArgs : Option (Record φ) :=
  (payloadLayers payload).findSome? (parseToolArgsFromLayer p)

def extractShellCommand : Option Text :=
  let keys := ["command".toList, "cmd".toList]
  ((extractToolArgs p payload).bind fun args => keys.findSome? (nonBlank args)).or
    (firstStr payload keys)

/-- `text.lower()`, of which only the comparison with ASCII names is used. -/
def lower (t : Text) : Text := t.map Char.toLower

def dynamicCallNames : List Text := ["calldynamictool".toList, "mcpcalldynamictool".toList]

def dynamicNamespaces : List Text :=
  ["user-cyt-mcp".toList, "cyt-mcp".toList, "cyt-mcp-usr".toList, "cyt-mcp-ws".toList,
    "user_cyt_mcp"]

def extractDynamicMcpToolCall (toolName : Text) (args : Option (Record φ))
    (agent : Option Text) : Option (Text × Record φ) :=
  match args with
  | none => none
  | some args =>
    if toolName = [] then none
    else if ¬ dynamicCallNames.contains ((lower toolName.strip).filter (· != '-')) then none
    else if ¬ dynamicNamespaces.contains (lower (fieldText p args "namespace").strip) then
      none
    else
      match Json.orElse p (get? args "toolName") (get? args "tool_name") with
      | some (.str innerName) =>
        if innerName.strip = [] then none
        else
          let normalized := normalizeMcpToolName innerName.strip agent
          if normalized = [] then none
          else
            match Json.orElse p (get? args "arguments") (get? args "args") with
            | some (.obj innerArgs) => some (normalized, innerArgs)
            | _ => some (normalized, args)
      | _ => none

def toolNameKeys : List Text :=
  ["tool_name".toList, "toolName".toList, "tool".toList, "name".toList]

def rawToolName : Option Text :=
  match firstStr payload toolNameKeys with
  | some name => some name
  | none =>
    match get? payload "tool_input" with
    | some (.obj toolInput) =>
      (Json.orElse p (get? toolInput "name") (get? toolInput "tool_name")).bind Json.str?
    | _ => none

def extractToolCall (agent : Option Text) : Option Text × Option (Record φ) :=
  match rawToolName p payload with
  | none => (none, none)
  | some toolName =>
    let args := extractToolArgs p payload
    match extractDynamicMcpToolCall p toolName args agent with
    | some (name, innerArgs) => (some name, some innerArgs)
    | none =>
      let normalized := normalizeMcpToolName toolName agent
      (if normalized = [] then none else some normalized, args)

end

section

variable (p : PyFormat φ)

def cytMcpCatalog : Text := "cyt_mcp"
def definitionsCatalog : Text := "definitions"
def mcpcCatalog : Text := "mcpc"

variable (catalogs : Catalogs φ)

/-- `catalogs.get(f"tool_catalog:{catalog}")`. -/
def catalogEntry (catalog : Text) : Option (Record φ) := catalogs.lookup (catalogPrefix ++ catalog)

/-- The records of a catalog: its tools that are objects. -/
def catalogTools (catalog : Text) : List (Record φ) :=
  match (catalogEntry catalogs catalog).bind fun entry => get? entry "tools" with
  | some (.arr tools) => tools.filterMap fun tool => dict? (some tool)
  | _ => []

def findToolInCatalog (catalog toolName : Text) (mcpcSession : Option Text) : Option (Record φ) :=
  (catalogTools catalogs catalog).find? fun tool =>
    (fieldText p tool "name").strip == toolName &&
      match mcpcSession with
      | some session =>
        let own := (fieldText p tool "mcpc_session").strip
        !(catalog == mcpcCatalog && !session.isEmpty && !own.isEmpty && own != session)
      | none => true

variable (toolName : Text)

def resolveCatalogForMcpTool (catalogs : Catalogs φ) : Option Text :=
  [cytMcpCatalog, definitionsCatalog].find? fun catalog =>
    (findToolInCatalog p catalogs catalog toolName none).isSome

def sharesCytMcpProxyPrefix (catalogs : Catalogs φ) : Bool :=
  let requested := toolName.strip
  !requested.isEmpty && (catalogTools catalogs cytMcpCatalog).any fun tool =>
    (fieldText p tool "name").strip == requested ||
      (let serverKey := (fieldText p tool "server_key").strip
       !serverKey.isEmpty && (serverKey ++ ['_']).isPrefixOf requested)

/-- What `_load_gate_context` returns. -/
structure GateContext (φ : Type) where
  catalogs : Catalogs φ
  injectEnabled : Option Bool
  gateActive : Bool
  hallucinationOn : Bool

/-- `_load_gate_context`; `configOn` is the configuration's hallucination gate or verify-only
mode. -/
def loadGateContext (log : Option Text) (configOn : Bool) : GateContext φ :=
  let catalogs := readLatestToolCatalogs p log
  let injectEnabled := readToolsInjectEnabled p log
  let hallucinationOn := (readHallucinationGateEnabled p log).getD false || configOn
  { catalogs
    injectEnabled
    gateActive := !catalogs.isEmpty && (injectEnabled != some false || hallucinationOn)
    hallucinationOn }

variable (validate : SchemaValidator φ)

/-- The schema of a record: `input_schema` if it is an object. -/
def inputSchema (tool : Record φ) : Record φ := (dict? (get? tool "input_schema")).getD []

def unknownCytMcpExposure : PreToolDenyExposure φ :=
  ⟨.getToolDefinitions, cytMcpCatalog, toolName, none, none⟩

def schemaMismatchExposure (catalog toolName : Text) (tool : Record φ)
    (mcpcSession : Option Text) : PreToolDenyExposure φ :=
  ⟨.catalogTool, catalog, toolName, some tool, mcpcSession⟩

def validateMcpcShellPreToolCall (isAlnum : Char → Bool) (catalogs : Catalogs φ)
    (gateActive : Bool) (shellCommand : Text) : Option (PreToolValidation φ) :=
  match parseMcpcShellCommand isAlnum p shellCommand with
  | none => none
  | some call =>
    if gateActive = false ∨ (catalogEntry catalogs mcpcCatalog).isNone then some .allow
    else
      match findToolInCatalog p catalogs mcpcCatalog call.toolName (some call.session) with
      | none => some (.deny (.unknownMcpcTool call.session call.toolName) none)
      | some tool =>
        let result := validate call.args (inputSchema tool)
        if result.1 then some .allow
        else some (.deny (.schemaMismatch mcpcCatalog call.toolName result.2)
          (some (schemaMismatchExposure mcpcCatalog call.toolName tool (some call.session))))

def validateUnlistedMcpTool (payload : Record φ) (toolName : Text) (catalogs : Catalogs φ) :
    PreToolValidation φ :=
  let rawName := (firstStr payload toolNameKeys).getD toolName
  if (catalogEntry catalogs cytMcpCatalog).isNone then .allow
  else if rawRoutesThroughCytMcpServer rawName || sharesCytMcpProxyPrefix p toolName catalogs then
    .deny (.unknownTool cytMcpCatalog toolName) (some (unknownCytMcpExposure toolName))
  else .allow

/-- `_validate_gated_catalog_tool` for a tool of the `cyt_mcp` or `definitions` catalog. -/
def validateGatedCatalogTool (catalog toolName : Text) (args : Option (Record φ))
    (catalogs : Catalogs φ) : PreToolValidation φ :=
  match findToolInCatalog p catalogs catalog toolName none with
  | none =>
    .deny (.unknownTool catalog toolName)
      (if catalog = cytMcpCatalog then some (unknownCytMcpExposure toolName) else none)
  | some tool =>
    let result := validate (args.getD []) (inputSchema tool)
    if result.1 then .allow
    else .deny (.schemaMismatch catalog toolName result.2)
      (some (schemaMismatchExposure catalog toolName tool none))

def validateCatalogToolPreToolCall (payload : Record φ) (catalogs : Catalogs φ)
    (gateActive : Bool) (toolName : Text) (args : Option (Record φ)) : PreToolValidation φ :=
  if gateActive = false then .allow
  else
    match resolveCatalogForMcpTool p toolName catalogs with
    | none => validateUnlistedMcpTool p payload toolName catalogs
    | some catalog => validateGatedCatalogTool p validate catalog toolName args catalogs

/-- `_validate_get_tool_definitions_args`: whether the arguments name a tool. -/
def namesATool (args : Option (Record φ)) : Bool :=
  match args with
  | none => false
  | some args =>
    match Json.orElse p (get? args "tool_name") (get? args "toolName") with
    | some (.str nested) => !(nested.strip).isEmpty
    | _ => false

/-- `validate_pre_tool_call` in a gate context. -/
def validateInContext (isAlnum : Char → Bool) (agent : Option Text) (context : GateContext φ)
    (payload : Record φ) : PreToolValidation φ :=
  if context.injectEnabled = some false ∧ context.hallucinationOn = false then .allow
  else
    let call := extractToolCall p payload agent
    let shellResult :=
      match call.1, extractShellCommand p payload with
      | some toolName, some command =>
        if shellToolNames.contains toolName then
          validateMcpcShellPreToolCall p validate isAlnum context.catalogs context.gateActive
            command
        else none
      | _, _ => none
    match shellResult with
    | some result => result
    | none =>
      match call.1 with
      | none => .allow
      | some toolName =>
        if context.hallucinationOn = false ∧ isCytMcpGetToolDefinitionsTool toolName agent then
          if namesATool p call.2 then .allow else .deny .toolNameRequired none
        else if context.gateActive = false then .allow
        else validateCatalogToolPreToolCall p validate payload context.catalogs
          context.gateActive toolName call.2

def validatePreToolCall (isAlnum : Char → Bool) (agent : Option Text) (configOn : Bool)
    (log : Option Text) (payload : Record φ) : PreToolValidation φ :=
  validateInContext p validate isAlnum agent (loadGateContext p log configOn) payload

end

end ClearYourTools.CytClient
