import ClearYourTools.Injection.SessionLog

/-!
# Pre-exposure

`injection/pre_exposed.py`, `injection/mcpc_pre_exposed.py` and
`injection/pre_exposure_pipeline.py` for tools: what the session gate lets through is filtered
again by the text of the session, and the entries of what is left go to the session log.
-/

namespace ClearYourTools.Injection.SessionLog

open Misc CytClient

variable {φ : Type}

/-- `PreExposureContext`, without what the functions below do not read. -/
structure PreExposureContext (φ : Type) where
  payloadText : Text
  index : SessionLogIndex φ
  combinedText : Text

/-- A filter of a text, which drops nothing if the text is blank. -/
def filterByText {α : Type} (text : Text) (test : α → Bool) (xs : List α) : List α :=
  if text.strip = [] then xs else xs.filter test

/-- `fragment and is_pre_exposed(fragment, session_text)`. -/
def exposes (text fragment : Text) : Bool := fragment != [] && isPreExposed fragment text

/-- The test of the loop of `filter_pre_exposed_tools`. -/
def toolNotExposed (env : SessionEnv φ) (text : Text) (tool : Record φ) : Bool :=
  !exposes text (formatToolItem (shownTool env true tool))

/-- The test of the loop of `filter_pre_exposed_mcpc_tools`. -/
def mcpcToolNotExposed (env : SessionEnv φ) (text : Text) (tool : Record φ) : Bool :=
  !exposes text (formatMcpcToolItem env true tool)

def toolPreservesFullInjection (env : SessionEnv φ) (fullFlags : Dict Text Bool)
    (catalogKind : Source) (tool : Record φ) : Bool :=
  (toolItemKey env catalogKind tool ::
    toolItemLegacyKeys env catalogKind tool).any fun key =>
      (fullFlags.get? key).getD false

/-- The test of the loop of `_filter_pre_exposed_tools_preserving_full`. -/
def keptPreservingFull (env : SessionEnv φ) (fullFlags : Dict Text Bool) (catalogKind : Source)
    (text : Text) (tool : Record φ) : Bool :=
  toolPreservesFullInjection env fullFlags catalogKind tool || toolNotExposed env text tool

/-- The test of the loop of `filter_pre_exposed_native_tools`. -/
def nativeToolNotExposed (env : SessionEnv φ) (ctx : PreExposureContext φ) (tool : Record φ) :
    Bool :=
  let p := env.toPyFormat
  let name := strippedField p tool nameKey
  let catalog := toolCatalogKind env tool
  !(name != [] && decide (name <:+: ctx.payloadText)) &&
    decide (resolveInjectionMode env (toolItemKey p catalog tool)
      (toolContentHash env [] catalog tool) ctx.index ctx.payloadText name name [] ≠ .skip)

def mcpcServerInstructionsSuffix : Text := "/__server_instructions__"

/-- Whether `split_mcpc_prune_result` takes a tool for a real one. -/
def isRealTool (p : Json.PyFormat φ) (tool : Record φ) : Bool :=
  !mcpcServerInstructionsSuffix.isSuffixOf (fieldText p tool nameKey)

def instructionSession (p : Json.PyFormat φ) (tool : Record φ) : Text :=
  let name := fieldText p tool nameKey
  name.take (name.length - mcpcServerInstructionsSuffix.length)

/-- `split_mcpc_prune_result`: the real tools, and the sessions whose instructions survived. -/
def splitMcpcPruneResult (p : Json.PyFormat φ) (tools : List (Record φ)) :
    List (Record φ) × List Text :=
  (tools.filter (isRealTool p),
    ((tools.filter fun tool => !isRealTool p tool).map (instructionSession p)).filter
      fun session => !session.isEmpty)

def catalogKindForSourceId (sourceId : Text) : Source := (Source.ofName? sourceId).getD .executor

/-- The entries whose keys are among those of what was kept. -/
def loggedUnder (p : Json.PyFormat φ) (keys : List Text) (entries : List (Record φ)) :
    List (Record φ) :=
  entries.filter fun entry => keys.contains (fieldText p entry keyKey)

/-- What `gate_and_filter_tools` is called with, besides the tools: a `refresh` looks neither at
the log nor at the text of the session. -/
structure FilterCall (φ : Type) where
  ctx : PreExposureContext φ
  catalogTools : List (Record φ)
  sourceId : Option Text
  refresh : Bool

namespace FilterCall

variable (env : SessionEnv φ) (call : FilterCall φ)

def usesMcpc : Bool :=
  match call.sourceId with
  | some sourceId => sourceId == Source.mcpc.catalogName
  | none => env.usesMcpcToolCatalog

def configuredCatalog : Source := if env.usesMcpcToolCatalog then .mcpc else .executor

def catalogKind : Source :=
  if call.usesMcpc env then .mcpc
  else
    match call.sourceId with
    | some (c :: sourceId) => catalogKindForSourceId (c :: sourceId)
    | _ => configuredCatalog env

def gateCall : GateCall φ where
  sessionText := if call.refresh then [] else call.ctx.payloadText
  index := if call.refresh then [] else call.ctx.index
  catalogTools := call.catalogTools
  includeToolDescription := true
  serverContext _ _ := none

/-- The tools that go to the gate. -/
def workingTools (tools : List (Record φ)) : List (Record φ) :=
  if call.usesMcpc env then (splitMcpcPruneResult env tools).1 else tools

/-- What the filters leave of the gated tools. -/
def filterTools (fullFlags : Dict Text Bool) (tools : List (Record φ)) : List (Record φ) :=
  let text := (call.gateCall).sessionText
  let combined := if call.refresh then [] else call.ctx.combinedText
  let payloadGated := filterByText text (keptPreservingFull env fullFlags (call.catalogKind env) text)
    tools
  if call.usesMcpc env then filterByText combined (mcpcToolNotExposed env combined) payloadGated
  else filterByText combined (keptPreservingFull env fullFlags (call.catalogKind env) combined)
    payloadGated

/-- `gate_and_filter_tools`: the tools and their log entries, `none` where it raises. -/
def gateAndFilterTools (tools : List (Record φ)) : Option (List (Record φ) × List (Record φ)) :=
  (call.gateCall.gateToolsForSession env (call.workingTools env tools)).map fun state =>
    let gated := call.filterTools env state.fullFlags state.kept
    (gated, loggedUnder env (gated.map (toolItemKey env (call.catalogKind env))) state.logEntries)

/-- The third result of `gate_and_filter_tools`. -/
def survivingInstructionSessions (tools : List (Record φ)) : Option (List Text) :=
  if call.usesMcpc env then some (splitMcpcPruneResult env tools).2 else none

end FilterCall

/-- The call of the session gate for native tools. -/
def nativeGateCall (ctx : PreExposureContext φ) (catalogTools : List (Record φ)) :
    GateCall φ where
  sessionText := ctx.payloadText
  index := ctx.index
  catalogTools := catalogTools
  includeToolDescription := true
  serverContext _ _ := none

/-- `gate_and_filter_native_tools`, `none` where it raises. -/
def gateAndFilterNativeTools (env : SessionEnv φ) (ctx : PreExposureContext φ)
    (catalogTools tools : List (Record φ)) : Option (List (Record φ) × List (Record φ)) :=
  ((nativeGateCall ctx catalogTools).gateToolsForSession env tools).map fun state =>
    let gated := state.kept.filter (nativeToolNotExposed env ctx)
    (gated, loggedUnder env
      (gated.map (toolItemKey env (FilterCall.configuredCatalog env))) state.logEntries)

/-! ## Pre-exposure of skills and resources -/

/-- `MatchedSkill`, without its score. -/
structure MatchedSkill where
  docId : Text
  filePath : Text
  markdown : Text
  name : Option Text
  command : Option Text
  contentHash : Option Text

/-- `MatchedResource`, without its score. -/
structure MatchedResource where
  docId : Text
  filePath : Text
  markdown : Text
  name : Option Text
  command : Text
  description : Text
  contentHash : Option Text

/-- What the functions for skills and resources call: the `mcpc_command` of a frontmatter, if it
is a text that is not blank, a markdown text without its frontmatter, the paths that are shown and
logged, what the file system says of a skill (the hash of its file, and whether a match has all of
its body), the commands in the tags of a text, and the denied skills. -/
structure ItemEnv (φ : Type) extends SessionEnv φ where
  frontmatterCommand : Text → Option Text
  injectionMarkdownBody : Text → Text
  shortenHomePath : Text → Text
  displaySkillPath : Text → Text
  fileHash : Text → Text → Text
  isContentComplete : MatchedSkill → Bool
  commandAttrValues : Text → List Text
  isSkillDenied : MatchedSkill → Bool

instance : Coe (ItemEnv φ) (SessionEnv φ) := ⟨ItemEnv.toSessionEnv⟩

variable (env : ItemEnv φ)

/-- An optional text that is there and not empty. -/
def textOrNone : Option Text → Option Text
  | some (c :: t) => some (c :: t)
  | _ => none

/-- `skill_content_hash` and `resource_content_hash`. -/
def itemContentHash (contentHash : Option Text) (filePath markdown : Text) : Text :=
  (textOrNone contentHash).getD (env.fileHash filePath markdown)

def resolveSkillCommand (skill : MatchedSkill) : Option Text :=
  (textOrNone skill.command).or (env.frontmatterCommand skill.markdown)

def skillCommand (skill : MatchedSkill) : Option Text :=
  match textOrNone skill.command with
  | some command => some command.strip
  | none => resolveSkillCommand env skill

def skillItemKey (skill : MatchedSkill) (command : Option Text) : Text :=
  match textOrNone command with
  | some command => "skill:cmd:" ++ command
  | none => "skill:" ++ env.shortenHomePath skill.filePath

def resourceItemKey (resource : MatchedResource) : Text := "resource:" ++ resource.command.strip

def skillBody (skill : MatchedSkill) (bodyIncludeFrontmatter : Bool) : Text :=
  (if bodyIncludeFrontmatter then skill.markdown
    else env.injectionMarkdownBody skill.markdown).rstrip

def resourceBody (resource : MatchedResource) (full : Bool) : Text :=
  (if full then resource.markdown else env.injectionMarkdownBody resource.markdown).rstrip

def formatSkillFragment (skill : MatchedSkill) (full : Bool) : Text :=
  formatSkillItem
    { tier := .hot
      path := env.displaySkillPath skill.filePath
      name := skill.name.getD []
      command := (resolveSkillCommand env skill).getD []
      body := skillBody env skill full }

def resourceOpenTag (resource : MatchedResource) : Text :=
  let description := resource.description.strip
  let name := resource.name.getD []
  "<resource command='".toList ++ xmlSingleQuotedAttr resource.command ++ "'".toList ++
    (if description = [] then []
      else " description='".toList ++ xmlSingleQuotedAttr description ++ "'".toList) ++
    (if name = [] then [] else " name='".toList ++ xmlSingleQuotedAttr name ++ "'".toList) ++
    ">"

def formatResourceFragment (resource : MatchedResource) (full : Bool) : Text :=
  let body := resourceBody env resource full
  if body = [] then []
  else Text.joinLines [resourceOpenTag resource, body, "</resource>"]

/-- The field of an optional text, if it is there and not empty. -/
def optionalText (key : Text) (value : Option Text) : Record φ :=
  match textOrNone value with
  | some value => [(key, .str value)]
  | none => []

def buildSkillLogEntry (skill : MatchedSkill) (full bodyIncludeFrontmatter : Bool) : Record φ :=
  let command := skillCommand env skill
  let fromFile := (textOrNone command).isNone
  [(kindKey, .str "skill".toList), (keyKey, .str (skillItemKey env skill command)),
    (hashKey, .str (itemContentHash env skill.contentHash skill.filePath skill.markdown)),
    (fullKey, .bool full),
    ("source", .str (if fromFile then "file" else "mcpc")),
    ("body", .str (skillBody env skill bodyIncludeFrontmatter))] ++
    optionalText nameKey skill.name ++
    (if fromFile then [("path".toList, .str (env.shortenHomePath skill.filePath))] else []) ++
    optionalText "command" command

def buildResourceLogEntry (resource : MatchedResource) (full : Bool) : Record φ :=
  let description := resource.description.strip
  [(kindKey, .str "resource"), (keyKey, .str (resourceItemKey resource)),
    (hashKey,
      .str (itemContentHash env resource.contentHash resource.filePath resource.markdown)),
    (fullKey, .bool full), ("source", .str Source.mcpc.catalogName),
    ("command", .str resource.command.strip),
    ("body", .str (resourceBody env resource full))] ++
    optionalText nameKey resource.name ++ optionalText descriptionKey (some description)

/-- What the loop of a gate has built for an item: the item and its entry. -/
abbrev GatedItem (α φ : Type) := α × Record φ

/-- A gate over items: those that are not skipped, with their entries. -/
def gateItems {α : Type} (mode : α → InjectionMode) (entry : Bool → α → Record φ)
    (xs : List α) : List (GatedItem α φ) :=
  xs.filterMap fun x =>
    match mode x with
    | .skip => none
    | .skinny => some (x, entry false x)
    | .full => some (x, entry true x)

/-- The mode of a skill in `gate_skills_for_session`. -/
def skillMode (ctx : PreExposureContext φ) (skill : MatchedSkill) : InjectionMode :=
  resolveInjectionMode env (skillItemKey env skill (resolveSkillCommand env skill))
    (itemContentHash env skill.contentHash skill.filePath skill.markdown) ctx.index
    ctx.payloadText (formatSkillFragment env skill false) (formatSkillFragment env skill true) []

def gateSkillsForSession (ctx : PreExposureContext φ) (skills : List MatchedSkill) :
    List (GatedItem MatchedSkill φ) :=
  gateItems (skillMode env ctx)
    (fun full skill => buildSkillLogEntry env skill (full || env.isContentComplete skill) full)
    skills

/-- The mode of a resource in `gate_resources_for_session`. -/
def resourceMode (ctx : PreExposureContext φ) (resource : MatchedResource) : InjectionMode :=
  resolveInjectionMode env (resourceItemKey resource)
    (itemContentHash env resource.contentHash resource.filePath resource.markdown) ctx.index
    ctx.payloadText (formatResourceFragment env resource false)
    (formatResourceFragment env resource true) []

def gateResourcesForSession (ctx : PreExposureContext φ) (resources : List MatchedResource) :
    List (GatedItem MatchedResource φ) :=
  gateItems (resourceMode env ctx) (fun full resource => buildResourceLogEntry env resource full)
    resources

def commandPreExposed (text command : Text) : Bool :=
  let command := command.strip
  command != [] && (decide (command <:+: text) ||
    decide ("command='".toList ++ xmlSingleQuotedAttr command ++ "'".toList <:+: text) ||
    (env.commandAttrValues text).any fun value =>
      value == command || value == xmlSingleQuotedAttr command)

/-- The test of the loop of `filter_pre_exposed_skills`. -/
def skillNotExposed (text : Text) (skill : MatchedSkill) : Bool :=
  !(exposes text (formatSkillFragment env skill false) ||
    exposes text (formatSkillFragment env skill true)) &&
  !((textOrNone skill.command).any (commandPreExposed env text))

/-- The test of the loop of `filter_pre_exposed_resources`. -/
def resourceNotExposed (text : Text) (resource : MatchedResource) : Bool :=
  !exposes text (formatResourceFragment env resource false) &&
    !commandPreExposed env text resource.command

def filterSkills (ctx : PreExposureContext φ) (skills : List MatchedSkill) : List MatchedSkill :=
  (filterByText ctx.combinedText (skillNotExposed env ctx.combinedText)
    (filterByText ctx.payloadText (skillNotExposed env ctx.payloadText) skills)).filter
      fun skill => !env.isSkillDenied skill

def gateAndFilterSkills (ctx : PreExposureContext φ) (skills : List MatchedSkill) :
    List MatchedSkill × List (Record φ) :=
  let items := gateSkillsForSession env ctx skills
  let gated := filterSkills env ctx (items.map Prod.fst)
  (gated, loggedUnder env (gated.map fun skill => skillItemKey env skill none)
    (items.map Prod.snd))

def filterResources (ctx : PreExposureContext φ) (resources : List MatchedResource) :
    List MatchedResource :=
  filterByText ctx.combinedText (resourceNotExposed env ctx.combinedText)
    (filterByText ctx.payloadText (resourceNotExposed env ctx.payloadText) resources)

def gateAndFilterResources (ctx : PreExposureContext φ) (resources : List MatchedResource) :
    List MatchedResource × List (Record φ) :=
  let items := gateResourcesForSession env ctx resources
  let gated := filterResources env ctx (items.map Prod.fst)
  (gated, loggedUnder env (gated.map resourceItemKey) (items.map Prod.snd))

end ClearYourTools.Injection.SessionLog
