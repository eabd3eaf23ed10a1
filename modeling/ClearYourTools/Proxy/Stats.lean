import ClearYourTools.Misc.Tally
import ClearYourTools.Misc.Text

/-!
# The statistics of the proxy

`proxy/stats.py`: the three tables of the stats database, what is recorded in them, the totals that
are read from them, and the rollup that merges the requests of a past day. A column with a JSON
list is that list, and `GROUP BY` is a function from keys. Dates, the look-up of a provider and
prices are parameters.
-/

namespace ClearYourTools.Proxy.Stats

open Misc

/-- A row of `proxy_request`, without its id. -/
structure ProxyColumns where
  endpoint : Text
  toolsIn : ℕ
  toolCountIn : ℕ
  toolPropertiesCountIn : ℕ
  toolsOut : ℕ
  toolCountOut : ℕ
  toolPropertiesCountOut : ℕ
  toolsPruned : ℕ
  toolCountPruned : ℕ
  toolPropertiesCountPruned : ℕ
  tsMs : ℤ
  pruneStatus : Text
  pipeline : List Text
  query : Option Text
  error : Option Text
  toolsAcceptedJson : Option Text
  toolsFinalJson : Option Text
  skillsIn : ℕ
  hasError : Bool
  requestTokens : ℕ
  skillsFinalMd : Option Text

/-- A row of `proxy_request`. -/
structure ProxyRow extends ProxyColumns where
  id : ℕ

/-- The columns of `model_request` that name a model and a stage. -/
structure ModelKey where
  modelName : Option Text
  providerDnsName : Option Text
  provider : Option Text
  isUpstream : Bool
  stage : Text
deriving DecidableEq

/-- A row of `model_request`. -/
structure ModelRow extends ModelKey where
  id : ℕ
  proxyRequestId : ℕ

/-- The columns of `tokens` besides the count. -/
structure TokenKey where
  type : Text
  isSaved : Bool
  tokenizerUsed : Text
deriving DecidableEq

structure TokenRow extends TokenKey where
  id : ℕ
  modelRequestId : ℕ
  tokens : ℤ

/-- The database, with the next id that `new_uuid7` gives. -/
structure StatsDb where
  proxyRequest : List ProxyRow
  modelRequest : List ModelRow
  tokens : List TokenRow
  nextId : ℕ

def StatsDb.empty : StatsDb := ⟨[], [], [], 0⟩

structure TokenRecord extends TokenKey where
  tokens : ℤ

structure ModelRequestRecord extends ModelKey where
  tokenRows : List TokenRecord

def inputType : Text := "input"
def outputType : Text := "output"
def reasoningType : Text := "reasoning"
def upstreamStage : Text := "upstream"
def toolsStage : Text := "tools"
def skillsStage : Text := "skills"
def llmStage : Text := "llm"
def rerankStage : Text := "rerank"
def bm25Stage : Text := "bm25"

def tiktokenCl100k : Text := "tiktoken:cl100k_base"

def TokenRecord.counted (type : Text) (tokens : ℤ) (isSaved : Bool) : TokenRecord :=
  ⟨⟨type, isSaved, tiktokenCl100k⟩, tokens⟩

/-- A row of the loop of `_insert_model_request`: zero is not stored, nor is a negative count that
is not saved. -/
def insertTokenRow (modelId : ℕ) (db : StatsDb) (row : TokenRecord) : StatsDb :=
  if row.tokens = 0 then db
  else if row.tokens < 0 ∧ row.isSaved = false then db
  else
    { db with
      tokens := db.tokens ++ [⟨row.toTokenKey, db.nextId, modelId, row.tokens⟩]
      nextId := db.nextId + 1 }

def insertModelRequest (proxyId : ℕ) (db : StatsDb) (record : ModelRequestRecord) : StatsDb :=
  record.tokenRows.foldl (insertTokenRow db.nextId)
    { db with
      modelRequest := db.modelRequest ++ [⟨record.toModelKey, db.nextId, proxyId⟩]
      nextId := db.nextId + 1 }

structure StageTokenUsage where
  inputTokens : ℕ
  outputTokens : ℕ
  reasoningTokens : Option ℕ
  usageSource : Text
  modelName : Option Text
  providerDnsName : Option Text
  provider : Option Text

def pruningStatStages : List Text := [rerankStage, llmStage, bm25Stage]

/-- The token rows of a stage in `_insert_pruning_stage_requests`. -/
def StageTokenUsage.tokenRows (usage : StageTokenUsage) : List TokenRecord :=
  ([(inputType, usage.inputTokens), (outputType, usage.outputTokens),
      (reasoningType, usage.reasoningTokens.getD 0)].filter fun count => 0 < count.2).map
    fun count => ⟨⟨count.1, false, usage.usageSource⟩, count.2⟩

/-- Whether a stage is recorded: one without tokens is only for `bm25` with a model. -/
def StageTokenUsage.isRecorded (stage : Text) (usage : StageTokenUsage) : Bool :=
  !(usage.inputTokens == 0 && usage.outputTokens == 0) ||
    (stage == bm25Stage && usage.modelName.any fun name => !name.isEmpty)

/-- The records of `_insert_pruning_stage_requests`. -/
def pruningStageRecords (pruningStages : Dict Text StageTokenUsage) : List ModelRequestRecord :=
  pruningStatStages.filterMap fun stage =>
    match pruningStages.get? stage with
    | none => none
    | some usage =>
      if usage.isRecorded stage then
        some ⟨⟨usage.modelName, usage.providerDnsName, usage.provider, false, stage⟩,
          usage.tokenRows⟩
      else none

/-- What a recording function inserts: a request and the model requests of it, in order. -/
def insertRequest (columns : ProxyColumns) (records : List ModelRequestRecord) (db : StatsDb) :
    StatsDb :=
  records.foldl (insertModelRequest db.nextId)
    { db with
      proxyRequest := db.proxyRequest ++ [⟨columns, db.nextId⟩]
      nextId := db.nextId + 1 }

structure ProxyRequestRecord where
  endpoint : Text
  toolsIn : ℕ
  toolCountIn : ℕ
  toolPropertiesCountIn : ℕ
  toolsOut : ℕ
  toolCountOut : ℕ
  toolPropertiesCountOut : ℕ
  pruneStatus : Text
  pipeline : List Text
  upstreamModelName : Option Text
  upstreamProviderDns : Option Text
  upstreamProvider : Option Text
  query : Option Text
  error : Option Text
  toolsAcceptedJson : Option Text
  toolsFinalJson : Option Text
  pruningStages : Dict Text StageTokenUsage

variable (tsMs : ℤ)

def recordProxyRequest (record : ProxyRequestRecord) : StatsDb → StatsDb :=
  insertRequest
    { record with
      toolsPruned := record.toolsIn - record.toolsOut
      toolCountPruned := record.toolCountIn - record.toolCountOut
      toolPropertiesCountPruned := record.toolPropertiesCountIn - record.toolPropertiesCountOut
      tsMs := tsMs
      skillsIn := 0
      hasError := record.error.any fun error => !error.isEmpty
      requestTokens := 0
      skillsFinalMd := none }
    ([⟨⟨record.upstreamModelName, record.upstreamProviderDns, record.upstreamProvider, true,
        upstreamStage⟩, [.counted inputType (record.toolsIn - record.toolsOut : ℕ) true]⟩,
      ⟨⟨none, none, none, false, toolsStage⟩, [.counted inputType record.toolsIn false,
        .counted outputType record.toolsOut false]⟩] ++ pruningStageRecords record.pruningStages)

/-- The arguments of `record_skills_injection`, with what `lookup_model_provider` gives for the
model: its provider and the DNS name of that. -/
structure SkillsInjection where
  query : Text
  modelName : Text
  skillsIn : ℕ
  requestTokens : ℕ
  injectPath : Text
  skillsFinalMd : Option Text
  provider : Option Text
  providerDns : Option Text

/-- The columns of a request without tools. -/
def ProxyColumns.plain (endpoint : Text) (tsMs : ℤ) (pruneStatus : Text) (pipeline : List Text) :
    ProxyColumns where
  endpoint := endpoint
  toolsIn := 0
  toolCountIn := 0
  toolPropertiesCountIn := 0
  toolsOut := 0
  toolCountOut := 0
  toolPropertiesCountOut := 0
  toolsPruned := 0
  toolCountPruned := 0
  toolPropertiesCountPruned := 0
  tsMs := tsMs
  pruneStatus := pruneStatus
  pipeline := pipeline
  query := none
  error := none
  toolsAcceptedJson := none
  toolsFinalJson := none
  skillsIn := 0
  hasError := false
  requestTokens := 0
  skillsFinalMd := none

def skillsEndpoint (injectPath : Text) : Text :=
  if injectPath == "hook" || injectPath == "proxy" then
    "skills-" ++ injectPath
  else "skills"

def recordSkillsInjection (call : SkillsInjection) : StatsDb → StatsDb :=
  insertRequest
    { ProxyColumns.plain (skillsEndpoint call.injectPath) tsMs "applied" [bm25Stage] with
      query := some call.query
      skillsIn := call.skillsIn
      requestTokens := call.requestTokens
      skillsFinalMd := call.skillsFinalMd }
    [⟨⟨some call.modelName, call.providerDns, call.provider, true, skillsStage⟩,
      [.counted inputType call.skillsIn false]⟩]

/-- The arguments of `record_tools_hook_injection`, with what `lookup_model_provider` gives. -/
structure ToolsHookInjection where
  query : Text
  modelName : Text
  toolsIn : ℕ
  toolsOut : ℕ
  promptTokens : ℕ
  pruningStages : Dict Text StageTokenUsage
  toolsFinalMd : Option Text
  pruneStatus : Text
  pipeline : Option (List Text)
  provider : Option Text
  providerDns : Option Text

def pruningPipelineOrder : List Text := [bm25Stage, rerankStage, llmStage]

def effectivePruningPipelineFromStages (stages : Dict Text StageTokenUsage) : List Text :=
  pruningPipelineOrder.filter stages.contains

/-- The upstream rows of a tools hook: what was pruned is saved, what the prompt cost is taken from
it. -/
def ToolsHookInjection.upstreamRows (call : ToolsHookInjection) : List TokenRecord :=
  (if 0 < call.toolsIn - call.toolsOut then
      [.counted inputType (call.toolsIn - call.toolsOut : ℕ) true] else []) ++
    (if 0 < call.promptTokens then [.counted inputType (-(call.promptTokens : ℤ)) true] else [])

def recordToolsHookInjection (call : ToolsHookInjection) : StatsDb → StatsDb :=
  let model := fun isUpstream stage =>
    (⟨some call.modelName, call.providerDns, call.provider, isUpstream, stage⟩ : ModelKey)
  insertRequest
    { ProxyColumns.plain "tools-hook" tsMs call.pruneStatus
        (call.pipeline.getD (effectivePruningPipelineFromStages call.pruningStages)) with
      toolsIn := call.toolsIn
      toolsOut := call.toolsOut
      toolsPruned := call.toolsIn - call.toolsOut
      query := some call.query
      toolsFinalJson := call.toolsFinalMd
      requestTokens := call.promptTokens }
    ((if call.upstreamRows.isEmpty then [] else [⟨model true upstreamStage, call.upstreamRows⟩]) ++
      [⟨model false toolsStage, [.counted inputType call.toolsIn false,
        .counted outputType call.toolsOut false]⟩] ++ pruningStageRecords call.pruningStages)

/-! ## Totals and the rollup -/

variable (db : StatsDb)

/-- The rows of `model_request` of a request. -/
def modelsOf (proxyId : ℕ) : List ModelRow :=
  db.modelRequest.filter fun row => row.proxyRequestId == proxyId

/-- The rows of `tokens` of a model request. -/
def tokensOf (modelId : ℕ) : List TokenRow :=
  db.tokens.filter fun row => row.modelRequestId == modelId

/-- `proxy_request p JOIN model_request m ON m.proxy_request_id = p.id`. -/
def joinedModels : List (ProxyRow × ModelRow) :=
  db.proxyRequest.flatMap fun p => (modelsOf db p.id).map fun m => (p, m)

/-- The join of the three tables. -/
def joinedTokens : List (ProxyRow × ModelRow × TokenRow) :=
  (joinedModels db).flatMap fun row => (tokensOf db row.2.id).map fun t => (row.1, row.2, t)

/-- `SUM(value) … GROUP BY key`. -/
def groupedSum {α κ : Type} [DecidableEq κ] (key : α → κ) (value : α → ℤ) (rows : List α) (k : κ) :
    Option ℤ :=
  let group := rows.filter fun row => decide (key row = k)
  if group.isEmpty then none else some (sumOf value group)

def skillsEndpoints : List Text := ["skills".toList, "skills-hook".toList, "skills-proxy".toList]

/-- What `query_totals` returns. -/
structure Totals where
  events : ℤ
  toolsSentUpstream : ℤ
  toolsSaved : ℤ
  toolsAccepted : ℤ
  llmInput : ℤ
  llmOutput : ℤ
  rerankInput : ℤ
  rerankOutput : ℤ
  skillsIn : ℤ
deriving DecidableEq

/-- The sum of the tokens that a condition keeps. -/
def sumTokens (keep : ModelKey → TokenKey → Bool) : ℤ :=
  sumOf (fun row => row.2.2.tokens) ((joinedTokens db).filter fun row =>
    keep row.2.1.toModelKey row.2.2.toTokenKey)

/-- The tokens of a stage that were not saved. -/
def stageTokens (stage type : Text) : ℤ :=
  sumTokens db fun model token => model.stage == stage && token.type == type && !token.isSaved

/-- The tokens of the skills that were injected. -/
def skillsInTotal : ℤ :=
  sumOf (fun p => p.skillsIn) (db.proxyRequest.filter fun p => skillsEndpoints.contains p.endpoint)

/-- `query_totals("all")`. -/
def queryTotals : Totals where
  events := db.proxyRequest.length
  toolsSentUpstream := stageTokens db toolsStage outputType
  toolsSaved := sumTokens db fun _ token => token.isSaved
  toolsAccepted := stageTokens db toolsStage inputType
  llmInput := stageTokens db llmStage inputType
  llmOutput := stageTokens db llmStage outputType
  rerankInput := stageTokens db rerankStage inputType
  rerankOutput := stageTokens db rerankStage outputType
  skillsIn := skillsInTotal db

def queryStageModelTokens : Text × Option Text × Text → Option ℤ :=
  groupedSum (fun row => (row.2.1.stage, row.2.1.modelName, row.2.2.type))
    (fun row => row.2.2.tokens)
    ((joinedTokens db).filter fun row =>
      [llmStage, rerankStage, bm25Stage, skillsStage].contains row.2.1.stage && !row.2.2.isSaved)

/-- `query_upstream_saved_tokens("all")`: by model and DNS name. -/
def queryUpstreamSavedTokens : Option Text × Option Text → Option ℤ :=
  groupedSum (fun row => (row.2.1.modelName, row.2.1.providerDnsName)) (fun row => row.2.2.tokens)
    ((joinedTokens db).filter fun row => row.2.1.stage == upstreamStage && row.2.2.isSaved)

/-- `query_skills_injection_tokens("all")`: by model and DNS name. -/
def querySkillsInjectionTokens : Option Text × Option Text → Option ℤ :=
  groupedSum (fun row => (row.2.modelName, row.2.providerDnsName)) (fun row => row.1.skillsIn)
    ((joinedModels db).filter fun row =>
      skillsEndpoints.contains row.1.endpoint && row.2.stage == skillsStage)

/-- What the budget calls of `common/pricing.py` and the limits of the configuration.
`compute_stats_costs` passes over counts that are not positive. -/
structure BudgetEnv (κ : Type) where
  computeStatsCosts : (Text × Option Text × Text → Option ℤ) →
    (Option Text × Option Text → Option ℤ) → (Option Text × Option Text → Option ℤ) → κ
  computeNetSavingsTokens : (toolsSaved toolsAccepted : ℤ) → κ → (skillsIn : ℤ) → ℤ
  hookLimit : ℤ → ℤ
  proxyLimit : ℤ → ℤ

def positiveCounts {κ : Type} (result : κ → Option ℤ) (k : κ) : Option ℤ :=
  (result k).filter fun count => 0 < count

structure SkillsGlobalState where
  skillsInjectedTotal : ℤ
  cumulativeRequestTokens : ℤ
  priorNetSavingsTokens : ℤ
  limitGlobal : ℤ
  limitGlobalRemaining : ℤ
  bootstrap : Bool

def querySkillsBudgetState {κ : Type} (env : BudgetEnv κ) (db : StatsDb) (injectPath : Text) :
    SkillsGlobalState :=
  let skillsInjectedTotal := skillsInTotal db
  let totals := queryTotals db
  let cumulativeRequestTokens := totals.skillsIn + totals.toolsSentUpstream
  let costs := env.computeStatsCosts (positiveCounts (queryStageModelTokens db))
    (positiveCounts (queryUpstreamSavedTokens db)) (positiveCounts (querySkillsInjectionTokens db))
  let priorNetSavingsTokens := max 0
    (env.computeNetSavingsTokens totals.toolsSaved totals.toolsAccepted costs skillsInjectedTotal)
  let byHook := injectPath == "hook"
  let limitGlobal :=
    if byHook then env.hookLimit cumulativeRequestTokens else env.proxyLimit priorNetSavingsTokens
  { skillsInjectedTotal := skillsInjectedTotal
    cumulativeRequestTokens := cumulativeRequestTokens
    priorNetSavingsTokens := priorNetSavingsTokens
    limitGlobal := limitGlobal
    limitGlobalRemaining := max 0 (limitGlobal - skillsInjectedTotal)
    bootstrap := if byHook then cumulativeRequestTokens == 0 else priorNetSavingsTokens == 0 }

/-- Days of the local calendar, the day of a time and the time at which a day starts. -/
structure Calendar (δ : Type) where
  dayOf : ℤ → δ
  dayStart : δ → ℤ
  dayOf_dayStart : ∀ day, dayOf (dayStart day) = day

/-- `EXECUTED_STAGE_FINGERPRINT_STAGES`, sorted. -/
def executedStages : List Text := [bm25Stage, llmStage, rerankStage, skillsStage]

def executedStagesFingerprint (proxyId : ℕ) : Text :=
  [','].intercalate (executedStages.filter fun stage =>
    (modelsOf db proxyId).any fun row => row.stage == stage)

/-- What the requests that are merged share. -/
structure GroupKey (δ : Type) where
  day : δ
  endpoint : Text
  pruneStatus : Text
  pipeline : List Text
  hasError : Bool
  fingerprint : Text
deriving DecidableEq

def groupKey {δ : Type} (cal : Calendar δ) (db : StatsDb) (row : ProxyRow) : GroupKey δ :=
  ⟨cal.dayOf row.tsMs, row.endpoint, row.pruneStatus, row.pipeline, row.hasError,
    executedStagesFingerprint db row.id⟩

/-- The tokens of a model request, added to the counts of its model. -/
def addTokens (counts : Dict TokenKey ℤ) (rows : List TokenRow) : Dict TokenKey ℤ :=
  rows.foldl (fun counts row => counts.set row.toTokenKey
    ((counts.get? row.toTokenKey).getD 0 + row.tokens)) counts

/-- A model request, added to the map of the models. -/
def addModel (models : Dict ModelKey (Dict TokenKey ℤ)) (row : ModelRow) :
    Dict ModelKey (Dict TokenKey ℤ) :=
  models.set row.toModelKey
    (addTokens ((models.get? row.toModelKey).getD .empty) (tokensOf db row.id))

/-- `model_map` of `_merge_proxy_group`. -/
def modelMap (members : List ProxyRow) : Dict ModelKey (Dict TokenKey ℤ) :=
  (members.flatMap fun p => modelsOf db p.id).foldl (addModel db) .empty

/-- What is inserted for a model of the map: its counts that are positive. -/
def mergedRecord (entry : ModelKey × Dict TokenKey ℤ) : ModelRequestRecord :=
  ⟨entry.1, (entry.2.entries.filter fun count => 0 < count.2).map fun count => ⟨count.1, count.2⟩⟩

def columnSum (column : ProxyColumns → ℕ) (members : List ProxyRow) : ℕ :=
  members.foldr (fun row sum => column row.toProxyColumns + sum) 0

/-- The columns of the request that replaces the members of a group. -/
def mergedColumns (first : ProxyRow) (members : List ProxyRow) (dayStartMs : ℤ) : ProxyColumns where
  endpoint := first.endpoint
  toolsIn := columnSum ProxyColumns.toolsIn members
  toolCountIn := columnSum ProxyColumns.toolCountIn members
  toolPropertiesCountIn := columnSum ProxyColumns.toolPropertiesCountIn members
  toolsOut := columnSum ProxyColumns.toolsOut members
  toolCountOut := columnSum ProxyColumns.toolCountOut members
  toolPropertiesCountOut := columnSum ProxyColumns.toolPropertiesCountOut members
  toolsPruned := columnSum ProxyColumns.toolsPruned members
  toolCountPruned := columnSum ProxyColumns.toolCountPruned members
  toolPropertiesCountPruned := columnSum ProxyColumns.toolPropertiesCountPruned members
  tsMs := dayStartMs
  pruneStatus := first.pruneStatus
  pipeline := first.pipeline
  query := none
  error := none
  toolsAcceptedJson := none
  toolsFinalJson := none
  skillsIn := columnSum ProxyColumns.skillsIn members
  hasError := first.hasError
  requestTokens := columnSum ProxyColumns.requestTokens members
  skillsFinalMd := none

def deleteProxyTree (proxyIds : List ℕ) (db : StatsDb) : StatsDb :=
  let modelIds := (db.modelRequest.filter fun row => proxyIds.contains row.proxyRequestId).map
    ModelRow.id
  { db with
    proxyRequest := db.proxyRequest.filter fun row => !proxyIds.contains row.id
    modelRequest := db.modelRequest.filter fun row => !modelIds.contains row.id
    tokens := db.tokens.filter fun row => !modelIds.contains row.modelRequestId }

def mergeProxyGroup (members : List ProxyRow) (dayStartMs : ℤ) (db : StatsDb) : StatsDb :=
  match members with
  | [] => db
  | first :: _ =>
    deleteProxyTree (members.map ProxyRow.id)
      (insertRequest (mergedColumns first members dayStartMs)
        ((modelMap db members).entries.map mergedRecord) db)

structure RollupResult where
  daysProcessed : ℕ
  groupsMerged : ℕ
  rowsRemoved : ℕ
deriving DecidableEq

/-- The groups of the requests before a time that are merged: those of more than one. -/
def mergedGroups {δ : Type} [DecidableEq δ] (cal : Calendar δ) (today : δ) (db : StatsDb) :
    List (GroupKey δ × List ProxyRow) :=
  (groupsBy (groupKey cal db) (db.proxyRequest.filter fun row =>
    decide (row.tsMs < cal.dayStart today))).entries.filter fun group => 1 < group.2.length

/-- `rollup_historical` on a day. -/
def rollupHistorical {δ : Type} [DecidableEq δ] (cal : Calendar δ) (today : δ) (db : StatsDb) :
    StatsDb × RollupResult :=
  let groups := mergedGroups cal today db
  (groups.foldl (fun db group => mergeProxyGroup group.2 (cal.dayStart group.1.day) db) db,
    { daysProcessed := ((db.proxyRequest.filter fun row =>
        decide (row.tsMs < cal.dayStart today)).map fun row => cal.dayOf row.tsMs).eraseDups.length
      groupsMerged := groups.length
      rowsRemoved := groups.foldr (fun group sum => group.2.length - 1 + sum) 0 })

end ClearYourTools.Proxy.Stats
