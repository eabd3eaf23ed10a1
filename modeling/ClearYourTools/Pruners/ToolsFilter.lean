import ClearYourTools.CytClient.ToolGate
import ClearYourTools.Tiers.Partition

/-!
# Pruning the tools of a request

`filter_tools_for_query` of `pruners/tools_filter.py` with its tiers: what enters the pruners, what
passes through, what the scoring leaves, and how the result is put together again, with the schemas
of `tools/injection_schema.py`. The policies, the catalog and the scoring are parameters; token
counts and statistics are left out.
-/

namespace ClearYourTools.Pruners

open Misc CytClient Tiers Proxy ToolExamples
open Injection.SessionLog (dictOrEmpty firstTrue)
open Json (get? PyFormat truthy)

variable {φ : Type}

section

variable (p : PyFormat φ)

variable (tool : Record φ)

def backendSchemaFromTool (fullTool : Option (Record φ)) : Record φ :=
  match get? tool backendSchemaKey with
  | some (.obj stamped) => stamped
  | _ => inputSchemaFromTool (fullTool.getD tool)

def schemaCompletenessScore (schema : Record φ) : ℕ × ℕ :=
  ((schemaRequiredPropertyNames p schema).length, (inputSchemaProperties schema).length)

/-- `score > best_score` of two pairs. -/
def scoreAbove (score best : ℕ × ℕ) : Bool :=
  decide (best.1 < score.1) || (score.1 == best.1 && decide (best.2 < score.2))

/-- `pick_fullest_input_schema`: the schemas that come first are preferred. -/
def pickFullestInputSchema (candidates : List (Record φ)) : Record φ :=
  candidates.foldl (fun best candidate =>
    let schema := inputSchemaFromTool candidate
    if schema.isEmpty then best
    else if best.isEmpty ||
        scoreAbove (schemaCompletenessScore p schema) (schemaCompletenessScore p best) then schema
    else best) []

def resolveBackendSchemaForInjection (fullTool : Option (Record φ)) (catalogTools : List (Record φ)) :
    Record φ :=
  let name := (givenName p tool).strip
  let namesakes := catalogTools.filter fun item => name != [] && (givenName p item).strip == name
  pickFullestInputSchema p
    ([[(schemaKey, .obj (backendSchemaFromTool tool fullTool))], tool] ++ fullTool.toList ++
      namesakes)

/-- A value that no dictionary takes as a key. -/
def isUnhashable : Json φ → Bool
  | .arr _ => true
  | .obj _ => true
  | _ => false

/-- `ensure_required_properties_in_schema`, `none` where it raises. -/
def ensureRequiredPropertiesInSchema (injectionSchema fullSchema : Record φ) :
    Option (Record φ) :=
  let full := inputSchemaFromTool [(schemaKey, .obj fullSchema)]
  let out :=
    if injectionSchema.isEmpty then
      [("type".toList, .str "object".toList), ("properties".toList, .obj [])]
    else injectionSchema
  match get? full "properties".toList with
  | some (.obj fullProps) =>
    let required := schemaRequiredPropertyNames p full
    let props := required.foldl (fun props name =>
      match get? props name, get? fullProps name with
      | none, some v => Json.set props name v
      | _, _ => props) (dictOrEmpty (get? out "properties".toList))
    let withProps := Json.set out "properties".toList (.obj props)
    if required.isEmpty then some withProps
    else
      let existing := match get? out "required".toList with
        | some (.arr items) => items
        | _ => []
      if existing.any isUnhashable then none
      else
        let merged := (required ++ existing.filterMap Json.str?).foldl (fun names name =>
          if names.contains name then names else names ++ [name]) []
        some (Json.set withProps "required".toList
          (.arr ((merged.filter fun name => (get? props name).isSome).map .str)))
  | _ => some out

/-- The tier that a tool is stamped with, `str(tool.get("cyt_injection_tier") or "")` in lower
case. -/
def injectionTier : Text := lower (Json.strOr p tool injectionTierKey []).strip

/-- `_validate_t2_required_schema`, which raises where this is false. -/
def validT2RequiredSchema (tool schema backend : Record φ) : Bool :=
  injectionTier p tool != "t2" ||
    (schemaRequiredPropertyNames p backend).all (inputSchemaProperties schema).contains

end

variable (env : EnrichEnv φ)

/-- The schema that `ensure_tool_injection_schema` puts into a tool of the tiers T2 to T4, from the
schema of the tool and that of the backend. -/
def injectionSchemaOf (tool schema backend : Record φ) : Option (Record φ) :=
  let p := env.toPyFormat
  if ["t2".toList, "t3".toList, "t4".toList].contains (injectionTier p tool) then
    ((if backend.isEmpty then some schema
      else ensureRequiredPropertiesInSchema p schema backend).filter fun ensured =>
        validT2RequiredSchema p tool ensured backend)
  else some schema

/-- The examples of a tool, which `ensure_tool_injection_schema` trims to its schema. -/
def entangleInjectionExamples (schema tool : Record φ) : Record φ :=
  match get? tool "cyt_injection_examples" with
  | some (.arr items) =>
    if schema.isEmpty then tool
    else
      let rows := items.filterMap fun
        | .obj row => some row
        | _ => none
      Json.set tool "cyt_injection_examples"
        (.arr ((entangleExamplesWithSchema env rows schema).map .obj))
  | _ => tool

/-- `ensure_tool_injection_schema`, `none` where it raises. -/
def ensureToolInjectionSchema (fullTool : Option (Record φ)) (catalogTools : List (Record φ))
    (tool : Record φ) : Option (Record φ) :=
  let p := env.toPyFormat
  let resolved := resolveBackendSchemaForInjection p tool fullTool catalogTools
  let backend := if resolved.isEmpty then backendSchemaFromTool tool fullTool else resolved
  (injectionSchemaOf env tool (inputSchemaFromTool tool) backend).map fun schema =>
    entangleInjectionExamples env schema
      (if ["t2".toList, "t3".toList, "t4".toList].contains (injectionTier p tool) &&
          !backend.isEmpty then
        Json.set tool schemaKey (.obj schema)
      else tool)

section

variable (p : PyFormat φ)

def originalToolsByName (tools : List (Record φ)) : Dict Text (Record φ) :=
  Dict.empty.writeAll ((tools.filter fun tool =>
    truthy p ((get? tool Proxy.nameKey).getD .null)).map fun tool =>
      (toolName p tool, tool))

def prunedToolsByName (originalTools apiTools : List (Record φ)) : Dict Text (Record φ) :=
  Dict.empty.writeAll ((apiTools.filter fun tool => !(toolName p tool).isEmpty).map fun tool =>
    (toolName p tool,
      match (originalToolsByName p originalTools).get? (toolName p tool) with
      | some original => mergeApiToolOntoOriginal original tool
      | none => tool))

def mergedToolsToAnthropic (merged : List (Record φ)) : List (Record φ) :=
  merged.map fun tool =>
    [(Proxy.nameKey, (get? tool Proxy.nameKey).getD (.str [])),
      (descriptionKey, (get? tool descriptionKey).getD (.str [])),
      (schemaKey, (firstTrue p tool ["inputSchema".toList, schemaKey]).getD (.obj []))]

/-- `_stash_pass_through_tools`, over the policy of a name. -/
def stashPassThroughTools (toolPassThrough : Text → Bool) (tools : List (Record φ)) :
    Dict Text (Record φ) :=
  let named := tools.filter fun tool => !(toolName p tool).isEmpty
  Dict.empty.writeAll ((named.filter fun tool => toolPassThrough (toolName p tool)).map fun tool =>
    (toolName p tool, tool))

end

/-- An output policy context, as the functions of it that are called. The policy of a batch of
names is that of each. -/
structure PolicyContext (φ : Type) where
  requestPassThrough : List (Record φ) → Bool
  toolPassThrough : Text → Bool
  toolsForCatalog : List (Record φ) → List (Record φ)
  entriesForPolicy : List (Record φ) → List (Record φ)

/-- What a pruning is configured with, and what it calls: the tiers of the snapshot, the output
policies with the overrides of the tiers, the merge of the SDK, and the scoring of the entries of
a catalog, which gives the error where it raises. -/
structure PruneEnv (φ : Type) extends EnrichEnv φ where
  toolsEnabled : Bool
  injectsHere : Bool
  tierMode : TierMode
  tierForTool : Dict Text Tier
  outputPolicies : Dict Text Text → PolicyContext φ
  mergeToolsPreservingOrder :
    List (Record φ) → Dict Text (Record φ) → Dict Text (Record φ) → List (Record φ)
  runCatalogPruning : List (Record φ) → List (Json φ) → Text → Except Text (List (Record φ))

instance : Coe (PruneEnv φ) (EnrichEnv φ) := ⟨PruneEnv.toEnrichEnv⟩

/-- What `filter_tools_for_query` is called with, and the examples it enriches the tools with. -/
structure PruneCall (φ : Type) where
  originalTools : List (Record φ)
  query : Text
  toolsToCatalogEntries : List (Record φ) → List (Record φ) × List (Json φ)
  mergedToApiTools : Option (List (Record φ) → List (Record φ))
  examplesConfig : ToolExamplesConfig
  projectRoot : Option Text
  projectMs : ℕ
  examples : Store

/-- `PruneResult`, without token counts and statistics. -/
structure ToolsPruneResult (φ : Type) extends Proxy.PruneResult φ where
  query : Option Text
  toolsIn : ℕ
  mcpToolsIn : ℕ
  toolsOut : Option ℕ
  error : Option Text

variable (env : PruneEnv φ) (call : PruneCall φ)

def PruneEnv.toolsInjectAllowed : Bool := env.toolsEnabled && env.injectsHere

def PruneEnv.toolsTierPromptEvalActive : Bool := env.toolsEnabled && env.tierMode.isActive

variable (tools : List (Record φ))

/-- The result of `apply_tools` in `_tier_prune_context`, or that without tiers. -/
def tierApply : ToolsTierApplyResult φ :=
  if env.toolsTierPromptEvalActive then
    applyToolTiers env tools env.tierForTool (env.tierMode == .live)
  else ⟨tools, [], [], .empty, .empty⟩

/-- `tools_for_prune` of `_tier_prune_context`: the eligible tools, or all if there are none. -/
def toolsForPrune : List (Record φ) :=
  if env.toolsTierPromptEvalActive then
    let applied := tierApply env tools
    let pool := if applied.eligibleTools.isEmpty then tools else applied.eligibleTools
    prepareToolsForTierPipeline env pool applied.tierByTool
  else tools

/-- `output_policy_ctx` of `_tier_prune_context`. -/
def outputPolicyContext : PolicyContext φ :=
  env.outputPolicies (tierApply env tools).policyOverrides

/-- The fields of a result that count what came in. -/
def PruneCall.result (tools : Option (List (Record φ))) (status : PruneStatus)
    (error : Option Text) : ToolsPruneResult φ where
  tools := tools
  status := status
  query := if call.query.isEmpty then none else some call.query
  toolsIn := call.originalTools.length
  mcpToolsIn := call.originalTools.countP fun tool =>
    truthy env ((get? tool Proxy.nameKey).getD .null)
  toolsOut := tools.map List.length
  error := error

def passThroughPruneResult : ToolsPruneResult φ :=
  call.result env (some call.originalTools) .passThrough none

def pruneResultWithoutCatalogEntries (stashedByName : Dict Text (Record φ)) :
    ToolsPruneResult φ :=
  let restored := env.mergeToolsPreservingOrder call.originalTools .empty stashedByName
  if restored.isEmpty then call.result env none .skipped (some "no tools in request")
  else call.result env (some restored) .applied none

/-- `_ensure_injection_schemas_for_tiers`, `none` where it raises. -/
def ensureInjectionSchemasForTiers (pruned originalTools : List (Record φ)) :
    Option (List (Record φ)) :=
  let originals := originalToolsByName env originalTools
  pruned.mapM fun tool =>
    ensureToolInjectionSchema env (originals.get? (givenName env tool)) originalTools tool

/-- The tools before their schemas are ensured in `_finalize_applied_prune_result`. -/
def mergedPrunedTools (merged : List (Record φ)) (stashedByName : Dict Text (Record φ)) :
    List (Record φ) :=
  let p := env.toPyFormat
  let applied := tierApply env call.originalTools
  let pool := toolsForPrune env call.originalTools
  let toApi := call.mergedToApiTools.getD (mergedToolsToAnthropic p)
  let pruned := env.mergeToolsPreservingOrder pool (prunedToolsByName p pool (toApi merged))
    stashedByName
  let t4Names := (applied.t4Direct.map (givenName p)).filter fun name => !name.isEmpty
  stampToolInjectionTiers p (mergeT4Tools p pruned applied.t4Direct) applied.tierByTool t4Names

/-- `_finalize_applied_prune_result`, `none` where it raises. An enrichment that raises leaves the
tools alone. -/
def finalizeAppliedPruneResult (merged : List (Record φ))
    (stashedByName : Dict Text (Record φ)) : Option (ToolsPruneResult φ) :=
  (ensureInjectionSchemasForTiers env (mergedPrunedTools env call merged stashedByName)
    call.originalTools).map fun ensured =>
      let enriched := enrichToolsWithExamples env
        ⟨call.examplesConfig, call.projectRoot, call.projectMs, call.query, ensured⟩ call.examples
      call.result env (some (enriched.getD ensured)) .applied none

/-- The entries of the catalog that are scored, and their enums. -/
def catalogEntries : List (Record φ) × List (Json φ) :=
  let policy := outputPolicyContext env call.originalTools
  let catalog := call.toolsToCatalogEntries
    (policy.toolsForCatalog (toolsForPrune env call.originalTools))
  (policy.entriesForPolicy catalog.1, catalog.2)

/-- The tools of the pool that pass through by policy. -/
def stashedTools : Dict Text (Record φ) :=
  stashPassThroughTools env
    (outputPolicyContext env call.originalTools).toolPassThrough
    (toolsForPrune env call.originalTools)

/-- `filter_tools_for_query`, `none` where it raises. -/
def filterToolsForQuery : Option (ToolsPruneResult φ) :=
  let pool := toolsForPrune env call.originalTools
  let entries := catalogEntries env call
  if !env.toolsInjectAllowed then some (passThroughPruneResult env call)
  else if (outputPolicyContext env call.originalTools).requestPassThrough pool then
    some (passThroughPruneResult env call)
  else if call.query.isEmpty || pool.isEmpty then
    some (call.result env none .skipped (some "no query or no tools"))
  else if entries.1.isEmpty then
    some (pruneResultWithoutCatalogEntries env call (stashedTools env call))
  else
    match env.runCatalogPruning entries.1 entries.2 call.query with
    | .error message => some (call.result env none .failed (some message))
    | .ok merged =>
      if merged.isEmpty then
        some (call.result env none .failed (some "pruned catalog produced no tools"))
      else finalizeAppliedPruneResult env call merged (stashedTools env call)

end ClearYourTools.Pruners
