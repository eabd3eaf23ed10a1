import ClearYourTools.Proxy.OpenaiRequest
import ClearYourTools.ToolExamples.Store

/-!
# Tiers of catalog tools

The functions of `tiers/adapters/tools.py` and `tiers/tool_token_materialization.py` that part the
tools of a request by tier, shape them for the pruners and put the tools of the hottest tier back.
A label `T0` to `T4` is the tier with that number.
-/

namespace ClearYourTools.Tiers

open Misc CytClient ToolExamples
open Injection.SessionLog (dictOrEmpty)

variable {φ : Type} (p : Json.PyFormat φ)

def catalogSourceKey : Text := "cyt_catalog_source"
def sessionKey : Text := "mcpc_session"
def backendSchemaKey : Text := "cyt_backend_input_schema"
def schemaKey : Text := "input_schema"
def injectionTierKey : Text := "cyt_injection_tier"

variable (tool : Record φ)

/-- `str(tool.get("name") or "")`. -/
def givenName : Text := Json.strOr p tool Proxy.nameKey []

/-- `tool_entity_id` of a tool dictionary. -/
def recordEntityId : Text :=
  toolEntityId ⟨givenName p tool, Json.strOr p tool catalogSourceKey [],
    Json.truthy p ((Json.get? tool sessionKey).getD .null)⟩

def schemaRequiredPropertyNames (schema : Record φ) : List Text :=
  match Json.get? schema "properties", Json.get? schema "required" with
  | some (.obj properties), some (.arr names) =>
    (names.map (Json.toStr p)).filter fun name => (Json.get? properties name).isSome
  | _, _ => []

def schemaForTier (schema : Record φ) : Tier → Record φ
  | .dormant | .cold => []
  | .active =>
    let properties := dictOrEmpty (Json.get? schema "properties")
    let required := schemaRequiredPropertyNames p schema
    if required.isEmpty then []
    else
      [("type", (Json.get? schema "type").getD (.str "object")),
        ("properties", .obj (required.foldl (fun trimmed name =>
          Json.set trimmed name ((Json.get? properties name).getD .null)) [])),
        ("required", .arr (required.map .str))]
  | .hot | .extraHot => schema

def stampToolDualSchema (label : Tier) : Record φ :=
  let backend := inputSchemaFromTool tool
  let stamped := Json.set (Json.set tool backendSchemaKey (.obj backend)) schemaKey
    (.obj (schemaForTier p backend label))
  stamped.filter fun field =>
    !(field.1 == "inputSchema" || field.1 == "parameters")

def tierLabelForPipeline : Tier → Tier
  | .dormant => .active
  | tier => tier

def prepareToolForTierPipeline : Tier → Record φ
  | .dormant => stampToolDualSchema p tool .dormant
  | .extraHot => stampToolDualSchema p tool .extraHot
  | tier => stampToolDualSchema p tool (tierLabelForPipeline tier)

/-- The tier of a tool by a map from entity ids, `ACTIVE` where the map or the id says nothing. -/
def tierByMap (tiers : Dict Text Tier) (tool : Record φ) : Tier :=
  let entityId := recordEntityId p tool
  if entityId.isEmpty then .active else (tiers.get? entityId).getD .active

variable (tools : List (Record φ))

def prepareToolsForTierPipeline (tierByTool : Dict Text Tier) : List (Record φ) :=
  tools.map fun tool => prepareToolForTierPipeline p tool (tierByMap p tierByTool tool)

structure ToolsTierApplyResult (φ : Type) where
  eligibleTools : List (Record φ)
  t4Direct : List (Record φ)
  excludedT0 : List Text
  policyOverrides : Dict Text Text
  tierByTool : Dict Text Tier

/-- The policy that a tier puts on a tool. -/
def tierPolicy : Tier → Option Text
  | .cold => some "tier_cold"
  | .active => some "tier_active"
  | .hot => some "tier_hot"
  | .extraHot => some "always_include"
  | .dormant => none

/-- The body of the loop of `apply_tool_tiers`. -/
def applyToolTier (tierForTool : Dict Text Tier) (apply : Bool) (result : ToolsTierApplyResult φ)
    (tool : Record φ) : ToolsTierApplyResult φ :=
  let entityId := recordEntityId p tool
  if entityId.isEmpty then { result with eligibleTools := result.eligibleTools ++ [tool] }
  else
    let tier := (tierForTool.get? entityId).getD .active
    let known := { result with tierByTool := result.tierByTool.set entityId tier }
    if !apply then { known with eligibleTools := result.eligibleTools ++ [tool] }
    else
      let overrides := match tierPolicy tier with
        | some policy => result.policyOverrides.set (givenName p tool) policy
        | none => result.policyOverrides
      match tier with
      | .dormant => { known with excludedT0 := result.excludedT0 ++ [entityId] }
      | .extraHot =>
        { known with
          t4Direct := result.t4Direct ++ [prepareToolForTierPipeline p tool .extraHot]
          policyOverrides := overrides }
      | _ =>
        { known with
          eligibleTools := result.eligibleTools ++ [tool]
          policyOverrides := overrides }

def applyToolTiers (tierForTool : Dict Text Tier) (apply : Bool) : ToolsTierApplyResult φ :=
  tools.foldl (applyToolTier p tierForTool apply) ⟨[], [], [], .empty, .empty⟩

def injectionTierAttr (label : Tier) : Text := 't' :: Text.ofNat label.value

def stampToolInjectionTiers (tierByTool : Dict Text Tier) (t4Names : List Text) : List (Record φ) :=
  tools.map fun tool =>
    let label :=
      if t4Names.contains (givenName p tool) then .extraHot
      else tierLabelForPipeline (tierByMap p tierByTool tool)
    Json.set tool injectionTierKey (.str (injectionTierAttr label))

/-- The locals of `merge_t4_tools`: the tools by name, and the names in order. -/
structure NamedTools (φ : Type) where
  byName : Dict Text (Record φ)
  order : List Text

/-- A tool in one of the two loops of `merge_t4_tools`, which ask in different ways whether its
name is known. -/
def NamedTools.add (known : NamedTools φ → Text → Bool) (tools : NamedTools φ)
    (tool : Record φ) : NamedTools φ :=
  let name := givenName p tool
  if name.isEmpty then tools
  else
    ⟨tools.byName.set name tool, if known tools name then tools.order else tools.order ++ [name]⟩

def mergeT4Tools (pruned t4Direct : List (Record φ)) : List (Record φ) :=
  if t4Direct.isEmpty then pruned
  else
    let kept := pruned.foldl (NamedTools.add p fun tools name => tools.byName.contains name)
      ⟨.empty, []⟩
    let merged := t4Direct.foldl (NamedTools.add p fun tools name => tools.order.contains name) kept
    merged.order.filterMap merged.byName.get?

end ClearYourTools.Tiers
