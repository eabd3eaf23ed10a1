import Mathlib.Algebra.Order.Ring.Rat
import Mathlib.Data.Finset.Basic
import Mathlib.Order.Lattice
import ClearYourTools.Misc.Dict
import ClearYourTools.Misc.Text

/-!
# Tier manager data models

The records of `tiers/models.py`. Counters and scores are rational numbers; `math.sqrt`, and
`2.0 ** x`, which may raise (`OverflowError`), are the fields of `FloatOps`.
-/

namespace ClearYourTools.Tiers

open Misc

/-- Canonical T0-T4 tier ordering, `Tier(IntEnum)`; higher is hotter. -/
inductive Tier where
  | dormant
  | cold
  | active
  | hot
  | extraHot
deriving Repr

namespace Tier

/-- The integer value of the `IntEnum` member. -/
def value : Tier → Nat
  | dormant => 0
  | cold => 1
  | active => 2
  | hot => 3
  | extraHot => 4

theorem value_injective : Function.Injective value := by
  intro a b h
  cases a <;> cases b <;> first | rfl | cases h

instance : LinearOrder Tier := LinearOrder.lift' value value_injective

end Tier

inductive EntityKind where
  | tool
  | skill
  | mcpServer
deriving DecidableEq, Repr

/-- The key `(kind, entity_id)` of the state map. -/
abbrev EntityKey := EntityKind × Text

/-- `math.sqrt` and `2.0 ** x`; the latter is `none` where Python raises. -/
structure FloatOps where
  sqrt : ℚ → ℚ
  pow2 : ℚ → Option ℚ

structure EffectiveStats where
  candidates : ℚ
  injected : ℚ
  used : ℚ
  attempts : ℚ
  usedWithoutInjection : ℚ
  optionalUsed : ℚ
  shadowHits : ℚ
  shadowEvaluations : ℚ
  lastSeenMs : Int
  requestsSinceDecay : Int
  epochUsed : ℚ
  epochAttempts : ℚ
deriving DecidableEq, Repr

namespace EffectiveStats

def init : EffectiveStats where
  candidates := 0
  injected := 0
  used := 0
  attempts := 0
  usedWithoutInjection := 0
  optionalUsed := 0
  shadowHits := 0
  shadowEvaluations := 0
  lastSeenMs := 0
  requestsSinceDecay := 0
  epochUsed := 0
  epochAttempts := 0

/-- `EffectiveStats.decay`. `none` where it raises: a half-life of zero divides by zero, and
`2.0 ** x` overflows for a large exponent. The epoch counters do not decay. -/
def decay (ops : FloatOps) (halfLife : ℚ) (stats : EffectiveStats) : Option EffectiveStats :=
  if stats.requestsSinceDecay ≤ 0 then
    some stats
  else if halfLife = 0 then
    none
  else
    (ops.pow2 (-stats.requestsSinceDecay / halfLife)).map fun factor =>
      { stats with
        candidates := stats.candidates * factor
        injected := stats.injected * factor
        used := stats.used * factor
        attempts := stats.attempts * factor
        usedWithoutInjection := stats.usedWithoutInjection * factor
        optionalUsed := stats.optionalUsed * factor
        shadowHits := stats.shadowHits * factor
        shadowEvaluations := stats.shadowEvaluations * factor
        requestsSinceDecay := 0 }

end EffectiveStats

structure EntityTierState where
  entityId : Text
  kind : EntityKind
  stableTier : Tier
  effectiveTier : Tier
  overlapTier : Option Tier
  tempPromotionUntilMs : Option Int
  wakeLeaseUntilCycle : Int
  sleepCooldownUntilCycle : Int
  stats : EffectiveStats
deriving DecidableEq, Repr

namespace EntityTierState

/-- `EntityTierState(entity_id=…, kind=…, stable_tier=tier, effective_tier=tier)` with the
dataclass defaults for the rest. -/
def init (kind : EntityKind) (entityId : Text) (tier : Tier) : EntityTierState where
  entityId := entityId
  kind := kind
  stableTier := tier
  effectiveTier := tier
  overlapTier := none
  tempPromotionUntilMs := none
  wakeLeaseUntilCycle := 0
  sleepCooldownUntilCycle := 0
  stats := .init

end EntityTierState

structure TierTransition where
  kind : EntityKind
  entityId : Text
  fromTier : Tier
  toTier : Tier
  reason : String
  temporary : Bool
deriving DecidableEq, Repr

structure EpochState where
  epochId : Int
  epochStartMs : Int
  lastRequestMs : Int
  wakeCycleId : Int
deriving DecidableEq, Repr

abbrev States := Dict EntityKey EntityTierState

/-! ## Entity ids of the tier manager: `tiers/adapters/tools.py`, `tiers/adapters/skills.py` -/

/-- What the adapters read of a tool dictionary. -/
structure Tool where
  name : Text
  cytCatalogSource : Text
  mcpcSession : Bool

def resolveToolCatalogSource (tool : Tool) : Text :=
  let explicit := tool.cytCatalogSource.strip
  if explicit ≠ [] then
    explicit
  else
    let name := tool.name.strip
    if tool.mcpcSession ∨ (name.head? = some '@' ∧ '/' ∈ name) then "mcpc"
    else if "mcp__".toList.isPrefixOf name then "cyt_mcp"
    else "unknown"

def toolEntityId (tool : Tool) : Text :=
  let name := tool.name.strip
  if name = [] then [] else resolveToolCatalogSource tool ++ ':' :: name

/-- `canonical_tool_entity_id`: legacy `unknown:<name>` rows map onto inferred ids. -/
def canonicalToolEntityId (entityId : Text) : Text :=
  let text := entityId.strip
  if ¬ "unknown:".toList.isPrefixOf text then
    text
  else
    let name := text.drop "unknown:".length
    let resolved := toolEntityId ⟨name, [], false⟩
    if resolved ≠ [] ∧ ¬ "unknown:".toList.isPrefixOf resolved then resolved else text

def entityIdCatalogSource (entityId : Text) : Text :=
  let text := entityId.strip
  if ':' ∈ text then
    let source := Text.strip (text.takeWhile (· ≠ ':'))
    if source = [] then "unknown" else source
  else "unknown"

variable (allowedSources : Finset Text)

/-- `tool_tracked_for_config`, over the configured catalog sources. -/
def toolTrackedForConfig (tool : Tool) : Bool :=
  decide (resolveToolCatalogSource tool ∈ allowedSources)

/-- `tool_entity_tracked_for_config`, over the configured catalog sources. -/
def toolEntityTrackedForConfig (entityId : Text) : Bool :=
  decide (entityIdCatalogSource entityId ∈ allowedSources)

/-- The skill path functions that resolve against the file system:
`tier_entity_id_for_skill`, `resolve_skill_doc_id` and `is_ephemeral_skill_path`. -/
structure SkillPaths where
  tierEntityIdForSkill : Text → Option Text → Option Text
  resolveSkillDocId : Text → Option Text
  isEphemeralSkillPath : Text → Bool

/-- What a record call reads of a `SkillEntryRef`. -/
structure SkillEntryRef where
  sourcePath : Text
  docId : Text

def skillEntityId (paths : SkillPaths) (entry : SkillEntryRef) : Text :=
  (paths.tierEntityIdForSkill entry.sourcePath (some entry.docId)).getD []

/-- What `record_skills_injected` reads of a match: `file_path`, else `source_path`, and the
document id. -/
structure SkillMatchRef where
  path : Text
  docId : Option Text

/-- The rows that `purge_stale_tool_entity_states` leaves in the state map. -/
def keptByToolPurge (catalogEntityIds : Option (Finset Text)) (kind : EntityKind) (entityId : Text) :
    Bool :=
  kind != .tool ||
    (decide (entityIdCatalogSource entityId ∈ allowedSources) &&
      match catalogEntityIds with
      | none => true
      | some ids => decide (entityId ∈ ids))

/-!
## Tier configuration

`tiers/config.py`. Reading them from the YAML dictionary is not part of the model; every value a
section can hold is.
-/

inductive TierMode where
  | off
  | shadow
  | live
deriving DecidableEq, Repr

namespace TierMode

def isActive (mode : TierMode) : Bool := mode != .off

end TierMode

structure TierThresholds where
  promoteDemand : ℚ
  demoteDemand : ℚ
  promoteUtility : ℚ
  demoteUtility : ℚ

/-- `wake_weights`; `tier_section_config` always fills the four keys. -/
structure WakeWeights where
  shadow : ℚ
  direct : ℚ
  query : ℚ
  sibling : ℚ

structure TierSectionConfig where
  mode : TierMode
  requestHalfLife : ℚ
  promptCacheTtlMinutes : ℚ
  ttlMultiplier : ℚ
  idleGapTriggersEpoch : Bool
  minInjectionsBeforeReconsider : Int
  wakeThreshold : ℚ
  wakeLeaseCycles : Int
  sleepCooldownCycles : Int
  emergencyT4InjectMin : Int
  emergencyT4UtilityMax : ℚ
  tempPromotionTurns : Int
  thresholdsT12 : TierThresholds
  thresholdsT23 : TierThresholds
  thresholdsT34 : TierThresholds
  wakeWeights : WakeWeights

/-- What the manager reads from its `config` dictionary: `tier_section_config` for both
kinds and `tier_disk_flush_seconds`. -/
structure Config where
  tool : TierSectionConfig
  skill : TierSectionConfig
  diskFlushSeconds : ℚ

/-- `tiers_active(config, kind="tool")`. -/
def Config.toolsActive (config : Config) : Bool := config.tool.mode.isActive

/-- `tiers_active(config, kind="skill")`. -/
def Config.skillsActive (config : Config) : Bool := config.skill.mode.isActive

/-- Python's `int(x)` on a float: truncation towards zero. -/
def pyInt (x : ℚ) : Int := x.num.tdiv x.den

/-- The section `tier_section_config({}, kind=…)` builds: every default of the file, with
the threshold defaults that the three boundaries share. -/
def TierSectionConfig.default : TierSectionConfig where
  mode := .shadow
  requestHalfLife := 100
  promptCacheTtlMinutes := 5
  ttlMultiplier := 1
  idleGapTriggersEpoch := true
  minInjectionsBeforeReconsider := 8
  wakeThreshold := 3 / 5
  wakeLeaseCycles := 2
  sleepCooldownCycles := 2
  emergencyT4InjectMin := 20
  emergencyT4UtilityMax := 1 / 5
  tempPromotionTurns := 3
  thresholdsT12 := thresholds
  thresholdsT23 := thresholds
  thresholdsT34 := thresholds
  wakeWeights := ⟨2 / 5, 3 / 10, 1 / 5, 1 / 10⟩
where
  thresholds : TierThresholds := ⟨11 / 20, 3 / 10, 7 / 20, 1 / 5⟩

/-- The configuration of an empty dictionary. -/
def Config.default : Config where
  tool := .default
  skill := .default
  diskFlushSeconds := 900

/-! ## Wilson lower bound scores: `tiers/scores.py` -/

variable (ops : FloatOps)

/-- `wilson_lower_bound` with its default `z = 1.96`. -/
def wilsonLowerBound (successes trials : ℚ) : ℚ :=
  if trials ≤ 0 then
    0
  else
    let z : ℚ := 49 / 25
    let successes := if successes < 0 then 0 else successes
    let successes := if trials < successes then trials else successes
    let phat := successes / trials
    let z2 := z * z
    let denom := 1 + z2 / trials
    let center := phat + z2 / (2 * trials)
    let margin := z * ops.sqrt ((phat * (1 - phat) + z2 / (4 * trials)) / trials)
    max 0 ((center - margin) / denom)

/-- Injection rate among BM25-eligible exposures, `demand_score`. -/
def demandScore (stats : EffectiveStats) : ℚ := wilsonLowerBound ops stats.injected stats.candidates

/-- Use rate among injected candidacies, `utility_score`. -/
def utilityScore (stats : EffectiveStats) : ℚ := wilsonLowerBound ops stats.used stats.injected

def shadowScore (stats : EffectiveStats) : ℚ :=
  wilsonLowerBound ops stats.shadowHits stats.shadowEvaluations

/-- Successful execution rate among recorded attempts, `execution_score`. -/
def executionScore (stats : EffectiveStats) : ℚ := wilsonLowerBound ops stats.used stats.attempts

/-- `tool_t4_demand_met`: execution rate or sustained use, not injection rate. -/
def toolT4DemandMet (stats : EffectiveStats) (demandThreshold minUsed : ℚ) : Bool :=
  decide (demandThreshold ≤ executionScore ops stats) || decide (minUsed ≤ stats.used)

end ClearYourTools.Tiers
