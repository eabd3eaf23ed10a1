import ClearYourTools.Tiers.Models

/-!
# Slow-clock epoch evaluator

`tiers/evaluator.py`: the epoch clocks, the T1-T4 rules that run at an epoch boundary, the
crystallisation of used entities and the expiry of temporary promotions. Every pass over the
state map is a function of one state, applied to all values of the map in their order.
-/

/-!
## Fast-clock wake, sleep and promotion

`tiers/wake.py`. Each function changes one entity state and returns the transition it made,
if any; the readings of the wall clock are arguments.
-/

namespace ClearYourTools.Tiers

variable (cfg : TierSectionConfig)

def tempPromotionUntilMs (nowMs : Int) : Int :=
  let turns := max cfg.tempPromotionTurns 1
  let minutes := cfg.promptCacheTtlMinutes * cfg.ttlMultiplier * turns
  nowMs + pyInt (max minutes 1 * 60 * 1000)

/-- The expiry both promotion functions write; without a configuration it is three
minutes away. -/
def promotionExpiryMs (cfg : Option TierSectionConfig) (nowMs : Int) : Int :=
  match cfg with
  | some cfg => tempPromotionUntilMs cfg nowMs
  | none => nowMs + 3 * 60 * 1000

variable (ops : FloatOps)

def wakePressure (state : EntityTierState) (cfg : TierSectionConfig)
    (queryRelevance siblingActivity : ℚ) : ℚ :=
  if 0 < state.stats.usedWithoutInjection then
    1
  else
    let weights := cfg.wakeWeights
    let direct : ℚ := if 0 < state.stats.usedWithoutInjection then 1 else 0
    weights.shadow * shadowScore ops state.stats + weights.direct * direct +
      weights.query * queryRelevance + weights.sibling * siblingActivity

/-- `evaluate_fast_wake`: a dormant entity outside its sleep cooldown wakes to T1. -/
def evaluateFastWake (state : EntityTierState) (cfg : TierSectionConfig) (wakeCycleId : Int)
    (queryRelevance siblingActivity : ℚ) : EntityTierState × Option TierTransition :=
  if state.effectiveTier ≠ .dormant then
    (state, none)
  else if wakeCycleId ≤ state.sleepCooldownUntilCycle then
    (state, none)
  else
    let pressure := wakePressure ops state cfg queryRelevance siblingActivity
    if pressure < cfg.wakeThreshold ∧ state.stats.usedWithoutInjection ≤ 0 ∧
        queryRelevance < cfg.wakeThreshold then
      (state, none)
    else
      ({ state with
          effectiveTier := .cold
          stableTier := .cold
          wakeLeaseUntilCycle := wakeCycleId + cfg.wakeLeaseCycles },
        some ⟨state.kind, state.entityId, state.effectiveTier, .cold, "fast_wake", false⟩)

variable (state : EntityTierState)

/-- `evaluate_fast_sleep`: a cold entity whose lease is over and that saw no activity goes
back to T0; activity renews the lease. -/
def evaluateFastSleep (cfg : TierSectionConfig) (wakeCycleId : Int)
    (hadSelection hadUse hadShadow : Bool) : EntityTierState × Option TierTransition :=
  if state.effectiveTier ≠ .cold then
    (state, none)
  else if ¬ state.wakeLeaseUntilCycle < wakeCycleId ∧ 0 < state.wakeLeaseUntilCycle then
    (state, none)
  else if hadUse ∨ hadSelection ∨ hadShadow ∨ 0 < state.stats.usedWithoutInjection then
    if 0 < state.wakeLeaseUntilCycle then
      ({ state with wakeLeaseUntilCycle := wakeCycleId + cfg.wakeLeaseCycles }, none)
    else
      (state, none)
  else
    ({ state with
        effectiveTier := .dormant
        stableTier := .dormant
        sleepCooldownUntilCycle := wakeCycleId + cfg.sleepCooldownCycles
        wakeLeaseUntilCycle := 0 },
      some ⟨state.kind, state.entityId, state.effectiveTier, .dormant, "fast_sleep", false⟩)

def EntityTierState.isToolOrSkill : Bool := state.kind == .tool || state.kind == .skill

/-- `fast_promote_on_tool_use`: a successful invocation bumps T1 and T2 to temporary HOT
and T0 to temporary ACTIVE. -/
def fastPromoteOnToolUse (cfg : Option TierSectionConfig) (nowMs : Int) :
    EntityTierState × Option TierTransition :=
  if ¬ state.isToolOrSkill then
    (state, none)
  else if .hot ≤ state.stableTier then
    ({ state with
        tempPromotionUntilMs := none
        overlapTier := none
        effectiveTier :=
          if state.effectiveTier < state.stableTier then state.stableTier
          else state.effectiveTier },
      none)
  else if .hot ≤ state.effectiveTier then
    (state, none)
  else
    let target : Tier := if .cold ≤ state.effectiveTier then .hot else .active
    ({ state with
        effectiveTier := target
        overlapTier :=
          if .cold ≤ state.effectiveTier then some state.stableTier else state.overlapTier
        tempPromotionUntilMs := some (promotionExpiryMs cfg nowMs) },
      some ⟨state.kind, state.entityId, state.effectiveTier, target,
        if state.kind = .skill then "skill_used" else "tool_used", true⟩)

/-- `fast_promote_on_optional_use`: the same promotion under another reason. -/
def fastPromoteOnOptionalUse (cfg : Option TierSectionConfig) (nowMs : Int) :
    EntityTierState × Option TierTransition :=
  let r := fastPromoteOnToolUse state cfg nowMs
  (r.1, r.2.map fun t => { t with reason := "optional_property_used", temporary := true })

open Misc

def epochTtlMs : Int :=
  let ttlMs := pyInt (cfg.promptCacheTtlMinutes * 60 * 1000 * cfg.ttlMultiplier)
  if ttlMs ≤ 0 then 5 * 60 * 1000 else ttlMs

variable (nowMs : Int)

def epochAgeRemainingMs (epoch : EpochState) (cfg : TierSectionConfig) : Int :=
  max 0 (epochTtlMs cfg - (nowMs - epoch.epochStartMs))

/-- `idle_limit_ms` of `epoch_idle_remaining_ms`. -/
def idleLimitMs : Int := pyInt (cfg.promptCacheTtlMinutes * 60 * 1000)

def epochIdleRemainingMs (epoch : EpochState) (cfg : TierSectionConfig) : Int :=
  if ¬ cfg.idleGapTriggersEpoch then
    epochTtlMs cfg
  else
    max 0 (idleLimitMs cfg - (nowMs - epoch.lastRequestMs))

def epochRemainingMs (epoch : EpochState) (cfg : TierSectionConfig) : Int :=
  min (epochAgeRemainingMs nowMs epoch cfg) (epochIdleRemainingMs nowMs epoch cfg)

def epochAgeExpired (epoch : EpochState) (cfg : TierSectionConfig) : Bool :=
  decide (epochAgeRemainingMs nowMs epoch cfg ≤ 0)

def epochBoundary (epoch : EpochState) (cfg : TierSectionConfig) : Bool :=
  decide (epochRemainingMs nowMs epoch cfg ≤ 0)

def minInjectionsMet (minimum : Int) : Bool :=
  decide ((minimum : ℚ) ≤ state.stats.injected)

/-- Enough BM25-eligible exposures to reconsider demotion without any injection. -/
def minExposureMet (minimum : Int) : Bool :=
  decide ((minimum : ℚ) ≤ state.stats.candidates)

/-- `_tool_unused_at_t2`: never injected and never invoked. -/
def toolUnusedAtT2 : Bool :=
  state.isToolOrSkill && decide (state.stats.epochUsed ≤ 0 ∧ state.stats.injected ≤ 0 ∧
    state.stats.used ≤ 0 ∧ state.stats.attempts ≤ 0 ∧ state.stats.usedWithoutInjection ≤ 0)

def promoteTier (target : Tier) (reason : String) (temporary : Bool)
    (cfg : Option TierSectionConfig) (nowMs : Int) : EntityTierState × TierTransition :=
  let overlap := if state.stableTier < target then some state.stableTier else state.overlapTier
  ({ state with
      effectiveTier := target
      stableTier := if temporary then state.stableTier else target
      overlapTier := if temporary then overlap else none
      tempPromotionUntilMs :=
        if temporary then some (promotionExpiryMs cfg nowMs) else state.tempPromotionUntilMs },
    ⟨state.kind, state.entityId, state.effectiveTier, target, reason, temporary⟩)

def demoteTier (target : Tier) (reason : String) : EntityTierState × TierTransition :=
  ({ state with
      effectiveTier := target
      stableTier := target
      overlapTier := none
      tempPromotionUntilMs := none },
    ⟨state.kind, state.entityId, state.effectiveTier, target, reason, false⟩)

def epochHadSuccess : Bool := decide (0 < state.stats.epochUsed)

def toolSkipDemotionOnEpochSuccess : Bool := state.kind == .tool && epochHadSuccess state

def t4PromotionDemandMet (state : EntityTierState) (cfg : TierSectionConfig) : Bool :=
  if state.kind = .tool then
    toolT4DemandMet ops state.stats cfg.thresholdsT34.promoteDemand
      ((cfg.minInjectionsBeforeReconsider * 2 : Int) : ℚ)
  else
    decide (cfg.thresholdsT34.promoteDemand ≤ demandScore ops state.stats)

def t4PromotionCriteriaMet (state : EntityTierState) (cfg : TierSectionConfig) : Bool :=
  let minInj := cfg.minInjectionsBeforeReconsider
  if ¬ minInjectionsMet state minInj then false
  else if state.stats.injected < ((minInj * 2 : Int) : ℚ) then false
  else if utilityScore ops state.stats < cfg.thresholdsT34.promoteUtility then false
  else t4PromotionDemandMet ops state cfg

/-- The emergency rule of `evaluate_slow_clock` at T4. -/
def emergencyT4Eviction (state : EntityTierState) (cfg : TierSectionConfig) : Bool :=
  decide ((cfg.emergencyT4InjectMin : ℚ) ≤ state.stats.injected ∧
    utilityScore ops state.stats < cfg.emergencyT4UtilityMax)

/-- The demotion rule that `evaluate_slow_clock` applies at T4 and at T3, each with its own
thresholds. -/
def slowDemotionDue (state : EntityTierState) (cfg : TierSectionConfig)
    (thresholds : TierThresholds) : Bool :=
  minInjectionsMet state cfg.minInjectionsBeforeReconsider &&
    (decide (demandScore ops state.stats < thresholds.demoteDemand) ||
      decide (utilityScore ops state.stats < thresholds.demoteUtility))

/-- The promotion rule that `evaluate_slow_clock` applies at T2 and at T1, each with its own
thresholds. -/
def slowPromotionDue (state : EntityTierState) (cfg : TierSectionConfig)
    (thresholds : TierThresholds) : Bool :=
  minInjectionsMet state cfg.minInjectionsBeforeReconsider &&
    decide (thresholds.promoteDemand ≤ demandScore ops state.stats) &&
    (decide (thresholds.promoteUtility ≤ utilityScore ops state.stats) ||
      decide (0 < state.stats.usedWithoutInjection))

/-- A step of the loop that made a transition. -/
def made (r : EntityTierState × TierTransition) : EntityTierState × Option TierTransition :=
  (r.1, some r.2)

/-- The body of the loop of `evaluate_slow_clock`. Its permanent promotions read no clock. -/
def evaluateSlowClockState (cfg : TierSectionConfig) (state : EntityTierState) :
    EntityTierState × Option TierTransition :=
  if state.effectiveTier ≤ .dormant then
    (state, none)
  else
    let skipDemotion := toolSkipDemotionOnEpochSuccess state
    match state.stableTier with
    | .extraHot =>
      if skipDemotion then (state, none)
      else if emergencyT4Eviction ops state cfg then
        made (demoteTier state .hot "emergency_t4_eviction")
      else if slowDemotionDue ops state cfg cfg.thresholdsT34 then
        made (demoteTier state .hot "slow_demote_t4_t3")
      else (state, none)
    | .hot =>
      if t4PromotionCriteriaMet ops state cfg then
        made (promoteTier state .extraHot "slow_promote_t3_t4" false none 0)
      else if ¬ skipDemotion ∧ slowDemotionDue ops state cfg cfg.thresholdsT23 then
        made (demoteTier state .active "slow_demote_t3_t2")
      else (state, none)
    | .active =>
      if skipDemotion then (state, none)
      else if slowPromotionDue ops state cfg cfg.thresholdsT23 then
        made (promoteTier state .hot "slow_promote_t2_t3" false none 0)
      else if toolUnusedAtT2 state then
        made (demoteTier state .cold "slow_demote_t2_t1_unused")
      else if minExposureMet state cfg.minInjectionsBeforeReconsider ∧
          demandScore ops state.stats < cfg.thresholdsT12.demoteDemand ∧
          utilityScore ops state.stats < cfg.thresholdsT12.demoteUtility then
        made (demoteTier state .cold "slow_demote_t2_t1")
      else (state, none)
    | .cold =>
      if skipDemotion then (state, none)
      else if slowPromotionDue ops state cfg cfg.thresholdsT12 then
        made (promoteTier state .active "slow_promote_t1_t2" false none 0)
      else (state, none)
    | .dormant => (state, none)

/-- A pass over the map: every state in place, and the transitions in order. -/
def passOver (f : EntityTierState → EntityTierState × Option TierTransition) (states : States) :
    States × List TierTransition :=
  (states.mapVals fun _ s => (f s).1, states.vals.filterMap fun s => (f s).2)

def evaluateSlowClock (cfg : TierSectionConfig) (states : States) : States × List TierTransition :=
  passOver (evaluateSlowClockState ops cfg) states

/-- The body of the loop of `crystallize_successful_tool_promotions_at_epoch`. -/
def crystallizeState : EntityTierState × Option TierTransition :=
  if ¬ state.isToolOrSkill ∨ ¬ epochHadSuccess state then
    (state, none)
  else
    let cleared := { state with tempPromotionUntilMs := none, overlapTier := none }
    if .hot ≤ state.stableTier then
      ({ cleared with effectiveTier := state.stableTier }, none)
    else
      let target := max state.effectiveTier .hot
      ({ cleared with stableTier := target, effectiveTier := target },
        some ⟨state.kind, state.entityId, state.stableTier, target,
          "slow_promote_epoch_crystallized", false⟩)

variable (states : States)

def crystallizeSuccessfulToolPromotionsAtEpoch : States × List TierTransition :=
  passOver crystallizeState states

/-- The body of the loop of `expire_temporary_promotions`. -/
def expireState (state : EntityTierState) : EntityTierState × Option TierTransition :=
  match state.tempPromotionUntilMs with
  | none => (state, none)
  | some untilMs =>
    if nowMs < untilMs then
      (state, none)
    else if state.effectiveTier ≠ state.stableTier then
      let old := state.effectiveTier
      if state.isToolOrSkill ∧ state.stableTier < old ∧ 0 < state.stats.used then
        ({ state with
            stableTier := old
            effectiveTier := old
            overlapTier := none
            tempPromotionUntilMs := none },
          some ⟨state.kind, state.entityId, state.stableTier, old,
            "slow_promote_temp_crystallized", false⟩)
      else
        ({ state with
            effectiveTier := state.stableTier
            overlapTier := none
            tempPromotionUntilMs := none },
          some ⟨state.kind, state.entityId, old, state.stableTier, "temp_promotion_expired", true⟩)
    else
      (state, none)

def expireTemporaryPromotions (states : States) : States × List TierTransition :=
  passOver (expireState nowMs) states

@[simp] theorem get?_passOver (f : EntityTierState → EntityTierState × Option TierTransition)
    (states : States) (key : EntityKey) :
    (passOver f states).1.get? key = (states.get? key).map fun s => (f s).1 :=
  Dict.get?_mapVals states _ key

/-!
## Shadow hits and fast wake

`tiers/shadow.py`. Python iterates the set of hit ids in an order of its own, which is the argument
`setOrder`.
-/

def mcpServerEntityId (server : Text) : Text :=
  if server.strip = [] then [] else "mcp_server:" ++ server.strip

/-- `tools_by_id`: the ids in order, and `_entity_mcp_server` on it. -/
structure ToolsById where
  ids : List Text
  entityMcpServer : Text → Option Text

def serverToolEntityIds (toolsById : ToolsById) (server : Text) : List Text :=
  toolsById.ids.filter fun entityId => toolsById.entityMcpServer entityId == some server

def allServerToolsDormant (toolsById : ToolsById) (server : Text) : Bool :=
  let toolIds := serverToolEntityIds toolsById server
  if toolIds.length < 2 then false
  else toolIds.all fun entityId =>
    match states.get? (.tool, entityId) with
    | none => false
    | some state => state.effectiveTier == .dormant

/-- `_dormant_state`: the state of the entity, entered as DORMANT when it is new. -/
def dormantState (kind : EntityKind) (entityId : Text) : States × EntityTierState :=
  match states.get? (kind, entityId) with
  | some state => (states, state)
  | none =>
    let state := EntityTierState.init kind entityId .dormant
    (states.set (kind, entityId) state, state)

/-- The variables that the loops of `record_shadow_hits` share. -/
structure ShadowRun where
  states : States
  transitions : List TierTransition
  woken : List EntityKey
  serverWakeScores : Dict Text ℚ

def bumpShadowHits : EntityTierState :=
  { state with stats := { state.stats with shadowHits := state.stats.shadowHits + 1 } }

def bumpShadowEvaluations : EntityTierState :=
  { state with
    stats := { state.stats with shadowEvaluations := state.stats.shadowEvaluations + 1 } }

def wakeEntityFromShadow (ops : FloatOps) (cfg : TierSectionConfig) (wakeCycleId : Int)
    (wakeKind : EntityKind) (entityId : Text) (queryRelevance siblingActivity : ℚ)
    (countShadowHit : Bool) (run : ShadowRun) : ShadowRun :=
  if run.woken.contains (wakeKind, entityId) then
    run
  else
    let d := dormantState run.states wakeKind entityId
    let state := if countShadowHit then bumpShadowHits d.2 else d.2
    let r := evaluateFastWake ops state cfg wakeCycleId queryRelevance siblingActivity
    let states := d.1.set (wakeKind, entityId) r.1
    match r.2 with
    | none => { run with states := states }
    | some wake =>
      { run with
        states := states
        transitions := run.transitions ++ [wake]
        woken := (wakeKind, entityId) :: run.woken }

/-- `_record_tool_server_shadow_scores`; the flag is its return value. -/
def recordToolServerShadowScores (kind : EntityKind) (entityId : Text) (topScore : ℚ)
    (toolsById : ToolsById) (run : ShadowRun) : ShadowRun × Bool :=
  if kind ≠ .tool then
    (run, false)
  else
    match toolsById.entityMcpServer entityId with
    | none => (run, false)
    | some server =>
      if server = [] ∨ ¬ allServerToolsDormant run.states toolsById server then
        (run, false)
      else
        let best := max ((run.serverWakeScores.get? server).getD 0) topScore
        let d := dormantState run.states kind entityId
        ({ run with
            states := d.1.set (kind, entityId) (bumpShadowHits d.2)
            serverWakeScores := run.serverWakeScores.set server best },
          true)

/-- `max((score for eid, score in hits if eid == entity_id), default=0.0)`. -/
def topScore (hits : List (Text × ℚ)) (entityId : Text) : ℚ :=
  match (hits.filter fun h => h.1 == entityId).map Prod.snd with
  | [] => 0
  | score :: scores => scores.foldl max score

/-- The body of the first loop of `record_shadow_hits`. -/
def shadowHitStep (cfg : TierSectionConfig) (wakeCycleId : Int) (kind : EntityKind)
    (hits : List (Text × ℚ)) (toolsById : Option ToolsById) (run : ShadowRun) (entityId : Text) :
    ShadowRun :=
  let d := dormantState run.states kind entityId
  let run := { run with states := d.1.set (kind, entityId) (bumpShadowEvaluations d.2) }
  let score := topScore hits entityId
  let scored :=
    match toolsById with
    | none => (run, false)
    | some toolsById => recordToolServerShadowScores kind entityId score toolsById run
  if scored.2 then scored.1
  else wakeEntityFromShadow ops cfg wakeCycleId kind entityId score 0 true scored.1

/-- The body of the second loop of `record_shadow_hits`: wake the servers. -/
def shadowServerStep (cfg : TierSectionConfig) (wakeCycleId : Int) (run : ShadowRun)
    (entry : Text × ℚ) : ShadowRun :=
  if mcpServerEntityId entry.1 = [] then run
  else wakeEntityFromShadow ops cfg wakeCycleId .mcpServer (mcpServerEntityId entry.1) entry.2 0
    false run

def recordShadowHits (cfg : TierSectionConfig) (wakeCycleId : Int)
    (setOrder : List Text → List Text) (kind : EntityKind) (hits : List (Text × ℚ))
    (toolsById : Option ToolsById) (states : States) : States × List TierTransition :=
  let hitSet := ((hits.filter fun h => decide (0 < h.2)).map Prod.fst).dedup
  let run : ShadowRun := ⟨states, [], [], Dict.empty⟩
  let run := (setOrder hitSet).foldl (shadowHitStep ops cfg wakeCycleId kind hits toolsById) run
  let run := run.serverWakeScores.entries.foldl (shadowServerStep ops cfg wakeCycleId) run
  let states := run.states.mapVals fun key state =>
    if key.1 = kind ∧ ¬ hitSet.contains key.2 ∧ state.effectiveTier = .dormant then
      bumpShadowEvaluations state
    else state
  (states, run.transitions)

end ClearYourTools.Tiers
