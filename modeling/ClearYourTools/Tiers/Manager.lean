import Mathlib.Data.Nat.Sqrt
import ClearYourTools.Tiers.Evaluator

/-!
# Tier manager

`TierManager` of `tiers/manager.py` as a state machine: the record calls, the shadow hits,
the request cycle and the epoch evaluation. A call reads the configuration, the filters and
the clock, which together are its `Call`. Where a float operation of the decay raises, the call
ends with the states that it has changed. The SQLite store, a copy that is only written, is not
part of the state.
-/

namespace ClearYourTools.Tiers

open Misc

/-- Readings of `time.time()` in milliseconds, in the order a record call takes them: in
`fast_promote_on_tool_use`, for `last_seen_ms` (once for each entity), in `_touch_request`
and in `_run_epoch`. -/
structure Readings where
  promote : Int
  seen : Nat → Int
  touch : Int
  epoch : Int

/-- What a call takes from outside the manager. `filterTools` is
`filter_tools_for_tier_tracking`, `setOrder` the iteration order of a Python set. -/
structure Call where
  config : Config
  clock : Readings
  allowedSources : Finset Text
  catalogEntityIds : Option (Finset Text)
  filterTools : List Tool → List Tool
  setOrder : List Text → List Text

/-- The parts of the runtime that do not change between calls. -/
structure Env where
  ops : FloatOps
  paths : SkillPaths

/-- `TierManager`. -/
structure Manager where
  states : States
  epoch : EpochState
  purgedToolScope : Option (Finset Text × Option (Finset Text))
  pendingFlush : Bool
  lastInjectedTools : List Text
  lastInjectedSkills : List Text
  requestCycleOpen : Bool
  cycleSelected : List EntityKey
  cycleUsed : List EntityKey
  cycleShadow : List EntityKey

namespace Manager

/-- A manager over an empty store, with the epoch row it loaded. -/
def onEmptyStore (epoch : EpochState) : Manager where
  states := Dict.empty
  epoch := epoch
  purgedToolScope := none
  pendingFlush := false
  lastInjectedTools := []
  lastInjectedSkills := []
  requestCycleOpen := false
  cycleSelected := []
  cycleUsed := []
  cycleShadow := []

variable (env : Env)

def reconcileEphemeralStates (m : Manager) : Manager :=
  { m with
    states := m.states.filter fun _ state => !env.paths.isEphemeralSkillPath state.entityId }

/-- `flush_pending`, on the memory of the manager. -/
def flushPending (force : Bool) (m : Manager) : Manager :=
  let m := m.reconcileEphemeralStates env
  if ¬ force ∧ ¬ m.pendingFlush then m else { m with pendingFlush := false }

def finishRecord (call : Call) (syncFlush : Bool) (m : Manager) : Manager :=
  let m := { m with pendingFlush := true }
  if syncFlush ∨ call.config.diskFlushSeconds ≤ 0 then m.flushPending env true else m

variable (call : Call)

/-- `purge_inactive_tool_sources`: remove tool rows outside the configured sources or the
loaded catalog, once for each scope. -/
def purgeInactiveToolSources (m : Manager) : Manager :=
  let scope := (call.allowedSources, call.catalogEntityIds)
  if m.purgedToolScope = some scope then
    m
  else
    { m with
      states := m.states.filter fun key state =>
        keptByToolPurge call.allowedSources call.catalogEntityIds key.1 state.entityId
      purgedToolScope := some scope }

/-- The key under which `_ensure_state` files an entity. -/
def ensureKey (kind : EntityKind) (entityId : Text) (docId : Option Text) : Option EntityKey :=
  match kind with
  | .skill => (env.paths.tierEntityIdForSkill entityId docId).map fun id => (.skill, id)
  | .tool => some (.tool, canonicalToolEntityId entityId)
  | .mcpServer => some (.mcpServer, entityId)

variable (key : EntityKey)

/-- `_ensure_state`: a new entity starts at ACTIVE. -/
def ensureState (m : Manager) : Manager :=
  match m.states.get? key with
  | some _ => m
  | none => { m with states := m.states.set key (.init key.1 key.2 .active) }

def updateState (f : EntityTierState → EntityTierState) (m : Manager) : Manager :=
  { m with states := m.states.update key f }

variable (seenMs : Int)

def bumpCandidates (state : EntityTierState) : EntityTierState :=
  { state with
    stats := { state.stats with candidates := state.stats.candidates + 1, lastSeenMs := seenMs } }

def bumpInjected (state : EntityTierState) : EntityTierState :=
  { state with
    stats := { state.stats with injected := state.stats.injected + 1, lastSeenMs := seenMs } }

variable (state : EntityTierState)

def bumpAttempts : EntityTierState :=
  { state with
    stats := { state.stats with
      attempts := state.stats.attempts + 1
      epochAttempts := state.stats.epochAttempts + 1 } }

/-- `used` and `epoch_used`, and `used_without_injection` when the entity was not in the
last injection. -/
def bumpUsed (wasInjected : Bool) (state : EntityTierState) : EntityTierState :=
  { state with
    stats := { state.stats with
      used := state.stats.used + 1
      epochUsed := state.stats.epochUsed + 1
      usedWithoutInjection :=
        if wasInjected then state.stats.usedWithoutInjection
        else state.stats.usedWithoutInjection + 1 } }

def bumpOptionalUsed : EntityTierState :=
  { state with stats := { state.stats with optionalUsed := state.stats.optionalUsed + 1 } }

def touchSeen (state : EntityTierState) : EntityTierState :=
  { state with stats := { state.stats with lastSeenMs := seenMs } }

def touchStatsRequest : EntityTierState :=
  { state with
    stats := { state.stats with requestsSinceDecay := state.stats.requestsSinceDecay + 1 } }

/-- The reset at the end of `_run_epoch`. -/
def resetEpochCounters : EntityTierState :=
  { state with stats := { state.stats with epochUsed := 0, epochAttempts := 0 } }

/-- `_decay_all`; the flag is false where the decay of some state raised. -/
def decayAll (cfg : TierSectionConfig) (m : Manager) : Manager × Bool :=
  let r := m.states.mapUntil fun state =>
    (state.stats.decay env.ops cfg.requestHalfLife).map fun stats => { state with stats := stats }
  ({ m with states := r.1 }, r.2)

/-- The states that `_run_epoch` hands to `evaluate_slow_clock`. -/
def slowClockInput (nowMs : Int) (states : States) : States :=
  (expireTemporaryPromotions nowMs (crystallizeSuccessfulToolPromotionsAtEpoch states).1).1

def runEpoch (call : Call) (m : Manager) : Manager :=
  let nowMs := call.clock.epoch
  let slow := (evaluateSlowClock env.ops call.config.tool (slowClockInput nowMs m.states)).1
  { m with
    states := slow.mapVals fun _ state => resetEpochCounters state
    epoch := { m.epoch with
      epochId := m.epoch.epochId + 1
      epochStartMs := nowMs
      lastRequestMs := nowMs }
    pendingFlush := false }

/-- The manager after the first steps of `_touch_request`: decay and the request time. The
flag is false where the decay raised, and the request time is then not written. -/
def beginTouch (call : Call) (m : Manager) : Manager × Bool :=
  let r := m.decayAll env call.config.tool
  if r.2 then
    ({ r.1 with epoch := { r.1.epoch with lastRequestMs := call.clock.touch } }, true)
  else
    (r.1, false)

/-- `_touch_request`. The result is whether an epoch ran, and `none` where the call raised. -/
def touchRequest (call : Call) (m : Manager) : Manager × Option Bool :=
  let r := m.beginTouch env call
  if ¬ r.2 then
    (r.1, none)
  else if epochBoundary call.clock.touch r.1.epoch call.config.tool then
    (r.1.runEpoch env call, some true)
  else
    ({ r.1 with states := (expireTemporaryPromotions call.clock.touch r.1.states).1 }, some false)

def advanceEpochIfAgeExpired (call : Call) (m : Manager) : Manager :=
  if epochAgeExpired call.clock.touch m.epoch call.config.tool then m.runEpoch env call else m

def evaluateFastSleepAll (cfg : TierSectionConfig) (m : Manager) : Manager :=
  { m with
    states := m.states.mapVals fun key state =>
      (evaluateFastSleep state cfg m.epoch.wakeCycleId (m.cycleSelected.contains key)
        (m.cycleUsed.contains key) (m.cycleShadow.contains key)).1 }

def beginRequestCycle (m : Manager) : Manager :=
  if ¬ call.config.toolsActive ∧ ¬ call.config.skillsActive then m
  else if m.requestCycleOpen then m
  else
    let m := m.evaluateFastSleepAll call.config.tool
    { m with
      epoch := { m.epoch with wakeCycleId := m.epoch.wakeCycleId + 1 }
      cycleSelected := []
      cycleUsed := []
      cycleShadow := []
      requestCycleOpen := true
      pendingFlush := true }

def endRequestCycle (m : Manager) : Manager := { m with requestCycleOpen := false }

/-- The common end of the record calls: `_touch_request`, then what the call does when it
did not raise. -/
def record (call : Call) (finish : Bool → Manager → Manager) (m : Manager) : Manager :=
  let r := m.touchRequest env call
  match r.2 with
  | none => r.1
  | some epochRan => finish epochRan r.1

/-- One entity of the counting loops: count it, and select it for this cycle. -/
def countSelected (kind : EntityKind) (bump : EntityTierState → EntityTierState) (entityId : Text)
    (docId : Option Text) (m : Manager) : Manager :=
  match ensureKey env kind entityId docId with
  | none => m
  | some key =>
    let m := (m.ensureState key).updateState key bump
    { m with cycleSelected := (kind, entityId) :: m.cycleSelected }

/-- The tool ids that the counting loops visit. -/
def trackedToolIds (tools : List Tool) : List Text :=
  ((call.filterTools tools).map toolEntityId).filter fun id => !id.isEmpty

/-- `record_tool_candidates` up to `_touch_request`. -/
def markToolCandidates (call : Call) (tools : List Tool) (m : Manager) : Manager :=
  let m := m.purgeInactiveToolSources call
  (trackedToolIds call tools).zipIdx.foldl
    (fun m e => m.countSelected env .tool (bumpCandidates (call.clock.seen e.2)) e.1 none) m

/-- `_touch_stats_request` on the tools of the call that have a state. -/
def touchToolStats (ids : List Text) (m : Manager) : Manager :=
  ids.foldl (fun m id => m.updateState (.tool, id) touchStatsRequest) m

/-- `record_tool_candidates`: BM25-eligible exposure. -/
def recordToolCandidates (call : Call) (tools : List Tool) (m : Manager) : Manager :=
  if ¬ call.config.toolsActive then m
  else
    (m.markToolCandidates env call tools).record env call fun epochRan m =>
      let m := m.touchToolStats (trackedToolIds call tools)
      if epochRan then m else m.finishRecord env call false

/-- `record_tools_injected` up to `_touch_request`. -/
def markToolsInjected (call : Call) (tools : List Tool) (m : Manager) : Manager :=
  let m := m.purgeInactiveToolSources call
  let ids := trackedToolIds call tools
  let m := ids.zipIdx.foldl
    (fun m e => m.countSelected env .tool (bumpInjected (call.clock.seen e.2)) e.1 none) m
  { m with lastInjectedTools := ids.dedup }

/-- `record_tools_injected`: tools that survived pruning. -/
def recordToolsInjected (call : Call) (tools : List Tool) (m : Manager) : Manager :=
  if ¬ call.config.toolsActive then m
  else
    (m.markToolsInjected env call tools).record env call fun epochRan m =>
      let m := m.touchToolStats (trackedToolIds call tools).dedup
      if epochRan then m else m.finishRecord env call false

/-- What a successful invocation does to the state of its tool. -/
def useTool (wasInjected optionalUsed : Bool) (state : EntityTierState) : EntityTierState :=
  let state := bumpUsed wasInjected state
  if optionalUsed then
    (fastPromoteOnOptionalUse (bumpOptionalUsed state) (some call.config.tool) call.clock.promote).1
  else
    (fastPromoteOnToolUse state (some call.config.tool) call.clock.promote).1

/-- `record_tool_attempt` between its guards and `_touch_request`. -/
def markToolAttempt (entityId : Text) (success optionalUsed : Bool) (m : Manager) : Manager :=
  let key : EntityKey := (.tool, canonicalToolEntityId entityId)
  let m := (m.ensureState key).updateState key bumpAttempts
  let m :=
    if success then
      let wasInjected := m.lastInjectedTools.contains entityId
      { m.updateState key (useTool call wasInjected optionalUsed) with
        cycleUsed := (.tool, entityId) :: m.cycleUsed }
    else m
  m.updateState key (touchSeen (call.clock.seen 0))

/-- The `sync_flush` test of the use records. -/
def promotionPending (m : Manager) : Bool :=
  match m.states.get? key with
  | none => false
  | some state =>
    state.tempPromotionUntilMs.isSome || decide (state.stableTier < state.effectiveTier)

def recordToolAttempt (call : Call) (tool : Tool) (success optionalUsed : Bool) (m : Manager) :
    Manager :=
  if ¬ call.config.toolsActive then m
  else
    let m := m.purgeInactiveToolSources call
    let entityId := toolEntityId tool
    if ¬ toolTrackedForConfig call.allowedSources tool ∨ entityId = [] then m
    else
      let key : EntityKey := (.tool, canonicalToolEntityId entityId)
      (m.markToolAttempt call entityId success optionalUsed).record env call fun epochRan m =>
        let m := m.updateState key touchStatsRequest
        if epochRan then m else m.finishRecord env call (success && m.promotionPending key)

/-- `record_skill_candidates` up to `_touch_request`. -/
def markSkillCandidates (call : Call) (entries : List SkillEntryRef) (m : Manager) : Manager :=
  let ids := entries.filter fun e => !(skillEntityId env.paths e).isEmpty
  ids.zipIdx.foldl
    (fun m e => m.countSelected env .skill (bumpCandidates (call.clock.seen e.2))
      (skillEntityId env.paths e.1) (some e.1.docId)) m

def recordSkillCandidates (call : Call) (entries : List SkillEntryRef) (m : Manager) : Manager :=
  if ¬ call.config.skillsActive then m
  else
    (m.markSkillCandidates env call entries).record env call fun epochRan m =>
      if epochRan then m else m.finishRecord env call false

/-- `resolved_doc_id` of `record_skills_injected`. -/
def resolvedDocId (ref : SkillMatchRef) : Option Text :=
  ref.docId.filter fun docId => !(Text.strip docId).isEmpty

/-- The entities that `record_skills_injected` counts, with their document ids. -/
def injectedSkillIds (refs : List SkillMatchRef) : List (Text × Option Text) :=
  refs.filterMap fun ref =>
    match env.paths.tierEntityIdForSkill ref.path (resolvedDocId ref) with
    | none => none
    | some id => if id = [] then none else some (id, resolvedDocId ref)

/-- `record_skills_injected` up to `_touch_request`. -/
def markSkillsInjected (call : Call) (refs : List SkillMatchRef) (m : Manager) : Manager :=
  let ids := injectedSkillIds env refs
  let m := ids.zipIdx.foldl
    (fun m e => m.countSelected env .skill (bumpInjected (call.clock.seen e.2)) e.1.1 e.1.2) m
  { m with lastInjectedSkills := (ids.map Prod.fst).dedup }

def recordSkillsInjected (call : Call) (refs : List SkillMatchRef) (m : Manager) : Manager :=
  if ¬ call.config.skillsActive then m
  else
    (m.markSkillsInjected env call refs).record env call fun epochRan m =>
      if epochRan then m else m.finishRecord env call false

/-- What a use does to the state of its skill. -/
def useSkill (wasInjected : Bool) (state : EntityTierState) : EntityTierState :=
  (fastPromoteOnToolUse (bumpUsed wasInjected state) (some call.config.skill)
    call.clock.promote).1

/-- The key of `record_skill_used`, when the call tracks the skill. -/
def usedSkillKey (entityId : Text) : Option (Text × EntityKey) :=
  match env.paths.tierEntityIdForSkill entityId (env.paths.resolveSkillDocId entityId) with
  | none => none
  | some canonicalId =>
    if canonicalId = [] then none
    else (ensureKey env .skill canonicalId none).map fun key => (canonicalId, key)

/-- `record_skill_used` between its guards and `_touch_request`. -/
def markSkillUsed (canonicalId : Text) (key : EntityKey) (m : Manager) : Manager :=
  let m := m.ensureState key
  let wasInjected := m.lastInjectedSkills.contains canonicalId
  let m := { m.updateState key (useSkill call wasInjected) with
    cycleUsed := (.skill, canonicalId) :: m.cycleUsed }
  m.updateState key (touchSeen (call.clock.seen 0))

def recordSkillUsed (call : Call) (entityId : Text) (m : Manager) : Manager :=
  if ¬ call.config.skillsActive then m
  else
    match usedSkillKey env entityId with
    | none => m
    | some (canonicalId, key) =>
      (m.markSkillUsed call canonicalId key).record env call fun epochRan m =>
        let m := m.updateState key touchStatsRequest
        if epochRan then m else m.finishRecord env call (m.promotionPending key)

/-- The common part of `apply_shadow_tool_hits` and `apply_shadow_skill_hits`. -/
def applyShadowHits (call : Call) (cfg : TierSectionConfig) (kind : EntityKind)
    (hits : List (Text × ℚ)) (toolsById : Option ToolsById) (m : Manager) : Manager :=
  let r := recordShadowHits env.ops cfg m.epoch.wakeCycleId call.setOrder kind hits toolsById
    m.states
  let m := { m with
    states := r.1
    cycleShadow := r.2.map (fun (t : TierTransition) => (t.kind, t.entityId)) ++ m.cycleShadow }
  m.finishRecord env call false

def applyShadowToolHits (call : Call) (hits : List (Text × ℚ)) (toolsById : Option ToolsById)
    (m : Manager) : Manager :=
  let m := m.purgeInactiveToolSources call
  let trackedHits := hits.filter fun h => toolEntityTrackedForConfig call.allowedSources h.1
  if trackedHits = [] then m
  else m.applyShadowHits env call call.config.tool .tool trackedHits toolsById

def applyShadowSkillHits (call : Call) (hits : List (Text × ℚ)) (m : Manager) : Manager :=
  if ¬ call.config.skillsActive then m
  else if hits = [] then m
  else m.applyShadowHits env call call.config.skill .skill hits none

end Manager

/-!
## Runs of the tier manager

The public operations of `TierManager` as one type, and finite runs of them, each operation with
its own `Call`. `requested` and `epochStart` are two moments inside an operation: the entries of
`_touch_request` and of `_run_epoch`.
-/

/-- The operations that write tier states. -/
inductive Op where
  | recordToolCandidates (tools : List Tool)
  | recordToolsInjected (tools : List Tool)
  | recordToolAttempt (tool : Tool) (success optionalUsed : Bool)
  | recordSkillCandidates (entries : List SkillEntryRef)
  | recordSkillsInjected (refs : List SkillMatchRef)
  | recordSkillUsed (entityId : Text)
  | applyShadowToolHits (hits : List (Text × ℚ)) (toolsById : Option ToolsById)
  | applyShadowSkillHits (hits : List (Text × ℚ))
  | beginRequestCycle
  | endRequestCycle
  | purgeInactiveToolSources
  | advanceEpochIfAgeExpired
  | expireTemporaryPromotions
  | runEpoch
  | flushPending (force : Bool)

namespace Op

variable (env : Env)

def apply (call : Call) (op : Op) (m : Manager) : Manager :=
  match op with
  | recordToolCandidates tools => m.recordToolCandidates env call tools
  | recordToolsInjected tools => m.recordToolsInjected env call tools
  | recordToolAttempt tool success optionalUsed =>
    m.recordToolAttempt env call tool success optionalUsed
  | recordSkillCandidates entries => m.recordSkillCandidates env call entries
  | recordSkillsInjected refs => m.recordSkillsInjected env call refs
  | recordSkillUsed entityId => m.recordSkillUsed env call entityId
  | applyShadowToolHits hits toolsById => m.applyShadowToolHits env call hits toolsById
  | applyShadowSkillHits hits => m.applyShadowSkillHits env call hits
  | beginRequestCycle => m.beginRequestCycle call
  | endRequestCycle => m.endRequestCycle
  | purgeInactiveToolSources => m.purgeInactiveToolSources call
  | advanceEpochIfAgeExpired => m.advanceEpochIfAgeExpired env call
  | expireTemporaryPromotions =>
    { m with states := (Tiers.expireTemporaryPromotions call.clock.touch m.states).1 }
  | runEpoch => m.runEpoch env call
  | flushPending force => m.flushPending env force

/-- The manager with which a record call enters `_touch_request`; `none` for the other
operations and for a record call that a guard ends before. -/
def requested (call : Call) (op : Op) (m : Manager) : Option Manager :=
  match op with
  | recordToolCandidates tools =>
    if call.config.toolsActive then some (m.markToolCandidates env call tools) else none
  | recordToolsInjected tools =>
    if call.config.toolsActive then some (m.markToolsInjected env call tools) else none
  | recordToolAttempt tool success optionalUsed =>
    if call.config.toolsActive ∧ toolTrackedForConfig call.allowedSources tool ∧
        toolEntityId tool ≠ [] then
      some ((m.purgeInactiveToolSources call).markToolAttempt call (toolEntityId tool) success
        optionalUsed)
    else none
  | recordSkillCandidates entries =>
    if call.config.skillsActive then some (m.markSkillCandidates env call entries) else none
  | recordSkillsInjected refs =>
    if call.config.skillsActive then some (m.markSkillsInjected env call refs) else none
  | recordSkillUsed entityId =>
    if call.config.skillsActive then
      (Manager.usedSkillKey env entityId).map fun k => m.markSkillUsed call k.1 k.2
    else none
  | _ => none

/-- The manager with which `_touch_request` enters `_run_epoch`, if it does. -/
def touchEpochStart (call : Call) (m : Manager) : Option Manager :=
  let r := m.beginTouch env call
  if r.2 ∧ epochBoundary call.clock.touch r.1.epoch call.config.tool then some r.1 else none

/-- The manager with which an operation enters `_run_epoch`, if it does. -/
def epochStart (call : Call) (op : Op) (m : Manager) : Option Manager :=
  match op with
  | runEpoch => some m
  | advanceEpochIfAgeExpired =>
    if epochAgeExpired call.clock.touch m.epoch call.config.tool then some m else none
  | op => (op.requested env call m).bind (touchEpochStart env call)

end Op

/-- One step of a run: an operation and the call it is made with. -/
abbrev Step := Call × Op

variable (env : Env)

/-- The manager after a sequence of operations. -/
def run (steps : List Step) (m : Manager) : Manager :=
  steps.foldl (fun m step => step.2.apply env step.1 m) m

/-- A fresh entity state: ACTIVE, without a temporary promotion. -/
structure EntityTierState.Fresh (state : EntityTierState) : Prop where
  stable : state.stableTier = .active
  effective : state.effectiveTier = .active
  no_overlap : state.overlapTier = none
  no_temp : state.tempPromotionUntilMs = none
  epochUsed_nonneg : 0 ≤ state.stats.epochUsed

/-- A manager all of whose states are fresh. -/
def Manager.Fresh (m : Manager) : Prop := m.states.Forall fun _ state => state.Fresh

theorem Manager.onEmptyStore_fresh (epoch : EpochState) : (Manager.onEmptyStore epoch).Fresh :=
  Dict.forall_empty _

/-- What every operation preserves, a run preserves. -/
theorem run_invariant {env : Env} {P : Manager → Prop}
    (hstep : ∀ call op m, P m → P (Op.apply env call op m)) (steps : List Step) {m : Manager}
    (hm : P m) : P (run env steps m) := by
  induction steps generalizing m with
  | nil => exact hm
  | cons step steps ih => exact ih (hstep step.1 step.2 m hm)

/-! ### A concrete environment

The runs on fixed inputs use these. The square root is rounded down to three decimals and
`2.0 ** x` is taken at whole exponents, which is where these runs need them. -/

def sampleEnv : Env where
  ops :=
    { sqrt := fun x => (Nat.sqrt (x.num.toNat * 1000000 / x.den) : ℚ) / 1000
      pow2 := fun x => some (if 0 ≤ x then 2 ^ x.num.toNat else 1 / 2 ^ (-x.num).toNat) }
  paths :=
    { tierEntityIdForSkill := fun path _ => if path = [] then none else some path
      resolveSkillDocId := fun _ => none
      isEphemeralSkillPath := fun _ => false }

def sampleTool : Tool := ⟨"search", "cyt_mcp", false⟩

/-- A call whose clock stands at `nowMs`. -/
def sampleCall (config : Config) (nowMs : Int) : Call where
  config := config
  clock := ⟨nowMs, fun _ => nowMs, nowMs, nowMs⟩
  allowedSources := {"cyt_mcp".toList}
  catalogEntityIds := none
  filterTools := id
  setOrder := id

end ClearYourTools.Tiers
