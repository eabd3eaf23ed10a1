import ClearYourTools.Misc.Tally
import ClearYourTools.Tiers.Models

/-!
# The tier store

The tables `entity_tier` and `entity_stats` of `tiers/store.py`, as dictionaries from their
primary keys to the other columns, and the functions that load, save and decay entities.
-/

/-! ## Normalising persisted states: `tiers/adapters/tools.py`, `tiers/adapters/skills.py` -/

namespace ClearYourTools.Tiers

open Misc

/-- The counters of `EffectiveStats`. -/
inductive Counter where
  | candidates
  | injected
  | used
  | attempts
  | usedWithoutInjection
  | optionalUsed
  | shadowHits
  | shadowEvaluations
  | epochUsed
  | epochAttempts
deriving DecidableEq

def EffectiveStats.count (stats : EffectiveStats) : Counter → ℚ
  | .candidates => stats.candidates
  | .injected => stats.injected
  | .used => stats.used
  | .attempts => stats.attempts
  | .usedWithoutInjection => stats.usedWithoutInjection
  | .optionalUsed => stats.optionalUsed
  | .shadowHits => stats.shadowHits
  | .shadowEvaluations => stats.shadowEvaluations
  | .epochUsed => stats.epochUsed
  | .epochAttempts => stats.epochAttempts

/-- What becomes of the row of an id: it stays, it is dropped, or it goes to a canonical id. -/
inductive Fate where
  | stays
  | dropped
  | becomes (canonical : Text)
deriving DecidableEq

/-- The kind of the rows, the fate of an id, the copy of a row for its canonical id, and the
statistics of the canonical row with those of another row. -/
structure Reconciliation where
  kind : EntityKind
  fate : Text → Fate
  clone : Text → EntityTierState → EntityTierState
  merge : EffectiveStats → EffectiveStats → EffectiveStats

/-- The states so far, the ids that were removed and the canonical ids that were written. -/
structure Reconciled where
  states : States
  removed : List Text
  touched : List Text

namespace Reconciliation

variable (r : Reconciliation)

/-- The row of a canonical id with another row. -/
def absorb (canonical : Text) (target : Option EntityTierState) (state : EntityTierState) :
    EntityTierState :=
  match target with
  | none => r.clone canonical state
  | some target => { target with stats := r.merge target.stats state.stats }

variable (states : States)

/-- `del states[key]`. -/
def delete (key : EntityKey) : States := states.filter fun k _ => k != key

/-- One row of the loop over `list(states.items())`. -/
def reconcile (acc : Reconciled) (key : EntityKey) : Reconciled :=
  match acc.states.get? key with
  | none => acc
  | some state =>
    if key.1 ≠ r.kind then acc
    else
      match r.fate state.entityId with
      | .stays => acc
      | .dropped =>
        { acc with
          states := delete acc.states key
          removed := acc.removed ++ [state.entityId] }
      | .becomes canonical =>
        let target := (r.kind, canonical)
        { states := delete (acc.states.set target
            (r.absorb canonical (acc.states.get? target) state)) key
          removed := acc.removed ++ [state.entityId]
          touched := acc.touched ++ [canonical] }

/-- The loop. -/
def run : Reconciled := states.keys.foldl r.reconcile ⟨states, [], []⟩

/-- The rows of an entity id, the first of them only. -/
def dedupeEntityStates : List EntityTierState → List EntityTierState
  | [] => []
  | state :: states =>
    state :: (dedupeEntityStates states).filter fun other => other.entityId != state.entityId

/-- The states after the loop, the removed ids, and the written rows. -/
def normalize : States × List Text × List EntityTierState :=
  let done := r.run states
  let updated := done.states.entries.filter fun e =>
    e.1.1 == r.kind && done.touched.contains e.2.entityId
  (done.states, done.removed, dedupeEntityStates (updated.map Prod.snd))

end Reconciliation

/-- The copy of a row for a canonical id, as both functions make it. -/
def cloneEntityState (kind : EntityKind) (canonical : Text) (state : EntityTierState) :
    EntityTierState :=
  { state with
    entityId := canonical
    kind := kind
    stats := { EffectiveStats.init with
      candidates := state.stats.candidates
      injected := state.stats.injected
      used := state.stats.used
      usedWithoutInjection := state.stats.usedWithoutInjection
      optionalUsed := state.stats.optionalUsed
      shadowHits := state.stats.shadowHits
      shadowEvaluations := state.stats.shadowEvaluations
      lastSeenMs := state.stats.lastSeenMs
      requestsSinceDecay := state.stats.requestsSinceDecay } }

/-- The row that `normalize_tool_entity_states` makes for a canonical id. -/
def cloneToolEntityState : Text → EntityTierState → EntityTierState := cloneEntityState .tool

def mergeToolStats (target source : EffectiveStats) : EffectiveStats :=
  { target with
    candidates := target.candidates + source.candidates
    injected := target.injected + source.injected
    used := target.used + source.used
    attempts := target.attempts + source.attempts
    usedWithoutInjection := target.usedWithoutInjection + source.usedWithoutInjection
    optionalUsed := target.optionalUsed + source.optionalUsed
    shadowHits := target.shadowHits + source.shadowHits
    shadowEvaluations := target.shadowEvaluations + source.shadowEvaluations
    lastSeenMs := max target.lastSeenMs source.lastSeenMs }

def toolFate (entityId : Text) : Fate :=
  let canonical := canonicalToolEntityId entityId
  if canonical = entityId then .stays else .becomes canonical

def toolReconciliation : Reconciliation where
  kind := .tool
  fate := toolFate
  clone := cloneToolEntityState
  merge := mergeToolStats

def normalizeToolEntityStates : States → States × List Text × List EntityTierState :=
  toolReconciliation.normalize

/-- The path functions that `resolve_skill_entity_id` asks: which paths are ephemeral or look
like files, the document id and the canonical id of a path, and `doc_id_from_path`. -/
structure SkillPathNames where
  isEphemeralSkillPath : Text → Bool
  looksLikeFilesystemPath : Text → Bool
  resolveSkillDocId : Text → Option Text
  canonicalSkillEntityId : Text → Text
  docIdFromPath : Text → Text

/-- `text.replace("\\", "/")`. -/
def forwardSlashes (text : Text) : Text := text.map fun c => if c = '\\' then '/' else c

def stableSkillDocEntityId (docId : Text) : Text :=
  let doc := docId.strip
  if doc = [] then [] else "skill:doc:" ++ doc

variable (names : SkillPathNames)

def resolveSkillEntityId (path : Text) (docId : Option Text) : Text :=
  let text := path.strip
  let docId := docId.getD []
  let canonical := names.canonicalSkillEntityId text
  if "skill:doc:".toList.isPrefixOf text ∨ "mcpc/".toList.isPrefixOf text then
    forwardSlashes text
  else if names.isEphemeralSkillPath text then
    if docId = [] then [] else stableSkillDocEntityId docId
  else if text ≠ [] ∧ ¬ names.looksLikeFilesystemPath text then forwardSlashes text
  else if text ≠ [] ∧ canonical ≠ [] then canonical
  else if docId ≠ [] then stableSkillDocEntityId docId
  else if text = [] then []
  else
    let resolved := (names.resolveSkillDocId text).getD []
    let fallback := if resolved = [] then names.docIdFromPath text else resolved
    if fallback = [] then [] else stableSkillDocEntityId fallback

def cloneSkillEntityState : Text → EntityTierState → EntityTierState := cloneEntityState .skill

def mergeSkillEntityStats (target source : EffectiveStats) : EffectiveStats :=
  { target with
    candidates := target.candidates + source.candidates
    injected := target.injected + source.injected
    used := target.used + source.used
    usedWithoutInjection := target.usedWithoutInjection + source.usedWithoutInjection
    optionalUsed := target.optionalUsed + source.optionalUsed
    shadowHits := target.shadowHits + source.shadowHits
    shadowEvaluations := target.shadowEvaluations + source.shadowEvaluations
    lastSeenMs := max target.lastSeenMs source.lastSeenMs }

/-- The fate of a skill row: only the rows of ephemeral paths are touched. -/
def skillFate (entityId : Text) : Fate :=
  if ¬ names.isEphemeralSkillPath entityId then .stays
  else
    let canonical := resolveSkillEntityId names entityId (names.resolveSkillDocId entityId)
    if canonical = [] ∨ canonical = entityId then .dropped else .becomes canonical

def skillReconciliation : Reconciliation where
  kind := .skill
  fate := skillFate names
  clone := cloneSkillEntityState
  merge := mergeSkillEntityStats

def normalizeSkillEntityStates : States → States × List Text × List EntityTierState :=
  (skillReconciliation names).normalize

/-- The columns of `entity_tier` other than the key. -/
structure TierRow where
  stableTier : Tier
  effectiveTier : Tier
  overlapTier : Option Tier
  tierSinceEpoch : Int
  tempPromotionUntilMs : Option Int
  wakeLeaseUntilCycle : Int
  sleepCooldownUntilCycle : Int

/-- The primary key of `entity_stats`. -/
structure StatsKey where
  projectId : Int
  entity : EntityKey
  pipeline : Text
deriving DecidableEq

/-- The two tables, rows in table order. -/
structure TierStore where
  entityTier : Dict (Int × EntityKey) TierRow
  entityStats : Dict StatsKey EffectiveStats

/-- An `EntityTierState` as it is loaded, with the fields that the manager does not read. -/
structure LoadedState where
  state : EntityTierState
  tierSinceEpoch : Int
  pipeline : Text

namespace TierStore

variable (store : TierStore)

/-- `stats_by_entity` and `pipeline_by_entity`: of several pipelines the last row counts. -/
def statsByEntity (projectId : Int) : Dict EntityKey (Text × EffectiveStats) :=
  Dict.empty.writeAll
    ((store.entityStats.entries.filter fun e => e.1.projectId == projectId).map fun e =>
      (e.1.entity, e.1.pipeline, e.2))

/-- The loaded entity of a row of `entity_tier`. -/
def loadedState (key : EntityKey) (row : TierRow) (stats : Option (Text × EffectiveStats)) :
    LoadedState where
  state :=
    { entityId := key.2
      kind := key.1
      stableTier := row.stableTier
      effectiveTier := row.effectiveTier
      overlapTier := row.overlapTier
      tempPromotionUntilMs := row.tempPromotionUntilMs
      wakeLeaseUntilCycle := row.wakeLeaseUntilCycle
      sleepCooldownUntilCycle := row.sleepCooldownUntilCycle
      stats := (stats.map Prod.snd).getD .init }
  tierSinceEpoch := row.tierSinceEpoch
  pipeline := (stats.map Prod.fst).getD "default"

def loadEntityStates (projectId : Int) : Dict EntityKey LoadedState :=
  let stats := store.statsByEntity projectId
  Dict.empty.writeAll
    ((store.entityTier.entries.filter fun e => e.1.1 == projectId).map fun e =>
      (e.1.2, loadedState e.1.2 e.2 (stats.get? e.1.2)))

/-- `upsert_entity_state`: the rows of ephemeral paths are not saved. -/
def upsertEntityState (isEphemeralSkillPath : Text → Bool) (store : TierStore) (projectId : Int)
    (loaded : LoadedState) : TierStore :=
  let state := loaded.state
  if isEphemeralSkillPath state.entityId then store
  else
    { entityTier := store.entityTier.set (projectId, state.kind, state.entityId)
        { stableTier := state.stableTier
          effectiveTier := state.effectiveTier
          overlapTier := state.overlapTier
          tierSinceEpoch := loaded.tierSinceEpoch
          tempPromotionUntilMs := state.tempPromotionUntilMs
          wakeLeaseUntilCycle := state.wakeLeaseUntilCycle
          sleepCooldownUntilCycle := state.sleepCooldownUntilCycle }
      entityStats := store.entityStats.set
        ⟨projectId, (state.kind, state.entityId), loaded.pipeline⟩ state.stats }

variable (ops : FloatOps)

/-- `decay_factor`; `none` where `2.0 ** x` raises. -/
def decayFactor (requestsSince : Int) (halfLife : ℚ) : Option ℚ :=
  if requestsSince ≤ 0 ∨ halfLife ≤ 0 then some 1 else ops.pow2 (-requestsSince / halfLife)

/-- What `apply_stat_decay` writes to a row. -/
def decayStatRow (halfLife : ℚ) (stats : EffectiveStats) : Option EffectiveStats :=
  if stats.requestsSinceDecay ≤ 0 then some stats
  else
    (decayFactor ops stats.requestsSinceDecay halfLife).map fun factor =>
      if 1 ≤ factor then stats
      else
        { stats with
          candidates := stats.candidates * factor
          injected := stats.injected * factor
          used := stats.used * factor
          attempts := stats.attempts * factor
          usedWithoutInjection := stats.usedWithoutInjection * factor
          optionalUsed := stats.optionalUsed * factor
          shadowHits := stats.shadowHits * factor
          shadowEvaluations := stats.shadowEvaluations * factor
          requestsSinceDecay := 0
          epochUsed := stats.epochUsed * factor
          epochAttempts := stats.epochAttempts * factor }

/-- `apply_stat_decay`, and whether it came to its end. -/
def applyStatDecay (halfLife : ℚ) (store : TierStore) : TierStore × Bool :=
  let decayed := store.entityStats.mapUntil (decayStatRow ops halfLife)
  ({ store with entityStats := decayed.1 }, decayed.2)

/-- The statistics of an entity as they are loaded. -/
def loadStats (projectId : Int) (key : EntityKey) : Option EffectiveStats :=
  ((store.loadEntityStates projectId).get? key).map fun loaded => loaded.state.stats

/-- The statistics after `apply_stat_decay`; `none` where it raises. -/
def storedDecay (halfLife : ℚ) (store : TierStore) (projectId : Int) (key : EntityKey) :
    Option EffectiveStats :=
  let decayed := store.applyStatDecay ops halfLife
  if decayed.2 then decayed.1.loadStats projectId key else none

/-- The statistics after the entity was loaded, decayed by `EffectiveStats.decay` and saved; `none`
where that raises. -/
def runtimeDecay (isEphemeralSkillPath : Text → Bool) (ops : FloatOps) (halfLife : ℚ)
    (store : TierStore) (projectId : Int) (key : EntityKey) : Option EffectiveStats :=
  match (store.loadEntityStates projectId).get? key with
  | none => none
  | some loaded =>
    match loaded.state.stats.decay ops halfLife with
    | none => none
    | some stats =>
      let saved := store.upsertEntityState isEphemeralSkillPath projectId
        { loaded with state := { loaded.state with stats := stats } }
      saved.loadStats projectId key

end TierStore

/-! ## Maintenance of the tier database: `tiers/store.py`, `tiers/maintenance.py` -/

/-- The arguments of `prune_dormant_entities` and `count_dormant_entities`. -/
structure DormantLimits where
  idleCutoffMs : Int
  counterFloor : ℚ
  maxEffectiveTier : Int

def countersBelowFloor (stats : EffectiveStats) (counterFloor : ℚ) : Bool :=
  [stats.candidates, stats.injected, stats.used, stats.attempts, stats.usedWithoutInjection,
    stats.optionalUsed, stats.shadowHits, stats.shadowEvaluations, stats.epochUsed,
    stats.epochAttempts].all fun value => !decide (counterFloor ≤ value)

namespace TierStore

variable (store : TierStore)

/-- The `effective_tier` that the join finds for a row, or that of `Tier.ACTIVE`. -/
def joinedTier (key : StatsKey) : Int :=
  (((store.entityTier.get? (key.projectId, key.entity)).map TierRow.effectiveTier).getD
    .active).value

/-- What `count_dormant_entities` asks of a row. -/
def countsRow (limits : DormantLimits) (row : StatsKey × EffectiveStats) : Bool :=
  !decide (limits.idleCutoffMs ≤ row.2.lastSeenMs) &&
    !decide (limits.maxEffectiveTier < store.joinedTier row.1) &&
    countersBelowFloor row.2 limits.counterFloor

/-- What `prune_dormant_entities` asks of a row. -/
def prunesRow (limits : DormantLimits) (row : StatsKey × EffectiveStats) : Bool :=
  !decide (limits.idleCutoffMs ≤ row.2.lastSeenMs) &&
    !decide (store.joinedTier row.1 ≤ (Tier.dormant.value : Int)) &&
    !decide (limits.maxEffectiveTier < store.joinedTier row.1) &&
    countersBelowFloor row.2 limits.counterFloor

def countDormantEntities (limits : DormantLimits) : Int :=
  (store.entityStats.entries.filter (store.countsRow limits)).length

/-- The two `DELETE` statements for an entity of a project. -/
def deleteEntity (projectId : Int) (entity : EntityKey) : TierStore where
  entityTier := store.entityTier.filter fun key _ => !decide (key = (projectId, entity))
  entityStats := store.entityStats.filter fun key _ =>
    !decide ((key.projectId, key.entity) = (projectId, entity))

/-- `prune_dormant_entities`: the rows are read first, then their entities are deleted. -/
def pruneDormantEntities (limits : DormantLimits) : TierStore × Int :=
  (store.entityStats.entries.filter (store.prunesRow limits)).foldl
    (fun state row => (state.1.deleteEntity row.1.projectId row.1.entity, state.2 + 1)) (store, 0)

end TierStore

structure EpochLogRow where
  projectId : Int
  tsMs : Int

/-- The table `epoch_log`, rows in the order of their ids. -/
abbrev EpochLog := Dict Int EpochLogRow

namespace EpochLog

variable (log : EpochLog)

def ofProject (projectId : Int) : List (Int × EpochLogRow) :=
  log.entries.filter fun row => decide (row.2.projectId = projectId)

def projects : List Int :=
  (groupsBy (fun row : Int × EpochLogRow => row.2.projectId) log.entries).keys

/-- How many of `count` rows are beyond the cap. -/
def excess (maxEntries : Int) (count : ℕ) : Int := max (count - max maxEntries 0) 0

/-- `count_epoch_log_prunable`; `max_age_ms` is a point of time. -/
def countPrunable (maxAgeMs maxEntries : Int) : Int :=
  (log.entries.filter fun row => decide (row.2.tsMs < maxAgeMs)).length +
    sumOf (fun projectId => excess maxEntries (log.ofProject projectId).length) log.projects

/-- The age limit of `prune_epoch_log`. -/
def pruneAged (maxAgeMs : Int) : EpochLog × Int :=
  if 0 < maxAgeMs then
    (log.filter fun _ row => !decide (row.tsMs < maxAgeMs),
      (log.entries.filter fun row => decide (row.2.tsMs < maxAgeMs)).length)
  else (log, 0)

/-- The oldest rows of a project that are beyond the cap. -/
def oldRows (maxEntries projectId : Int) : List (Int × EpochLogRow) :=
  ((log.ofProject projectId).mergeSort fun a b => decide (a.2.tsMs ≤ b.2.tsMs)).take
    (excess maxEntries (log.ofProject projectId).length).toNat

/-- The body of the loop over the projects. -/
def trimProject (maxEntries : Int) (state : EpochLog × Int) (projectId : Int) : EpochLog × Int :=
  (state.1.oldRows maxEntries projectId).foldl
    (fun state row => (state.1.filter fun id _ => !decide (id = row.1), state.2 + 1)) state

/-- `prune_epoch_log`. -/
def prune (maxAgeMs maxEntries : Int) : EpochLog × Int :=
  (log.pruneAged maxAgeMs).1.projects.foldl (trimProject maxEntries) (log.pruneAged maxAgeMs)

end EpochLog

/-- `TierRetentionConfig`, as far as a run of the maintenance reads it. -/
structure TierRetentionConfig where
  enabled : Bool
  applyDecayOnMaintenance : Bool
  requestHalfLife : ℚ
  entityMaxIdleDays : Int
  entityCounterFloor : ℚ
  epochLogMaxEntries : Int
  epochLogMaxAgeDays : Int

namespace TierRetentionConfig

/-- The limits of a run at `nowMs`. -/
def dormantLimits (retention : TierRetentionConfig) (nowMs : Int) : DormantLimits :=
  ⟨nowMs - retention.entityMaxIdleDays * 86400 * 1000, retention.entityCounterFloor,
    Tier.cold.value⟩

def ageCutoffMs (retention : TierRetentionConfig) (nowMs : Int) : Int :=
  nowMs - retention.epochLogMaxAgeDays * 86400 * 1000

end TierRetentionConfig

/-- The `deleted` numbers of a `DbTableMaintenanceResult`; `none` where the run did not come
to them. -/
structure DeletedRows where
  dormantEntities : Option Int
  epochLog : Option Int
deriving DecidableEq

variable (ops : FloatOps)

/-- The store that the decay of a maintenance run leaves, and whether it came to its end. -/
def decayOnMaintenance (retention : TierRetentionConfig) (store : TierStore) : TierStore × Bool :=
  if retention.applyDecayOnMaintenance then store.applyStatDecay ops retention.requestHalfLife
  else (store, true)

/-- The real deletions of `run_tier_state_maintenance`; `purgeStale` is the purge of inactive
and stale tools between decay and deletion. -/
def deleteOnMaintenance (purgeStale : TierStore → TierStore) (retention : TierRetentionConfig)
    (nowMs : Int) (store : TierStore) (log : EpochLog) : DeletedRows :=
  bif (decayOnMaintenance ops retention store).2 then
    ⟨some ((purgeStale (decayOnMaintenance ops retention store).1).pruneDormantEntities
        (retention.dormantLimits nowMs)).2,
      some (log.prune (retention.ageCutoffMs nowMs) retention.epochLogMaxEntries).2⟩
  else ⟨none, none⟩

/-- `run_tier_state_maintenance` on a flushed store. -/
def runTierStateMaintenance (purgeStale : TierStore → TierStore) (retention : TierRetentionConfig)
    (nowMs : Int) (dryRun : Bool) (store : TierStore) (log : EpochLog) : DeletedRows :=
  bif !retention.enabled then ⟨none, none⟩
  else bif dryRun then
    ⟨some (store.countDormantEntities (retention.dormantLimits nowMs)),
      some (log.countPrunable (retention.ageCutoffMs nowMs) retention.epochLogMaxEntries)⟩
  else deleteOnMaintenance ops purgeStale retention nowMs store log

end ClearYourTools.Tiers
