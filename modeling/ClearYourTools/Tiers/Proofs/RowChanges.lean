import Mathlib.Logic.Relation
import ClearYourTools.Tiers.Manager

/-!
# What an operation does to one entity

An operation first drops the rows that the tool purge removes, and may drop the rows of ephemeral
skills at its end. Between the two it makes a sequence of changes to the row of an entity, or to a
new one. Each change is one function of the source.
-/

namespace ClearYourTools.Tiers

open Misc Relation Option

theorem decay_epochUsed {ops : FloatOps} {halfLife : ℚ} {stats stats' : EffectiveStats}
    (h : stats.decay ops halfLife = some stats') : stats'.epochUsed = stats.epochUsed := by
  simp only [EffectiveStats.decay] at h
  split at h
  · cases h
    rfl
  · split at h
    · cases h
    · obtain ⟨factor, -, rfl⟩ := map_eq_some_iff.mp h
      rfl

/-- What `_run_epoch` makes of a state. -/
def epochState (env : Env) (call : Call) (state : EntityTierState) : EntityTierState :=
  Manager.resetEpochCounters (evaluateSlowClockState env.ops call.config.tool
    (expireState call.clock.epoch (crystallizeState state).1).1).1

/-- What an operation may do: the configuration that it wakes with, the kind of row that it enters,
and whether it records a use of the entity and may evaluate an epoch. -/
structure Powers where
  wakeConfig : Option TierSectionConfig
  newTier : Tier
  uses : Prop
  epochs : Prop

/-- One change to the row of an entity. -/
inductive RowChange (env : Env) (call : Call) (cycle : Int) (powers : Powers) :
    EntityTierState → EntityTierState → Prop where
  | stats {state : EntityTierState} {stats : EffectiveStats}
      (h : stats.epochUsed = state.stats.epochUsed) :
      RowChange env call cycle powers state { state with stats := stats }
  | wake {state : EntityTierState} {cfg : TierSectionConfig} {relevance sibling : ℚ}
      (h : powers.wakeConfig = some cfg) :
      RowChange env call cycle powers state
        (evaluateFastWake env.ops state cfg cycle relevance sibling).1
  | useTool {state : EntityTierState} {wasInjected optionalUsed : Bool} (h : powers.uses) :
      RowChange env call cycle powers state (Manager.useTool call wasInjected optionalUsed state)
  | useSkill {state : EntityTierState} {wasInjected : Bool} (h : powers.uses) :
      RowChange env call cycle powers state (Manager.useSkill call wasInjected state)
  | expire {state : EntityTierState} {nowMs : Int} :
      RowChange env call cycle powers state (expireState nowMs state).1
  | epoch {state : EntityTierState} (h : powers.epochs) :
      RowChange env call cycle powers state (epochState env call state)

/-- The row that an operation starts from: the row that is there, or a new one. -/
def Origin (newTier : Tier) (key : EntityKey) (row : Option EntityTierState)
    (state : EntityTierState) : Prop :=
  row = some state ∨ row = none ∧ state = .init key.1 key.2 newTier

section

variable {C : EntityTierState → EntityTierState → Prop} {newTier : Tier} {key : EntityKey}
  {d d' d'' : States}

/-- The row of an entity comes from the row before, or is new, and is not lost. -/
structure Rows (C : EntityTierState → EntityTierState → Prop) (newTier : Tier) (key : EntityKey)
    (d d' : States) : Prop where
  row : ∀ state', d'.get? key = some state' →
    ∃ state, Origin newTier key (d.get? key) state ∧ ReflTransGen C state state'
  present : (d.get? key).isSome = true → (d'.get? key).isSome = true

theorem Rows.refl (d : States) : Rows C newTier key d d :=
  ⟨fun state h => ⟨state, .inl h, .refl⟩, id⟩

theorem Rows.origin (h : Rows C newTier key d d') {state' : EntityTierState}
    (horigin : Origin newTier key (d'.get? key) state') :
    ∃ state, Origin newTier key (d.get? key) state ∧ ReflTransGen C state state' := by
  rcases horigin with hsome | ⟨hnone, hnew⟩
  · exact h.row state' hsome
  refine ⟨state', .inr ⟨?_, hnew⟩, .refl⟩
  cases hget : d.get? key with
  | none => rfl
  | some state =>
    have hpresent := h.present (by rw [hget]; rfl)
    rw [hnone] at hpresent
    cases hpresent

theorem Rows.trans (h : Rows C newTier key d d') (h' : Rows C newTier key d' d'') :
    Rows C newTier key d d'' := by
  refine ⟨fun state'' hget => ?_, fun hsome => h'.present (h.present hsome)⟩
  obtain ⟨state', horigin', hchain'⟩ := h'.row state'' hget
  obtain ⟨state, horigin, hchain⟩ := h.origin horigin'
  exact ⟨state, horigin, hchain.trans hchain'⟩

theorem Rows.set (d : States) {k : EntityKey} {state' : EntityTierState}
    (h : k = key → ∃ state, Origin newTier key (d.get? key) state ∧ ReflTransGen C state state') :
    Rows C newTier key d (d.set k state') := by
  by_cases hk : key = k
  · subst hk
    refine ⟨fun state hget => ?_, fun _ => by rw [Dict.get?_set_self]; rfl⟩
    rw [Dict.get?_set_self, some.injEq] at hget
    rw [← hget]
    exact h rfl
  · have hsame := Dict.get?_set_of_ne d state' hk
    exact ⟨fun state hget => ⟨state, .inl (hsame ▸ hget), .refl⟩, fun hsome => hsame ▸ hsome⟩

theorem Rows.update (d : States) {k : EntityKey} {f : EntityTierState → EntityTierState}
    (h : k = key → ∀ state, ReflTransGen C state (f state)) :
    Rows C newTier key d (d.update k f) := by
  by_cases hk : key = k
  · subst hk
    have hget : (d.update key f).get? key = (d.get? key).map f := by
      rw [Dict.get?_update, if_pos rfl]
    refine ⟨fun state' hsome => ?_, fun hsome => by rw [hget, isSome_map]; exact hsome⟩
    rw [hget] at hsome
    obtain ⟨state, hstate, rfl⟩ := map_eq_some_iff.mp hsome
    exact ⟨state, .inl hstate, h rfl state⟩
  · have hsame : (d.update k f).get? key = d.get? key := by
      rw [Dict.get?_update, if_neg hk]
    exact ⟨fun state hget => ⟨state, .inl (hsame ▸ hget), .refl⟩, fun hsome => hsame ▸ hsome⟩

theorem Rows.mapVals (d : States) {f : EntityKey → EntityTierState → EntityTierState}
    (h : ∀ state, ReflTransGen C state (f key state)) : Rows C newTier key d (d.mapVals f) := by
  refine ⟨fun state' hget => ?_, fun hsome => ?_⟩
  · rw [Dict.get?_mapVals] at hget
    obtain ⟨state, hstate, rfl⟩ := map_eq_some_iff.mp hget
    exact ⟨state, .inl hstate, h state⟩
  · rw [Dict.get?_mapVals, isSome_map]
    exact hsome

theorem get?_mapUntil (d : States) (f : EntityTierState → Option EntityTierState) (k : EntityKey) :
    (d.mapUntil f).1.get? k = d.get? k ∨ (d.mapUntil f).1.get? k = (d.get? k).bind f := by
  simp only [Dict.get?, Dict.mapUntil]
  induction d.entries with
  | nil => exact .inl rfl
  | cons e es ih =>
    obtain ⟨a, b⟩ := e
    cases hf : f b with
    | none =>
      simp only [Dict.mapUntilEntries, hf, true_or]
    | some v =>
      simp only [Dict.mapUntilEntries, hf]
      by_cases hk : k = a
      · subst hk
        right
        simp [hf]
      · rw [Dict.lookup_cons_of_ne hk, Dict.lookup_cons_of_ne hk]
        exact ih

theorem isSome_get?_mapUntil (d : States) (f : EntityTierState → Option EntityTierState)
    (k : EntityKey) : ((d.mapUntil f).1.get? k).isSome = (d.get? k).isSome := by
  simp only [Dict.get?, Dict.mapUntil]
  induction d.entries with
  | nil => rfl
  | cons e es ih =>
    obtain ⟨a, b⟩ := e
    cases hf : f b with
    | none => simp only [Dict.mapUntilEntries, hf]
    | some v =>
      simp only [Dict.mapUntilEntries, hf]
      by_cases hk : k = a
      · subst hk
        simp
      · rw [Dict.lookup_cons_of_ne hk, Dict.lookup_cons_of_ne hk]
        exact ih

theorem Rows.mapUntil (d : States) {f : EntityTierState → Option EntityTierState}
    (h : ∀ state state', f state = some state' → ReflTransGen C state state') :
    Rows C newTier key d (d.mapUntil f).1 := by
  refine ⟨fun state' hget => ?_, fun hsome => by rw [isSome_get?_mapUntil]; exact hsome⟩
  rcases get?_mapUntil d f key with hsame | hmapped
  · exact ⟨state', .inl (hsame ▸ hget), .refl⟩
  · rw [hmapped] at hget
    obtain ⟨state, hstate, hf⟩ := bind_eq_some_iff.mp hget
    exact ⟨state, .inl hstate, h state state' hf⟩

end

section

variable {C : EntityTierState → EntityTierState → Prop} {newTier : Tier} {key : EntityKey}
  {m m' m'' : Manager}

/-- The row of an entity comes from the row before, or is new; the cycle is the same, and no shadow
hit of it is forgotten. -/
structure Outcome (C : EntityTierState → EntityTierState → Prop) (newTier : Tier) (key : EntityKey)
    (m m' : Manager) : Prop where
  row : ∀ state', m'.states.get? key = some state' →
    ∃ state, Origin newTier key (m.states.get? key) state ∧ ReflTransGen C state state'
  cycle : m'.epoch.wakeCycleId = m.epoch.wakeCycleId
  shadow : ∀ k ∈ m.cycleShadow, k ∈ m'.cycleShadow

/-- An outcome that does not lose the row. -/
structure Evolves (C : EntityTierState → EntityTierState → Prop) (newTier : Tier) (key : EntityKey)
    (m m' : Manager) : Prop where
  rows : Rows C newTier key m.states m'.states
  cycle : m'.epoch.wakeCycleId = m.epoch.wakeCycleId
  shadow : ∀ k ∈ m.cycleShadow, k ∈ m'.cycleShadow

theorem Evolves.refl (m : Manager) : Evolves C newTier key m m :=
  ⟨.refl m.states, rfl, fun _ h => h⟩

section

variable (h : Evolves C newTier key m m')
include h

theorem Evolves.outcome : Outcome C newTier key m m' := ⟨h.rows.row, h.cycle, h.shadow⟩

theorem Evolves.trans (h' : Evolves C newTier key m' m'') : Evolves C newTier key m m'' :=
  ⟨h.rows.trans h'.rows, h'.cycle.trans h.cycle, fun k hk => h'.shadow k (h.shadow k hk)⟩

theorem Evolves.trans_outcome
    (h' : Outcome C newTier key m' m'') : Outcome C newTier key m m'' := by
  refine ⟨fun state'' hget => ?_, h'.cycle.trans h.cycle, fun k hk => h'.shadow k (h.shadow k hk)⟩
  obtain ⟨state', horigin', hchain'⟩ := h'.row state'' hget
  obtain ⟨state, horigin, hchain⟩ := h.rows.origin horigin'
  exact ⟨state, horigin, hchain.trans hchain'⟩

end

theorem Evolves.foldl {α : Type} {f : Manager → α → Manager}
    (hf : ∀ m a, Evolves C newTier key m (f m a)) (as : List α) (m : Manager) :
    Evolves C newTier key m (as.foldl f m) := by
  induction as generalizing m with
  | nil => exact .refl m
  | cons a as ih => exact (hf m a).trans (ih (f m a))

theorem Evolves.states {d : States} (h : Rows C newTier key m.states d) :
    Evolves C newTier key m { m with states := d } :=
  ⟨h, rfl, fun _ hk => hk⟩

end

namespace Manager

/-- Changes of one row, which are all that `powers` allow. -/
abbrev Changes (env : Env) (call : Call) (cycle : Int) (powers : Powers) :=
  Evolves (RowChange env call cycle powers) powers.newTier

section

variable {env : Env} {call : Call} {cycle : Int} {powers : Powers} {key : EntityKey} {m : Manager}

def CountsOnly (f : EntityTierState → EntityTierState) : Prop :=
  ∀ state, f state = { state with stats := (f state).stats } ∧
    (f state).stats.epochUsed = state.stats.epochUsed

theorem CountsOnly.chain {f : EntityTierState → EntityTierState} (h : CountsOnly f)
    (state : EntityTierState) : ReflTransGen (RowChange env call cycle powers) state (f state) := by
  rw [(h state).1]
  exact .single (.stats (h state).2)

variable (seenMs : Int)

theorem countsOnly_bumpCandidates : CountsOnly (bumpCandidates seenMs) :=
  fun _ => ⟨rfl, rfl⟩

theorem countsOnly_bumpInjected : CountsOnly (bumpInjected seenMs) :=
  fun _ => ⟨rfl, rfl⟩

theorem countsOnly_bumpAttempts : CountsOnly bumpAttempts := fun _ => ⟨rfl, rfl⟩

theorem countsOnly_touchSeen : CountsOnly (touchSeen seenMs) := fun _ => ⟨rfl, rfl⟩

theorem countsOnly_touchStatsRequest : CountsOnly touchStatsRequest := fun _ => ⟨rfl, rfl⟩

theorem updateState_evolves (k : EntityKey) {f : EntityTierState → EntityTierState}
    (hf : k = key → ∀ state, ReflTransGen (RowChange env call cycle powers) state (f state)) :
    Changes env call cycle powers key m (m.updateState k f) :=
  .states (.update m.states hf)

theorem ensureState_evolves (hnew : powers.newTier = .active) (k : EntityKey) :
    Changes env call cycle powers key m (m.ensureState k) := by
  unfold ensureState
  cases hget : m.states.get? k with
  | some state => exact .refl m
  | none =>
    refine .states (.set m.states ?_)
    rintro rfl
    exact ⟨_, .inr ⟨hget, by rw [hnew]⟩, .refl⟩

theorem countSelected_evolves (hnew : powers.newTier = .active) (kind : EntityKind)
    {bump : EntityTierState → EntityTierState} (hbump : CountsOnly bump) (entityId : Text)
    (docId : Option Text) :
    Changes env call cycle powers key m (m.countSelected env kind bump entityId docId) := by
  unfold countSelected
  cases ensureKey env kind entityId docId with
  | none => exact .refl m
  | some k =>
    have hcounted : Changes env call cycle powers key m ((m.ensureState k).updateState k bump) :=
      (ensureState_evolves hnew k).trans (updateState_evolves k fun _ => hbump.chain)
    exact ⟨hcounted.rows, hcounted.cycle, hcounted.shadow⟩

theorem touchToolStats_evolves (ids : List Text) :
    Changes env call cycle powers key m (m.touchToolStats ids) :=
  .foldl (fun _ _ => updateState_evolves _ fun _ => countsOnly_touchStatsRequest.chain) ids m

theorem decayAll_evolves (cfg : TierSectionConfig) :
    Changes env call cycle powers key m (m.decayAll env cfg).1 := by
  refine .states (.mapUntil m.states fun state state' hdecay => ?_)
  obtain ⟨stats, hstats, rfl⟩ := map_eq_some_iff.mp hdecay
  exact .single (.stats (decay_epochUsed hstats))

theorem beginTouch_evolves : Changes env call cycle powers key m (m.beginTouch env call).1 := by
  have hdecay : Changes env call cycle powers key m
      (m.decayAll env call.config.tool).1 := decayAll_evolves call.config.tool
  unfold beginTouch
  dsimp only
  split
  · exact ⟨hdecay.rows, hdecay.cycle, hdecay.shadow⟩
  · exact hdecay

theorem runEpoch_evolves (hepochs : powers.epochs) :
    Changes env call cycle powers key m (m.runEpoch env call) := by
  have hget : ∀ k, (m.runEpoch env call).states.get? k =
      (m.states.get? k).map (epochState env call) := by
    intro k
    unfold runEpoch slowClockInput evaluateSlowClock expireTemporaryPromotions
      crystallizeSuccessfulToolPromotionsAtEpoch
    dsimp only
    rw [Dict.get?_mapVals, get?_passOver, get?_passOver, get?_passOver, Option.map_map,
      Option.map_map, Option.map_map]
    rfl
  refine ⟨⟨fun state' hsome => ?_, fun hsome => ?_⟩, rfl, fun _ hk => hk⟩
  · rw [hget] at hsome
    obtain ⟨state, hstate, rfl⟩ := map_eq_some_iff.mp hsome
    exact ⟨state, .inl hstate, .single (.epoch hepochs)⟩
  · rw [hget, isSome_map]
    exact hsome

theorem expireTemporaryPromotions_evolves (nowMs : Int) :
    Changes env call cycle powers key m
      { m with states := (expireTemporaryPromotions nowMs m.states).1 } :=
  .states (Rows.mapVals (f := fun _ state => (expireState nowMs state).1) m.states fun _ =>
    .single RowChange.expire)

theorem touchRequest_evolves (hepochs : powers.epochs) :
    Changes env call cycle powers key m (m.touchRequest env call).1 := by
  have hbegin : Changes env call cycle powers key m (m.beginTouch env call).1 := beginTouch_evolves
  unfold touchRequest
  dsimp only
  split
  · exact hbegin
  · split
    · exact hbegin.trans (runEpoch_evolves hepochs)
    · exact hbegin.trans (expireTemporaryPromotions_evolves _)

theorem flushPending_outcome (force : Bool) :
    Outcome (RowChange env call cycle powers) powers.newTier key m (m.flushPending env force) := by
  have hstates : (m.flushPending env force).states = (m.reconcileEphemeralStates env).states := by
    unfold flushPending
    dsimp only
    split <;> rfl
  have hepoch : (m.flushPending env force).epoch = m.epoch := by
    unfold flushPending
    dsimp only
    split <;> rfl
  have hshadow : (m.flushPending env force).cycleShadow = m.cycleShadow := by
    unfold flushPending
    dsimp only
    split <;> rfl
  refine ⟨fun state' hget => ⟨state', .inl ?_, .refl⟩, by rw [hepoch], fun k hk => by rwa [hshadow]⟩
  rw [hstates, reconcileEphemeralStates, Dict.get?_filter] at hget
  exact (filter_eq_some_iff.mp hget).1

theorem finishRecord_outcome (syncFlush : Bool) :
    Outcome (RowChange env call cycle powers) powers.newTier key m
      (m.finishRecord env call syncFlush) := by
  unfold finishRecord
  dsimp only
  split
  · have hflush : Outcome (RowChange env call cycle powers) powers.newTier key
        { m with pendingFlush := true }
        (flushPending env true { m with pendingFlush := true }) := flushPending_outcome true
    exact ⟨hflush.row, hflush.cycle, hflush.shadow⟩
  · exact ⟨(Rows.refl m.states).row, rfl, fun _ hk => hk⟩

theorem finishUnlessEpoch_outcome (epochRan syncFlush : Bool) :
    Outcome (RowChange env call cycle powers) powers.newTier key m
      (if epochRan then m else m.finishRecord env call syncFlush) := by
  split
  · exact (Evolves.refl m).outcome
  · exact finishRecord_outcome syncFlush

theorem record_outcome (hepochs : powers.epochs) {finish : Bool → Manager → Manager} {m₀ : Manager}
    (hmark : Changes env call cycle powers key m₀ m)
    (hfinish : ∀ epochRan m', Outcome (RowChange env call cycle powers) powers.newTier key m'
      (finish epochRan m')) :
    Outcome (RowChange env call cycle powers) powers.newTier key m₀ (m.record env call finish) := by
  have htouch : Changes env call cycle powers key m₀
      (m.touchRequest env call).1 := hmark.trans (touchRequest_evolves hepochs)
  unfold record
  dsimp only
  split
  · exact htouch.outcome
  · exact htouch.trans_outcome (hfinish _ _)

variable (hnew : powers.newTier = .active)

include hnew

theorem markToolCandidates_evolves (tools : List Tool) :
    Changes env call cycle powers key (m.purgeInactiveToolSources call)
      (m.markToolCandidates env call tools) :=
  .foldl (fun _ _ => countSelected_evolves hnew _ (countsOnly_bumpCandidates _) _ _) _ _

theorem markToolsInjected_evolves (tools : List Tool) :
    Changes env call cycle powers key (m.purgeInactiveToolSources call)
      (m.markToolsInjected env call tools) := by
  have hcounted : Changes env call cycle powers key
      (m.purgeInactiveToolSources call)
      ((trackedToolIds call tools).zipIdx.foldl (fun m e => m.countSelected env .tool
        (bumpInjected (call.clock.seen e.2)) e.1 none) (m.purgeInactiveToolSources call)) :=
    .foldl (fun _ _ => countSelected_evolves hnew _ (countsOnly_bumpInjected _) _ _) _ _
  exact ⟨hcounted.rows, hcounted.cycle, hcounted.shadow⟩

theorem markSkillCandidates_evolves (entries : List SkillEntryRef) :
    Changes env call cycle powers key m (m.markSkillCandidates env call entries) :=
  .foldl (fun _ _ => countSelected_evolves hnew _ (countsOnly_bumpCandidates _) _ _) _ _

theorem markSkillsInjected_evolves (refs : List SkillMatchRef) :
    Changes env call cycle powers key m (m.markSkillsInjected env call refs) := by
  have hcounted : Changes env call cycle powers key m
      ((injectedSkillIds env refs).zipIdx.foldl (fun m e => m.countSelected env .skill
        (bumpInjected (call.clock.seen e.2)) e.1.1 e.1.2) m) :=
    .foldl (fun _ _ => countSelected_evolves hnew _ (countsOnly_bumpInjected _) _ _) _ _
  exact ⟨hcounted.rows, hcounted.cycle, hcounted.shadow⟩

theorem markToolAttempt_evolves (entityId : Text) (success optionalUsed : Bool)
    (huses : success = true → (.tool, canonicalToolEntityId entityId) = key → powers.uses) :
    Changes env call cycle powers key m (m.markToolAttempt call entityId success optionalUsed) := by
  have hensured : Changes env call cycle powers key m
      ((m.ensureState (.tool, canonicalToolEntityId entityId)).updateState
        (.tool, canonicalToolEntityId entityId) bumpAttempts) :=
    (ensureState_evolves hnew _).trans
      (updateState_evolves _ fun _ => countsOnly_bumpAttempts.chain)
  unfold markToolAttempt
  dsimp only
  cases hsuccess : success with
  | false =>
    exact hensured.trans (updateState_evolves _ fun _ => (countsOnly_touchSeen _).chain)
  | true =>
    rw [if_pos rfl]
    generalize (m.ensureState (.tool, canonicalToolEntityId entityId)).updateState
      (.tool, canonicalToolEntityId entityId) bumpAttempts = before at hensured ⊢
    generalize before.lastInjectedTools.contains entityId = wasInjected
    have hused : Changes env call cycle powers key before
        (before.updateState (.tool, canonicalToolEntityId entityId)
          (useTool call wasInjected optionalUsed)) :=
      updateState_evolves _ fun hkey _ => .single (.useTool (huses hsuccess hkey))
    have hafter : Changes env call cycle powers key before
        { before.updateState (.tool, canonicalToolEntityId entityId)
            (useTool call wasInjected optionalUsed) with
          cycleUsed := (.tool, entityId) :: before.cycleUsed } :=
      ⟨hused.rows, hused.cycle, hused.shadow⟩
    exact hensured.trans (hafter.trans
      (updateState_evolves _ fun _ => (countsOnly_touchSeen _).chain))

theorem markSkillUsed_evolves (canonicalId : Text) (k : EntityKey) (huses : k = key → powers.uses) :
    Changes env call cycle powers key m (m.markSkillUsed call canonicalId k) := by
  have hensured : Changes env call cycle powers key m
      (m.ensureState k) := ensureState_evolves hnew _
  unfold markSkillUsed
  dsimp only
  generalize m.ensureState k = before at hensured ⊢
  generalize before.lastInjectedSkills.contains canonicalId = wasInjected
  have hused : Changes env call cycle powers key before
      (before.updateState k (useSkill call wasInjected)) :=
    updateState_evolves _ fun hkey _ => .single (.useSkill (huses hkey))
  have hafter : Changes env call cycle powers key before
      { before.updateState k (useSkill call wasInjected) with
        cycleUsed := (.skill, canonicalId) :: before.cycleUsed } :=
    ⟨hused.rows, hused.cycle, hused.shadow⟩
  exact hensured.trans (hafter.trans
    (updateState_evolves _ fun _ => (countsOnly_touchSeen _).chain))

end

end Manager

section

variable {env : Env} {call : Call} {cycle : Int} {powers : Powers} {key : EntityKey}

theorem dormantState_rows {C : EntityTierState → EntityTierState → Prop} (states : States)
    (kind : EntityKind) (entityId : Text) {f : EntityTierState → EntityTierState}
    (hf : ∀ state, ReflTransGen C state (f state)) :
    Rows C .dormant key states ((dormantState states kind entityId).1.set (kind, entityId)
      (f (dormantState states kind entityId).2)) := by
  unfold dormantState
  cases hget : states.get? (kind, entityId) with
  | some state =>
    refine .set states ?_
    rintro rfl
    exact ⟨state, .inl hget, hf state⟩
  | none =>
    have hnew : Rows C .dormant key states
        (states.set (kind, entityId) (.init kind entityId .dormant)) := by
      refine .set states ?_
      rintro rfl
      exact ⟨_, .inr ⟨hget, rfl⟩, .refl⟩
    refine hnew.trans (.set _ ?_)
    rintro rfl
    exact ⟨_, .inl (Dict.get?_set_self _ _ _), hf _⟩

variable (state : EntityTierState)

theorem bumpShadowHits_chain :
    ReflTransGen (RowChange env call cycle powers) state (bumpShadowHits state) :=
  .single (.stats rfl)

theorem bumpShadowEvaluations_chain :
    ReflTransGen (RowChange env call cycle powers) state (bumpShadowEvaluations state) :=
  .single (.stats rfl)

variable {cfg : TierSectionConfig}

theorem wakeEntityFromShadow_rows (hcfg : powers.wakeConfig = some cfg) (wakeKind : EntityKind)
    (entityId : Text) (relevance sibling : ℚ) (count : Bool) (r : ShadowRun) :
    Rows (RowChange env call cycle powers) .dormant key r.states
      (wakeEntityFromShadow env.ops cfg cycle wakeKind entityId relevance sibling count r).states := by
  have hchain : ∀ state, ReflTransGen (RowChange env call cycle powers) state
      (evaluateFastWake env.ops (if count then bumpShadowHits state else state) cfg cycle relevance
        sibling).1 := by
    intro state
    have hcounted : ReflTransGen (RowChange env call cycle powers) state
        (if count then bumpShadowHits state else state) := by
      split
      · exact bumpShadowHits_chain state
      · exact .refl
    exact hcounted.tail (.wake hcfg)
  have hrows : Rows (RowChange env call cycle powers) .dormant key r.states
      ((dormantState r.states wakeKind entityId).1.set (wakeKind, entityId)
        (evaluateFastWake env.ops (if count then
          bumpShadowHits (dormantState r.states wakeKind entityId).2
          else (dormantState r.states wakeKind entityId).2) cfg cycle relevance sibling).1) :=
    dormantState_rows r.states wakeKind entityId hchain
  unfold wakeEntityFromShadow
  split
  · exact .refl r.states
  · dsimp only
    split
    · exact hrows
    · exact hrows

theorem recordToolServerShadowScores_rows (kind : EntityKind) (entityId : Text) (score : ℚ)
    (toolsById : ToolsById) (r : ShadowRun) :
    Rows (RowChange env call cycle powers) .dormant key r.states
      (recordToolServerShadowScores kind entityId score toolsById r).1.states := by
  unfold recordToolServerShadowScores
  split
  · exact .refl r.states
  · split
    · exact .refl r.states
    · split
      · exact .refl r.states
      · exact dormantState_rows r.states kind entityId bumpShadowHits_chain

theorem shadowHitStep_rows (hcfg : powers.wakeConfig = some cfg) (kind : EntityKind)
    (hits : List (Text × ℚ)) (toolsById : Option ToolsById) (r : ShadowRun) (entityId : Text) :
    Rows (RowChange env call cycle powers) .dormant key r.states
      (shadowHitStep env.ops cfg cycle kind hits toolsById r entityId).states := by
  have hseen : Rows (RowChange env call cycle powers) .dormant key r.states
      ((dormantState r.states kind entityId).1.set (kind, entityId)
        (bumpShadowEvaluations (dormantState r.states kind entityId).2)) :=
    dormantState_rows r.states kind entityId bumpShadowEvaluations_chain
  cases toolsById with
  | none =>
    exact hseen.trans (wakeEntityFromShadow_rows hcfg kind entityId (topScore hits entityId) 0 true
      { r with
        states := (dormantState r.states kind entityId).1.set (kind, entityId)
          (bumpShadowEvaluations (dormantState r.states kind entityId).2) })
  | some toolsById =>
    have hscored := hseen.trans (recordToolServerShadowScores_rows kind entityId
      (topScore hits entityId) toolsById { r with
        states := (dormantState r.states kind entityId).1.set (kind, entityId)
          (bumpShadowEvaluations (dormantState r.states kind entityId).2) })
    unfold shadowHitStep
    dsimp only
    split
    · exact hscored
    · exact hscored.trans (wakeEntityFromShadow_rows hcfg _ _ _ _ _ _)

theorem shadowServerStep_rows (hcfg : powers.wakeConfig = some cfg) (r : ShadowRun)
    (entry : Text × ℚ) :
    Rows (RowChange env call cycle powers) .dormant key r.states
      (shadowServerStep env.ops cfg cycle r entry).states := by
  unfold shadowServerStep
  split
  · exact .refl r.states
  · exact wakeEntityFromShadow_rows hcfg _ _ _ _ _ _

theorem foldl_rows {α : Type} {f : ShadowRun → α → ShadowRun}
    {C : EntityTierState → EntityTierState → Prop} {newTier : Tier}
    (hf : ∀ r a, Rows C newTier key r.states (f r a).states) (as : List α) (r : ShadowRun) :
    Rows C newTier key r.states (as.foldl f r).states := by
  induction as generalizing r with
  | nil => exact .refl r.states
  | cons a as ih => exact (hf r a).trans (ih (f r a))

theorem recordShadowHits_rows (hcfg : powers.wakeConfig = some cfg)
    (setOrder : List Text → List Text) (kind : EntityKind) (hits : List (Text × ℚ))
    (toolsById : Option ToolsById) (states : States) :
    Rows (RowChange env call cycle powers) .dormant key states
      (recordShadowHits env.ops cfg cycle setOrder kind hits toolsById states).1 := by
  have hhits : ∀ ids : List Text, Rows (RowChange env call cycle powers) .dormant key states
      (ids.foldl (shadowHitStep env.ops cfg cycle kind hits toolsById)
        ⟨states, [], [], Dict.empty⟩).states :=
    fun ids => foldl_rows (f := shadowHitStep env.ops cfg cycle kind hits toolsById)
      (fun r a => shadowHitStep_rows hcfg kind hits toolsById r a) ids
      ⟨states, [], [], Dict.empty⟩
  unfold recordShadowHits
  dsimp only
  refine ((hhits _).trans (foldl_rows (f := shadowServerStep env.ops cfg cycle)
    (fun r a => shadowServerStep_rows hcfg r a) _ _)).trans (.mapVals _ fun state => ?_)
  split
  · exact bumpShadowEvaluations_chain state
  · exact .refl

theorem applyShadowHits_outcome (hnew : powers.newTier = .dormant)
    (hcfg : powers.wakeConfig = some cfg) (kind : EntityKind) (hits : List (Text × ℚ))
    (toolsById : Option ToolsById) (m : Manager) (hcycle : m.epoch.wakeCycleId = cycle) :
    Outcome (RowChange env call cycle powers) powers.newTier key m
      (m.applyShadowHits env call cfg kind hits toolsById) := by
  have hrows : Rows (RowChange env call cycle powers) .dormant key m.states
      (recordShadowHits env.ops cfg cycle call.setOrder kind hits toolsById m.states).1 :=
    recordShadowHits_rows hcfg call.setOrder kind hits toolsById m.states
  rw [← hnew] at hrows
  unfold Manager.applyShadowHits
  rw [hcycle]
  dsimp only
  generalize recordShadowHits env.ops cfg cycle call.setOrder kind hits toolsById m.states = r
    at hrows ⊢
  have hmid : Manager.Changes env call cycle powers key m
      { m with
        states := r.1
        cycleShadow := r.2.map (fun (t : TierTransition) => (t.kind, t.entityId)) ++ m.cycleShadow } :=
    ⟨hrows, rfl, fun _ hk => List.mem_append_right _ hk⟩
  exact hmid.trans_outcome (Manager.finishRecord_outcome false)

end

namespace Op

/-- The manager behind the tool purge of an operation. -/
def purged (call : Call) (op : Op) (m : Manager) : Manager :=
  match op with
  | recordToolCandidates _ | recordToolsInjected _ | recordToolAttempt _ _ _ =>
    if call.config.toolsActive then m.purgeInactiveToolSources call else m
  | applyShadowToolHits _ _ | purgeInactiveToolSources => m.purgeInactiveToolSources call
  | _ => m

/-- The operation records a use of the entity. -/
def RecordsUse (env : Env) (call : Call) (key : EntityKey) : Op → Prop
  | recordToolAttempt tool success _ =>
    call.config.toolsActive = true ∧ toolTrackedForConfig call.allowedSources tool = true ∧
      success = true ∧ key = (.tool, canonicalToolEntityId (toolEntityId tool))
  | recordSkillUsed entityId =>
    call.config.skillsActive = true ∧
      ∃ canonicalId, Manager.usedSkillKey env entityId = some (canonicalId, key)
  | _ => False

/-- What an operation may do to the entity. -/
def powers (env : Env) (call : Call) (key : EntityKey) (op : Op) : Powers :=
  match op with
  | applyShadowToolHits _ _ => ⟨some call.config.tool, .dormant, False, False⟩
  | applyShadowSkillHits _ => ⟨some call.config.skill, .dormant, False, False⟩
  | op => ⟨none, .active, op.RecordsUse env call key, True⟩

variable {env : Env} {call : Call} {key : EntityKey} {m : Manager}

theorem purged_eq (call : Call) (m : Manager) (op : Op) :
    op.purged call m = m ∨ op.purged call m = m.purgeInactiveToolSources call := by
  cases hactive : call.config.toolsActive <;> cases op <;> simp [purged, hactive]

theorem purged_epoch (call : Call) (m : Manager) (op : Op) : (op.purged call m).epoch = m.epoch := by
  rcases purged_eq call m op with heq | heq <;> rw [heq]
  unfold Manager.purgeInactiveToolSources
  dsimp only
  split <;> rfl

theorem purged_cycleShadow (call : Call) (m : Manager) (op : Op) : (op.purged call m).cycleShadow = m.cycleShadow := by
  rcases purged_eq call m op with heq | heq <;> rw [heq]
  unfold Manager.purgeInactiveToolSources
  dsimp only
  split <;> rfl

theorem get?_purged {op : Op} {state : EntityTierState}
    (h : (op.purged call m).states.get? key = some state) : m.states.get? key = some state := by
  rcases purged_eq call m op with heq | heq <;> rw [heq] at h
  · exact h
  unfold Manager.purgeInactiveToolSources at h
  dsimp only at h
  split at h
  · exact h
  · rw [Dict.get?_filter] at h
    exact (filter_eq_some_iff.mp h).1

theorem apply_outcome (op : Op) (hop : op ≠ .beginRequestCycle) :
    Outcome (RowChange env call m.epoch.wakeCycleId (op.powers env call key))
      (op.powers env call key).newTier key (op.purged call m) (op.apply env call m) := by
  cases op with
  | recordToolCandidates tools =>
    cases hactive : call.config.toolsActive with
    | true =>
      simp only [apply, Manager.recordToolCandidates, purged, hactive, not_true_eq_false, if_false,
        if_true]
      exact Manager.record_outcome trivial (Manager.markToolCandidates_evolves rfl tools)
        fun epochRan _ => (Manager.touchToolStats_evolves _).trans_outcome
          (Manager.finishUnlessEpoch_outcome epochRan false)
    | false =>
      simp only [apply, Manager.recordToolCandidates, purged, hactive, Bool.false_eq_true,
        not_false_eq_true, if_false, if_true]
      exact (Evolves.refl m).outcome
  | recordToolsInjected tools =>
    cases hactive : call.config.toolsActive with
    | true =>
      simp only [apply, Manager.recordToolsInjected, purged, hactive, not_true_eq_false, if_false,
        if_true]
      exact Manager.record_outcome trivial (Manager.markToolsInjected_evolves rfl tools)
        fun epochRan _ => (Manager.touchToolStats_evolves _).trans_outcome
          (Manager.finishUnlessEpoch_outcome epochRan false)
    | false =>
      simp only [apply, Manager.recordToolsInjected, purged, hactive, Bool.false_eq_true,
        not_false_eq_true, if_false, if_true]
      exact (Evolves.refl m).outcome
  | recordToolAttempt tool success optionalUsed =>
    cases hactive : call.config.toolsActive with
    | true =>
      simp only [apply, Manager.recordToolAttempt, purged, hactive, not_true_eq_false, if_false,
        if_true]
      split
      · exact (Evolves.refl _).outcome
      rename_i htracked
      have htrack := not_not.mp (not_or.mp htracked).1
      refine Manager.record_outcome trivial
        (Manager.markToolAttempt_evolves rfl _ _ _ fun hsuccess hkey =>
          ⟨hactive, htrack, hsuccess, hkey.symm⟩) fun epochRan _ => ?_
      exact (Manager.updateState_evolves _ fun _ =>
        Manager.countsOnly_touchStatsRequest.chain).trans_outcome
          (Manager.finishUnlessEpoch_outcome epochRan _)
    | false =>
      simp only [apply, Manager.recordToolAttempt, purged, hactive, Bool.false_eq_true,
        not_false_eq_true, if_false, if_true]
      exact (Evolves.refl m).outcome
  | recordSkillCandidates entries =>
    simp only [apply, Manager.recordSkillCandidates]
    split
    · exact (Evolves.refl m).outcome
    · exact Manager.record_outcome trivial (Manager.markSkillCandidates_evolves rfl entries)
        fun epochRan _ => Manager.finishUnlessEpoch_outcome epochRan false
  | recordSkillsInjected refs =>
    simp only [apply, Manager.recordSkillsInjected]
    split
    · exact (Evolves.refl m).outcome
    · exact Manager.record_outcome trivial (Manager.markSkillsInjected_evolves rfl refs)
        fun epochRan _ => Manager.finishUnlessEpoch_outcome epochRan false
  | recordSkillUsed entityId =>
    simp only [apply, Manager.recordSkillUsed]
    split
    · exact (Evolves.refl m).outcome
    rename_i hactive
    split
    · exact (Evolves.refl m).outcome
    rename_i canonicalId used hused
    refine Manager.record_outcome trivial (Manager.markSkillUsed_evolves rfl _ _ fun hkey =>
      ⟨not_not.mp hactive, canonicalId, by rw [hused, hkey]⟩) fun epochRan _ => ?_
    exact (Manager.updateState_evolves _ fun _ =>
      Manager.countsOnly_touchStatsRequest.chain).trans_outcome
        (Manager.finishUnlessEpoch_outcome epochRan _)
  | applyShadowToolHits hits toolsById =>
    have hcycle := congrArg EpochState.wakeCycleId
      (purged_epoch call m (.applyShadowToolHits hits toolsById))
    simp only [apply, Manager.applyShadowToolHits]
    split
    · exact (Evolves.refl _).outcome
    · exact applyShadowHits_outcome rfl rfl _ _ _ _ hcycle
  | applyShadowSkillHits hits =>
    simp only [apply, Manager.applyShadowSkillHits]
    split
    · exact (Evolves.refl m).outcome
    · split
      · exact (Evolves.refl m).outcome
      · exact applyShadowHits_outcome rfl rfl _ _ _ _ rfl
  | beginRequestCycle => exact absurd rfl hop
  | endRequestCycle => exact ⟨(Rows.refl m.states).row, rfl, fun _ hk => hk⟩
  | purgeInactiveToolSources => exact (Evolves.refl _).outcome
  | advanceEpochIfAgeExpired =>
    simp only [apply, Manager.advanceEpochIfAgeExpired]
    split
    · exact (Manager.runEpoch_evolves trivial).outcome
    · exact (Evolves.refl m).outcome
  | expireTemporaryPromotions => exact (Manager.expireTemporaryPromotions_evolves _).outcome
  | runEpoch => exact (Manager.runEpoch_evolves trivial).outcome
  | flushPending force => exact Manager.flushPending_outcome force

end Op

end ClearYourTools.Tiers
