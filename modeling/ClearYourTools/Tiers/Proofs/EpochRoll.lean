import ClearYourTools.Tiers.Proofs.RunInvariant

/-!
# When a request rolls the epoch

`_touch_request` writes the time of the request before it asks `epoch_boundary`, so the idle
gap it measures is always zero: a request rolls the epoch when the age limit has passed, and
for an idle gap alone only under an idle limit that is not positive. The epoch id counts the
evaluations: `_run_epoch` is the only writer and adds one.
-/

namespace ClearYourTools.Tiers

open Misc Manager

variable (nowMs : Int)

/-- The idle limit has passed since the previous recorded request. -/
def IdleLimitPassed (epoch : EpochState) (cfg : TierSectionConfig) : Prop :=
  idleLimitMs cfg ≤ nowMs - epoch.lastRequestMs

/-- The age limit has passed since the epoch began. -/
def AgeLimitPassed (epoch : EpochState) (cfg : TierSectionConfig) : Prop :=
  epochTtlMs cfg ≤ nowMs - epoch.epochStartMs

/-- The decay of every state is defined: `_decay_all` does not raise. -/
def Manager.DecayDefined (env : Env) (cfg : TierSectionConfig) (m : Manager) : Prop :=
  ∀ e ∈ m.states.entries, (e.2.stats.decay env.ops cfg.requestHalfLife).isSome

theorem epochBoundary_touched (epoch : EpochState) (cfg : TierSectionConfig)
    (hidle : cfg.idleGapTriggersEpoch) :
    epochBoundary nowMs { epoch with lastRequestMs := nowMs } cfg = true ↔
      AgeLimitPassed nowMs epoch cfg ∨ idleLimitMs cfg ≤ 0 := by
  simp only [epochBoundary, epochRemainingMs, epochAgeRemainingMs, epochIdleRemainingMs, hidle,
    AgeLimitPassed, not_true_eq_false, if_false, decide_eq_true_eq]
  omega

namespace Manager

variable {m : Manager} (env : Env) (call : Call)

theorem decayAll_snd (cfg : TierSectionConfig) :
    (m.decayAll env cfg).2 = true ↔ m.DecayDefined env cfg := by
  simp only [decayAll, Dict.mapUntil_snd, DecayDefined, Option.isSome_map]

theorem touchRequest_epochId (hidle : call.config.tool.idleGapTriggersEpoch) :
    (m.DecayDefined env call.config.tool ∧
        (AgeLimitPassed call.clock.touch m.epoch call.config.tool ∨
          idleLimitMs call.config.tool ≤ 0) →
      (m.touchRequest env call).1.epoch.epochId = m.epoch.epochId + 1) ∧
    (¬ (m.DecayDefined env call.config.tool ∧
        (AgeLimitPassed call.clock.touch m.epoch call.config.tool ∨
          idleLimitMs call.config.tool ≤ 0)) →
      (m.touchRequest env call).1.epoch.epochId = m.epoch.epochId) := by
  have hdecayed : (m.decayAll env call.config.tool).1.epoch = m.epoch := rfl
  by_cases hd : m.DecayDefined env call.config.tool
  · have hflag := (decayAll_snd env call.config.tool).mpr hd
    have hboundary := epochBoundary_touched call.clock.touch m.epoch call.config.tool hidle
    simp only [touchRequest, beginTouch, hflag, if_true, not_true_eq_false, if_false, hdecayed]
    by_cases hb : epochBoundary call.clock.touch
        { m.epoch with lastRequestMs := call.clock.touch } call.config.tool = true
    · simp only [hb, if_true, hd, hboundary.mp hb, and_self, not_true_eq_false, false_imp_iff,
        and_true, true_imp_iff]
      rfl
    · have hnot := mt hboundary.mpr hb
      simp only [hb, hd, true_and, hnot, false_imp_iff, not_false_eq_true, true_imp_iff]
      rfl
  · have hflag : (m.decayAll env call.config.tool).2 = false := by
      simpa using mt (decayAll_snd env call.config.tool).mp hd
    simp only [touchRequest, beginTouch, hflag, hd, false_and, false_imp_iff, true_and,
      not_false_eq_true, true_imp_iff, Bool.false_eq_true, if_false, if_true]
    rfl

@[simp] theorem flushPending_epoch (force : Bool) : (m.flushPending env force).epoch = m.epoch := by
  simp only [flushPending]
  split <;> rfl

@[simp] theorem finishRecord_epoch (syncFlush : Bool) :
    (m.finishRecord env call syncFlush).epoch = m.epoch := by
  simp only [finishRecord]
  split
  · exact flushPending_epoch env true
  · rfl

@[simp] theorem purgeInactiveToolSources_epoch :
    (m.purgeInactiveToolSources call).epoch = m.epoch := by
  simp only [purgeInactiveToolSources]
  split <;> rfl

@[simp] theorem ensureState_epoch (key : EntityKey) : (m.ensureState key).epoch = m.epoch := by
  simp only [ensureState]
  split <;> rfl

@[simp] theorem updateState_epoch (key : EntityKey) (f : EntityTierState → EntityTierState) :
    (m.updateState key f).epoch = m.epoch := rfl

@[simp] theorem countSelected_epoch (kind : EntityKind)
    (bump : EntityTierState → EntityTierState) (entityId : Text) (docId : Option Text) :
    (m.countSelected env kind bump entityId docId).epoch = m.epoch := by
  simp only [countSelected]
  split
  · rfl
  · simp

theorem foldl_epoch {α : Type} {f : Manager → α → Manager} (hf : ∀ m' a, (f m' a).epoch = m'.epoch)
    (l : List α) (m : Manager) : (l.foldl f m).epoch = m.epoch := by
  induction l generalizing m with
  | nil => rfl
  | cons a l ih => rw [List.foldl_cons, ih, hf]

@[simp] theorem touchToolStats_epoch (ids : List Text) : (m.touchToolStats ids).epoch = m.epoch :=
  foldl_epoch (fun _ _ => updateState_epoch _ touchStatsRequest) ids m

theorem markToolCandidates_epoch (tools : List Tool) :
    (m.markToolCandidates env call tools).epoch = m.epoch :=
  (foldl_epoch (fun _ _ => countSelected_epoch env _ _ _ _) _ _).trans
    (purgeInactiveToolSources_epoch call)

theorem markToolsInjected_epoch (tools : List Tool) :
    (m.markToolsInjected env call tools).epoch = m.epoch :=
  (foldl_epoch (fun _ _ => countSelected_epoch env _ _ _ _) _ _).trans
    (purgeInactiveToolSources_epoch call)

theorem markToolAttempt_epoch (entityId : Text) (success optionalUsed : Bool) :
    (m.markToolAttempt call entityId success optionalUsed).epoch = m.epoch := by
  simp only [markToolAttempt, updateState_epoch]
  split <;> simp

theorem markSkillCandidates_epoch (entries : List SkillEntryRef) :
    (m.markSkillCandidates env call entries).epoch = m.epoch :=
  foldl_epoch (fun _ _ => countSelected_epoch env _ _ _ _) _ _

theorem markSkillsInjected_epoch (refs : List SkillMatchRef) :
    (m.markSkillsInjected env call refs).epoch = m.epoch :=
  foldl_epoch (fun _ _ => countSelected_epoch env _ _ _ _) _ _

theorem markSkillUsed_epoch (canonicalId : Text) (key : EntityKey) :
    (m.markSkillUsed call canonicalId key).epoch = m.epoch := by
  simp [markSkillUsed]

theorem record_epoch {finish : Bool → Manager → Manager}
    (hfinish : ∀ epochRan m', (finish epochRan m').epoch = m'.epoch) :
    (m.record env call finish).epoch = (m.touchRequest env call).1.epoch := by
  simp only [record]
  split
  · rfl
  · exact hfinish _ _

theorem finishUnlessEpoch_epoch (epochRan syncFlush : Bool) :
    (if epochRan then m else m.finishRecord env call syncFlush).epoch = m.epoch := by
  split
  · rfl
  · simp

end Manager

namespace Op

variable {env : Env} {call : Call} {m mid : Manager} {op : Op}
variable (hreq : op.requested env call m = some mid)
include hreq

theorem requested_epoch : mid.epoch = m.epoch := by
  cases op with
  | recordToolCandidates tools =>
    simp only [requested] at hreq
    split at hreq
    · cases hreq
      exact markToolCandidates_epoch env call tools
    · cases hreq
  | recordToolsInjected tools =>
    simp only [requested] at hreq
    split at hreq
    · cases hreq
      exact markToolsInjected_epoch env call tools
    · cases hreq
  | recordToolAttempt tool success optionalUsed =>
    simp only [requested] at hreq
    split at hreq
    · cases hreq
      exact (markToolAttempt_epoch call _ _ _).trans (purgeInactiveToolSources_epoch call)
    · cases hreq
  | recordSkillCandidates entries =>
    simp only [requested] at hreq
    split at hreq
    · cases hreq
      exact markSkillCandidates_epoch env call entries
    · cases hreq
  | recordSkillsInjected refs =>
    simp only [requested] at hreq
    split at hreq
    · cases hreq
      exact markSkillsInjected_epoch env call refs
    · cases hreq
  | recordSkillUsed entityId =>
    simp only [requested] at hreq
    split at hreq
    · obtain ⟨k, -, rfl⟩ := Option.map_eq_some_iff.mp hreq
      exact markSkillUsed_epoch call _ _
    · cases hreq
  | _ => cases hreq

theorem apply_epoch_of_requested :
    (op.apply env call m).epoch = (mid.touchRequest env call).1.epoch := by
  cases op with
  | recordToolCandidates tools =>
    simp only [requested] at hreq
    split at hreq
    · rename_i hactive
      cases hreq
      simp only [apply, Manager.recordToolCandidates, hactive, not_true_eq_false, if_false]
      exact record_epoch env call fun _ _ =>
        (finishUnlessEpoch_epoch env call _ _).trans (touchToolStats_epoch _)
    · cases hreq
  | recordToolsInjected tools =>
    simp only [requested] at hreq
    split at hreq
    · rename_i hactive
      cases hreq
      simp only [apply, Manager.recordToolsInjected, hactive, not_true_eq_false, if_false]
      exact record_epoch env call fun _ _ =>
        (finishUnlessEpoch_epoch env call _ _).trans (touchToolStats_epoch _)
    · cases hreq
  | recordToolAttempt tool success optionalUsed =>
    simp only [requested] at hreq
    split at hreq
    · rename_i hguard
      obtain ⟨hactive, htracked, hid⟩ := hguard
      cases hreq
      simp only [apply, Manager.recordToolAttempt, hactive, htracked, hid, not_true_eq_false,
        or_self, if_false]
      exact record_epoch env call fun _ _ => finishUnlessEpoch_epoch env call _ _
    · cases hreq
  | recordSkillCandidates refs | recordSkillsInjected refs =>
    simp only [requested] at hreq
    split at hreq
    · rename_i hactive
      cases hreq
      simp only [apply, Manager.recordSkillCandidates, Manager.recordSkillsInjected, hactive,
        not_true_eq_false, if_false]
      exact record_epoch env call fun _ _ => finishUnlessEpoch_epoch env call _ _
    · cases hreq
  | recordSkillUsed entityId =>
    simp only [requested] at hreq
    split at hreq
    · rename_i hactive
      obtain ⟨k, hkey, rfl⟩ := Option.map_eq_some_iff.mp hreq
      simp only [apply, Manager.recordSkillUsed, hactive, not_true_eq_false, if_false, hkey]
      exact record_epoch env call fun _ _ => finishUnlessEpoch_epoch env call _ _
    · cases hreq
  | _ => cases hreq

end Op

/-- The epoch evaluation of a request that meets the claim of its two limits: the epoch id
grows by one when a limit has passed and stays otherwise. -/
def RollsOnLimits (call : Call) (before after : EpochState) : Prop :=
  (IdleLimitPassed call.clock.touch before call.config.tool ∨
      AgeLimitPassed call.clock.touch before call.config.tool →
    after.epochId = before.epochId + 1) ∧
  (¬ IdleLimitPassed call.clock.touch before call.config.tool ∧
      ¬ AgeLimitPassed call.clock.touch before call.config.tool →
    after.epochId = before.epochId)

/-- The requests whose epoch evaluation the code gets right, by the manager with which they
enter `_touch_request`. Either a limit has passed, no decay raises, and it is the age limit
that passed or the idle limit is not positive; or no limit has passed, and a decay raises or
the idle limit is positive. -/
def LimitsNoticed (env : Env) (call : Call) (mid : Manager) : Prop :=
  let cfg := call.config.tool
  let idle := IdleLimitPassed call.clock.touch mid.epoch cfg
  let age := AgeLimitPassed call.clock.touch mid.epoch cfg
  ((idle ∨ age) ∧ mid.DecayDefined env cfg ∧ (age ∨ idleLimitMs cfg ≤ 0)) ∨
    (¬ idle ∧ ¬ age ∧ ¬ (mid.DecayDefined env cfg ∧ idleLimitMs cfg ≤ 0))

/-- A recorded request, in any state of the manager and of the epoch, rolls the epoch as its
limits say exactly when they are noticed. -/
theorem request_rollsOnLimits_iff (env : Env) (call : Call) (op : Op) (m : Manager)
    {mid : Manager} (hreq : op.requested env call m = some mid)
    (hidle : call.config.tool.idleGapTriggersEpoch) :
    RollsOnLimits call m.epoch (op.apply env call m).epoch ↔ LimitsNoticed env call mid := by
  have hepoch := Op.requested_epoch hreq
  obtain ⟨hrun, hkeep⟩ := touchRequest_epochId env call hidle (m := mid)
  rw [← Op.apply_epoch_of_requested hreq, hepoch] at hrun hkeep
  simp only [RollsOnLimits, LimitsNoticed, hepoch]
  by_cases hroll : mid.DecayDefined env call.config.tool ∧
      (AgeLimitPassed call.clock.touch m.epoch call.config.tool ∨ idleLimitMs call.config.tool ≤ 0)
  · have hid := hrun hroll
    have hne : (op.apply env call m).epoch.epochId ≠ m.epoch.epochId := by omega
    tauto
  · have hid := hkeep hroll
    have hne : (op.apply env call m).epoch.epochId ≠ m.epoch.epochId + 1 := by omega
    tauto

/-- The default section with an epoch age limit of twice the idle limit. -/
def longEpochConfig : Config :=
  { Config.default with tool := { TierSectionConfig.default with ttlMultiplier := 2 } }

/-- The characterisation, six minutes after the last request with an idle limit of five. -/
theorem request_rollsOnLimits_idleGap :
    RollsOnLimits (sampleCall longEpochConfig 360000) ⟨0, 0, 0, 0⟩
        (Op.apply sampleEnv (sampleCall longEpochConfig 360000) (.recordToolCandidates [])
          (onEmptyStore ⟨0, 0, 0, 0⟩)).epoch ↔
      LimitsNoticed sampleEnv (sampleCall longEpochConfig 360000)
        ((onEmptyStore ⟨0, 0, 0, 0⟩).markToolCandidates sampleEnv
          (sampleCall longEpochConfig 360000) []) :=
  request_rollsOnLimits_iff sampleEnv (sampleCall longEpochConfig 360000)
    (.recordToolCandidates []) (onEmptyStore ⟨0, 0, 0, 0⟩) rfl rfl

/-- Six minutes after the last request, with an idle limit of five and an age limit of ten,
a request runs no epoch evaluation. -/
theorem idle_gap_unnoticed :
    ¬ ∀ (call : Call) (op : Op) (m mid : Manager), op.requested sampleEnv call m = some mid →
      call.config.tool.idleGapTriggersEpoch →
      RollsOnLimits call m.epoch (op.apply sampleEnv call m).epoch := by
  intro h
  have hrolls := h (sampleCall longEpochConfig 360000) (.recordToolCandidates [])
    (onEmptyStore ⟨0, 0, 0, 0⟩) _ rfl rfl
  have hpassed : IdleLimitPassed 360000 ⟨0, 0, 0, 0⟩ longEpochConfig.tool := by
    simp only [IdleLimitPassed]
    decide +kernel
  have hkept : (Op.apply sampleEnv (sampleCall longEpochConfig 360000) (.recordToolCandidates [])
      (onEmptyStore ⟨0, 0, 0, 0⟩)).epoch.epochId = 0 := by
    decide +kernel
  have hrolled := hrolls.1 (.inl hpassed)
  rw [hkept] at hrolled
  exact absurd hrolled (by decide)

open Misc EntityTierState

variable (ops : FloatOps)

/-- What `_run_epoch` does to one entity state. -/
def runEpochState (cfg : TierSectionConfig) (nowMs : Int) (state : EntityTierState) :
    EntityTierState :=
  resetEpochCounters
    (evaluateSlowClockState ops cfg (expireState nowMs (crystallizeState state).1).1).1

theorem runEpoch_get? (env : Env) (call : Call) (m : Manager) (key : EntityKey) :
    (m.runEpoch env call).states.get? key =
      (m.states.get? key).map (runEpochState env.ops call.config.tool call.clock.epoch) := by
  have hpass : (m.runEpoch env call).states.get? key = (((evaluateSlowClock env.ops call.config.tool
        (slowClockInput call.clock.epoch m.states)).1).get? key).map resetEpochCounters :=
    Dict.get?_mapVals _ _ _
  rw [hpass]
  simp only [evaluateSlowClock, slowClockInput, expireTemporaryPromotions,
    crystallizeSuccessfulToolPromotionsAtEpoch, get?_passOver, Option.map_map]
  rfl

variable {state : EntityTierState}

/-- The tier that crystallisation gives a used tool or skill. -/
def crystallizedTier (state : EntityTierState) : Tier :=
  if .hot ≤ state.stableTier then state.stableTier else max state.effectiveTier .hot

def EntityTierState.settleAt (state : EntityTierState) (tier : Tier) : EntityTierState :=
  { state with
    tempPromotionUntilMs := none
    overlapTier := none
    stableTier := tier
    effectiveTier := tier }

theorem crystallizedTier_of_extraHot (h : state.stableTier = .extraHot) :
    crystallizedTier state = .extraHot := by
  have hle : Tier.hot ≤ state.stableTier := by
    rw [h]
    decide
  rw [crystallizedTier, if_pos hle, h]

theorem crystallizedTier_of_ne_extraHot (hinv : state.Inv) (h : state.stableTier ≠ .extraHot) :
    crystallizedTier state = .hot := by
  by_cases hle : Tier.hot ≤ state.stableTier
  · rw [crystallizedTier, if_pos hle]
    revert hle h
    cases state.stableTier <;> decide
  have heff : state.effectiveTier ≤ .hot := by
    cases ht : state.tempPromotionUntilMs with
    | none =>
      rw [(hinv.settled ht).effective_eq]
      exact le_of_not_ge hle
    | some untilMs =>
      rcases hinv.temp_tier (by simp [ht]) with heq | heq
      · rw [heq]
        decide
      · exact le_of_eq heq
  rw [crystallizedTier, if_neg hle, max_eq_right heff]

theorem crystallizeState_of_used (hk : state.isToolOrSkill) (hu : 0 < state.stats.epochUsed) :
    (crystallizeState state).1 = state.settleAt (crystallizedTier state) := by
  have hused : epochHadSuccess state = true := by simp [epochHadSuccess, hu]
  simp only [crystallizeState, hk, hused, not_true_eq_false, or_self, if_false, crystallizedTier]
  split <;> rfl

section

variable (cfg : TierSectionConfig)

theorem evaluateSlowClockState_extraHot (hu : 0 < state.stats.epochUsed) :
    (evaluateSlowClockState ops cfg (state.settleAt .extraHot)).1.stableTier =
      if state.kind ≠ .tool ∧ (emergencyT4Eviction ops state cfg ∨
        slowDemotionDue ops state cfg cfg.thresholdsT34) then .hot else .extraHot := by
  have hskip : toolSkipDemotionOnEpochSuccess (state.settleAt .extraHot) =
      (state.kind == .tool) := by
    simp [toolSkipDemotionOnEpochSuccess, epochHadSuccess, settleAt, hu]
  have heviction : emergencyT4Eviction ops (state.settleAt .extraHot) cfg =
      emergencyT4Eviction ops state cfg := rfl
  have hdemotion : slowDemotionDue ops (state.settleAt .extraHot) cfg cfg.thresholdsT34 =
      slowDemotionDue ops state cfg cfg.thresholdsT34 := rfl
  have hwake : ¬ Tier.extraHot ≤ Tier.dormant := by decide
  rw [evaluateSlowClockState]
  simp only [hskip, heviction, hdemotion]
  simp only [settleAt, hwake, if_false]
  by_cases hk : state.kind = .tool
  · simp [hk]
  · by_cases he : emergencyT4Eviction ops state cfg = true
    · simp [hk, he, made, demoteTier]
    · by_cases hd : slowDemotionDue ops state cfg cfg.thresholdsT34 = true
      · simp [hk, he, hd, made, demoteTier]
      · simp [hk, he, hd]

theorem evaluateSlowClockState_hot (hu : 0 < state.stats.epochUsed) :
    (evaluateSlowClockState ops cfg (state.settleAt .hot)).1.stableTier =
      if t4PromotionCriteriaMet ops state cfg then .extraHot
      else if state.kind ≠ .tool ∧ slowDemotionDue ops state cfg cfg.thresholdsT23 then .active
      else .hot := by
  have hskip : toolSkipDemotionOnEpochSuccess (state.settleAt .hot) = (state.kind == .tool) := by
    simp [toolSkipDemotionOnEpochSuccess, epochHadSuccess, settleAt, hu]
  have hcriteria : t4PromotionCriteriaMet ops (state.settleAt .hot) cfg =
      t4PromotionCriteriaMet ops state cfg := rfl
  have hdemotion : slowDemotionDue ops (state.settleAt .hot) cfg cfg.thresholdsT23 =
      slowDemotionDue ops state cfg cfg.thresholdsT23 := rfl
  have hwake : ¬ Tier.hot ≤ Tier.dormant := by decide
  rw [evaluateSlowClockState]
  simp only [hskip, hcriteria, hdemotion]
  simp only [settleAt, hwake, if_false]
  by_cases hc : t4PromotionCriteriaMet ops state cfg = true
  · simp [hc, made, promoteTier]
  · by_cases hk : state.kind = .tool
    · simp [hc, hk]
    · by_cases hd : slowDemotionDue ops state cfg cfg.thresholdsT23 = true
      · simp [hc, hk, hd, made, demoteTier]
      · simp [hc, hk, hd]

theorem stableTier_runEpochState (nowMs : Int) (hk : state.isToolOrSkill)
    (hu : 0 < state.stats.epochUsed) :
    (runEpochState ops cfg nowMs state).stableTier =
      (evaluateSlowClockState ops cfg (state.settleAt (crystallizedTier state))).1.stableTier := by
  simp only [runEpochState, crystallizeState_of_used hk hu, resetEpochCounters]
  rfl

end

/-- No demotion rule of the slow clock fires for the entity at the tier it has when used. -/
def NoDemotionDue (cfg : TierSectionConfig) (state : EntityTierState) : Prop :=
  (state.stableTier = .extraHot →
    ¬ emergencyT4Eviction ops state cfg ∧ ¬ slowDemotionDue ops state cfg cfg.thresholdsT34) ∧
  (state.stableTier ≠ .extraHot →
    t4PromotionCriteriaMet ops state cfg ∨ ¬ slowDemotionDue ops state cfg cfg.thresholdsT23)

/-- A used tool or skill leaves the epoch evaluation stably HOT and no lower than before
exactly when it is a tool or no demotion rule fires for it. -/
theorem runEpochState_keeps_iff (cfg : TierSectionConfig) (nowMs : Int) (hinv : state.Inv)
    (hk : state.isToolOrSkill) (hu : 0 < state.stats.epochUsed) :
    (.hot ≤ (runEpochState ops cfg nowMs state).stableTier ∧
      state.stableTier ≤ (runEpochState ops cfg nowMs state).stableTier) ↔
    state.kind = .tool ∨ NoDemotionDue ops cfg state := by
  rw [stableTier_runEpochState ops cfg nowMs hk hu]
  by_cases hx : state.stableTier = .extraHot
  · rw [crystallizedTier_of_extraHot hx, evaluateSlowClockState_extraHot ops cfg hu, hx]
    have hlt : ¬ Tier.extraHot ≤ Tier.hot := by decide
    have hle : Tier.hot ≤ Tier.extraHot := by decide
    by_cases htool : state.kind = .tool
    · simp [htool, hle]
    by_cases hdue : emergencyT4Eviction ops state cfg = true ∨
        slowDemotionDue ops state cfg cfg.thresholdsT34 = true
    · simp only [htool, hdue, ne_eq, not_false_eq_true, and_self, if_true, hlt, and_false,
        NoDemotionDue, hx, false_or, false_iff]
      tauto
    · simp only [htool, hdue, ne_eq, not_false_eq_true, and_false, if_false, hle, le_refl,
        NoDemotionDue, hx, false_or]
      tauto
  · rw [crystallizedTier_of_ne_extraHot hinv hx, evaluateSlowClockState_hot ops cfg hu]
    have hle : state.stableTier ≤ .hot := by
      revert hx
      cases state.stableTier <;> decide
    have hnot : ¬ Tier.hot ≤ Tier.active := by decide
    have hup : Tier.hot ≤ Tier.extraHot := by decide
    by_cases hc : t4PromotionCriteriaMet ops state cfg = true
    · simp [hc, hup, hle.trans hup, NoDemotionDue, hx]
    · by_cases htool : state.kind = .tool
      · simp [hc, htool, hle]
      · by_cases hdue : slowDemotionDue ops state cfg cfg.thresholdsT23 = true
        · simp [hc, htool, hdue, hnot, NoDemotionDue, hx]
        · simp [hc, htool, hdue, hle, NoDemotionDue, hx]

/-- At every epoch evaluation of every run from fresh states, a tool or skill used in the
epoch leaves it stably HOT and no lower than before exactly when it is a tool or no demotion
rule of its tier fires for it. -/
theorem epoch_keeps_recent_success_iff (env : Env) {m₀ : Manager} (h₀ : m₀.Fresh)
    (steps : List Step) (call : Call) (op : Op) {mid : Manager}
    (hstart : op.epochStart env call (run env steps m₀) = some mid) {key : EntityKey}
    {state : EntityTierState} (hget : mid.states.get? key = some state)
    (hk : state.isToolOrSkill) (hu : 0 < state.stats.epochUsed) :
    (∃ after, (mid.runEpoch env call).states.get? key = some after ∧
      .hot ≤ after.stableTier ∧ state.stableTier ≤ after.stableTier) ↔
    state.kind = .tool ∨ NoDemotionDue env.ops call.config.tool state := by
  have hinv : mid.Inv := Op.epochStart_inv (run_inv env steps (Manager.Fresh.inv h₀)) hstart
  have hstate : state.Inv := Dict.Forall.get? hinv hget
  rw [← runEpochState_keeps_iff env.ops call.config.tool call.clock.epoch hstate hk hu,
    runEpoch_get?, hget]
  simp

def sampleSkillPath : Text := "/skills/lint/SKILL.md"

/-- A skill injected into eight prompts, then used, in the epoch that ends next. -/
def skillUsedAfterInjections : List Step :=
  List.replicate 8 (sampleCall .default 0, .recordSkillsInjected [⟨sampleSkillPath, none⟩]) ++
    [(sampleCall .default 0, .recordSkillUsed sampleSkillPath)]

def usedSkillManager : Manager := run sampleEnv skillUsedAfterInjections (onEmptyStore ⟨0, 0, 0, 0⟩)

theorem usedSkillManager_get? :
    ∃ state, usedSkillManager.states.get? (.skill, sampleSkillPath) = some state ∧
      state.isToolOrSkill ∧ 0 < state.stats.epochUsed := by
  have hany : (usedSkillManager.states.get? (.skill, sampleSkillPath)).any (fun state =>
      state.isToolOrSkill && decide (0 < state.stats.epochUsed)) = true := by
    decide +kernel
  cases hget : usedSkillManager.states.get? (.skill, sampleSkillPath) with
  | none => simp [hget] at hany
  | some state =>
    simp only [hget, Option.any_some, Bool.and_eq_true, decide_eq_true_eq] at hany
    exact ⟨state, rfl, hany⟩

/-- The characterisation at the epoch that ends this run. -/
theorem epoch_keeps_recent_success_usedSkill :
    ∃ state, usedSkillManager.states.get? (.skill, sampleSkillPath) = some state ∧
      ((∃ after, (usedSkillManager.runEpoch sampleEnv (sampleCall .default 0)).states.get?
          (.skill, sampleSkillPath) = some after ∧
        .hot ≤ after.stableTier ∧ state.stableTier ≤ after.stableTier) ↔
      state.kind = .tool ∨ NoDemotionDue sampleEnv.ops Config.default.tool state) := by
  obtain ⟨state, hget, hk, hu⟩ := usedSkillManager_get?
  exact ⟨state, hget, epoch_keeps_recent_success_iff sampleEnv (onEmptyStore_fresh _)
    skillUsedAfterInjections (sampleCall .default 0) .runEpoch rfl hget hk hu⟩

/-- The skill was used in the epoch and the epoch leaves it below HOT. -/
theorem skill_use_demoted_at_epoch :
    ¬ ∀ (steps : List Step) (call : Call) (op : Op) (mid : Manager) (key : EntityKey)
      (state : EntityTierState),
      op.epochStart sampleEnv call (run sampleEnv steps (onEmptyStore ⟨0, 0, 0, 0⟩)) = some mid →
      mid.states.get? key = some state → state.isToolOrSkill → 0 < state.stats.epochUsed →
      ∃ after, (mid.runEpoch sampleEnv call).states.get? key = some after ∧
        .hot ≤ after.stableTier ∧ state.stableTier ≤ after.stableTier := by
  intro h
  have hdemoted : ((usedSkillManager.runEpoch sampleEnv (sampleCall .default 0)).states.get?
      (.skill, sampleSkillPath)).all (fun state => decide (state.stableTier = .active)) = true := by
    decide +kernel
  obtain ⟨state, hget, hk, hu⟩ := usedSkillManager_get?
  obtain ⟨after, hafter, hhot, -⟩ := h skillUsedAfterInjections (sampleCall .default 0) .runEpoch
    usedSkillManager (.skill, sampleSkillPath) state rfl hget hk hu
  simp only [hafter, Option.all_some, decide_eq_true_eq] at hdemoted
  rw [hdemoted] at hhot
  exact absurd hhot (by decide)

end ClearYourTools.Tiers
