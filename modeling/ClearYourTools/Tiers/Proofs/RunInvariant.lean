import Mathlib.Tactic.Linarith
import ClearYourTools.Tiers.Proofs.RowChanges

/-!
# The tier invariant over runs

Every change of a row keeps the invariant, so every operation does, and with it every run from
fresh states.
-/

namespace ClearYourTools.Tiers

open Misc Relation Option

namespace EntityTierState

/-- The consistency of the tier fields of one state. -/
structure Consistent (state : EntityTierState) : Prop where
  stable_le_effective : state.stableTier ≤ state.effectiveTier
  temp_iff_raised :
    state.tempPromotionUntilMs.isSome ↔ state.stableTier < state.effectiveTier
  overlap_eq_stable : ∀ tier, state.overlapTier = some tier →
    tier = state.stableTier ∧ state.tempPromotionUntilMs.isSome
  temp_used : state.tempPromotionUntilMs.isSome → 0 < state.stats.epochUsed

/-- The inductive invariant: consistency, and what the fast clock and the epoch boundary
need to know of a temporary promotion. -/
structure Inv (state : EntityTierState) : Prop extends Consistent state where
  temp_kind : state.tempPromotionUntilMs.isSome → state.isToolOrSkill
  temp_tier : state.tempPromotionUntilMs.isSome →
    state.effectiveTier = .active ∨ state.effectiveTier = .hot
  epochUsed_nonneg : 0 ≤ state.stats.epochUsed

/-- Stable and effective tier agree and no temporary promotion is active. -/
structure Settled (state : EntityTierState) : Prop where
  effective_eq : state.effectiveTier = state.stableTier
  no_overlap : state.overlapTier = none
  no_temp : state.tempPromotionUntilMs = none

variable {state : EntityTierState}

theorem Settled.inv (h : state.Settled) (hu : 0 ≤ state.stats.epochUsed) : state.Inv where
  stable_le_effective := le_of_eq h.effective_eq.symm
  temp_iff_raised := by simp [h.no_temp, h.effective_eq]
  overlap_eq_stable := by simp [h.no_overlap]
  temp_used := by simp [h.no_temp]
  temp_kind := by simp [h.no_temp]
  temp_tier := by simp [h.no_temp]
  epochUsed_nonneg := hu

theorem Fresh.inv (h : state.Fresh) : state.Inv :=
  Settled.inv ⟨h.effective.trans h.stable.symm, h.no_overlap, h.no_temp⟩ h.epochUsed_nonneg

theorem init_inv (kind : EntityKind) (entityId : Text) (tier : Tier) :
    (init kind entityId tier).Inv :=
  Settled.inv ⟨rfl, rfl, rfl⟩ (le_refl 0)

theorem Inv.settled (h : state.Inv) (ht : state.tempPromotionUntilMs = none) : state.Settled where
  effective_eq := by
    have hnot : ¬ state.stableTier < state.effectiveTier := by
      rw [← h.temp_iff_raised, ht]
      simp
    exact le_antisymm (not_lt.mp hnot) h.stable_le_effective
  no_overlap := by
    cases ho : state.overlapTier with
    | none => rfl
    | some tier => simpa [ht] using (h.overlap_eq_stable tier ho).2
  no_temp := ht

theorem Inv.settled_of_cold (h : state.Inv)
    (hc : state.effectiveTier = .dormant ∨ state.effectiveTier = .cold) : state.Settled := by
  apply h.settled
  cases ht : state.tempPromotionUntilMs with
  | none => rfl
  | some untilMs =>
    have htier := h.temp_tier (by simp [ht])
    rcases hc with hc | hc <;> rw [hc] at htier <;> simp at htier

theorem Inv.withStats (h : state.Inv) {stats : EffectiveStats}
    (hu : state.stats.epochUsed ≤ stats.epochUsed) : Inv { state with stats := stats } where
  stable_le_effective := h.stable_le_effective
  temp_iff_raised := h.temp_iff_raised
  overlap_eq_stable := h.overlap_eq_stable
  temp_used ht := lt_of_lt_of_le (h.temp_used ht) hu
  temp_kind := h.temp_kind
  temp_tier := h.temp_tier
  epochUsed_nonneg := le_trans h.epochUsed_nonneg hu

end EntityTierState

open EntityTierState

variable {state : EntityTierState}

theorem evaluateFastWake_inv (ops : FloatOps) (cfg : TierSectionConfig) (cycle : Int)
    (relevance sibling : ℚ) (h : state.Inv) :
    (evaluateFastWake ops state cfg cycle relevance sibling).1.Inv := by
  simp only [evaluateFastWake]
  split
  · exact h
  rename_i hd
  have hs := h.settled_of_cold (.inl (not_not.mp hd))
  split
  · exact h
  · split
    · exact h
    · exact Settled.inv ⟨rfl, hs.no_overlap, hs.no_temp⟩ h.epochUsed_nonneg

theorem evaluateFastSleep_inv (cfg : TierSectionConfig) (cycle : Int)
    (hadSelection hadUse hadShadow : Bool) (h : state.Inv) :
    (evaluateFastSleep state cfg cycle hadSelection hadUse hadShadow).1.Inv := by
  simp only [evaluateFastSleep]
  split
  · exact h
  rename_i hc
  have hs := h.settled_of_cold (.inr (not_not.mp hc))
  split
  · exact h
  · split
    · split
      · exact Settled.inv ⟨hs.effective_eq, hs.no_overlap, hs.no_temp⟩ h.epochUsed_nonneg
      · exact h
    · exact Settled.inv ⟨rfl, hs.no_overlap, hs.no_temp⟩ h.epochUsed_nonneg

/-- A promotion follows a use of the entity in this epoch, which is what makes it safe. -/
theorem fastPromoteOnToolUse_inv (cfg : Option TierSectionConfig) (nowMs : Int) (h : state.Inv)
    (hu : 0 < state.stats.epochUsed) : (fastPromoteOnToolUse state cfg nowMs).1.Inv := by
  simp only [fastPromoteOnToolUse]
  split
  · exact h
  rename_i hk
  have hkind : state.isToolOrSkill := not_not.mp hk
  split
  · -- a stable HOT entity only ever settles on its stable tier
    rename_i hhot
    have hnone : state.tempPromotionUntilMs = none := by
      cases ht : state.tempPromotionUntilMs with
      | none => rfl
      | some untilMs =>
        have hraised := h.temp_iff_raised.mp (by simp [ht])
        have htier := h.temp_tier (by simp [ht])
        have hlt : Tier.hot < state.effectiveTier := lt_of_le_of_lt hhot hraised
        rcases htier with heq | heq <;> rw [heq] at hlt <;> exact absurd hlt (by decide)
    have hs := h.settled hnone
    refine Settled.inv ⟨?_, rfl, rfl⟩ h.epochUsed_nonneg
    simp [hs.effective_eq]
  rename_i hnhot
  split
  · exact h
  rename_i hehot
  have hlt : state.stableTier < .hot := not_le.mp hnhot
  by_cases hcold : Tier.cold ≤ state.effectiveTier
  · simp only [hcold, if_true]
    exact {
      stable_le_effective := le_of_lt hlt
      temp_iff_raised := by simpa using hlt
      overlap_eq_stable := by
        intro tier htier
        cases htier
        simp
      temp_used := fun _ => hu
      temp_kind := fun _ => hkind
      temp_tier := fun _ => .inr rfl
      epochUsed_nonneg := h.epochUsed_nonneg }
  · -- T0: the entity is settled at DORMANT
    have hd : state.effectiveTier = .dormant := by
      revert hcold
      cases state.effectiveTier <;> decide
    have hs := h.settled_of_cold (.inl hd)
    have hstable : state.stableTier = .dormant := hs.effective_eq.symm.trans hd
    simp only [hcold, if_false]
    exact {
      stable_le_effective := by
        rw [hstable]
        exact (by decide : Tier.dormant ≤ Tier.active)
      temp_iff_raised := by simp [hstable]; decide
      overlap_eq_stable := by simp [hs.no_overlap]
      temp_used := fun _ => hu
      temp_kind := fun _ => hkind
      temp_tier := fun _ => .inl rfl
      epochUsed_nonneg := h.epochUsed_nonneg }

variable (nowMs : Int)

theorem expireState_inv (h : state.Inv) : (expireState nowMs state).1.Inv := by
  simp only [expireState]
  split
  · exact h
  split
  · exact h
  · split
    · split
      · exact Settled.inv ⟨rfl, rfl, rfl⟩ h.epochUsed_nonneg
      · exact Settled.inv ⟨rfl, rfl, rfl⟩ h.epochUsed_nonneg
    · exact h

theorem expireState_settled (h : state.Settled) : (expireState nowMs state).1.Settled := by
  simp only [expireState, h.no_temp]
  exact h

theorem crystallizeState_settled (h : state.Inv) : (crystallizeState state).1.Settled := by
  simp only [crystallizeState]
  split
  · rename_i hno
    apply h.settled
    cases ht : state.tempPromotionUntilMs with
    | none => rfl
    | some untilMs =>
      have hkind := h.temp_kind (by simp [ht])
      have hused := h.temp_used (by simp [ht])
      simp [hkind, epochHadSuccess, hused] at hno
  · split
    · exact ⟨rfl, rfl, rfl⟩
    · exact ⟨rfl, rfl, rfl⟩

theorem evaluateSlowClockState_settled (ops : FloatOps) (cfg : TierSectionConfig)
    (h : state.Settled) : (evaluateSlowClockState ops cfg state).1.Settled := by
  have hdemote : ∀ target reason, (made (demoteTier state target reason)).1.Settled :=
    fun _ _ => ⟨rfl, rfl, rfl⟩
  have hpromote : ∀ target reason,
      (made (promoteTier state target reason false none 0)).1.Settled :=
    fun _ _ => ⟨rfl, rfl, h.no_temp⟩
  simp only [evaluateSlowClockState]
  repeat' split
  all_goals first | exact h | exact hdemote _ _ | exact hpromote _ _

namespace Manager

variable (call : Call)
variable (wasInjected : Bool)

theorem bumpUsed_inv (state : EntityTierState) (h : state.Inv) : (bumpUsed wasInjected state).Inv :=
  h.withStats (by simp)

theorem bumpUsed_used (state : EntityTierState) (h : state.Inv) :
    0 < (bumpUsed wasInjected state).stats.epochUsed := by
  have hnonneg := h.epochUsed_nonneg
  simp only [bumpUsed]
  linarith

theorem useTool_inv (wasInjected optionalUsed : Bool) (state : EntityTierState)
    (h : state.Inv) : (useTool call wasInjected optionalUsed state).Inv := by
  have hinv := bumpUsed_inv wasInjected state h
  have hused := bumpUsed_used wasInjected state h
  simp only [useTool]
  split
  · have hopt : (bumpOptionalUsed (bumpUsed wasInjected state)).Inv :=
      hinv.withStats (le_refl _)
    exact fastPromoteOnToolUse_inv _ _ hopt hused
  · exact fastPromoteOnToolUse_inv _ _ hinv hused

theorem useSkill_inv (state : EntityTierState) (h : state.Inv) :
    (useSkill call wasInjected state).Inv :=
  fastPromoteOnToolUse_inv _ _ (bumpUsed_inv wasInjected state h)
    (bumpUsed_used wasInjected state h)

end Manager

section

variable {env : Env} {call : Call} {cycle : Int} {powers : Powers} {state' : EntityTierState}

theorem RowChange.inv (h : RowChange env call cycle powers state state') (hinv : state.Inv) :
    state'.Inv := by
  cases h with
  | stats hused => exact hinv.withStats (le_of_eq hused.symm)
  | wake _ => exact evaluateFastWake_inv _ _ _ _ _ hinv
  | useTool _ => exact Manager.useTool_inv call _ _ _ hinv
  | useSkill _ => exact Manager.useSkill_inv call _ _ hinv
  | expire => exact expireState_inv _ hinv
  | epoch _ =>
    have hsettled := evaluateSlowClockState_settled env.ops call.config.tool
      (expireState_settled call.clock.epoch (crystallizeState_settled hinv))
    exact Settled.inv ⟨hsettled.effective_eq, hsettled.no_overlap, hsettled.no_temp⟩ (le_refl 0)

theorem chain_inv (hinv : state.Inv)
    (h : ReflTransGen (RowChange env call cycle powers) state state') : state'.Inv := by
  induction h with
  | refl => exact hinv
  | tail _ hchange ih => exact hchange.inv ih

end

namespace Manager

/-- Every entity state of the manager satisfies the invariant. -/
def Inv (m : Manager) : Prop := m.states.Forall fun _ state => state.Inv

variable {m m' : Manager} {env : Env} {call : Call}

theorem Fresh.inv (h : m.Fresh) : m.Inv := fun e he => (h e he).inv

theorem Inv.of_outcomes {cycle : Int} {powers : EntityKey → Powers} (h : m.Inv)
    (hout : ∀ key, Outcome (RowChange env call cycle (powers key)) (powers key).newTier key m m') :
    m'.Inv := by
  intro e he
  obtain ⟨state, horigin, hchain⟩ := (hout e.1).row e.2 (Dict.get?_of_mem_entries he)
  refine chain_inv ?_ hchain
  rcases horigin with hsome | ⟨-, rfl⟩
  · exact h.get? hsome
  · exact init_inv _ _ _

theorem Inv.of_evolves (h : m.Inv) (hevolves : ∀ key,
    Evolves (RowChange env call 0 ⟨none, .active, True, True⟩) .active key m m') : m'.Inv :=
  @Inv.of_outcomes m m' env call 0 (fun _ => ⟨none, .active, True, True⟩) h
    fun key => (hevolves key).outcome

theorem purgeInactiveToolSources_inv (call : Call) (h : m.Inv) :
    (m.purgeInactiveToolSources call).Inv := by
  simp only [purgeInactiveToolSources]
  split
  · exact h
  · exact h.filter _

theorem slowClockInput_settled (h : m.Inv) :
    (slowClockInput nowMs m.states).Forall fun _ state => state.Settled := by
  have hcrystal : (crystallizeSuccessfulToolPromotionsAtEpoch m.states).1.Forall
      fun _ state => state.Settled :=
    Dict.Forall.mapVals h fun _ _ hstate => crystallizeState_settled hstate
  exact hcrystal.mapVals fun _ _ hstate => expireState_settled nowMs hstate

theorem beginRequestCycle_inv (h : m.Inv) : (m.beginRequestCycle call).Inv := by
  simp only [beginRequestCycle]
  split
  · exact h
  · split
    · exact h
    · exact Dict.Forall.mapVals h fun _ _ hstate => evaluateFastSleep_inv _ _ _ _ _ hstate

end Manager

namespace Op

variable {env : Env} {call : Call} {m : Manager}

theorem purged_inv (op : Op) (h : m.Inv) : (op.purged call m).Inv := by
  rcases purged_eq call m op with heq | heq <;> rw [heq]
  · exact h
  · exact Manager.purgeInactiveToolSources_inv call h

theorem apply_inv (op : Op) (h : m.Inv) : (op.apply env call m).Inv := by
  by_cases hop : op = .beginRequestCycle
  · subst hop
    exact Manager.beginRequestCycle_inv h
  · exact (op.purged_inv h).of_outcomes fun _ => op.apply_outcome hop

theorem requested_inv {op : Op} {mid : Manager} (h : m.Inv)
    (hreq : op.requested env call m = some mid) : mid.Inv := by
  have hpurged := Manager.purgeInactiveToolSources_inv call h
  cases op with
  | recordToolCandidates tools =>
    obtain ⟨-, ⟨⟩⟩ := ite_none_right_eq_some.mp hreq
    exact hpurged.of_evolves fun _ => Manager.markToolCandidates_evolves rfl tools
  | recordToolsInjected tools =>
    obtain ⟨-, ⟨⟩⟩ := ite_none_right_eq_some.mp hreq
    exact hpurged.of_evolves fun _ => Manager.markToolsInjected_evolves rfl tools
  | recordToolAttempt tool success optionalUsed =>
    obtain ⟨-, ⟨⟩⟩ := ite_none_right_eq_some.mp hreq
    exact @Manager.Inv.of_evolves _ _ env call hpurged fun _ =>
      Manager.markToolAttempt_evolves rfl _ _ _ fun _ _ => trivial
  | recordSkillCandidates entries =>
    obtain ⟨-, ⟨⟩⟩ := ite_none_right_eq_some.mp hreq
    exact h.of_evolves fun _ => Manager.markSkillCandidates_evolves rfl entries
  | recordSkillsInjected refs =>
    obtain ⟨-, ⟨⟩⟩ := ite_none_right_eq_some.mp hreq
    exact h.of_evolves fun _ => Manager.markSkillsInjected_evolves rfl refs
  | recordSkillUsed entityId =>
    obtain ⟨-, hused⟩ := ite_none_right_eq_some.mp hreq
    obtain ⟨k, -, rfl⟩ := map_eq_some_iff.mp hused
    exact @Manager.Inv.of_evolves _ _ env call h fun _ =>
      Manager.markSkillUsed_evolves rfl _ _ fun _ => trivial
  | _ => cases hreq

theorem epochStart_inv {op : Op} {mid : Manager} (h : m.Inv)
    (hstart : op.epochStart env call m = some mid) : mid.Inv := by
  have hrecord : ∀ op : Op, (op.requested env call m).bind (touchEpochStart env call) = some mid →
      mid.Inv := by
    intro op hbind
    obtain ⟨before, hreq, htouch⟩ := bind_eq_some_iff.mp hbind
    simp only [touchEpochStart] at htouch
    split at htouch
    · cases htouch
      exact (requested_inv h hreq).of_evolves fun _ => Manager.beginTouch_evolves
    · cases htouch
  cases op with
  | runEpoch =>
    cases hstart
    exact h
  | advanceEpochIfAgeExpired =>
    simp only [epochStart] at hstart
    split at hstart
    · cases hstart
      exact h
    · cases hstart
  | _ =>
    simp only [epochStart] at hstart
    exact hrecord _ hstart

end Op

theorem run_inv (env : Env) (steps : List Step) {m : Manager} (h : m.Inv) : (run env steps m).Inv :=
  run_invariant (fun _ op _ hm => op.apply_inv hm) steps h

/-- Starting from fresh states, after every run every entity state is consistent, and every
epoch evaluation started from there hands the slow clock settled states only: no slow-clock
rule meets an effective tier that a temporary promotion raised. -/
theorem run_consistent (env : Env) (steps : List Step) {m₀ : Manager} (h₀ : m₀.Fresh) :
    ((run env steps m₀).states.Forall fun _ state => state.Consistent) ∧
      ∀ call op mid, Op.epochStart env call op (run env steps m₀) = some mid →
        (Manager.slowClockInput call.clock.epoch mid.states).Forall fun _ state => state.Settled := by
  have hinv := run_inv env steps (Manager.Fresh.inv h₀)
  refine ⟨fun e he => (hinv e he).toConsistent, ?_⟩
  intro call op mid hstart
  exact Manager.slowClockInput_settled _ (Op.epochStart_inv hinv hstart)

/-- A tool is used, the prompt cycle turns and an epoch runs: the invariant holds at the end. -/
theorem run_consistent_toolUse :
    ((run sampleEnv [(sampleCall .default 0, .recordToolAttempt sampleTool true false),
        (sampleCall .default 1, .beginRequestCycle),
        (sampleCall .default 2, .runEpoch)] (Manager.onEmptyStore ⟨0, 0, 0, 0⟩)).states.Forall
      fun _ state => state.Consistent) ∧
      ∀ call op mid, Op.epochStart sampleEnv call op
          (run sampleEnv [(sampleCall .default 0, .recordToolAttempt sampleTool true false),
            (sampleCall .default 1, .beginRequestCycle),
            (sampleCall .default 2, .runEpoch)] (Manager.onEmptyStore ⟨0, 0, 0, 0⟩)) = some mid →
        (Manager.slowClockInput call.clock.epoch mid.states).Forall
          fun _ state => state.Settled :=
  run_consistent sampleEnv _ (Manager.onEmptyStore_fresh _)

end ClearYourTools.Tiers
