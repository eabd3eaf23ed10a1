import ClearYourTools.Tiers.Proofs.RunInvariant

/-!
# The two clocks

The slow clock moves the stable tier of an entity by one level and leaves DORMANT alone. A row leaves
DORMANT by a wake behind its cooldown or by a use.
-/

namespace ClearYourTools.Tiers

open Misc Relation EntityTierState

/-- One level up or down, and neither level is DORMANT. -/
structure OneLevel (old new : Tier) : Prop where
  adjacent : new.value = old.value + 1 ∨ old.value = new.value + 1
  old_ne : old ≠ .dormant
  new_ne : new ≠ .dormant

/-- What the loop of `evaluate_slow_clock` does to a state: nothing, or one step up or down. -/
theorem evaluateSlowClockState_cases (ops : FloatOps) (cfg : TierSectionConfig)
    (state : EntityTierState) :
    evaluateSlowClockState ops cfg state = (state, none) ∨
      ∃ target reason, OneLevel state.stableTier target ∧
        (evaluateSlowClockState ops cfg state = made (demoteTier state target reason) ∨
          evaluateSlowClockState ops cfg state =
            made (promoteTier state target reason false none 0)) := by
  unfold evaluateSlowClockState
  split
  · exact .inl rfl
  dsimp only
  cases state.stableTier with
  | extraHot =>
    dsimp only
    split
    · exact .inl rfl
    split
    · exact .inr ⟨.hot, _, ⟨.inr rfl, nofun, nofun⟩, .inl rfl⟩
    split
    · exact .inr ⟨.hot, _, ⟨.inr rfl, nofun, nofun⟩, .inl rfl⟩
    · exact .inl rfl
  | hot =>
    dsimp only
    split
    · exact .inr ⟨.extraHot, _, ⟨.inl rfl, nofun, nofun⟩, .inr rfl⟩
    split
    · exact .inr ⟨.active, _, ⟨.inr rfl, nofun, nofun⟩, .inl rfl⟩
    · exact .inl rfl
  | active =>
    dsimp only
    split
    · exact .inl rfl
    split
    · exact .inr ⟨.hot, _, ⟨.inl rfl, nofun, nofun⟩, .inr rfl⟩
    split
    · exact .inr ⟨.cold, _, ⟨.inr rfl, nofun, nofun⟩, .inl rfl⟩
    split
    · exact .inr ⟨.cold, _, ⟨.inr rfl, nofun, nofun⟩, .inl rfl⟩
    · exact .inl rfl
  | cold =>
    dsimp only
    split
    · exact .inl rfl
    split
    · exact .inr ⟨.active, _, ⟨.inl rfl, nofun, nofun⟩, .inr rfl⟩
    · exact .inl rfl
  | dormant => exact .inl rfl

theorem evaluateSlowClockState_oneLevel {ops : FloatOps} {cfg : TierSectionConfig}
    {state : EntityTierState} {t : TierTransition}
    (h : (evaluateSlowClockState ops cfg state).2 = some t) :
    OneLevel state.stableTier (evaluateSlowClockState ops cfg state).1.stableTier := by
  rcases evaluateSlowClockState_cases ops cfg state with heq | ⟨target, reason, hlevel, heq | heq⟩
  · rw [heq] at h
    cases h
  · rw [heq]
    exact hlevel
  · rw [heq]
    exact hlevel

theorem evaluateSlowClock_oneLevel {ops : FloatOps} {cfg : TierSectionConfig} {states : States}
    {t : TierTransition} (h : t ∈ (evaluateSlowClock ops cfg states).2) :
    ∃ key state state', states.get? key = some state ∧
      (evaluateSlowClock ops cfg states).1.get? key = some state' ∧
      evaluateSlowClockState ops cfg state = (state', some t) ∧
      OneLevel state.stableTier state'.stableTier := by
  obtain ⟨state, hstate, ht⟩ := List.mem_filterMap.mp h
  obtain ⟨entry, hentry, rfl⟩ := List.mem_map.mp hstate
  have hget := Dict.get?_of_mem_entries hentry
  refine ⟨entry.1, entry.2, _, hget, ?_, Prod.ext rfl ht, evaluateSlowClockState_oneLevel ht⟩
  rw [evaluateSlowClock, get?_passOver, hget, Option.map_some]

section

variable {env : Env} {call : Call} {cycle : Int} {powers : Powers} {state state' : EntityTierState}

theorem evaluateFastWake_cases (ops : FloatOps) (state : EntityTierState) (cfg : TierSectionConfig)
    (cycle : Int) (relevance sibling : ℚ) :
    evaluateFastWake ops state cfg cycle relevance sibling = (state, none) ∨
      state.effectiveTier = .dormant ∧ state.sleepCooldownUntilCycle < cycle ∧
        evaluateFastWake ops state cfg cycle relevance sibling =
          ({ state with
              effectiveTier := .cold
              stableTier := .cold
              wakeLeaseUntilCycle := cycle + cfg.wakeLeaseCycles },
            some ⟨state.kind, state.entityId, state.effectiveTier, .cold, "fast_wake", false⟩) := by
  unfold evaluateFastWake
  split
  · exact .inl rfl
  rename_i hdormant
  split
  · exact .inl rfl
  rename_i hcooldown
  dsimp only
  split
  · exact .inl rfl
  · exact .inr ⟨not_not.mp hdormant, not_le.mp hcooldown, rfl⟩

theorem fastPromoteOnToolUse_frame (state : EntityTierState) (cfg : Option TierSectionConfig)
    (nowMs : Int) :
    (fastPromoteOnToolUse state cfg nowMs).1.stableTier = state.stableTier ∧
      (fastPromoteOnToolUse state cfg nowMs).1.wakeLeaseUntilCycle = state.wakeLeaseUntilCycle ∧
      (fastPromoteOnToolUse state cfg nowMs).1.kind = state.kind ∧
      (fastPromoteOnToolUse state cfg nowMs).1.entityId = state.entityId := by
  unfold fastPromoteOnToolUse
  split
  · exact ⟨rfl, rfl, rfl, rfl⟩
  split
  · exact ⟨rfl, rfl, rfl, rfl⟩
  split
  · exact ⟨rfl, rfl, rfl, rfl⟩
  · exact ⟨rfl, rfl, rfl, rfl⟩

theorem useTool_frame (call : Call) (wasInjected optionalUsed : Bool) (state : EntityTierState) :
    (Manager.useTool call wasInjected optionalUsed state).stableTier = state.stableTier ∧
      (Manager.useTool call wasInjected optionalUsed state).wakeLeaseUntilCycle =
        state.wakeLeaseUntilCycle ∧
      (Manager.useTool call wasInjected optionalUsed state).kind = state.kind ∧
      (Manager.useTool call wasInjected optionalUsed state).entityId = state.entityId := by
  unfold Manager.useTool
  dsimp only
  split
  · exact fastPromoteOnToolUse_frame _ _ _
  · exact fastPromoteOnToolUse_frame _ _ _

theorem expireState_frame (nowMs : Int) (state : EntityTierState) :
    ((expireState nowMs state).1.stableTier = state.stableTier ∨
        (expireState nowMs state).1.stableTier = state.effectiveTier) ∧
      (expireState nowMs state).1.wakeLeaseUntilCycle = state.wakeLeaseUntilCycle ∧
      (expireState nowMs state).1.kind = state.kind ∧
      (expireState nowMs state).1.entityId = state.entityId := by
  unfold expireState
  split
  · exact ⟨.inl rfl, rfl, rfl, rfl⟩
  split
  · exact ⟨.inl rfl, rfl, rfl, rfl⟩
  split
  · dsimp only
    split
    · exact ⟨.inr rfl, rfl, rfl, rfl⟩
    · exact ⟨.inl rfl, rfl, rfl, rfl⟩
  · exact ⟨.inl rfl, rfl, rfl, rfl⟩

theorem crystallizeState_frame (state : EntityTierState) :
    ((crystallizeState state).1.stableTier = state.stableTier ∨
        (crystallizeState state).1.stableTier ≠ .dormant) ∧
      (crystallizeState state).1.wakeLeaseUntilCycle = state.wakeLeaseUntilCycle ∧
      (crystallizeState state).1.kind = state.kind ∧
      (crystallizeState state).1.entityId = state.entityId := by
  unfold crystallizeState
  split
  · exact ⟨.inl rfl, rfl, rfl, rfl⟩
  dsimp only
  split
  · exact ⟨.inl rfl, rfl, rfl, rfl⟩
  · refine ⟨.inr fun hdormant => ?_, rfl, rfl, rfl⟩
    have hle : Tier.hot ≤ max state.effectiveTier .hot := le_max_right _ _
    have hmax : max state.effectiveTier .hot = .dormant := hdormant
    rw [hmax] at hle
    exact absurd hle (by decide)

theorem evaluateSlowClockState_frame (ops : FloatOps) (cfg : TierSectionConfig)
    (state : EntityTierState) :
    ((evaluateSlowClockState ops cfg state).1.stableTier = state.stableTier ∨
        (evaluateSlowClockState ops cfg state).1.stableTier ≠ .dormant) ∧
      (evaluateSlowClockState ops cfg state).1.wakeLeaseUntilCycle = state.wakeLeaseUntilCycle ∧
      (evaluateSlowClockState ops cfg state).1.kind = state.kind ∧
      (evaluateSlowClockState ops cfg state).1.entityId = state.entityId := by
  rcases evaluateSlowClockState_cases ops cfg state with heq | ⟨target, reason, hlevel, heq | heq⟩
  · rw [heq]
    exact ⟨.inl rfl, rfl, rfl, rfl⟩
  · rw [heq]
    exact ⟨.inr hlevel.new_ne, rfl, rfl, rfl⟩
  · rw [heq]
    exact ⟨.inr hlevel.new_ne, rfl, rfl, rfl⟩

theorem RowChange.name (h : RowChange env call cycle powers state state') :
    (state'.kind, state'.entityId) = (state.kind, state.entityId) := by
  cases h with
  | stats _ => rfl
  | wake _ =>
    rcases evaluateFastWake_cases env.ops state _ cycle _ _ with heq | ⟨-, -, heq⟩ <;> rw [heq]
  | useTool _ =>
    obtain ⟨-, -, hkind, hid⟩ := useTool_frame call _ _ state
    rw [hkind, hid]
  | useSkill _ =>
    obtain ⟨-, -, hkind, hid⟩ := fastPromoteOnToolUse_frame (Manager.bumpUsed _ state) _ _
    exact Prod.ext hkind hid
  | expire =>
    obtain ⟨-, -, hkind, hid⟩ := expireState_frame _ state
    rw [hkind, hid]
  | epoch _ =>
    obtain ⟨-, -, hkind, hid⟩ := crystallizeState_frame state
    obtain ⟨-, -, hkind', hid'⟩ := expireState_frame call.clock.epoch (crystallizeState state).1
    obtain ⟨-, -, hkind'', hid''⟩ := evaluateSlowClockState_frame env.ops call.config.tool
      (expireState call.clock.epoch (crystallizeState state).1).1
    exact Prod.ext (hkind''.trans (hkind'.trans hkind)) (hid''.trans (hid'.trans hid))

theorem RowChange.awake (h : RowChange env call cycle powers state state') (hinv : state.Inv)
    (hstable : state.stableTier ≠ .dormant) :
    state'.stableTier ≠ .dormant ∧ state'.wakeLeaseUntilCycle = state.wakeLeaseUntilCycle := by
  have habove : ∀ {s : EntityTierState}, s.Inv → s.stableTier ≠ .dormant →
      s.effectiveTier ≠ .dormant := by
    intro s hs hne heffective
    have hle := hs.stable_le_effective
    rw [heffective] at hle
    refine hne (le_antisymm hle ?_)
    cases s.stableTier <;> decide
  have hexpired : ∀ (nowMs : Int) {s : EntityTierState}, s.Inv → s.stableTier ≠ .dormant →
      (expireState nowMs s).1.stableTier ≠ .dormant := by
    intro nowMs s hs hne
    rcases (expireState_frame nowMs s).1 with heq | heq <;> rw [heq]
    · exact hne
    · exact habove hs hne
  cases h with
  | stats _ => exact ⟨hstable, rfl⟩
  | wake _ =>
    rcases evaluateFastWake_cases env.ops state _ cycle _ _ with heq | ⟨hdormant, -, heq⟩
    · rw [heq]
      exact ⟨hstable, rfl⟩
    · exact absurd hdormant (habove hinv hstable)
  | useTool _ =>
    obtain ⟨htier, hlease, -, -⟩ := useTool_frame call _ _ state
    exact ⟨by rwa [htier], hlease⟩
  | useSkill _ =>
    obtain ⟨htier, hlease, -, -⟩ := fastPromoteOnToolUse_frame (Manager.bumpUsed _ state) _ _
    exact ⟨fun hdormant => hstable (htier.symm.trans hdormant), hlease⟩
  | expire => exact ⟨hexpired _ hinv hstable, (expireState_frame _ state).2.1⟩
  | epoch _ =>
    obtain ⟨htier, hlease, -, -⟩ := crystallizeState_frame state
    have hcrystal : (crystallizeState state).1.stableTier ≠ .dormant := by
      rcases htier with heq | hne
      · rwa [heq]
      · exact hne
    have hinv' : (crystallizeState state).1.Inv :=
      (crystallizeState_settled hinv).inv (by
        have hused : (crystallizeState state).1.stats = state.stats := by
          unfold crystallizeState
          split
          · rfl
          · dsimp only
            split <;> rfl
        rw [hused]
        exact hinv.epochUsed_nonneg)
    have hexpire := hexpired call.clock.epoch hinv' hcrystal
    obtain ⟨htier', hlease', -, -⟩ := evaluateSlowClockState_frame env.ops call.config.tool
      (expireState call.clock.epoch (crystallizeState state).1).1
    refine ⟨?_, hlease'.trans ((expireState_frame _ _).2.1.trans hlease)⟩
    rcases htier' with heq | hne
    · exact fun hdormant => hexpire (heq.symm.trans hdormant)
    · exact hne

theorem epochState_dormant (env : Env) (call : Call) (hinv : state.Inv)
    (hdormant : state.effectiveTier = .dormant) (hused : state.stats.epochUsed ≤ 0) :
    epochState env call state = Manager.resetEpochCounters state := by
  have hsettled := hinv.settled_of_cold (.inl hdormant)
  have hcrystal : crystallizeState state = (state, none) := by
    unfold crystallizeState
    rw [if_pos]
    refine .inr ?_
    rw [epochHadSuccess, decide_eq_true_eq]
    exact not_lt.mpr hused
  have hexpire : expireState call.clock.epoch state = (state, none) := by
    unfold expireState
    rw [hsettled.no_temp]
  have hslow : evaluateSlowClockState env.ops call.config.tool state = (state, none) := by
    unfold evaluateSlowClockState
    rw [if_pos (le_of_eq hdormant)]
  rw [epochState, hcrystal, hexpire, hslow]

/-- How a dormant state can leave DORMANT. -/
inductive Leaves (env : Env) (cycle : Int) (powers : Powers) (state : EntityTierState) : Prop where
  | wake (cfg : TierSectionConfig) (stats : EffectiveStats) (relevance sibling : ℚ)
      (hcfg : powers.wakeConfig = some cfg) (hcooldown : state.sleepCooldownUntilCycle < cycle)
      (hwoken : (evaluateFastWake env.ops { state with stats := stats } cfg cycle relevance
        sibling).2.isSome = true)
  | use (h : powers.uses)
  | usedInEpoch (h : powers.epochs) (hused : 0 < state.stats.epochUsed)

/-- The state with other counters, of the same uses in this epoch. -/
def SameBut (state state' : EntityTierState) : Prop :=
  ∃ stats : EffectiveStats, stats.epochUsed = state.stats.epochUsed ∧
    state' = { state with stats := stats }

/-- A change of a dormant state only counts, or is one of the ways to leave DORMANT. -/
theorem RowChange.of_dormant (hinv : state.Inv) (hdormant : state.effectiveTier = .dormant)
    {before after : EntityTierState} (hsame : SameBut state before)
    (h : RowChange env call cycle powers before after) :
    SameBut state after ∨ Leaves env cycle powers state ∧ (¬powers.uses → ¬powers.epochs →
      ∃ cfg, powers.wakeConfig = some cfg ∧ after.stableTier ≠ .dormant ∧
        after.wakeLeaseUntilCycle = cycle + cfg.wakeLeaseCycles) := by
  obtain ⟨stats, hused, rfl⟩ := hsame
  have hinv' : Inv { state with stats := stats } := hinv.withStats (le_of_eq hused.symm)
  cases h with
  | stats hused' => exact .inl ⟨_, hused'.trans hused, rfl⟩
  | @wake cfg relevance sibling hcfg =>
    rcases evaluateFastWake_cases env.ops { state with stats := stats } cfg cycle relevance
      sibling with heq | ⟨-, hcooldown, heq⟩
    · rw [heq]
      exact .inl ⟨stats, hused, rfl⟩
    have hwoken : (evaluateFastWake env.ops { state with stats := stats } cfg cycle relevance
        sibling).2.isSome = true := by
      rw [heq]
      rfl
    rw [heq]
    exact .inr ⟨.wake cfg stats relevance sibling hcfg hcooldown hwoken,
      fun _ _ => ⟨cfg, hcfg, nofun, rfl⟩⟩
  | useTool huses => exact .inr ⟨.use huses, fun hnone => absurd huses hnone⟩
  | useSkill huses => exact .inr ⟨.use huses, fun hnone => absurd huses hnone⟩
  | @expire nowMs =>
    have hexpire : expireState nowMs { state with stats := stats } =
        ({ state with stats := stats }, none) := by
      unfold expireState
      rw [(hinv'.settled_of_cold (.inl hdormant)).no_temp]
    rw [hexpire]
    exact .inl ⟨stats, hused, rfl⟩
  | epoch hepochs =>
    rcases lt_or_ge 0 state.stats.epochUsed with hpos | hnone
    · exact .inr ⟨.usedInEpoch hepochs hpos, fun _ hnone => absurd hepochs hnone⟩
    · rw [epochState_dormant env call hinv' hdormant (hused.trans_le hnone)]
      exact .inl ⟨_, le_antisymm hinv.epochUsed_nonneg hnone, rfl⟩

theorem chain_of_dormant (hinv : state.Inv) (hdormant : state.effectiveTier = .dormant)
    (h : ReflTransGen (RowChange env call cycle powers) state state') :
    SameBut state state' ∨ Leaves env cycle powers state := by
  induction h with
  | refl => exact .inl ⟨state.stats, rfl, rfl⟩
  | tail _ hchange ih =>
    rcases ih with hsame | hleaves
    · exact (hchange.of_dormant hinv hdormant hsame).imp_right And.left
    · exact .inr hleaves

theorem SameBut.effectiveTier (h : SameBut state state') :
    state'.effectiveTier = state.effectiveTier := by
  obtain ⟨stats, -, rfl⟩ := h
  rfl

theorem chain_name (h : ReflTransGen (RowChange env call cycle powers) state state') :
    (state'.kind, state'.entityId) = (state.kind, state.entityId) := by
  induction h with
  | refl => rfl
  | tail _ hchange ih => exact hchange.name.trans ih

theorem chain_awake (hinv : state.Inv) (hstable : state.stableTier ≠ .dormant)
    (h : ReflTransGen (RowChange env call cycle powers) state state') :
    state'.stableTier ≠ .dormant ∧ state'.wakeLeaseUntilCycle = state.wakeLeaseUntilCycle := by
  induction h with
  | refl => exact ⟨hstable, rfl⟩
  | tail hprefix hchange ih =>
    obtain ⟨hne, hlease⟩ := hchange.awake (chain_inv hinv hprefix) ih.1
    exact ⟨hne, hlease.trans ih.2⟩

theorem chain_of_woken {cfg : TierSectionConfig} (hcfg : powers.wakeConfig = some cfg)
    (huses : ¬powers.uses) (hepochs : ¬powers.epochs) (hinv : state.Inv)
    (hdormant : state.effectiveTier = .dormant)
    (h : ReflTransGen (RowChange env call cycle powers) state state') :
    SameBut state state' ∨
      state'.stableTier ≠ .dormant ∧ state'.wakeLeaseUntilCycle = cycle + cfg.wakeLeaseCycles := by
  induction h with
  | refl => exact .inl ⟨state.stats, rfl, rfl⟩
  | tail hprefix hchange ih =>
    rcases ih with hsame | ⟨hne, hlease⟩
    · refine (hchange.of_dormant hinv hdormant hsame).imp_right fun hleft => ?_
      obtain ⟨cfg', hcfg', hwoken⟩ := hleft.2 huses hepochs
      obtain rfl := Option.some.inj (hcfg.symm.trans hcfg')
      exact hwoken
    · obtain ⟨hne', hlease'⟩ := hchange.awake (chain_inv hinv hprefix) hne
      exact .inr ⟨hne', hlease'.trans hlease⟩

end

/-- A manager as it is loaded, or as a run leaves it: the rows are consistent and stand under their
names, and the cycles count from zero. -/
structure Manager.Loaded (m : Manager) : Prop where
  inv : m.Inv
  named : ∀ key state, m.states.get? key = some state → (state.kind, state.entityId) = key
  cycle : 0 ≤ m.epoch.wakeCycleId

theorem Manager.onEmptyStore_loaded {epoch : EpochState} (h : 0 ≤ epoch.wakeCycleId) :
    (Manager.onEmptyStore epoch).Loaded :=
  ⟨Fresh.inv (onEmptyStore_fresh epoch), fun _ _ hget => (by cases hget), h⟩

section

variable {env : Env} {call : Call} {key : EntityKey} {m : Manager}

/-- What the fast clock does to a state at the begin of a request cycle. -/
def sleepState (m : Manager) (key : EntityKey) (cfg : TierSectionConfig) (state : EntityTierState) :
    EntityTierState :=
  (evaluateFastSleep state cfg m.epoch.wakeCycleId (m.cycleSelected.contains key)
    (m.cycleUsed.contains key) (m.cycleShadow.contains key)).1

theorem beginRequestCycle_cases (call : Call) (m : Manager) :
    m.beginRequestCycle call = m ∨
      (∀ key, (m.beginRequestCycle call).states.get? key =
        (m.states.get? key).map (sleepState m key call.config.tool)) ∧
      (m.beginRequestCycle call).epoch.wakeCycleId = m.epoch.wakeCycleId + 1 := by
  unfold Manager.beginRequestCycle
  split
  · exact .inl rfl
  split
  · exact .inl rfl
  · exact .inr ⟨fun key => Dict.get?_mapVals m.states _ key, rfl⟩

theorem evaluateFastSleep_name (state : EntityTierState) (cfg : TierSectionConfig) (cycle : Int)
    (hadSelection hadUse hadShadow : Bool) :
    ((evaluateFastSleep state cfg cycle hadSelection hadUse hadShadow).1.kind,
      (evaluateFastSleep state cfg cycle hadSelection hadUse hadShadow).1.entityId) =
        (state.kind, state.entityId) := by
  unfold evaluateFastSleep
  split
  · rfl
  split
  · rfl
  split
  · split <;> rfl
  · rfl

theorem Op.apply_loaded (op : Op) (h : m.Loaded) : (op.apply env call m).Loaded := by
  refine ⟨op.apply_inv h.inv, ?_, ?_⟩
  · intro key state' hget
    by_cases hop : op = .beginRequestCycle
    · subst hop
      rcases beginRequestCycle_cases call m with heq | ⟨hrows, -⟩
      · rw [apply, heq] at hget
        exact h.named key state' hget
      · rw [apply, hrows] at hget
        obtain ⟨state, hstate, rfl⟩ := Option.map_eq_some_iff.mp hget
        exact (evaluateFastSleep_name state _ _ _ _ _).trans (h.named key state hstate)
    · obtain ⟨state, horigin, hchain⟩ := (op.apply_outcome hop).row state' hget
      rw [chain_name hchain]
      rcases horigin with hsome | ⟨-, rfl⟩
      · exact h.named key state (get?_purged hsome)
      · rfl
  · by_cases hop : op = .beginRequestCycle
    · subst hop
      rcases beginRequestCycle_cases call m with heq | ⟨-, hcycle⟩
      · rw [apply, heq]
        exact h.cycle
      · have hpos := h.cycle
        rw [apply, hcycle]
        omega
    · have hcycle := (@apply_outcome env call (.tool, []) m op hop).cycle
      rw [hcycle, purged_epoch]
      exact h.cycle

theorem run_loaded (env : Env) (steps : List Step) (h : m.Loaded) : (run env steps m).Loaded :=
  run_invariant (fun _ op _ hm => op.apply_loaded hm) steps h

end

/-- The row of an entity stands under its name, and is dormant unless a wake of it is announced. -/
structure Announced (key : EntityKey) (states : States) (transitions : List TierTransition) :
    Prop where
  named : ∀ state, states.get? key = some state → (state.kind, state.entityId) = key
  dormant : (∀ state, states.get? key = some state → state.effectiveTier = .dormant) ∨
    key ∈ transitions.map fun (t : TierTransition) => (t.kind, t.entityId)

section

variable {key : EntityKey} {states : States} {transitions : List TierTransition}

theorem dormantState_snd (states : States) (kind : EntityKind) (entityId : Text) :
    (dormantState states kind entityId).2 =
      (states.get? (kind, entityId)).getD (.init kind entityId .dormant) := by
  unfold dormantState
  cases states.get? (kind, entityId) <;> rfl

theorem get?_dormantState_set (states : States) (kind : EntityKind) (entityId : Text)
    (state : EntityTierState) (key : EntityKey) :
    ((dormantState states kind entityId).1.set (kind, entityId) state).get? key =
      if key = (kind, entityId) then some state else states.get? key := by
  have hother : ∀ d : States, key ≠ (kind, entityId) →
      (d.set (kind, entityId) state).get? key = d.get? key := fun d hne =>
    Dict.get?_set_of_ne d state hne
  split
  · rename_i heq
    rw [heq, Dict.get?_set_self]
  rename_i hne
  rw [hother _ hne]
  unfold dormantState
  cases states.get? (kind, entityId) with
  | some old => rfl
  | none => exact Dict.get?_set_of_ne states _ hne

theorem Announced.dormantState_named (h : Announced key states transitions) {kind : EntityKind}
    {entityId : Text} (hkey : key = (kind, entityId)) :
    ((dormantState states kind entityId).2.kind, (dormantState states kind entityId).2.entityId) =
      key := by
  rw [dormantState_snd, ← hkey]
  cases hget : states.get? key with
  | none =>
    rw [hkey]
    rfl
  | some state => exact h.named state hget

theorem Announced.set (h : Announced key states transitions) (kind : EntityKind) (entityId : Text)
    {f : EntityTierState → EntityTierState}
    (hname : ∀ state, ((f state).kind, (f state).entityId) = (state.kind, state.entityId))
    (htier : ∀ state, (f state).effectiveTier = state.effectiveTier) :
    Announced key ((dormantState states kind entityId).1.set (kind, entityId)
      (f (dormantState states kind entityId).2)) transitions := by
  by_cases hkey : key = (kind, entityId)
  · refine ⟨fun state hget => ?_, h.dormant.imp_left fun hdormant state hget => ?_⟩ <;>
      rw [get?_dormantState_set, if_pos hkey, Option.some.injEq] at hget <;> rw [← hget]
    · exact (hname _).trans (h.dormantState_named hkey)
    · rw [htier, dormantState_snd, ← hkey]
      cases hold : states.get? key with
      | none => rfl
      | some state => exact hdormant state hold
  · refine ⟨fun state hget => ?_, h.dormant.imp_left fun hdormant state hget => ?_⟩ <;>
      rw [get?_dormantState_set, if_neg hkey] at hget
    · exact h.named state hget
    · exact hdormant state hget

variable {ops : FloatOps} {cfg : TierSectionConfig} {cycle : Int} {r : ShadowRun}

variable (h : Announced key r.states r.transitions)

include h

/-- A wake is announced under the name of its row. -/
theorem Announced.wakeEntityFromShadow
    (wakeKind : EntityKind) (entityId : Text) (relevance sibling : ℚ) (count : Bool) :
    Announced key
      (wakeEntityFromShadow ops cfg cycle wakeKind entityId relevance sibling count r).states
      (wakeEntityFromShadow ops cfg cycle wakeKind entityId relevance sibling count
        r).transitions := by
  have hcounted : ∀ state : EntityTierState,
      ((if count then bumpShadowHits state else state).kind,
        (if count then bumpShadowHits state else state).entityId) = (state.kind, state.entityId) ∧
      (if count then bumpShadowHits state else state).effectiveTier = state.effectiveTier := by
    intro state
    split
    · exact ⟨rfl, rfl⟩
    · exact ⟨rfl, rfl⟩
  unfold Tiers.wakeEntityFromShadow
  split
  · exact h
  dsimp only
  rcases evaluateFastWake_cases ops (if count then
      bumpShadowHits (dormantState r.states wakeKind entityId).2
      else (dormantState r.states wakeKind entityId).2) cfg cycle relevance sibling with
    heq | ⟨-, -, heq⟩
  · rw [heq]
    exact h.set wakeKind entityId (f := fun state => if count then bumpShadowHits state else state)
      (fun state => (hcounted state).1) fun state => (hcounted state).2
  rw [heq]
  dsimp only
  have hname := (hcounted (dormantState r.states wakeKind entityId).2).1
  by_cases hkey : key = (wakeKind, entityId)
  · refine ⟨fun state hget => ?_, .inr ?_⟩
    · rw [get?_dormantState_set, if_pos hkey, Option.some.injEq] at hget
      rw [← hget]
      exact hname.trans (h.dormantState_named hkey)
    · rw [List.map_append, List.map_singleton]
      refine List.mem_append_right _ (List.mem_singleton.mpr ?_)
      exact (hname.trans (h.dormantState_named hkey)).symm
  · refine ⟨fun state hget => ?_, ?_⟩
    · rw [get?_dormantState_set, if_neg hkey] at hget
      exact h.named state hget
    · rcases h.dormant with hdormant | hmem
      · left
        intro state hget
        rw [get?_dormantState_set, if_neg hkey] at hget
        exact hdormant state hget
      · right
        rw [List.map_append]
        exact List.mem_append_left _ hmem

theorem Announced.recordToolServerShadowScores
    (kind : EntityKind) (entityId : Text) (score : ℚ) (toolsById : ToolsById) :
    Announced key (recordToolServerShadowScores kind entityId score toolsById r).1.states
      (recordToolServerShadowScores kind entityId score toolsById r).1.transitions := by
  unfold Tiers.recordToolServerShadowScores
  split
  · exact h
  split
  · exact h
  split
  · exact h
  · exact h.set kind entityId (f := bumpShadowHits) (fun _ => rfl) fun _ => rfl

theorem Announced.shadowHitStep (kind : EntityKind)
    (hits : List (Text × ℚ)) (toolsById : Option ToolsById) (entityId : Text) :
    Announced key (shadowHitStep ops cfg cycle kind hits toolsById r entityId).states
      (shadowHitStep ops cfg cycle kind hits toolsById r entityId).transitions := by
  have hseen : Announced key ({ r with
      states := (dormantState r.states kind entityId).1.set (kind, entityId)
        (bumpShadowEvaluations (dormantState r.states kind entityId).2) } : ShadowRun).states
      r.transitions :=
    h.set kind entityId (f := bumpShadowEvaluations) (fun _ => rfl) fun _ => rfl
  cases toolsById with
  | none =>
    have hwoken := @Announced.wakeEntityFromShadow key ops cfg cycle
      { r with
        states := (dormantState r.states kind entityId).1.set (kind, entityId)
          (bumpShadowEvaluations (dormantState r.states kind entityId).2) }
      hseen kind entityId (topScore hits entityId) 0 true
    exact hwoken
  | some toolsById =>
    have hscored := Announced.recordToolServerShadowScores (r := { r with
      states := (dormantState r.states kind entityId).1.set (kind, entityId)
        (bumpShadowEvaluations (dormantState r.states kind entityId).2) }) hseen kind entityId
      (topScore hits entityId) toolsById
    unfold Tiers.shadowHitStep
    dsimp only
    split
    · exact hscored
    · exact hscored.wakeEntityFromShadow kind entityId _ _ _

theorem Announced.shadowServerStep (entry : Text × ℚ) :
    Announced key (shadowServerStep ops cfg cycle r entry).states
      (shadowServerStep ops cfg cycle r entry).transitions := by
  unfold Tiers.shadowServerStep
  split
  · exact h
  · exact h.wakeEntityFromShadow _ _ _ _ _

omit h

theorem Announced.foldl {α : Type} {f : ShadowRun → α → ShadowRun}
    (hf : ∀ r a, Announced key r.states r.transitions →
      Announced key (f r a).states (f r a).transitions) (as : List α)
    (h : Announced key r.states r.transitions) :
    Announced key (as.foldl f r).states (as.foldl f r).transitions := by
  induction as generalizing r with
  | nil => exact h
  | cons a as ih => exact ih (hf r a h)

theorem recordShadowHits_announced (setOrder : List Text → List Text) (kind : EntityKind)
    (hits : List (Text × ℚ)) (toolsById : Option ToolsById)
    (hnamed : ∀ state, states.get? key = some state → (state.kind, state.entityId) = key)
    (hdormant : ∀ state, states.get? key = some state → state.effectiveTier = .dormant) :
    Announced key (recordShadowHits ops cfg cycle setOrder kind hits toolsById states).1
      (recordShadowHits ops cfg cycle setOrder kind hits toolsById states).2 := by
  have hstart : Announced key (⟨states, [], [], Dict.empty⟩ : ShadowRun).states
      (⟨states, [], [], Dict.empty⟩ : ShadowRun).transitions := ⟨hnamed, .inl hdormant⟩
  have hhits := fun ids : List Text => Announced.foldl
    (f := Tiers.shadowHitStep ops cfg cycle kind hits toolsById)
    (fun _ a h => h.shadowHitStep kind hits toolsById a) ids hstart
  have hservers := fun ids => Announced.foldl (f := Tiers.shadowServerStep ops cfg cycle)
    (fun _ a h => h.shadowServerStep a)
    ((ids : List Text).foldl (Tiers.shadowHitStep ops cfg cycle kind hits toolsById)
      ⟨states, [], [], Dict.empty⟩).serverWakeScores.entries (hhits ids)
  unfold recordShadowHits
  dsimp only
  generalize setOrder ((hits.filter fun h => decide (0 < h.2)).map Prod.fst).dedup = ids
  have hlast := hservers ids
  refine ⟨fun state hget => ?_, hlast.dormant.imp_left fun hall state hget => ?_⟩ <;>
    rw [Dict.get?_mapVals] at hget <;>
    obtain ⟨before, hbefore, rfl⟩ := Option.map_eq_some_iff.mp hget
  · split
    · exact hlast.named before hbefore
    · exact hlast.named before hbefore
  · split
    · exact hall before hbefore
    · exact hall before hbefore

end

end ClearYourTools.Tiers
