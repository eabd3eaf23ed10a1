import ClearYourTools.Tiers.Proofs.TierClocks

/-!
# Leaving DORMANT, and going back

A dormant row stays dormant until shadow hits wake it behind its cooldown, a use of it is recorded,
or it is removed. After a wake the fast clock does not put it back before its lease has passed.
-/

namespace ClearYourTools.Tiers

open Misc Relation EntityTierState List Option

/-- The row of an entity is there, and is DORMANT. -/
def Manager.DormantAt (m : Manager) (key : EntityKey) : Prop :=
  ∃ state, m.states.get? key = some state ∧ state.effectiveTier = .dormant

/-- The row of an entity is there, and is not DORMANT. -/
def Manager.AwakeAt (m : Manager) (key : EntityKey) : Prop :=
  ∃ state, m.states.get? key = some state ∧ state.effectiveTier ≠ .dormant

instance (m : Manager) (key : EntityKey) : Decidable (m.DormantAt key) :=
  decidable_of_iff ((m.states.get? key).any fun state => state.effectiveTier = .dormant)
    (by simp only [Option.any_eq_true, decide_eq_true_eq, Manager.DormantAt])

instance (m : Manager) (key : EntityKey) : Decidable (m.AwakeAt key) :=
  decidable_of_iff ((m.states.get? key).any fun state => state.effectiveTier ≠ .dormant)
    (by simp only [Option.any_eq_true, decide_eq_true_eq, Manager.AwakeAt])

/-- A step removes the row of an entity: the purge in front of the operation, or the operation. -/
def RowRemoved (env : Env) (key : EntityKey) (step : Step) (m : Manager) : Prop :=
  (step.2.purged step.1 m).states.get? key = none ∨
    (step.2.apply env step.1 m).states.get? key = none

instance (env : Env) (key : EntityKey) (step : Step) (m : Manager) :
    Decidable (RowRemoved env key step m) :=
  inferInstanceAs (Decidable (_ ∨ _))

/-- No step of a run removes the row of an entity. -/
def KeptAlong (env : Env) (key : EntityKey) : List Step → Manager → Prop
  | [], _ => True
  | step :: steps, m =>
    ¬RowRemoved env key step m ∧ KeptAlong env key steps (step.2.apply env step.1 m)

instance decidableKeptAlong (env : Env) (key : EntityKey) :
    ∀ (steps : List Step) (m : Manager), Decidable (KeptAlong env key steps m)
  | [], _ => .isTrue trivial
  | step :: steps, m =>
    have := decidableKeptAlong env key steps (step.2.apply env step.1 m)
    inferInstanceAs (Decidable (_ ∧ _))

/-- The configuration that the shadow hits of an operation wake with. -/
def Op.shadowConfig (call : Call) : Op → Option TierSectionConfig
  | applyShadowToolHits _ _ => some call.config.tool
  | applyShadowSkillHits _ => some call.config.skill
  | _ => none

/-- `evaluate_fast_wake` wakes a row in the shadow hits of a step, in a cycle later than its
cooldown. The counters are those with which the hits reach the row. -/
def WakesRow (env : Env) (step : Step) (cycle : Int) (state : EntityTierState) : Prop :=
  state.sleepCooldownUntilCycle < cycle ∧
    ∃ cfg stats relevance sibling, step.2.shadowConfig step.1 = some cfg ∧
      (evaluateFastWake env.ops { state with stats := stats } cfg cycle relevance sibling).2.isSome =
        true

/-- A use of the entity is recorded in one of the steps. -/
def UsedIn (env : Env) (key : EntityKey) (steps : List Step) : Prop :=
  ∃ step ∈ steps, step.2.RecordsUse env step.1 key

/-- The manager has loaded the row with uses in the current epoch. -/
def Manager.UsedAt (m : Manager) (key : EntityKey) : Prop :=
  ∃ state, m.states.get? key = some state ∧ 0 < state.stats.epochUsed

/-- The shadow hits of a step wake an entity, with a configuration. -/
def WakesIn (env : Env) (key : EntityKey) (step : Step) (m : Manager) (cfg : TierSectionConfig) :
    Prop :=
  step.2.shadowConfig step.1 = some cfg ∧ ¬(step.2.purged step.1 m).AwakeAt key ∧
    (step.2.apply env step.1 m).AwakeAt key

/-- The fast clock at the begin of a request cycle puts an entity to sleep. -/
def SleepsIn (call : Call) (key : EntityKey) (m : Manager) : Prop :=
  m.AwakeAt key ∧ (m.beginRequestCycle call).DormantAt key

section

variable {env : Env} {call : Call} {key : EntityKey} {m : Manager} {op : Op} {step : Step}
  {steps : List Step} {cfg : TierSectionConfig} {powers : Powers} {cycle : Int}
  {state state' : EntityTierState}

theorem Op.powers_wakeConfig (env : Env) (call : Call) (key : EntityKey) (op : Op) :
    (op.powers env call key).wakeConfig = op.shadowConfig call := by
  cases op <;> rfl

theorem Op.powers_uses (h : (op.powers env call key).uses) : op.RecordsUse env call key := by
  cases op <;> exact h

theorem Op.powers_of_shadowConfig (h : op.shadowConfig call = some cfg) :
    (op.powers env call key).newTier = .dormant ∧ ¬(op.powers env call key).uses ∧
      ¬(op.powers env call key).epochs ∧ op ≠ .beginRequestCycle := by
  cases op with
  | applyShadowToolHits hits toolsById => exact ⟨rfl, fun h => h, fun h => h, nofun⟩
  | applyShadowSkillHits hits => exact ⟨rfl, fun h => h, fun h => h, nofun⟩
  | _ => cases h

theorem expireState_stats (nowMs : Int) (state : EntityTierState) :
    (expireState nowMs state).1.stats = state.stats := by
  unfold expireState
  split
  · rfl
  split
  · rfl
  split
  · dsimp only
    split
    · rfl
    · rfl
  · rfl

theorem evaluateFastSleep_stats (state : EntityTierState) (cfg : TierSectionConfig) (cycle : Int)
    (hadSelection hadUse hadShadow : Bool) :
    (evaluateFastSleep state cfg cycle hadSelection hadUse hadShadow).1.stats = state.stats := by
  unfold evaluateFastSleep
  split
  · rfl
  split
  · rfl
  split
  · split
    · rfl
    · rfl
  · rfl

theorem RowChange.epochUsed (h : RowChange env call cycle powers state state')
    (hused : 0 < state'.stats.epochUsed) : 0 < state.stats.epochUsed ∨ powers.uses := by
  cases h with
  | stats hsame => exact .inl (hsame ▸ hused)
  | wake _ =>
    left
    rcases evaluateFastWake_cases env.ops state _ cycle _ _ with heq | ⟨-, -, heq⟩
    · rwa [heq] at hused
    · rwa [heq] at hused
  | useTool huses => exact .inr huses
  | useSkill huses => exact .inr huses
  | expire =>
    rw [expireState_stats] at hused
    exact .inl hused
  | epoch _ => exact absurd hused (lt_irrefl 0)

theorem chain_epochUsed (h : ReflTransGen (RowChange env call cycle powers) state state')
    (hused : 0 < state'.stats.epochUsed) : 0 < state.stats.epochUsed ∨ powers.uses := by
  induction h with
  | refl => exact .inl hused
  | tail _ hchange ih =>
    rcases hchange.epochUsed hused with hbefore | huses
    · exact ih hbefore
    · exact .inr huses

theorem Op.apply_usedAt (h : (op.apply env call m).UsedAt key) :
    m.UsedAt key ∨ op.RecordsUse env call key := by
  obtain ⟨state', hget, hused⟩ := h
  by_cases hop : op = .beginRequestCycle
  · left
    subst hop
    rcases beginRequestCycle_cases call m with heq | ⟨hrows, -⟩
    · rw [apply, heq] at hget
      exact ⟨state', hget, hused⟩
    · rw [apply, hrows] at hget
      obtain ⟨state, hstate, rfl⟩ := map_eq_some_iff.mp hget
      rw [sleepState, evaluateFastSleep_stats] at hused
      exact ⟨state, hstate, hused⟩
  · obtain ⟨state, horigin, hchain⟩ := (op.apply_outcome hop).row state' hget
    rcases chain_epochUsed hchain hused with hbefore | huses
    · rcases horigin with hsome | ⟨-, rfl⟩
      · exact .inl ⟨state, get?_purged hsome, hbefore⟩
      · exact absurd hbefore (lt_irrefl 0)
    · exact .inr (powers_uses huses)

theorem run_usedAt (steps : List Step) (h : (run env steps m).UsedAt key) :
    m.UsedAt key ∨ UsedIn env key steps := by
  induction steps generalizing m with
  | nil => exact .inl h
  | cons step steps ih =>
    rcases ih h with hfirst | ⟨later, hmem, hused⟩
    · exact (Op.apply_usedAt hfirst).imp_right fun hused => ⟨step, mem_cons_self, hused⟩
    · exact .inr ⟨later, mem_cons_of_mem _ hmem, hused⟩

theorem evaluateFastSleep_dormant (hdormant : state.effectiveTier = .dormant)
    (cfg : TierSectionConfig) (cycle : Int) (hadSelection hadUse hadShadow : Bool) :
    (evaluateFastSleep state cfg cycle hadSelection hadUse hadShadow).1 = state := by
  unfold evaluateFastSleep
  rw [if_pos]
  rw [hdormant]
  decide

theorem Op.apply_dormantAt (hm : m.Inv) (hdormant : m.DormantAt key) :
    (op.apply env call m).DormantAt key ∨
      (∃ state, m.states.get? key = some state ∧
        WakesRow env (call, op) m.epoch.wakeCycleId state) ∨
      (op.RecordsUse env call key ∨ m.UsedAt key) ∨ RowRemoved env key (call, op) m := by
  obtain ⟨state, hstate, htier⟩ := hdormant
  by_cases hop : op = .beginRequestCycle
  · left
    subst hop
    rcases beginRequestCycle_cases call m with heq | ⟨hrows, -⟩
    · rw [apply, heq]
      exact ⟨state, hstate, htier⟩
    · refine ⟨state, ?_, htier⟩
      rw [apply, hrows, hstate, map_some, sleepState, evaluateFastSleep_dormant htier]
  · cases hafter : (op.apply env call m).states.get? key with
    | none => exact .inr (.inr (.inr (.inr hafter)))
    | some state' =>
      obtain ⟨start, horigin, hchain⟩ := (op.apply_outcome hop).row state' hafter
      rcases horigin with hsome | ⟨hnone, -⟩
      · obtain rfl := Option.some.inj (hstate.symm.trans (get?_purged hsome))
        rcases chain_of_dormant (hm.get? hstate) htier hchain with hsame | hleaves
        · exact .inl ⟨state', hafter, hsame.effectiveTier.trans htier⟩
        cases hleaves with
        | wake cfg stats relevance sibling hcfg hcooldown hwoken =>
          rw [powers_wakeConfig] at hcfg
          exact .inr (.inl ⟨state, hstate, hcooldown, cfg, stats, relevance, sibling, hcfg, hwoken⟩)
        | use huses => exact .inr (.inr (.inl (.inl (powers_uses huses))))
        | usedInEpoch _ hused => exact .inr (.inr (.inl (.inr ⟨state, hstate, hused⟩)))
      · exact .inr (.inr (.inr (.inl hnone)))

theorem finishRecord_keeps (env : Env) (call : Call) (syncFlush : Bool) (m : Manager) :
    (∀ state, (m.finishRecord env call syncFlush).states.get? key = some state →
        m.states.get? key = some state) ∧
      (m.finishRecord env call syncFlush).cycleShadow = m.cycleShadow := by
  have hreconciled : ∀ m : Manager, ∀ state,
      (m.reconcileEphemeralStates env).states.get? key = some state →
        m.states.get? key = some state := by
    intro m state hget
    rw [Manager.reconcileEphemeralStates, Dict.get?_filter] at hget
    exact (filter_eq_some_iff.mp hget).1
  unfold Manager.finishRecord
  dsimp only
  split
  · unfold Manager.flushPending
    dsimp only
    split
    · exact ⟨hreconciled _, rfl⟩
    · exact ⟨hreconciled _, rfl⟩
  · exact ⟨fun _ h => h, rfl⟩

theorem applyShadowHits_mem_cycleShadow {kind : EntityKind} {hits : List (Text × ℚ)}
    {toolsById : Option ToolsById}
    (hnamed : ∀ state, m.states.get? key = some state → (state.kind, state.entityId) = key)
    (hdormant : ¬m.AwakeAt key)
    (hawake : (m.applyShadowHits env call cfg kind hits toolsById).AwakeAt key) :
    key ∈ (m.applyShadowHits env call cfg kind hits toolsById).cycleShadow := by
  have hannounced : Announced key
      (recordShadowHits env.ops cfg m.epoch.wakeCycleId call.setOrder kind hits toolsById m.states).1
      (recordShadowHits env.ops cfg m.epoch.wakeCycleId call.setOrder kind hits toolsById
        m.states).2 :=
    recordShadowHits_announced call.setOrder kind hits toolsById hnamed
      fun state hget => not_not.mp fun hne => hdormant ⟨state, hget, hne⟩
  obtain ⟨state, hget, hne⟩ := hawake
  unfold Manager.applyShadowHits at hget ⊢
  dsimp only at hget ⊢
  rw [(@finishRecord_keeps key env call false _).2]
  have hwritten := (finishRecord_keeps env call false _).1 state hget
  rcases hannounced.dormant with hnone | hmem
  · exact absurd (hnone state hwritten) hne
  · exact mem_append_left _ hmem

theorem Op.apply_mem_cycleShadow (hm : m.Loaded) (h : WakesIn env key (call, op) m cfg) :
    key ∈ (op.apply env call m).cycleShadow := by
  obtain ⟨hcfg, hbefore, hafter⟩ := h
  have hnamed : ∀ state, (op.purged call m).states.get? key = some state →
      (state.kind, state.entityId) = key := fun state hget => hm.named key state (get?_purged hget)
  cases op with
  | applyShadowToolHits hits toolsById =>
    simp only [apply, Manager.applyShadowToolHits] at hafter ⊢
    split at hafter
    · exact absurd hafter hbefore
    · rename_i hsome
      rw [if_neg hsome]
      exact applyShadowHits_mem_cycleShadow hnamed hbefore hafter
  | applyShadowSkillHits hits =>
    simp only [apply, Manager.applyShadowSkillHits] at hafter ⊢
    split at hafter
    · exact absurd hafter hbefore
    rename_i hactive
    rw [if_neg hactive]
    split at hafter
    · exact absurd hafter hbefore
    · rename_i hsome
      rw [if_neg hsome]
      exact applyShadowHits_mem_cycleShadow hnamed hbefore hafter
  | _ => cases hcfg

/-- The row has a stable tier above DORMANT and the lease, which is over or protects it: a lease that
is not counted, because it ends at zero, is that of a wake in the current cycle. -/
def Leased (key : EntityKey) (lease : Int) (m : Manager) : Prop :=
  lease + 1 ≤ m.epoch.wakeCycleId ∨
    ∃ state, m.states.get? key = some state ∧ state.stableTier ≠ .dormant ∧
      state.wakeLeaseUntilCycle = lease ∧ (0 < lease ∨ key ∈ m.cycleShadow)

theorem WakesIn.leased (hm : m.Loaded) (h : WakesIn env key step m cfg) :
    Leased key (m.epoch.wakeCycleId + cfg.wakeLeaseCycles) (step.2.apply env step.1 m) := by
  obtain ⟨call, op⟩ := step
  have hshadow := Op.apply_mem_cycleShadow hm h
  obtain ⟨hcfg, hbefore, state', hget, hne⟩ := h
  obtain ⟨hnew, huses, hepochs, hop⟩ := @Op.powers_of_shadowConfig env call key op cfg hcfg
  obtain ⟨state, horigin, hchain⟩ := (op.apply_outcome hop).row state' hget
  have hstart : state.Inv ∧ state.effectiveTier = .dormant := by
    rcases horigin with hsome | ⟨-, rfl⟩
    · exact ⟨hm.inv.get? (Op.get?_purged hsome),
        not_not.mp fun hawake => hbefore ⟨state, hsome, hawake⟩⟩
    · exact ⟨init_inv _ _ _, hnew⟩
  rcases chain_of_woken ((Op.powers_wakeConfig env call key op).trans hcfg) huses hepochs hstart.1
    hstart.2 hchain with hsame | ⟨hstable, hlease⟩
  · exact absurd (hsame.effectiveTier.trans hstart.2) hne
  · exact .inr ⟨state', hget, hstable, hlease, .inr hshadow⟩

variable {lease : Int}

theorem sleepState_leased (hlease : state.wakeLeaseUntilCycle = lease)
    (hcycle : m.epoch.wakeCycleId ≤ lease) (hpos : 0 < lease) :
    sleepState m key cfg state = state := by
  unfold sleepState evaluateFastSleep
  split
  · rfl
  · rw [if_pos ⟨by omega, by omega⟩]

theorem sleepState_shadow (hlease : state.wakeLeaseUntilCycle = lease)
    (hpos : ¬0 < lease) (hshadow : key ∈ m.cycleShadow) : sleepState m key cfg state = state := by
  unfold sleepState evaluateFastSleep
  split
  · rfl
  · rw [if_neg (by omega), if_pos (.inr (.inr (.inl (contains_iff_mem.mpr hshadow)))),
      if_neg (by omega)]

theorem Op.apply_leased (hm : m.Loaded) (hkept : ¬RowRemoved env key (call, op) m)
    (h : Leased key lease m) : Leased key lease (op.apply env call m) := by
  by_cases hop : op = .beginRequestCycle
  · subst hop
    rcases beginRequestCycle_cases call m with heq | ⟨hrows, hcycle⟩
    · rw [apply, heq]
      exact h
    by_cases hover : lease + 1 ≤ m.epoch.wakeCycleId + 1
    · left
      rw [apply, hcycle]
      exact hover
    · have hcycle₀ := hm.cycle
      obtain ⟨state, hstate, hstable, hlease, -⟩ := h.resolve_left (by omega)
      refine .inr ⟨state, ?_, hstable, hlease, .inl (by omega)⟩
      rw [apply, hrows, hstate, map_some, sleepState_leased hlease (by omega) (by omega)]
  · have houtcome := @apply_outcome env call key m op hop
    rcases h with hover | ⟨state, hstate, hstable, hlease, hguard⟩
    · left
      rw [houtcome.cycle, purged_epoch]
      exact hover
    obtain ⟨hpurged, hafter⟩ := not_or.mp hkept
    obtain ⟨state', hget⟩ := ne_none_iff_exists'.mp hafter
    obtain ⟨start, horigin, hchain⟩ := houtcome.row state' hget
    have hsome := horigin.resolve_right fun hnew => hpurged hnew.1
    obtain rfl := Option.some.inj (hstate.symm.trans (get?_purged hsome))
    obtain ⟨hstable', hlease'⟩ := chain_awake (hm.inv.get? hstate) hstable hchain
    refine .inr ⟨state', hget, hstable', hlease'.trans hlease, hguard.imp_right fun hmem => ?_⟩
    exact houtcome.shadow key (by rwa [purged_cycleShadow])

theorem run_leased (steps : List Step) (hm : m.Loaded) (hkept : KeptAlong env key steps m)
    (h : Leased key lease m) : Leased key lease (run env steps m) := by
  induction steps generalizing m with
  | nil => exact h
  | cons step steps ih =>
    exact ih (step.2.apply_loaded hm) hkept.2 (Op.apply_leased hm hkept.1 h)

theorem Leased.of_sleepsIn (h : Leased key lease m) (hsleeps : SleepsIn call key m) :
    lease + 1 ≤ m.epoch.wakeCycleId := by
  obtain ⟨⟨state, hstate, hawake⟩, state', hget, hdormant⟩ := hsleeps
  rcases h with hover | ⟨leased, hleased, -, hlease, hguard⟩
  · exact hover
  obtain rfl := Option.some.inj (hstate.symm.trans hleased)
  rcases beginRequestCycle_cases call m with heq | ⟨hrows, -⟩
  · rw [heq, hstate, some.injEq] at hget
    exact absurd (hget ▸ hdormant) hawake
  rw [hrows, hstate, map_some, some.injEq] at hget
  by_contra hearly
  have hsame : sleepState m key call.config.tool state = state := by
    by_cases hpos : 0 < lease
    · exact sleepState_leased hlease (by omega) hpos
    · exact sleepState_shadow hlease hpos (hguard.resolve_left hpos)
  exact hawake ((congrArg effectiveTier (hget.symm.trans hsame)).symm.trans hdormant)

end

/-- The slow clock moves by one level and stays above DORMANT. In every run, a step leaves a dormant
row dormant, wakes it behind its cooldown, comes with a recorded use of it, or removes it; and the
fast clock puts a woken row that is not removed to sleep behind the end of its lease only. -/
theorem clocks_respect_dormant (env : Env) (key : EntityKey) {m : Manager} (hm : m.Loaded) :
    (∀ ops cfg states t, t ∈ (evaluateSlowClock ops cfg states).2 →
      ∃ key state state', states.get? key = some state ∧
        (evaluateSlowClock ops cfg states).1.get? key = some state' ∧
        evaluateSlowClockState ops cfg state = (state', some t) ∧
        OneLevel state.stableTier state'.stableTier) ∧
    (∀ steps step, (run env steps m).DormantAt key →
      (run env (steps ++ [step]) m).DormantAt key ∨
        (∃ state, (run env steps m).states.get? key = some state ∧
          WakesRow env step (run env steps m).epoch.wakeCycleId state) ∨
        (UsedIn env key (steps ++ [step]) ∨ m.UsedAt key) ∨
        RowRemoved env key step (run env steps m)) ∧
    ∀ before step after call cfg, WakesIn env key step (run env before m) cfg →
      KeptAlong env key after (run env (before ++ [step]) m) →
      SleepsIn call key (run env (before ++ [step] ++ after) m) →
      (run env before m).epoch.wakeCycleId + cfg.wakeLeaseCycles + 1 ≤
        (run env (before ++ [step] ++ after) m).epoch.wakeCycleId := by
  have happend : ∀ (before after : List Step) (m : Manager),
      run env (before ++ after) m = run env after (run env before m) :=
    fun before after m => foldl_append
  refine ⟨fun ops cfg states t ht => evaluateSlowClock_oneLevel ht, ?_, ?_⟩
  · intro steps step hdormant
    rw [happend]
    rcases @Op.apply_dormantAt env step.1 key _ step.2 (run_loaded env steps hm).inv hdormant with hkept | hwoken | hused | hremoved
    · exact .inl hkept
    · exact .inr (.inl hwoken)
    · refine .inr (.inr (.inl ?_))
      rcases hused with hrecorded | hcounted
      · exact .inl ⟨step, mem_append_right _ (mem_singleton.mpr rfl), hrecorded⟩
      · rcases run_usedAt steps hcounted with hloaded | ⟨earlier, hmem, hrecorded⟩
        · exact .inr hloaded
        · exact .inl ⟨earlier, mem_append_left _ hmem, hrecorded⟩
    · exact .inr (.inr (.inr hremoved))
  · intro before step after call cfg hwakes hkept hsleeps
    have hbefore := run_loaded env before hm
    rw [happend] at hkept
    rw [happend, happend] at hsleeps ⊢
    exact (run_leased after (step.2.apply_loaded hbefore) hkept
      (hwakes.leased hbefore)).of_sleepsIn hsleeps

def sampleKey : EntityKey := (.tool, canonicalToolEntityId (toolEntityId sampleTool))

def nextCycle : List Step :=
  [(sampleCall .default 0, .endRequestCycle), (sampleCall .default 0, .beginRequestCycle)]

/-- A tool is offered, is not used in its epoch, and is not selected in the next request cycle. -/
def stepsToDormant : List Step :=
  [(sampleCall .default 0, .recordToolCandidates [sampleTool]), (sampleCall .default 0, .runEpoch),
    (sampleCall .default 0, .beginRequestCycle)] ++ nextCycle

/-- The dormant tool is the best shadow hit. -/
def wakingStep : Step := (sampleCall .default 0, .applyShadowToolHits [(sampleKey.2, 100)] none)

/-- Four request cycles, up to the begin of the last one. -/
def stepsInLease : List Step :=
  nextCycle ++ nextCycle ++ nextCycle ++ [(sampleCall .default 0, .endRequestCycle)]

/-- The source of the tool is switched off, and on again. -/
def stepsOffAndOn : List Step :=
  [({ sampleCall .default 0 with allowedSources := ∅ }, .purgeInactiveToolSources),
    (sampleCall .default 0, .recordToolCandidates [sampleTool])]

/-- The tool is DORMANT until its cooldown has passed, is woken in the fifth cycle, and goes back in
the eighth one. -/
theorem clocks_respect_dormant_sample :
    (run sampleEnv (stepsToDormant ++ nextCycle ++ nextCycle ++ nextCycle ++ [wakingStep] ++
        stepsInLease ++ [(sampleCall .default 0, .beginRequestCycle)])
        (Manager.onEmptyStore ⟨0, 0, 0, 0⟩)).DormantAt sampleKey ∧
      (run sampleEnv (stepsToDormant ++ nextCycle ++ nextCycle ++ nextCycle)
          (Manager.onEmptyStore ⟨0, 0, 0, 0⟩)).epoch.wakeCycleId +
          Config.default.tool.wakeLeaseCycles + 1 ≤
        (run sampleEnv (stepsToDormant ++ nextCycle ++ nextCycle ++ nextCycle ++ [wakingStep] ++
          stepsInLease) (Manager.onEmptyStore ⟨0, 0, 0, 0⟩)).epoch.wakeCycleId := by
  have hwakes : WakesIn sampleEnv sampleKey wakingStep
      (run sampleEnv (stepsToDormant ++ nextCycle ++ nextCycle ++ nextCycle)
        (Manager.onEmptyStore ⟨0, 0, 0, 0⟩)) Config.default.tool :=
    ⟨rfl, by decide +kernel, by decide +kernel⟩
  exact ⟨by decide +kernel, (clocks_respect_dormant sampleEnv sampleKey
    (Manager.onEmptyStore_loaded (le_refl 0))).2.2 _ wakingStep stepsInLease (sampleCall .default 0)
      Config.default.tool hwakes (by decide +kernel) ⟨by decide +kernel, by decide +kernel⟩⟩

/-- A tool whose source was off in between leaves DORMANT without a wake and without a use. -/
theorem readded_tool_leaves_dormant :
    ¬∀ steps later : List Step,
      (run sampleEnv steps (Manager.onEmptyStore ⟨0, 0, 0, 0⟩)).DormantAt sampleKey →
      (run sampleEnv (steps ++ later) (Manager.onEmptyStore ⟨0, 0, 0, 0⟩)).AwakeAt sampleKey →
      (∃ step ∈ later, (step.2.shadowConfig step.1).isSome = true) ∨
        UsedIn sampleEnv sampleKey (steps ++ later) := by
  intro h
  rcases h stepsToDormant stepsOffAndOn (by decide +kernel) (by decide +kernel) with
    ⟨step, hmem, hshadow⟩ | ⟨step, hmem, hused⟩
  · simp only [stepsOffAndOn, mem_cons, not_mem_nil, or_false] at hmem
    rcases hmem with rfl | rfl <;> cases hshadow
  · simp only [stepsToDormant, nextCycle, stepsOffAndOn, List.cons_append, nil_append,
      mem_cons, not_mem_nil, or_false] at hmem
    rcases hmem with rfl | rfl | rfl | rfl | rfl | rfl | rfl <;> exact hused

end ClearYourTools.Tiers
