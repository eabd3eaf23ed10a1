import ClearYourTools.Executor.Proofs.GateSafety

/-!
# Recovery from the flapping gate

A gated connection is released after enough healthy updates when its window can hold the samples
that a release asks for and the penalties are finite.
-/

namespace ClearYourTools.Executor

open Misc List Option
open List (replicate)

/-- Every penalty is a number of seconds: the cap is one, or all its parts are. -/
def PenaltyBounded (policy : FlappingPolicy) : Prop :=
  policy.maxQuarantineSeconds ≠ .posInf ∨
    (policy.baseQuarantineSeconds ≠ .posInf ∧ policy.perDegradedSeconds ≠ .posInf ∧
      policy.perTransitionSeconds ≠ .posInf ∧ policy.perEpisodeSeconds ≠ .posInf)

/-- A value that `max(0.0, x)` can have. -/
def Seconds (x : PyFloat) : Prop := (∃ q, x = .num q) ∨ x = .posInf

theorem seconds_secondsAtLeastZero (numerals : Numerals) (value : ConfigValue) (default : ℚ) :
    Seconds (secondsAtLeastZero numerals value default) := by
  simp only [secondsAtLeastZero, PyFloat.max]
  split
  · rename_i hlt
    cases hx : coerceFloat numerals value default with
    | num q => exact .inl ⟨q, rfl⟩
    | posInf => exact .inr rfl
    | negInf =>
      rw [hx] at hlt
      cases hlt
    | nan =>
      rw [hx] at hlt
      cases hlt
  · exact .inl ⟨0, rfl⟩

structure PolicySeconds (policy : FlappingPolicy) : Prop where
  base : Seconds policy.baseQuarantineSeconds
  perDegraded : Seconds policy.perDegradedSeconds
  perTransition : Seconds policy.perTransitionSeconds
  maxQuarantine : Seconds policy.maxQuarantineSeconds
  perEpisode : Seconds policy.perEpisodeSeconds

/-- What the bounds of `flapping_policy_from_config` give. -/
structure PolicyBounds (policy : FlappingPolicy) : Prop where
  windowSize : 2 ≤ policy.windowSize
  minDegraded : 1 ≤ policy.minDegraded
  recovery : 1 ≤ policy.recoveryHealthySamples
  seconds : PolicySeconds policy

theorem flappingPolicyFromConfig_bounds {numerals : Numerals} {raw : Option RawPolicy}
    {policy : FlappingPolicy} (h : flappingPolicyFromConfig numerals raw = some policy) :
    PolicyBounds policy := by
  have hrecovery := flappingPolicyFromConfig_recovery h
  cases raw with
  | none =>
    obtain rfl := Option.some.inj h
    exact ⟨by decide, by decide, hrecovery,
      ⟨.inl ⟨_, rfl⟩, .inl ⟨_, rfl⟩, .inl ⟨_, rfl⟩, .inl ⟨_, rfl⟩, .inl ⟨_, rfl⟩⟩⟩
  | some raw =>
    simp only [flappingPolicyFromConfig, bind_eq_bind, bind_eq_some_iff,
      Option.pure_def, some.injEq] at h
    obtain ⟨_, hwindow, _, hdegraded, _, _, _, _, rfl⟩ := h
    refine ⟨countAtLeast_le hwindow, countAtLeast_le hdegraded, hrecovery, ?_⟩
    constructor <;> exact seconds_secondsAtLeastZero _ _ _

/-- A float that is a number. -/
def IsNum (x : PyFloat) : Prop := ∃ q, x = .num q

variable {x : PyFloat}

theorem Seconds.isNum_iff (h : Seconds x) : x ≠ .negInf ∧ (IsNum x ↔ x ≠ .posInf) := by
  rcases h with ⟨q, rfl⟩ | rfl <;> simp [IsNum]

theorem isNum_natMul (hx : x ≠ .negInf) (n : ℕ) :
    PyFloat.natMul n x ≠ .negInf ∧ (IsNum (PyFloat.natMul n x) ↔ IsNum x) := by
  cases x with
  | num q => simp [PyFloat.natMul, IsNum]
  | posInf => by_cases hn : n = 0 <;> simp [PyFloat.natMul, IsNum, hn]
  | negInf => exact absurd rfl hx
  | nan => simp [PyFloat.natMul, IsNum]

theorem isNum_add {y : PyFloat} (hx : x ≠ .negInf) (hy : y ≠ .negInf) :
    x.add y ≠ .negInf ∧ (IsNum (x.add y) ↔ IsNum x ∧ IsNum y) := by
  cases x <;> cases y <;> simp_all [PyFloat.add, IsNum]

theorem min_of_seconds {cap : PyFloat} (hcap : Seconds cap) (hx : x ≠ .negInf) :
    (cap ≠ .posInf ∨ IsNum x → IsNum (PyFloat.min cap x)) ∧
      (cap = .posInf → ¬ IsNum x → PyFloat.min cap x = .posInf) := by
  rcases hcap with ⟨q, rfl⟩ | rfl
  · refine ⟨fun _ => ?_, fun hnot => by cases hnot⟩
    simp only [PyFloat.min]
    split
    · rename_i hlt
      cases x with
      | num p => exact ⟨p, rfl⟩
      | negInf => exact absurd rfl hx
      | posInf => cases hlt
      | nan => cases hlt
    · exact ⟨q, rfl⟩
  · constructor
    · rintro (hnot | ⟨q, rfl⟩)
      · exact absurd rfl hnot
      · exact ⟨q, rfl⟩
    · intro _ hnum
      cases x with
      | num q => exact absurd ⟨q, rfl⟩ hnum
      | negInf => exact absurd rfl hx
      | posInf => rfl
      | nan => rfl

/-- The penalty is a number when the policy bounds it, and infinite otherwise. -/
theorem computePenaltySeconds_cases {policy : FlappingPolicy} (h : PolicySeconds policy)
    (history : List Text) (flapEpisodes : ℕ) :
    (PenaltyBounded policy → IsNum (computePenaltySeconds policy history flapEpisodes)) ∧
      (¬ PenaltyBounded policy → computePenaltySeconds policy history flapEpisodes = .posInf) := by
  obtain ⟨hbase, hbasenum⟩ := h.base.isNum_iff
  obtain ⟨hdegraded, hdegradednum⟩ := h.perDegraded.isNum_iff
  obtain ⟨htransition, htransitionnum⟩ := h.perTransition.isNum_iff
  obtain ⟨hepisode, hepisodenum⟩ := h.perEpisode.isNum_iff
  have hdegradeds := isNum_natMul hdegraded (degradedCount history)
  have htransitions := isNum_natMul htransition (transitionCount history)
  have hepisodes := isNum_natMul hepisode (flapEpisodes - 1)
  have hsum₁ := isNum_add hbase hdegradeds.1
  have hsum₂ := isNum_add hsum₁.1 htransitions.1
  have hsum := isNum_add hsum₂.1 hepisodes.1
  rw [hsum₂.2, hsum₁.2, hdegradeds.2, htransitions.2, hepisodes.2, hbasenum, hdegradednum,
    htransitionnum, hepisodenum] at hsum
  obtain ⟨hbounded, hunbounded⟩ := min_of_seconds h.maxQuarantine hsum.1
  simp only [computePenaltySeconds, PenaltyBounded]
  constructor
  · rintro (hcap | ⟨h₁, h₂, h₃, h₄⟩)
    · exact hbounded (.inl hcap)
    · exact hbounded (.inr (hsum.2.mpr ⟨⟨⟨h₁, h₂⟩, h₃⟩, h₄⟩))
  · intro hnot
    rw [not_or, not_not] at hnot
    apply hunbounded hnot.1
    intro hnum
    obtain ⟨⟨⟨h₁, h₂⟩, h₃⟩, h₄⟩ := hsum.2.mp hnum
    exact hnot.2 ⟨h₁, h₂, h₃, h₄⟩

/-- The invariant of a connection's state under a policy: the window has its size, an ungated
connection has no quarantine, and a gated one has a finite quarantine exactly when penalties
are finite. -/
structure WindowInv (policy : FlappingPolicy) (state : ConnectionFlapState) : Prop where
  maxlen : state.statusHistory.maxlen = policy.windowSize
  length_le : state.statusHistory.items.length ≤ policy.windowSize
  bounded : PenaltyBounded policy → IsNum state.quarantineUntil
  unbounded : ¬ PenaltyBounded policy → state.quarantineUntil =
    if state.gated then .posInf else .num 0

variable {policy : FlappingPolicy}

theorem init_windowInv (policy : FlappingPolicy) : WindowInv policy (.init policy) where
  maxlen := rfl
  length_le := Nat.zero_le _
  bounded := fun _ => ⟨0, rfl⟩
  unbounded := fun _ => rfl

variable {state : ConnectionFlapState}

theorem recordSample_windowInv (status : Text) (h : WindowInv policy state) :
    WindowInv policy (recordSample status state) where
  maxlen := h.maxlen
  length_le := by
    have hmaxlen := h.maxlen
    simp only [recordSample, Deque.append, length_drop, length_append, length_singleton]
    omega
  bounded := h.bounded
  unbounded := h.unbounded

theorem gate_windowInv (hseconds : PolicySeconds policy) (now : ℚ) (h : WindowInv policy state) :
    WindowInv policy (gate policy now state) where
  maxlen := h.maxlen
  length_le := h.length_le
  bounded := by
    intro hbounded
    obtain ⟨q, hq⟩ := h.bounded hbounded
    obtain ⟨penalty, hpenalty⟩ := (computePenaltySeconds_cases hseconds
      state.statusHistory.items (if state.gated then state.flapEpisodes + 1 else 1)).1 hbounded
    simp only [gate, hq, hpenalty, PyFloat.add, PyFloat.max]
    split <;> exact ⟨_, rfl⟩
  unbounded := by
    intro hnot
    have hquarantine := h.unbounded hnot
    have hpenalty := (computePenaltySeconds_cases hseconds
      state.statusHistory.items (if state.gated then state.flapEpisodes + 1 else 1)).2 hnot
    simp only [gate, hpenalty, hquarantine, if_true]
    split <;> rfl

theorem updateConnection_windowInv (hseconds : PolicySeconds policy) (now : ℚ) (status : Text)
    (h : WindowInv policy state) : WindowInv policy (updateConnection policy now status state) := by
  have hrec := recordSample_windowInv status h
  rcases updateConnection_cases policy now status state with heq | ⟨-, -, heq⟩ | heq <;> rw [heq]
  · exact gate_windowInv hseconds now hrec
  · exact ⟨hrec.maxlen, Nat.zero_le _, fun _ => ⟨0, rfl⟩, fun _ => rfl⟩
  · exact hrec

/-- The window can hold the samples that a release asks for, and penalties are finite. -/
def CanRecover (policy : FlappingPolicy) : Prop :=
  policy.recoveryHealthySamples ≤ policy.windowSize ∧ PenaltyBounded policy

theorem canRelease_eq_false (h : WindowInv policy state) (hgated : state.gated = true)
    (hnot : ¬ CanRecover policy) (now : ℚ) : canRelease policy now state = false := by
  rw [CanRecover, not_and_or] at hnot
  rcases hnot with hwindow | hunbounded
  · have hlength := h.length_le
    simp only [canRelease]
    split
    · rfl
    · split
      · rfl
      · rw [if_pos (by omega)]
  · have hquarantine := h.unbounded hunbounded
    rw [hgated, if_pos rfl] at hquarantine
    simp only [canRelease, hquarantine, PyFloat.lt, if_true]

/-- A gated connection under the invariant. -/
def Stuck (policy : FlappingPolicy) (state : ConnectionFlapState) : Prop :=
  WindowInv policy state ∧ state.gated = true

theorem keyStep_stuck (hseconds : PolicySeconds policy) (hnot : ¬ CanRecover policy) (now : ℚ)
    (seen : Option Text) (h : Stuck policy state) :
    ∃ after, keyStep policy now seen (some state) = some after ∧ Stuck policy after := by
  obtain ⟨hinv, hgated⟩ := h
  cases seen with
  | none => exact ⟨state, keyStep_unlisted now hgated, hinv, hgated⟩
  | some status =>
    refine ⟨_, rfl, updateConnection_windowInv hseconds now status hinv, ?_⟩
    rw [getD_some]
    rcases updateConnection_cases policy now status state with heq | ⟨-, hrelease, -⟩ | heq
    · rw [heq, gate]
    · rw [canRelease_eq_false (recordSample_windowInv status hinv) hgated hnot] at hrelease
      cases hrelease
    · rw [heq]
      exact hgated

theorem runUpdates_keeps {P : Option ConnectionFlapState → Prop} {slug : Text}
    {key : ConnectionKey} (henabled : policy.enabled = true)
    (hstep : ∀ now seen state, P state → P (keyStep policy now seen state)) (us : List Update)
    {states : FlappingStates} (h : P (stateOf states slug key)) :
    P (stateOf (runUpdates policy us states) slug key) := by
  induction us generalizing states with
  | nil => exact h
  | cons u us ih =>
    rw [runUpdates, foldl_cons]
    apply ih
    rw [stateOf_update henabled]
    split
    · exact hstep _ _ _ h
    · exact h

variable {slug : Text} {key : ConnectionKey}

theorem runUpdates_windowInv (hseconds : PolicySeconds policy) (henabled : policy.enabled = true)
    (us : List Update) :
    ∀ state ∈ stateOf (runUpdates policy us Dict.empty) slug key, WindowInv policy state := by
  apply @runUpdates_keeps policy (fun state => ∀ s ∈ state, WindowInv policy s) slug key henabled
  · intro now seen state hinv after hafter
    cases seen with
    | none => exact hinv after (filter_eq_some_iff.mp hafter).1
    | some status =>
      obtain rfl := Option.some.inj hafter
      apply updateConnection_windowInv hseconds
      cases state with
      | none => exact init_windowInv policy
      | some state => exact hinv state rfl
  · intro s hs
    cases hs

variable {states : FlappingStates}

theorem gated_forever (hseconds : PolicySeconds policy) (henabled : policy.enabled = true)
    (hnot : ¬ CanRecover policy) (h : stateOf states slug key = some state)
    (hstuck : Stuck policy state) (us : List Update) (now : ℚ) :
    key ∈ gatedConnections policy slug now (runUpdates policy us states) := by
  have hkeeps := @runUpdates_keeps policy (fun s => ∃ after, s = some after ∧ Stuck policy after)
    slug key henabled (by
      rintro now seen _ ⟨before, rfl, hbefore⟩
      exact keyStep_stuck hseconds hnot now seen hbefore) us states ⟨state, h, hstuck⟩
  obtain ⟨after, hafter, hinv, hgated⟩ := hkeeps
  simp only [gatedConnections, henabled, not_true_eq_false, if_false]
  rw [Dict.mem_keys_iff]
  refine ⟨after, ?_⟩
  rw [stateOf] at hafter
  rw [Dict.get?_filter, hafter]
  simp [Option.filter, hgated, canRelease_eq_false hinv hgated hnot]

theorem isFlapping_of_healthy (hdegraded : 1 ≤ policy.minDegraded) {history : List Text}
    (h : ∀ s ∈ history, s = healthyStatus) : isFlapping policy history = false := by
  have hcount : degradedCount history = 0 := by
    rw [degradedCount, countP_eq_zero]
    intro s hs
    simp [h s hs]
  simp only [isFlapping, hcount]
  split
  · rfl
  · rw [if_pos (by omega)]

/-- How far a connection has come after `k` healthy samples: still gated, with its last `k`
samples healthy and all but the first of them counted, or released and healthy since. -/
structure Recovering (policy : FlappingPolicy) (k : ℕ) (state : ConnectionFlapState) : Prop where
  inv : WindowInv policy state
  gated : state.gated = true → k ≤ state.consecutiveHealthy + 1 ∧ ∃ old,
    state.statusHistory.items = old ++ List.replicate (min k policy.windowSize) healthyStatus
  ungated : state.gated = false → ∀ s ∈ state.statusHistory.items, s = healthyStatus

theorem init_recovering (policy : FlappingPolicy) (k : ℕ) : Recovering policy k (.init policy) where
  inv := init_windowInv policy
  gated := fun hgated => by cases hgated
  ungated := fun _ s hs => by cases hs

variable {k : ℕ}

theorem append_healthy {d : Deque} (hlength : d.items.length ≤ d.maxlen) {old : List Text}
    (h : d.items = old ++ replicate (min k d.maxlen) healthyStatus) :
    ∃ old', (d.append healthyStatus).items =
      old' ++ replicate (min (k + 1) d.maxlen) healthyStatus := by
  refine ⟨old.drop (d.items.length + 1 - d.maxlen), ?_⟩
  have hsplit := congrArg List.length h
  rw [length_append, length_replicate] at hsplit
  have hitems : d.items ++ [healthyStatus] =
      old ++ replicate (min k d.maxlen + 1) healthyStatus := by
    rw [h, List.append_assoc, replicate_succ']
  simp only [Deque.append]
  rw [hitems, drop_append, drop_replicate]
  congr 2
  omega

theorem activeFlapping_eq_false {old : List Text} (hk : 2 ≤ k) :
    activeFlapping policy healthyStatus (old ++ replicate k healthyStatus) = false := by
  have hlength : 2 ≤ (old ++ replicate k healthyStatus).length := by
    rw [length_append, length_replicate]
    omega
  have hprevious : (old ++ replicate k healthyStatus)[
      (old ++ replicate k healthyStatus).length - 2]? = some healthyStatus := by
    rw [length_append, length_replicate, getElem?_append_right (by omega),
      getElem?_replicate, if_pos (by omega)]
  simp only [activeFlapping, if_pos hlength, hprevious]
  simp

theorem recordSample_recovering (h : Recovering policy k state) :
    WindowInv policy (recordSample healthyStatus state) ∧
      (state.gated = true → k ≤ state.consecutiveHealthy + 1 ∧ ∃ old,
        (recordSample healthyStatus state).statusHistory.items =
          old ++ replicate (min (k + 1) policy.windowSize) healthyStatus) ∧
      (state.gated = false →
        ∀ s ∈ (recordSample healthyStatus state).statusHistory.items, s = healthyStatus) := by
  have hinv := recordSample_windowInv healthyStatus h.inv
  refine ⟨hinv, ?_, ?_⟩
  · intro hgated
    obtain ⟨hcount, old, hold⟩ := h.gated hgated
    refine ⟨hcount, ?_⟩
    rw [← h.inv.maxlen] at hold ⊢
    apply append_healthy _ hold
    rw [h.inv.maxlen]
    exact h.inv.length_le
  · intro hgated s hs
    simp only [recordSample, Deque.append] at hs
    rcases mem_append.mp (mem_of_mem_drop hs) with hs | hs
    · exact h.ungated hgated s hs
    · exact mem_singleton.mp hs

section

variable (hbounds : PolicyBounds policy)
include hbounds

theorem updateConnection_recovering (now : ℚ) (h : Recovering policy k state) :
    Recovering policy (k + 1) (updateConnection policy now healthyStatus state) := by
  have hinv := updateConnection_windowInv hbounds.seconds now healthyStatus h.inv
  obtain ⟨-, hgatedrec, hungatedrec⟩ := recordSample_recovering h
  have hcounted : (recordSample healthyStatus state).consecutiveHealthy =
      state.consecutiveHealthy + 1 := by
    simp [recordSample]
  cases hgated : state.gated with
  | true =>
    obtain ⟨hcount, old, hold⟩ := hgatedrec hgated
    have hrest : Recovering policy (k + 1) (recordSample healthyStatus state) := by
      refine ⟨recordSample_windowInv healthyStatus h.inv, fun _ => ⟨by omega, old, hold⟩, ?_⟩
      intro hnot
      rw [recordSample, hgated] at hnot
      cases hnot
    rw [updateConnection] at hinv ⊢
    split at hinv
    · rename_i hactive
      -- the window only flaps at the first healthy sample
      have hk : k = 0 := by
        by_contra hne
        have htwo : 2 ≤ min (k + 1) policy.windowSize := by
          have hwindow := hbounds.windowSize
          omega
        rw [hold, activeFlapping_eq_false htwo] at hactive
        cases hactive
      rw [if_pos hactive]
      refine ⟨hinv, fun _ => ⟨by omega, old, hold⟩, fun hnot => by cases hnot⟩
    · rename_i hactive
      rw [if_neg hactive]
      split at hinv
      · rename_i hrelease
        rw [if_pos hrelease]
        exact ⟨hinv, (fun hnot => by cases hnot), (fun _ s hs => by cases hs)⟩
      · rename_i hrelease
        rw [if_neg hrelease]
        exact hrest
  | false =>
    have hhealthy := hungatedrec hgated
    have hflapping : activeFlapping policy healthyStatus
        (recordSample healthyStatus state).statusHistory.items = false := by
      rw [activeFlapping, isFlapping_of_healthy hbounds.minDegraded hhealthy, Bool.false_and]
    have hstill : (recordSample healthyStatus state).gated = false := hgated
    have heq : updateConnection policy now healthyStatus state =
        recordSample healthyStatus state := by
      simp only [updateConnection, hflapping, hstill]
      rfl
    rw [heq]
    refine ⟨recordSample_windowInv healthyStatus h.inv, ?_, fun _ => hhealthy⟩
    intro hnot
    rw [hstill] at hnot
    cases hnot

theorem updateConnection_released (hwindow : policy.recoveryHealthySamples ≤ policy.windowSize)
    {now : ℚ} (h : Recovering policy policy.recoveryHealthySamples state)
    (hover : state.gated = true → PyFloat.lt (.num now) state.quarantineUntil = false) :
    (updateConnection policy now healthyStatus state).gated = false := by
  have hrecovery := hbounds.recovery
  have hnext := updateConnection_recovering hbounds now h
  obtain ⟨hinv, hgatedrec, -⟩ := recordSample_recovering h
  cases hgated : state.gated with
  | true =>
    obtain ⟨hcount, old, hold⟩ := hgatedrec hgated
    have hlength : (recordSample healthyStatus state).statusHistory.items.length =
        old.length + min (policy.recoveryHealthySamples + 1) policy.windowSize := by
      rw [hold, length_append, length_replicate]
    have htwo : 2 ≤ min (policy.recoveryHealthySamples + 1) policy.windowSize := by
      have hsize := hbounds.windowSize
      omega
    have hactive : activeFlapping policy healthyStatus
        (recordSample healthyStatus state).statusHistory.items = false := by
      rw [hold, activeFlapping_eq_false htwo]
    have hrecent : isFlapping policy
        ((recordSample healthyStatus state).statusHistory.items.drop
          ((recordSample healthyStatus state).statusHistory.items.length -
            policy.recoveryHealthySamples)) = false := by
      apply isFlapping_of_healthy hbounds.minDegraded
      intro s hs
      rw [hlength, hold, drop_append, drop_eq_nil_of_le (by omega), nil_append] at hs
      exact eq_of_mem_replicate (mem_of_mem_drop hs)
    have hcounted : ¬ (recordSample healthyStatus state).consecutiveHealthy <
        policy.recoveryHealthySamples := by
      simp only [recordSample, if_true]
      omega
    have hlong : ¬ (recordSample healthyStatus state).statusHistory.items.length <
        policy.recoveryHealthySamples := by
      omega
    have hquarantine : PyFloat.lt (.num now)
        (recordSample healthyStatus state).quarantineUntil = false := hover hgated
    have hrelease : canRelease policy now (recordSample healthyStatus state) = true := by
      simp only [canRelease, hquarantine, if_neg hcounted, if_neg hlong, hrecent]
      rfl
    have hstill : (recordSample healthyStatus state).gated = true := hgated
    simp only [updateConnection, hactive, hstill, hrelease]
    rfl
  | false =>
    rcases updateConnection_cases policy now healthyStatus state with heq | ⟨hwas, -, -⟩ | heq
    · -- a released connection is not gated by healthy samples
      cases hafter : (updateConnection policy now healthyStatus state).gated with
      | false => rfl
      | true =>
        have hzero : (updateConnection policy now healthyStatus state).consecutiveHealthy = 0 := by
          rw [heq]
          rfl
        have hcount := (hnext.gated hafter).1
        omega
    · rw [hgated] at hwas
      cases hwas
    · rw [heq]
      exact hgated

theorem runUpdates_recovering (henabled : policy.enabled = true)
    (h : ∀ state ∈ stateOf states slug key, Recovering policy 0 state) (us : List Update)
    (hhealthy : samplesOf slug key us = replicate k healthyStatus) :
    ∀ state ∈ stateOf (runUpdates policy us states) slug key, Recovering policy k state := by
  induction us using List.reverseRecOn generalizing k with
  | nil =>
    have hk : k = 0 := by
      have hlength := congrArg List.length hhealthy
      simpa [samplesOf] using hlength.symm
    subst hk
    exact h
  | append_singleton us u ih =>
    rw [samplesOf_append_singleton] at hhealthy
    have hsplit := (append_eq_replicate_iff.mp hhealthy)
    obtain ⟨hlength, hbefore, hlast⟩ := hsplit
    have hrecovering := ih hbefore
    rw [runUpdates_append]
    have hstep : stateOf (updateFlappingStates policy u.slug u.now u.connections
        (runUpdates policy us states)) slug key = _ := stateOf_update henabled u _
    rw [runUpdates, foldl_cons, foldl_nil, hstep]
    cases hseen : u.statusOf slug key with
    | none =>
      rw [hseen, toList_none, length_nil, Nat.add_zero] at hlength
      rw [hlength] at hrecovering
      intro state hstate
      split at hstate
      · exact hrecovering state (filter_eq_some_iff.mp hstate).1
      · exact hrecovering state hstate
    | some status =>
      have hslug : u.slug = slug := by
        by_contra hne
        rw [Update.statusOf, if_neg hne] at hseen
        cases hseen
      rw [hseen, toList_some, length_singleton] at hlength
      rw [hseen, toList_some, length_singleton, replicate_one, List.cons.injEq] at hlast
      rw [if_pos hslug, hlast.1, ← hlength]
      intro state hstate
      obtain rfl := Option.some.inj hstate
      apply updateConnection_recovering hbounds
      cases hstate : stateOf (runUpdates policy us states) slug key with
      | none => exact init_recovering policy _
      | some before => exact hrecovering before hstate

end

/-- A run releases the connection: it is not reported as gated any more. -/
def Released (policy : FlappingPolicy) (slug : Text) (key : ConnectionKey) (us : List Update) :
    Prop :=
  ∀ now, key ∉ gatedConnections policy slug now (runUpdates policy us Dict.empty)

/-- After the run `us`: some number of healthy updates, the last one not before the end of the
quarantine that is then in force, releases the connection, and it does not stay gated for
ever while it is healthy. Updates of other executors, or that do not list the connection, may
come in between. -/
structure Recovers (policy : FlappingPolicy) (slug : Text) (key : ConnectionKey)
    (us : List Update) : Prop where
  samples : ∃ n, 0 < n ∧ ∀ us' u, samplesOf slug key (us' ++ [u]) = List.replicate n healthyStatus →
    u.statusOf slug key = some healthyStatus →
    (∀ state, stateOf (runUpdates policy (us ++ us') Dict.empty) slug key = some state →
      PyFloat.lt (.num u.now) state.quarantineUntil = false) →
    Released policy slug key (us ++ (us' ++ [u]))
  eventually : ∃ us', (∀ u ∈ us', u.statusOf slug key = some healthyStatus) ∧
    Released policy slug key (us ++ us')

theorem notMem_gatedConnections {now : ℚ}
    (h : ∀ state ∈ stateOf states slug key, state.gated = false) :
    key ∉ gatedConnections policy slug now states := by
  rw [gatedConnections]
  split
  · simp
  rw [Dict.mem_keys_iff]
  rintro ⟨state, hstate⟩
  rw [Dict.get?_filter] at hstate
  obtain ⟨hget, hkept⟩ := filter_eq_some_iff.mp hstate
  rw [h state hget] at hkept
  cases hkept

theorem exists_connection_of_status {status : Text} (connections : List Connection)
    (h : (deriveConnectionStatuses connections).get? key = some status) :
    ∃ conn ∈ connections, connectionKeyFromDict conn = some key := by
  induction connections using List.reverseRecOn with
  | nil => cases h
  | append_singleton connections conn ih =>
    rw [deriveConnectionStatuses, foldl_append, foldl_cons, foldl_nil] at h
    have hbefore : (deriveConnectionStatuses connections).get? key = some status →
        ∃ c ∈ connections ++ [conn], connectionKeyFromDict c = some key := by
      intro hstatus
      obtain ⟨c, hc, hconn⟩ := ih hstatus
      exact ⟨c, mem_append_left _ hc, hconn⟩
    cases hkey : connectionKeyFromDict conn with
    | none =>
      rw [hkey] at h
      exact hbefore h
    | some other =>
      rw [hkey] at h
      by_cases hother : other = key
      · exact ⟨conn, by simp, by rw [hkey, hother]⟩
      · rw [Dict.get?_set_of_ne _ _ (Ne.symm hother)] at h
        exact hbefore h

theorem exists_connection (us : List Update) (henabled : policy.enabled = true)
    (h : stateOf (runUpdates policy us Dict.empty) slug key = some state) :
    ∃ conn, connectionKeyFromDict conn = some key := by
  by_contra hnone
  have hunlisted : ∀ u : Update, u.statusOf slug key = none := by
    intro u
    rw [Update.statusOf]
    split
    · by_contra hlisted
      obtain ⟨status, hstatus⟩ := ne_none_iff_exists'.mp hlisted
      obtain ⟨conn, -, hconn⟩ := exists_connection_of_status _ hstatus
      exact hnone ⟨conn, hconn⟩
    · rfl
  have hnever : stateOf (runUpdates policy us Dict.empty) slug key = none := by
    clear h
    induction us using List.reverseRecOn with
    | nil => rfl
    | append_singleton us u ih =>
      have hstep : stateOf (updateFlappingStates policy u.slug u.now u.connections
          (runUpdates policy us Dict.empty)) slug key = _ := stateOf_update henabled u _
      rw [runUpdates_append, runUpdates, foldl_cons, foldl_nil, hstep, hunlisted, ih]
      split <;> rfl
  rw [hnever] at h
  cases h

theorem exists_healthy_update {slug : Text} {key : ConnectionKey} {conn : Connection}
    (h : connectionKeyFromDict conn = some key) (now : ℚ) :
    ∃ u : Update, u.now = now ∧ u.statusOf slug key = some healthyStatus := by
  refine ⟨⟨slug, now, [{ conn with lastHealthStatus := some healthyStatus }]⟩, rfl, ?_⟩
  have hkey : connectionKeyFromDict { conn with lastHealthStatus := some healthyStatus } =
      some key := h
  simp [Update.statusOf, deriveConnectionStatuses, hkey]

theorem recovers_of_canRecover (hbounds : PolicyBounds policy) (henabled : policy.enabled = true)
    (hcan : CanRecover policy) (us : List Update)
    (h : stateOf (runUpdates policy us Dict.empty) slug key = some state)
    (hgated : state.gated = true) : Recovers policy slug key us := by
  obtain ⟨hwindow, hpenalty⟩ := hcan
  have hinv := runUpdates_windowInv hbounds.seconds henabled us state h
  have hstart : ∀ s ∈ stateOf (runUpdates policy us Dict.empty) slug key,
      Recovering policy 0 s := by
    intro s hs
    rw [h] at hs
    obtain rfl := Option.some.inj hs
    refine ⟨hinv, fun _ => ⟨Nat.zero_le _, state.statusHistory.items, by simp⟩, ?_⟩
    intro hnot
    rw [hgated] at hnot
    cases hnot
  have hsamples : ∀ us' u, samplesOf slug key (us' ++ [u]) =
      replicate (policy.recoveryHealthySamples + 1) healthyStatus →
      u.statusOf slug key = some healthyStatus →
      (∀ state, stateOf (runUpdates policy (us ++ us') Dict.empty) slug key = some state →
        PyFloat.lt (.num u.now) state.quarantineUntil = false) →
      Released policy slug key (us ++ (us' ++ [u])) := by
    intro us' u hhealthy hlast hover now
    rw [samplesOf_append_singleton, hlast, toList_some, replicate_succ',
      append_cancel_right_eq] at hhealthy
    have hrecovering := runUpdates_recovering hbounds henabled hstart us' hhealthy
    rw [runUpdates_append] at hover
    rw [← List.append_assoc, runUpdates_append, runUpdates_append]
    apply notMem_gatedConnections
    have hslug : u.slug = slug := by
      by_contra hne
      rw [Update.statusOf, if_neg hne] at hlast
      cases hlast
    have hstep : stateOf (updateFlappingStates policy u.slug u.now u.connections
        (runUpdates policy us' (runUpdates policy us Dict.empty))) slug key = _ :=
      stateOf_update henabled u _
    rw [if_pos hslug, hlast] at hstep
    rw [runUpdates, foldl_cons, foldl_nil, hstep]
    intro after hafter
    obtain rfl := Option.some.inj hafter
    cases hbefore : stateOf (runUpdates policy us' (runUpdates policy us Dict.empty)) slug key with
    | none =>
      apply updateConnection_released hbounds hwindow (init_recovering policy _)
      intro hnot
      cases hnot
    | some before =>
      exact updateConnection_released hbounds hwindow (hrecovering before hbefore)
        fun _ => hover before hbefore
  refine ⟨⟨policy.recoveryHealthySamples + 1, Nat.succ_pos _, hsamples⟩, ?_⟩
  -- healthy updates at any time, then one at the end of the quarantine that they leave
  obtain ⟨conn, hconn⟩ := exists_connection us henabled h
  obtain ⟨first, -, hfirst⟩ := @exists_healthy_update slug key conn hconn 0
  let before := replicate policy.recoveryHealthySamples first
  have hend : ∃ q, ∀ s, stateOf (runUpdates policy (us ++ before) Dict.empty) slug key = some s →
      PyFloat.lt (.num q) s.quarantineUntil = false := by
    cases hstate : stateOf (runUpdates policy (us ++ before) Dict.empty) slug key with
    | none => exact ⟨0, fun s hs => by cases hs⟩
    | some s =>
      have hwindowed := runUpdates_windowInv hbounds.seconds henabled _ s hstate
      obtain ⟨q, hq⟩ := hwindowed.bounded hpenalty
      refine ⟨q, ?_⟩
      intro s' hs'
      obtain rfl := Option.some.inj hs'
      simp [hq, PyFloat.lt]
  obtain ⟨q, hq⟩ := hend
  obtain ⟨last, hnow, hlast⟩ := @exists_healthy_update slug key conn hconn q
  refine ⟨before ++ [last], ?_, hsamples before last ?_ hlast (by rwa [hnow])⟩
  · intro u hu
    rcases mem_append.mp hu with hu | hu
    · rw [eq_of_mem_replicate hu, hfirst]
    · rw [mem_singleton.mp hu, hlast]
  · have hbefore : samplesOf slug key before =
        replicate policy.recoveryHealthySamples healthyStatus := by
      simp [before, samplesOf, hfirst]
    rw [samplesOf_append_singleton, hbefore, hlast, replicate_succ', toList_some]

theorem enabled_of_state (us : List Update)
    (h : stateOf (runUpdates policy us Dict.empty) slug key = some state) :
    policy.enabled = true := by
  by_contra hdisabled
  have hempty : runUpdates policy us Dict.empty = Dict.empty := by
    clear h
    induction us with
    | nil => rfl
    | cons u us ih =>
      rw [runUpdates, foldl_cons, updateFlappingStates, if_pos hdisabled]
      exact ih
  rw [hempty] at h
  cases h

/-- For every policy that a configuration yields and every gated connection of every run: it
recovers exactly when the window can hold the samples that a release asks for and penalties
are finite. -/
theorem recovers_iff {numerals : Numerals} {raw : Option RawPolicy} {slug : Text}
    {key : ConnectionKey} (hpolicy : flappingPolicyFromConfig numerals raw = some policy)
    (us : List Update) {state : ConnectionFlapState}
    (h : stateOf (runUpdates policy us Dict.empty) slug key = some state)
    (hgated : state.gated = true) : Recovers policy slug key us ↔ CanRecover policy := by
  have hbounds := flappingPolicyFromConfig_bounds hpolicy
  have henabled := enabled_of_state us h
  constructor
  · rintro ⟨-, us', -, hreleased⟩
    by_contra hnot
    have hstuck : Stuck policy state :=
      ⟨runUpdates_windowInv hbounds.seconds henabled us state h, hgated⟩
    apply hreleased 0
    rw [runUpdates_append]
    exact gated_forever hbounds.seconds henabled hnot h hstuck us' 0
  · intro hcan
    exact recovers_of_canRecover hbounds henabled hcan us h hgated

theorem recovers_iff_default :
    Recovers .default "local" sampleKey oscillation ↔ CanRecover .default :=
  @recovers_iff .default ⟨fun _ => none, fun _ => none⟩ none _ _ rfl oscillation
    oscillationState (by decide +kernel) rfl

/-- A window of four samples, and six asked for. -/
def smallWindow : RawPolicy :=
  ⟨.none, .int 4, .none, .none, .none, .none, .none, .none, .none, .none⟩

def smallWindowPolicy : FlappingPolicy := { FlappingPolicy.default with windowSize := 4 }

/-- The connection that has oscillated once stays gated for ever. -/
theorem small_window_never_recovers :
    ¬ ∀ (numerals : Numerals) (raw : Option RawPolicy) (policy : FlappingPolicy) (slug : Text)
      (key : ConnectionKey) (us : List Update) (state : ConnectionFlapState),
      flappingPolicyFromConfig numerals raw = some policy →
      stateOf (runUpdates policy us Dict.empty) slug key = some state → state.gated = true →
      Recovers policy slug key us := by
  intro hall
  have hpolicy : flappingPolicyFromConfig ⟨fun _ => none, fun _ => none⟩ (some smallWindow) =
      some smallWindowPolicy := by decide +kernel
  have hstate : stateOf (runUpdates smallWindowPolicy oscillation Dict.empty) "local"
      sampleKey = some { oscillationState with
        statusHistory := ⟨4, oscillationState.statusHistory.items⟩ } := by decide +kernel
  have hbounds := flappingPolicyFromConfig_bounds hpolicy
  have hnot : ¬ CanRecover smallWindowPolicy := by
    rintro ⟨hwindow, -⟩
    revert hwindow
    decide
  obtain ⟨-, us', -, hreleased⟩ := hall _ _ _ _ _ _ _ hpolicy hstate rfl
  have hinv := runUpdates_windowInv hbounds.seconds rfl _ _ hstate
  apply hreleased 0
  rw [runUpdates_append]
  exact gated_forever hbounds.seconds rfl hnot hstate ⟨hinv, rfl⟩ us' 0

end ClearYourTools.Executor
