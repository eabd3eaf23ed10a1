import Mathlib.Data.List.Induction
import ClearYourTools.Executor.ConnectionFlapping

/-!
# Safety of the flapping gate

What one update can do to one connection, and what runs of updates make of it: a gated
connection stays gated until its quarantine is over, and leaves the gate only in an update that
sees enough consecutive healthy samples.
-/

namespace ClearYourTools.Executor

open Misc Option

/-- What an update does to the state of one key; `seen` is the status it lists for it. -/
def keyStep (policy : FlappingPolicy) (now : ℚ) (seen : Option Text)
    (state : Option ConnectionFlapState) : Option ConnectionFlapState :=
  match seen with
  | some status => some (updateConnection policy now status (state.getD (.init policy)))
  | none => state.filter fun s => s.gated

variable (policy : FlappingPolicy)

theorem updateBucket_get? (now : ℚ) (connections : List Connection)
    (bucket : Bucket) (key : ConnectionKey) :
    (updateBucket policy now connections bucket).get? key =
      keyStep policy now ((deriveConnectionStatuses connections).get? key) (bucket.get? key) := by
  have hloop : ((deriveConnectionStatuses connections).entries.foldl (updateKey policy now)
      bucket).get? key = _ :=
    Dict.get?_foldl_set
      (fun state status => updateConnection policy now status (state.getD (.init policy)))
      (deriveConnectionStatuses connections) bucket key
  simp only [updateBucket, Dict.get?_filter, Dict.contains, hloop]
  cases (deriveConnectionStatuses connections).get? key with
  | none => simp [keyStep]
  | some status => simp [keyStep, Option.filter]

theorem updateConnection_cases (now : ℚ) (status : Text) (state : ConnectionFlapState) :
    (updateConnection policy now status state = gate policy now (recordSample status state)) ∨
    (state.gated ∧ canRelease policy now (recordSample status state) ∧
      updateConnection policy now status state = release (recordSample status state)) ∨
    (updateConnection policy now status state = recordSample status state) := by
  simp only [updateConnection]
  split
  · exact .inl rfl
  · split
    · rename_i h
      exact .inr (.inl ⟨h.1, h.2, rfl⟩)
    · exact .inr (.inr rfl)

variable {now : ℚ} {state : ConnectionFlapState}

theorem canRelease_spec {policy : FlappingPolicy} (h : canRelease policy now state = true) :
    PyFloat.lt (.num now) state.quarantineUntil = false ∧
      policy.recoveryHealthySamples ≤ state.consecutiveHealthy := by
  simp only [canRelease] at h
  split at h
  · cases h
  · rename_i hlt
    split at h
    · cases h
    · rename_i hcount
      exact ⟨by simpa using hlt, not_lt.mp hcount⟩

/-- Number of healthy samples at the end of a sequence of samples. -/
def trailingHealthy (samples : List Text) : ℕ :=
  (samples.reverse.takeWhile fun s => decide (s = healthyStatus)).length

theorem trailingHealthy_append_healthy (samples : List Text) :
    trailingHealthy (samples ++ [healthyStatus]) = trailingHealthy samples + 1 := by
  simp [trailingHealthy]

/-- The invariant of a connection's state after the samples it was seen with: its quarantine
is a number, and its counter never exceeds the healthy samples just seen. -/
structure StateInv (samples : List Text) (state : ConnectionFlapState) : Prop where
  quarantine_ne_nan : state.quarantineUntil ≠ .nan
  consecutive_le : state.consecutiveHealthy ≤ trailingHealthy samples

theorem init_stateInv (samples : List Text) :
    StateInv samples (.init policy) := ⟨by simp [ConnectionFlapState.init], Nat.zero_le _⟩

theorem recordSample_stateInv {samples : List Text} (status : Text) (h : StateInv samples state) :
    StateInv (samples ++ [status]) (recordSample status state) := by
  refine ⟨h.quarantine_ne_nan, ?_⟩
  simp only [recordSample]
  split
  · rename_i hs
    rw [hs, trailingHealthy_append_healthy]
    exact Nat.succ_le_succ h.consecutive_le
  · exact Nat.zero_le _

theorem updateConnection_stateInv (now : ℚ) {samples : List Text}
    (status : Text) (h : StateInv samples state) :
    StateInv (samples ++ [status]) (updateConnection policy now status state) := by
  have hrec := recordSample_stateInv status h
  rcases updateConnection_cases policy now status state with heq | ⟨-, -, heq⟩ | heq <;> rw [heq]
  · exact ⟨PyFloat.max_ne_nan _ hrec.quarantine_ne_nan, Nat.zero_le _⟩
  · exact ⟨by simp [release], hrec.consecutive_le⟩
  · exact hrec

theorem updateConnection_of_gated {policy : FlappingPolicy} {now : ℚ} {status : Text}
    {samples : List Text} {state : ConnectionFlapState} (h : StateInv samples state)
    (hgated : state.gated = true) (hrecovery : 1 ≤ policy.recoveryHealthySamples) :
    let after := updateConnection policy now status state
    (after.gated = true ∧ PyFloat.le state.quarantineUntil after.quarantineUntil = true) ∨
    (after.gated = false ∧ status = healthyStatus ∧
      policy.recoveryHealthySamples ≤ trailingHealthy (samples ++ [status]) ∧
      PyFloat.le state.quarantineUntil (.num now) = true) := by
  intro after
  rcases updateConnection_cases policy now status state with heq | ⟨-, hrelease, heq⟩ | heq
  · left
    refine ⟨by simp only [after, heq, gate], ?_⟩
    simp only [after, heq, gate]
    exact PyFloat.le_max _ h.quarantine_ne_nan
  · right
    obtain ⟨hover, hcount⟩ := canRelease_spec hrelease
    have hcounted := (recordSample_stateInv status h).consecutive_le
    have hhealthy : status = healthyStatus := by
      by_contra hne
      simp only [recordSample, hne, if_false] at hcount
      omega
    refine ⟨by simp only [after, heq, release], hhealthy, hcount.trans hcounted, ?_⟩
    exact PyFloat.le_num_of_not_lt h.quarantine_ne_nan hover
  · left
    refine ⟨by simpa only [after, heq, recordSample] using hgated, ?_⟩
    simp only [after, heq, recordSample]
    exact PyFloat.le_self h.quarantine_ne_nan

theorem countAtLeast_le {numerals : Numerals} {bound : ℕ} {value : ConfigValue} {default : Int}
    {n : ℕ} (h : countAtLeast numerals bound value default = some n) : bound ≤ n := by
  obtain ⟨k, -, rfl⟩ := map_eq_some_iff.mp h
  omega

theorem flappingPolicyFromConfig_recovery {numerals : Numerals} {raw : Option RawPolicy}
    {policy : FlappingPolicy} (h : flappingPolicyFromConfig numerals raw = some policy) :
    1 ≤ policy.recoveryHealthySamples := by
  cases raw with
  | none =>
    cases h
    decide
  | some raw =>
    simp only [flappingPolicyFromConfig, bind_eq_bind, bind_eq_some_iff,
      Option.pure_def, some.injEq] at h
    obtain ⟨-, -, -, -, -, -, recovery, hrecovery, rfl⟩ := h
    exact countAtLeast_le hrecovery

/-- A call of `update_flapping_states`. -/
structure Update where
  slug : Text
  now : ℚ
  connections : List Connection

/-- The status of `key` in an update of `slug`, if the update lists it. -/
def Update.statusOf (u : Update) (slug : Text) (key : ConnectionKey) : Option Text :=
  if u.slug = slug then (deriveConnectionStatuses u.connections).get? key else none

def runUpdates (policy : FlappingPolicy) (us : List Update) (states : FlappingStates) :
    FlappingStates :=
  us.foldl (fun states u => updateFlappingStates policy u.slug u.now u.connections states) states

/-- The state of one connection of one executor. -/
def stateOf (states : FlappingStates) (slug : Text) (key : ConnectionKey) :
    Option ConnectionFlapState :=
  ((states.get? slug).getD Dict.empty).get? key

/-- The statuses with which a run lists `key`, in order. -/
def samplesOf (slug : Text) (key : ConnectionKey) (us : List Update) : List Text :=
  us.filterMap fun u => u.statusOf slug key

theorem runUpdates_append (us us' : List Update) (states : FlappingStates) :
    runUpdates policy (us ++ us') states = runUpdates policy us' (runUpdates policy us states) :=
  List.foldl_append

theorem samplesOf_append_singleton (slug : Text) (key : ConnectionKey) (us : List Update)
    (u : Update) :
    samplesOf slug key (us ++ [u]) = samplesOf slug key us ++ (u.statusOf slug key).toList := by
  cases h : u.statusOf slug key <;> simp [samplesOf, h]

variable {policy : FlappingPolicy} {slug : Text} {key : ConnectionKey}

theorem stateOf_update (henabled : policy.enabled = true) (u : Update) (states : FlappingStates) :
    stateOf (updateFlappingStates policy u.slug u.now u.connections states) slug key =
      if u.slug = slug then
        keyStep policy u.now (u.statusOf slug key) (stateOf states slug key)
      else stateOf states slug key := by
  simp only [updateFlappingStates, henabled, not_true_eq_false, if_false, stateOf]
  by_cases h : u.slug = slug
  · subst h
    simp [updateBucket_get?, Update.statusOf]
  · simp [Dict.get?_set_of_ne _ _ (Ne.symm h), h]

theorem keyStep_unlisted (now : ℚ) (hgated : state.gated = true) :
    keyStep policy now none (some state) = some state := by
  simp [keyStep, Option.filter, hgated]

section

variable (henabled : policy.enabled = true)
include henabled

theorem runUpdates_stateInv (us : List Update)
    (h : stateOf (runUpdates policy us Dict.empty) slug key = some state) :
    StateInv (samplesOf slug key us) state := by
  induction us using List.reverseRecOn generalizing state with
  | nil => simp [runUpdates, stateOf] at h
  | append_singleton us u ih =>
    rw [runUpdates_append] at h
    simp only [runUpdates, List.foldl_cons, List.foldl_nil] at h
    rw [stateOf_update henabled] at h
    rw [samplesOf_append_singleton]
    by_cases hslug : u.slug = slug
    · rw [if_pos hslug] at h
      cases hseen : u.statusOf slug key with
      | none =>
        -- unlisted: kept only when gated, and then unchanged
        rw [hseen, keyStep] at h
        have hkept := (filter_eq_some_iff.mp h).1
        simpa using ih hkept
      | some status =>
        rw [hseen] at h
        simp only [keyStep, some.injEq] at h
        rw [← h]
        apply updateConnection_stateInv
        cases hbefore : stateOf (runUpdates policy us Dict.empty) slug key with
        | none =>
          simp only [runUpdates] at hbefore
          simpa [hbefore] using init_stateInv policy (samplesOf slug key us)
        | some before =>
          have hinv := ih hbefore
          simp only [runUpdates] at hbefore
          simpa [hbefore] using hinv
    · rw [if_neg hslug] at h
      simpa [Update.statusOf, hslug] using ih h

/-- What one update does to a gated connection of any executor. -/
theorem gated_step (hrecovery : 1 ≤ policy.recoveryHealthySamples) (us : List Update) (u : Update)
    (h : stateOf (runUpdates policy us Dict.empty) slug key = some state)
    (hgated : state.gated = true) :
    ∃ after, stateOf (runUpdates policy (us ++ [u]) Dict.empty) slug key = some after ∧
      ((after.gated = true ∧ PyFloat.le state.quarantineUntil after.quarantineUntil = true) ∨
      (after.gated = false ∧ u.statusOf slug key = some healthyStatus ∧
        policy.recoveryHealthySamples ≤ trailingHealthy (samplesOf slug key (us ++ [u])) ∧
        PyFloat.le state.quarantineUntil (.num u.now) = true)) := by
  have hinv := runUpdates_stateInv henabled us h
  have hself := PyFloat.le_self hinv.quarantine_ne_nan
  rw [runUpdates_append, samplesOf_append_singleton]
  have hstep : stateOf (updateFlappingStates policy u.slug u.now u.connections
      (runUpdates policy us Dict.empty)) slug key = _ := stateOf_update henabled u _
  rw [h] at hstep
  simp only [runUpdates, List.foldl_cons, List.foldl_nil] at hstep ⊢
  rw [hstep]
  by_cases hslug : u.slug = slug
  · rw [if_pos hslug]
    cases hseen : u.statusOf slug key with
    | none =>
      rw [keyStep_unlisted _ hgated]
      exact ⟨state, rfl, .inl ⟨hgated, hself⟩⟩
    | some status =>
      refine ⟨_, rfl, ?_⟩
      have hcases := @updateConnection_of_gated policy u.now status _ state hinv hgated hrecovery
      rcases hcases with hstay | ⟨hungated, hhealthy, hsamples, hover⟩
      · exact .inl hstay
      · exact .inr ⟨hungated, by rw [hhealthy], by simpa using hsamples, hover⟩
  · rw [if_neg hslug]
    exact ⟨state, rfl, .inl ⟨hgated, hself⟩⟩

theorem gated_run (hrecovery : 1 ≤ policy.recoveryHealthySamples)
    (us us' : List Update) (hnow : ∀ u ∈ us', u.now ≤ now)
    (h : stateOf (runUpdates policy us Dict.empty) slug key = some state)
    (hgated : state.gated = true) (hquarantine : PyFloat.lt (.num now) state.quarantineUntil) :
    ∃ after, stateOf (runUpdates policy (us ++ us') Dict.empty) slug key = some after ∧
      after.gated = true ∧ PyFloat.lt (.num now) after.quarantineUntil := by
  induction us' generalizing us state with
  | nil => exact ⟨state, by simpa using h, hgated, hquarantine⟩
  | cons u us' ih =>
    obtain ⟨after, hafter, hstay | ⟨-, -, -, hover⟩⟩ :=
      gated_step henabled hrecovery us u h hgated
    · have hlater := ih (us ++ [u]) (fun u' hu' => hnow u' (List.mem_cons_of_mem _ hu')) hafter
        hstay.1 (PyFloat.lt_le hquarantine hstay.2)
      simpa using hlater
    · -- a release would need the quarantine to be over by the time of the update
      have hlt : PyFloat.lt (.num now) (.num u.now) = true := PyFloat.lt_le hquarantine hover
      have hle := hnow u List.mem_cons_self
      simp only [PyFloat.lt, decide_eq_true_eq] at hlt
      exact absurd hlt (not_lt.mpr hle)

theorem mem_gatedConnections {states : FlappingStates} (h : stateOf states slug key = some state)
    (hgated : state.gated = true) (hquarantine : PyFloat.lt (.num now) state.quarantineUntil) :
    key ∈ gatedConnections policy slug now states := by
  simp only [gatedConnections, henabled, not_true_eq_false, if_false]
  rw [Dict.mem_keys_iff]
  refine ⟨state, ?_⟩
  simp only [stateOf] at h
  rw [Dict.get?_filter, h]
  simp [Option.filter, hgated, canRelease, hquarantine]

end

/-- Safety of the gate, for every policy that a configuration yields with the detector on and
every run of updates: a connection that the run has gated until `U` is reported as gated at
every time before `U`, whatever updates happen until then, and an update either keeps it
gated, for at least as long, or releases it, having seen it healthy after the required number
of consecutive healthy samples and at or after `U`. -/
theorem flapping_gate_safe (numerals : Numerals) (raw : Option RawPolicy)
    (hpolicy : flappingPolicyFromConfig numerals raw = some policy)
    (henabled : policy.enabled = true) (us : List Update) {state : ConnectionFlapState}
    (h : stateOf (runUpdates policy us Dict.empty) slug key = some state)
    (hgated : state.gated = true) :
    (∀ us' now, (∀ u ∈ us', u.now ≤ now) → PyFloat.lt (.num now) state.quarantineUntil →
      key ∈ gatedConnections policy slug now (runUpdates policy (us ++ us') Dict.empty)) ∧
    (∀ u, ∃ after, stateOf (runUpdates policy (us ++ [u]) Dict.empty) slug key = some after ∧
      ((after.gated = true ∧ PyFloat.le state.quarantineUntil after.quarantineUntil = true) ∨
      (after.gated = false ∧ u.statusOf slug key = some healthyStatus ∧
        policy.recoveryHealthySamples ≤ trailingHealthy (samplesOf slug key (us ++ [u])) ∧
        PyFloat.le state.quarantineUntil (.num u.now) = true))) := by
  have hrecovery := flappingPolicyFromConfig_recovery hpolicy
  constructor
  · intro us' now hnow hquarantine
    obtain ⟨after, hafter, hstill, hlonger⟩ :=
      gated_run henabled hrecovery us us' hnow h hgated hquarantine
    exact mem_gatedConnections henabled hafter hstill hlonger
  · intro u
    exact gated_step henabled hrecovery us u h hgated

/-- The connections that are reported as gated do not interfere: whether one is depends on the
updates of its own executor, and of these on what they list it with. -/
theorem mem_gatedConnections_runUpdates (policy : FlappingPolicy) (us : List Update) (slug : Text)
    (key : ConnectionKey) (now : ℚ) :
    key ∈ gatedConnections policy slug now (runUpdates policy us Dict.empty) ↔
      policy.enabled = true ∧ ∃ state,
        (us.filter (·.slug = slug)).foldl (fun state u =>
          keyStep policy u.now (u.statusOf slug key) state) none = some state ∧
        state.gated = true ∧ canRelease policy now state = false := by
  unfold gatedConnections
  by_cases henabled : policy.enabled = true
  · have hstate : ∀ us, stateOf (runUpdates policy us Dict.empty) slug key =
        (us.filter (·.slug = slug)).foldl (fun state u =>
          keyStep policy u.now (u.statusOf slug key) state) none := by
      intro us
      induction us using List.reverseRecOn with
      | nil => rfl
      | append_singleton us u ih =>
        rw [runUpdates_append, runUpdates, List.foldl_cons, List.foldl_nil, stateOf_update henabled, ih]
        split <;> rename_i hslug <;> simp [hslug]
    rw [← hstate]
    simp [henabled, Dict.mem_keys_iff, Dict.get?_filter, stateOf, Option.filter_eq_some_iff]
  · simp [henabled]

def sampleKey : ConnectionKey := ⟨"acme", "mail", "main"⟩

def sampleUpdate (now : ℚ) (status : Text) : Update :=
  ⟨"local", now, [⟨"acme", "mail", "main", some status⟩]⟩

/-- Healthy, degraded, healthy, in three seconds. -/
def oscillation : List Update :=
  [sampleUpdate 0 healthyStatus, sampleUpdate 1 "degraded", sampleUpdate 2 healthyStatus]

/-- The gated state it leads to: a quarantine of 195 seconds from the last sample. -/
def oscillationState : ConnectionFlapState :=
  ⟨⟨12, [healthyStatus, "degraded", healthyStatus]⟩, true, .num 197, 0, 1⟩

theorem flapping_gate_safe_oscillation :
    (∀ us' now, (∀ u ∈ us', u.now ≤ now) → PyFloat.lt (.num now) (.num 197) →
      sampleKey ∈ gatedConnections .default "local" now
        (runUpdates .default (oscillation ++ us') Dict.empty)) ∧
    (∀ u, ∃ after, stateOf (runUpdates .default (oscillation ++ [u]) Dict.empty) "local"
        sampleKey = some after ∧
      ((after.gated = true ∧ PyFloat.le (.num 197) after.quarantineUntil = true) ∨
      (after.gated = false ∧ u.statusOf "local" sampleKey = some healthyStatus ∧
        6 ≤ trailingHealthy (samplesOf "local" sampleKey (oscillation ++ [u])) ∧
        PyFloat.le (.num 197) (.num u.now) = true))) :=
  flapping_gate_safe ⟨fun _ => none, fun _ => none⟩ none rfl rfl oscillation
    (show _ = some oscillationState by decide +kernel) rfl

end ClearYourTools.Executor
