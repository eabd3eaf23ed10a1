import ClearYourTools.Executor.Proofs.Recovery
import ClearYourTools.HealthGates.Flapping

/-!
# Up to the end of the first quarantine

The detector of servers gates a key with the same sample as the shared detector, and for as long.
-/

namespace ClearYourTools.HealthGates

open Misc Executor List Option

section

variable {σ τ : Type} {f : σ → τ}

/-- The window with its statuses renamed. -/
def Window.map (f : σ → τ) (d : Window σ) : Window τ := ⟨d.maxlen, d.items.map f⟩

/-- The state with its statuses renamed. -/
def FlapState.map (f : σ → τ) (state : FlapState σ) : FlapState τ :=
  { state with history := state.history.map f }

theorem Window.append_map (d : Window σ) (item : σ) :
    (d.map f).append (f item) = (d.append item).map f := by
  simp only [append, map, length_map, map_drop, map_append, map_cons, map_nil]

variable [DecidableEq σ] [DecidableEq τ]

variable (hf : Function.Injective f)

include hf

variable (good : σ)
variable (history : List σ)

theorem degradedCount_map :
    degradedCount (f good) (history.map f) = degradedCount good history := by
  rw [degradedCount, countP_map, degradedCount]
  refine countP_congr fun status _ => ?_
  simp [hf.eq_iff]

theorem transitionCount_map : transitionCount (history.map f) = transitionCount history := by
  rw [transitionCount, ← map_tail, zip_map, countP_map, transitionCount]
  refine countP_congr fun pair _ => ?_
  simp [hf.eq_iff]

theorem contains_map : (history.map f).contains (f good) = history.contains good := by
  rw [Bool.eq_iff_iff, contains_iff_mem, contains_iff_mem, List.mem_map_of_injective hf]

theorem oscillates_map : oscillates (f good) (history.map f) = oscillates good history := by
  unfold oscillates
  rw [length_map]
  congr 1
  funext index
  have hget : ((history.map f)[index]? ≠ some (f good)) ↔ history[index]? ≠ some good := by
    rw [getElem?_map]
    cases history[index]? with
    | none => simp
    | some status => simp [hf.eq_iff]
  rw [← map_take, ← map_drop, contains_map hf, contains_map hf, decide_eq_decide.mpr hget]

variable (policy : FlappingPolicy)

theorem isFlapping_map :
    isFlapping (f good) policy (history.map f) = isFlapping good policy history := by
  simp only [isFlapping, length_map, degradedCount_map hf, transitionCount_map hf,
    oscillates_map hf]

theorem computePenaltySeconds_map (episodes : ℕ) :
    computePenaltySeconds (f good) policy (history.map f) episodes =
      computePenaltySeconds good policy history episodes := by
  rw [computePenaltySeconds, degradedCount_map hf, transitionCount_map hf, computePenaltySeconds]

variable (now : ℚ)
variable (state : FlapState σ)

theorem canRelease_map :
    canRelease (f good) policy now (state.map f) = canRelease good policy now state := by
  simp only [canRelease, FlapState.map, Window.map, length_map, ← map_drop, isFlapping_map hf]

theorem recordSample_map (good status : σ) (state : FlapState σ) :
    recordSample (f good) (f status) (state.map f) = (recordSample good status state).map f := by
  simp only [recordSample, FlapState.map, Window.append_map, hf.eq_iff]

theorem activeFlapping_map (status : σ) (history : List σ) :
    activeFlapping (f good) policy (f status) (history.map f) =
      activeFlapping good policy status history := by
  have hlast : ((if 2 ≤ (history.map f).length then (history.map f)[(history.map f).length - 2]?
      else none) ≠ some (f good)) ↔
      (if 2 ≤ history.length then history[history.length - 2]? else none) ≠ some good := by
    rw [length_map, getElem?_map]
    split
    · cases history[history.length - 2]? with
      | none => simp
      | some previous => simp [hf.eq_iff]
    · simp
  have hstatus : f status ≠ f good ↔ status ≠ good := by rw [ne_eq, hf.eq_iff]
  unfold activeFlapping
  rw [isFlapping_map hf, decide_eq_decide.mpr hlast, decide_eq_decide.mpr hstatus]

theorem gate_map : gate (f good) policy now (state.map f) = (gate good policy now state).map f := by
  simp only [gate, FlapState.map, Window.map, computePenaltySeconds_map hf]
  rfl

theorem updateState_map (status : σ) (state : FlapState σ) :
    updateState (f good) policy now (f status) (state.map f) =
      (updateState good policy now status state).map f := by
  have hjudge : ∀ recorded : FlapState σ, judge (f good) policy now (f status) (recorded.map f) =
      (judge good policy now status recorded).map f := by
    intro recorded
    unfold judge
    have hitems : (recorded.map f).history.items = recorded.history.items.map f := rfl
    have hgated : (recorded.map f).gated = recorded.gated := rfl
    rw [hitems, activeFlapping_map hf, gate_map hf, canRelease_map hf, hgated]
    split
    · rfl
    · split <;> rfl
  rw [updateState, recordSample_map hf, hjudge, updateState]

theorem isGated_map :
    isGated (f good) policy now (state.map f) = isGated good policy now state := by
  rw [isGated, canRelease_map hf, isGated]
  rfl

end

/-- The state of a connection as a state of the shared detector. -/
def ofConnection (state : ConnectionFlapState) : FlapState Text where
  history := ⟨state.statusHistory.maxlen, state.statusHistory.items⟩
  gated := state.gated
  quarantineUntil := state.quarantineUntil
  consecutiveHealthy := state.consecutiveHealthy
  flapEpisodes := state.flapEpisodes

theorem oscillates_healthyStatus (history : List Text) :
    ((List.range history.length).any fun index =>
      decide (history[index]? ≠ some healthyStatus) &&
        (history.take index).contains healthyStatus &&
        (history.drop (index + 1)).contains healthyStatus) = oscillates healthyStatus history := by
  unfold oscillates
  congr 1
  funext index
  rw [Bool.eq_iff_iff]
  simp only [Bool.and_eq_true, contains_iff_mem]

section

variable (policy : FlappingPolicy)

theorem isFlapping_eq (history : List Text) :
    isFlapping healthyStatus policy history = Executor.isFlapping policy history := by
  unfold isFlapping
  rw [← oscillates_healthyStatus]
  rfl

theorem canRelease_ofConnection (now : ℚ) (state : ConnectionFlapState) :
    canRelease healthyStatus policy now (ofConnection state) =
      Executor.canRelease policy now state := by
  unfold canRelease
  rw [isFlapping_eq]
  rfl

theorem ofConnection_updateConnection (now : ℚ) (status : Text) (state : ConnectionFlapState) :
    ofConnection (updateConnection policy now status state) =
      updateState healthyStatus policy now status (ofConnection state) := by
  have hjudge : ∀ recorded : ConnectionFlapState,
      ofConnection (if Executor.activeFlapping policy status recorded.statusHistory.items then
          Executor.gate policy now recorded
        else if recorded.gated ∧ Executor.canRelease policy now recorded then
          Executor.release recorded
        else recorded) =
      judge healthyStatus policy now status (ofConnection recorded) := by
    intro recorded
    unfold judge
    rw [canRelease_ofConnection]
    have hactive : activeFlapping healthyStatus policy status (ofConnection recorded).history.items =
        Executor.activeFlapping policy status recorded.statusHistory.items := by
      unfold activeFlapping
      rw [isFlapping_eq]
      rfl
    have hgated : (ofConnection recorded).gated = recorded.gated := rfl
    rw [hactive, hgated]
    split
    · rfl
    · split <;> rfl
  exact hjudge (Executor.recordSample status state)

end

open Misc Executor Cloudflare

section

variable {σ : Type} [DecidableEq σ] {good : σ}

variable {history : List σ}

theorem oscillates_iff : oscillates good history = true ↔
    ∃ before bad after, history = before ++ bad :: after ∧ bad ≠ good ∧ good ∈ before ∧
      good ∈ after := by
  unfold oscillates
  simp only [List.any_eq_true, mem_range, Bool.and_eq_true, decide_eq_true_eq, contains_iff_mem]
  constructor
  · rintro ⟨index, hindex, ⟨hbad, hbefore⟩, hafter⟩
    refine ⟨history.take index, history[index], history.drop (index + 1), ?_, ?_, hbefore, hafter⟩
    · rw [← drop_eq_getElem_cons hindex, take_append_drop]
    · rw [getElem?_eq_getElem hindex] at hbad
      exact fun h => hbad (congrArg some h)
  · rintro ⟨before, bad, after, rfl, hbad, hbefore, hafter⟩
    refine ⟨before.length, by simp, ⟨?_, ?_⟩, ?_⟩
    · simpa using hbad
    · simpa using hbefore
    · have hdrop : (before ++ bad :: after).drop (before.length + 1) = after := by
        rw [List.append_cons]
        exact drop_left' (length_append.trans rfl)
      rw [hdrop]
      exact hafter

theorem transitionCount_cons (a : σ) (history : List σ) :
    transitionCount history ≤ transitionCount (a :: history) := by
  cases history with
  | nil => exact Nat.le_refl _
  | cons b history =>
    simp only [transitionCount, tail_cons, zip_cons_cons, countP_cons]
    omega

theorem transitionCount_drop (history : List σ) (k : ℕ) :
    transitionCount (history.drop k) ≤ transitionCount history := by
  induction k generalizing history with
  | zero => exact Nat.le_refl _
  | succ k ih =>
    cases history with
    | nil => exact Nat.le_refl _
    | cons a history => exact (ih history).trans (transitionCount_cons a history)

theorem transitionCount_append_same (history : List σ) (a : σ) :
    transitionCount (history ++ [a] ++ [a]) = transitionCount (history ++ [a]) := by
  induction history with
  | nil => simp [transitionCount]
  | cons b history ih =>
    cases history with
    | nil => simp [transitionCount, countP_cons]
    | cons b' history =>
      simp only [transitionCount, List.cons_append, tail_cons, zip_cons_cons, countP_cons] at ih ⊢
      omega

variable {policy : FlappingPolicy}

/-- A window that flaps after a second healthy sample did so before it. -/
theorem isFlapping_of_append_good {k : ℕ}
    (h : isFlapping good policy ((history ++ [good] ++ [good]).drop k) = true) :
    isFlapping good policy (history ++ [good]) = true := by
  unfold isFlapping at h
  split at h
  · cases h
  split at h
  · cases h
  split at h
  · cases h
  rename_i hlength hdegraded htransitions
  obtain ⟨before, bad, after, hsplit, hbad, hbefore, hafter⟩ := oscillates_iff.mp h
  have hwhole : history ++ [good] ++ [good] =
      ((history ++ [good] ++ [good]).take k ++ before) ++ bad :: after := by
    rw [List.append_assoc _ before, ← hsplit, take_append_drop]
  obtain ⟨after', last, rfl⟩ := eq_nil_or_concat' after |>.resolve_left (ne_nil_of_mem hafter)
  have hinit : history ++ [good] =
      ((history ++ [good] ++ [good]).take k ++ before) ++ bad :: after' := by
    have hconcat := hwhole
    rw [← List.cons_append, ← List.append_assoc] at hconcat
    exact (append_inj' hconcat rfl).1
  have hafter' : good ∈ after' := by
    cases eq_nil_or_concat' after' with
    | inl hnil =>
      rw [hnil] at hinit
      have hlast := (append_inj' hinit rfl).2
      exact absurd (List.cons.inj hlast).1.symm hbad
    | inr hconcat =>
      obtain ⟨after'', last', rfl⟩ := hconcat
      rw [← List.cons_append, ← List.append_assoc] at hinit
      have hlast := (append_inj' hinit rfl).2
      rw [← (List.cons.inj hlast).1]
      exact mem_append_right _ (mem_singleton_self _)
  have hoscillates : oscillates good (history ++ [good]) = true :=
    oscillates_iff.mpr ⟨_, bad, after', hinit, hbad, mem_append_right _ hbefore, hafter'⟩
  have hlength' : 2 ≤ (history ++ [good]).length := by
    rw [hinit, length_append, length_cons]
    have := length_pos_of_mem hafter'
    omega
  have hdegraded' : degradedCount good ((history ++ [good] ++ [good]).drop k) ≤
      degradedCount good (history ++ [good]) := by
    unfold degradedCount
    refine (List.Sublist.countP_le (drop_sublist k _)).trans ?_
    rw [countP_append, countP_singleton]
    simp
  have htransitions' : transitionCount ((history ++ [good] ++ [good]).drop k) ≤
      transitionCount (history ++ [good]) := by
    rw [← transitionCount_append_same history good]
    exact transitionCount_drop _ k
  unfold isFlapping
  rw [if_neg (by omega), if_neg (by omega), if_neg (by omega)]
  exact hoscillates

/-- In a window that did not flap before its last sample, one of the last two is unhealthy. -/
theorem activeFlapping_eq_isFlapping {k : ℕ} (status : σ)
    (h : isFlapping good policy history = false) :
    activeFlapping good policy status ((history ++ [status]).drop k) =
      isFlapping good policy ((history ++ [status]).drop k) := by
  unfold activeFlapping
  cases hflaps : isFlapping good policy ((history ++ [status]).drop k) with
  | false => rfl
  | true =>
    rw [Bool.true_and, Bool.or_eq_true, decide_eq_true_eq, decide_eq_true_eq]
    by_cases hstatus : status = good
    · refine .inr fun hprevious => ?_
      subst hstatus
      split at hprevious
      · rename_i hlength
        rw [length_drop, length_append, length_singleton] at hlength hprevious
        rw [getElem?_drop, getElem?_append_left (by omega)] at hprevious
        obtain ⟨hindex, hlast⟩ := List.getElem?_eq_some_iff.mp hprevious
        -- the sample before the last one is the last of the window before
        have hinit : history = history.dropLast ++ [status] := by
          have hne : history ≠ [] := ne_nil_of_length_pos (by omega)
          rw [← hlast]
          conv => lhs; rw [← dropLast_append_getLast hne]
          rw [getLast_eq_getElem]
          congr 3
          omega
        rw [hinit] at hflaps h
        rw [isFlapping_of_append_good hflaps] at h
        cases h
      · cases hprevious
    · exact .inl hstatus

end

/-- The names of the two statuses of a server. -/
def Names (good : Text) (name : Bool → Text) : Prop := ∀ healthy, name healthy = good ↔ healthy = true

theorem Names.injective {good : Text} {name : Bool → Text} (h : Names good name) :
    Function.Injective name := by
  have hbad : name false ≠ name true := by
    rw [(h true).mpr rfl]
    exact fun hname => Bool.false_ne_true ((h false).mp hname)
  intro a b hab
  cases a <;> cases b
  · rfl
  · exact absurd hab hbad
  · exact absurd hab.symm hbad
  · rfl

section

variable {policy : FlappingPolicy} {name : Bool → Text}

/-- The state of a server as long as it goes on in step with the shared detector. -/
structure InStep (policy : FlappingPolicy) (name : Bool → Text) (state : FlapState Bool)
    (server : ServerFlapState) : Prop where
  maxlen : state.history.maxlen = policy.windowSize
  history : server.statusHistory = state.history.items.map name
  healthy : server.consecutiveHealthy = state.consecutiveHealthy
  gated : server.gated = state.gated
  few : state.gated = true → state.consecutiveHealthy < policy.recoveryHealthySamples
  quarantine : state.gated = true → state.quarantineUntil = .max (.num 0) server.quarantineUntil
  fresh : state.gated = false → server.flapEpisodes = 0 ∧ state.quarantineUntil = .num 0 ∧
    isFlapping true policy state.history.items = false

theorem inStep_init (policy : FlappingPolicy) (name : Bool → Text) :
    InStep policy name (.init Bool policy) .init where
  maxlen := rfl
  history := rfl
  healthy := rfl
  gated := rfl
  few h := (Bool.false_ne_true h).elim
  quarantine h := (Bool.false_ne_true h).elim
  fresh _ := ⟨rfl, rfl, rfl⟩

/-- A sample that a gated server takes without an end, an extension or an early end of its
quarantine. -/
def CalmAt (policy : FlappingPolicy) (now : ℚ) (status : Text) (server : ServerFlapState) : Prop :=
  server.gated = true → PyFloat.lt (.num now) server.quarantineUntil = true ∧
    activeFlapping enabledStatus policy status
      (recordStatus policy status server).statusHistory = false ∧
    (status = enabledStatus → server.consecutiveHealthy + 1 < policy.recoveryHealthySamples)

variable {now : ℚ}

theorem lt_max_zero {limit : PyFloat} (h : PyFloat.lt (.num now) limit = true) :
    PyFloat.lt (.num now) (.max (.num 0) limit) = true := by
  unfold PyFloat.max
  split
  · exact h
  rename_i hzero
  cases limit with
  | num q =>
    simp only [PyFloat.lt, decide_eq_true_eq, not_lt] at h hzero ⊢
    exact h.trans_le hzero
  | posInf => exact absurd rfl hzero
  | negInf => cases h
  | nan => cases h

theorem not_le_of_lt {limit : PyFloat} (h : PyFloat.lt (.num now) limit = true) :
    ¬ PyFloat.le limit (.num now) = true := by
  cases limit with
  | num q =>
    simp only [PyFloat.lt, PyFloat.le, decide_eq_true_eq, not_le] at h ⊢
    exact h
  | posInf => exact Bool.false_ne_true
  | negInf => cases h
  | nan => cases h

variable {state : FlapState Bool} {server : ServerFlapState}

theorem InStep.recordStatus (h : InStep policy name state server) (healthy : Bool) :
    (Cloudflare.recordStatus policy (name healthy) server).statusHistory =
      (recordSample true healthy state).history.items.map name := by
  simp only [Cloudflare.recordStatus, recordSample, Window.append, h.history, h.maxlen,
    length_map, map_drop, map_append, map_cons, map_nil]

section

variable (hname : Names enabledStatus name)
include hname

theorem countHealthy_eq
    (h : server.consecutiveHealthy = state.consecutiveHealthy) (healthy : Bool) :
    (if name healthy = enabledStatus then server.consecutiveHealthy + 1 else 0) =
      (recordSample true healthy state).consecutiveHealthy := by
  simp only [recordSample, hname healthy, h]

theorem inStep_of_gated (hrecovery : 1 ≤ policy.recoveryHealthySamples)
    (h : InStep policy name state server) {healthy : Bool}
    (hcalm : CalmAt policy now (name healthy) server) (hgated : server.gated = true) :
    InStep policy name (updateState true policy now healthy state)
      (updateServer policy now (name healthy) server) := by
  obtain ⟨hnow, hactive, hfew⟩ := hcalm hgated
  have hstate : state.gated = true := h.gated ▸ hgated
  have hrecorded := h.recordStatus healthy
  have hcount := countHealthy_eq hname h.healthy healthy
  have hsmall : (recordSample true healthy state).consecutiveHealthy <
      policy.recoveryHealthySamples := by
    rw [← hcount]
    split
    · exact hfew ‹_›
    · exact hrecovery
  have hleft : updateState true policy now healthy state = recordSample true healthy state := by
    have hquiet : activeFlapping true policy healthy
        (recordSample true healthy state).history.items = false := by
      rw [hrecorded, ← (hname true).mpr rfl, activeFlapping_map hname.injective] at hactive
      exact hactive
    have hheld : canRelease true policy now (recordSample true healthy state) = false := by
      unfold canRelease
      rw [if_pos]
      have hlonger := lt_max_zero hnow
      rw [← h.quarantine hstate] at hlonger
      exact hlonger
    rw [updateState, judge, hquiet, hheld]
    simp
  have hright : updateServer policy now (name healthy) server =
      countHealthy (name healthy) (Cloudflare.recordStatus policy (name healthy) server) := by
    have hexpire : expire now (Cloudflare.recordStatus policy (name healthy) server) =
        Cloudflare.recordStatus policy (name healthy) server :=
      if_neg fun hend => not_le_of_lt hnow hend.2
    have hrecover : recover policy
        (countHealthy (name healthy) (Cloudflare.recordStatus policy (name healthy) server)) =
        countHealthy (name healthy) (Cloudflare.recordStatus policy (name healthy) server) := by
      refine if_neg fun hend => ?_
      have hend' : policy.recoveryHealthySamples ≤
          (recordSample true healthy state).consecutiveHealthy := hcount ▸ hend.2
      omega
    rw [updateServer, hexpire, hrecover]
    exact if_pos (.inr hgated)
  rw [hleft, hright]
  exact {
    maxlen := h.maxlen
    history := hrecorded
    healthy := hcount
    gated := h.gated
    few := fun _ => hsmall
    quarantine := fun _ => h.quarantine hstate
    fresh := fun hfree => by
      have hfree' : state.gated = false := hfree
      rw [hstate] at hfree'
      cases hfree' }

/-- A server that is not gated takes every sample as the shared detector does. -/
theorem inStep_of_not_gated (henabled : policy.enabled = true)
    (hrecovery : 1 ≤ policy.recoveryHealthySamples) (h : InStep policy name state server) (now : ℚ)
    (healthy : Bool) (hgated : server.gated = false) :
    InStep policy name (updateState true policy now healthy state)
      (updateServer policy now (name healthy) server) := by
  have hstate : state.gated = false := h.gated ▸ hgated
  obtain ⟨hepisodes, huntil, hquiet⟩ := h.fresh hstate
  have hrecorded := h.recordStatus healthy
  have hcount := countHealthy_eq hname h.healthy healthy
  have hactive : activeFlapping true policy healthy
      (recordSample true healthy state).history.items =
      isFlapping true policy (recordSample true healthy state).history.items :=
    activeFlapping_eq_isFlapping healthy hquiet
  have hflaps : isFlapping enabledStatus policy
      (Cloudflare.recordStatus policy (name healthy) server).statusHistory =
      isFlapping true policy (recordSample true healthy state).history.items := by
    rw [hrecorded, ← (hname true).mpr rfl, isFlapping_map hname.injective]
  have hright : updateServer policy now (name healthy) server =
      if isFlapping true policy (recordSample true healthy state).history.items = true then
        quarantine policy now
          (countHealthy (name healthy) (Cloudflare.recordStatus policy (name healthy) server))
      else countHealthy (name healthy) (Cloudflare.recordStatus policy (name healthy) server) := by
    have hfree : ¬ server.gated = true := Bool.eq_false_iff.mp hgated
    have hexpire : expire now (Cloudflare.recordStatus policy (name healthy) server) =
        Cloudflare.recordStatus policy (name healthy) server := if_neg fun hend => hfree hend.1
    have hrecover : recover policy
        (countHealthy (name healthy) (Cloudflare.recordStatus policy (name healthy) server)) =
        countHealthy (name healthy) (Cloudflare.recordStatus policy (name healthy) server) :=
      if_neg fun hend => hfree hend.1
    rw [updateServer, hexpire, hrecover, ← hflaps]
    exact if_neg fun hskip => hskip.elim (fun hoff => hoff henabled) hfree
  rw [hright, updateState, judge, hactive]
  cases hnew : isFlapping true policy (recordSample true healthy state).history.items with
  | true =>
    rw [if_pos rfl, if_pos rfl]
    have hepisode : nextEpisode (recordSample true healthy state) = 1 :=
      if_neg (Bool.eq_false_iff.mp hstate)
    have hpenalty : computePenaltySeconds enabledStatus policy
        (Cloudflare.recordStatus policy (name healthy) server).statusHistory
        (server.flapEpisodes + 1) = computePenaltySeconds true policy
          (recordSample true healthy state).history.items 1 := by
      rw [hrecorded, ← (hname true).mpr rfl, computePenaltySeconds_map hname.injective, hepisodes]
    exact {
      maxlen := h.maxlen
      history := hrecorded
      healthy := rfl
      gated := rfl
      few := fun _ => hrecovery
      quarantine := fun _ => by
        have hold : (recordSample true healthy state).quarantineUntil = .num 0 := huntil
        simp only [gate, quarantine, hold, hepisode]
        rw [← hpenalty]
        rfl
      fresh := fun hfree => (Bool.false_ne_true hfree.symm).elim }
  | false =>
    rw [if_neg Bool.false_ne_true, if_neg Bool.false_ne_true,
      if_neg fun hend => Bool.eq_false_iff.mp hstate hend.1]
    exact {
      maxlen := h.maxlen
      history := hrecorded
      healthy := hcount
      gated := h.gated
      few := fun hgated' => absurd hgated' (Bool.eq_false_iff.mp hstate)
      quarantine := fun hgated' => absurd hgated' (Bool.eq_false_iff.mp hstate)
      fresh := fun _ => ⟨hepisodes, huntil, hnew⟩ }

theorem InStep.update (henabled : policy.enabled = true)
    (hrecovery : 1 ≤ policy.recoveryHealthySamples) (h : InStep policy name state server)
    {healthy : Bool} (hcalm : CalmAt policy now (name healthy) server) :
    InStep policy name (updateState true policy now healthy state)
      (updateServer policy now (name healthy) server) := by
  cases hgated : server.gated with
  | true => exact inStep_of_gated hname hrecovery h hcalm hgated
  | false => exact inStep_of_not_gated hname henabled hrecovery h now healthy hgated

end

theorem InStep.isGated_iff (h : InStep policy name state server) (now : ℚ) :
    isGated true policy now state = (server.gated && PyFloat.lt (.num now) server.quarantineUntil) ↔
      (server.gated = true → PyFloat.lt (.num now) server.quarantineUntil = true) := by
  unfold isGated
  rw [h.gated]
  cases hstate : state.gated with
  | false => simp
  | true =>
    have hheld : canRelease true policy now state = false := by
      unfold canRelease
      split
      · rfl
      · rw [if_pos (h.few hstate)]
    rw [hheld]
    cases PyFloat.lt (.num now) server.quarantineUntil <;> simp

end

structure Sample where
  healthy : Bool
  now : ℚ

/-- How the three components name the key and its two statuses. -/
structure Feed where
  slug : Text
  connection : Bool → Connection
  connectionKey : ConnectionKey
  connection_key : ∀ healthy, connectionKeyFromDict (connection healthy) = some connectionKey
  connection_status : Names healthyStatus fun healthy =>
    (connection healthy).lastHealthStatus.getD "unknown"
  session : Bool → Mcpc.Session
  sessionKey : Mcpc.SessionKey
  session_key : ∀ healthy, Mcpc.sessionKeyFromDict (session healthy) = some sessionKey
  session_status : Names Mcpc.liveStatus fun healthy => Mcpc.sessionStatus (session healthy)
  serverKey : Cloudflare.ServerKey
  serverStatus : Bool → Text
  server_status : Names Cloudflare.enabledStatus serverStatus

/-- The statuses that `derive_connection_statuses` reads. -/
def Feed.connectionStatus (feed : Feed) (healthy : Bool) : Text :=
  (feed.connection healthy).lastHealthStatus.getD "unknown"

/-- The statuses that `derive_session_statuses` reads. -/
def Feed.sessionStatus (feed : Feed) (healthy : Bool) : Text :=
  Mcpc.sessionStatus (feed.session healthy)

variable (feed : Feed)

theorem Feed.connectionStatus_true : feed.connectionStatus true = healthyStatus :=
  (feed.connection_status true).mpr rfl

theorem Feed.sessionStatus_true : feed.sessionStatus true = Mcpc.liveStatus :=
  (feed.session_status true).mpr rfl

theorem Feed.connectionStatus_injective :
    Function.Injective feed.connectionStatus := feed.connection_status.injective

theorem Feed.sessionStatus_injective : Function.Injective feed.sessionStatus :=
  feed.session_status.injective

/-- The dictionary with one entry. -/
def only {κ α : Type} [DecidableEq κ] (key : κ) (value : α) : Dict κ α := Dict.empty.set key value

theorem mem_keys_filter_iff {κ α : Type} [DecidableEq κ] {d : Dict κ α} {key : κ}
    {p : α → Bool} {value : Option α} (h : d.get? key = value) :
    key ∈ (d.filter fun _ v => p v).keys ↔ ∃ v, value = some v ∧ p v = true := by
  rw [Dict.mem_keys_iff]
  simp only [Dict.get?_filter, h, filter_eq_some_iff]

variable (policy : FlappingPolicy) (feed : Feed)

variable (samples : List Sample)

/-- The shared detector on the samples of the key. -/
def runDetector : FlapState Bool :=
  samples.foldl (fun state sample => updateState true policy sample.now sample.healthy state)
    (.init Bool policy)

def runConnections : Executor.FlappingStates :=
  samples.foldl (fun states sample => Executor.updateFlappingStates policy feed.slug sample.now
    [feed.connection sample.healthy] states) Dict.empty

def runSessions : Mcpc.FlappingStates :=
  samples.foldl (fun states sample => Mcpc.updateFlappingStates policy feed.slug sample.now
    [feed.session sample.healthy] states) Dict.empty

def runServers : Cloudflare.FlappingStates :=
  samples.foldl (fun states sample => Cloudflare.updateFlappingStates policy feed.slug sample.now
    (only feed.serverKey (feed.serverStatus sample.healthy)) states) Dict.empty

/-- `gated_connections` names the key. -/
def ConnectionGated (now : ℚ) : Prop :=
  feed.connectionKey ∈ gatedConnections policy feed.slug now (runConnections policy feed samples)

/-- `gated_sessions` names the key. -/
def SessionGated (now : ℚ) : Prop :=
  feed.sessionKey ∈ Mcpc.gatedSessions policy feed.slug now (runSessions policy feed samples)

/-- `gated_servers` names the key. -/
def ServerGated (now : ℚ) : Prop :=
  feed.serverKey ∈ Cloudflare.gatedServers feed.slug now (runServers policy feed samples)

/-- The state of a server before its next sample. -/
def serverBefore : Cloudflare.ServerFlapState :=
  ((((runServers policy feed samples).get? feed.slug).getD Dict.empty).get?
    feed.serverKey.serverId).getD .init

/-- No sample ends, extends or cuts short the quarantine of the server. -/
def CalmRun : Prop :=
  ∀ before sample after, samples = before ++ sample :: after →
    CalmAt policy sample.now (feed.serverStatus sample.healthy) (serverBefore policy feed before)

/-- The quarantine is not over at `now`. -/
def CalmQuery (now : ℚ) : Prop :=
  (serverBefore policy feed samples).gated = true →
    PyFloat.lt (.num now) (serverBefore policy feed samples).quarantineUntil = true

/-- The three detectors give one answer. -/
def Agree (now : ℚ) : Prop :=
  (ConnectionGated policy feed samples now ↔ SessionGated policy feed samples now) ∧
    (SessionGated policy feed samples now ↔ ServerGated policy feed samples now)

variable {policy : FlappingPolicy} {feed : Feed}
variable (sample : Sample)

theorem runDetector_concat :
    runDetector policy (samples ++ [sample]) =
      updateState true policy sample.now sample.healthy (runDetector policy samples) :=
  foldl_append

theorem statusOf_connection :
    (deriveConnectionStatuses [feed.connection sample.healthy]).get? feed.connectionKey =
      some (feed.connectionStatus sample.healthy) := by
  simp only [deriveConnectionStatuses, foldl_cons, foldl_nil, feed.connection_key,
    Dict.get?_set_self]
  rfl

theorem connection_run (henabled : policy.enabled = true) (samples : List Sample) :
    ofConnection ((stateOf (runConnections policy feed samples) feed.slug
      feed.connectionKey).getD (.init policy)) =
      (runDetector policy samples).map feed.connectionStatus := by
  induction samples using List.reverseRecOn with
  | nil => rfl
  | append_singleton samples sample ih =>
    have hstep : stateOf (runConnections policy feed (samples ++ [sample])) feed.slug
        feed.connectionKey =
        if feed.slug = feed.slug then
          keyStep policy sample.now
            (Update.statusOf ⟨feed.slug, sample.now, [feed.connection sample.healthy]⟩ feed.slug
              feed.connectionKey)
            (stateOf (runConnections policy feed samples) feed.slug feed.connectionKey)
        else stateOf (runConnections policy feed samples) feed.slug feed.connectionKey := by
      rw [runConnections, foldl_append]
      exact stateOf_update henabled ⟨feed.slug, sample.now, [feed.connection sample.healthy]⟩ _
    rw [hstep, if_pos rfl, Update.statusOf, if_pos rfl, statusOf_connection, keyStep,
      getD_some, ofConnection_updateConnection, ih, ← feed.connectionStatus_true,
      updateState_map feed.connectionStatus_injective, runDetector_concat]

theorem connectionGated_iff (henabled : policy.enabled = true) (samples : List Sample) (now : ℚ) :
    ConnectionGated policy feed samples now ↔
      isGated true policy now (runDetector policy samples) = true := by
  rw [← isGated_map feed.connectionStatus_injective, ← connection_run henabled,
    feed.connectionStatus_true, isGated, canRelease_ofConnection]
  unfold ConnectionGated gatedConnections
  rw [if_neg (not_not_intro henabled), mem_keys_filter_iff rfl]
  change (∃ state, stateOf _ _ _ = some state ∧ _) ↔ _
  cases stateOf (runConnections policy feed samples) feed.slug feed.connectionKey with
  | none =>
    simp only [reduceCtorEq, false_and, exists_false, false_iff]
    exact Bool.false_ne_true
  | some state =>
    simp only [some.injEq, exists_eq_left', getD_some]
    rfl

def sessionState (states : Mcpc.FlappingStates) (feed : Feed) : Option Mcpc.SessionFlapState :=
  ((states.get? feed.slug).getD Dict.empty).get? feed.sessionKey

theorem get?_deriveSessionStatuses :
    (Mcpc.deriveSessionStatuses [feed.session sample.healthy]).get? feed.sessionKey =
      some (feed.sessionStatus sample.healthy) := by
  simp only [Mcpc.deriveSessionStatuses, foldl_cons, foldl_nil, feed.session_key,
    Dict.get?_set_self]
  rfl

section

variable (henabled : policy.enabled = true)
include henabled

theorem sessionState_update (sample : Sample) (states : Mcpc.FlappingStates) :
    sessionState (Mcpc.updateFlappingStates policy feed.slug sample.now
      [feed.session sample.healthy] states) feed =
      some (Mcpc.updateSession policy sample.now (feed.sessionStatus sample.healthy)
        ((sessionState states feed).getD (.init Text policy))) := by
  have hloop : ((Mcpc.deriveSessionStatuses [feed.session sample.healthy]).entries.foldl
      (Mcpc.updateKey policy sample.now) ((states.get? feed.slug).getD Dict.empty)).get?
        feed.sessionKey = _ :=
    Dict.get?_foldl_set
      (fun state status =>
        Mcpc.updateSession policy sample.now status (state.getD (.init Text policy)))
      (Mcpc.deriveSessionStatuses [feed.session sample.healthy]) _ feed.sessionKey
  rw [get?_deriveSessionStatuses] at hloop
  unfold Mcpc.updateFlappingStates sessionState
  rw [if_neg (not_not_intro henabled), Dict.get?_set_self, getD_some, Mcpc.updateBucket,
    Dict.get?_filter, hloop, Dict.contains, get?_deriveSessionStatuses]
  rfl

theorem session_run (samples : List Sample) :
    (sessionState (runSessions policy feed samples) feed).getD (.init Text policy) =
      (runDetector policy samples).map feed.sessionStatus := by
  induction samples using List.reverseRecOn with
  | nil => rfl
  | append_singleton samples sample ih =>
    rw [runSessions, foldl_append, foldl_cons, foldl_nil, ← runSessions,
      sessionState_update henabled, getD_some, ih, Mcpc.updateSession,
      ← feed.sessionStatus_true, updateState_map feed.sessionStatus_injective, runDetector_concat]

theorem sessionGated_iff (samples : List Sample) (now : ℚ) :
    SessionGated policy feed samples now ↔
      isGated true policy now (runDetector policy samples) = true := by
  rw [← isGated_map feed.sessionStatus_injective, ← session_run henabled, feed.sessionStatus_true]
  unfold SessionGated Mcpc.gatedSessions
  rw [if_neg (not_not_intro henabled), mem_keys_filter_iff rfl]
  change (∃ state, sessionState _ _ = some state ∧ _) ↔ _
  cases sessionState (runSessions policy feed samples) feed with
  | none =>
    simp only [reduceCtorEq, false_and, exists_false, false_iff]
    exact Bool.false_ne_true
  | some state => simp only [some.injEq, exists_eq_left', getD_some]

end

theorem serverBefore_concat :
    serverBefore policy feed (samples ++ [sample]) =
      Cloudflare.updateServer policy sample.now (feed.serverStatus sample.healthy)
        (serverBefore policy feed samples) := by
  unfold serverBefore runServers
  rw [foldl_append, foldl_cons, foldl_nil, Cloudflare.updateFlappingStates,
    Dict.get?_set_self, getD_some]
  change ((Cloudflare.updateKey policy sample.now _ _).get? _).getD _ = _
  rw [Cloudflare.updateKey, Dict.get?_set_self, getD_some]

theorem server_run (henabled : policy.enabled = true)
    (hrecovery : 1 ≤ policy.recoveryHealthySamples) {samples : List Sample}
    (hcalm : CalmRun policy feed samples) :
    InStep policy feed.serverStatus (runDetector policy samples)
      (serverBefore policy feed samples) := by
  induction samples using List.reverseRecOn with
  | nil => exact inStep_init policy feed.serverStatus
  | append_singleton samples sample ih =>
    have hbefore : CalmRun policy feed samples := by
      intro before sample' after hsplit
      refine hcalm before sample' (after ++ [sample]) ?_
      rw [hsplit, List.append_assoc, List.cons_append]
    rw [runDetector_concat, serverBefore_concat]
    exact (ih hbefore).update feed.server_status henabled hrecovery (hcalm samples sample [] rfl)

theorem serverGated_iff (now : ℚ) :
    ServerGated policy feed samples now ↔ ((serverBefore policy feed samples).gated &&
        PyFloat.lt (.num now) (serverBefore policy feed samples).quarantineUntil) = true := by
  have hkey : ServerGated policy feed samples now ↔ feed.serverKey.serverId ∈
      ((((runServers policy feed samples).get? feed.slug).getD Dict.empty).filter
        fun _ state => state.gated && PyFloat.lt (.num now) state.quarantineUntil).keys :=
    List.mem_map_of_injective (f := Cloudflare.ServerKey.mk)
      (fun _ _ h => Cloudflare.ServerKey.mk.inj h)
  rw [hkey, mem_keys_filter_iff rfl]
  unfold serverBefore
  cases (((runServers policy feed samples).get? feed.slug).getD Dict.empty).get?
      feed.serverKey.serverId with
  | none =>
    simp only [reduceCtorEq, false_and, exists_false, false_iff]
    exact Bool.false_ne_true
  | some state => simp only [some.injEq, exists_eq_left', getD_some]

/-- For every enabled policy that a configuration yields and all samples of one key, the detectors
of connections and of sessions agree at every time. After a run in which no sample ends, extends or
cuts short the quarantine of the server, the detector of servers agrees with them at exactly the
times at which the quarantine is not over. -/
theorem agree_iff_calmQuery {numerals : Numerals} {raw : Option RawPolicy}
    (hpolicy : flappingPolicyFromConfig numerals raw = some policy)
    (henabled : policy.enabled = true) (feed : Feed) (samples : List Sample) (now : ℚ) :
    (ConnectionGated policy feed samples now ↔ SessionGated policy feed samples now) ∧
      (CalmRun policy feed samples →
        (Agree policy feed samples now ↔ CalmQuery policy feed samples now)) := by
  have hsame : ConnectionGated policy feed samples now ↔ SessionGated policy feed samples now :=
    (connectionGated_iff henabled samples now).trans (sessionGated_iff henabled samples now).symm
  refine ⟨hsame, fun hcalm => ?_⟩
  have hstep := server_run henabled (flappingPolicyFromConfig_recovery hpolicy) hcalm
  calc Agree policy feed samples now
      ↔ (SessionGated policy feed samples now ↔ ServerGated policy feed samples now) :=
        and_iff_right hsame
    _ ↔ isGated true policy now (runDetector policy samples) =
          ((serverBefore policy feed samples).gated &&
            PyFloat.lt (.num now) (serverBefore policy feed samples).quarantineUntil) := by
        rw [sessionGated_iff henabled, serverGated_iff]
        exact Bool.eq_iff_iff.symm
    _ ↔ CalmQuery policy feed samples now := hstep.isGated_iff now

/-- The mailbox of `acme`, the session `mail` and the server `mail`. -/
def mailFeed : Feed where
  slug := "main"
  connection healthy := ⟨"acme", "mail", "inbox",
    some (if healthy then healthyStatus else "degraded")⟩
  connectionKey := ⟨"acme", "mail", "inbox"⟩
  connection_key healthy := by cases healthy <;> decide
  connection_status healthy := by cases healthy <;> decide
  session healthy := ⟨"mail", some (if healthy then Mcpc.liveStatus else "crashed")⟩
  sessionKey := ⟨"mail"⟩
  session_key healthy := by cases healthy <;> decide
  session_status healthy := by cases healthy <;> decide
  serverKey := ⟨"mail"⟩
  serverStatus healthy := if healthy then Cloudflare.enabledStatus else Cloudflare.disabledStatus
  server_status healthy := by cases healthy <;> decide

/-- Healthy, unhealthy and healthy again. -/
def oneFailure : List Sample := [⟨true, 0⟩, ⟨false, 10⟩, ⟨true, 20⟩]

theorem oneFailure_calm : CalmRun .default mailFeed oneFailure := by
  intro before sample after hsplit hgated
  have hfree : ∀ k < 3,
      (serverBefore .default mailFeed (oneFailure.take k)).gated = false := by decide +kernel
  have hbefore : before = oneFailure.take before.length := by
    rw [hsplit, take_left]
  have hlength : before.length < 3 := by
    have := congrArg List.length hsplit
    simp only [length_append, length_cons] at this
    change 3 = _ at this
    omega
  rw [hbefore, hfree _ hlength] at hgated
  cases hgated

theorem agree_iff_calmQuery_oneFailure : Agree .default mailFeed oneFailure 100 :=
  ((@agree_iff_calmQuery .default ⟨fun _ => none, fun _ => none⟩ none rfl rfl mailFeed oneFailure 100).2
    oneFailure_calm).mpr fun _ => by decide +kernel

/-- At the end of its first quarantine the server is free, and the connection is not. -/
theorem oneFailure_disagree :
    flappingPolicyFromConfig ⟨fun _ => none, fun _ => none⟩ none = some .default ∧
      ConnectionGated .default mailFeed oneFailure 1000 ∧
      SessionGated .default mailFeed oneFailure 1000 ∧
      ¬ ServerGated .default mailFeed oneFailure 1000 := by
  refine ⟨rfl, ?_, ?_, ?_⟩
  · unfold ConnectionGated
    decide +kernel
  · unfold SessionGated
    decide +kernel
  · unfold ServerGated
    decide +kernel

end ClearYourTools.HealthGates
