import Mathlib.Algebra.Order.Floor.Ring
import Mathlib.Tactic.Linarith
import ClearYourTools.Executor.Proofs.Recovery
import ClearYourTools.Misc.Mapped

/-!
# Flapping state across a restart

Every gated connection comes back with its history, counters and deadline, unless a part of its key
has the separator in it or its deadline is no date.
-/

namespace ClearYourTools.Executor

open Misc List Option Dict

/-- No part of the key has the separator in it. -/
def Unsplit (key : ConnectionKey) : Prop := '/' ∉ key.owner ∧ '/' ∉ key.integration ∧ '/' ∉ key.name

/-- The parts of a key that a connection has. -/
structure KeyParts (key : ConnectionKey) : Prop where
  owner : Text.strip key.owner = key.owner ∧ key.owner ≠ []
  integration : Text.strip key.integration = key.integration ∧ key.integration ≠ []
  name : Text.strip key.name = key.name ∧ key.name ≠ []

variable {key : ConnectionKey}

theorem keyParts_of_connection {conn : Connection} (h : connectionKeyFromDict conn = some key) :
    KeyParts key := by
  simp only [connectionKeyFromDict] at h
  split at h
  · cases h
  · rename_i hne
    rw [not_or, not_or] at hne
    cases h
    exact ⟨⟨Text.strip_strip _, hne.1⟩, ⟨Text.strip_strip _, hne.2.1⟩,
      ⟨Text.strip_strip _, hne.2.2⟩⟩

theorem splitOn_connectionKeyText (h : Unsplit key) :
    (connectionKeyText key).splitOn '/' = [key.owner, key.integration, key.name] := by
  rw [connectionKeyText, Text.join]
  refine splitOn_intercalate '/' (fun part hpart => ?_) (by simp)
  simp only [mem_cons, not_mem_nil, or_false] at hpart
  rcases hpart with rfl | rfl | rfl
  · exact h.1
  · exact h.2.1
  · exact h.2.2

theorem parseConnectionKey_text (hkey : KeyParts key) (h : Unsplit key) :
    parseConnectionKey (connectionKeyText key) = some key := by
  have hne : ¬ (key.owner = [] ∨ key.integration = [] ∨ key.name = []) := by
    rw [not_or, not_or]
    exact ⟨hkey.owner.2, hkey.integration.2, hkey.name.2⟩
  rw [parseConnectionKey, splitOn_connectionKeyText h]
  simp only [hkey.owner.1, hkey.integration.1, hkey.name.1, if_neg hne]

theorem count_join (a b c : Text) :
    (Text.join ['/'] [a, b, c]).count '/' = a.count '/' + (b.count '/' + (c.count '/' + 2)) := by
  have hjoin : Text.join ['/'] [a, b, c] = a ++ '/' :: (b ++ '/' :: c) := by
    simp [Text.join, List.intercalate]
  rw [hjoin]
  simp only [count_append, count_cons_self]
  omega

theorem of_parseConnectionKey {text : Text} (h : parseConnectionKey text = some key) :
    Unsplit key ∧ ∃ a b c, text.splitOn '/' = [a, b, c] ∧
      key = ⟨Text.strip a, Text.strip b, Text.strip c⟩ := by
  rw [parseConnectionKey] at h
  split at h
  · rename_i a b c hsplit
    split at h
    · cases h
    cases h
    have hpieces := Text.notMem_splitOn '/' text
    rw [hsplit] at hpieces
    simp only [forall_mem_cons] at hpieces
    exact ⟨⟨fun hin => hpieces.1 (Text.mem_of_mem_strip hin),
      fun hin => hpieces.2.1 (Text.mem_of_mem_strip hin),
      fun hin => hpieces.2.2.1 (Text.mem_of_mem_strip hin)⟩, a, b, c, hsplit, rfl⟩
  · cases h

theorem eq_of_parse_text {other : ConnectionKey} (hother : KeyParts other)
    (h : parseConnectionKey (connectionKeyText other) = some key) : other = key := by
  obtain ⟨-, a, b, c, hsplit, hkey⟩ := of_parseConnectionKey h
  have hunsplit : Unsplit other := by
    -- three pieces are joined by two separators, so none is left for the parts
    have hjoin : Text.join ['/'] [a, b, c] = connectionKeyText other := by
      rw [Text.join, ← hsplit]
      exact intercalate_splitOn '/'
    have hpieces := Text.notMem_splitOn '/' (connectionKeyText other)
    rw [hsplit] at hpieces
    simp only [forall_mem_cons, ← count_eq_zero] at hpieces
    have hcount := congrArg (List.count '/') hjoin
    rw [connectionKeyText, count_join, count_join, hpieces.1, hpieces.2.1, hpieces.2.2.1] at hcount
    refine ⟨count_eq_zero.mp ?_, count_eq_zero.mp ?_, count_eq_zero.mp ?_⟩ <;> omega
  rw [splitOn_connectionKeyText hunsplit] at hsplit
  simp only [List.cons.injEq, and_true] at hsplit
  obtain ⟨rfl, rfl, rfl⟩ := hsplit
  rw [hkey, hother.owner.1, hother.integration.1, hother.name.1]

theorem abs_roundHalfEven_sub (x : ℚ) : |(roundHalfEven x : ℚ) - x| ≤ 1 / 2 := by
  have hle := Int.floor_le x
  have hlt := Int.lt_floor_add_one x
  rw [abs_le, roundHalfEven]
  split
  · constructor <;> linarith
  split
  · push_cast
    constructor <;> linarith
  · split
    · constructor <;> linarith
    · push_cast
      constructor <;> linarith

theorem abs_timestamp_sub {x : ℚ} {deadline : Datetime} (h : fromtimestamp (.num x) = some deadline) :
    |timestamp deadline - x| ≤ 1 / 1000000 := by
  rw [fromtimestamp] at h
  split at h
  · cases h
    have hround := abs_roundHalfEven_sub (x * 1000000)
    rw [abs_le] at hround ⊢
    rw [timestamp]
    constructor <;> linarith [hround.1, hround.2]
  · cases h

theorem isNum_of_fromtimestamp {x : PyFloat} (h : (fromtimestamp x).isSome = true) : IsNum x := by
  cases x with
  | num q => exact ⟨q, rfl⟩
  | posInf => cases h
  | negInf => cases h
  | nan => cases h

/-- The deadline of a loaded state is the saved one, up to a microsecond: what is left of it
lies ahead on the new clock, and there is none when nothing is left or there was none. -/
def SameDeadline (save load : ClockReading) (before after : ConnectionFlapState) : Prop :=
  (PyFloat.lt (.num 0) before.quarantineUntil = false → after.quarantineUntil = .num 0) ∧
  (PyFloat.lt (.num 0) before.quarantineUntil = true → ∃ deadline left : ℚ,
    savedDeadline save before = .num deadline ∧
      |left - (deadline - load.wall)| ≤ 1 / 1000000 ∧
      after.quarantineUntil = if 0 < left then .num (load.monotonic + left) else .num 0)

/-- What the next process has of the state of a gated connection. -/
structure SameState (save load : ClockReading) (before after : ConnectionFlapState) : Prop where
  statusHistory : after.statusHistory = before.statusHistory
  gated : after.gated = before.gated
  consecutiveHealthy : after.consecutiveHealthy = before.consecutiveHealthy
  flapEpisodes : after.flapEpisodes = before.flapEpisodes
  deadline : SameDeadline save load before after

/-- The next process keeps the connection from selection: at the time of loading when its
saved deadline lies ahead, and at every time when its samples do not allow a release. -/
structure StillGated (policy : FlappingPolicy) (slug : Text) (save load : ClockReading)
    (key : ConnectionKey) (before : ConnectionFlapState) (loaded : FlappingStates) : Prop where
  quarantined : PyFloat.lt (.num 0) before.quarantineUntil = true →
    ∀ deadline, savedDeadline save before = .num deadline →
      load.wall + 1 / 1000000 < deadline → key ∈ gatedConnections policy slug load.monotonic loaded
  unstable : (∀ now, canRelease policy now before = false) →
    ∀ now, key ∈ gatedConnections policy slug now loaded

/-- Saving and loading succeed, and every gated connection of the executor comes back. -/
def SurvivesRestart (numerals : Numerals) (policy : FlappingPolicy) (slug : Text)
    (save load : ClockReading) (states fresh : FlappingStates) : Prop :=
  ∃ payload loaded, flappingStateToDisk policy save slug states = some payload ∧
    loadFlappingStateFromDisk numerals policy load slug payload fresh = some loaded ∧
    ∀ key state, stateOf states slug key = some state → state.gated = true →
      ∃ after, stateOf loaded slug key = some after ∧ SameState save load state after ∧
        StillGated policy slug save load key state loaded

/-- The deadline of a state is a date. -/
def DeadlineFits (save : ClockReading) (state : ConnectionFlapState) : Prop :=
  PyFloat.lt (.num 0) state.quarantineUntil = true →
    (fromtimestamp (savedDeadline save state)).isSome = true

/-- What a run has of the state of a connection: the window has the size of the policy, and an
ungated connection has no quarantine. -/
structure DiskInv (policy : FlappingPolicy) (state : ConnectionFlapState) : Prop where
  maxlen : state.statusHistory.maxlen = policy.windowSize
  length_le : state.statusHistory.items.length ≤ policy.windowSize
  ungated : state.gated = false → state.quarantineUntil = .num 0

section

variable {policy : FlappingPolicy}

variable {state : ConnectionFlapState}

theorem recordSample_diskInv (status : Text) (h : DiskInv policy state) :
    DiskInv policy (recordSample status state) where
  maxlen := h.maxlen
  length_le := by
    have hmaxlen := h.maxlen
    simp only [recordSample, Deque.append, length_drop, length_append, length_singleton]
    omega
  ungated := h.ungated

theorem updateConnection_diskInv (now : ℚ) (status : Text) (h : DiskInv policy state) :
    DiskInv policy (updateConnection policy now status state) := by
  have hrec := recordSample_diskInv status h
  rcases updateConnection_cases policy now status state with heq | ⟨-, -, heq⟩ | heq <;> rw [heq]
  · exact ⟨hrec.maxlen, hrec.length_le, fun hgated => by cases hgated⟩
  · exact ⟨hrec.maxlen, Nat.zero_le _, fun _ => rfl⟩
  · exact hrec

theorem runUpdates_diskInv {slug : Text} {key : ConnectionKey} (us : List Update)
    (h : stateOf (runUpdates policy us Dict.empty) slug key = some state) :
    DiskInv policy state := by
  have hstep : ∀ (now : ℚ) (seen : Option Text) (before : Option ConnectionFlapState),
      (∀ s ∈ before, DiskInv policy s) → ∀ s ∈ keyStep policy now seen before, DiskInv policy s := by
    intro now seen before hinv after hafter
    cases seen with
    | none => exact hinv after (filter_eq_some_iff.mp hafter).1
    | some status =>
      obtain rfl := Option.some.inj hafter
      apply updateConnection_diskInv
      cases before with
      | none => exact ⟨rfl, Nat.zero_le _, fun _ => rfl⟩
      | some state => exact hinv state rfl
  have hkeeps := @runUpdates_keeps policy (fun state => ∀ s ∈ state, DiskInv policy s) slug key
    (enabled_of_state us h) hstep us Dict.empty fun s hs => by cases hs
  exact hkeeps state h

end

section

variable {policy : FlappingPolicy} {save : ClockReading}

theorem isSome_diskItem {state : ConnectionFlapState} :
    (diskItem save state).isSome = true ↔ DeadlineFits save state := by
  rw [diskItem, DeadlineFits]
  cases PyFloat.lt (.num 0) state.quarantineUntil with
  | true => simp
  | false => simp

theorem connectionStateFromDiskItem_diskItem (numerals : Numerals) (load : ClockReading) {state : ConnectionFlapState}
    (hinv : DiskInv policy state) {item : DiskItem} (h : diskItem save state = some item) :
    ∃ after, connectionStateFromDiskItem numerals load policy.windowSize item = some after ∧
      SameState save load state after := by
  have hhistory : ∀ (items : List Text) (d : Deque), d.items.length + items.length ≤ d.maxlen →
      items.foldl Deque.append d = { d with items := d.items ++ items } := by
    intro items
    induction items with
    | nil => intro d _; simp
    | cons item items ih =>
      intro d hle
      rw [length_cons] at hle
      have happend : d.append item = { d with items := d.items ++ [item] } := by
        have hzero : d.items.length + 1 - d.maxlen = 0 := by omega
        rw [Deque.append, hzero, drop_zero]
      rw [foldl_cons, happend, ih]
      · simp
      · simp only [length_append, length_singleton]
        omega
  have hitems : state.statusHistory.items.foldl Deque.append ⟨policy.windowSize, []⟩ =
      state.statusHistory := by
    rw [hhistory _ _ (by simpa using hinv.length_le), nil_append, ← hinv.maxlen]
  rw [diskItem] at h
  cases hlt : PyFloat.lt (.num 0) state.quarantineUntil with
  | false =>
    rw [hlt] at h
    cases h
    refine ⟨_, rfl, hitems, rfl, rfl, rfl, fun _ => rfl, fun htrue => ?_⟩
    rw [hlt] at htrue
    cases htrue
  | true =>
    rw [hlt] at h
    obtain ⟨deadline, hdeadline, rfl⟩ := map_eq_some_iff.mp h
    obtain ⟨x, hx⟩ := isNum_of_fromtimestamp (isSome_of_eq_some hdeadline)
    rw [hx] at hdeadline
    refine ⟨_, rfl, hitems, rfl, rfl, rfl, fun hfalse => ?_, fun _ =>
      ⟨x, timestamp deadline - load.wall, hx, ?_, rfl⟩⟩
    · rw [hlt] at hfalse
      cases hfalse
    · have habs := abs_timestamp_sub hdeadline
      rwa [show timestamp deadline - load.wall - (x - load.wall) = timestamp deadline - x by ring]

theorem mem_savedStates {bucket : Bucket} {e : ConnectionKey × ConnectionFlapState} :
    e ∈ savedStates bucket ↔
      e ∈ bucket.entries ∧ (e.2.gated = true ∨ e.2.statusHistory.items ≠ []) := by
  rw [savedStates, mem_filter, mem_mergeSort, Bool.or_eq_true, Bool.not_eq_true',
    isEmpty_eq_false_iff]

theorem flappingStateToDisk_isSome {slug : Text} {states : FlappingStates} :
    (flappingStateToDisk policy save slug states).isSome = true ↔
      ∀ e ∈ savedStates ((states.get? slug).getD Dict.empty), DeadlineFits save e.2 := by
  rw [flappingStateToDisk, isSome_map, isSome_mapM_iff]
  simp only [isSome_map, isSome_diskItem]

end

section

variable (numerals : Numerals) (load : ClockReading) (windowSize : Int)

/-- The key and the state that an item restores. -/
def restoredPair (entry : Text × Option DiskItem) : Option (ConnectionKey × ConnectionFlapState) :=
  entry.2.bind fun item => (parseConnectionKey entry.1).bind fun key =>
    (connectionStateFromDiskItem numerals load windowSize item).map fun state => (key, state)

variable {entries : List (Text × Option DiskItem)}

theorem foldlM_restoreItem (hok : ∀ e ∈ entries, ∀ item ∈ e.2,
      (connectionStateFromDiskItem numerals load windowSize item).isSome = true)
    (restored : Bucket) :
    entries.foldlM (restoreItem numerals load windowSize) restored =
      some (restored.writeAll (entries.filterMap (restoredPair numerals load windowSize))) := by
  induction entries generalizing restored with
  | nil => rfl
  | cons e entries ih =>
    rw [forall_mem_cons] at hok
    obtain ⟨text, item⟩ := e
    rw [foldlM_cons, filterMap_cons]
    cases item with
    | none => exact ih hok.2 restored
    | some item =>
      obtain ⟨state, hstate⟩ := isSome_iff_exists.mp (hok.1 item rfl)
      cases hkey : parseConnectionKey text with
      | none =>
        simp only [restoreItem, restoredPair, hkey, bind_some, bind_none]
        exact ih hok.2 restored
      | some key =>
        simp only [restoreItem, restoredPair, hkey, hstate, bind_some, map_some]
        exact ih hok.2 _

variable {numerals load windowSize}

theorem unsplit_of_restored {restored after : Bucket}
    (h : entries.foldlM (restoreItem numerals load windowSize) restored = some after)
    (hbefore : restored.Forall fun key _ => Unsplit key) : after.Forall fun key _ => Unsplit key := by
  induction entries generalizing restored with
  | nil =>
    cases h
    exact hbefore
  | cons e entries ih =>
    obtain ⟨text, item⟩ := e
    rw [foldlM_cons] at h
    obtain ⟨next, hnext, hrest⟩ := bind_eq_some_iff.mp h
    refine ih hrest ?_
    cases item with
    | none =>
      cases hnext
      exact hbefore
    | some item =>
      cases hkey : parseConnectionKey text with
      | none =>
        simp only [restoreItem, hkey] at hnext
        cases hnext
        exact hbefore
      | some key =>
        simp only [restoreItem, hkey] at hnext
        obtain ⟨state, -, rfl⟩ := map_eq_some_iff.mp hnext
        exact hbefore.set (of_parseConnectionKey hkey).1

end

section

variable {policy : FlappingPolicy} {slug : Text} {save load : ClockReading}
  {states : FlappingStates}

variable {key : ConnectionKey}

theorem mem_gatedConnections_of {state : ConnectionFlapState} {now : ℚ}
    (henabled : policy.enabled = true) (h : stateOf states slug key = some state)
    (hgated : state.gated = true) (hheld : canRelease policy now state = false) :
    key ∈ gatedConnections policy slug now states := by
  simp only [gatedConnections, henabled, not_true_eq_false, if_false]
  rw [mem_keys_iff]
  refine ⟨state, ?_⟩
  rw [stateOf] at h
  rw [get?_filter, h]
  simp [Option.filter, hgated, hheld]

variable {before after : ConnectionFlapState}

theorem canRelease_congr {now later : ℚ} (hhistory : after.statusHistory = before.statusHistory)
    (hcount : after.consecutiveHealthy = before.consecutiveHealthy)
    (hover : PyFloat.lt (.num later) before.quarantineUntil = false)
    (h : canRelease policy later before = false) : canRelease policy now after = false := by
  simp only [canRelease, hhistory, hcount] at h ⊢
  rw [hover, if_neg (by simp)] at h
  rw [h]
  exact ite_self _

theorem SameState.stillGated (henabled : policy.enabled = true) (hgated : before.gated = true)
    (h : stateOf states slug key = some after) (hsame : SameState save load before after) :
    StillGated policy slug save load key before states := by
  have hafter : after.gated = true := hsame.gated.trans hgated
  constructor
  · intro hlt deadline hdeadline hahead
    obtain ⟨deadline', left, hdeadline', hleft, hquarantine⟩ := hsame.deadline.2 hlt
    rw [hdeadline] at hdeadline'
    cases hdeadline'
    have hpos : 0 < left := by
      have hlower := (abs_le.mp hleft).1
      linarith
    rw [if_pos hpos] at hquarantine
    refine mem_gatedConnections_of henabled h hafter ?_
    have hnow : PyFloat.lt (.num load.monotonic) after.quarantineUntil = true := by
      rw [hquarantine, PyFloat.lt, decide_eq_true_eq]
      linarith
    rw [canRelease, if_pos hnow]
  · intro hunstable now
    refine mem_gatedConnections_of henabled h hafter ?_
    obtain ⟨later, hover⟩ : ∃ later : ℚ,
        PyFloat.lt (.num later) before.quarantineUntil = false := by
      cases hq : before.quarantineUntil with
      | num q => exact ⟨q, by simp [PyFloat.lt]⟩
      | negInf => exact ⟨0, rfl⟩
      | nan => exact ⟨0, rfl⟩
      | posInf =>
        -- an endless quarantine has no deadline to be saved
        have hlt : PyFloat.lt (.num 0) before.quarantineUntil = true := by rw [hq]; rfl
        obtain ⟨deadline, -, hdeadline, -, -⟩ := hsame.deadline.2 hlt
        rw [savedDeadline, hq] at hdeadline
        cases hdeadline
    exact canRelease_congr hsame.statusHistory hsame.consecutiveHealthy hover (hunstable later)

/-- The states of an executor that a run reaches. -/
structure ReachedStates (policy : FlappingPolicy) (slug : Text) (states : FlappingStates) : Prop where
  enabled : ∀ key state, stateOf states slug key = some state → policy.enabled = true
  inv : ∀ key state, stateOf states slug key = some state → DiskInv policy state
  parts : ∀ key state, stateOf states slug key = some state → KeyParts key

theorem reachedStates_runUpdates (policy : FlappingPolicy) (us : List Update) (slug : Text) :
    ReachedStates policy slug (runUpdates policy us Dict.empty) where
  enabled := fun _ _ h => enabled_of_state us h
  inv := fun _ _ h => runUpdates_diskInv us h
  parts := fun _ _ h => by
    obtain ⟨conn, hconn⟩ := exists_connection us (enabled_of_state us h) h
    exact keyParts_of_connection hconn

theorem exists_items (save : ClockReading) (hreached : ReachedStates policy slug states)
    (hfits : ∀ key state, stateOf states slug key = some state → state.gated = true →
      DeadlineFits save state) :
    ∃ items, ((savedStates ((states.get? slug).getD Dict.empty)).mapM fun e =>
        (diskItem save e.2).map fun item => (connectionKeyText e.1, some item)) = some items ∧
      List.Forall₂ (fun e pair => stateOf states slug e.1 = some e.2 ∧
        ∃ item, diskItem save e.2 = some item ∧ pair = (connectionKeyText e.1, some item))
        (savedStates ((states.get? slug).getD Dict.empty)) items := by
  have hstate : ∀ e ∈ savedStates ((states.get? slug).getD Dict.empty),
      stateOf states slug e.1 = some e.2 := fun e he =>
    get?_of_mem_entries (mem_savedStates.mp he).1
  have hsome : ((savedStates ((states.get? slug).getD Dict.empty)).mapM fun e =>
      (diskItem save e.2).map fun item => (connectionKeyText e.1, some item)).isSome = true := by
    rw [isSome_mapM_iff]
    intro e he
    rw [isSome_map, isSome_diskItem]
    cases hgated : e.2.gated with
    | true => exact hfits e.1 e.2 (hstate e he) hgated
    | false =>
      intro hlt
      rw [(hreached.inv e.1 e.2 (hstate e he)).ungated hgated] at hlt
      cases hlt
  obtain ⟨items, hitems⟩ := isSome_iff_exists.mp hsome
  refine ⟨items, hitems, ?_⟩
  have hpairs := forall₂_of_mapM hitems
  refine forall₂_iff_zip.mpr ⟨hpairs.length_eq, fun {e pair} hmem => ?_⟩
  obtain ⟨item, hitem, heq⟩ := map_eq_some_iff.mp ((forall₂_iff_zip.mp hpairs).2 hmem)
  exact ⟨hstate e (of_mem_zip hmem).1, item, hitem, heq.symm⟩

/-- Loading what was saved brings back every state whose key can be read. -/
theorem exists_loaded (numerals : Numerals) (load : ClockReading) (fresh : FlappingStates)
    (hreached : ReachedStates policy slug states)
    (hfits : ∀ key state, stateOf states slug key = some state → state.gated = true →
      DeadlineFits save state) :
    ∃ payload loaded, flappingStateToDisk policy save slug states = some payload ∧
      loadFlappingStateFromDisk numerals policy load slug payload fresh = some loaded ∧
      ∀ key state, stateOf states slug key = some state → state.gated = true → Unsplit key →
        ∃ after, stateOf loaded slug key = some after ∧ SameState save load state after := by
  obtain ⟨items, hitems, hpairs⟩ := exists_items save hreached hfits
  rw [flappingStateToDisk, hitems]
  by_cases hnil : items = []
  · refine ⟨none, fresh, by rw [map_some, if_pos hnil], rfl, ?_⟩
    intro key state hstate hgated _
    have hmem : (key, state) ∈ savedStates ((states.get? slug).getD Dict.empty) :=
      mem_savedStates.mpr ⟨mem_entries_of_get? hstate, .inl hgated⟩
    obtain ⟨pair, hpair, -⟩ := exists_of_forall₂_left hpairs hmem
    rw [hnil] at hpair
    cases hpair
  · -- each item comes from a state and is loaded as its like
    have hfrom : ∀ pair ∈ items, ∃ key state item after, stateOf states slug key = some state ∧
        pair = (connectionKeyText key, some item) ∧ diskItem save state = some item ∧
        connectionStateFromDiskItem numerals load policy.windowSize item = some after ∧
        SameState save load state after := by
      intro pair hpair
      obtain ⟨e, -, hstate, item, hitem, heq⟩ := exists_of_forall₂_left hpairs.flip hpair
      obtain ⟨after, hafter, hsame⟩ := connectionStateFromDiskItem_diskItem numerals load
        (hreached.inv _ _ hstate) hitem
      exact ⟨e.1, e.2, item, after, hstate, heq, hitem, hafter, hsame⟩
    have henabled : policy.enabled = true := by
      obtain ⟨pair, hpair⟩ := exists_mem_of_ne_nil items hnil
      obtain ⟨key, state, -, -, hstate, -⟩ := hfrom pair hpair
      exact hreached.enabled key state hstate
    have hwritten : ∀ e ∈ ((Dict.empty : Dict Text (Option DiskItem)).writeAll items).entries,
        e ∈ items := fun e he =>
      mem_of_get?_writeAll_empty (get?_of_mem_entries he)
    have hfold := @foldlM_restoreItem numerals load policy.windowSize
      ((Dict.empty : Dict Text (Option DiskItem)).writeAll items).entries (fun e he item hitem => by
        obtain ⟨key, state, item', after, -, heq, -, hafter, -⟩ := hfrom e (hwritten e he)
        rw [heq] at hitem
        cases hitem
        rw [hafter]
        rfl) Dict.empty
    refine ⟨some _, fresh.set slug (Dict.empty.writeAll
      (((Dict.empty : Dict Text (Option DiskItem)).writeAll items).entries.filterMap
        (restoredPair numerals load policy.windowSize))),
      by rw [map_some, if_neg hnil], ?_, ?_⟩
    · rw [loadFlappingStateFromDisk, henabled]
      exact bind_eq_some_iff.mpr ⟨_, hfold, rfl⟩
    · intro key state hstate hgated hunsplit
      have hparts := hreached.parts key state hstate
      have hmem : (key, state) ∈ savedStates ((states.get? slug).getD Dict.empty) :=
        mem_savedStates.mpr ⟨mem_entries_of_get? hstate, .inl hgated⟩
      obtain ⟨pair, hpair, -, item, hitem, rfl⟩ := exists_of_forall₂_left hpairs hmem
      obtain ⟨after, hafter, hsame⟩ := connectionStateFromDiskItem_diskItem numerals load
        (hreached.inv key state hstate) hitem
      refine ⟨after, ?_, hsame⟩
      have hparse := parseConnectionKey_text hparts hunsplit
      -- only the item of this key is written under a text that is read as it
      have honly : ∀ text other, (text, some other) ∈ items → parseConnectionKey text = some key →
          text = connectionKeyText key ∧ other = item := by
        intro text other hin hread
        obtain ⟨key', state', item', -, hstate', heq, hitem', -, -⟩ := hfrom _ hin
        cases heq
        obtain rfl := eq_of_parse_text (hreached.parts key' state' hstate') hread
        rw [hstate, some.injEq] at hstate'
        subst hstate'
        rw [hitem, some.injEq] at hitem'
        exact ⟨rfl, hitem'.symm⟩
      have hwrote : (connectionKeyText key, some item) ∈
          ((Dict.empty : Dict Text (Option DiskItem)).writeAll items).entries := by
        refine mem_entries_of_get? (get?_writeAll_of_unique _ hpair fun v hv => ?_)
        obtain ⟨key', state', item', after', hstate', heq, -⟩ := hfrom _ hv
        have hv' : v = some item' := congrArg Prod.snd heq
        subst hv'
        rw [(honly _ item' hv hparse).2]
      rw [stateOf, get?_set_self, getD_some]
      apply get?_writeAll_of_unique
      · refine mem_filterMap.mpr ⟨_, hwrote, ?_⟩
        rw [restoredPair, bind_some, hparse, bind_some, hafter, map_some]
      · intro v hv
        obtain ⟨⟨text, other⟩, hin, hread⟩ := mem_filterMap.mp hv
        obtain ⟨item', rfl, hread⟩ := bind_eq_some_iff.mp hread
        obtain ⟨key', hkey', hread⟩ := bind_eq_some_iff.mp hread
        obtain ⟨state', hstate', heq⟩ := map_eq_some_iff.mp hread
        cases heq
        obtain ⟨-, rfl⟩ := honly text item' (hwritten _ hin) hkey'
        rw [hafter, some.injEq] at hstate'
        exact hstate'.symm

theorem unsplit_of_survives {numerals : Numerals} {fresh : FlappingStates}
    (hreached : ReachedStates policy slug states)
    (h : SurvivesRestart numerals policy slug save load states fresh) {state : ConnectionFlapState}
    (hstate : stateOf states slug key = some state) (hgated : state.gated = true) :
    Unsplit key ∧ DeadlineFits save state := by
  obtain ⟨payload, loaded, hpayload, hloaded, hback⟩ := h
  obtain ⟨after, hafter, -, -⟩ := hback key state hstate hgated
  have hmem : (key, state) ∈ savedStates ((states.get? slug).getD Dict.empty) :=
    mem_savedStates.mpr ⟨mem_entries_of_get? hstate, .inl hgated⟩
  refine ⟨?_, flappingStateToDisk_isSome.mp (isSome_of_eq_some hpayload) _ hmem⟩
  obtain ⟨items, hitems, hpayload'⟩ := map_eq_some_iff.mp hpayload
  have hnil : items ≠ [] := by
    rintro rfl
    obtain ⟨pair, hpair, -⟩ := exists_of_forall₂_left (forall₂_of_mapM hitems) hmem
    cases hpair
  rw [if_neg hnil] at hpayload'
  subst hpayload'
  rw [loadFlappingStateFromDisk, hreached.enabled key state hstate] at hloaded
  obtain ⟨restored, hfold, hset⟩ := bind_eq_some_iff.mp hloaded
  cases hset
  rw [stateOf, get?_set_self, getD_some] at hafter
  exact (unsplit_of_restored hfold (forall_empty _)).get? hafter

/-- A restart keeps every gated connection of a run exactly when no part of the key of one has
the separator in it and the deadline of each is a date. -/
theorem survivesRestart_iff (numerals : Numerals) (policy : FlappingPolicy) (us : List Update)
    (slug : Text) (save load : ClockReading) (fresh : FlappingStates) :
    SurvivesRestart numerals policy slug save load (runUpdates policy us Dict.empty) fresh ↔
      ∀ key state, stateOf (runUpdates policy us Dict.empty) slug key = some state →
        state.gated = true → Unsplit key ∧ DeadlineFits save state := by
  have hreached := reachedStates_runUpdates policy us slug
  constructor
  · exact fun h key state => unsplit_of_survives hreached h
  · intro hgood
    obtain ⟨payload, loaded, hpayload, hloaded, hback⟩ := exists_loaded numerals load fresh
      hreached fun key state h hgated => (hgood key state h hgated).2
    refine ⟨payload, loaded, hpayload, hloaded, fun key state hstate hgated => ?_⟩
    obtain ⟨after, hafter, hsame⟩ := hback key state hstate hgated (hgood key state hstate hgated).1
    exact ⟨after, hafter, hsame, hsame.stillGated (hreached.enabled key state hstate) hgated hafter⟩

end

/-- A connection whose name has a slash in it. -/
def slashedUpdate (now : ℚ) (status : Text) : Update :=
  ⟨"local", now, [⟨"acme", "mail", "a/b", some status⟩]⟩

def slashedKey : ConnectionKey := ⟨"acme", "mail", "a/b"⟩

/-- Healthy, degraded, healthy, in three seconds. -/
def slashedOscillation : List Update :=
  [slashedUpdate 0 healthyStatus, slashedUpdate 1 "degraded",
    slashedUpdate 2 healthyStatus]

/-- The gated connection is not among those that the next process loads. -/
theorem slashed_connection_lost :
    ¬ ∀ (numerals : Numerals) (policy : FlappingPolicy) (us : List Update) (slug : Text)
      (save load : ClockReading) (fresh : FlappingStates),
      SurvivesRestart numerals policy slug save load (runUpdates policy us Dict.empty) fresh := by
  intro h
  have hstate : stateOf (runUpdates .default slashedOscillation Dict.empty) "local"
      slashedKey = some oscillationState := by
    decide +kernel
  have hsurvives := h ⟨fun _ => none, fun _ => none⟩ .default slashedOscillation "local"
    ⟨3, 1000⟩ ⟨1, 1001⟩ Dict.empty
  have hunsplit := (unsplit_of_survives (reachedStates_runUpdates _ _ _) hsurvives hstate rfl).1
  exact hunsplit.2.2 (by decide)

end ClearYourTools.Executor
