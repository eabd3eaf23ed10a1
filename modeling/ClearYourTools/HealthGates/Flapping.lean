import ClearYourTools.Executor.ConnectionFlapping

/-!
# The flapping detectors

The functions that `executor/connection_flapping.py`, `mcpc/session_flapping.py` and
`cloudflare/server_flapping.py` each have, with another name for the healthy status in each.
-/

namespace ClearYourTools.HealthGates

open Misc Executor

/-- A `deque` of statuses with its `maxlen`. -/
structure Window (σ : Type) where
  maxlen : ℕ
  items : List σ

/-- `deque.append`. -/
def Window.append {σ : Type} (d : Window σ) (item : σ) : Window σ :=
  { d with items := (d.items ++ [item]).drop (d.items.length + 1 - d.maxlen) }

/-- `SessionFlapState`, which has the fields of `ConnectionFlapState`. -/
structure FlapState (σ : Type) where
  history : Window σ
  gated : Bool
  quarantineUntil : PyFloat
  consecutiveHealthy : ℕ
  flapEpisodes : ℕ

/-- The state that is entered for a new key. -/
def FlapState.init (σ : Type) (policy : FlappingPolicy) : FlapState σ where
  history := ⟨policy.windowSize, []⟩
  gated := false
  quarantineUntil := .num 0
  consecutiveHealthy := 0
  flapEpisodes := 0

/-- The number of adjacent pairs that differ. -/
def transitionCount {σ : Type} [DecidableEq σ] (history : List σ) : ℕ :=
  (history.zip history.tail).countP fun p => p.1 ≠ p.2

section

variable {σ : Type} [DecidableEq σ] (good : σ)

/-- The number of samples that are not healthy. -/
def degradedCount (history : List σ) : ℕ := history.countP (· ≠ good)

/-- The loop of `is_flapping`: an unhealthy sample between two healthy ones. -/
def oscillates (history : List σ) : Bool :=
  (List.range history.length).any fun index =>
    decide (history[index]? ≠ some good) && (history.take index).contains good &&
      (history.drop (index + 1)).contains good

variable (policy : FlappingPolicy)

def isFlapping (history : List σ) : Bool :=
  if history.length < 2 then false
  else if degradedCount good history < policy.minDegraded then false
  else if transitionCount history < policy.minTransitions then false
  else oscillates good history

def computePenaltySeconds (history : List σ) (flapEpisodes : ℕ) : PyFloat :=
  .min policy.maxQuarantineSeconds
    (((policy.baseQuarantineSeconds.add
      (PyFloat.natMul (degradedCount good history) policy.perDegradedSeconds)).add
      (PyFloat.natMul (transitionCount history) policy.perTransitionSeconds)).add
      (PyFloat.natMul (flapEpisodes - 1) policy.perEpisodeSeconds))

def canRelease (now : ℚ) (state : FlapState σ) : Bool :=
  if PyFloat.lt (.num now) state.quarantineUntil then false
  else if state.consecutiveHealthy < policy.recoveryHealthySamples then false
  else if state.history.items.length < policy.recoveryHealthySamples then false
  else !isFlapping good policy
    (state.history.items.drop (state.history.items.length - policy.recoveryHealthySamples))

/-- `history.append(status)` and the count of consecutive healthy samples. -/
def recordSample (status : σ) (state : FlapState σ) : FlapState σ :=
  { state with
    history := state.history.append status
    consecutiveHealthy := if status = good then state.consecutiveHealthy + 1 else 0 }

def activeFlapping (status : σ) (history : List σ) : Bool :=
  isFlapping good policy history && (decide (status ≠ good) ||
    decide ((if 2 ≤ history.length then history[history.length - 2]? else none) ≠ some good))

/-- The episode that a gating opens or goes on with. -/
def nextEpisode (state : FlapState σ) : ℕ := if state.gated then state.flapEpisodes + 1 else 1

/-- The gating branch. -/
def gate (now : ℚ) (state : FlapState σ) : FlapState σ :=
  { state with
    flapEpisodes := nextEpisode state
    gated := true
    consecutiveHealthy := 0
    quarantineUntil := .max state.quarantineUntil (PyFloat.add (.num now)
      (computePenaltySeconds good policy state.history.items (nextEpisode state))) }

def release (state : FlapState σ) : FlapState σ :=
  { state with
    gated := false
    flapEpisodes := 0
    quarantineUntil := .num 0
    history := { state.history with items := [] } }

/-- What follows a recorded sample. -/
def judge (now : ℚ) (status : σ) (state : FlapState σ) : FlapState σ :=
  if activeFlapping good policy status state.history.items then gate good policy now state
  else if state.gated ∧ canRelease good policy now state then release state
  else state

/-- The body of the loop of `update_flapping_states`. -/
def updateState (now : ℚ) (status : σ) (state : FlapState σ) : FlapState σ :=
  judge good policy now status (recordSample good status state)

/-- The key is reported as gated. -/
def isGated (now : ℚ) (state : FlapState σ) : Bool :=
  state.gated && !canRelease good policy now state

end

end ClearYourTools.HealthGates

/-! ## Session health flapping detection and gating: `mcpc/session_flapping.py` -/

namespace ClearYourTools.Mcpc

open Misc Executor

structure SessionKey where
  name : Text
deriving DecidableEq

/-- What is read of a session dictionary: `str(session["status"])`, when that is truthy. -/
structure Session where
  name : Text
  status : Option Text

def sessionKeyFromDict (session : Session) : Option SessionKey :=
  if session.name.strip = [] then none else some ⟨session.name.strip⟩

def liveStatus : Text := "live"

def unknownStatus : Text := "unknown"

/-- The status that `derive_session_statuses` gives a session. -/
def sessionStatus (session : Session) : Text :=
  let status := asciiLower (Text.strip (session.status.getD unknownStatus))
  if status = [] then unknownStatus else status

def deriveSessionStatuses (sessions : List Session) : Dict SessionKey Text :=
  sessions.foldl
    (fun statuses session =>
      match sessionKeyFromDict session with
      | none => statuses
      | some key => statuses.set key (sessionStatus session))
    Dict.empty

abbrev SessionFlapState := HealthGates.FlapState Text

variable (policy : FlappingPolicy)

/-- The body of the loop of `update_flapping_states`. -/
def updateSession (now : ℚ) (status : Text) (state : SessionFlapState) : SessionFlapState :=
  HealthGates.updateState liveStatus policy now status state

/-- The states of the sessions of one slug. -/
abbrev Bucket := Dict SessionKey SessionFlapState

abbrev FlappingStates := Dict Text Bucket

/-- One iteration of the loop. -/
def updateKey (now : ℚ) (bucket : Bucket) (entry : SessionKey × Text) : Bucket :=
  bucket.set entry.1
    (updateSession policy now entry.2 ((bucket.get? entry.1).getD (.init Text policy)))

/-- `update_flapping_states` on the bucket of its slug. -/
def updateBucket (now : ℚ) (sessions : List Session) (bucket : Bucket) : Bucket :=
  ((deriveSessionStatuses sessions).entries.foldl (updateKey policy now) bucket).filter
    fun key state => (deriveSessionStatuses sessions).contains key || state.gated

def updateFlappingStates (slug : Text) (now : ℚ) (sessions : List Session) (states : FlappingStates) :
    FlappingStates :=
  if ¬ policy.enabled then states
  else states.set slug (updateBucket policy now sessions ((states.get? slug).getD Dict.empty))

def gatedSessions (slug : Text) (now : ℚ) (states : FlappingStates) : List SessionKey :=
  if ¬ policy.enabled then []
  else (((states.get? slug).getD Dict.empty).filter fun _ state =>
    HealthGates.isGated liveStatus policy now state).keys

end ClearYourTools.Mcpc

/-! ## Server health flapping detection: `cloudflare/server_flapping.py`, `server_health.py` -/

namespace ClearYourTools.Cloudflare

open Misc Executor

structure ServerKey where
  serverId : Text
deriving DecidableEq

def enabledStatus : Text := "enabled"

def disabledStatus : Text := "disabled"

/-- `ServerFlapState`. Its `deque` has no `maxlen`. -/
structure ServerFlapState where
  statusHistory : List Text
  gated : Bool
  quarantineUntil : PyFloat
  consecutiveHealthy : ℕ
  flapEpisodes : ℕ

def ServerFlapState.init : ServerFlapState := ⟨[], false, .num 0, 0, 0⟩

variable (policy : FlappingPolicy)

/-- The status at the end of the history, and as many in front of it as the window holds. -/
def recordStatus (status : Text) (state : ServerFlapState) : ServerFlapState :=
  { state with
    statusHistory := (state.statusHistory ++ [status]).drop
      (state.statusHistory.length + 1 - policy.windowSize) }

/-- The end of a quarantine. -/
def expire (now : ℚ) (state : ServerFlapState) : ServerFlapState :=
  if state.gated ∧ PyFloat.le state.quarantineUntil (.num now) then { state with gated := false }
  else state

def countHealthy (status : Text) (state : ServerFlapState) : ServerFlapState :=
  { state with
    consecutiveHealthy := if status = enabledStatus then state.consecutiveHealthy + 1 else 0 }

/-- The end of the gating of a server that has recovered. -/
def recover (state : ServerFlapState) : ServerFlapState :=
  if state.gated ∧ policy.recoveryHealthySamples ≤ state.consecutiveHealthy then
    { state with gated := false, consecutiveHealthy := 0 }
  else state

/-- The quarantine of a server that flaps. -/
def quarantine (now : ℚ) (state : ServerFlapState) : ServerFlapState :=
  { state with
    flapEpisodes := state.flapEpisodes + 1
    gated := true
    quarantineUntil := PyFloat.add (.num now)
      (HealthGates.computePenaltySeconds enabledStatus policy state.statusHistory
        (state.flapEpisodes + 1))
    consecutiveHealthy := 0 }

/-- The last test of the loop. -/
def judgeServer (now : ℚ) (state : ServerFlapState) : ServerFlapState :=
  if ¬ policy.enabled ∨ state.gated then state
  else if HealthGates.isFlapping enabledStatus policy state.statusHistory then
    quarantine policy now state
  else state

/-- The body of the loop of `update_flapping_states`. -/
def updateServer (now : ℚ) (status : Text) (state : ServerFlapState) : ServerFlapState :=
  judgeServer policy now
    (recover policy (countHealthy status (expire now (recordStatus policy status state))))

/-- The states of the servers of one slug. -/
abbrev Bucket := Dict Text ServerFlapState

abbrev FlappingStates := Dict Text Bucket

/-- One iteration of the loop. -/
def updateKey (now : ℚ) (bucket : Bucket) (entry : ServerKey × Text) : Bucket :=
  bucket.set entry.1.serverId
    (updateServer policy now entry.2 ((bucket.get? entry.1.serverId).getD .init))

def updateFlappingStates (slug : Text) (now : ℚ) (statuses : Dict ServerKey Text)
    (states : FlappingStates) : FlappingStates :=
  states.set slug (statuses.entries.foldl (updateKey policy now)
    ((states.get? slug).getD Dict.empty))

def gatedServers (slug : Text) (now : ℚ) (states : FlappingStates) : List ServerKey :=
  ((((states.get? slug).getD Dict.empty).filter fun _ state =>
    state.gated && PyFloat.lt (.num now) state.quarantineUntil).keys).map ServerKey.mk

end ClearYourTools.Cloudflare
