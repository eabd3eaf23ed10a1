import Mathlib.Data.Rat.Floor
import ClearYourTools.Misc.Dict
import ClearYourTools.Misc.PyFloat
import ClearYourTools.Misc.Text

/-!
# Connection health flapping detection and gating

`executor/connection_flapping.py`: the policy, the per-connection detector and the update
loop over the connections of one executor. The state is the module-level map from executor slugs to
connection states.
-/

namespace ClearYourTools.Executor

open Misc

inductive ConfigValue where
  | none
  | bool (b : Bool)
  | int (n : Int)
  | float (x : PyFloat)
  | str (t : Text)
  | other

/-- Python's `int(s)`, `float(s)` and `int(x)` on a string without surrounding blanks and on
a float. A string that is not a numeral is `none`; so is an infinite float, where `int(x)`
raises. -/
structure Numerals where
  parseInt : Text → Option Int
  parseFloat : Text → Option PyFloat

def asciiLower (t : Text) : Text := t.map Char.toLower

/-- `_coerce_bool`. Only an integer one and the four words read as true; the text of a float
or of a container is none of them. -/
def coerceBool (value : ConfigValue) (default : Bool) : Bool :=
  match value with
  | .bool b => b
  | .none => default
  | .int n => n == 1
  | .str t =>
    ["1".toList, "true".toList, "yes".toList, "on".toList].contains (asciiLower t.strip)
  | .float _ | .other => false

variable (numerals : Numerals)

/-- `_coerce_int`; `none` where `int(value)` raises on an infinite float or on `nan`. -/
def coerceInt (value : ConfigValue) (default : Int) : Option Int :=
  match value with
  | .int n => some n
  | .float (.num q) => some (q.num.tdiv q.den)
  | .float _ => none
  | .str t => some ((numerals.parseInt t.strip).getD default)
  | .bool _ | .none | .other => some default

def coerceFloat (value : ConfigValue) (default : ℚ) : PyFloat :=
  match value with
  | .int n => .num n
  | .float x => x
  | .str t => (numerals.parseFloat t.strip).getD (.num default)
  | .bool _ | .none | .other => .num default

structure FlappingPolicy where
  enabled : Bool
  windowSize : ℕ
  minDegraded : ℕ
  minTransitions : ℕ
  baseQuarantineSeconds : PyFloat
  perDegradedSeconds : PyFloat
  perTransitionSeconds : PyFloat
  maxQuarantineSeconds : PyFloat
  recoveryHealthySamples : ℕ
  perEpisodeSeconds : PyFloat
deriving DecidableEq

def FlappingPolicy.default : FlappingPolicy where
  enabled := true
  windowSize := 12
  minDegraded := 1
  minTransitions := 2
  baseQuarantineSeconds := .num 90
  perDegradedSeconds := .num 45
  perTransitionSeconds := .num 30
  maxQuarantineSeconds := .num 600
  recoveryHealthySamples := 6
  perEpisodeSeconds := .num 60

/-- The dictionary that `flapping_policy_from_config` reads. -/
structure RawPolicy where
  enabled : ConfigValue
  windowSize : ConfigValue
  minDegraded : ConfigValue
  minTransitions : ConfigValue
  baseQuarantineSeconds : ConfigValue
  perDegradedSeconds : ConfigValue
  perTransitionSeconds : ConfigValue
  maxQuarantineSeconds : ConfigValue
  recoveryHealthySamples : ConfigValue
  perEpisodeSeconds : ConfigValue

/-- `max(bound, _coerce_int(value, default))`, a count since the bound is positive. -/
def countAtLeast (bound : ℕ) (value : ConfigValue) (default : Int) : Option ℕ :=
  (coerceInt numerals value default).map fun n => (max (bound : Int) n).toNat

/-- `max(0.0, _coerce_float(value, default))`. -/
def secondsAtLeastZero (value : ConfigValue) (default : ℚ) : PyFloat :=
  .max (.num 0) (coerceFloat numerals value default)

/-- `flapping_policy_from_config`; an absent or empty dictionary is `none`. -/
def flappingPolicyFromConfig (raw : Option RawPolicy) : Option FlappingPolicy :=
  match raw with
  | none => some .default
  | some raw => do
    let windowSize ← countAtLeast numerals 2 raw.windowSize 12
    let minDegraded ← countAtLeast numerals 1 raw.minDegraded 1
    let minTransitions ← countAtLeast numerals 1 raw.minTransitions 2
    let recoveryHealthySamples ← countAtLeast numerals 1 raw.recoveryHealthySamples 6
    return {
      enabled := coerceBool raw.enabled true
      windowSize := windowSize
      minDegraded := minDegraded
      minTransitions := minTransitions
      baseQuarantineSeconds := secondsAtLeastZero numerals raw.baseQuarantineSeconds 90
      perDegradedSeconds := secondsAtLeastZero numerals raw.perDegradedSeconds 45
      perTransitionSeconds := secondsAtLeastZero numerals raw.perTransitionSeconds 30
      maxQuarantineSeconds := secondsAtLeastZero numerals raw.maxQuarantineSeconds 600
      recoveryHealthySamples := recoveryHealthySamples
      perEpisodeSeconds := secondsAtLeastZero numerals raw.perEpisodeSeconds 60 }

structure ConnectionKey where
  owner : Text
  integration : Text
  name : Text
deriving DecidableEq

/-- What the detector reads of a connection dictionary. `lastHealthStatus` is the text of
`lastHealth.status` when that is present and truthy. -/
structure Connection where
  owner : Text
  integration : Text
  name : Text
  lastHealthStatus : Option Text

def connectionKeyFromDict (conn : Connection) : Option ConnectionKey :=
  let owner := conn.owner.strip
  let integration := conn.integration.strip
  let name := conn.name.strip
  if owner = [] ∨ integration = [] ∨ name = [] then none else some ⟨owner, integration, name⟩

def healthyStatus : Text := "healthy"

/-- `derive_connection_statuses`; the last connection of a key wins. -/
def deriveConnectionStatuses (connections : List Connection) : Dict ConnectionKey Text :=
  connections.foldl
    (fun statuses conn =>
      match connectionKeyFromDict conn with
      | none => statuses
      | some key => statuses.set key (conn.lastHealthStatus.getD "unknown"))
    Dict.empty

/-- `collections.deque` with its `maxlen`. -/
structure Deque where
  maxlen : ℕ
  items : List Text
deriving DecidableEq

/-- `deque.append`: a full deque drops its oldest item. -/
def Deque.append (d : Deque) (item : Text) : Deque :=
  { d with items := (d.items ++ [item]).drop (d.items.length + 1 - d.maxlen) }

structure ConnectionFlapState where
  statusHistory : Deque
  gated : Bool
  quarantineUntil : PyFloat
  consecutiveHealthy : ℕ
  flapEpisodes : ℕ
deriving DecidableEq

variable (policy : FlappingPolicy)

/-- The state that `update_flapping_states` enters for a new connection. -/
def ConnectionFlapState.init : ConnectionFlapState where
  statusHistory := ⟨policy.windowSize, []⟩
  gated := false
  quarantineUntil := .num 0
  consecutiveHealthy := 0
  flapEpisodes := 0

/-- `sum(1 for status in history if status != _HEALTHY_STATUS)`. -/
def degradedCount (history : List Text) : ℕ := history.countP (· ≠ healthyStatus)

/-- The number of adjacent pairs that differ. -/
def transitionCount (history : List Text) : ℕ :=
  (history.zip history.tail).countP fun p => p.1 ≠ p.2

/-- `is_flapping`: an unhealthy sample between two healthy ones, in a window with enough
unhealthy samples and changes. -/
def isFlapping (history : List Text) : Bool :=
  if history.length < 2 then false
  else if degradedCount history < policy.minDegraded then false
  else if transitionCount history < policy.minTransitions then false
  else (List.range history.length).any fun index =>
    decide (history[index]? ≠ some healthyStatus) &&
      (history.take index).contains healthyStatus &&
      (history.drop (index + 1)).contains healthyStatus

def computePenaltySeconds (history : List Text) (flapEpisodes : ℕ) : PyFloat :=
  let episodeBonus := PyFloat.natMul (flapEpisodes - 1) policy.perEpisodeSeconds
  let raw := ((policy.baseQuarantineSeconds.add
    (PyFloat.natMul (degradedCount history) policy.perDegradedSeconds)).add
    (PyFloat.natMul (transitionCount history) policy.perTransitionSeconds)).add episodeBonus
  .min policy.maxQuarantineSeconds raw

def canRelease (now : ℚ) (state : ConnectionFlapState) : Bool :=
  if PyFloat.lt (.num now) state.quarantineUntil then false
  else if state.consecutiveHealthy < policy.recoveryHealthySamples then false
  else
    let history := state.statusHistory.items
    if history.length < policy.recoveryHealthySamples then false
    else
      let recent := history.drop (history.length - policy.recoveryHealthySamples)
      !isFlapping policy recent

/-- The states of the connections of one executor. -/
abbrev Bucket := Dict ConnectionKey ConnectionFlapState

/-- `_flapping_states`, by executor slug. -/
abbrev FlappingStates := Dict Text Bucket

/-- `history.append(status)` and the count of consecutive healthy samples. -/
def recordSample (status : Text) (state : ConnectionFlapState) : ConnectionFlapState :=
  { state with
    statusHistory := state.statusHistory.append status
    consecutiveHealthy := if status = healthyStatus then state.consecutiveHealthy + 1 else 0 }

/-- `active_flapping`: the window flaps and one of its two last samples is unhealthy. -/
def activeFlapping (status : Text) (history : List Text) : Bool :=
  let previous := if 2 ≤ history.length then history[history.length - 2]? else none
  isFlapping policy history &&
    (decide (status ≠ healthyStatus) || decide (previous ≠ some healthyStatus))

/-- The gating branch: a new or a further episode, and its penalty. -/
def gate (now : ℚ) (state : ConnectionFlapState) : ConnectionFlapState :=
  let episodes := if state.gated then state.flapEpisodes + 1 else 1
  let penalty := computePenaltySeconds policy state.statusHistory.items episodes
  { state with
    flapEpisodes := episodes
    gated := true
    consecutiveHealthy := 0
    quarantineUntil := .max state.quarantineUntil (PyFloat.add (.num now) penalty) }

def release (state : ConnectionFlapState) : ConnectionFlapState :=
  { state with
    gated := false
    flapEpisodes := 0
    quarantineUntil := .num 0
    statusHistory := { state.statusHistory with items := [] } }

/-- The body of the loop of `update_flapping_states`. -/
def updateConnection (now : ℚ) (status : Text) (state : ConnectionFlapState) :
    ConnectionFlapState :=
  let state := recordSample status state
  if activeFlapping policy status state.statusHistory.items then gate policy now state
  else if state.gated ∧ canRelease policy now state then release state
  else state

/-- One iteration of the loop: the state of the key, new or present, is updated in place. -/
def updateKey (now : ℚ) (bucket : Bucket) (entry : ConnectionKey × Text) : Bucket :=
  let state := (bucket.get? entry.1).getD (.init policy)
  bucket.set entry.1 (updateConnection policy now entry.2 state)

/-- `update_flapping_states` on the bucket of its slug: update every connection listed, then
evict the unlisted ones that are not gated. -/
def updateBucket (now : ℚ) (connections : List Connection) (bucket : Bucket) : Bucket :=
  let statuses := deriveConnectionStatuses connections
  let bucket := statuses.entries.foldl (updateKey policy now) bucket
  bucket.filter fun key state => statuses.contains key || state.gated

def updateFlappingStates (slug : Text) (now : ℚ) (connections : List Connection)
    (states : FlappingStates) : FlappingStates :=
  if ¬ policy.enabled then states
  else states.set slug
    (updateBucket policy now connections ((states.get? slug).getD Dict.empty))

def gatedConnections (slug : Text) (now : ℚ) (states : FlappingStates) : List ConnectionKey :=
  if ¬ policy.enabled then []
  else (((states.get? slug).getD Dict.empty).filter fun _ state =>
    state.gated && !canRelease policy now state).keys

/-!
## Flapping state on disk

`flapping_state_to_disk` and `load_flapping_state_from_disk`. The quarantine deadline goes through
the wall clock, as an ISO time of microseconds.
-/

/-- What `time.monotonic()` and `time.time()` return in a call. -/
structure ClockReading where
  monotonic : ℚ
  wall : ℚ

/-- Rounding to the nearest integer, halves to the even one. -/
def roundHalfEven (x : ℚ) : Int :=
  if x - ⌊x⌋ < 1 / 2 then ⌊x⌋
  else if 1 / 2 < x - ⌊x⌋ then ⌊x⌋ + 1
  else if ⌊x⌋ % 2 = 0 then ⌊x⌋
  else ⌊x⌋ + 1

/-- A UTC `datetime`, as microseconds since the epoch. -/
abbrev Datetime := Int

/-- `datetime.fromtimestamp(x, tz=UTC)`; `none` where it raises, outside the years 1 to 9999. -/
def fromtimestamp : PyFloat → Option Datetime
  | .num x =>
    if -62135596800000000 ≤ roundHalfEven (x * 1000000) ∧
        roundHalfEven (x * 1000000) < 253402300800000000 then
      some (roundHalfEven (x * 1000000))
    else none
  | _ => none

/-- `deadline.timestamp()`. -/
def timestamp (deadline : Datetime) : ℚ := deadline / 1000000

/-- A value under `connections`. The status history is `none` when it is no list, its entries
are their texts; the deadline is `none` when it is no text or an empty one, and its time is
`none` when it is no ISO time. -/
structure DiskItem where
  statusHistory : Option (List Text)
  gated : Bool
  quarantineUntil : Option (Option Datetime)
  consecutiveHealthy : ConfigValue
  flapEpisodes : ConfigValue

/-- The payload of an executor. The maps from key texts are `none` when they are no
dictionaries, an item is `none` when it is none. -/
structure DiskPayload where
  windowSize : ConfigValue
  connections : Option (Dict Text (Option DiskItem))
  integrations : Option (Dict Text (Option DiskItem))

def connectionKeyText (key : ConnectionKey) : Text :=
  Text.join ['/'] [key.owner, key.integration, key.name]

def parseConnectionKey (key : Text) : Option ConnectionKey :=
  match key.splitOn '/' with
  | [owner, integration, name] =>
    if Text.strip owner = [] ∨ Text.strip integration = [] ∨ Text.strip name = [] then none
    else some ⟨Text.strip owner, Text.strip integration, Text.strip name⟩
  | _ => none

/-- `a <= b` on strings. -/
def keyTextLe : Text → Text → Bool
  | [], _ => true
  | _ :: _, [] => false
  | a :: s, b :: t => if a = b then keyTextLe s t else decide (a.toNat < b.toNat)

variable (clock : ClockReading)

/-- The deadline of a state on the wall clock. -/
def savedDeadline (state : ConnectionFlapState) : PyFloat :=
  PyFloat.add (.num clock.wall)
    (.max (.num 0) (state.quarantineUntil.add (.num (-clock.monotonic))))

/-- The item that `flapping_state_to_disk` writes for a state; `none` where it raises. -/
def diskItem (state : ConnectionFlapState) : Option DiskItem :=
  let item (deadline : Option (Option Datetime)) : DiskItem :=
    { statusHistory := some state.statusHistory.items
      gated := state.gated
      quarantineUntil := deadline
      consecutiveHealthy := .int state.consecutiveHealthy
      flapEpisodes := .int state.flapEpisodes }
  bif PyFloat.lt (.num 0) state.quarantineUntil then
    (fromtimestamp (savedDeadline clock state)).map fun deadline => item (some (some deadline))
  else some (item none)

/-- The states that are written, by the text of their keys. -/
def savedStates (bucket : Bucket) : List (ConnectionKey × ConnectionFlapState) :=
  (bucket.entries.mergeSort fun a b =>
    keyTextLe (connectionKeyText a.1) (connectionKeyText b.1)).filter
      fun e => e.2.gated || !e.2.statusHistory.items.isEmpty

/-- `flapping_state_to_disk`; the inner `none` is the empty dictionary, the outer one a raised
exception. -/
def flappingStateToDisk (clock : ClockReading) (slug : Text) (states : FlappingStates) :
    Option (Option DiskPayload) :=
  ((savedStates ((states.get? slug).getD Dict.empty)).mapM fun e =>
      (diskItem clock e.2).map fun item => (connectionKeyText e.1, some item)).map fun items =>
    if items = [] then none
    else some
      { windowSize := .int policy.windowSize
        connections := some (Dict.empty.writeAll items)
        integrations := none }

def quarantineUntilFromDiskItem (item : DiskItem) : PyFloat :=
  match item.quarantineUntil with
  | some (some deadline) =>
    if 0 < timestamp deadline - clock.wall then
      .num (clock.monotonic + (timestamp deadline - clock.wall))
    else .num 0
  | _ => .num 0

/-- `max(0, _coerce_int(value, 0))`. -/
def countFromDisk (value : ConfigValue) : Option ℕ := (coerceInt numerals value 0).map Int.toNat

/-- `_connection_state_from_disk_item`; `none` where it raises, also on a negative window. -/
def connectionStateFromDiskItem (clock : ClockReading) (windowSize : Int) (item : DiskItem) :
    Option ConnectionFlapState :=
  if windowSize < 0 then none
  else do
    let consecutiveHealthy ← countFromDisk numerals item.consecutiveHealthy
    let flapEpisodes ← countFromDisk numerals item.flapEpisodes
    return {
      statusHistory := (item.statusHistory.getD []).foldl Deque.append ⟨windowSize.toNat, []⟩
      gated := item.gated
      quarantineUntil := quarantineUntilFromDiskItem clock item
      consecutiveHealthy := consecutiveHealthy
      flapEpisodes := flapEpisodes }

/-- The body of the loop of `load_flapping_state_from_disk`. -/
def restoreItem (clock : ClockReading) (windowSize : Int) (restored : Bucket)
    (entry : Text × Option DiskItem) : Option Bucket :=
  match entry.2, parseConnectionKey entry.1 with
  | some item, some key =>
    (connectionStateFromDiskItem numerals clock windowSize item).map fun state =>
      restored.set key state
  | _, _ => some restored

/-- `load_flapping_state_from_disk`; `none` where it raises. -/
def loadFlappingStateFromDisk (policy : FlappingPolicy) (clock : ClockReading) (slug : Text)
    (payload : Option DiskPayload) (states : FlappingStates) : Option FlappingStates :=
  match payload with
  | none => some states
  | some payload =>
    bif !policy.enabled then some states
    else
      match payload.connections.or payload.integrations with
      | none => some states
      | some connections => do
        let windowSize ← coerceInt numerals payload.windowSize policy.windowSize
        let restored ← connections.entries.foldlM (restoreItem numerals clock windowSize) Dict.empty
        some (states.set slug restored)

end ClearYourTools.Executor
