import ClearYourTools.Injection.SessionLog

/-!
# The master catalog

`tools/master_catalog.py`, for one configuration: calls that rebuild and read the catalog of all
sources, one step for each critical section and each read of the sources, in any order. A thread
that waits for an event may go on at any time, as when the wait times out.
-/

namespace ClearYourTools.Tools

open Misc CytClient
open Injection.SessionLog (catalogSourceKey)

variable {φ : Type}

/-- The configuration: its sources in order, those whose catalog it uses, and the tools that a
source has under a fingerprint. -/
structure MasterConfig (φ : Type) where
  sources : List Text
  distinct : sources.Nodup
  used : Text → Bool
  toolsAt : Text → Text → List (Record φ)

/-- `_MasterCatalogState`, without what nothing but the health report reads. -/
structure MasterCatalogState (φ : Type) where
  tools : List (Record φ)
  sourceFingerprints : List (Text × Text)

/-- What the threads share: the fingerprint that each source has, and with it its tools, the
catalog, and whether the key is in `_rebuild_in_progress` and has an event in `_rebuild_waiters`. -/
structure Shared (φ : Type) where
  fingerprints : Text → Text
  state : MasterCatalogState φ
  inProgress : Bool
  waiter : Bool

def tokenCountKey : Text := "token_count"

/-- What `build_master_tools` makes of a tool; `count` is what `carried_tool_token_count`
answers. -/
def stamp (count : Record φ → ℕ) (source : Text) (tool : Record φ) : Record φ :=
  let stamped := Json.popKey (Json.set tool catalogSourceKey (.str source)) tokenCountKey
  Json.set stamped tokenCountKey (.int (count stamped))

def buildMasterTools (count : Record φ → ℕ) (orderedParts : List (Text × List (Record φ))) :
    List (Record φ) :=
  orderedParts.flatMap fun part => part.2.map (stamp count part.1)

variable (config : MasterConfig φ)

def currentSourceFingerprints (fingerprints : Text → Text) : List (Text × Text) :=
  (config.sources.filter config.used).map fun source => (source, fingerprints source)

/-- `_load_source_tools`: the tools in memory, after what a blocking load has fetched into it. -/
def loadSourceTools (fingerprints : Text → Text) (source : Text) : List (Record φ) :=
  if config.used source then config.toolsAt source (fingerprints source) else []

/-- The variables of a rebuild that is loading; `pending` are the sources that its loop has yet to
come to. -/
structure Loading (φ : Type) where
  blocking : Bool
  priorTools : List (Record φ)
  priorFingerprints : List (Text × Text)
  currentFingerprints : List (Text × Text)
  pending : List Text
  orderedParts : List (Text × List (Record φ))

def priorForSource (loading : Loading φ) (source : Text) : List (Record φ) :=
  loading.priorTools.filter fun tool =>
    match Json.get? tool catalogSourceKey with
    | some (.str stamped) => stamped == source
    | _ => false

/-- The branch that keeps the tools that the catalog has of the source. -/
def keepsPrior (fingerprints : Text → Text) (loading : Loading φ) (source : Text) : Bool :=
  (loadSourceTools config fingerprints source).isEmpty && !loading.blocking &&
    !(priorForSource loading source).isEmpty &&
    loading.priorFingerprints.lookup source == loading.currentFingerprints.lookup source &&
    (loading.priorFingerprints.lookup source).isSome

/-- What the loop adds to `ordered_parts`. -/
def partOf (fingerprints : Text → Text) (loading : Loading φ) (source : Text) :
    List (Text × List (Record φ)) :=
  if keepsPrior config fingerprints loading source then [(source, priorForSource loading source)]
  else if (loadSourceTools config fingerprints source).isEmpty then []
  else [(source, loadSourceTools config fingerprints source)]

def masterIsStale (shared : Shared φ) : Bool :=
  shared.state.tools.isEmpty ||
    shared.state.sourceFingerprints != currentSourceFingerprints config shared.fingerprints

/-- Where a thread stands, named by what it does next. -/
inductive Phase (φ : Type)
  /-- the first lock of `rebuild_master_catalog` -/
  | enter (blocking : Bool)
  /-- the lock of `_wait_for_in_progress_rebuild` -/
  | joinWaiters
  | waiting
  | readPriorTools (blocking : Bool)
  | readPriorFingerprints (blocking : Bool) (priorTools : List (Record φ))
  /-- the first `_current_source_fingerprints` -/
  | readFingerprints (blocking : Bool) (priorTools : List (Record φ))
      (priorFingerprints : List (Text × Text))
  | load (loading : Loading φ)
  /-- the second `_current_source_fingerprints` -/
  | rereadFingerprints (merged : List (Record φ))
  /-- `_apply_master_catalog_to_state` -/
  | apply (merged : List (Record φ)) (fingerprints : List (Text × Text))
  /-- `_finish_rebuild` -/
  | finish
  /-- the first snapshot of `get_master_tool_catalog` -/
  | getSnapshot (blocking : Bool)
  /-- the lock of `_hydrate_master_from_disk_if_empty` -/
  | getHydrate (blocking : Bool)
  | getSnapshotAgain (blocking : Bool)
  /-- the snapshot after the blocking rebuild -/
  | getRebuilt
  | getInProgress
  | returned

/-- What a thread goes on with when a rebuild returns. -/
inductive Caller
  | direct
  | hydrating (blocking : Bool)
  | getting

structure Thread (φ : Type) where
  caller : Caller
  phase : Phase φ

/-- The return of `rebuild_master_catalog`, or of a wait. -/
def resume : Caller → Thread φ
  | .direct => ⟨.direct, .returned⟩
  | .hydrating blocking => ⟨.direct, .getSnapshotAgain blocking⟩
  | .getting => ⟨.direct, .getRebuilt⟩

/-- The thread is inside the `try` statement of a rebuild. -/
def Phase.inTry : Phase φ → Bool
  | .readPriorTools _ | .readPriorFingerprints _ _ | .readFingerprints _ _ _ | .load _
  | .rereadFingerprints _ | .apply _ _ | .finish => true
  | _ => false

/-- The next step of a thread. `count` is used where the tools are merged. -/
def advance (count : Record φ → ℕ) (shared : Shared φ) (thread : Thread φ) :
    Shared φ × Thread φ :=
  match thread.phase with
  | .enter blocking =>
    if shared.inProgress = false then
      ({ shared with inProgress := true }, ⟨thread.caller, .readPriorTools blocking⟩)
    else if blocking = false then (shared, resume thread.caller)
    else if shared.waiter then (shared, ⟨thread.caller, .joinWaiters⟩)
    -- nobody waits: the thread goes on into a rebuild of its own
    else (shared, ⟨thread.caller, .readPriorTools blocking⟩)
  | .joinWaiters =>
    if shared.inProgress = false then (shared, resume thread.caller)
    else ({ shared with waiter := true }, ⟨thread.caller, .waiting⟩)
  | .waiting => (shared, resume thread.caller)
  | .readPriorTools blocking =>
    (shared, ⟨thread.caller, .readPriorFingerprints blocking shared.state.tools⟩)
  | .readPriorFingerprints blocking priorTools =>
    (shared, ⟨thread.caller, .readFingerprints blocking priorTools shared.state.sourceFingerprints⟩)
  | .readFingerprints blocking priorTools priorFingerprints =>
    (shared, ⟨thread.caller, .load ⟨blocking, priorTools, priorFingerprints,
      currentSourceFingerprints config shared.fingerprints, config.sources, []⟩⟩)
  | .load loading =>
    match loading.pending with
    | [] => (shared, ⟨thread.caller,
        .rereadFingerprints (buildMasterTools count loading.orderedParts)⟩)
    | source :: pending =>
      (shared, ⟨thread.caller, .load { loading with
        pending := pending
        orderedParts :=
          loading.orderedParts ++ partOf config shared.fingerprints loading source }⟩)
  | .rereadFingerprints merged =>
    (shared, ⟨thread.caller, .apply merged (currentSourceFingerprints config shared.fingerprints)⟩)
  | .apply merged fingerprints =>
    ({ shared with state := ⟨merged, fingerprints⟩ }, ⟨thread.caller, .finish⟩)
  | .finish => ({ shared with inProgress := false, waiter := false }, resume thread.caller)
  | .getSnapshot blocking =>
    if shared.state.tools.isEmpty then (shared, ⟨.direct, .getHydrate blocking⟩)
    else (shared, ⟨.direct, .returned⟩)
  | .getHydrate blocking =>
    if shared.state.tools.isEmpty then (shared, ⟨.hydrating blocking, .enter false⟩)
    else (shared, ⟨.direct, .getSnapshotAgain blocking⟩)
  | .getSnapshotAgain blocking =>
    if shared.state.tools.isEmpty && blocking then (shared, ⟨.getting, .enter true⟩)
    else (shared, ⟨.direct, .returned⟩)
  | .getRebuilt =>
    if shared.state.tools.isEmpty then (shared, ⟨.direct, .getInProgress⟩)
    else (shared, ⟨.direct, .returned⟩)
  | .getInProgress =>
    if shared.inProgress then (shared, ⟨.direct, .joinWaiters⟩)
    else (shared, ⟨.direct, .returned⟩)
  | .returned => (shared, thread)

structure World (φ : Type) where
  shared : Shared φ
  threads : List (Thread φ)

/-- Before the first call. -/
def World.start (fingerprints : Text → Text) : World φ :=
  ⟨⟨fingerprints, ⟨[], []⟩, false, false⟩, []⟩

inductive Action (φ : Type)
  /-- the tools of a source and its fingerprint change -/
  | update (source fingerprint : Text)
  | callRebuild (blocking : Bool)
  | callGet (blocking : Bool)
  | step (thread : ℕ) (count : Record φ → ℕ)
  /-- an exception in the `try` block -/
  | raise (thread : ℕ)

/-- The new fingerprint of a source. -/
def setFingerprint (fingerprints : Text → Text) (source fingerprint : Text) : Text → Text :=
  fun s => if s = source then fingerprint else fingerprints s

def World.step (world : World φ) : Action φ → Option (World φ)
  | .update source fingerprint => some { world with
      shared := { world.shared with
        fingerprints := setFingerprint world.shared.fingerprints source fingerprint } }
  | .callRebuild blocking =>
    some { world with threads := world.threads ++ [⟨.direct, .enter blocking⟩] }
  | .callGet blocking =>
    -- without sources the call returns at once
    if config.sources.isEmpty then some world
    else some { world with threads := world.threads ++ [⟨.direct, .getSnapshot blocking⟩] }
  | .step index count =>
    (world.threads[index]?).map fun thread =>
      let next := advance config count world.shared thread
      ⟨next.1, world.threads.set index next.2⟩
  | .raise index =>
    (world.threads[index]?).bind fun thread =>
      if thread.phase.inTry then
        some { world with threads := world.threads.set index ⟨.direct, .finish⟩ }
      else none

end ClearYourTools.Tools
