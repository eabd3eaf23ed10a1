import Mathlib.Algebra.Order.Field.Rat
import ClearYourTools.Hook.CatalogRegistry

/-!
# The threads of the catalog registry

`cyt/hook/catalog_registry.py` as it runs in the daemon: requests that register and deregister, the
pruner, and the threads that write the snapshot. A thread takes one step for each lock that it
takes.
-/

namespace ClearYourTools.Hook

open Misc CytClient CytMcp

variable {φ : Type}

/-- A `_CatalogRegistration` with its times. -/
structure RegistryEntry (φ : Type) extends CatalogRegistration φ where
  registeredAt : ℚ
  lastSeenAt : ℚ

def registryTtlSeconds : ℚ := 10

/-- What `register_catalog` takes from a payload that it does not refuse. A heartbeat has no tools;
otherwise the hash is that of the tools. -/
structure RegisterRequest (φ : Type) where
  key : RegistryKey
  tools : Option (List (Record φ))
  contentHash : Text
  instanceId : Text

section

variable (env : CatalogEnv φ) (normalizeWorkspace : NormalizeWorkspace)

/-- The checks of `register_catalog`, with `none` for `RegisterStatus.INVALID`. -/
def registerRequest (payload : RegisterPayload φ) : Option (RegisterRequest φ) :=
  if lowered payload.scope ≠ "workspace" then none
  else
    (payload.workspaceRoot.bind normalizeWorkspace).bind fun workspaceRoot =>
      (normalizeCatalogLayer payload.catalogLayer).bind fun catalogLayer =>
        let key : RegistryKey := ⟨normalizeAgent payload.agent, workspaceRoot, catalogLayer⟩
        if payload.contentHash.strip = [] then none
        else if (payload.tools.getD []).isEmpty then
          some ⟨key, none, payload.contentHash.strip, payload.instanceId.strip⟩
        else
          let tools := normalizeTools env payload.tools
          some ⟨key, some tools, catalogToolsContentHash env tools, payload.instanceId.strip⟩

/-- The checks of `deregister_catalog`. -/
def deregisterKey (payload : RegisterPayload φ) : Option RegistryKey :=
  if lowered payload.scope ≠ "workspace" then none
  else
    (payload.workspaceRoot.bind normalizeWorkspace).bind fun workspaceRoot =>
      (normalizeCatalogLayer payload.catalogLayer).map fun catalogLayer =>
        ⟨normalizeAgent payload.agent, workspaceRoot, catalogLayer⟩

end

namespace RegisterRequest

/-- How `_register_hash_only` and `_register_full_tools` answer on the entry that was read. -/
def answer (request : RegisterRequest φ) (existing : Option (CatalogRegistration φ)) :
    RegisterStatus :=
  match request.tools, existing with
  | none, none => .unknownHash
  | none, some entry =>
    if entry.tools.isEmpty ∨ entry.contentHash ≠ request.contentHash then .unknownHash
    else .unchanged
  | some _, none => .stored
  | some _, some entry =>
    if entry.contentHash = request.contentHash ∧ entry.tools ≠ [] ∧ entry.stale = false then
      .unchanged
    else .stored

/-- What a call that answers `UNCHANGED` makes of the entry. -/
def refresh (request : RegisterRequest φ) (entry : CatalogRegistration φ) :
    CatalogRegistration φ :=
  { entry with
    stale := false
    instanceId := if request.instanceId = [] then entry.instanceId else request.instanceId }

/-- The entry that a call that answers `STORED` makes. -/
def newEntry (request : RegisterRequest φ) : CatalogRegistration φ :=
  ⟨request.key.agent, request.key.workspaceRoot, request.key.catalogLayer, request.tools.getD [],
    request.contentHash, request.instanceId, false⟩

end RegisterRequest

/-- Where a call of `register_catalog` is: before it reads the entry, before it looks at what it
has read, before `_upsert_entry` stores an object, before that schedules the snapshot, before the
answer, and after that. -/
inductive RegisterPhase
  | reading
  | checking (existing : Option ℕ)
  | upserting (status : RegisterStatus) (entry : ℕ)
  | scheduling (status : RegisterStatus)
  | answering (status : RegisterStatus)
  | answered (status : RegisterStatus)

/-- What `_remove_entry` and `prune_expired_registrations` take out: a prune has read the clock
before it waits. -/
inductive Removal
  | deregister (key : RegistryKey) (instanceId : Text)
  | prune (now : ℚ)

/-- Where a removal is: before it waits for `_snapshot_idle`, before it takes a generation, before
it takes entries out, before it writes the snapshot, with `_snapshot_file_lock` held, before the
answer, which is the number of entries, and after that. -/
inductive RemovalPhase (φ : Type)
  | waiting
  | bumping
  | removing (generation : ℕ)
  | flushing (generation removed : ℕ) (payload : List (RegistryEntry φ))
  | answering (removed : ℕ)
  | answered (removed : ℕ)

/-- Where `_write_snapshot_async` is: before it clears `_snapshot_idle`, at the three locks of a
round of its loop, at the check after the write, before it resets `_snapshot_pending`, before it
sets `_snapshot_idle`, and after that. -/
inductive WriterPhase (φ : Type)
  | clearing
  | choosing
  | collecting (generation : ℕ)
  | writing (generation : ℕ) (payload : List (RegistryEntry φ))
  | checking (generation : ℕ)
  | resetting
  | waking
  | ended

/-- A thread; a call also has the time at which it started. -/
inductive RegistryThread (φ : Type)
  | register (request : RegisterRequest φ) (started : ℕ) (phase : RegisterPhase)
  | remove (removal : Removal) (phase : RemovalPhase φ)
  | writer (phase : WriterPhase φ)

def RegistryThread.isOver : RegistryThread φ → Bool
  | .register _ _ (.answered _) => true
  | .remove _ (.answered _) => true
  | .writer .ended => true
  | _ => false

/-- An entry for a key that had none. -/
structure Appearance where
  key : RegistryKey
  /-- When the call that stored the entry started. -/
  started : ℕ
  time : ℕ

/-- What has happened, which no thread reads: how many steps there were, the call that stored the
tools that a key should have, when `deregister_catalog` answered `True`, and which entries appeared. -/
structure RegistryHistory where
  time : ℕ
  lastStored : RegistryKey → Option ℕ
  deregistered : List (RegistryKey × ℕ)
  appeared : List Appearance

/-- The process: the objects, the registry, the snapshot file, the variables of the snapshot
writer, whether `_snapshot_file_lock` is held, and the threads. -/
structure RegistryState (φ : Type) where
  objects : List (RegistryEntry φ)
  registrations : Dict RegistryKey ℕ
  file : Option (List (RegistryEntry φ))
  snapshotGeneration : ℕ
  snapshotPending : Bool
  snapshotIdle : Bool
  fileLocked : Bool
  threads : List (RegistryThread φ)
  history : RegistryHistory

/-- A request or a prune comes in, or a thread takes its next step. In that step it may read the
clock, and a wait may time out. -/
inductive RegistryEvent (φ : Type)
  | register (payload : RegisterPayload φ)
  | deregister (payload : RegisterPayload φ)
  | prune (now : ℚ)
  | advance (thread : ℕ) (now : ℚ) (timedOut : Bool)

/-- Whether a removal takes an entry out. -/
def Removal.takes (removal : Removal) (key : RegistryKey) (entry : RegistryEntry φ) : Bool :=
  match removal with
  | .deregister key' instanceId =>
    key == key' && (instanceId == [] || entry.instanceId == instanceId)
  | .prune now => !entry.stale && decide (registryTtlSeconds < now - entry.lastSeenAt)

namespace RegistryState

/-- `_registry_snapshot_payload_locked`. -/
def snapshotPayload (s : RegistryState φ) : List (RegistryEntry φ) :=
  s.registrations.vals.filterMap fun i => s.objects[i]?

/-- Every thread has ended. -/
def isQuiet (s : RegistryState φ) : Bool := s.threads.all RegistryThread.isOver

/-- A new thread. -/
def spawn (s : RegistryState φ) (thread : RegistryThread φ) : RegistryState φ :=
  { s with threads := s.threads ++ [thread] }

/-- A thread gets on. -/
def goto (s : RegistryState φ) (t : ℕ) (thread : RegistryThread φ) : RegistryState φ :=
  { s with threads := s.threads.set t thread }

/-- The part of `_upsert_entry` under `_registry_lock`. -/
def upsert (s : RegistryState φ) (t started : ℕ) (status : RegisterStatus) (i : ℕ)
    (entry : RegistryEntry φ) : RegistryState φ :=
  { s with
    registrations := s.registrations.set entry.key i
    history := { s.history with
      lastStored := if status = .stored then
          Function.update s.history.lastStored entry.key (some t)
        else s.history.lastStored
      appeared := if s.registrations.contains entry.key then s.history.appeared
        else s.history.appeared ++ [⟨entry.key, started, s.history.time⟩] } }

def scheduleSnapshotWrite (s : RegistryState φ) : RegistryState φ :=
  let s := { s with snapshotGeneration := s.snapshotGeneration + 1 }
  if s.snapshotPending then s else { s with snapshotPending := true }.spawn (.writer .clearing)

/-- The steps of `register_catalog`. -/
def registerStep (s : RegistryState φ) (t : ℕ) (request : RegisterRequest φ) (started : ℕ)
    (now : ℚ) : RegisterPhase → Option (RegistryState φ)
  | .reading =>
    some (s.goto t (.register request started (.checking (s.registrations.get? request.key))))
  | .checking existing =>
    let entry := existing.bind fun i => s.objects[i]?
    match request.answer (entry.map RegistryEntry.toCatalogRegistration), existing, entry with
    | .unchanged, some i, some entry =>
      -- the object is changed without a lock
      some ({ s with
        objects := s.objects.set i
          { entry with toCatalogRegistration := request.refresh entry.toCatalogRegistration
                       lastSeenAt := now } }.goto t
        (.register request started (.upserting .unchanged i)))
    | .stored, _, _ =>
      some ({ s with objects := s.objects ++ [RegistryEntry.mk request.newEntry now now] }.goto t
        (.register request started (.upserting .stored s.objects.length)))
    | status, _, _ => some (s.goto t (.register request started (.answering status)))
  | .upserting status i =>
    (s.objects[i]?).map fun entry =>
      (s.upsert t started status i entry).goto t (.register request started (.scheduling status))
  | .scheduling status =>
    some (s.scheduleSnapshotWrite.goto t (.register request started (.answering status)))
  | .answering status => some (s.goto t (.register request started (.answered status)))
  | .answered _ => none

/-- The keys of which a removal takes the entries out. -/
def taken (s : RegistryState φ) (removal : Removal) (key : RegistryKey) (i : ℕ) : Bool :=
  (s.objects[i]?).any (removal.takes key)

/-- The entries that a removal takes out are gone. -/
def removeTaken (s : RegistryState φ) (removal : Removal) : RegistryState φ :=
  { s with
    registrations := s.registrations.filter fun key i => !s.taken removal key i
    history := { s.history with
      lastStored := fun key =>
        if (s.registrations.get? key).any (s.taken removal key) then none
        else s.history.lastStored key } }

/-- The steps of `_remove_entry` and of `prune_expired_registrations`. -/
def removeStep (s : RegistryState φ) (t : ℕ) (removal : Removal) (timedOut : Bool) :
    RemovalPhase φ → Option (RegistryState φ)
  | .waiting =>
    -- after five seconds the removal goes on in any case
    if s.snapshotIdle || timedOut then some (s.goto t (.remove removal .bumping)) else none
  | .bumping =>
    some ({ s with snapshotGeneration := s.snapshotGeneration + 1 }.goto t
      (.remove removal (.removing (s.snapshotGeneration + 1))))
  | .removing generation =>
    let removed := s.registrations.entries.countP fun e => s.taken removal e.1 e.2
    if s.fileLocked then none
    else if removed = 0 then some (s.goto t (.remove removal (.answering 0)))
    else
      let removedState := { s.removeTaken removal with fileLocked := true }
      some (removedState.goto t
        (.remove removal (.flushing generation removed removedState.snapshotPayload)))
  | .flushing generation removed payload =>
    some ({ s with
      file := if generation = s.snapshotGeneration then some payload else s.file
      fileLocked := false }.goto t (.remove removal (.answering removed)))
  | .answering removed =>
    some ({ s with history := { s.history with
      deregistered := match removal with
        | .deregister key _ => if removed = 0 then s.history.deregistered
          else s.history.deregistered ++ [(key, s.history.time)]
        | .prune _ => s.history.deregistered } }.goto t (.remove removal (.answered removed)))
  | .answered _ => none

/-- The steps of `_write_snapshot_async`, in which no write fails. -/
def writerStep (s : RegistryState φ) (t : ℕ) : WriterPhase φ → Option (RegistryState φ)
  | .clearing => some ({ s with snapshotIdle := false }.goto t (.writer .choosing))
  | .choosing => some (s.goto t (.writer (.collecting s.snapshotGeneration)))
  | .collecting generation =>
    some (s.goto t (.writer (.writing generation s.snapshotPayload)))
  | .writing generation payload =>
    -- `_try_write_registry_snapshot` has both locks
    if s.fileLocked then none
    else if generation ≠ s.snapshotGeneration then some (s.goto t (.writer .choosing))
    else some ({ s with file := some payload }.goto t (.writer (.checking generation)))
  | .checking generation =>
    some (s.goto t (.writer (if generation = s.snapshotGeneration then .resetting else .choosing)))
  | .resetting => some ({ s with snapshotPending := false }.goto t (.writer .waking))
  | .waking => some ({ s with snapshotIdle := true }.goto t (.writer .ended))
  | .ended => none

/-- The step of a thread. -/
def advance (s : RegistryState φ) (t : ℕ) (now : ℚ) (timedOut : Bool) :
    Option (RegistryState φ) :=
  match s.threads[t]? with
  | none => none
  | some (.register request started phase) => s.registerStep t request started now phase
  | some (.remove removal phase) => s.removeStep t removal timedOut phase
  | some (.writer phase) => s.writerStep t phase

/-- One more step has been taken. -/
def tick (s : RegistryState φ) : RegistryState φ :=
  { s with history := { s.history with time := s.history.time + 1 } }

variable (env : CatalogEnv φ) (normalizeWorkspace : NormalizeWorkspace)

/-- What an event does. A payload that is refused starts no call. -/
def step (s : RegistryState φ) (event : RegistryEvent φ) : Option (RegistryState φ) :=
  tick <$> match event with
  | .register payload =>
    some (match registerRequest env normalizeWorkspace payload with
      | none => s
      | some request => s.spawn (.register request s.history.time .reading))
  | .deregister payload =>
    some (match deregisterKey normalizeWorkspace payload with
      | none => s
      | some key => s.spawn (.remove (.deregister key payload.instanceId.strip) .waiting))
  | .prune now => some (s.spawn (.remove (.prune now) .waiting))
  | .advance t now timedOut => s.advance t now timedOut

/-- A process before any call: the registry that it has loaded, and the snapshot file. -/
def start (loaded : List (RegistryEntry φ)) (file : Option (List (RegistryEntry φ))) :
    RegistryState φ :=
  { objects := loaded
    registrations := Dict.empty.writeAll (loaded.zipIdx.map fun e => (e.1.key, e.2))
    file := file
    snapshotGeneration := 0
    snapshotPending := false
    snapshotIdle := true
    fileLocked := false
    threads := []
    history := ⟨0, fun _ => none, [], []⟩ }

end RegistryState

end ClearYourTools.Hook
