import ClearYourTools.CytMcp.Catalog
import ClearYourTools.Misc.Runs

/-!
# The catalog registry of the daemon

`cyt/hook/catalog_registry.py`: the catalogs that `cyt-mcp` processes have registered, by agent,
workspace and layer, and the snapshot of them on disk. Which entries have expired is an argument.
-/

/-! ## Permission revisions: `cyt/hook/permissions_revision.py`, `cyt_mcp/hook_daemon_push.py` -/

namespace ClearYourTools.Hook

open Misc

def normalizeAgent (raw : Text) : Text :=
  let text := (Text.strip (if raw = [] then "cursor" else raw)).map Char.toLower
  if ["cursor".toList, "claude".toList, "codex".toList].contains text then text
  else "cursor"

/-- The revisions by agent and workspace. -/
abbrev Revisions := Dict (Text × Text) ℕ

/-- `normalize_registry_workspace_path`, which asks the file system. -/
abbrev NormalizeWorkspace := Text → Option Text

variable (normalizeWorkspace : NormalizeWorkspace)

def getPermissionsRevision (agent workspaceRoot : Text) (revisions : Revisions) : ℕ :=
  match normalizeWorkspace workspaceRoot with
  | none => 0
  | some ws => (revisions.get? (normalizeAgent agent, ws)).getD 0

/-- `bump_permissions_revision`, without the writer that it starts. -/
def bumpPermissionsRevision (agent workspaceRoot : Text) (revisions : Revisions) :
    Except Text (ℕ × Revisions) :=
  match normalizeWorkspace workspaceRoot with
  | none => .error "invalid workspace_root"
  | some ws =>
    let key := (normalizeAgent agent, ws)
    let nextRevision := (revisions.get? key).getD 0 + 1
    .ok (nextRevision, revisions.set key nextRevision)

/-- What `_write_snapshot` puts into the file. -/
def snapshotPayload (revisions : Revisions) : Dict Text ℤ :=
  Dict.empty.writeAll (revisions.entries.map fun entry =>
    (entry.1.1 ++ ':' :: entry.1.2, (entry.2 : ℤ)))

/-- The key of an entry of the file. -/
def loadedKey (key : Text) : Option (Text × Text) :=
  if key.contains ':' then
    (normalizeWorkspace ((key.dropWhile (· != ':')).drop 1)).map fun ws =>
      (normalizeAgent (key.takeWhile (· != ':')), ws)
  else none

/-- `load_permissions_revisions_from_disk`, with how many entries it loads. -/
def loadPermissionsRevisionsFromDisk (file : Option (Dict Text ℤ)) (revisions : Revisions) :
    Revisions × ℕ :=
  match file with
  | none => (revisions, 0)
  | some raw =>
    let loaded := raw.entries.filterMap fun entry =>
      (loadedKey normalizeWorkspace entry.1).map fun key => (key, (max 0 entry.2).toNat)
    (revisions.writeAll loaded, loaded.length)

/-- A thread of `_schedule_snapshot_write`: before it has read the revisions, before it replaces
the file, and after that. A restart of the daemon ends it. -/
inductive Writer
  | started
  | holding (payload : Dict Text ℤ)
  | finished
  | killed

/-- A successful push: the revision that the daemon answered, how many bumps there had been by
then, whether all writers had finished, and whether the process has made use of the answer. -/
structure Push where
  revision : ℕ
  bumps : ℕ
  settled : Bool
  handled : Bool

/-- The daemon with its file and its writers, and the process with its last revision and its
pushes. Counted are the bumps, and those that a reload of the process came after. -/
structure RevisionState where
  revisions : Revisions
  file : Option (Dict Text ℤ)
  writers : List Writer
  last : ℕ
  pushes : List Push
  bumps : ℕ
  reloaded : ℕ

inductive RevisionAction
  | bump
  | readRevisions (writer : ℕ)
  | replaceFile (writer : ℕ)
  | restart
  | answer
  | handle (push : ℕ)
deriving DecidableEq

namespace RevisionState

/-- A daemon with some revisions, and a process that has just started. -/
def start (revisions : Revisions) (file : Option (Dict Text ℤ)) : RevisionState :=
  ⟨revisions, file, [], 0, [], 0, 0⟩

def settled (s : RevisionState) : Bool :=
  s.writers.all fun writer => match writer with
    | .finished => true
    | _ => false

/-- `_maybe_reload_permissions` of a process with a push context. -/
def maybeReloadPermissions (s : RevisionState) (revision : ℕ) : RevisionState :=
  if revision ≤ s.last then s else { s with last := revision, reloaded := s.bumps }

variable (agent workspaceRoot : Text)

/-- The steps of one agent and workspace. -/
def step (s : RevisionState) : RevisionAction → Option RevisionState
  | .bump =>
    match bumpPermissionsRevision normalizeWorkspace agent workspaceRoot s.revisions with
    | .error _ => none
    | .ok (_, revisions) =>
      some { s with
        revisions := revisions
        writers := s.writers ++ [.started]
        bumps := s.bumps + 1 }
  | .readRevisions writer =>
    match s.writers[writer]? with
    | some .started =>
      some { s with writers := s.writers.set writer (.holding (snapshotPayload s.revisions)) }
    | _ => none
  | .replaceFile writer =>
    match s.writers[writer]? with
    | some (.holding payload) =>
      some { s with writers := s.writers.set writer .finished, file := some payload }
    | _ => none
  | .restart =>
    some { s with
      revisions := (loadPermissionsRevisionsFromDisk normalizeWorkspace s.file .empty).1
      writers := s.writers.map fun writer => match writer with
        | .finished => .finished
        | _ => .killed }
  | .answer =>
    some { s with
      pushes := s.pushes ++ [{
        revision := getPermissionsRevision normalizeWorkspace agent workspaceRoot s.revisions
        bumps := s.bumps
        settled := s.settled
        handled := false }] }
  | .handle i =>
    match s.pushes[i]? with
    | none => none
    | some push =>
      if push.handled then none
      else
        let handled := { s with pushes := s.pushes.set i { push with handled := true } }
        some (if push.revision = 0 then handled else handled.maybeReloadPermissions push.revision)

end RevisionState

open Misc CytClient CytMcp

open Injection.SessionLog (nameKey isMetaTool)

variable {φ : Type}

inductive RegisterStatus
  | stored
  | unchanged
  | unknownHash
  | invalid
deriving DecidableEq

structure RegisterResult where
  status : RegisterStatus
  httpStatus : ℕ
  message : Text
  permissionsRevision : ℕ

inductive CatalogLayer
  | usr
  | ws
deriving DecidableEq

/-- `_CatalogRegistration`, whose scope is always the workspace. -/
structure CatalogRegistration (φ : Type) where
  agent : Text
  workspaceRoot : Text
  catalogLayer : CatalogLayer
  tools : List (Record φ)
  contentHash : Text
  instanceId : Text
  stale : Bool

/-- What `_registry_key` makes a key of. -/
structure RegistryKey where
  agent : Text
  workspaceRoot : Text
  catalogLayer : CatalogLayer
deriving DecidableEq

abbrev Registry (φ : Type) := Dict RegistryKey (CatalogRegistration φ)

/-- What a process posts. -/
structure RegisterPayload (φ : Type) where
  agent : Text
  scope : Text
  workspaceRoot : Option Text
  catalogLayer : Text
  instanceId : Text
  contentHash : Text
  tools : Option (List (Record φ))

/-- `str(raw).strip().lower()`. -/
def lowered (raw : Text) : Text := raw.strip.map Char.toLower

def normalizeCatalogLayer (raw : Text) : Option CatalogLayer :=
  let text := lowered raw
  if ["usr".toList, "user".toList].contains text then some .usr
  else if ["ws".toList, "workspace".toList].contains text then some .ws
  else none

def CatalogRegistration.key (entry : CatalogRegistration φ) : RegistryKey :=
  ⟨entry.agent, entry.workspaceRoot, entry.catalogLayer⟩

def upsertEntry (entry : CatalogRegistration φ) (registry : Registry φ) : Registry φ :=
  registry.set entry.key entry

variable (env : CatalogEnv φ) (normalizeWorkspace : NormalizeWorkspace)

def normalizeTools (raw : Option (List (Record φ))) : List (Record φ) :=
  (raw.getD []).filter fun item =>
    let name := Text.strip (fieldOr env item nameKey)
    !(name != [] && isMetaTool name)

def registerHashOnly (existing : Option (CatalogRegistration φ)) (contentHash instanceId : Text)
    (revision : ℕ) (registry : Registry φ) : RegisterResult × Registry φ :=
  match existing with
  | none => (⟨.unknownHash, 404, "registration not found", 0⟩, registry)
  | some entry =>
    if entry.tools.isEmpty then
      (⟨.unknownHash, 404, "registration not found", 0⟩, registry)
    else if entry.contentHash ≠ contentHash then
      (⟨.unknownHash, 404, "hash mismatch", 0⟩, registry)
    else
      (⟨.unchanged, 204, [], revision⟩, upsertEntry { entry with
        stale := false
        instanceId := if instanceId = [] then entry.instanceId else instanceId } registry)

/-- `_register_full_tools`, with the entry that it would store. -/
def registerFullTools (existing : Option (CatalogRegistration φ)) (entry : CatalogRegistration φ)
    (revision : ℕ) (registry : Registry φ) : RegisterResult × Registry φ :=
  match existing with
  | none => (⟨.stored, 200, [], revision⟩, upsertEntry entry registry)
  | some old =>
    if old.contentHash = entry.contentHash ∧ old.tools ≠ [] ∧ old.stale = false then
      (⟨.unchanged, 204, [], revision⟩, upsertEntry { old with
        instanceId := if entry.instanceId = [] then old.instanceId else entry.instanceId } registry)
    else (⟨.stored, 200, [], revision⟩, upsertEntry entry registry)

/-- `register_catalog`, with the revision of the agent and workspace. -/
def registerCatalog (revisions : Revisions) (payload : RegisterPayload φ) (registry : Registry φ) :
    RegisterResult × Registry φ :=
  let invalid := fun message : String => (⟨.invalid, 400, message.toList, 0⟩, registry)
  let agent := normalizeAgent payload.agent
  if lowered payload.scope ≠ "workspace" then
    if ["global".toList, "user".toList].contains (lowered payload.scope) then
      invalid ("user/global scope registrations are no longer supported; " ++
        "push workspace scope with workspace_root")
    else invalid "invalid scope"
  else
    match payload.workspaceRoot.bind normalizeWorkspace with
    | none => invalid "invalid workspace_root"
    | some workspaceRoot =>
      match normalizeCatalogLayer payload.catalogLayer with
      | none => invalid "invalid catalog_layer"
      | some catalogLayer =>
        let contentHash := payload.contentHash.strip
        let instanceId := payload.instanceId.strip
        if contentHash = [] then invalid "content_hash required"
        else
          let existing := registry.get? ⟨agent, workspaceRoot, catalogLayer⟩
          let revision := getPermissionsRevision normalizeWorkspace agent workspaceRoot revisions
          if (payload.tools.getD []).isEmpty then
            registerHashOnly existing contentHash instanceId revision registry
          else
            let tools := normalizeTools env payload.tools
            registerFullTools existing ⟨agent, workspaceRoot, catalogLayer, tools,
              catalogToolsContentHash env tools, instanceId, false⟩ revision registry

/-- The code and the revision that `hook_catalog_register` answers. -/
def hookCatalogRegister (result : RegisterResult) : ℕ × ℕ :=
  match result.status with
  | .invalid => (400, 0)
  | .unknownHash => (404, 0)
  | .unchanged | .stored => (200, result.permissionsRevision)

def removeEntry (key : RegistryKey) (instanceId : Text) (registry : Registry φ) : Registry φ :=
  registry.filter fun key' entry =>
    !(key' == key && (instanceId == [] || entry.instanceId == instanceId))

def pruneExpiredRegistrations (expired : RegistryKey → Bool) (registry : Registry φ) : Registry φ :=
  registry.filter fun key entry => !(!entry.stale && expired key)

/-- `_entry_from_dict` on what `_registration_to_dict` has written. -/
def entryFromDict (raw : CatalogRegistration φ) : Option (CatalogRegistration φ) :=
  (normalizeWorkspace raw.workspaceRoot).map fun workspaceRoot =>
    let tools := normalizeTools env (some raw.tools)
    { raw with
      agent := normalizeAgent raw.agent
      workspaceRoot := workspaceRoot
      tools := tools
      contentHash := if raw.contentHash = [] ∧ tools ≠ [] then catalogToolsContentHash env tools
        else raw.contentHash }

/-- The body of the loop of `load_catalog_registry_from_disk`. -/
def loadEntry (registry : Registry φ) (entry : CatalogRegistration φ) : Registry φ :=
  match registry.get? entry.key with
  | none => registry.set entry.key { entry with stale := true }
  | some existing =>
    -- never clobber a live in-process push
    if existing.stale = false then registry else registry.set entry.key { entry with stale := true }

/-- `load_catalog_registry_from_disk`, with the entries of the snapshot. -/
def loadCatalogRegistryFromDisk (snapshot : List (CatalogRegistration φ))
    (registry : Registry φ) : Registry φ :=
  (snapshot.filterMap (entryFromDict env normalizeWorkspace)).foldl loadEntry registry

end ClearYourTools.Hook
