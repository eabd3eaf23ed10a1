import ClearYourTools.Hook.CatalogRegistry

/-!
# Catalog pushes

The pushes of `cyt_mcp/hook_daemon_push.py`, from one process to the registry of the daemon, which
loses and reloads entries in between.
-/

namespace ClearYourTools.CytMcp

open Misc CytClient Hook
open Injection.SessionLog (nameKey isMetaTool)

variable {φ : Type}

/-- What a push reads of the configuration, and the id of the process. -/
structure PushConfig where
  agent : Text
  workspaceRoot : Option Text
  catalogScope : Text
  instanceId : Text

def catalogLayerForScope (catalogScope : Text) : Text :=
  if catalogScope = "workspace" then "ws" else "usr"

/-- How a POST goes: it does not get to the daemon, its answer gets lost, or nothing does. -/
inductive Post
  | lost
  | unanswered
  | answered
deriving DecidableEq

/-- What a push leaves. -/
structure Pushed (φ : Type) where
  success : Bool
  revision : ℕ
  lastSuccessHash : Option Text
  registry : Registry φ

variable (env : CatalogEnv φ) (normalizeWorkspace : NormalizeWorkspace) (revisions : Revisions)
variable (config : PushConfig)

/-- `_build_register_payload`, from the tools of `catalog_payload`. -/
def buildRegisterPayload (tools : List (Record φ)) (includeTools : Bool) : RegisterPayload φ where
  agent := config.agent
  scope := "workspace"
  workspaceRoot := config.workspaceRoot
  catalogLayer := catalogLayerForScope config.catalogScope
  instanceId := config.instanceId
  contentHash := catalogToolsContentHash env tools
  tools :=
    if includeTools then some (tools.filter fun tool => !isMetaTool (fieldOr env tool nameKey))
    else none

/-- `_post_json`: the code and the revision, or `none` for the status 0. -/
def postJson (post : Post) (payload : RegisterPayload φ) (registry : Registry φ) :
    Option (ℕ × ℕ) × Registry φ :=
  let registered := registerCatalog env normalizeWorkspace revisions payload registry
  match post with
  | .lost => (none, registry)
  | .unanswered => (none, registered.2)
  | .answered => (some (hookCatalogRegister registered.1), registered.2)

def pushFull (post : Post) (tools : List (Record φ)) (lastSuccessHash : Option Text)
    (registry : Registry φ) : Pushed φ :=
  let payload := buildRegisterPayload env config tools true
  match postJson env normalizeWorkspace revisions post payload registry with
  | (none, registry) => ⟨false, 0, lastSuccessHash, registry⟩
  | (some (status, revision), registry) =>
    if status = 200 ∨ status = 204 then
      ⟨true, revision, some (catalogToolsContentHash env (payload.tools.getD [])), registry⟩
    else ⟨false, revision, lastSuccessHash, registry⟩

/-- `_push_once`, with whether the process has a workspace and a daemon to push to. -/
def pushOnce (canPush : Bool) (hashPost fullPost : Post) (tools : List (Record φ))
    (lastSuccessHash : Option Text) (registry : Registry φ) : Pushed φ :=
  if canPush = false ∨ tools = [] then ⟨false, 0, lastSuccessHash, registry⟩
  else if lastSuccessHash = some (catalogToolsContentHash env tools) then
    -- `_push_hash_only`
    match postJson env normalizeWorkspace revisions hashPost
      (buildRegisterPayload env config tools false) registry with
    | (none, registry) => ⟨false, 0, lastSuccessHash, registry⟩
    | (some (status, revision), registry) =>
      if status = 404 then
        pushFull env normalizeWorkspace revisions config fullPost tools lastSuccessHash registry
      else if status = 200 ∨ status = 204 then ⟨true, revision, lastSuccessHash, registry⟩
      else ⟨false, 0, lastSuccessHash, registry⟩
  else pushFull env normalizeWorkspace revisions config fullPost tools lastSuccessHash registry

/-- The process with its cache, the origins of its servers and the hash of its last success, and the
daemon with its registry and the snapshot on disk. -/
structure PushState (φ : Type) where
  cache : RuntimeToolCache φ
  serverOrigins : Dict Text Text
  lastSuccessHash : Option Text
  registry : Registry φ
  snapshot : List (CatalogRegistration φ)

inductive PushAction (φ : Type)
  | push (revisions : Revisions) (canPush : Bool) (hashPost fullPost : Post)
  | change (cache : RuntimeToolCache φ) (serverOrigins : Dict Text Text)
  | forgetHash
  /-- Any process registers, also under the same key. -/
  | register (revisions : Revisions) (payload : RegisterPayload φ)
  | deregister (key : RegistryKey) (instanceId : Text)
  | prune (expired : RegistryKey → Bool)
  | writeSnapshot
  | reload
  | restart

namespace PushState

/-- A process that has not pushed yet, and a daemon without a snapshot. -/
def start (cache : RuntimeToolCache φ) (serverOrigins : Dict Text Text) : PushState φ :=
  ⟨cache, serverOrigins, none, .empty, []⟩

/-- The tools of `catalog_payload`. -/
def catalog (s : PushState φ) : List (Record φ) := catalogPayload env s.cache s.serverOrigins

def pushOnce (s : PushState φ) (canPush : Bool) (hashPost fullPost : Post) : Pushed φ :=
  CytMcp.pushOnce env normalizeWorkspace revisions config canPush hashPost fullPost (s.catalog env)
    s.lastSuccessHash s.registry

def step (s : PushState φ) : PushAction φ → Option (PushState φ)
  | .push revisions canPush hashPost fullPost =>
    let pushed := s.pushOnce env normalizeWorkspace revisions config canPush hashPost fullPost
    some { s with lastSuccessHash := pushed.lastSuccessHash, registry := pushed.registry }
  | .change cache serverOrigins => some { s with cache := cache, serverOrigins := serverOrigins }
  | .forgetHash => some { s with lastSuccessHash := none }
  | .register revisions payload =>
    some { s with
      registry := (registerCatalog env normalizeWorkspace revisions payload s.registry).2 }
  | .deregister key instanceId => some { s with registry := removeEntry key instanceId s.registry }
  | .prune expired => some { s with registry := pruneExpiredRegistrations expired s.registry }
  | .writeSnapshot => some { s with snapshot := s.registry.vals }
  | .reload =>
    some { s with
      registry := loadCatalogRegistryFromDisk env normalizeWorkspace s.snapshot s.registry }
  | .restart =>
    some { s with
      registry := loadCatalogRegistryFromDisk env normalizeWorkspace s.snapshot .empty }

end PushState

end ClearYourTools.CytMcp
