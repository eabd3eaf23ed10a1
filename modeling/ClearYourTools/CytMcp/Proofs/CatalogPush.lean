import ClearYourTools.CytMcp.CatalogPush
import ClearYourTools.CytMcp.Proofs.WireNames
import ClearYourTools.Hook.Proofs.CatalogRegistry

/-!
# What the registry has after a push

The hash of a catalog covers the names, descriptions and schemas of its tools, in any order. A push
leaves an entry with that hash there.
-/

namespace ClearYourTools.CytMcp

open Misc CytClient Hook
open Injection.SessionLog (nameKey serverKeyKey toolNameKey isMetaTool)

variable {φ : Type} {env : CatalogEnv φ} {normalizeWorkspace : NormalizeWorkspace}
variable {revisions : Revisions} {config : PushConfig}

theorem Named.set {tool : Record φ} (h : Named env tool) {key : Text} (hkey : nameKey ≠ key)
    (v : Json φ) : Named env (Json.set tool key v) := by
  unfold Named fieldOr Json.strOr at h ⊢
  rw [Json.get?_set_of_ne hkey]
  exact h

theorem Named.stampCatalogScope {entry : Record φ} (h : Named env entry)
    (serverOrigins : Dict Text Text) : Named env (stampCatalogScope env serverOrigins entry) := by
  unfold CytMcp.stampCatalogScope
  dsimp only
  split
  · split
    · exact h.set (by decide) _
    · exact h
  · exact h

variable {cache : RuntimeToolCache φ}
variable {serverOrigins : Dict Text Text}

theorem named_of_mem_catalogPayload
    {tool : Record φ} (h : tool ∈ catalogPayload env cache serverOrigins) : Named env tool := by
  obtain ⟨raw, hraw, rfl⟩ := List.mem_map.mp h
  obtain ⟨-, hraw⟩ := List.mem_filter.mp hraw
  apply Named.stampCatalogScope
  apply Named.enrichToolIdentity
  unfold Named
  rw [fieldOr_str (t := Text.strip (fieldOr env raw nameKey)) rfl, Text.strip_strip]
  simpa using (Bool.and_eq_true_iff.mp hraw).1

/-- No tool of a payload is named as a meta tool. -/
def NoMetaTool (env : CatalogEnv φ) (tools : List (Record φ)) : Prop :=
  ∀ tool ∈ tools, isMetaTool (fieldOr env tool nameKey) = false

variable {tools : List (Record φ)}

theorem filter_eq_self_iff :
    (tools.filter fun tool => !isMetaTool (fieldOr env tool nameKey)) = tools ↔
      NoMetaTool env tools := by
  simp [List.filter_eq_self, NoMetaTool]

theorem normalizeTools_eq_self_iff (h : ∀ tool ∈ tools, Named env tool) :
    normalizeTools env (some tools) = tools ↔ NoMetaTool env tools := by
  unfold normalizeTools NoMetaTool
  rw [Option.getD_some, List.filter_eq_self]
  refine forall₂_congr fun tool htool => ?_
  have hname : (Text.strip (fieldOr env tool nameKey) != []) = true := bne_iff_ne.mpr (h tool htool)
  dsimp only
  rw [hname, Bool.true_and, isMetaTool_strip, Bool.not_eq_true']

theorem normalizeTools_filter (tools : List (Record φ)) :
    normalizeTools env (some (tools.filter fun tool => !isMetaTool (fieldOr env tool nameKey))) =
      tools.filter fun tool => !isMetaTool (fieldOr env tool nameKey) := by
  unfold normalizeTools
  rw [Option.getD_some, List.filter_eq_self]
  intro tool htool
  have hmeta := (List.mem_filter.mp htool).2
  rw [Bool.not_eq_true'] at hmeta
  dsimp only
  rw [isMetaTool_strip, hmeta, Bool.and_false]
  rfl

/-- The key that the process registers under. -/
def configKey (normalizeWorkspace : NormalizeWorkspace) (config : PushConfig) :
    Option RegistryKey :=
  (config.workspaceRoot.bind normalizeWorkspace).bind fun workspaceRoot =>
    (normalizeCatalogLayer (catalogLayerForScope config.catalogScope)).map fun catalogLayer =>
      ⟨normalizeAgent config.agent, workspaceRoot, catalogLayer⟩

variable {tools : List (Record φ)} {entry : CatalogRegistration φ} {registry : Registry φ}

theorem keeps_hash_iff : Keeps env (buildRegisterPayload env config tools false) entry ↔
    entry.tools ≠ [] ∧ entry.contentHash = catalogToolsContentHash env tools := by
  have hposted : (buildRegisterPayload env config tools false).tools.getD [] = [] := rfl
  have hhash : (buildRegisterPayload env config tools false).contentHash.strip =
      catalogToolsContentHash env tools := env.sha256_strip _
  unfold Keeps
  rw [if_pos hposted, hhash]

theorem keeps_tools_iff (htools : tools ≠ []) (hmeta : NoMetaTool env tools) :
    Keeps env (buildRegisterPayload env config tools true) entry ↔
      entry.tools ≠ [] ∧ entry.contentHash = catalogToolsContentHash env tools ∧
        entry.stale = false := by
  have hposted : (buildRegisterPayload env config tools true).tools = some tools :=
    congrArg some (filter_eq_self_iff.mpr hmeta)
  have hkept : normalizeTools env (some tools) = tools := by
    rw [← filter_eq_self_iff.mpr hmeta]
    exact normalizeTools_filter tools
  unfold Keeps
  rw [hposted, Option.getD_some, if_neg htools, hkept]

variable {post : Post}
variable {payload : RegisterPayload φ}

theorem registers_postJson {status revision : ℕ}
    {registry' : Registry φ} (h : postJson env normalizeWorkspace revisions post payload registry =
      (some (status, revision), registry')) :
    Registers env normalizeWorkspace payload registry status registry' := by
  have hregisters := registers_registerCatalog env normalizeWorkspace revisions payload registry
  unfold postJson at h
  cases post with
  | lost => cases h
  | unanswered => cases h
  | answered =>
    obtain ⟨hanswer, rfl⟩ := Prod.mk.inj h
    have hcode := congrArg Prod.fst (Option.some.inj hanswer)
    dsimp only at hcode
    rw [← hcode]
    exact hregisters

theorem code_eq {status : ℕ} {registry' : Registry φ}
    (h : Registers env normalizeWorkspace payload registry status registry')
    (hstatus : status = 200 ∨ status = 204) : status = 200 := by
  rcases hstatus with hstatus | hstatus
  · exact hstatus
  · cases h <;> cases hstatus

variable {lastSuccessHash : Option Text}

theorem registers_pushFull
    (hsuccess : (pushFull env normalizeWorkspace revisions config post tools lastSuccessHash
      registry).success = true) :
    Registers env normalizeWorkspace (buildRegisterPayload env config tools true) registry 200
      (pushFull env normalizeWorkspace revisions config post tools lastSuccessHash
        registry).registry := by
  unfold pushFull at hsuccess ⊢
  dsimp only at hsuccess ⊢
  split at hsuccess
  · cases hsuccess
  rename_i hpost
  have hregisters := registers_postJson hpost
  split at hsuccess
  · rename_i hstatus
    rw [if_pos hstatus]
    rwa [code_eq hregisters hstatus] at hregisters
  · cases hsuccess

variable {canPush : Bool} {hashPost fullPost : Post}

/-- The two ways to a success: the hash alone, or the tools, after an unknown hash if that was
posted first. -/
theorem pushOnce_cases
    (hsuccess : (pushOnce env normalizeWorkspace revisions config canPush hashPost fullPost tools
      lastSuccessHash registry).success = true) :
    let registry' := (pushOnce env normalizeWorkspace revisions config canPush hashPost fullPost
      tools lastSuccessHash registry).registry
    tools ≠ [] ∧
      ((lastSuccessHash = some (catalogToolsContentHash env tools) ∧
          Registers env normalizeWorkspace (buildRegisterPayload env config tools false) registry
            200 registry') ∨
        ((lastSuccessHash = some (catalogToolsContentHash env tools) →
            Registers env normalizeWorkspace (buildRegisterPayload env config tools false) registry
              404 registry) ∧
          Registers env normalizeWorkspace (buildRegisterPayload env config tools true) registry
            200 registry')) := by
  dsimp only
  unfold pushOnce at hsuccess ⊢
  by_cases hpossible : canPush = false ∨ tools = []
  · rw [if_pos hpossible] at hsuccess
    cases hsuccess
  rw [if_neg hpossible] at hsuccess ⊢
  refine ⟨fun hnil => hpossible (.inr hnil), ?_⟩
  by_cases hlast : lastSuccessHash = some (catalogToolsContentHash env tools)
  · rw [if_pos hlast] at hsuccess ⊢
    split at hsuccess
    · cases hsuccess
    rename_i status revision registry' hpost
    have hregisters := registers_postJson hpost
    by_cases hunknown : status = 404
    · rw [if_pos hunknown] at hsuccess ⊢
      subst hunknown
      have hsame : registry' = registry := by
        cases hregisters
        rfl
      subst hsame
      exact .inr ⟨fun _ => hregisters, registers_pushFull hsuccess⟩
    · rw [if_neg hunknown] at hsuccess ⊢
      split at hsuccess
      · rename_i hstatus
        rw [if_pos hstatus]
        rw [code_eq hregisters hstatus] at hregisters
        exact .inl ⟨hlast, hregisters⟩
      · cases hsuccess
  · rw [if_neg hlast] at hsuccess ⊢
    exact .inr ⟨fun h => absurd h hlast, registers_pushFull hsuccess⟩

/-- The entry of the process is not stale and has some tools. -/
def HasTools (normalizeWorkspace : NormalizeWorkspace) (config : PushConfig)
    (registry : Registry φ) (tools : List (Record φ)) : Prop :=
  ∃ key entry, configKey normalizeWorkspace config = some key ∧
    registry.get? key = some entry ∧ entry.stale = false ∧ entry.tools = tools

/-- No tool of the catalog is named as a meta tool, and an entry with the hash of it has the same
tools, if a push of the hash finds it or it is not stale. -/
structure SameCatalog (env : CatalogEnv φ) (normalizeWorkspace : NormalizeWorkspace)
    (config : PushConfig) (s : PushState φ) : Prop where
  noMetaTool : NoMetaTool env (s.catalog env)
  same : ∀ key entry, configKey normalizeWorkspace config = some key →
    s.registry.get? key = some entry → entry.tools ≠ [] →
      catalogToolsContentHash env entry.tools = catalogToolsContentHash env (s.catalog env) →
        s.lastSuccessHash = some (catalogToolsContentHash env (s.catalog env)) ∨
          entry.stale = false → entry.tools = s.catalog env

/-- The registry and the snapshot hold well kept entries. -/
def Kept (env : CatalogEnv φ) (s : PushState φ) : Prop :=
  RegistryKept env s.registry ∧ ∀ entry ∈ s.snapshot, WellKept env entry

theorem kept_start (cache : RuntimeToolCache φ) (serverOrigins : Dict Text Text) :
    Kept env (.start cache serverOrigins) :=
  ⟨Dict.forall_empty _, fun _ h => by cases h⟩

theorem registryKept_postJson {post : Post} {payload : RegisterPayload φ}
    (h : RegistryKept env registry) :
    RegistryKept env (postJson env normalizeWorkspace revisions post payload registry).2 := by
  have hregistered := h.registers
    (registers_registerCatalog env normalizeWorkspace revisions payload registry)
  unfold postJson
  cases post with
  | lost => exact h
  | unanswered => exact hregistered
  | answered => exact hregistered

theorem registryKept_pushFull (h : RegistryKept env registry) :
    RegistryKept env (pushFull env normalizeWorkspace revisions config post tools lastSuccessHash
      registry).registry := by
  have hposted := @registryKept_postJson _ _ normalizeWorkspace revisions _ post
    (buildRegisterPayload env config tools true) h
  unfold pushFull
  dsimp only
  split
  · rename_i hpost
    rwa [hpost] at hposted
  · rename_i hpost
    rw [hpost] at hposted
    split
    · exact hposted
    · exact hposted

theorem registryKept_pushOnce (h : RegistryKept env registry) :
    RegistryKept env (pushOnce env normalizeWorkspace revisions config canPush hashPost fullPost
      tools lastSuccessHash registry).registry := by
  have hposted := @registryKept_postJson _ _ normalizeWorkspace revisions _ hashPost
    (buildRegisterPayload env config tools false) h
  unfold pushOnce
  split
  · exact h
  split
  · split
    · rename_i hpost
      rwa [hpost] at hposted
    rename_i hpost
    rw [hpost] at hposted
    split
    · exact registryKept_pushFull hposted
    split
    · exact hposted
    · exact hposted
  · exact registryKept_pushFull h

variable {s : PushState φ}

theorem Kept.step {s' : PushState φ} {action : PushAction φ} (h : Kept env s)
    (hnext : s.step env normalizeWorkspace config action = some s') : Kept env s' := by
  obtain ⟨hregistry, hsnapshot⟩ := h
  cases action with
  | push revisions canPush hashPost fullPost =>
    cases hnext
    exact ⟨registryKept_pushOnce hregistry, hsnapshot⟩
  | change cache serverOrigins =>
    cases hnext
    exact ⟨hregistry, hsnapshot⟩
  | forgetHash =>
    cases hnext
    exact ⟨hregistry, hsnapshot⟩
  | register revisions payload =>
    cases hnext
    exact ⟨hregistry.registers (registers_registerCatalog ..), hsnapshot⟩
  | deregister key instanceId =>
    cases hnext
    exact ⟨Dict.Forall.filter hregistry _, hsnapshot⟩
  | prune expired =>
    cases hnext
    exact ⟨Dict.Forall.filter hregistry _, hsnapshot⟩
  | writeSnapshot =>
    cases hnext
    refine ⟨hregistry, fun entry hentry => ?_⟩
    obtain ⟨item, hitem, rfl⟩ := List.mem_map.mp hentry
    exact (hregistry item hitem).2
  | reload =>
    cases hnext
    exact ⟨hregistry.loadCatalogRegistryFromDisk hsnapshot, hsnapshot⟩
  | restart =>
    cases hnext
    exact ⟨RegistryKept.loadCatalogRegistryFromDisk (Dict.forall_empty _) hsnapshot, hsnapshot⟩

variable {key : RegistryKey}

theorem get?_upsertEntry (hkey : entry.key = key) :
    (upsertEntry entry registry).get? key = some entry := by
  rw [upsertEntry, hkey, Dict.get?_set_self]

theorem hasTools_unchanged_iff {instanceId : Text}
    (hkey : configKey normalizeWorkspace config = some key) (hentry : entry.key = key) :
    HasTools normalizeWorkspace config
        (upsertEntry { entry with stale := false, instanceId := instanceId } registry) tools ↔
      entry.tools = tools := by
  have hget := @get?_upsertEntry _ { entry with stale := false, instanceId := instanceId } registry
    key hentry
  constructor
  · rintro ⟨key', entry', hkey', hget', -, rfl⟩
    cases hkey.symm.trans hkey'
    cases hget.symm.trans hget'
    rfl
  · intro htools
    exact ⟨key, _, hkey, hget, rfl, htools⟩

theorem noMetaTool_of_hasTools (hregistry : RegistryKept env registry)
    (hnamed : ∀ tool ∈ tools, Named env tool)
    (h : HasTools normalizeWorkspace config registry tools) : NoMetaTool env tools := by
  obtain ⟨key, entry, -, hentry, -, rfl⟩ := h
  exact (normalizeTools_eq_self_iff hnamed).mp (Dict.Forall.get? hregistry hentry).2.tools

theorem sameCatalog_of_tools_eq (hmeta : NoMetaTool env (s.catalog env))
    (hkey : configKey normalizeWorkspace config = some key)
    (hentry : s.registry.get? key = some entry) (htools : entry.tools = s.catalog env) :
    SameCatalog env normalizeWorkspace config s := by
  refine ⟨hmeta, fun key' entry' hkey' hentry' _ _ _ => ?_⟩
  cases hkey.symm.trans hkey'
  cases hentry.symm.trans hentry'
  exact htools

theorem hasTools_iff_of_kept (h : Kept env s)
    (hsuccess : (s.pushOnce env normalizeWorkspace revisions config canPush hashPost
      fullPost).success = true) :
    HasTools normalizeWorkspace config
        (s.pushOnce env normalizeWorkspace revisions config canPush hashPost fullPost).registry
        (s.catalog env) ↔
      SameCatalog env normalizeWorkspace config s := by
  have hnamed : ∀ tool ∈ s.catalog env, Named env tool := fun _ => named_of_mem_catalogPayload
  by_cases hmeta : NoMetaTool env (s.catalog env)
  swap
  · exact iff_of_false
      (fun htools => hmeta (noMetaTool_of_hasTools (registryKept_pushOnce h.1) hnamed htools))
      fun hsame => hmeta hsame.noMetaTool
  obtain ⟨hne, hposts⟩ := pushOnce_cases hsuccess
  unfold PushState.pushOnce
  generalize CytMcp.pushOnce env normalizeWorkspace revisions config canPush hashPost fullPost
    (s.catalog env) s.lastSuccessHash s.registry = pushed at hposts ⊢
  obtain ⟨_, _, _, registry'⟩ := pushed
  dsimp only at hposts ⊢
  obtain ⟨hlast, hregisters⟩ | ⟨hunknown, hregisters⟩ := hposts
  · -- The hash alone was posted, and the daemon has it.
    cases hregisters with
    | unchanged instanceId hkey hentry hkeeps =>
      obtain ⟨hentrykey, hwell⟩ := Dict.Forall.get? h.1 hentry
      obtain ⟨htools, hhash⟩ := keeps_hash_iff.mp hkeeps
      rw [hasTools_unchanged_iff hkey hentrykey]
      constructor
      · exact sameCatalog_of_tools_eq hmeta hkey hentry
      · intro hsame
        exact hsame.same _ _ hkey hentry htools (hwell.contentHash ▸ hhash) (.inl hlast)
    | stored hkey htools hnone => exact absurd rfl htools
  · -- The tools were posted.
    cases hregisters with
    | unchanged instanceId hkey hentry hkeeps =>
      obtain ⟨hentrykey, hwell⟩ := Dict.Forall.get? h.1 hentry
      obtain ⟨htools, hhash, hlive⟩ := (keeps_tools_iff hne hmeta).mp hkeeps
      rw [hasTools_unchanged_iff hkey hentrykey]
      constructor
      · exact sameCatalog_of_tools_eq hmeta hkey hentry
      · intro hsame
        exact hsame.same _ _ hkey hentry htools (hwell.contentHash ▸ hhash) (.inr hlive)
    | stored hkey htools hnone =>
      have hposted : normalizeTools env
          (buildRegisterPayload env config (s.catalog env) true).tools = s.catalog env :=
        (normalizeTools_filter _).trans (filter_eq_self_iff.mpr hmeta)
      apply iff_of_true
      · exact ⟨_, _, hkey, get?_upsertEntry rfl, rfl, hposted⟩
      · refine ⟨hmeta, fun key' entry hkey' hentry htools' hhash hpushed => ?_⟩
        cases hkey.symm.trans hkey'
        have hcontent := (Dict.Forall.get? h.1 hentry).2.contentHash.trans hhash
        rcases hpushed with hlast | hlive
        · -- The hash was posted first, and the daemon would have known it.
          cases hunknown hlast with
          | unknown hkey'' hnone' =>
            cases hkey.symm.trans hkey''
            exact absurd (keeps_hash_iff.mpr ⟨htools', hcontent⟩) (hnone' entry hentry)
        · exact absurd ((keeps_tools_iff hne hmeta).mpr ⟨htools', hcontent, hlive⟩)
            (hnone entry hentry)

/-- In every run, a push that reports success leaves its catalog in the registry exactly if that had
no other catalog with the same hash. -/
theorem hasTools_iff {cache : RuntimeToolCache φ} {serverOrigins : Dict Text Text}
    {actions : List (PushAction φ)} {s : PushState φ}
    (run : Run (PushState.step env normalizeWorkspace config) (fun _ _ => True)
      (.start cache serverOrigins) actions s)
    {canPush : Bool} {hashPost fullPost : Post}
    (hsuccess : (s.pushOnce env normalizeWorkspace revisions config canPush hashPost
      fullPost).success = true) :
    HasTools normalizeWorkspace config
        (s.pushOnce env normalizeWorkspace revisions config canPush hashPost fullPost).registry
        (s.catalog env) ↔
      SameCatalog env normalizeWorkspace config s :=
  hasTools_iff_of_kept (run.invariant (kept_start cache serverOrigins)
    fun hkept _ hnext => hkept.step hnext) hsuccess

def readTool : Record Empty :=
  [(nameKey, .str "docs_read"), (serverKeyKey, .str "docs"),
    (toolNameKey, .str "read")]

def docsCache : RuntimeToolCache Empty := ⟨[readTool], .empty⟩

def docsPush : PushConfig := ⟨"cursor", some "/home", "workspace", "0"⟩

def userOrigins : Dict Text Text := Dict.empty.set "docs" "user"

def answeredPush : PushAction Empty := .push .empty true .answered .answered

/-- The first push leaves its catalog in the registry. -/
theorem docsPush_stored : ∃ s, Run (PushState.step plainCatalogEnv some docsPush) (fun _ _ => True)
      (.start docsCache userOrigins) [] s ∧
    HasTools some docsPush
      (s.pushOnce plainCatalogEnv some .empty docsPush true .answered .answered).registry
      (s.catalog plainCatalogEnv) := by
  refine ⟨_, .nil, (hasTools_iff .nil (by decide +kernel)).mpr ⟨?_, ?_⟩⟩
  · unfold NoMetaTool
    decide +kernel
  · intro key entry _ hentry
    cases hentry

/-- No tool says where its server comes from. -/
def unscoped (tools : List (Record Empty)) : Bool :=
  tools.all fun tool => (Json.get? tool catalogScopeKey).isNone

/-- The origins change between two pushes, which is no part of the hash. -/
theorem docsPush_origins_kept : ∃ s,
    Run (PushState.step plainCatalogEnv some docsPush) (fun _ _ => True)
      (.start docsCache .empty) [answeredPush, .change docsCache userOrigins] s ∧
    (s.pushOnce plainCatalogEnv some .empty docsPush true .answered .answered).success = true ∧
    ¬ HasTools some docsPush
      (s.pushOnce plainCatalogEnv some .empty docsPush true .answered .answered).registry
      (s.catalog plainCatalogEnv) := by
  refine ⟨_, .snoc (.snoc .nil trivial rfl) trivial rfl, by decide +kernel, ?_⟩
  rintro ⟨key, entry, -, hentry, -, htools⟩
  have hregistry : ∀ item ∈ (PushState.pushOnce plainCatalogEnv some .empty docsPush
      { (PushState.start docsCache .empty).pushOnce plainCatalogEnv some .empty docsPush true
          .answered .answered with
        cache := docsCache, serverOrigins := userOrigins, snapshot := [] }
      true .answered .answered).registry.entries, unscoped item.2.tools = true := by
    decide +kernel
  have hcatalog : unscoped (catalogPayload plainCatalogEnv docsCache userOrigins) = false := by
    decide +kernel
  have hunscoped := hregistry _ (Dict.mem_entries_of_get? hentry)
  rw [htools] at hunscoped
  cases hunscoped.symm.trans hcatalog

end ClearYourTools.CytMcp
