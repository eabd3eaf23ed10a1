import ClearYourTools.Hook.CatalogRegistry

/-!
# What the registry keeps

A registration keeps the entry of its key or replaces it. Every entry has the hash of its tools,
none of which is a meta tool.
-/

namespace ClearYourTools.Hook

open Misc List

variable {normalizeWorkspace : NormalizeWorkspace} {agent workspaceRoot : Text}
variable {s s' : RevisionState}

/-- A push after a bump leaves a reload after that bump, if all writers had finished. -/
def NoneMissed (s : RevisionState) : Prop :=
  ∀ push ∈ s.pushes, push.handled = true → push.settled = true → push.bumps ≤ s.reloaded

section

variable (normalizeWorkspace agent workspaceRoot)

/-- The revision in the memory of the daemon. -/
def memory (s : RevisionState) : ℕ :=
  getPermissionsRevision normalizeWorkspace agent workspaceRoot s.revisions

/-- The revision that a restart finds. -/
def onDisk (s : RevisionState) : ℕ :=
  getPermissionsRevision normalizeWorkspace agent workspaceRoot
    (loadPermissionsRevisionsFromDisk normalizeWorkspace s.file .empty).1

/-- A restart finds no revision below one that the process has got, and the last one only if there
was no bump after it. -/
def RestartKeeps (s : RevisionState) (action : RevisionAction) : Prop :=
  action = .restart →
    s.last ≤ onDisk normalizeWorkspace agent workspaceRoot s ∧
    (∀ push ∈ s.pushes, push.revision ≤ onDisk normalizeWorkspace agent workspaceRoot s) ∧
    (onDisk normalizeWorkspace agent workspaceRoot s = s.last →
      memory normalizeWorkspace agent workspaceRoot s = s.last)

end

theorem get_bumpPermissionsRevision {revisions revisions' : Revisions} {revision : ℕ}
    (h : bumpPermissionsRevision normalizeWorkspace agent workspaceRoot revisions =
      .ok (revision, revisions')) :
    getPermissionsRevision normalizeWorkspace agent workspaceRoot revisions' =
      getPermissionsRevision normalizeWorkspace agent workspaceRoot revisions + 1 := by
  unfold bumpPermissionsRevision at h
  unfold getPermissionsRevision
  split at h
  · cases h
  · cases h
    rw [Dict.get?_set_self, Option.getD_some]

section

variable (normalizeWorkspace agent workspaceRoot)

/-- The counter is never behind the process, and every push that the process would pass over was
answered before its last reload. -/
structure InStep (s : RevisionState) : Prop where
  last_le : s.last ≤ memory normalizeWorkspace agent workspaceRoot s
  answered : ∀ push ∈ s.pushes, push.revision ≤ memory normalizeWorkspace agent workspaceRoot s
  counted : ∀ push ∈ s.pushes, push.bumps ≤ s.bumps
  reloaded_le : s.reloaded ≤ s.bumps
  heard : memory normalizeWorkspace agent workspaceRoot s = s.last → s.reloaded = s.bumps
  passed : ∀ push ∈ s.pushes, push.revision ≤ s.last → push.bumps ≤ s.reloaded
  handled : ∀ push ∈ s.pushes, push.handled = true → push.revision ≤ s.last

end

theorem inStep_start (revisions : Revisions) (file : Option (Dict Text ℤ)) :
    InStep normalizeWorkspace agent workspaceRoot (.start revisions file) where
  last_le := Nat.zero_le _
  answered := fun _ h => by cases h
  counted := fun _ h => by cases h
  reloaded_le := Nat.le_refl _
  heard := fun _ => rfl
  passed := fun _ h => by cases h
  handled := fun _ h => by cases h

variable (h : InStep normalizeWorkspace agent workspaceRoot s)

include h

theorem InStep.noneMissed : NoneMissed s :=
  fun push hpush hhandled _ => h.passed push hpush (h.handled push hpush hhandled)

theorem InStep.bump (hnext : s.step normalizeWorkspace agent workspaceRoot .bump = some s') :
    InStep normalizeWorkspace agent workspaceRoot s' := by
  unfold RevisionState.step at hnext
  dsimp only at hnext
  split at hnext
  · cases hnext
  rename_i revision revisions hbump
  cases hnext
  have hmore : ∀ n, n ≤ memory normalizeWorkspace agent workspaceRoot s →
      n ≤ getPermissionsRevision normalizeWorkspace agent workspaceRoot revisions := by
    intro n hn
    rw [get_bumpPermissionsRevision hbump]
    exact Nat.le_succ_of_le hn
  constructor
  · exact hmore _ h.last_le
  · exact fun push hpush => hmore _ (h.answered push hpush)
  · exact fun push hpush => Nat.le_succ_of_le (h.counted push hpush)
  · exact Nat.le_succ_of_le h.reloaded_le
  · intro heq
    have hlast := h.last_le
    have hsame : memory normalizeWorkspace agent workspaceRoot s + 1 = s.last :=
      (get_bumpPermissionsRevision hbump).symm.trans heq
    omega
  · exact h.passed
  · exact h.handled

theorem InStep.restart (hkeeps : RestartKeeps normalizeWorkspace agent workspaceRoot s .restart)
    (hnext : s.step normalizeWorkspace agent workspaceRoot .restart = some s') :
    InStep normalizeWorkspace agent workspaceRoot s' := by
  obtain ⟨hlast, hanswered, hsame⟩ := hkeeps rfl
  cases hnext
  exact
    { last_le := hlast
      answered := hanswered
      counted := h.counted
      reloaded_le := h.reloaded_le
      heard := fun heq => h.heard (hsame heq)
      passed := h.passed
      handled := h.handled }

theorem InStep.answer (hnext : s.step normalizeWorkspace agent workspaceRoot .answer = some s') :
    InStep normalizeWorkspace agent workspaceRoot s' := by
  cases hnext
  constructor
  · exact h.last_le
  · intro push hpush
    rcases mem_append.mp hpush with hold | hnew
    · exact h.answered push hold
    · cases mem_singleton.mp hnew
      exact Nat.le_refl _
  · intro push hpush
    rcases mem_append.mp hpush with hold | hnew
    · exact h.counted push hold
    · cases mem_singleton.mp hnew
      exact Nat.le_refl _
  · exact h.reloaded_le
  · exact h.heard
  · intro push hpush hle
    rcases mem_append.mp hpush with hold | hnew
    · exact h.passed push hold hle
    · -- The daemon answers its memory: passed over only if it is what the process knows.
      cases mem_singleton.mp hnew
      exact Nat.le_of_eq (h.heard (Nat.le_antisymm hle h.last_le)).symm
  · intro push hpush hhandled
    rcases mem_append.mp hpush with hold | hnew
    · exact h.handled push hold hhandled
    · cases mem_singleton.mp hnew
      cases hhandled

omit h

theorem mem_set_handled {pushes : List Push} {i : ℕ} {push push' : Push}
    (hget : pushes[i]? = some push) (h : push' ∈ pushes.set i { push with handled := true }) :
    ∃ old ∈ pushes, push'.revision = old.revision ∧ push'.bumps = old.bumps ∧
      (push'.handled = true → old.handled = true ∨ old.revision = push.revision) := by
  rcases mem_or_eq_of_mem_set h with hold | rfl
  · exact ⟨push', hold, rfl, rfl, .inl⟩
  · exact ⟨push, mem_of_getElem? hget, rfl, rfl, fun _ => .inr rfl⟩

theorem InStep.handle (h : InStep normalizeWorkspace agent workspaceRoot s) {i : ℕ}
    (hnext : s.step normalizeWorkspace agent workspaceRoot (.handle i) = some s') :
    InStep normalizeWorkspace agent workspaceRoot s' := by
  unfold RevisionState.step at hnext
  dsimp only at hnext
  split at hnext
  · cases hnext
  rename_i push hget
  split at hnext
  · cases hnext
  have hpush := mem_of_getElem? hget
  have hanswered : ∀ push' ∈ s.pushes.set i { push with handled := true },
      push'.revision ≤ memory normalizeWorkspace agent workspaceRoot s := by
    intro push' hpush'
    obtain ⟨old, hold, hrevision, -, -⟩ := mem_set_handled hget hpush'
    exact hrevision ▸ h.answered old hold
  have hcounted : ∀ push' ∈ s.pushes.set i { push with handled := true }, push'.bumps ≤ s.bumps := by
    intro push' hpush'
    obtain ⟨old, hold, -, hbumps, -⟩ := mem_set_handled hget hpush'
    exact hbumps ▸ h.counted old hold
  by_cases hle : push.revision ≤ s.last
  · -- The process passes the answer over.
    have hs' : s' = { s with pushes := s.pushes.set i { push with handled := true } } := by
      split at hnext
      · exact (Option.some.inj hnext).symm
      · rw [RevisionState.maybeReloadPermissions, if_pos hle] at hnext
        exact (Option.some.inj hnext).symm
    subst hs'
    refine ⟨h.last_le, hanswered, hcounted, h.reloaded_le, h.heard, ?_, ?_⟩
    · intro push' hpush' hpassed
      obtain ⟨old, hold, hrevision, hbumps, -⟩ := mem_set_handled hget hpush'
      exact hbumps ▸ h.passed old hold (hrevision ▸ hpassed)
    · intro push' hpush' hhandled
      obtain ⟨old, hold, hrevision, -, hwas⟩ := mem_set_handled hget hpush'
      rw [hrevision]
      rcases hwas hhandled with hwas | hsame
      · exact h.handled old hold hwas
      · exact hsame ▸ hle
  · -- The process reloads, which comes after all bumps so far.
    have hs' : s' = { s with
        pushes := s.pushes.set i { push with handled := true }
        last := push.revision
        reloaded := s.bumps } := by
      rw [if_neg (by omega), RevisionState.maybeReloadPermissions, if_neg hle] at hnext
      exact (Option.some.inj hnext).symm
    subst hs'
    refine ⟨h.answered push hpush, hanswered, hcounted, Nat.le_refl _, fun _ => rfl, ?_, ?_⟩
    · exact fun push' hpush' _ => hcounted push' hpush'
    · intro push' hpush' hhandled
      obtain ⟨old, hold, hrevision, -, hwas⟩ := mem_set_handled hget hpush'
      dsimp only
      rw [hrevision]
      rcases hwas hhandled with hwas | hsame
      · have hlast := h.handled old hold hwas
        omega
      · exact Nat.le_of_eq hsame

theorem InStep.of_writers (h : InStep normalizeWorkspace agent workspaceRoot s)
    (writers : List Writer) (file : Option (Dict Text ℤ)) :
    InStep normalizeWorkspace agent workspaceRoot { s with writers := writers, file := file } :=
  ⟨h.last_le, h.answered, h.counted, h.reloaded_le, h.heard, h.passed, h.handled⟩

theorem InStep.step {action : RevisionAction} (h : InStep normalizeWorkspace agent workspaceRoot s)
    (hkeeps : RestartKeeps normalizeWorkspace agent workspaceRoot s action)
    (hnext : s.step normalizeWorkspace agent workspaceRoot action = some s') :
    InStep normalizeWorkspace agent workspaceRoot s' := by
  cases action with
  | bump => exact h.bump hnext
  | readRevisions writer =>
    unfold RevisionState.step at hnext
    dsimp only at hnext
    split at hnext
    · cases hnext
      exact h.of_writers _ _
    · cases hnext
  | replaceFile writer =>
    unfold RevisionState.step at hnext
    dsimp only at hnext
    split at hnext
    · cases hnext
      exact h.of_writers _ _
    · cases hnext
  | restart => exact h.restart hkeeps hnext
  | answer => exact h.answer hnext
  | handle push => exact h.handle hnext

/-- In a run whose restarts find a revision that the process reacts to, no permission change is
missed. -/
theorem noneMissed_of_restartKeeps {revisions : Revisions} {file : Option (Dict Text ℤ)}
    {actions : List RevisionAction}
    (run : Run (RevisionState.step normalizeWorkspace agent workspaceRoot)
      (RestartKeeps normalizeWorkspace agent workspaceRoot) (.start revisions file) actions s) :
    NoneMissed s :=
  (run.invariant (inStep_start revisions file) InStep.step).noneMissed

instance (s : RevisionState) (action : RevisionAction) :
    Decidable (RestartKeeps normalizeWorkspace agent workspaceRoot s action) :=
  inferInstanceAs (Decidable (action = .restart →
    s.last ≤ onDisk normalizeWorkspace agent workspaceRoot s ∧
    (∀ push ∈ s.pushes, push.revision ≤ onDisk normalizeWorkspace agent workspaceRoot s) ∧
    (onDisk normalizeWorkspace agent workspaceRoot s = s.last →
      memory normalizeWorkspace agent workspaceRoot s = s.last)))

def codexAgent : Text := "codex"

/-- A bump that is on disk before the daemon restarts. -/
def writtenBump : List RevisionAction :=
  [.bump, .readRevisions 0, .replaceFile 0, .restart, .answer, .handle 0]

/-- The push after the restart reloads. -/
theorem writtenBump_heard : ∃ s, runFrom (RevisionState.step some codexAgent ['/'])
      (RestartKeeps some codexAgent ['/']) (.start .empty none) writtenBump = some s ∧
    NoneMissed s := by
  have hsome : (runFrom (RevisionState.step some codexAgent ['/'])
      (RestartKeeps some codexAgent ['/']) (.start .empty none) writtenBump).isSome := by
    decide +kernel
  obtain ⟨s, hs⟩ := Option.isSome_iff_exists.mp hsome
  exact ⟨s, hs, noneMissed_of_restartKeeps (.of_runFrom hs)⟩

/-- The first of two writers replaces the file last, and the daemon restarts from it. -/
def overtakenWriter : List RevisionAction :=
  [.bump, .readRevisions 0, .bump, .readRevisions 1, .replaceFile 1, .replaceFile 0, .answer,
    .handle 0, .restart, .bump, .readRevisions 2, .replaceFile 2, .answer, .handle 1]

/-- The bump after the restart is missed. -/
theorem overtakenWriter_missed : ∃ s,
    Run (RevisionState.step some codexAgent ['/']) (fun _ _ => True) (.start .empty none)
      overtakenWriter s ∧ ¬ NoneMissed s := by
  have hrun : (runFrom (RevisionState.step some codexAgent ['/']) (fun _ _ => True)
      (.start .empty none) overtakenWriter).any (fun s => s.pushes.any fun push =>
        push.handled && push.settled && decide (s.reloaded < push.bumps)) = true := by
    decide +kernel
  obtain ⟨s, hs, htest⟩ := (Option.any_eq_true ..).mp hrun
  obtain ⟨push, hpush, htest⟩ := any_eq_true.mp htest
  obtain ⟨hflags, hless⟩ := Bool.and_eq_true_iff.mp htest
  obtain ⟨hhandled, hsettled⟩ := Bool.and_eq_true_iff.mp hflags
  refine ⟨s, .of_runFrom hs, ?_⟩
  intro hnone
  exact absurd (hnone push hpush hhandled hsettled) (Nat.not_le.mpr (of_decide_eq_true hless))

open Misc CytClient CytMcp

open Injection.SessionLog (nameKey isMetaTool)

variable {φ : Type} {env : CatalogEnv φ} {normalizeWorkspace : NormalizeWorkspace}
variable {revisions : Revisions} {payload : RegisterPayload φ} {registry : Registry φ}

/-- The key that a payload is registered under. -/
def payloadKey (normalizeWorkspace : NormalizeWorkspace) (payload : RegisterPayload φ) :
    Option RegistryKey :=
  (payload.workspaceRoot.bind normalizeWorkspace).bind fun workspaceRoot =>
    (normalizeCatalogLayer payload.catalogLayer).map fun catalogLayer =>
      ⟨normalizeAgent payload.agent, workspaceRoot, catalogLayer⟩

/-- The payload does not replace the entry: it is for a hash alone, or for the tools of an entry
that is not stale. -/
def Keeps (env : CatalogEnv φ) (payload : RegisterPayload φ) (entry : CatalogRegistration φ) :
    Prop :=
  entry.tools ≠ [] ∧
    if payload.tools.getD [] = [] then entry.contentHash = payload.contentHash.strip
    else entry.contentHash = catalogToolsContentHash env (normalizeTools env payload.tools) ∧
      entry.stale = false

/-- The entry that a payload with tools gives. -/
def freshEntry (env : CatalogEnv φ) (payload : RegisterPayload φ) (key : RegistryKey) :
    CatalogRegistration φ :=
  ⟨key.agent, key.workspaceRoot, key.catalogLayer, normalizeTools env payload.tools,
    catalogToolsContentHash env (normalizeTools env payload.tools), payload.instanceId.strip, false⟩

/-- What a registration does to the registry, by the code that it answers. -/
inductive Registers (env : CatalogEnv φ) (normalizeWorkspace : NormalizeWorkspace)
    (payload : RegisterPayload φ) (registry : Registry φ) : ℕ → Registry φ → Prop
  | invalid : Registers env normalizeWorkspace payload registry 400 registry
  | unknown {key : RegistryKey} (hkey : payloadKey normalizeWorkspace payload = some key)
      (hnone : ∀ entry, registry.get? key = some entry → ¬ Keeps env payload entry) :
      Registers env normalizeWorkspace payload registry 404 registry
  | unchanged {key : RegistryKey} {entry : CatalogRegistration φ} (instanceId : Text)
      (hkey : payloadKey normalizeWorkspace payload = some key)
      (hentry : registry.get? key = some entry) (hkeeps : Keeps env payload entry) :
      Registers env normalizeWorkspace payload registry 200
        (upsertEntry { entry with stale := false, instanceId := instanceId } registry)
  | stored {key : RegistryKey} (hkey : payloadKey normalizeWorkspace payload = some key)
      (htools : payload.tools.getD [] ≠ [])
      (hnone : ∀ entry, registry.get? key = some entry → ¬ Keeps env payload entry) :
      Registers env normalizeWorkspace payload registry 200
        (upsertEntry (freshEntry env payload key) registry)

theorem registers_hashOnly {key : RegistryKey} (instanceId : Text) (revision : ℕ)
    (hkey : payloadKey normalizeWorkspace payload = some key)
    (htools : payload.tools.getD [] = []) :
    let result := registerHashOnly (registry.get? key) payload.contentHash.strip instanceId revision
      registry
    Registers env normalizeWorkspace payload registry (hookCatalogRegister result.1).1 result.2 := by
  unfold registerHashOnly
  dsimp only
  split
  · rename_i hnone
    refine .unknown hkey fun entry hentry _ => ?_
    rw [hnone] at hentry
    cases hentry
  · rename_i entry hentry
    have honly : ∀ entry', registry.get? key = some entry' → Keeps env payload entry' →
        entry.tools ≠ [] ∧ entry.contentHash = payload.contentHash.strip := by
      intro entry' hentry' hkeeps
      cases hentry.symm.trans hentry'
      have hhash := hkeeps.2
      rw [if_pos htools] at hhash
      exact ⟨hkeeps.1, hhash⟩
    split
    · rename_i hempty
      exact .unknown hkey fun entry' hentry' hkeeps =>
        (honly entry' hentry' hkeeps).1 (List.isEmpty_iff.mp hempty)
    rename_i hsome
    split
    · rename_i hhash
      exact .unknown hkey fun entry' hentry' hkeeps => hhash (honly entry' hentry' hkeeps).2
    · rename_i hhash
      refine .unchanged _ hkey hentry ⟨fun hnil => hsome (List.isEmpty_iff.mpr hnil), ?_⟩
      rw [if_pos htools]
      exact not_not.mp hhash

theorem registers_fullTools {key : RegistryKey} (revision : ℕ)
    (hkey : payloadKey normalizeWorkspace payload = some key)
    (htools : payload.tools.getD [] ≠ []) :
    let result := registerFullTools (registry.get? key) (freshEntry env payload key) revision registry
    Registers env normalizeWorkspace payload registry (hookCatalogRegister result.1).1 result.2 := by
  unfold registerFullTools
  dsimp only
  split
  · rename_i hnone
    refine .stored hkey htools fun entry hentry _ => ?_
    rw [hnone] at hentry
    cases hentry
  · rename_i entry hentry
    split
    · rename_i hsame
      obtain ⟨hhash, hne, hlive⟩ := hsame
      have hentry' : { entry with
            instanceId := if (freshEntry env payload key).instanceId = [] then entry.instanceId
              else (freshEntry env payload key).instanceId } =
          { entry with
            stale := false
            instanceId := if (freshEntry env payload key).instanceId = [] then entry.instanceId
              else (freshEntry env payload key).instanceId } := by
        rw [← hlive]
      rw [hentry']
      refine .unchanged _ hkey hentry ⟨hne, ?_⟩
      rw [if_neg htools]
      exact ⟨hhash, hlive⟩
    · rename_i hdiffers
      refine .stored hkey htools fun entry' hentry' hkeeps => hdiffers ?_
      cases hentry.symm.trans hentry'
      have hhash := hkeeps.2
      rw [if_neg htools] at hhash
      exact ⟨hhash.1, hkeeps.1, hhash.2⟩

theorem registers_registerCatalog (env : CatalogEnv φ) (normalizeWorkspace : NormalizeWorkspace)
    (revisions : Revisions) (payload : RegisterPayload φ) (registry : Registry φ) :
    let result := registerCatalog env normalizeWorkspace revisions payload registry
    Registers env normalizeWorkspace payload registry (hookCatalogRegister result.1).1 result.2 := by
  unfold registerCatalog
  dsimp only
  split
  · split
    · exact .invalid
    · exact .invalid
  split
  · exact .invalid
  rename_i workspaceRoot hworkspace
  split
  · exact .invalid
  rename_i catalogLayer hlayer
  have hkey : payloadKey normalizeWorkspace payload =
      some ⟨normalizeAgent payload.agent, workspaceRoot, catalogLayer⟩ := by
    unfold payloadKey
    rw [hworkspace, hlayer]
    rfl
  split
  · exact .invalid
  split
  · rename_i htools
    exact registers_hashOnly _ _ hkey (List.isEmpty_iff.mp htools)
  · rename_i htools
    exact registers_fullTools _ hkey fun hnil => htools (List.isEmpty_iff.mpr hnil)

/-- An entry has the hash of its tools, and no meta tool. -/
structure WellKept (env : CatalogEnv φ) (entry : CatalogRegistration φ) : Prop where
  contentHash : entry.contentHash = catalogToolsContentHash env entry.tools
  tools : normalizeTools env (some entry.tools) = entry.tools

/-- Every entry is well kept, under its own key. -/
def RegistryKept (env : CatalogEnv φ) (registry : Registry φ) : Prop :=
  registry.Forall fun key entry => entry.key = key ∧ WellKept env entry

theorem normalizeTools_normalizeTools (raw : Option (List (Record φ))) :
    normalizeTools env (some (normalizeTools env raw)) = normalizeTools env raw := by
  unfold normalizeTools
  rw [Option.getD_some, filter_filter]
  simp only [Bool.and_self]

variable {entry : CatalogRegistration φ}

theorem RegistryKept.upsertEntry (h : RegistryKept env registry)
    (hentry : WellKept env entry) : RegistryKept env (upsertEntry entry registry) :=
  Dict.Forall.set h ⟨rfl, hentry⟩

theorem RegistryKept.registers {code : ℕ} {registry' : Registry φ} (h : RegistryKept env registry)
    (hregisters : Registers env normalizeWorkspace payload registry code registry') :
    RegistryKept env registry' := by
  cases hregisters with
  | invalid => exact h
  | unknown => exact h
  | unchanged instanceId hkey hentry hkeeps =>
    have hwell := (Dict.Forall.get? h hentry).2
    exact h.upsertEntry ⟨hwell.contentHash, hwell.tools⟩
  | stored hkey htools hnone => exact h.upsertEntry ⟨rfl, normalizeTools_normalizeTools _⟩

theorem WellKept.entryFromDict {raw entry : CatalogRegistration φ} (h : WellKept env raw)
    (hentry : entryFromDict env normalizeWorkspace raw = some entry) : WellKept env entry := by
  obtain ⟨workspaceRoot, -, rfl⟩ := Option.map_eq_some_iff.mp hentry
  have hhash : raw.contentHash ≠ [] := by
    rw [h.contentHash]
    exact env.sha256_ne_nil _
  constructor
  · dsimp only
    rw [if_neg (fun hempty => hhash hempty.1), h.tools]
    exact h.contentHash
  · exact normalizeTools_normalizeTools _

theorem RegistryKept.loadEntry (h : RegistryKept env registry)
    (hentry : WellKept env entry) : RegistryKept env (loadEntry registry entry) := by
  have hset : RegistryKept env (registry.set entry.key { entry with stale := true }) :=
    Dict.Forall.set h ⟨rfl, hentry.contentHash, hentry.tools⟩
  unfold Hook.loadEntry
  split
  · exact hset
  · split
    · exact h
    · exact hset

theorem RegistryKept.loadCatalogRegistryFromDisk {snapshot : List (CatalogRegistration φ)}
    (h : RegistryKept env registry) (hsnapshot : ∀ entry ∈ snapshot, WellKept env entry) :
    RegistryKept env (loadCatalogRegistryFromDisk env normalizeWorkspace snapshot registry) := by
  unfold Hook.loadCatalogRegistryFromDisk
  have hloaded : ∀ entry ∈ snapshot.filterMap (Hook.entryFromDict env normalizeWorkspace),
      WellKept env entry := by
    intro entry hentry
    obtain ⟨raw, hraw, hload⟩ := mem_filterMap.mp hentry
    exact (hsnapshot raw hraw).entryFromDict hload
  generalize snapshot.filterMap (Hook.entryFromDict env normalizeWorkspace) = entries at hloaded
  induction entries generalizing registry with
  | nil => exact h
  | cons entry entries ih =>
    rw [foldl_cons]
    exact ih (h.loadEntry (hloaded entry (mem_cons_self ..)))
      fun entry' hentry' => hloaded entry' (mem_cons_of_mem _ hentry')

end ClearYourTools.Hook
