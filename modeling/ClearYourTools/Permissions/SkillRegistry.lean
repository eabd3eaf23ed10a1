import ClearYourTools.Misc.Dict
import ClearYourTools.Permissions.Wizard

/-!
# The registry of skills

`skills/catalog.py`, `build_registry`: files with one content are one entry, under the path of the
first of them. The registry is cached, and each call filters it by its own permissions.
-/

namespace ClearYourTools.Permissions

open Misc List

/-- A skill file, or an item of a client payload. -/
structure SkillFile where
  path : Text
  content : Text

/-- The fields of `SkillEntryRef` that the filters read. -/
structure SkillEntryRef where
  sourcePath : Text
  contentSha256 : Text

inductive SkillSources where
  | client (skills : List SkillFile)
  | configDirs (files : List SkillFile)

/-- A call of `build_registry`. What `_registry_cache_key` gives for it has the paths and hashes of a
payload, or the paths, times and sizes of the files, and nothing of the permissions. -/
structure RegistryCall (κ : Type) where
  cacheKey : κ
  filterAgent : Option Text
  sources : SkillSources
  deny : List Text
  base : Option PurePath

/-- The index gives the hashes of the contents that it has entries for; `skill_name` reads the
document of an entry. -/
structure SkillCatalogEnv extends PathEnv where
  casefold : Text → Text
  sha256 : Text → Text
  ensureSkillsRegistry : List SkillFile → List Text
  skillName : SkillEntryRef → Text
  agentSystemSkillOwner : Text → Option Text

def PurePath.stem (path : PurePath) : Text := path.name.take (path.name.length - path.suffix.length)

section

variable {κ : Type} [DecidableEq κ] (env : SkillCatalogEnv)

def SkillFile.contentHash (file : SkillFile) : Text := env.sha256 file.content

def SkillFile.entry (file : SkillFile) : SkillEntryRef := ⟨file.path, file.contentHash env⟩

def SkillSources.files : SkillSources → List SkillFile
  | .client skills => skills.map fun skill =>
    ⟨(env.expandUser (.ofText skill.path)).posix, skill.content⟩
  | .configDirs files => files

/-- The loop over the files, with `seen_content`. -/
def firstOfEachContent (files : List SkillFile) : List SkillFile :=
  files.foldl (fun kept file =>
    if (kept.map (SkillFile.contentHash env)).contains (file.contentHash env) then kept
    else kept ++ [file]) []

/-- `_build_registry_from_client_skills` and `_build_registry_from_config_dirs`. -/
def buildRegistryUncached (sources : SkillSources) : List SkillEntryRef :=
  let kept := firstOfEachContent env (sources.files env)
  (env.ensureSkillsRegistry kept).filterMap fun contentHash =>
    (kept.find? fun file => file.contentHash env == contentHash).map (SkillFile.entry env)

def skillPolicyName (entry : SkillEntryRef) : Text :=
  let name := env.skillName entry
  if name ≠ [] then name
  else
    let path := PurePath.ofText entry.sourcePath
    if env.lower path.name = skillMdName then path.parent.name else path.stem

def filterSkillEntries (entries : List SkillEntryRef) (deny : List Text) (base : Option PurePath) :
    List SkillEntryRef :=
  if deny.isEmpty then entries
  else entries.filter fun entry => !isSkillPermissionDenied env.toPathEnv env.casefold
    (skillPolicyName env entry) entry.sourcePath deny base

def isExcludedAgentSystemSkill (sourcePath : Text) : Option Text → Bool
  | none => false
  | some activeAgent => (env.agentSystemSkillOwner sourcePath).any (· != activeAgent)

def filterAgentSystemSkills (entries : List SkillEntryRef) (activeAgent : Option Text) :
    List SkillEntryRef :=
  if activeAgent.isNone then entries
  else entries.filter fun entry => !isExcludedAgentSystemSkill env entry.sourcePath activeAgent

/-- `build_registry`: what it returns, and the cache. -/
def buildRegistry (call : RegistryCall κ) (cache : Dict κ (List SkillEntryRef)) :
    List SkillEntryRef × Dict κ (List SkillEntryRef) :=
  let built := (cache.get? call.cacheKey).getD (buildRegistryUncached env call.sources)
  (filterAgentSystemSkills env (filterSkillEntries env built call.deny call.base) call.filterAgent,
    if cache.contains call.cacheKey then cache else cache.set call.cacheKey built)

def cacheAfter (calls : List (RegistryCall κ)) : Dict κ (List SkillEntryRef) :=
  calls.foldl (fun cache call => (buildRegistry env call cache).2) .empty

/-- The call whose sources the cache has for a call: the first one with its key. -/
def cachedCall (calls : List (RegistryCall κ)) (call : RegistryCall κ) : RegistryCall κ :=
  (calls.find? fun earlier => earlier.cacheKey == call.cacheKey).getD call

/-- A file is neither denied nor excluded. -/
def RegistryCall.allows (call : RegistryCall κ) (entry : SkillEntryRef) : Bool :=
  !isSkillPermissionDenied env.toPathEnv env.casefold (skillPolicyName env entry) entry.sourcePath
    call.deny call.base && !isExcludedAgentSystemSkill env entry.sourcePath call.filterAgent

/-- There is an entry for a content if and only if one of its files is allowed, and the path of each
entry is that of such a file. -/
def RemovesOnlyDenied (call : RegistryCall κ) (entries : List SkillEntryRef) : Prop :=
  (∀ contentHash, (∃ entry ∈ entries, entry.contentSha256 = contentHash) ↔
    ∃ file ∈ call.sources.files env, file.contentHash env = contentHash ∧
      call.allows env (file.entry env) = true) ∧
  ∀ entry ∈ entries, ∃ file ∈ call.sources.files env, file.entry env = entry ∧
    call.allows env entry = true

/-- The first file of its content in a scan. -/
def IsFirst (files : List SkillFile) (file : SkillFile) : Prop :=
  (files.find? fun other => other.contentHash env == file.contentHash env) = some file

/-- Where a file is allowed the first file of its content is; and the cached ones are files of the
call. -/
structure FirstAllowed (cached call : RegistryCall κ) : Prop where
  first : ∀ file ∈ call.sources.files env, call.allows env (file.entry env) = true →
    ∃ other, IsFirst env (cached.sources.files env) other ∧
      other.contentHash env = file.contentHash env ∧ call.allows env (other.entry env) = true
  files : ∀ other, IsFirst env (cached.sources.files env) other →
    call.allows env (other.entry env) = true →
    ∃ file ∈ call.sources.files env, file.entry env = other.entry env

/-- The index has an entry for each content that it is given, and for no other. -/
def GivesEach : Prop :=
  ∀ files contentHash, contentHash ∈ env.ensureSkillsRegistry files ↔
    contentHash ∈ files.map (SkillFile.contentHash env)

variable {env}

theorem find?_firstOfEachContent (files : List SkillFile) (contentHash : Text) :
    ((firstOfEachContent env files).find? fun file => file.contentHash env == contentHash) =
      files.find? fun file => file.contentHash env == contentHash := by
  induction files using List.reverseRecOn with
  | nil => rfl
  | append_singleton files file ih =>
    rw [firstOfEachContent, foldl_append, foldl_cons, foldl_nil, ← firstOfEachContent,
      find?_append, ← ih]
    split
    · rename_i hseen
      by_cases heq : (file.contentHash env == contentHash) = true
      · obtain ⟨other, hother, hsame⟩ := mem_map.mp (contains_iff_mem.mp hseen)
        have hfound : ((firstOfEachContent env files).find? fun file =>
            file.contentHash env == contentHash).isSome = true :=
          find?_isSome.mpr ⟨other, hother, hsame ▸ heq⟩
        exact (Option.or_of_isSome hfound).symm
      · simp [heq]
    · rw [find?_append]

theorem mem_buildRegistryUncached (hgives : GivesEach env) {sources : SkillSources}
    {entry : SkillEntryRef} : entry ∈ buildRegistryUncached env sources ↔
      ∃ file, IsFirst env (sources.files env) file ∧ file.entry env = entry := by
  simp only [buildRegistryUncached, mem_filterMap, find?_firstOfEachContent, Option.map_eq_some_iff]
  constructor
  · rintro ⟨contentHash, -, file, hfind, rfl⟩
    have heq : file.contentHash env = contentHash := by simpa using find?_some hfind
    subst heq
    exact ⟨file, hfind, rfl⟩
  · rintro ⟨file, hfirst, rfl⟩
    refine ⟨file.contentHash env, (hgives _ _).mpr ?_, file, hfirst, rfl⟩
    have hsome := (@find?_firstOfEachContent env (sources.files env)
      (file.contentHash env)).trans hfirst
    exact mem_map_of_mem (mem_of_find?_eq_some hsome)

variable (call : RegistryCall κ)

theorem get?_buildRegistry (cache : Dict κ (List SkillEntryRef)) (key : κ) :
    (buildRegistry env call cache).2.get? key = (cache.get? key).or
      (if call.cacheKey = key then some (buildRegistryUncached env call.sources) else none) := by
  rw [buildRegistry]
  dsimp only
  by_cases heq : call.cacheKey = key
  · subst heq
    split
    · rename_i hknown
      exact (Option.or_of_isSome hknown).symm
    · rename_i hnew
      rw [Dict.contains, Bool.not_eq_true, Option.isSome_eq_false_iff, Option.isNone_iff_eq_none]
        at hnew
      rw [Dict.get?_set_self, hnew, if_pos rfl]
      rfl
  · rw [if_neg heq, Option.or_none]
    split
    · rfl
    · rw [Dict.get?_set, if_neg fun h => heq h.symm]

theorem get?_cacheAfter (calls : List (RegistryCall κ)) (call : RegistryCall κ) :
    ((cacheAfter env calls).get? call.cacheKey).getD (buildRegistryUncached env call.sources) =
      buildRegistryUncached env (cachedCall calls call).sources := by
  have hget : ∀ cache : Dict κ (List SkillEntryRef),
      (calls.foldl (fun cache call => (buildRegistry env call cache).2) cache).get? call.cacheKey =
        (cache.get? call.cacheKey).or ((calls.find? fun earlier =>
          earlier.cacheKey == call.cacheKey).map fun earlier =>
            buildRegistryUncached env earlier.sources) := by
    induction calls with
    | nil => exact fun cache => Option.or_none.symm
    | cons earlier calls ih =>
      intro cache
      rw [foldl_cons, ih, get?_buildRegistry, Option.or_assoc, find?_cons]
      by_cases heq : earlier.cacheKey = call.cacheKey
      · simp [heq]
      · simp [heq, beq_false_of_ne heq]
  rw [cacheAfter, hget, cachedCall]
  cases calls.find? fun earlier => earlier.cacheKey == call.cacheKey <;> rfl

omit [DecidableEq κ] in
theorem mem_filters {entries : List SkillEntryRef} {entry : SkillEntryRef} :
    entry ∈ filterAgentSystemSkills env (filterSkillEntries env entries call.deny call.base)
        call.filterAgent ↔
      entry ∈ entries ∧ call.allows env entry = true := by
  have hpermitted : entry ∈ filterSkillEntries env entries call.deny call.base ↔ entry ∈ entries ∧
      isSkillPermissionDenied env.toPathEnv env.casefold (skillPolicyName env entry)
        entry.sourcePath call.deny call.base = false := by
    rw [filterSkillEntries]
    split
    · rename_i hnone
      rw [isEmpty_iff.mp hnone]
      simp [isSkillPermissionDenied, isSkillNameDenied, isSkillPathDenied, skillNameEntries,
        skillPathEntries]
    · rw [mem_filter, Bool.not_eq_true']
  rw [RegistryCall.allows, Bool.and_eq_true, Bool.not_eq_true', ← and_assoc, ← hpermitted,
    filterAgentSystemSkills]
  cases call.filterAgent with
  | none => exact (and_iff_left rfl).symm
  | some activeAgent => exact mem_filter

end

section

variable {κ : Type} [DecidableEq κ] {env : SkillCatalogEnv}

/-- For every call after any others: denying files removes only them if and only if, of each content
with an allowed file, the file that was seen first is allowed. -/
theorem removesOnlyDenied_iff (hgives : GivesEach env) (calls : List (RegistryCall κ))
    (call : RegistryCall κ) :
    RemovesOnlyDenied env call (buildRegistry env call (cacheAfter env calls)).1 ↔
      FirstAllowed env (cachedCall calls call) call := by
  have hmem : ∀ entry, entry ∈ (buildRegistry env call (cacheAfter env calls)).1 ↔
      (∃ file, IsFirst env ((cachedCall calls call).sources.files env) file ∧
        file.entry env = entry) ∧ call.allows env entry = true := by
    intro entry
    rw [buildRegistry, mem_filters, get?_cacheAfter, mem_buildRegistryUncached hgives]
  constructor
  · rintro ⟨hcontents, hfiles⟩
    constructor
    · intro file hfile hallowed
      obtain ⟨entry, hentry, hhash⟩ := (hcontents _).mpr ⟨file, hfile, rfl, hallowed⟩
      obtain ⟨⟨other, hfirst, rfl⟩, hother⟩ := (hmem entry).mp hentry
      exact ⟨other, hfirst, hhash, hother⟩
    · intro other hfirst hallowed
      obtain ⟨file, hfile, hsame, -⟩ := hfiles _ ((hmem _).mpr ⟨⟨other, hfirst, rfl⟩, hallowed⟩)
      exact ⟨file, hfile, hsame⟩
  · rintro ⟨hfirst, hfiles⟩
    have hown : ∀ entry ∈ (buildRegistry env call (cacheAfter env calls)).1,
        ∃ file ∈ call.sources.files env, file.entry env = entry ∧ call.allows env entry = true := by
      intro entry hentry
      obtain ⟨⟨other, hother, rfl⟩, hallowed⟩ := (hmem entry).mp hentry
      obtain ⟨file, hfile, hsame⟩ := hfiles other hother hallowed
      exact ⟨file, hfile, hsame, hallowed⟩
    refine ⟨fun contentHash => ⟨?_, ?_⟩, hown⟩
    · rintro ⟨entry, hentry, rfl⟩
      obtain ⟨file, hfile, rfl, hallowed⟩ := hown entry hentry
      exact ⟨file, hfile, rfl, hallowed⟩
    · rintro ⟨file, hfile, rfl, hallowed⟩
      obtain ⟨other, hother, hhash, hallows⟩ := hfirst file hfile hallowed
      exact ⟨_, (hmem _).mpr ⟨⟨other, hother, rfl⟩, hallows⟩, hhash⟩

end

/-- The content stands for its hash, and every skill has the name of its directory. -/
def plainCatalogEnv : SkillCatalogEnv where
  expandUser path := path
  resolve path := path
  isFile _ := false
  lower text := text
  casefold text := text
  sha256 content := content
  ensureSkillsRegistry files := files.map SkillFile.content
  skillName _ := []
  agentSystemSkillOwner _ := none

def copyAt (directory : Text) : SkillFile := ⟨directory ++ "SKILL.md", "text"⟩

/-- Two files with one content, of which the first is denied. -/
def copiedSkill : RegistryCall Unit where
  cacheKey := ()
  filterAgent := none
  sources := .configDirs [copyAt "/a/", copyAt "/b/"]
  deny := ["path:/a/".toList]
  base := none

theorem givesEach_plainCatalogEnv : GivesEach plainCatalogEnv := fun _ _ => Iff.rfl

theorem removesOnlyDenied_iff_copiedSkill :
    RemovesOnlyDenied plainCatalogEnv copiedSkill
        (buildRegistry plainCatalogEnv copiedSkill (cacheAfter plainCatalogEnv [])).1 ↔
      FirstAllowed plainCatalogEnv (cachedCall [] copiedSkill) copiedSkill :=
  removesOnlyDenied_iff givesEach_plainCatalogEnv [] copiedSkill

/-- The skill under `/b` is allowed and has no entry. -/
theorem allowedCopy_removed :
    ¬∀ (env : SkillCatalogEnv) (calls : List (RegistryCall Unit))
      (call : RegistryCall Unit), GivesEach env →
      RemovesOnlyDenied env call (buildRegistry env call (cacheAfter env calls)).1 := by
  intro h
  have hnone : (buildRegistry plainCatalogEnv copiedSkill (cacheAfter plainCatalogEnv [])).1.length =
      0 := by decide +kernel
  have hallowed : copiedSkill.allows plainCatalogEnv ((copyAt "/b/").entry plainCatalogEnv) =
      true := by decide +kernel
  obtain ⟨hcontents, -⟩ := h plainCatalogEnv [] copiedSkill givesEach_plainCatalogEnv
  obtain ⟨entry, hentry, -⟩ := (hcontents "text").mpr
    ⟨copyAt "/b/", mem_cons_of_mem _ mem_cons_self, rfl, hallowed⟩
  rw [length_eq_zero_iff.mp hnone] at hentry
  cases hentry

end ClearYourTools.Permissions
