import ClearYourTools.Permissions.Proofs.Enabling
import ClearYourTools.Permissions.Proofs.Wizard

/-!
# Rules of skill directories

`permissions/editor.py` with a skill path: enabling a skill takes out every rule that matches it,
also one that was written for a directory above it.
-/

namespace ClearYourTools.Permissions

open Misc List

section

variable (env : PathEnv) (skillPath : Text) (workspaceRoot : Option PurePath)

def removeSkillPathDenyEntry (deny : List Text) : List Text :=
  deny.filter fun entry =>
    match parseSkillPermissionEntry entry with
    | none => true
    | some rule =>
      !(rule.kind == .path && skillPathMatchesRule env skillPath rule.value workspaceRoot)

/-- `enable_skill` with a path. -/
def enableSkillAt : Fields → PermissionAgentTarget → Fields :=
  editDeny .skills (removeSkillPathDenyEntry env skillPath workspaceRoot)

end

variable {env : PathEnv} {workspaceRoot directory : PurePath}

theorem removeSkillPathDenyEntry_eq (hstrip : directory.posix.strip = directory.posix)
    (base : Option PurePath) :
    removeSkillPathDenyEntry env directory.posix base =
      List.filter fun entry => !isSkillPathDenied env directory.posix [entry] base := by
  funext deny
  rw [removeSkillPathDenyEntry]
  congr 1
  funext entry
  rw [isSkillPathDenied, hstrip, if_neg directory.posix_ne_nil, skillPathEntries, filterMap_cons]
  cases parseSkillPermissionEntry entry with
  | none => rfl
  | some rule =>
    dsimp only
    rw [filterMap_nil, filter_singleton]
    cases rule.kind == SkillRuleKind.path with
    | false => rfl
    | true => exact congrArg Bool.not (Bool.or_false _).symm

variable (env) in
/-- There are no legacy lists of skills that could come back. -/
theorem denyRules_enableSkillAt (hstrip : directory.posix.strip = directory.posix)
    (base : Option PurePath) (config : Fields) (agentTarget : PermissionAgentTarget) :
    denyRules (enableSkillAt env directory.posix base config agentTarget) .skills agentTarget =
      (denyRules config .skills agentTarget).filter fun entry =>
        !isSkillPathDenied env directory.posix [entry] base := by
  rw [enableSkillAt, removeSkillPathDenyEntry_eq hstrip, denyRules_editDeny]
  split
  · rename_i hempty
    exact hempty.1.symm
  · rfl

variable (env) in
theorem denied_of_filter_iff (path : Text) (base : Option PurePath) (gone : Text → Bool)
    (rules : List Text) :
    isSkillPathDenied env path (rules.filter fun entry => !gone entry) base =
        isSkillPathDenied env path rules base ↔
      ∀ entry ∈ rules, gone entry = true → isSkillPathDenied env path [entry] base = true →
        ∃ kept ∈ rules, gone kept = false ∧ isSkillPathDenied env path [kept] base = true := by
  rw [Bool.eq_iff_iff, isSkillPathDenied_iff_exists, isSkillPathDenied_iff_exists]
  constructor
  · intro hsame entry hentry _ hdenied
    obtain ⟨kept, hkept, hmatch⟩ := hsame.mpr ⟨entry, hentry, hdenied⟩
    obtain ⟨hin, hstays⟩ := mem_filter.mp hkept
    exact ⟨kept, hin, (Bool.not_eq_true' _).mp hstays, hmatch⟩
  · intro hother
    constructor
    · rintro ⟨entry, hentry, hdenied⟩
      exact ⟨entry, mem_of_mem_filter hentry, hdenied⟩
    · rintro ⟨entry, hentry, hdenied⟩
      cases hgone : gone entry with
      | false => exact ⟨entry, mem_filter.mpr ⟨hentry, by rw [hgone]; rfl⟩, hdenied⟩
      | true =>
        obtain ⟨kept, hkept, hstays, hmatch⟩ := hother entry hentry hgone hdenied
        exact ⟨kept, mem_filter.mpr ⟨hkept, by rw [hstays]; rfl⟩, hmatch⟩

section

variable (env workspaceRoot directory)

/-- The rule of the directory denies the skills in it alone; and enabling the directory leaves no
rule that denies it, and all others as they are. -/
structure ExactRules (path other : PurePath) (config : Fields) (agentTarget : PermissionAgentTarget) :
    Prop where
  denied : ∃ entry, formatSkillPathPermissionEntry env directory.posix workspaceRoot = some entry ∧
    (isSkillPathDenied env path.posix [entry] (some workspaceRoot) = true ↔
      directory.parts <+: (skillDir env path).parts)
  gone : isSkillPathDenied env directory.posix (denyRules (enableSkillAt env directory.posix
    (some workspaceRoot) config agentTarget) .skills agentTarget) (some workspaceRoot) = false
  others : ¬directory.parts <+: other.parts →
    isSkillPathDenied env other.posix (denyRules (enableSkillAt env directory.posix
      (some workspaceRoot) config agentTarget) .skills agentTarget) (some workspaceRoot) =
    isSkillPathDenied env other.posix (denyRules config .skills agentTarget) (some workspaceRoot)

/-- A skill elsewhere does not have the parts that the rule of the directory has in a row; and what
a rule denies together with the directory is denied by another rule, too. -/
structure RulesApart (path other : PurePath) (rules : List Text) : Prop where
  run : ∀ shown, directory.relativeTo workspaceRoot = some shown → shown.parts ≠ [] →
    shown.parts <:+: (skillDir env path).allParts → directory.parts <+: (skillDir env path).parts
  shared : ¬directory.parts <+: other.parts → ∀ entry ∈ rules,
    isSkillPathDenied env directory.posix [entry] (some workspaceRoot) = true →
    isSkillPathDenied env other.posix [entry] (some workspaceRoot) = true →
    ∃ kept ∈ rules, isSkillPathDenied env directory.posix [kept] (some workspaceRoot) = false ∧
      isSkillPathDenied env other.posix [kept] (some workspaceRoot) = true

end

/-- The rules of skill directories are exact if and only if the skill and the other directory are
apart from the directory in its rule, and in the rules there are. -/
theorem exactRules_iff {path : PurePath} (hworkspace : PlainPath env workspaceRoot)
    (hdirectory : PlainDir env workspaceRoot directory)
    (hstrip : directory.posix.strip = directory.posix) (hpath : SkillPath env path)
    (other : PurePath) (config : Fields) (agentTarget : PermissionAgentTarget) :
    ExactRules env workspaceRoot directory path other config agentTarget ↔
      RulesApart env workspaceRoot directory path other (denyRules config .skills agentTarget) := by
  have hentry := formatSkillPathPermissionEntry_plain hworkspace hstrip hdirectory.isDir
    hdirectory.toPlainPath.isAbsolute hdirectory.resolve
  have hdenied := isSkillPathDenied_entry_iff hdirectory hpath
  have hrules := denyRules_enableSkillAt env hstrip (some workspaceRoot) config agentTarget
  have hothers := denied_of_filter_iff env other.posix (some workspaceRoot)
    (fun entry => isSkillPathDenied env directory.posix [entry] (some workspaceRoot))
    (denyRules config .skills agentTarget)
  constructor
  · rintro ⟨⟨entry, hformat, hexact⟩, -, hkeep⟩
    cases hentry.symm.trans hformat
    refine ⟨fun shown hshown hne hrun => hexact.mp (hdenied.mpr (.inr ⟨shown, hshown, hne, hrun⟩)),
      fun houtside => hothers.mp ?_⟩
    rw [← hrules]
    exact hkeep houtside
  · rintro ⟨hrun, hshared⟩
    refine ⟨⟨_, hentry, hdenied.trans ⟨?_, .inl⟩⟩, ?_, fun houtside => ?_⟩
    · rintro (hbelow | ⟨shown, hshown, hne, hinfix⟩)
      · exact hbelow
      · exact hrun shown hshown hne hinfix
    · refine Bool.eq_false_of_not_eq_true fun hleft => ?_
      rw [hrules, isSkillPathDenied_iff_exists] at hleft
      obtain ⟨entry, hin, hmatch⟩ := hleft
      have hstays := (mem_filter.mp hin).2
      rw [hmatch] at hstays
      cases hstays
    · rw [hrules]
      exact hothers.mpr (hshared houtside)

/-- The directory of the skill of the workspace. -/
def fooDir : PurePath := .ofText "/w/.cursor/skills/foo"

theorem givenDir_fooDir : GivenDir plainPathEnv (.ofText "/w") fooDir :=
  givenDir_plainPathEnv rfl (by decide +kernel) (by decide +kernel) (by decide +kernel)
    (by decide +kernel)

theorem exactRules_iff_fooDir :
    ExactRules plainPathEnv (.ofText "/w") fooDir betaPath alphaPath spacedConfig .all ↔
      RulesApart plainPathEnv (.ofText "/w") fooDir betaPath alphaPath
        (denyRules spacedConfig .skills .all) :=
  exactRules_iff ⟨rfl, rfl, rfl⟩ givenDir_fooDir.resolved givenDir_fooDir.strip skillPath_betaPath
    alphaPath spacedConfig .all

/-- The rule of the folder `foo` of the workspace denies that of the user. -/
theorem foo_of_user_denied :
    ¬∀ (env : PathEnv) (workspaceRoot directory path other : PurePath) (config : Fields)
      (agentTarget : PermissionAgentTarget), PlainPath env workspaceRoot →
      PlainDir env workspaceRoot directory → directory.posix.strip = directory.posix →
      SkillPath env path →
      ExactRules env workspaceRoot directory path other config agentTarget := by
  intro h
  obtain ⟨⟨entry, hformat, hexact⟩, -, -⟩ := h plainPathEnv (.ofText "/w") fooDir alphaPath
    alphaPath spacedConfig .all ⟨rfl, rfl, rfl⟩ givenDir_fooDir.resolved givenDir_fooDir.strip
    skillPath_alphaPath
  have hdenied : isSkillPathDenied plainPathEnv alphaPath.posix
      [((formatSkillPathPermissionEntry plainPathEnv fooDir.posix (.ofText "/w")).getD [])]
      (some (.ofText "/w")) = true := by decide +kernel
  rw [hformat] at hdenied
  have houtside : ¬fooDir.parts <+: (skillDir plainPathEnv alphaPath).parts := by decide +kernel
  exact houtside (hexact.mp hdenied)

end ClearYourTools.Permissions
