import ClearYourTools.Permissions.Effective
import ClearYourTools.Permissions.Wizard

/-!
# The layers of a deny list

What the effective permissions deny is what one of their layers denies on its own.
-/

namespace ClearYourTools.Permissions

open Misc

variable {denied denied' : List Text → Bool}

/-- The union of deny lists denies what one of them does. -/
def ByLayer (denied : List Text → Bool) : Prop :=
  ∀ layers : List PermissionLists,
    denied (unionLists layers).deny = true ↔ ∃ layer ∈ layers, denied layer.deny = true

namespace ByLayer

theorem any {ρ : Type} {parse : Text → Option ρ} {p : ρ → Bool}
    (hstrip : ∀ entry : Text, parse entry.strip = parse entry) (hnil : parse [] = none) :
    ByLayer fun entries => (entries.filterMap parse).any p := by
  intro layers
  simp only [List.any_eq_true, List.mem_filterMap, unionLists, mem_unionStringLists, List.mem_map]
  constructor
  · rintro ⟨rule, ⟨-, ⟨-, -, ⟨layer, hlayer, rfl⟩, item, hitem, rfl⟩, hrule⟩, hp⟩
    exact ⟨layer, hlayer, rule, ⟨item, hitem, by rw [← hstrip, hrule]⟩, hp⟩
  · rintro ⟨layer, hlayer, rule, ⟨item, hitem, hrule⟩, hp⟩
    rw [← hstrip] at hrule
    refine ⟨rule, ⟨_, ⟨fun hempty => ?_, _, ⟨layer, hlayer, rfl⟩, item, hitem, rfl⟩, hrule⟩, hp⟩
    rw [hempty, hnil] at hrule
    cases hrule

theorem never : ByLayer fun _ => false := fun layers => by simp

theorem or (h : ByLayer denied) (h' : ByLayer denied') :
    ByLayer fun entries => denied entries || denied' entries := fun layers => by
  simp only [Bool.or_eq_true, h layers, h' layers, and_or_left, exists_or]

theorem ite {c : Prop} [Decidable c] (h : ByLayer denied) (h' : ByLayer denied') :
    ByLayer fun entries => if c then denied entries else denied' entries := by
  by_cases hc : c
  · simpa only [if_pos hc] using h
  · simpa only [if_neg hc] using h'

theorem mcpRules {p : ParsedMcpDenyRule → Bool} :
    ByLayer fun entries => (parseMcpDenyRules entries).any p :=
  any (fun entry => by simp only [parseMcpDenyEntry, Text.strip_strip]) rfl

theorem skillRules {p : ParsedSkillPermissionRule → Bool} :
    ByLayer fun entries => (entries.filterMap parseSkillPermissionEntry).any p :=
  any (fun entry => by simp only [parseSkillPermissionEntry, Text.strip_strip]) rfl

theorem tool (server tool : Text) : ByLayer (isMcpToolDenied server tool) := by
  unfold isMcpToolDenied isMcpServerDenied
  simp only [Bool.if_true_left, Bool.decide_eq_true]
  exact never.ite ((never.ite mcpRules).or mcpRules)

theorem catalogTool (name : Text) : ByLayer (isCatalogToolDenied name) := by
  unfold isCatalogToolDenied
  simp only [Bool.if_true_left, Bool.decide_eq_true]
  refine never.ite ?_
  split
  · exact never
  · refine (tool _ _).or (.ite ?_ never)
    split
    exacts [never, tool _ _]

theorem skill (env : PathEnv) (casefold : Text → Text) (name path : Text) (base : Option PurePath) :
    ByLayer (isSkillPermissionDenied env casefold name path · base) := by
  unfold isSkillPermissionDenied isSkillNameDenied isSkillPathDenied skillNameEntries skillPathEntries
  simp only [List.any_map, List.any_filter]
  exact (never.ite skillRules).or (never.ite skillRules)

end ByLayer

/-- Tools, wire names and skills are denied for an agent exactly where one layer alone denies
them. -/
theorem effectivePermissions_deny_iff {φ : Type} (env : PermissionsEnv φ)
    (globalCfg : CytClient.Record φ) (files : WorkspaceFiles φ) (agent : PermissionAgentTarget) :
    let effective := effectivePermissions env globalCfg files agent
    let mcp := mcpLayers env globalCfg files agent
    let skills := skillsLayers env globalCfg files agent
    (∀ server tool, isMcpToolDenied server tool effective.mcp.deny = true ↔
      ∃ layer ∈ mcp, isMcpToolDenied server tool layer.deny = true) ∧
    (∀ name, isCatalogToolDenied name effective.mcp.deny = true ↔
      ∃ layer ∈ mcp, isCatalogToolDenied name layer.deny = true) ∧
    ∀ (env : PathEnv) casefold name path base,
      isSkillPermissionDenied env casefold name path effective.skills.deny base = true ↔
        ∃ layer ∈ skills, isSkillPermissionDenied env casefold name path layer.deny base = true :=
  ⟨fun server tool => ByLayer.tool server tool _, fun name => ByLayer.catalogTool name _,
    fun env casefold name path base => ByLayer.skill env casefold name path base _⟩

end ClearYourTools.Permissions
