import ClearYourTools.Permissions.Proofs.Aliases
import ClearYourTools.Permissions.Proofs.PathRules

/-!
# What accepting all proposals denies

For plain names and paths, accepting all proposals denies nothing else exactly where no enabled tool
is reached by the rule of a proposed one, and no enabled skill file lies in a denied directory.
-/

namespace ClearYourTools.Permissions

open Misc List
open Prod (snd)
open Bool (eq_false_of_not_eq_true and_eq_true_iff not_eq_true' not_eq_true)
open Option (some_inj)

theorem flatMap_filter_perm {κ α : Type} (test : κ × List α → Bool) (groups : List (κ × List α)) :
    ((groups.filter test).flatMap snd ++
      (groups.filter fun group => !test group).flatMap snd).Perm (groups.flatMap snd) := by
  rw [← flatMap_append]
  exact (filter_append_perm test groups).flatMap_right _

theorem foldl_eq_self {α β : Type} {step : β → α → β} {b : β} {xs : List α}
    (h : ∀ x ∈ xs, step b x = b) : xs.foldl step b = b := by
  induction xs with
  | nil => rfl
  | cons x xs ih =>
    rw [foldl_cons, h x mem_cons_self, ih fun y hy => h y (mem_cons_of_mem _ hy)]

section

variable (proposals : List ToolProposal) (catalog deny : List Text) (tier : ProposalTier)

/-- Whether the group of a server is rolled up. -/
def serverTest (group : Text × List ToolProposal) : Bool :=
  isServerRollup (enabledTools catalog deny group.1) group.2

def serverRollup (group : Text × List ToolProposal) : ServerRollupProposal :=
  ⟨group.1, group.2, tier⟩

theorem foldl_partitionServer (groups : List (Text × List ToolProposal)) (start : ToolPartition) :
    groups.foldl (partitionServer catalog deny tier) start =
      ⟨start.serverRollups ++ (groups.filter (serverTest catalog deny)).map (serverRollup tier),
        start.leftoverTools ++
          (groups.filter fun group => !serverTest catalog deny group).flatMap snd⟩ := by
  induction groups generalizing start with
  | nil => simp
  | cons group groups ih =>
    rw [foldl_cons, ih, filter_cons, filter_cons, partitionServer]
    by_cases htest : isServerRollup (enabledTools catalog deny group.1) group.2 = true
    · have hgroup : serverTest catalog deny group = true := htest
      rw [if_pos htest, if_pos hgroup, if_neg (by rw [hgroup]; decide), map_cons, List.append_assoc]
      rfl
    · have hgroup : serverTest catalog deny group = false := eq_false_of_not_eq_true htest
      rw [if_neg htest, hgroup, if_neg Bool.false_ne_true, if_pos (by rfl), flatMap_cons,
        List.append_assoc]

theorem mem_toolsByServer {group : Text × List ToolProposal} :
    group ∈ toolsByServer proposals ↔ group.1 ∈ proposals.map ToolProposal.server ∧
      group.2 = proposals.filter fun proposal => decide (proposal.server = group.1) := by
  rw [toolsByServer, mem_insertionSort, show group = (group.1, group.2) from rfl,
    ← Dict.get?_eq_some_iff, get?_groupsBy]
  split
  · rename_i hmem
    rw [and_iff_right hmem]
    exact some_inj.trans eq_comm
  · rename_i hnot
    exact iff_of_false nofun fun h => hnot h.1

theorem perm_toolsByServer : ((toolsByServer proposals).flatMap snd).Perm proposals := by
  refine ((perm_insertionSort _ _).flatMap_right _).trans ?_
  refine (perm_groupsOf _ proposals).trans (List.Perm.of_eq ?_)
  exact filter_eq_self.mpr fun _ _ => rfl

theorem partitionToolProposals_eq :
    partitionToolProposals proposals catalog deny tier =
      ⟨((toolsByServer proposals).filter (serverTest catalog deny)).map (serverRollup tier),
        ((toolsByServer proposals).filter fun group =>
          !serverTest catalog deny group).flatMap snd⟩ := by
  have hloop := foldl_partitionServer catalog deny tier (toolsByServer proposals) ⟨[], []⟩
  rw [nil_append, nil_append] at hloop
  rw [partitionToolProposals, hloop]
  congr 1
  refine foldl_eq_self fun proposal hproposal => ?_
  rw [addLeftoverTool, if_neg]
  intro h
  obtain ⟨hserver, hleftover⟩ := and_eq_true_iff.mp h
  have hgroup : (proposal.server,
      proposals.filter fun other => decide (other.server = proposal.server)) ∈
        toolsByServer proposals :=
    (mem_toolsByServer proposals).mpr ⟨mem_map_of_mem hproposal, rfl⟩
  by_cases htest : serverTest catalog deny (proposal.server,
      proposals.filter fun other => decide (other.server = proposal.server)) = true
  · rw [not_eq_true', ← not_eq_true, contains_iff_mem] at hserver
    exact hserver (mem_map.mpr ⟨_, mem_map_of_mem (mem_filter.mpr ⟨hgroup, htest⟩), rfl⟩)
  · rw [not_eq_true', ← not_eq_true, contains_iff_mem] at hleftover
    refine hleftover (mem_flatMap.mpr ⟨_, mem_filter.mpr ⟨hgroup, ?_⟩,
      mem_filter.mpr ⟨hproposal, decide_eq_true rfl⟩⟩)
    rw [eq_false_of_not_eq_true htest]
    rfl

theorem partitionToolProposals_perm :
    ((partitionToolProposals proposals catalog deny tier).serverRollups.flatMap
        ServerRollupProposal.tools ++
      (partitionToolProposals proposals catalog deny tier).leftoverTools).Perm proposals := by
  rw [partitionToolProposals_eq, flatMap_map]
  exact (flatMap_filter_perm (serverTest catalog deny) _).trans (perm_toolsByServer proposals)

variable {server : Text}

theorem exists_proposal_of_isServerRollup {enabled : List Text} (h : isServerRollup enabled
      (proposals.filter fun proposal => decide (proposal.server = server)) = true) :
    ∃ proposal ∈ proposals, proposal.server = server := by
  obtain ⟨hsome, hlength⟩ := and_eq_true_iff.mp h
  obtain ⟨hsome, -⟩ := and_eq_true_iff.mp hsome
  -- there are as many proposals of the server as enabled tools
  have hpos : 0 < enabled.length := length_pos_iff.mpr fun hnil => by simp [hnil] at hsome
  rw [← beq_iff_eq.mp hlength] at hpos
  obtain ⟨proposal, hproposal⟩ := exists_mem_of_length_pos hpos
  obtain ⟨hmem, hserver⟩ := mem_filter.mp hproposal
  exact ⟨proposal, hmem, of_decide_eq_true hserver⟩

theorem mem_serverRollups :
    server ∈ (partitionToolProposals proposals catalog deny tier).serverRollups.map
        ServerRollupProposal.server ↔
      isServerRollup (enabledTools catalog deny server)
        (proposals.filter fun proposal => decide (proposal.server = server)) = true := by
  rw [partitionToolProposals_eq, List.map_map, mem_map]
  constructor
  · rintro ⟨group, hgroup, rfl⟩
    obtain ⟨hmem, htest⟩ := mem_filter.mp hgroup
    show isServerRollup (enabledTools catalog deny group.1)
      (proposals.filter fun proposal => decide (proposal.server = group.1)) = true
    rw [← ((mem_toolsByServer proposals).mp hmem).2]
    exact htest
  · intro htest
    refine ⟨(server, _), mem_filter.mpr ⟨(mem_toolsByServer proposals).mpr ⟨?_, rfl⟩, htest⟩, rfl⟩
    exact mem_map.mpr (exists_proposal_of_isServerRollup proposals htest)

theorem proposed_of_isServerRollup {tool : Text}
    (h : isServerRollup (enabledTools catalog deny server)
      (proposals.filter fun proposal => decide (proposal.server = server)) = true)
    (htool : tool ∈ enabledTools catalog deny server) :
    ∃ proposal ∈ proposals, proposal.server = server ∧ proposal.tool = tool := by
  obtain ⟨hall, -⟩ := and_eq_true_iff.mp h
  obtain ⟨-, hall⟩ := and_eq_true_iff.mp hall
  have hmem := contains_iff_mem.mp (all_eq_true.mp hall tool htool)
  obtain ⟨proposal, hproposal, rfl⟩ := mem_map.mp hmem
  obtain ⟨hproposal, hserver⟩ := mem_filter.mp hproposal
  exact ⟨proposal, hproposal, of_decide_eq_true hserver, rfl⟩

theorem mem_enabledTools {tool : Text} :
    tool ∈ enabledTools catalog deny server ↔
      ∃ name ∈ catalog, splitCatalogToolName name = some (server, tool) ∧
        isMcpToolDenied server tool deny = false := by
  rw [enabledTools, mem_eraseDups, mem_filterMap]
  refine exists_congr fun name => and_congr_right fun _ => ?_
  cases splitCatalogToolName name with
  | none => exact iff_of_false nofun fun h => absurd h.1 nofun
  | some parts =>
    obtain ⟨srv, tname⟩ := parts
    show (if (toolEnabled srv tname deny && srv == server) = true then some tname else none) =
      some tool ↔ _
    by_cases hsrv : srv = server
    · subst hsrv
      rw [beq_self_eq_true, Bool.and_true, toolEnabled]
      cases hdenied : isMcpToolDenied srv tname deny with
      | true =>
        refine iff_of_false nofun ?_
        rintro ⟨heq, hnot⟩
        cases heq
        exact absurd (hdenied.symm.trans hnot) nofun
      | false =>
        constructor
        · intro h
          cases h
          exact ⟨rfl, hdenied⟩
        · rintro ⟨heq, -⟩
          cases heq
          rfl
    · rw [beq_false_of_ne hsrv, Bool.and_false]
      refine iff_of_false nofun ?_
      rintro ⟨heq, -⟩
      cases heq
      exact hsrv rfl

end

section

variable (env : PathEnv) (proposals : List SkillProposal) (items : List SkillInventoryItem)
  (roots : List PurePath) (projectRoot : PurePath) (tier : ProposalTier)

/-- Whether the group of a root is rolled up. -/
def rootTest (group : PurePath × List SkillProposal) : Bool :=
  isSkillDirRollup (enabledSkillNames env items roots group.1) group.2

def skillDirRollup (group : PurePath × List SkillProposal) : SkillDirRollupProposal :=
  ⟨group.1, skillDirDisplay env group.1 projectRoot, group.2, tier⟩

theorem foldl_partitionRoot (groups : List (PurePath × List SkillProposal))
    (start : SkillPartition) :
    groups.foldl (partitionRoot env items roots projectRoot tier) start =
      ⟨start.skillDirRollups ++
          (groups.filter (rootTest env items roots)).map (skillDirRollup env projectRoot tier),
        start.leftoverSkills ++
          (groups.filter fun group => !rootTest env items roots group).flatMap snd⟩ := by
  induction groups generalizing start with
  | nil => simp
  | cons group groups ih =>
    rw [foldl_cons, ih, filter_cons, filter_cons, partitionRoot]
    by_cases htest : isSkillDirRollup (enabledSkillNames env items roots group.1) group.2 = true
    · have hgroup : rootTest env items roots group = true := htest
      rw [if_pos htest, if_pos hgroup, if_neg (by rw [hgroup]; decide), map_cons, List.append_assoc]
      rfl
    · have hgroup : rootTest env items roots group = false := eq_false_of_not_eq_true htest
      rw [if_neg htest, hgroup, if_neg Bool.false_ne_true, if_pos (by rfl), flatMap_cons,
        List.append_assoc]

/-- The groups of the roots, in the order in which the loop gets to them. -/
def skillsByRoot : List (PurePath × List SkillProposal) :=
  (indexSkillProposalsByRoot env proposals roots).1.entries.insertionSort fun a b =>
    Bm25Search.textLe a.1.posix b.1.posix = true

theorem mem_skillsByRoot {group : PurePath × List SkillProposal} :
    group ∈ skillsByRoot env proposals roots ↔
      group.1 ∈ proposals.filterMap (proposalRoot env roots) ∧
        group.2 = proposals.filter fun proposal =>
          decide (proposalRoot env roots proposal = some group.1) := by
  rw [skillsByRoot, mem_insertionSort, show group = (group.1, group.2) from rfl,
    ← Dict.get?_eq_some_iff, indexSkillProposalsByRoot, get?_groupsOf]
  split
  · rename_i hmem
    rw [and_iff_right hmem]
    exact some_inj.trans eq_comm
  · rename_i hnot
    exact iff_of_false nofun fun h => hnot h.1

theorem perm_skillsByRoot : ((skillsByRoot env proposals roots).flatMap snd).Perm
    (proposals.filter fun proposal => (proposalRoot env roots proposal).isSome) :=
  ((perm_insertionSort _ _).flatMap_right _).trans (perm_groupsOf _ proposals)

/-- What the loops leave over and roll up. -/
theorem partitionSkillProposals_eq :
    partitionSkillProposals env proposals items roots projectRoot tier =
      ⟨((skillsByRoot env proposals roots).filter (rootTest env items roots)).map
          (skillDirRollup env projectRoot tier),
        (proposals.filter fun proposal => (proposalRoot env roots proposal).isNone) ++
          ((skillsByRoot env proposals roots).filter fun group =>
            !rootTest env items roots group).flatMap snd⟩ := by
  have hloop := foldl_partitionRoot env items roots projectRoot tier
    (skillsByRoot env proposals roots)
    ⟨[], (indexSkillProposalsByRoot env proposals roots).2⟩
  rw [nil_append] at hloop
  rw [partitionSkillProposals]
  show SkillPartition.mk _ _ = _
  rw [← skillsByRoot, hloop]
  congr 1
  refine foldl_eq_self fun proposal hproposal => ?_
  rw [addLeftoverSkill, if_neg]
  intro h
  obtain ⟨hrolled, hleftover⟩ := and_eq_true_iff.mp h
  rw [not_eq_true', ← not_eq_true, contains_iff_mem] at hleftover
  cases hroot : proposalRoot env roots proposal with
  | none =>
    refine hleftover (mem_append_left _ (mem_filter.mpr ⟨hproposal, ?_⟩))
    rw [hroot]
    rfl
  | some root =>
    have hgroup : (root, proposals.filter fun other =>
        decide (proposalRoot env roots other = some root)) ∈ skillsByRoot env proposals roots :=
      (mem_skillsByRoot env proposals roots).mpr
        ⟨mem_filterMap.mpr ⟨proposal, hproposal, hroot⟩, rfl⟩
    by_cases htest : rootTest env items roots (root, proposals.filter fun other =>
        decide (proposalRoot env roots other = some root)) = true
    · rw [hroot, Option.any_some, not_eq_true', ← not_eq_true,
        contains_iff_mem] at hrolled
      exact hrolled (mem_map.mpr ⟨_, mem_map_of_mem (mem_filter.mpr ⟨hgroup, htest⟩), rfl⟩)
    · refine hleftover (mem_append_right _ (mem_flatMap.mpr
        ⟨_, mem_filter.mpr ⟨hgroup, ?_⟩, mem_filter.mpr ⟨hproposal, decide_eq_true hroot⟩⟩))
      rw [eq_false_of_not_eq_true htest]
      rfl

theorem partitionSkillProposals_perm :
    ((partitionSkillProposals env proposals items roots projectRoot tier).skillDirRollups.flatMap
        SkillDirRollupProposal.skills ++
      (partitionSkillProposals env proposals items roots projectRoot tier).leftoverSkills).Perm
        proposals := by
  rw [partitionSkillProposals_eq, flatMap_map]
  have hgroups := (flatMap_filter_perm (rootTest env items roots)
    (skillsByRoot env proposals roots)).trans (perm_skillsByRoot env proposals roots)
  have hnone : (proposals.filter fun proposal => (proposalRoot env roots proposal).isNone) =
      proposals.filter fun proposal => !(proposalRoot env roots proposal).isSome :=
    filter_congr fun proposal _ => by cases proposalRoot env roots proposal <;> rfl
  refine (perm_append_comm_assoc _ _ _).trans ?_
  refine (hgroups.append_left _).trans ?_
  rw [hnone]
  exact perm_append_comm.trans (filter_append_perm _ proposals)

theorem mem_skillDirRollups {root : PurePath} :
    root ∈ (partitionSkillProposals env proposals items roots projectRoot tier).skillDirRollups.map
        SkillDirRollupProposal.directory ↔
      isSkillDirRollup (enabledSkillNames env items roots root)
        (proposals.filter fun proposal =>
          decide (proposalRoot env roots proposal = some root)) = true := by
  rw [partitionSkillProposals_eq, List.map_map, mem_map]
  constructor
  · rintro ⟨group, hgroup, rfl⟩
    obtain ⟨hmem, htest⟩ := mem_filter.mp hgroup
    show isSkillDirRollup (enabledSkillNames env items roots group.1) (proposals.filter
      fun proposal => decide (proposalRoot env roots proposal = some group.1)) = true
    rw [← ((mem_skillsByRoot env proposals roots).mp hmem).2]
    exact htest
  · intro htest
    refine ⟨(root, _), mem_filter.mpr
      ⟨(mem_skillsByRoot env proposals roots).mpr ⟨?_, rfl⟩, htest⟩, rfl⟩
    obtain ⟨hsome, hlength⟩ := and_eq_true_iff.mp htest
    obtain ⟨hsome, -⟩ := and_eq_true_iff.mp hsome
    have hpos : 0 < (enabledSkillNames env items roots root).length :=
      length_pos_iff.mpr fun hnil => by simp [hnil] at hsome
    rw [← beq_iff_eq.mp hlength] at hpos
    obtain ⟨proposal, hproposal⟩ := exists_mem_of_length_pos hpos
    obtain ⟨hmem, hroot⟩ := mem_filter.mp hproposal
    exact mem_filterMap.mpr ⟨proposal, hmem, of_decide_eq_true hroot⟩

end

variable {server tool : Text} {entries : List Text}

theorem isMcpToolDenied_iff_exists :
    isMcpToolDenied server tool entries = true ↔
      ∃ entry ∈ entries, isMcpToolDenied server tool [entry] = true := by
  simp only [isMcpToolDenied_iff, parseMcpDenyRules, mem_filterMap, mem_singleton]
  constructor
  · rintro ⟨hserver, htool, rule, ⟨entry, hentry, hparse⟩, hrules⟩
    exact ⟨entry, hentry, hserver, htool, rule, ⟨entry, rfl, hparse⟩, hrules⟩
  · rintro ⟨entry, hentry, hserver, htool, rule, ⟨other, rfl, hparse⟩, hrules⟩
    exact ⟨hserver, htool, rule, ⟨other, hentry, hparse⟩, hrules⟩

variable {name : Text}

section

variable (h : splitCatalogToolName name = some (server, tool))
include h

theorem strip_of_splitCatalogToolName : name.strip = server ++ '_' :: tool ∧ '_' ∉ server := by
  simp only [splitCatalogToolName] at h
  split at h
  · cases h
  rename_i hname
  rw [not_or, not_not, contains_iff_mem] at hname
  split at h
  · cases h
  · have hparts : Text.partition '_' name.strip = (server, tool) := some_inj.mp h
    obtain ⟨x, y, hx, hsplit⟩ := eq_append_cons_of_mem hname.2
    rw [hx, Text.partition_append_cons hsplit] at hparts
    cases hparts
    exact ⟨hx, hsplit⟩

theorem isCatalogToolDenied_of_split (entries : List Text) :
    isCatalogToolDenied name entries = true ↔ isMcpToolDenied server tool entries = true ∨
      (server.strip ≠ [] ∧ tool.strip ≠ [] ∧ '_' ∉ tool ∧
        isMcpToolDenied server (server ++ '_' :: tool) entries = true) := by
  obtain ⟨hname, hserver⟩ := strip_of_splitCatalogToolName h
  rw [← isCatalogToolDenied_strip, hname]
  exact isCatalogToolDenied_append hserver tool entries

end

theorem isCatalogToolDenied_of_none (h : splitCatalogToolName name = none) (entries : List Text) :
    isCatalogToolDenied name entries = false := by
  simp only [isCatalogToolDenied, splitCatalogToolName_strip, h, ite_self]

theorem isCatalogToolDenied_iff_exists :
    isCatalogToolDenied name entries = true ↔
      ∃ entry ∈ entries, isCatalogToolDenied name [entry] = true := by
  cases hsplit : splitCatalogToolName name with
  | none =>
    simp only [isCatalogToolDenied_of_none hsplit, Bool.false_eq_true, and_false, exists_false]
  | some parts =>
    obtain ⟨server, tool⟩ := parts
    simp only [isCatalogToolDenied_of_split hsplit]
    rw [isMcpToolDenied_iff_exists, isMcpToolDenied_iff_exists]
    constructor
    · rintro (⟨entry, hentry, hdenied⟩ | ⟨hserver, htool, hplain, entry, hentry, hdenied⟩)
      · exact ⟨entry, hentry, Or.inl hdenied⟩
      · exact ⟨entry, hentry, Or.inr ⟨hserver, htool, hplain, hdenied⟩⟩
    · rintro ⟨entry, hentry, hdenied | ⟨hserver, htool, hplain, hdenied⟩⟩
      · exact Or.inl ⟨entry, hentry, hdenied⟩
      · exact Or.inr ⟨hserver, htool, hplain, entry, hentry, hdenied⟩

variable {env : PathEnv}

theorem isSkillPermissionDenied_iff_exists {casefold : Text → Text} {path : Text}
    {base : Option PurePath} :
    isSkillPermissionDenied env casefold name path entries base = true ↔
      ∃ entry ∈ entries, isSkillPermissionDenied env casefold name path [entry] base = true := by
  have hname : isSkillNameDenied casefold name entries = true ↔
      ∃ entry ∈ entries, isSkillNameDenied casefold name [entry] = true := by
    simp only [isSkillNameDenied]
    split
    · simp
    · simp only [skillNameEntries, any_eq_true, mem_map, mem_filter, mem_filterMap, mem_singleton]
      grind
  have hpath : isSkillPathDenied env path entries base = true ↔
      ∃ entry ∈ entries, isSkillPathDenied env path [entry] base = true :=
    isSkillPathDenied_iff_exists
  simp only [isSkillPermissionDenied, Bool.or_eq_true, hname, hpath]
  grind

theorem isMcpToolDenied_serverEntry_iff {entry : Text} (hentry : Text.Stripped entry)
    (hne : entry ≠ []) (hslash : '/' ∉ entry) (server tool : Text) :
    isMcpToolDenied server tool [entry] = true ↔ server.strip = entry ∧ tool.strip ≠ [] := by
  have hwildcard : ¬"/*".toList.isSuffixOf entry = true := by
    rw [isSuffixOf_iff_suffix]
    exact fun hsuffix => hslash (hsuffix.subset mem_cons_self)
  have hplain : ¬entry.contains '/' = true := by
    rw [contains_iff_mem]
    exact hslash
  have hparse : parseMcpDenyEntry entry = some ⟨entry, .server, entry, none⟩ := by
    rw [parseMcpDenyEntry]
    dsimp only
    rw [hentry.strip, if_neg hne, if_neg hwildcard, if_neg hplain]
  rw [isMcpToolDenied_iff, parseMcpDenyRules, filterMap_cons, hparse]
  constructor
  · rintro ⟨-, htool, rule, hrule, hserver, -⟩
    cases mem_singleton.mp hrule
    exact ⟨hserver.symm, htool⟩
  · rintro ⟨hserver, htool⟩
    exact ⟨hserver ▸ hne, htool, _, mem_cons_self, hserver.symm, Or.inl fun hkind => by cases hkind⟩

theorem isMcpToolDenied_toolEntry (hserver : server.strip ≠ []) (hserverSlash : '/' ∉ server)
    (htool : tool.strip ≠ []) (htoolSlash : '/' ∉ tool) :
    isMcpToolDenied server tool [toolKey server.strip tool.strip] = true := by
  rw [← isMcpToolDenied_congr (Text.strip_strip server) (Text.strip_strip tool)]
  refine (isMcpToolDenied_toolKey_iff (Text.stripped_strip server) (Text.stripped_strip tool)
    hserver htool (fun h => hserverSlash (Text.mem_of_mem_strip h))
    (Text.stripped_strip tool).rstrip (fun h => htoolSlash (Text.mem_of_mem_strip h))
    (by rwa [Text.strip_strip])).mpr (Or.inr ?_)
  simp only [mcpToolDenyRuleMatches, Text.strip_strip, if_neg htool, if_true]

theorem mem_addDenyEntry {deny : List Text} {entry e : Text} :
    e ∈ addDenyEntry deny entry ↔ e ∈ deny ∨ e = entry := by
  rw [addDenyEntry]
  split
  · rename_i h
    refine (or_iff_left_of_imp ?_).symm
    rintro rfl
    exact contains_iff_mem.mp h
  · rw [mem_append, mem_singleton]

theorem mem_foldl_addDenyEntry {α : Type} (entryOf : α → Text) (xs : List α) {deny : List Text}
    {e : Text} : e ∈ xs.foldl (fun deny x => addDenyEntry deny (entryOf x)) deny ↔
      e ∈ deny ∨ ∃ x ∈ xs, e = entryOf x := by
  induction xs generalizing deny with
  | nil => simp
  | cons x xs ih =>
    rw [foldl_cons, ih, mem_addDenyEntry, or_assoc]
    simp only [mem_cons, or_and_right, exists_or, exists_eq_left]

theorem foldl_disableMcpServer (servers : List Text) (lists : DenyLists) :
    servers.foldl disableMcpServer lists =
      { lists with
        mcp := servers.foldl (fun deny server => addDenyEntry deny server.strip) lists.mcp } := by
  induction servers generalizing lists with
  | nil => rfl
  | cons server servers ih => exact ih _

theorem foldl_disableMcpTool (tools : List (Text × Text)) (lists : DenyLists) :
    tools.foldl disableMcpTool lists =
      { lists with
        mcp := tools.foldl (fun deny tool =>
          addDenyEntry deny (toolKey tool.1.strip tool.2.strip)) lists.mcp } := by
  induction tools generalizing lists with
  | nil => rfl
  | cons tool tools ih => exact ih _

variable {workspaceRoot : PurePath}
variable {entryOf : PurePath → Text}

theorem foldlM_disableSkillPath {dirs : List PurePath}
    (h : ∀ dir ∈ dirs, formatSkillPathPermissionEntry env dir.posix workspaceRoot =
      some (entryOf dir)) (lists : DenyLists) :
    dirs.foldlM (disableSkillPath env workspaceRoot) lists =
      some { lists with
        skills := dirs.foldl (fun deny dir => addDenyEntry deny (entryOf dir)) lists.skills } := by
  induction dirs generalizing lists with
  | nil => rfl
  | cons dir dirs ih =>
    rw [foldlM_cons, disableSkillPath, h dir mem_cons_self]
    exact ih (fun other hother => h other (mem_cons_of_mem _ hother)) _

theorem exists_applyChanges {changes : AppliedChanges} (hdirs : ∀ dir ∈ changes.skillDirs,
      formatSkillPathPermissionEntry env dir.posix workspaceRoot = some (entryOf dir))
    (hfiles : ∀ proposal ∈ changes.skillFiles, formatSkillPathPermissionEntry env
      (skillDirectoryFor env proposal.path).posix workspaceRoot =
        some (entryOf (skillDirectoryFor env proposal.path))) (lists : DenyLists) :
    ∃ after, applyChanges env workspaceRoot changes lists = some after ∧
      (∀ e, e ∈ after.mcp ↔ e ∈ lists.mcp ∨ (∃ server ∈ changes.servers, e = server.strip) ∨
        ∃ tool ∈ changes.tools, tool.1 ∉ changes.servers ∧ e = toolKey tool.1.strip tool.2.strip) ∧
      ∀ e, e ∈ after.skills ↔ e ∈ lists.skills ∨ (∃ dir ∈ changes.skillDirs, e = entryOf dir) ∨
        ∃ proposal ∈ changes.skillFiles, skillDirectoryFor env proposal.path ∉ changes.skillDirs ∧
          e = entryOf (skillDirectoryFor env proposal.path) := by
  have hrest : ∀ dir ∈ (changes.skillFiles.map fun proposal =>
      skillDirectoryFor env proposal.path).filter fun dir => !changes.skillDirs.contains dir,
        formatSkillPathPermissionEntry env dir.posix workspaceRoot = some (entryOf dir) := by
    intro dir hdir
    obtain ⟨proposal, hproposal, rfl⟩ := mem_map.mp (mem_of_mem_filter hdir)
    exact hfiles proposal hproposal
  refine ⟨⟨(changes.tools.filter fun tool => !changes.servers.contains tool.1).foldl
      (fun deny tool => addDenyEntry deny (toolKey tool.1.strip tool.2.strip))
      (changes.servers.foldl (fun deny server => addDenyEntry deny server.strip) lists.mcp),
    ((changes.skillFiles.map fun proposal => skillDirectoryFor env proposal.path).filter fun dir =>
      !changes.skillDirs.contains dir).foldl (fun deny dir => addDenyEntry deny (entryOf dir))
      (changes.skillDirs.foldl (fun deny dir => addDenyEntry deny (entryOf dir)) lists.skills)⟩,
    ?_, fun e => ?_, fun e => ?_⟩
  · rw [applyChanges, foldl_disableMcpServer, foldl_disableMcpTool, foldlM_disableSkillPath hdirs]
    exact foldlM_disableSkillPath hrest _
  · dsimp only
    rw [mem_foldl_addDenyEntry, mem_foldl_addDenyEntry, or_assoc]
    refine or_congr_right (or_congr_right ?_)
    simp only [mem_filter, not_eq_true', ← not_eq_true, contains_iff_mem, and_assoc]
  · dsimp only
    rw [mem_foldl_addDenyEntry, mem_foldl_addDenyEntry, or_assoc]
    refine or_congr_right (or_congr_right ?_)
    simp only [mem_filter, not_eq_true', ← not_eq_true, contains_iff_mem,
      mem_map, and_assoc, exists_exists_and_eq_and]

section

variable (env : PathEnv) (casefold : Text → Text) (input : WizardInput)

/-- All enabled tools of a server are proposed, once each. -/
def WholeServer (server : Text) : Prop :=
  isServerRollup (enabledTools input.catalog input.deny.mcp server)
    (input.toolProposals.filter fun proposal => decide (proposal.server = server)) = true

/-- All enabled names of a root are proposed, once each. -/
def WholeRoot (root : PurePath) : Prop :=
  isSkillDirRollup
    (enabledSkillNames env (enabledSkills env casefold input) input.skillRoots root)
    (input.skillProposals.filter fun proposal =>
      decide (proposalRoot env input.skillRoots proposal = some root)) = true

/-- A directory that gets a rule: such a root, or the directory of a proposal. -/
def DeniedDir (directory : PurePath) : Prop :=
  WholeRoot env casefold input directory ∨
    ∃ proposal ∈ input.skillProposals, directory = env.resolve (skillDirectoryFor env proposal.path)

def ProposedTool (name : Text) : Prop :=
  ∃ proposal ∈ input.toolProposals,
    splitCatalogToolName name = some (proposal.server, proposal.tool)

def ProposedSkill (path : PurePath) : Prop :=
  ∃ proposal ∈ input.skillProposals, proposal.path = path

def skillDenied (deny : List Text) (name : Text) (path : PurePath) : Bool :=
  isSkillPermissionDenied env casefold name path.posix deny (some input.workspaceRoot)

/-- The proposals are partitioned, and accepting them denies them and nothing else. -/
structure DisablesExactly : Prop where
  toolsOnce : ((toolPartition input).serverRollups.flatMap ServerRollupProposal.tools ++
    (toolPartition input).leftoverTools).Perm input.toolProposals
  skillsOnce : ((skillPartition env casefold input).skillDirRollups.flatMap
    SkillDirRollupProposal.skills ++ (skillPartition env casefold input).leftoverSkills).Perm
      input.skillProposals
  accepted : ∃ after, acceptAll env casefold input = some after ∧
    (∀ proposal ∈ input.toolProposals,
      isMcpToolDenied proposal.server proposal.tool after.mcp = true) ∧
    (∀ proposal ∈ input.skillProposals,
      skillDenied env casefold input after.skills proposal.name proposal.path = true) ∧
    (∀ name ∈ input.catalog, isCatalogToolDenied name input.deny.mcp = false →
      ¬ProposedTool input name → isCatalogToolDenied name after.mcp = false) ∧
    ∀ row ∈ input.layers.rows,
      skillDenied env casefold input input.deny.skills row.name row.path = false →
        ¬ProposedSkill input row.path →
          skillDenied env casefold input after.skills row.name row.path = false

/-- A directory as it is given: its rule is about what it resolves to. -/
structure GivenDir (workspaceRoot directory : PurePath) : Prop where
  strip : directory.posix.strip = directory.posix
  isAbsolute : directory.isAbsolute = true
  isDir : skillPermissionDir env directory = directory
  resolved : PlainDir env workspaceRoot (env.resolve directory)

/-- Names and paths whose entries read back as the rules that they are written for. -/
structure PlainInput : Prop where
  tools : ∀ proposal ∈ input.toolProposals, proposal.server.strip ≠ [] ∧ '/' ∉ proposal.server ∧
    proposal.tool.strip ≠ [] ∧ '/' ∉ proposal.tool
  catalog : ∀ name ∈ input.catalog, ∀ server tool,
    splitCatalogToolName name = some (server, tool) → server.strip = server
  workspaceRoot : PlainPath env input.workspaceRoot
  skills : ∀ proposal ∈ input.skillProposals, SkillPath env proposal.path ∧
    GivenDir env input.workspaceRoot (skillDirectoryFor env proposal.path) ∧
    skillDir env proposal.path = env.resolve (skillDirectoryFor env proposal.path)
  roots : ∀ given ∈ input.skillRoots,
    GivenDir env input.workspaceRoot (env.resolve (env.expandUser given)) ∧
      PlainPath env (env.resolve (env.expandUser given))
  files : ∀ row ∈ input.layers.rows, SkillPath env row.path

/-- No rule reaches further than its proposals: none of a tool denies an enabled tool that is not
proposed, and no enabled skill file that is not proposed lies in a directory that gets a rule, or
has the path of one below the workspace in a row. -/
structure SparesOthers : Prop where
  tools : ∀ name ∈ input.catalog, isCatalogToolDenied name input.deny.mcp = false →
    ¬ProposedTool input name → ∀ proposal ∈ input.toolProposals,
      ¬WholeServer input proposal.server →
        isCatalogToolDenied name [toolKey proposal.server.strip proposal.tool.strip] = false
  skills : ∀ row ∈ input.layers.rows,
    skillDenied env casefold input input.deny.skills row.name row.path = false →
      ¬ProposedSkill input row.path → ∀ directory, DeniedDir env casefold input directory →
        ¬directory.parts <+: (skillDir env row.path).parts ∧
          ∀ shown, directory.relativeTo input.workspaceRoot = some shown → shown.parts ≠ [] →
            ¬shown.parts <:+: (skillDir env row.path).allParts

variable {env casefold input}

variable {root : PurePath}

theorem mem_of_resolveSkillRoot {path : PurePath} {roots : List PurePath}
    (h : resolveSkillRoot env path roots = some root) :
    ∃ given ∈ roots, root = env.resolve (env.expandUser given) := by
  have hfold : ∀ (roots : List PurePath) (best : Option PurePath),
      roots.foldl (betterRoot env (env.resolve (env.expandUser path))) best = some root →
        best = some root ∨ ∃ given ∈ roots, root = env.resolve (env.expandUser given) := by
    intro roots
    induction roots with
    | nil => exact fun best hbest => Or.inl hbest
    | cons given roots ih =>
      intro best hbest
      rcases ih _ hbest with hnext | ⟨other, hother, heq⟩
      · rw [betterRoot] at hnext
        split at hnext
        · exact Or.inr ⟨given, mem_cons_self, (some_inj.mp hnext).symm⟩
        · exact Or.inl hnext
      · exact Or.inr ⟨other, mem_cons_of_mem _ hother, heq⟩
  exact (hfold roots none h).resolve_left nofun

theorem exists_root_of_wholeRoot (h : WholeRoot env casefold input root) :
    ∃ given ∈ input.skillRoots, root = env.resolve (env.expandUser given) := by
  obtain ⟨hsome, hlength⟩ := and_eq_true_iff.mp h
  obtain ⟨hsome, -⟩ := and_eq_true_iff.mp hsome
  have hpos : 0 < (enabledSkillNames env (enabledSkills env casefold input) input.skillRoots
      root).length := length_pos_iff.mpr fun hnil => by simp [hnil] at hsome
  rw [← beq_iff_eq.mp hlength] at hpos
  obtain ⟨proposal, hproposal⟩ := exists_mem_of_length_pos hpos
  exact mem_of_resolveSkillRoot (of_decide_eq_true (mem_filter.mp hproposal).2)

theorem resolve_of_wholeRoot (hplain : PlainInput env input) (h : WholeRoot env casefold input root) :
    env.resolve root = root := by
  obtain ⟨given, hgiven, rfl⟩ := exists_root_of_wholeRoot h
  exact (hplain.roots given hgiven).2.resolve

theorem givenDir_of_wholeRoot (hplain : PlainInput env input)
    (h : WholeRoot env casefold input root) : GivenDir env input.workspaceRoot root := by
  obtain ⟨given, hgiven, rfl⟩ := exists_root_of_wholeRoot h
  exact (hplain.roots given hgiven).1

variable {directory : PurePath}

theorem plainDir_of_deniedDir (hplain : PlainInput env input)
    (h : DeniedDir env casefold input directory) : PlainDir env input.workspaceRoot directory := by
  rcases h with hroot | ⟨proposal, hproposal, rfl⟩
  · have hresolved := (givenDir_of_wholeRoot hplain hroot).resolved
    rwa [resolve_of_wholeRoot hplain hroot] at hresolved
  · exact (hplain.skills proposal hproposal).2.1.resolved

/-- The rule of a directory in a workspace. -/
def dirEntry (input : WizardInput) (directory : PurePath) : Text :=
  skillPathPrefix ++ ruleText (shownPath input.workspaceRoot directory)

theorem formatSkillPathPermissionEntry_givenDir (hplain : PlainInput env input)
    (h : GivenDir env input.workspaceRoot directory) :
    formatSkillPathPermissionEntry env directory.posix input.workspaceRoot =
      some (dirEntry input (env.resolve directory)) :=
  formatSkillPathPermissionEntry_plain hplain.workspaceRoot h.strip h.isDir h.isAbsolute rfl

theorem exists_acceptAll (casefold : Text → Text) (hplain : PlainInput env input) :
    ∃ after, acceptAll env casefold input = some after ∧
      (∀ e, e ∈ after.mcp ↔ e ∈ input.deny.mcp ∨
        (∃ server, WholeServer input server ∧ e = server.strip) ∨
        ∃ proposal ∈ input.toolProposals, ¬WholeServer input proposal.server ∧
          e = toolKey proposal.server.strip proposal.tool.strip) ∧
      ∀ e, e ∈ after.skills ↔ e ∈ input.deny.skills ∨
        ∃ directory, DeniedDir env casefold input directory ∧ e = dirEntry input directory := by
  have hservers : ∀ server, server ∈ (toolPartition input).serverRollups.map
      ServerRollupProposal.server ↔ WholeServer input server := fun server =>
    mem_serverRollups input.toolProposals input.catalog input.deny.mcp input.targetTier
  have hdirs : ∀ directory, directory ∈ (skillPartition env casefold input).skillDirRollups.map
      SkillDirRollupProposal.directory ↔ WholeRoot env casefold input directory := fun directory =>
    mem_skillDirRollups env input.skillProposals (enabledSkills env casefold input)
      input.skillRoots input.workspaceRoot input.targetTier
  obtain ⟨after, hafter, hmcp, hskills⟩ := @exists_applyChanges env input.workspaceRoot
    (fun directory => dirEntry input (env.resolve directory))
    (applyAcceptAllDecisions env (proposalBundle env casefold input))
    (fun dir hdir => formatSkillPathPermissionEntry_givenDir hplain
      (givenDir_of_wholeRoot hplain ((hdirs dir).mp hdir)))
    (fun proposal hproposal => formatSkillPathPermissionEntry_givenDir hplain
      (hplain.skills proposal (mem_of_mem_filter hproposal)).2.1) input.deny
  refine ⟨after, hafter, fun e => ?_, fun e => ?_⟩
  · rw [hmcp]
    refine or_congr_right (or_congr ?_ ?_)
    · exact exists_congr fun server => and_congr_left fun _ => hservers server
    · constructor
      · rintro ⟨tool, htool, hnot, rfl⟩
        obtain ⟨proposal, hproposal, rfl⟩ := mem_map.mp htool
        exact ⟨proposal, mem_of_mem_filter hproposal,
          fun hwhole => hnot ((hservers _).mpr hwhole), rfl⟩
      · rintro ⟨proposal, hproposal, hnot, rfl⟩
        have hserver : proposal.server ∉ (toolPartition input).serverRollups.map
            ServerRollupProposal.server := fun hmem => hnot ((hservers _).mp hmem)
        refine ⟨(proposal.server, proposal.tool), mem_map.mpr
          ⟨proposal, mem_filter.mpr ⟨hproposal, ?_⟩, rfl⟩, hserver, rfl⟩
        rw [not_eq_true', ← not_eq_true, contains_iff_mem]
        exact hserver
  · rw [hskills]
    refine or_congr_right ?_
    constructor
    · rintro (⟨directory, hdirectory, rfl⟩ | ⟨proposal, hproposal, -, rfl⟩)
      · have hwhole := (hdirs directory).mp hdirectory
        refine ⟨directory, Or.inl hwhole, ?_⟩
        rw [resolve_of_wholeRoot hplain hwhole]
      · exact ⟨_, Or.inr ⟨proposal, mem_of_mem_filter hproposal, rfl⟩, rfl⟩
    · rintro ⟨directory, hroot | ⟨proposal, hproposal, rfl⟩, rfl⟩
      · refine Or.inl ⟨directory, (hdirs directory).mpr hroot, ?_⟩
        rw [resolve_of_wholeRoot hplain hroot]
      · by_cases hroot : WholeRoot env casefold input (skillDirectoryFor env proposal.path)
        · exact Or.inl ⟨_, (hdirs _).mpr hroot, rfl⟩
        have hdirectory : skillDirectoryFor env proposal.path ∉
            (skillPartition env casefold input).skillDirRollups.map
              SkillDirRollupProposal.directory := fun hmem => hroot ((hdirs _).mp hmem)
        refine Or.inr ⟨proposal, mem_filter.mpr ⟨hproposal, ?_⟩, hdirectory, rfl⟩
        rw [not_eq_true', ← not_eq_true, contains_iff_mem]
        exact hdirectory

variable {server : Text}

section

variable (hplain : PlainInput env input)
include hplain

theorem strip_of_wholeServer (h : WholeServer input server) : server.strip = server := by
  obtain ⟨hsome, -⟩ := and_eq_true_iff.mp h
  obtain ⟨hsome, -⟩ := and_eq_true_iff.mp hsome
  have hpos : 0 < (enabledTools input.catalog input.deny.mcp server).length :=
    length_pos_iff.mpr fun hnil => by simp [hnil] at hsome
  obtain ⟨tool, htool⟩ := exists_mem_of_length_pos hpos
  obtain ⟨name, hname, hsplit, -⟩ := (mem_enabledTools _ _).mp htool
  exact hplain.catalog name hname server tool hsplit

theorem proposed_denied {proposal : ToolProposal} (hproposal : proposal ∈ input.toolProposals) :
    (WholeServer input proposal.server →
      isMcpToolDenied proposal.server proposal.tool [proposal.server.strip] = true) ∧
    isMcpToolDenied proposal.server proposal.tool
      [toolKey proposal.server.strip proposal.tool.strip] = true := by
  obtain ⟨hserver, hserverSlash, htool, htoolSlash⟩ := hplain.tools proposal hproposal
  refine ⟨fun _ => ?_, isMcpToolDenied_toolEntry hserver hserverSlash htool htoolSlash⟩
  exact (isMcpToolDenied_serverEntry_iff (Text.stripped_strip _) hserver
    (fun h => hserverSlash (Text.mem_of_mem_strip h)) _ _).mpr ⟨rfl, htool⟩

/-- The entry of a server that is rolled up denies no enabled tool that is not proposed. -/
theorem wholeServer_spares {name : Text} (hserver : WholeServer input server)
    (hname : name ∈ input.catalog) (henabled : isCatalogToolDenied name input.deny.mcp = false)
    (hnot : ¬ProposedTool input name) : isCatalogToolDenied name [server.strip] = false := by
  refine eq_false_of_not_eq_true fun hdenied => hnot ?_
  cases hsplit : splitCatalogToolName name with
  | none =>
    rw [isCatalogToolDenied_of_none hsplit] at hdenied
    cases hdenied
  | some parts =>
    obtain ⟨srv, tool⟩ := parts
    obtain ⟨proposal, hproposal, rfl⟩ := exists_proposal_of_isServerRollup _ hserver
    obtain ⟨hne, hslash, -, -⟩ := hplain.tools proposal hproposal
    have hentry := fun tool => isMcpToolDenied_serverEntry_iff (Text.stripped_strip _) hne
      (fun h => hslash (Text.mem_of_mem_strip h)) srv tool
    rw [isCatalogToolDenied_of_split hsplit, hentry, hentry] at hdenied
    have hsrv : srv.strip = proposal.server.strip := by
      rcases hdenied with hdenied | hdenied
      · exact hdenied.1
      · exact hdenied.2.2.2.1
    rw [hplain.catalog name hname srv tool hsplit, strip_of_wholeServer hplain hserver] at hsrv
    have hundenied : isMcpToolDenied srv tool input.deny.mcp = false := by
      refine eq_false_of_not_eq_true fun h => ?_
      rw [(isCatalogToolDenied_of_split hsplit input.deny.mcp).mpr (Or.inl h)] at henabled
      cases henabled
    subst hsrv
    obtain ⟨other, hother, hsame, htool⟩ := proposed_of_isServerRollup _ _ _ hserver
      ((mem_enabledTools _ _).mpr ⟨name, hname, hsplit, hundenied⟩)
    exact ⟨other, hother, by rw [hsplit, hsame, htool]⟩

end

theorem skillDenied_dirEntry_iff {path : PurePath} {name : Text}
    (hdirectory : PlainDir env input.workspaceRoot directory) (hpath : SkillPath env path) :
    skillDenied env casefold input [dirEntry input directory] name path = true ↔
      directory.parts <+: (skillDir env path).parts ∨
        ∃ shown, directory.relativeTo input.workspaceRoot = some shown ∧ shown.parts ≠ [] ∧
          shown.parts <:+: (skillDir env path).allParts := by
  have hparse := parseSkillPermissionEntry_ruleText hdirectory.readsBack.1
  have hname : isSkillNameDenied casefold name [dirEntry input directory] = false := by
    have hnone : skillNameEntries [dirEntry input directory] = [] := by
      rw [skillNameEntries, dirEntry, filterMap_cons, hparse]
      rfl
    rw [isSkillNameDenied, hnone]
    exact ite_self _
  rw [← isSkillPathDenied_entry_iff hdirectory hpath, skillDenied, isSkillPermissionDenied, hname,
    Bool.false_or]
  rfl

/-- With plain names and paths, accepting all proposals denies them and nothing else exactly where
no rule reaches further than its proposals. -/
theorem disablesExactly_iff (env : PathEnv) (casefold : Text → Text) (input : WizardInput)
    (hplain : PlainInput env input) :
    DisablesExactly env casefold input ↔ SparesOthers env casefold input := by
  obtain ⟨after, hafter, hmcp, hskills⟩ := exists_acceptAll casefold hplain
  constructor
  · rintro ⟨-, -, after', hafter', -, -, htools, hfiles⟩
    cases hafter.symm.trans hafter'
    constructor
    · intro name hname henabled hnot proposal hproposal hwhole
      refine Bool.eq_false_of_not_eq_true fun hdenied => ?_
      have hspared := htools name hname henabled hnot
      rw [isCatalogToolDenied_iff_exists.mpr ⟨_, (hmcp _).mpr
        (Or.inr (Or.inr ⟨proposal, hproposal, hwhole, rfl⟩)), hdenied⟩] at hspared
      cases hspared
    · intro row hrow henabled hnot directory hdirectory
      have hspared := hfiles row hrow henabled hnot
      have hnotDenied : ¬skillDenied env casefold input [dirEntry input directory] row.name
          row.path = true := by
        intro hdenied
        rw [skillDenied, isSkillPermissionDenied_iff_exists.mpr ⟨_, (hskills _).mpr
          (Or.inr ⟨directory, hdirectory, rfl⟩), hdenied⟩] at hspared
        cases hspared
      rw [skillDenied_dirEntry_iff (plainDir_of_deniedDir hplain hdirectory)
        (hplain.files row hrow), not_or] at hnotDenied
      exact ⟨hnotDenied.1, fun shown hshown hne hrun =>
        hnotDenied.2 ⟨shown, hshown, hne, hrun⟩⟩
  · intro hspares
    refine ⟨partitionToolProposals_perm _ _ _ _, partitionSkillProposals_perm _ _ _ _ _ _, after,
      hafter, fun proposal hproposal => ?_, fun proposal hproposal => ?_,
      fun name hname henabled hnot => ?_, fun row hrow henabled hnot => ?_⟩
    · obtain ⟨hserver, htool⟩ := proposed_denied hplain hproposal
      by_cases hwhole : WholeServer input proposal.server
      · exact isMcpToolDenied_iff_exists.mpr
          ⟨_, (hmcp _).mpr (Or.inr (Or.inl ⟨_, hwhole, rfl⟩)), hserver hwhole⟩
      · exact isMcpToolDenied_iff_exists.mpr
          ⟨_, (hmcp _).mpr (Or.inr (Or.inr ⟨proposal, hproposal, hwhole, rfl⟩)), htool⟩
    · have hdirectory : DeniedDir env casefold input
          (env.resolve (skillDirectoryFor env proposal.path)) := Or.inr ⟨proposal, hproposal, rfl⟩
      obtain ⟨hpath, hdir, hsame⟩ := hplain.skills proposal hproposal
      refine isSkillPermissionDenied_iff_exists.mpr
        ⟨_, (hskills _).mpr (Or.inr ⟨_, hdirectory, rfl⟩),
          (skillDenied_dirEntry_iff hdir.resolved hpath).mpr (Or.inl ?_)⟩
      rw [hsame]
    · refine Bool.eq_false_of_not_eq_true fun hdenied => ?_
      obtain ⟨entry, hentry, hdenied⟩ := isCatalogToolDenied_iff_exists.mp hdenied
      rcases (hmcp entry).mp hentry with hbefore | ⟨server, hwhole, rfl⟩ |
        ⟨proposal, hproposal, hwhole, rfl⟩
      · rw [isCatalogToolDenied_iff_exists.mpr ⟨entry, hbefore, hdenied⟩] at henabled
        cases henabled
      · rw [wholeServer_spares hplain hwhole hname henabled hnot] at hdenied
        cases hdenied
      · rw [hspares.tools name hname henabled hnot proposal hproposal hwhole] at hdenied
        cases hdenied
    · refine Bool.eq_false_of_not_eq_true fun hdenied => ?_
      obtain ⟨entry, hentry, hdenied⟩ := isSkillPermissionDenied_iff_exists.mp hdenied
      rcases (hskills entry).mp hentry with hbefore | ⟨directory, hdirectory, rfl⟩
      · rw [skillDenied, isSkillPermissionDenied_iff_exists.mpr ⟨entry, hbefore, hdenied⟩]
          at henabled
        cases henabled
      · obtain ⟨hbelow, hrun⟩ := hspares.skills row hrow henabled hnot directory hdirectory
        rcases (skillDenied_dirEntry_iff (plainDir_of_deniedDir hplain hdirectory)
          (hplain.files row hrow)).mp hdenied with h | ⟨shown, hshown, hne, h⟩
        · exact hbelow h
        · exact hrun shown hshown hne h

end

def plainPathEnv : PathEnv where
  expandUser path := path
  resolve path := path
  isFile _ := false
  lower text := text.map Char.toLower

def betaPath : PurePath := .ofText "/w/.cursor/skills/foo/SKILL.md"

def alphaPath : PurePath := .ofText "/home/u/.cursor/skills/foo/SKILL.md"

def betaProposal : SkillProposal where
  name := "beta"
  path := betaPath
  entityId := "skill:beta"
  tier := .t0
  discoveryConfigPath := none
  discoveryDirectory := none

def searchProposal : ToolProposal where
  server := "github"
  tool := "search"
  entityId := "tool:github_search"
  tier := .t0
  serverConfigPath := none
  serverConfigLine := none

/-- The user and the workspace have a skill in a folder `foo`, and that of the workspace is
proposed. -/
def sharedFolder : WizardInput where
  toolProposals := [searchProposal]
  skillProposals := [betaProposal]
  catalog := ["github_search".toList, "github_read".toList]
  layers := ⟨[⟨"alpha", alphaPath, true⟩], [⟨"beta", betaPath, true⟩]⟩
  skillRoots := [.ofText "/home/u/.cursor/skills", .ofText "/w/.cursor/skills"]
  workspaceRoot := .ofText "/w"
  targetTier := .t0
  deny := ⟨[], []⟩

theorem givenDir_plainPathEnv {workspaceRoot directory : PurePath} (hroot : directory.root = .slash)
    (hstrip : directory.posix.strip = directory.posix)
    (hisDir : skillPermissionDir plainPathEnv directory = directory)
    (hback : ((shownPath workspaceRoot directory).posix.head?.all fun c => !isSpace c) = true ∧
      '\\' ∉ (shownPath workspaceRoot directory).posix)
    (hkind : (directory.relativeTo workspaceRoot).all fun shown =>
      !isFileRule plainPathEnv shown) : GivenDir plainPathEnv workspaceRoot directory := by
  have hresolved : PlainDir plainPathEnv workspaceRoot directory := by
    refine ⟨⟨hroot, rfl, rfl⟩, hisDir, ⟨fun c hc => ?_, hback.2⟩, fun shown hshown => ⟨rfl, ?_⟩⟩
    · have hfirst := hback.1
      rw [Option.mem_def.mp hc] at hfirst
      rwa [Option.all_some, not_eq_true'] at hfirst
    · rw [hshown] at hkind
      rwa [Option.all_some, not_eq_true'] at hkind
  have habsolute : directory.isAbsolute = true := by
    rw [PurePath.isAbsolute, hroot]
    rfl
  exact ⟨hstrip, habsolute, hisDir, hresolved⟩

theorem skillPath_betaPath : SkillPath plainPathEnv betaPath where
  strip := by decide +kernel
  isAbsolute := rfl
  root := rfl
  expandUser := rfl

theorem skillPath_alphaPath : SkillPath plainPathEnv alphaPath where
  strip := by decide +kernel
  isAbsolute := rfl
  root := rfl
  expandUser := rfl

theorem plainInput_sharedFolder : PlainInput plainPathEnv sharedFolder where
  tools := by
    intro proposal hproposal
    cases mem_singleton.mp hproposal
    decide +kernel
  catalog := by
    intro name hname server tool hsplit
    rcases mem_pair.mp hname with rfl | rfl
    · cases hsplit
      decide +kernel
    · cases hsplit
      decide +kernel
  workspaceRoot := ⟨rfl, rfl, rfl⟩
  skills := by
    intro proposal hproposal
    cases mem_singleton.mp hproposal
    refine ⟨skillPath_betaPath, givenDir_plainPathEnv rfl (by decide +kernel) (by decide +kernel)
      (by decide +kernel) (by decide +kernel), by decide +kernel⟩
  roots := by
    intro given hgiven
    rcases mem_pair.mp hgiven with rfl | rfl
    · exact ⟨givenDir_plainPathEnv rfl (by decide +kernel) (by decide +kernel)
        (by decide +kernel) (by decide +kernel), rfl, rfl, rfl⟩
    · exact ⟨givenDir_plainPathEnv rfl (by decide +kernel) (by decide +kernel)
        (by decide +kernel) (by decide +kernel), rfl, rfl, rfl⟩
  files := by
    intro row hrow
    rcases mem_pair.mp hrow with rfl | rfl
    · exact skillPath_alphaPath
    · exact skillPath_betaPath

theorem disablesExactly_sharedFolder_iff :
    DisablesExactly plainPathEnv id sharedFolder ↔ SparesOthers plainPathEnv id sharedFolder :=
  disablesExactly_iff plainPathEnv id sharedFolder plainInput_sharedFolder

/-- The rule of the folder in the workspace denies the skill of the user too. -/
theorem not_disablesExactly_sharedFolder : ¬DisablesExactly plainPathEnv id sharedFolder := by
  rintro ⟨-, -, after, hafter, -, -, -, hfiles⟩
  have hentries : (acceptAll plainPathEnv id sharedFolder).map DenyLists.skills =
      some ["path:.cursor/skills/".toList, "path:.cursor/skills/foo/".toList] := by decide +kernel
  rw [hafter, Option.map_some, Option.some_inj] at hentries
  have hspared := hfiles ⟨"alpha", alphaPath, true⟩ mem_cons_self (by decide +kernel)
    (by
      rintro ⟨proposal, hproposal, hpath⟩
      cases mem_singleton.mp hproposal
      exact absurd hpath (by decide +kernel))
  rw [hentries] at hspared
  exact absurd hspared (by decide +kernel)

end ClearYourTools.Permissions
