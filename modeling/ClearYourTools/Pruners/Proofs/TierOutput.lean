import ClearYourTools.Misc.Mapped
import ClearYourTools.Proxy.Proofs.ToolPartition
import ClearYourTools.Pruners.ToolsFilter
import ClearYourTools.Tiers.Proofs.Partition

/-!
# Tiers in what is pruned

What `filter_tools_for_query` applies is put together on two paths. With entries in the catalog
the tools of the hottest tier are merged into what the scoring leaves; without entries only what
passes by policy comes back.
-/

namespace ClearYourTools.Pruners

open Misc CytClient Tiers ToolExamples List Option
open Proxy (toolName mergeApiToolOntoOriginal nameKey)
open Json (get? PyFormat noFloats truthy)

variable {φ : Type} {p : PyFormat φ}

variable {tool : Record φ}

theorem get?_name_ite {c : Prop} [Decidable c] {a b : Record φ}
    (ha : get? a nameKey = get? tool nameKey) (hb : get? b nameKey = get? tool nameKey) :
    get? (if c then a else b) nameKey = get? tool nameKey := by
  split
  · exact ha
  · exact hb

theorem get?_name_mergeApiToolOntoOriginal (original apiTool : Record φ) :
    get? (mergeApiToolOntoOriginal original apiTool) nameKey = get? original nameKey :=
  Proxy.get?_mergeApiToolOntoOriginal (by decide) (by decide)

theorem get?_name_entangleInjectionExamples (env : EnrichEnv φ) (schema tool : Record φ) :
    get? (entangleInjectionExamples env schema tool) nameKey = get? tool nameKey := by
  unfold entangleInjectionExamples
  split
  · split
    · rfl
    · exact Json.get?_set_of_ne (by decide) _
  · rfl

variable {env : EnrichEnv φ}

theorem get?_name_ensureToolInjectionSchema {fullTool : Option (Record φ)}
    {catalogTools : List (Record φ)} {out : Record φ}
    (h : ensureToolInjectionSchema env fullTool catalogTools tool = some out) :
    get? out nameKey = get? tool nameKey := by
  unfold ensureToolInjectionSchema at h
  obtain ⟨schema, -, rfl⟩ := map_eq_some_iff.mp h
  rw [get?_name_entangleInjectionExamples]
  exact get?_name_ite (Json.get?_set_of_ne (by decide) _) rfl

variable {originalTools : List (Record φ)}

theorem map_name_ensureInjectionSchemasForTiers {env : PruneEnv φ}
    {pruned ensured : List (Record φ)}
    (h : ensureInjectionSchemasForTiers env pruned originalTools = some ensured) :
    ensured.map (get? · nameKey) = pruned.map (get? · nameKey) :=
  map_eq_of_forall₂ (forall₂_of_mapM h) fun _ _ htool =>
    get?_name_ensureToolInjectionSchema htool

theorem get?_name_enrichSingleTool {cfg : ToolExamplesConfig} {query : Text} {projectId : ℕ}
    {store : Store} {out : Record φ}
    (h : enrichSingleTool env cfg query projectId store tool = some out) :
    get? out nameKey = get? tool nameKey := by
  unfold enrichSingleTool at h
  split at h
  · rw [Option.some.inj h]
  · obtain ⟨captures, -, rfl⟩ := map_eq_some_iff.mp h
    split
    · rfl
    · refine get?_name_ite rfl ?_
      rw [Json.get?_set_of_ne (by decide), Json.get?_set_of_ne (by decide)]

theorem map_name_enrichToolsWithExamples {call : EnrichCall φ} {store : Store}
    {enriched : List (Record φ)} (h : enrichToolsWithExamples env call store = some enriched) :
    enriched.map (get? · nameKey) = call.tools.map (get? · nameKey) := by
  unfold enrichToolsWithExamples at h
  split at h
  · rw [Option.some.inj h]
  · split at h
    · rw [Option.some.inj h]
    · exact map_eq_of_forall₂ (forall₂_of_mapM h) fun _ _ htool =>
        get?_name_enrichSingleTool htool

/-- What the merge of the SDK relies on: it walks the original tools, puts for a named tool what
one of the two dictionaries has under its name, nothing if neither has it, and for an unnamed one
nothing or the tool itself. -/
structure MergesInOrder (p : PyFormat φ)
    (merge : List (Record φ) → Dict Text (Record φ) → Dict Text (Record φ) → List (Record φ)) :
    Prop where
  picks : ∀ original prunedByName stashedByName, (∀ tool ∈ original, TextNamed tool) →
    ∃ pick : Record φ → Option (Record φ),
      merge original prunedByName stashedByName = original.filterMap pick ∧
      ∀ tool ∈ original,
        (toolName p tool = [] → pick tool = none ∨ pick tool = some tool) ∧
        (toolName p tool ≠ [] →
          pick tool = (stashedByName.get? (toolName p tool)).or
              (prunedByName.get? (toolName p tool)) ∨
            pick tool = (prunedByName.get? (toolName p tool)).or
              (stashedByName.get? (toolName p tool)))

/-- The tools that a dictionary has under some names are named so. -/
def KeyedByName (names : List Text) (tools : Dict Text (Record φ)) : Prop :=
  ∀ name ∈ names, ∀ tool, tools.get? name = some tool → get? tool nameKey = some (.str name)

theorem keyedByName_empty (names : List Text) : KeyedByName (φ := φ) names .empty := by
  intro name _ tool h
  cases h

theorem toolNames_cons (tool : Record φ) (tools : List (Record φ)) :
    toolNames p (tool :: tools) = toolNames p [tool] ++ toolNames p tools := by
  rw [toolNames, toolNames, toolNames, ← filter_append, ← map_append]
  rfl

theorem toolNames_singleton (h : toolName p tool ≠ []) :
    toolNames p [tool] = [toolName p tool] := by
  have hname : (toolName p tool).isEmpty = false := isEmpty_eq_false_iff.mpr h
  simp [toolNames, hname]

theorem toolNames_singleton_unnamed (h : toolName p tool = []) : toolNames p [tool] = [] := by
  simp [toolNames, h]

variable {name : Text}

theorem toolNames_picked {first second : Dict Text (Record φ)} {names : List Text}
    (hname : name ∈ names) (hne : name ≠ []) (hfirst : KeyedByName names first)
    (hsecond : KeyedByName names second) {picked : Option (Record φ)}
    (h : picked = (first.get? name).or (second.get? name)) :
    (∀ tool ∈ picked, TextNamed tool) ∧
      toolNames p picked.toList =
        [name].filter fun name => first.contains name || second.contains name := by
  have hkeyed : ∀ tool ∈ picked, get? tool nameKey = some (.str name) := by
    intro tool htool
    rw [h] at htool
    rcases or_eq_some_iff.mp htool with hget | ⟨-, hget⟩
    · exact hfirst name hname tool hget
    · exact hsecond name hname tool hget
  refine ⟨fun tool htool v hv => ⟨name, Option.some.inj (hv.symm.trans (hkeyed tool htool))⟩, ?_⟩
  have hsome : picked.isSome = (first.contains name || second.contains name) := by
    rw [h, isSome_or]
    rfl
  rw [filter_singleton, ← hsome]
  cases picked with
  | none => rfl
  | some tool =>
    have heq : toolName p tool = name := by
      rw [toolName, hkeyed tool rfl]
      rfl
    rw [toList_some, toolNames_singleton (heq ▸ hne), heq]
    rfl

theorem MergesInOrder.spec
    {merge : List (Record φ) → Dict Text (Record φ) → Dict Text (Record φ) → List (Record φ)}
    (hmerge : MergesInOrder p merge) {original : List (Record φ)}
    {prunedByName stashedByName : Dict Text (Record φ)} (htext : ∀ tool ∈ original, TextNamed tool)
    (hpruned : KeyedByName (toolNames p original) prunedByName)
    (hstashed : KeyedByName (toolNames p original) stashedByName) :
    (∀ tool ∈ merge original prunedByName stashedByName, TextNamed tool) ∧
      toolNames p (merge original prunedByName stashedByName) =
        (toolNames p original).filter fun name =>
          prunedByName.contains name || stashedByName.contains name := by
  obtain ⟨pick, heq, hpick⟩ := hmerge.picks original prunedByName stashedByName htext
  rw [heq]
  -- what one tool contributes
  have hone : ∀ tool ∈ original, (∀ picked ∈ pick tool, TextNamed picked) ∧
      toolNames p (pick tool).toList = (toolNames p [tool]).filter fun name =>
        prunedByName.contains name || stashedByName.contains name := by
    intro tool htool
    obtain ⟨hunnamed, hnamed⟩ := hpick tool htool
    by_cases hname : toolName p tool = []
    · rw [toolNames_singleton_unnamed hname]
      rcases hunnamed hname with hnone | hself
      · rw [hnone]
        exact ⟨fun _ h => (by cases h), rfl⟩
      · rw [hself]
        refine ⟨fun picked h => ?_, toolNames_singleton_unnamed hname⟩
        cases h
        exact htext tool htool
    · have hin : toolName p tool ∈ toolNames p original :=
        mem_toolNames.mpr ⟨hname, tool, htool, rfl⟩
      rw [toolNames_singleton hname]
      rcases hnamed hname with hor | hor
      · obtain ⟨hpicked, hnames⟩ := toolNames_picked (p := p) hin hname hstashed hpruned hor
        exact ⟨hpicked, by simp only [hnames, Bool.or_comm]⟩
      · exact toolNames_picked hin hname hpruned hstashed hor
  clear heq hpick hpruned hstashed htext
  induction original with
  | nil => exact ⟨fun _ h => (by cases h), rfl⟩
  | cons tool original ih =>
    obtain ⟨htool, hnames⟩ := hone tool mem_cons_self
    obtain ⟨hrest, hrestNames⟩ := ih fun other hother => hone other (mem_cons_of_mem _ hother)
    have hsplit : (tool :: original).filterMap pick =
        (pick tool).toList ++ original.filterMap pick := by
      rw [filterMap_cons]
      cases pick tool <;> rfl
    rw [hsplit, toolNames_cons tool original, filter_append, ← hnames, ← hrestNames]
    refine ⟨fun picked h => ?_, ?_⟩
    · rcases mem_append.mp h with h | h
      · exact htool picked (mem_toList.mp h)
      · exact hrest picked h
    · rw [toolNames, map_append, filter_append]
      rfl

variable {tools : List (Record φ)}
variable {passes : Text → Bool}

theorem contains_stashPassThroughTools :
    (stashPassThroughTools p passes tools).contains name = true ↔
      name ∈ toolNames p tools ∧ passes name = true := by
  unfold stashPassThroughTools
  rw [Dict.contains_writeAll_empty, List.map_map, mem_toolNames, List.mem_map]
  constructor
  · rintro ⟨tool, htool, rfl⟩
    obtain ⟨hnamed, hpasses⟩ := mem_filter.mp htool
    obtain ⟨hin, hname⟩ := mem_filter.mp hnamed
    exact ⟨⟨by simpa using hname, tool, hin, rfl⟩, hpasses⟩
  · rintro ⟨⟨hne, tool, hin, rfl⟩, hpasses⟩
    refine ⟨tool, mem_filter.mpr ⟨mem_filter.mpr ⟨hin, ?_⟩, hpasses⟩, rfl⟩
    simpa using hne

theorem keyedByName_stashPassThroughTools (htext : ∀ tool ∈ tools, TextNamed tool)
    (names : List Text) : KeyedByName names (stashPassThroughTools p passes tools) := by
  intro name _ tool hget
  obtain ⟨stashed, hstashed, heq⟩ := List.mem_map.mp (Dict.mem_of_get?_writeAll_empty hget)
  cases heq
  obtain ⟨hin, hname⟩ := mem_filter.mp (mem_filter.mp hstashed).1
  exact (htext tool hin).get?_eq (by simpa using hname)

theorem contains_prunedToolsByName {apiTools : List (Record φ)} :
    (prunedToolsByName p originalTools apiTools).contains name = true ↔
      name ∈ toolNames p apiTools := by
  unfold prunedToolsByName
  rw [Dict.contains_writeAll_empty, List.map_map, mem_toolNames, List.mem_map]
  constructor
  · rintro ⟨tool, htool, rfl⟩
    obtain ⟨hin, hname⟩ := mem_filter.mp htool
    exact ⟨by simpa using hname, tool, hin, rfl⟩
  · rintro ⟨hne, tool, hin, rfl⟩
    exact ⟨tool, mem_filter.mpr ⟨hin, by simpa using hne⟩, rfl⟩

theorem exists_originalToolsByName (htext : ∀ tool ∈ tools, TextNamed tool)
    (hname : name ∈ toolNames p tools) :
    ∃ original, (originalToolsByName p tools).get? name = some original ∧
      get? original nameKey = some (.str name) := by
  obtain ⟨hne, tool, htool, rfl⟩ := mem_toolNames.mp hname
  have htruthy : truthy p ((get? tool nameKey).getD .null) = true := by
    rw [(htext tool htool).get?_eq hne, getD_some, truthy, Bool.not_eq_true']
    exact isEmpty_eq_false_iff.mpr hne
  have hcontains : (originalToolsByName p tools).contains (toolName p tool) = true := by
    unfold originalToolsByName
    rw [Dict.contains_writeAll_empty, List.map_map]
    exact List.mem_map.mpr ⟨tool, mem_filter.mpr ⟨htool, htruthy⟩, rfl⟩
  rw [Dict.contains, isSome_iff_exists] at hcontains
  obtain ⟨original, hget⟩ := hcontains
  obtain ⟨found, hfound, heq⟩ := List.mem_map.mp (Dict.mem_of_get?_writeAll_empty hget)
  obtain ⟨hkey, rfl⟩ := Prod.mk.inj heq
  refine ⟨found, hget, ?_⟩
  rw [← hkey]
  exact (htext found (mem_filter.mp hfound).1).get?_eq (hkey ▸ hne)

theorem keyedByName_prunedToolsByName {originalTools apiTools : List (Record φ)}
    (htext : ∀ tool ∈ originalTools, TextNamed tool) :
    KeyedByName (toolNames p originalTools) (prunedToolsByName p originalTools apiTools) := by
  intro name hname tool hget
  obtain ⟨apiTool, -, heq⟩ := List.mem_map.mp (Dict.mem_of_get?_writeAll_empty hget)
  obtain ⟨hkey, rfl⟩ := Prod.mk.inj heq
  obtain ⟨original, horiginal, hnamed⟩ := exists_originalToolsByName htext hname
  rw [hkey, horiginal]
  exact (get?_name_mergeApiToolOntoOriginal original apiTool).trans hnamed

/-- The tools that come out have every tool of the hottest tier once, and none of the dormant
ones. -/
structure TiersShape (p : PyFormat φ) (tiers : Dict Text Tier)
    (originalTools out : List (Record φ)) : Prop where
  extraHot_once : ∀ tool ∈ originalTools, tierByMap p tiers tool = .extraHot →
    (out.map (toolName p)).count (toolName p tool) = 1
  dormant_absent : ∀ tool ∈ originalTools, tierByMap p tiers tool = .dormant →
    toolName p tool ∉ out.map (toolName p)

variable {tiers : Dict Text Tier}

theorem toolName_ne_nil_of_tier {tier : Tier} (htext : TextNamed tool)
    (hactive : tier ≠ .active) (h : tierByMap p tiers tool = tier) : toolName p tool ≠ [] := by
  intro hname
  have hid : recordEntityId p tool = [] := by
    rw [recordEntityId, toolEntityId, htext.givenName_eq, hname]
    rfl
  rw [tierByMap, hid] at h
  exact hactive h.symm

theorem mem_map_toolName_iff (hne : name ≠ []) :
    name ∈ tools.map (toolName p) ↔ name ∈ toolNames p tools := by
  rw [mem_toolNames, and_iff_right hne, List.mem_map]

theorem count_map_toolName (hne : name ≠ []) :
    (tools.map (toolName p)).count name = (toolNames p tools).count name := by
  rw [toolNames, count_filter]
  simpa using hne

theorem tiersShape_iff {out : List (Record φ)}
    (htext : ∀ tool ∈ originalTools, TextNamed tool) (hnodup : (toolNames p out).Nodup) :
    TiersShape p tiers originalTools out ↔
      (∀ tool ∈ originalTools, tierByMap p tiers tool = .extraHot →
        toolName p tool ∈ toolNames p out) ∧
      ∀ tool ∈ originalTools, tierByMap p tiers tool = .dormant →
        toolName p tool ∉ toolNames p out := by
  have hnamed : ∀ tool ∈ originalTools, ∀ tier, tier ≠ .active →
      tierByMap p tiers tool = tier → toolName p tool ≠ [] := fun tool htool _ =>
    toolName_ne_nil_of_tier (htext tool htool)
  constructor
  · rintro ⟨honce, habsent⟩
    refine ⟨fun tool htool htier => ?_, fun tool htool htier => ?_⟩
    · have hcount := honce tool htool htier
      rw [count_map_toolName (hnamed tool htool _ (by simp) htier)] at hcount
      exact count_pos_iff.mp (by omega)
    · rw [← mem_map_toolName_iff (hnamed tool htool _ (by simp) htier)]
      exact habsent tool htool htier
  · rintro ⟨hpresent, habsent⟩
    refine ⟨fun tool htool htier => ?_, fun tool htool htier => ?_⟩
    · rw [count_map_toolName (hnamed tool htool _ (by simp) htier)]
      exact count_eq_one_of_mem hnodup (hpresent tool htool htier)
    · rw [mem_map_toolName_iff (hnamed tool htool _ (by simp) htier)]
      exact habsent tool htool htier

theorem toolNames_sublist {a b : List (Record φ)} (h : a.Sublist b) :
    (toolNames p a).Sublist (toolNames p b) :=
  (h.map _).filter _

theorem eq_of_toolName_eq (hnodup : (toolNames p tools).Nodup) {a b : Record φ} (ha : a ∈ tools)
    (hb : b ∈ tools) (hname : toolName p a ≠ []) (h : toolName p a = toolName p b) : a = b := by
  rw [toolNames, List.filter_map] at hnodup
  refine inj_on_of_nodup_map hnodup (mem_filter.mpr ⟨ha, ?_⟩) (mem_filter.mpr ⟨hb, ?_⟩) h
  · simpa using hname
  · simpa [← h] using hname

section

variable {env : PruneEnv φ}

/-- The tiers leave no tool to the pruners. -/
def NoneEligible (env : PruneEnv φ) (tools : List (Record φ)) : Prop :=
  ∀ tool ∈ tools, isEligible env env.tierForTool tool = false

/-- The tools that a live pool is made of: the eligible ones, or all if there are none. -/
def poolTools (env : PruneEnv φ) (tools : List (Record φ)) : List (Record φ) :=
  let eligible := tools.filter (isEligible env env.tierForTool)
  if eligible.isEmpty then tools else eligible

theorem poolTools_sublist (tools : List (Record φ)) : (poolTools env tools).Sublist tools := by
  unfold poolTools
  dsimp only
  split
  · exact .refl _
  · exact filter_sublist

theorem mem_poolTools {tools : List (Record φ)} {tool : Record φ} :
    tool ∈ poolTools env tools ↔ tool ∈ tools ∧
      (isEligible env env.tierForTool tool = true ∨ NoneEligible env tools) := by
  unfold poolTools NoneEligible
  dsimp only
  split
  · rename_i hnone
    rw [List.isEmpty_iff, filter_eq_nil_iff] at hnone
    have hall : ∀ tool ∈ tools, isEligible env env.tierForTool tool = false :=
      fun tool htool => Bool.eq_false_iff.mpr (hnone tool htool)
    exact ⟨fun h => ⟨h, .inr hall⟩, fun h => h.1⟩
  · rename_i hsome
    have hnot : ¬ ∀ tool ∈ tools, isEligible env env.tierForTool tool = false := by
      intro hall
      refine hsome (List.isEmpty_iff.mpr (filter_eq_nil_iff.mpr fun tool htool => ?_))
      rw [hall tool htool]
      exact Bool.false_ne_true
    rw [mem_filter, or_iff_left hnot]

section

variable (hactive : env.toolsTierPromptEvalActive = true) (hlive : env.tierMode = .live)
include hactive hlive

theorem tierApply_live (tools : List (Record φ)) :
    tierApply env tools = applyToolTiers env tools env.tierForTool true := by
  rw [tierApply, if_pos hactive, hlive]
  rfl

theorem toolsForPrune_live (tools : List (Record φ)) :
    toolsForPrune env tools = prepareToolsForTierPipeline env (poolTools env tools)
      (tierApply env tools).tierByTool := by
  rw [toolsForPrune, if_pos hactive, poolTools, ← eligibleTools_live,
    ← tierApply_live hactive hlive]

theorem toolNames_toolsForPrune (tools : List (Record φ)) :
    toolNames env (toolsForPrune env tools) = toolNames env (poolTools env tools) := by
  rw [toolsForPrune_live hactive hlive]
  exact toolNames_congr (map_name_prepareToolsForTierPipeline _ _)

variable {tools : List (Record φ)}

theorem textNamed_toolsForPrune (htext : ∀ tool ∈ tools, TextNamed tool) :
    ∀ tool ∈ toolsForPrune env tools, TextNamed tool := by
  rw [toolsForPrune_live hactive hlive]
  intro prepared hprepared
  obtain ⟨tool, htool, rfl⟩ := List.mem_map.mp hprepared
  exact (htext tool (mem_poolTools.mp htool).1).congr (get?_name_prepareToolForTierPipeline tool _)

theorem toolName_mem_pool_iff (hnodup : (toolNames env tools).Nodup) {tool : Record φ}
    (htool : tool ∈ tools) (hname : toolName env tool ≠ []) :
    toolName env tool ∈ toolNames env (toolsForPrune env tools) ↔
      isEligible env env.tierForTool tool = true ∨ NoneEligible env tools := by
  rw [toolNames_toolsForPrune hactive hlive, mem_toolNames, and_iff_right hname]
  constructor
  · rintro ⟨other, hother, heq⟩
    obtain ⟨hin, hpool⟩ := mem_poolTools.mp hother
    rw [eq_of_toolName_eq hnodup htool hin hname heq.symm]
    exact hpool
  · intro hpool
    exact ⟨tool, mem_poolTools.mpr ⟨htool, hpool⟩, rfl⟩

theorem toolName_mem_t4Direct_iff (hnodup : (toolNames env tools).Nodup)
    {tool : Record φ} (htool : tool ∈ tools) (hname : toolName env tool ≠ []) :
    toolName env tool ∈ toolNames env (tierApply env tools).t4Direct ↔
      tierByMap env env.tierForTool tool = .extraHot := by
  have hnames : toolNames env (tierApply env tools).t4Direct =
      toolNames env (tools.filter (isExtraHot env env.tierForTool)) := by
    rw [tierApply_live hactive hlive, t4Direct_live]
    refine toolNames_congr ?_
    rw [List.map_map]
    exact map_congr_left fun tool _ => get?_name_prepareToolForTierPipeline tool _
  rw [hnames, mem_toolNames, and_iff_right hname, ← isExtraHot_iff]
  constructor
  · rintro ⟨other, hother, heq⟩
    obtain ⟨hin, hhot⟩ := mem_filter.mp hother
    rw [eq_of_toolName_eq hnodup htool hin hname heq.symm]
    exact hhot
  · intro hhot
    exact ⟨tool, mem_filter.mpr ⟨htool, hhot⟩, rfl⟩

theorem textNamed_t4Direct (htext : ∀ tool ∈ tools, TextNamed tool) :
    ∀ tool ∈ (tierApply env tools).t4Direct, TextNamed tool := by
  rw [tierApply_live hactive hlive, t4Direct_live]
  intro prepared hprepared
  obtain ⟨tool, htool, rfl⟩ := List.mem_map.mp hprepared
  exact (htext tool (mem_filter.mp htool).1).congr (get?_name_prepareToolForTierPipeline tool _)

end

end

section

variable {env : PruneEnv φ} {call : PruneCall φ}

/-- The policy that the output context has for the name of a tool lets it through. -/
def passesByPolicy (env : PruneEnv φ) (call : PruneCall φ) (tool : Record φ) : Prop :=
  (outputPolicyContext env call.originalTools).toolPassThrough (toolName env tool) = true

/-- The tools that the scoring leaves, as they come from the catalog. -/
def apiTools (env : PruneEnv φ) (call : PruneCall φ) (merged : List (Record φ)) :
    List (Record φ) :=
  call.mergedToApiTools.getD (mergedToolsToAnthropic env) merged

/-- The request of a live pruning: the merge is in order, and the tools have distinct names. -/
structure LiveCall (env : PruneEnv φ) (call : PruneCall φ) : Prop where
  merges : MergesInOrder env env.mergeToolsPreservingOrder
  textNamed : ∀ tool ∈ call.originalTools, TextNamed tool
  nodup : (toolNames env call.originalTools).Nodup
  active : env.toolsTierPromptEvalActive = true
  live : env.tierMode = .live

theorem keyedByName_stashedTools (h : LiveCall env call) (names : List Text) :
    KeyedByName names (stashedTools env call) :=
  keyedByName_stashPassThroughTools (textNamed_toolsForPrune h.active h.live h.textNamed) names

variable {tool : Record φ}

theorem contains_stashedTools (h : LiveCall env call) (htool : tool ∈ call.originalTools)
    (hname : toolName env tool ≠ []) :
    (stashedTools env call).contains (toolName env tool) = true ↔
      (isEligible env env.tierForTool tool = true ∨
        NoneEligible env call.originalTools) ∧ passesByPolicy env call tool := by
  unfold stashedTools
  rw [contains_stashPassThroughTools, toolName_mem_pool_iff h.active h.live h.nodup htool hname]
  rfl

theorem restored_spec (h : LiveCall env call) :
    (toolNames env (env.mergeToolsPreservingOrder call.originalTools .empty
        (stashedTools env call))).Nodup ∧
      ∀ tool ∈ call.originalTools, toolName env tool ≠ [] →
        (toolName env tool ∈ toolNames env
            (env.mergeToolsPreservingOrder call.originalTools .empty (stashedTools env call)) ↔
          (isEligible env env.tierForTool tool = true ∨
            NoneEligible env call.originalTools) ∧ passesByPolicy env call tool) := by
  rw [(h.merges.spec h.textNamed (keyedByName_empty _) (keyedByName_stashedTools h _)).2]
  refine ⟨h.nodup.filter _, fun tool htool hname => ?_⟩
  have hin : toolName env tool ∈ toolNames env call.originalTools :=
    mem_toolNames.mpr ⟨hname, tool, htool, rfl⟩
  rw [mem_filter, and_iff_right hin, ← contains_stashedTools h htool hname]
  rfl

/-- With entries, the tools of the hottest tier are merged into those of the pool that pass by
policy or that the scoring leaves. -/
theorem mergedPrunedTools_spec (h : LiveCall env call) (merged : List (Record φ)) :
    (toolNames env (mergedPrunedTools env call merged (stashedTools env call))).Nodup ∧
      ∀ tool ∈ call.originalTools, toolName env tool ≠ [] →
        (toolName env tool ∈ toolNames env
            (mergedPrunedTools env call merged (stashedTools env call)) ↔
          (isEligible env env.tierForTool tool = true ∨
              NoneEligible env call.originalTools) ∧ (toolName env tool ∈
                toolNames env (apiTools env call merged) ∨
                passesByPolicy env call tool) ∨
            tierByMap env env.tierForTool tool = .extraHot) := by
  have hpool := textNamed_toolsForPrune h.active h.live h.textNamed
  obtain ⟨hprunedText, hprunedNames⟩ := h.merges.spec hpool
    (@keyedByName_prunedToolsByName _ env _ (apiTools env call merged) hpool)
    (keyedByName_stashedTools h _)
  have hpoolNodup : (toolNames env (toolsForPrune env call.originalTools)).Nodup := by
    rw [toolNames_toolsForPrune h.active h.live]
    exact h.nodup.sublist (toolNames_sublist (poolTools_sublist _))
  obtain ⟨hnodup, hmem⟩ := toolNames_mergeT4Tools (p := env) hprunedText
    (textNamed_t4Direct h.active h.live h.textNamed) (hprunedNames ▸ hpoolNodup.filter _)
  have hstamped : toolNames env (mergedPrunedTools env call merged (stashedTools env call)) = _ :=
    toolNames_congr (map_name_stampToolInjectionTiers _ _ _)
  rw [hstamped]
  refine ⟨hnodup, fun tool htool hname => ?_⟩
  have hdirect := toolName_mem_t4Direct_iff h.active h.live h.nodup htool hname
  refine (hmem _).trans (or_congr ?_ hdirect)
  rw [hprunedNames, mem_filter, Bool.or_eq_true, contains_prunedToolsByName,
    contains_stashedTools h htool hname, toolName_mem_pool_iff h.active h.live h.nodup htool hname]
  exact and_congr_right fun hpool => or_congr_right (and_iff_right hpool)

theorem toolNames_finalize {merged : List (Record φ)} {stashedByName : Dict Text (Record φ)}
    {result : ToolsPruneResult φ}
    (h : finalizeAppliedPruneResult env call merged stashedByName = some result) :
    ∃ out, result.tools = some out ∧ toolNames env out =
      toolNames env (mergedPrunedTools env call merged stashedByName) := by
  unfold finalizeAppliedPruneResult at h
  obtain ⟨ensured, hensured, rfl⟩ := map_eq_some_iff.mp h
  refine ⟨_, rfl, toolNames_congr ?_⟩
  rw [← map_name_ensureInjectionSchemasForTiers hensured]
  cases henriched : enrichToolsWithExamples env ⟨call.examplesConfig,
      call.projectRoot, call.projectMs, call.query, ensured⟩ call.examples with
  | none => rfl
  | some enriched => exact map_name_enrichToolsWithExamples henriched

/-- An applied result comes from one of the two paths. -/
theorem applied_cases {result : ToolsPruneResult φ}
    (h : filterToolsForQuery env call = some result) (happlied : result.status = .applied) :
    env.toolsInjectAllowed = true ∧ (((catalogEntries env call).1 = [] ∧ result.tools = some
          (env.mergeToolsPreservingOrder call.originalTools .empty (stashedTools env call))) ∨
        ∃ merged, (catalogEntries env call).1 ≠ [] ∧
          env.runCatalogPruning (catalogEntries env call).1 (catalogEntries env call).2
              call.query = .ok merged ∧
          finalizeAppliedPruneResult env call merged (stashedTools env call) = some result) := by
  unfold filterToolsForQuery at h
  dsimp only at h
  split at h
  · obtain rfl := Option.some.inj h
    cases happlied
  rename_i hallowed
  refine ⟨by simpa using hallowed, ?_⟩
  split at h
  · obtain rfl := Option.some.inj h
    cases happlied
  split at h
  · obtain rfl := Option.some.inj h
    cases happlied
  split at h
  · rename_i hempty
    left
    refine ⟨List.isEmpty_iff.mp hempty, ?_⟩
    obtain rfl := Option.some.inj h
    unfold pruneResultWithoutCatalogEntries at happlied ⊢
    dsimp only at happlied ⊢
    split at happlied
    · cases happlied
    · rename_i hrestored
      rw [if_neg hrestored]
      rfl
  · rename_i hentries
    right
    split at h
    · obtain rfl := Option.some.inj h
      cases happlied
    · rename_i merged hrun
      split at h
      · obtain rfl := Option.some.inj h
        cases happlied
      · exact ⟨merged, fun hnil => hentries (List.isEmpty_iff.mpr hnil), hrun, h⟩

/-- When live tiers shape what a pruning applies. Without entries in the catalog every tool of the
hottest tier has to pass by policy, which it is only asked if no tool is eligible; and where none
is, no dormant tool may pass by policy or be left by the scoring. -/
structure KeepsTiers (env : PruneEnv φ) (call : PruneCall φ) : Prop where
  extraHot_restored : (catalogEntries env call).1 = [] → ∀ tool ∈ call.originalTools,
    tierByMap env env.tierForTool tool = .extraHot →
      NoneEligible env call.originalTools ∧ passesByPolicy env call tool
  dormant_not_passed : NoneEligible env call.originalTools → ∀ tool ∈ call.originalTools,
    tierByMap env env.tierForTool tool = .dormant → ¬ passesByPolicy env call tool
  dormant_not_scored : NoneEligible env call.originalTools →
    (catalogEntries env call).1 ≠ [] → ∀ merged,
      env.runCatalogPruning (catalogEntries env call).1 (catalogEntries env call).2
          call.query = .ok merged →
        ∀ tool ∈ call.originalTools,
          tierByMap env env.tierForTool tool = .dormant →
            toolName env tool ∉ (apiTools env call merged).map (toolName env)

theorem LiveCall.toolName_ne_nil (h : LiveCall env call) (htool : tool ∈ call.originalTools)
    {tier : Tier} (hends : tier = .dormant ∨ tier = .extraHot)
    (htier : tierByMap env env.tierForTool tool = tier) : toolName env tool ≠ [] := by
  refine toolName_ne_nil_of_tier (h.textNamed tool htool) ?_ htier
  rcases hends with rfl | rfl
  · exact Tier.noConfusion
  · exact Tier.noConfusion

theorem not_isEligible_of_tier {tier : Tier} (hends : tier = .dormant ∨ tier = .extraHot)
    (htier : tierByMap env env.tierForTool tool = tier) :
    ¬ isEligible env env.tierForTool tool = true := by
  rw [isEligible_iff, htier]
  rintro ⟨hdormant, hhot⟩
  exact hends.elim hdormant hhot

theorem tiersShape_restored_iff (h : LiveCall env call)
    (hentries : (catalogEntries env call).1 = []) :
    TiersShape env env.tierForTool call.originalTools
        (env.mergeToolsPreservingOrder call.originalTools .empty (stashedTools env call)) ↔
      KeepsTiers env call := by
  obtain ⟨hnodup, hmem⟩ := restored_spec h
  rw [tiersShape_iff h.textNamed hnodup]
  constructor
  · rintro ⟨hhot, hdormant⟩
    refine ⟨fun _ tool htool htier => ?_, fun hnone tool htool htier hpasses => ?_,
      fun _ hne => absurd hentries hne⟩
    · have hin := (hmem tool htool (h.toolName_ne_nil htool (.inr rfl) htier)).mp
        (hhot tool htool htier)
      exact ⟨hin.1.resolve_left (not_isEligible_of_tier (.inr rfl) htier), hin.2⟩
    · exact hdormant tool htool htier
        ((hmem tool htool (h.toolName_ne_nil htool (.inl rfl) htier)).mpr ⟨.inr hnone, hpasses⟩)
  · intro hkeeps
    refine ⟨fun tool htool htier => ?_, fun tool htool htier hin => ?_⟩
    · obtain ⟨hnone, hpasses⟩ := hkeeps.extraHot_restored hentries tool htool htier
      exact (hmem tool htool (h.toolName_ne_nil htool (.inr rfl) htier)).mpr ⟨.inr hnone, hpasses⟩
    · obtain ⟨hpool, hpasses⟩ := (hmem tool htool (h.toolName_ne_nil htool (.inl rfl) htier)).mp hin
      have hnone := hpool.resolve_left (not_isEligible_of_tier (.inl rfl) htier)
      exact hkeeps.dormant_not_passed hnone tool htool htier hpasses

theorem tiersShape_finalized_iff (h : LiveCall env call)
    (hentries : (catalogEntries env call).1 ≠ []) {merged : List (Record φ)}
    (hrun : env.runCatalogPruning (catalogEntries env call).1 (catalogEntries env call).2
      call.query = .ok merged) {out : List (Record φ)}
    (hout : toolNames env out = toolNames env
      (mergedPrunedTools env call merged (stashedTools env call))) :
    TiersShape env env.tierForTool call.originalTools out ↔ KeepsTiers env call := by
  obtain ⟨hnodup, hmem⟩ := mergedPrunedTools_spec h merged
  rw [tiersShape_iff h.textNamed (hout ▸ hnodup), hout]
  have hdormant_iff : ∀ tool ∈ call.originalTools,
      tierByMap env env.tierForTool tool = .dormant →
        (toolName env tool ∈ toolNames env
            (mergedPrunedTools env call merged (stashedTools env call)) ↔
          NoneEligible env call.originalTools ∧ (toolName env tool ∈
                (apiTools env call merged).map (toolName env) ∨
              passesByPolicy env call tool)) := by
    intro tool htool htier
    have hname := h.toolName_ne_nil htool (.inl rfl) htier
    have hcool : ¬ tierByMap env env.tierForTool tool = .extraHot := by simp [htier]
    rw [hmem tool htool hname, or_iff_left hcool,
      or_iff_right (not_isEligible_of_tier (.inl rfl) htier), mem_map_toolName_iff hname]
  constructor
  · rintro ⟨-, hdormant⟩
    refine ⟨fun hnil => absurd hnil hentries, fun hnone tool htool htier hpasses => ?_,
      fun hnone _ kept hkept tool htool htier hin => ?_⟩
    · exact hdormant tool htool htier
        ((hdormant_iff tool htool htier).mpr ⟨hnone, .inr hpasses⟩)
    · cases hrun.symm.trans hkept
      exact hdormant tool htool htier ((hdormant_iff tool htool htier).mpr ⟨hnone, .inl hin⟩)
  · intro hkeeps
    refine ⟨fun tool htool htier => ?_, fun tool htool htier hin => ?_⟩
    · exact (hmem tool htool (h.toolName_ne_nil htool (.inr rfl) htier)).mpr (.inr htier)
    · obtain ⟨hnone, hscored | hpasses⟩ := (hdormant_iff tool htool htier).mp hin
      · exact hkeeps.dormant_not_scored hnone hentries merged hrun tool htool htier hscored
      · exact hkeeps.dormant_not_passed hnone tool htool htier hpasses

/-- What a pruning with live tiers applies has every tool of the hottest tier once and no dormant
one, exactly if the request keeps the tiers on the path that it takes. -/
theorem tiersShape_applied_iff (env : PruneEnv φ) (call : PruneCall φ)
    {result : ToolsPruneResult φ}
    (hmerge : MergesInOrder env env.mergeToolsPreservingOrder)
    (htext : ∀ tool ∈ call.originalTools, TextNamed tool)
    (hnodup : (toolNames env call.originalTools).Nodup)
    (hlive : env.tierMode = .live) (h : filterToolsForQuery env call = some result)
    (happlied : result.status = .applied) :
    ∃ out, result.tools = some out ∧
      (TiersShape env env.tierForTool call.originalTools out ↔ KeepsTiers env call) := by
  obtain ⟨hallowed, hpath⟩ := applied_cases h happlied
  have hactive : env.toolsTierPromptEvalActive = true := by
    rw [PruneEnv.toolsInjectAllowed, Bool.and_eq_true] at hallowed
    rw [PruneEnv.toolsTierPromptEvalActive, hallowed.1, hlive]
    rfl
  have hcall : LiveCall env call := ⟨hmerge, htext, hnodup, hactive, hlive⟩
  rcases hpath with ⟨hentries, htools⟩ | ⟨merged, hentries, hrun, hfinal⟩
  · exact ⟨_, htools, tiersShape_restored_iff hcall hentries⟩
  · obtain ⟨out, htools, hout⟩ := toolNames_finalize hfinal
    exact ⟨out, htools, tiersShape_finalized_iff hcall hentries hrun hout⟩

end

/-- A merge that prefers what passed through. -/
def mergeStashedFirst (original : List (Record Empty))
    (prunedByName stashedByName : Dict Text (Record Empty)) : List (Record Empty) :=
  original.filterMap fun tool =>
    let name := toolName noFloats tool
    if name.isEmpty then none else (stashedByName.get? name).or (prunedByName.get? name)

theorem mergesInOrder_mergeStashedFirst : MergesInOrder noFloats mergeStashedFirst where
  picks := by
    intro original prunedByName stashedByName _
    refine ⟨_, rfl, fun tool _ => ⟨fun hname => .inl ?_, fun hname => .inl ?_⟩⟩
    · dsimp only
      rw [hname]
      rfl
    · have hne : ¬ (toolName noFloats tool).isEmpty = true :=
        fun hempty => hname (List.isEmpty_iff.mp hempty)
      dsimp only
      rw [if_neg hne]

/-- Live tiers where `h` is of the hottest and `d` of the dormant tier, no policy lets a tool
through, and the scoring leaves all entries. -/
def liveEnv : PruneEnv Empty where
  toPyFormat := noFloats
  sha256 _ := []
  resolvePath path := path
  casefold name := name
  knownServerKeys _ := []
  configuredServerKeys := []
  lawful := Json.noFloats_lawful
  resolveMcpServerAndTool _ := (['s'], ['t'])
  fusedOrder _ rows := rows.map Prod.fst
  validateJsonSchema _ _ := true
  toolsEnabled := true
  injectsHere := true
  tierMode := .live
  tierForTool := (Dict.empty.set "unknown:h".toList Tier.extraHot).set "unknown:d".toList .dormant
  outputPolicies _ := ⟨fun _ => false, fun _ => false, fun tools => tools, fun entries => entries⟩
  mergeToolsPreservingOrder := mergeStashedFirst
  runCatalogPruning entries _ _ := .ok entries

/-- A request with tools of the given names. -/
def namedCall (names : List Text) : PruneCall Empty where
  originalTools := names.map fun name => [(nameKey, .str name)]
  query := ['q']
  toolsToCatalogEntries tools := (tools, [])
  mergedToApiTools := none
  examplesConfig := ⟨false, false, [], false, 0, false, 0, 0⟩
  projectRoot := none
  projectMs := 0
  examples := Store.empty

theorem textNamed_namedCall (names : List Text) :
    ∀ tool ∈ (namedCall names).originalTools, TextNamed tool := by
  intro tool htool v hv
  obtain ⟨name, -, rfl⟩ := List.mem_map.mp htool
  exact ⟨name, (Option.some.inj hv).symm⟩

/-- With an eligible tool in the request, the hottest one comes out once and the dormant one does
not. -/
theorem eligibleTool_shaped : ∃ result out,
    filterToolsForQuery liveEnv (namedCall [['a'], ['h'], ['d']]) = some result ∧
      result.tools = some out ∧
      TiersShape noFloats liveEnv.tierForTool
        (namedCall [['a'], ['h'], ['d']]).originalTools out := by
  have hstatus : (filterToolsForQuery liveEnv (namedCall [['a'], ['h'], ['d']])).map
      (fun result => result.status) = some .applied := by decide +kernel
  obtain ⟨result, hresult, happlied⟩ := map_eq_some_iff.mp hstatus
  obtain ⟨out, hout, hiff⟩ := tiersShape_applied_iff liveEnv (namedCall [['a'], ['h'], ['d']])
    mergesInOrder_mergeStashedFirst (textNamed_namedCall _) (by decide +kernel) rfl hresult
    happlied
  have hsome : ¬ NoneEligible liveEnv (namedCall [['a'], ['h'], ['d']]).originalTools := by
    intro hnone
    have heligible := hnone [(nameKey, .str ['a'])] mem_cons_self
    revert heligible
    decide +kernel
  refine ⟨result, out, hresult, hout, hiff.mpr ⟨fun hnil => ?_, fun hnone => absurd hnone hsome,
    fun hnone => absurd hnone hsome⟩⟩
  have hlength : (catalogEntries liveEnv (namedCall [['a'], ['h'], ['d']])).1.isEmpty = false := by
    decide +kernel
  rw [hnil] at hlength
  cases hlength

/-- A policy that lets `a` through. -/
def passingEnv : PruneEnv Empty :=
  { liveEnv with
    outputPolicies := fun _ =>
      ⟨fun _ => false, fun name => name == ['a'],
        fun tools => tools.filter fun tool => toolName noFloats tool != ['a'],
        fun entries => entries⟩ }

theorem exists_applied {env : PruneEnv φ} {call : PruneCall φ} {names : List Text}
    (h : ((filterToolsForQuery env call).map fun result =>
      (result.status, result.tools.map fun out => out.map (toolName env))) =
        some (.applied, some names)) :
    ∃ result out, filterToolsForQuery env call = some result ∧ result.status = .applied ∧
      result.tools = some out ∧ out.map (toolName env) = names := by
  obtain ⟨result, hresult, heq⟩ := map_eq_some_iff.mp h
  obtain ⟨hstatus, htools⟩ := Prod.mk.inj heq
  obtain ⟨out, hout, hnames⟩ := map_eq_some_iff.mp htools
  exact ⟨result, out, hresult, hstatus, hout, hnames⟩

/-- Where the only tool is dormant, it is scored like any other and comes out; and where the only
eligible tool passes by policy, it comes out alone and the hottest tool is lost. -/
theorem tiers_not_kept :
    (∃ result out, filterToolsForQuery liveEnv (namedCall [['d']]) = some result ∧
      result.status = .applied ∧ result.tools = some out ∧
      ¬ TiersShape noFloats liveEnv.tierForTool (namedCall [['d']]).originalTools out) ∧
    ∃ result out, filterToolsForQuery passingEnv (namedCall [['a'], ['h']]) = some result ∧
      result.status = .applied ∧ result.tools = some out ∧
      ¬ TiersShape noFloats passingEnv.tierForTool
        (namedCall [['a'], ['h']]).originalTools out := by
  have hdormant : tierByMap noFloats liveEnv.tierForTool [(nameKey, .str ['d'])] = .dormant := rfl
  have hhot : tierByMap noFloats passingEnv.tierForTool [(nameKey, .str ['h'])] = .extraHot := rfl
  constructor
  · obtain ⟨result, out, hresult, hstatus, hout, hnames⟩ :=
      @exists_applied _ liveEnv (namedCall [['d']]) [['d']] (by decide +kernel)
    refine ⟨result, out, hresult, hstatus, hout, fun hshape => ?_⟩
    refine hshape.dormant_absent _ mem_cons_self hdormant ?_
    exact hnames ▸ mem_cons_self
  · obtain ⟨result, out, hresult, hstatus, hout, hnames⟩ :=
      @exists_applied _ passingEnv (namedCall [['a'], ['h']]) [['a']] (by decide +kernel)
    refine ⟨result, out, hresult, hstatus, hout, fun hshape => ?_⟩
    have honce := hshape.extraHot_once _ (mem_cons_of_mem _ mem_cons_self) hhot
    have hlost : List.count ['h'] (out.map (toolName passingEnv)) = 0 := by
      rw [hnames]
      rfl
    exact Nat.one_ne_zero (honce.symm.trans hlost)

end ClearYourTools.Pruners
