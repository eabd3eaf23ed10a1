import ClearYourTools.Pruners.Proofs.SchemaContract
import ClearYourTools.Pruners.Proofs.TierOutput

/-!
# Tools of one name from different sources

The tiers know a tool by its source and name, the policies, the pruned tools and the merges by its
name alone.
-/

namespace ClearYourTools.Pruners

open Misc CytClient Tiers ToolExamples List Option
open Proxy (toolName mergeApiToolOntoOriginal nameKey descriptionKey)
open Json (get? PyFormat strOr)

variable {φ : Type} {p : PyFormat φ}

/-- Tools that are named by texts and have distinct entity ids. -/
structure DistinctTools (p : PyFormat φ) (tools : List (Record φ)) : Prop where
  textNamed : ∀ tool ∈ tools, TextNamed tool
  identified : AllIdentified p tools
  nodup : (tools.map (recordEntityId p)).Nodup

variable {tools : List (Record φ)} {a b : Record φ}

theorem eq_of_entityId_eq (h : DistinctTools p tools) (ha : a ∈ tools) (hb : b ∈ tools)
    (heq : recordEntityId p a = recordEntityId p b) : a = b :=
  inj_on_of_nodup_map h.nodup ha hb heq

variable {tool : Record φ}

theorem givenName_ne_nil (h : recordEntityId p tool ≠ []) : givenName p tool ≠ [] := by
  intro hnil
  refine h ?_
  unfold recordEntityId toolEntityId
  rw [hnil]
  rfl

/-- A tool as it is prepared for its tier. -/
def prepared (env : PruneEnv φ) (tool : Record φ) : Record φ :=
  prepareToolForTierPipeline env tool (tierByMap env env.tierForTool tool)

theorem get?_prepared_of_not_mem (env : PruneEnv φ) (tool : Record φ) {key : Text}
    (h : key ∉ stageKeys) : get? (prepared env tool) key = get? tool key := by
  rw [prepared, prepareToolForTierPipeline_eq, get?_stampToolDualSchema_of_not_mem _ _ h]

theorem recordEntityId_prepared (env : PruneEnv φ) (tool : Record φ) :
    recordEntityId env (prepared env tool) = recordEntityId env tool :=
  recordEntityId_congr fun _ hkey => get?_prepared_of_not_mem env tool hkey

theorem givenName_congr (h : get? a nameKey = get? b nameKey) : givenName p a = givenName p b := by
  unfold givenName strOr
  rw [h]

theorem get?_name_prepared (env : PruneEnv φ) (tool : Record φ) :
    get? (prepared env tool) nameKey = get? tool nameKey :=
  get?_prepared_of_not_mem env tool (by decide)

theorem givenName_prepared (env : PruneEnv φ) (tool : Record φ) :
    givenName env (prepared env tool) = givenName env tool :=
  givenName_congr (get?_name_prepared env tool)

/-- What the scoring stages keep: tools of the pool, each with the tool that it becomes. -/
structure Keeps (env : PruneEnv φ) (call : PruneCall φ) (merged : List (Record φ))
    (kept : List (Record φ × Record φ)) : Prop where
  api : apiTools env call merged = kept.map Prod.snd
  pool : ∀ pair ∈ kept, pair.1 ∈ toolsForPrune env call.originalTools
  name : ∀ pair ∈ kept, toolName env pair.2 = toolName env pair.1

/-- A tool of the catalog as it is prepared, or with the description and the schema that the scoring
left of it. -/
def ShapedFrom (env : PruneEnv φ) (kept : List (Record φ × Record φ)) (tool out : Record φ) :
    Prop :=
  out = prepared env tool ∨
    ∃ apiTool, (prepared env tool, apiTool) ∈ kept ∧
      out = mergeApiToolOntoOriginal (prepared env tool) apiTool

/-- The tools that the scoring left, by name. -/
def prunedTools (env : PruneEnv φ) (call : PruneCall φ) (merged : List (Record φ)) :
    Dict Text (Record φ) :=
  prunedToolsByName env (toolsForPrune env call.originalTools)
    (apiTools env call merged)

/-- The tools after the merge of the SDK. -/
def pooledTools (env : PruneEnv φ) (call : PruneCall φ) (merged : List (Record φ)) :
    List (Record φ) :=
  env.mergeToolsPreservingOrder (toolsForPrune env call.originalTools)
    (prunedTools env call merged) (stashedTools env call)

/-- The tools after the two merges of `_finalize_applied_prune_result`. -/
def leftTools (env : PruneEnv φ) (call : PruneCall φ) (merged : List (Record φ)) :
    List (Record φ) :=
  mergeT4Tools env (pooledTools env call merged)
    (tierApply env call.originalTools).t4Direct

/-- Tools of one name are kept apart: a policy is that of the tier of the tool, what is left is
shaped from different tools, those of the hottest tier among them, and stamped with their tiers. -/
structure KeptApart (env : PruneEnv φ) (call : PruneCall φ) (merged : List (Record φ))
    (kept : List (Record φ × Record φ)) : Prop where
  policies : ∀ tool ∈ (tierApply env call.originalTools).eligibleTools,
    (tierApply env call.originalTools).policyOverrides.get? (givenName env tool) =
      tierPolicy (tierByMap env env.tierForTool tool)
  shaped : ∃ sources : List (Record φ), sources.Nodup ∧ sources ⊆ call.originalTools ∧
    List.Forall₂ (ShapedFrom env kept) sources (leftTools env call merged) ∧
    ∀ tool ∈ call.originalTools, tierByMap env env.tierForTool tool = .extraHot → tool ∈ sources
  stamped : mergedPrunedTools env call merged (stashedTools env call) =
    (leftTools env call merged).map fun tool => Json.set tool injectionTierKey
      (.str (injectionTierAttr (tierLabelForPipeline (tierByMap env env.tierForTool tool))))

/-- No tool of the hottest tier has a name. -/
def NoneHot (env : PruneEnv φ) (tools : List (Record φ)) (name : Text) : Prop :=
  ∀ hot ∈ tools, isExtraHot env env.tierForTool hot = true →
    givenName env hot ≠ name

/-- The names tell the tools apart: those of the hottest tier have distinct names, the last tool of
a name that is not dormant has the tier of the eligible ones of that name, and tools of the pool
share a name only with a tool of the hottest tier. -/
structure NamesTold (env : PruneEnv φ) (tools : List (Record φ)) : Prop where
  direct : ∀ a ∈ tools, ∀ b ∈ tools, isExtraHot env env.tierForTool a = true →
    isExtraHot env env.tierForTool b = true →
    givenName env a = givenName env b → a = b
  policies : ∀ tool ∈ tools, isEligible env env.tierForTool tool = true →
    ∀ last ∈ lastNamed env
      (tools.filter fun other => !isDormant env env.tierForTool other)
      (givenName env tool),
      tierByMap env env.tierForTool last = tierByMap env env.tierForTool tool
  pool : ∀ a ∈ poolTools env tools, ∀ b ∈ poolTools env tools,
    givenName env a = givenName env b →
    NoneHot env tools (givenName env a) → a = b

theorem recordEntityId_mergeApiToolOntoOriginal (original apiTool : Record φ) :
    recordEntityId p (mergeApiToolOntoOriginal original apiTool) = recordEntityId p original := by
  unfold recordEntityId givenName strOr
  rw [Proxy.get?_mergeApiToolOntoOriginal (by decide) (by decide),
    Proxy.get?_mergeApiToolOntoOriginal (by decide) (by decide),
    Proxy.get?_mergeApiToolOntoOriginal (by decide) (by decide)]

variable {env : PruneEnv φ} {call : PruneCall φ}

variable {kept : List (Record φ × Record φ)} {out : Record φ}

theorem ShapedFrom.entityId (h : ShapedFrom env kept tool out) :
    recordEntityId env out = recordEntityId env tool := by
  rcases h with rfl | ⟨apiTool, -, rfl⟩
  · exact recordEntityId_prepared env tool
  · rw [recordEntityId_mergeApiToolOntoOriginal, recordEntityId_prepared]

theorem ShapedFrom.name (h : ShapedFrom env kept tool out) :
    givenName env out = givenName env tool := by
  rcases h with rfl | ⟨apiTool, -, rfl⟩
  · exact givenName_prepared env tool
  · rw [givenName_congr (get?_name_mergeApiToolOntoOriginal _ _), givenName_prepared]

structure LiveTools (env : PruneEnv φ) (call : PruneCall φ) : Prop where
  merges : MergesInOrder env env.mergeToolsPreservingOrder
  active : env.toolsTierPromptEvalActive = true
  live : env.tierMode = .live
  distinct : DistinctTools env call.originalTools

section

variable (h : LiveTools env call)
include h

theorem LiveTools.toolsForPrune_eq :
    toolsForPrune env call.originalTools = (poolTools env call.originalTools).map (prepared env) := by
  rw [toolsForPrune_live h.active h.live, prepareToolsForTierPipeline]
  refine map_congr_left fun tool htool => ?_
  rw [tierApply_live h.active h.live, prepared,
    tierByMap_tierByTool h.distinct.identified ((poolTools_sublist _).subset htool) rfl]

theorem LiveTools.t4Direct_eq :
    (tierApply env call.originalTools).t4Direct =
      (call.originalTools.filter (isExtraHot env env.tierForTool)).map (prepared env) := by
  rw [tierApply_live h.active h.live, t4Direct_live]
  refine map_congr_left fun tool htool => ?_
  rw [prepared, isExtraHot_iff.mp (mem_filter.mp htool).2]

variable (htool : tool ∈ call.originalTools)
include htool

theorem LiveTools.textNamed_prepared : TextNamed (prepared env tool) :=
  (h.distinct.textNamed tool htool).congr (get?_name_prepared env tool)

theorem LiveTools.toolName_prepared : toolName env (prepared env tool) = givenName env tool := by
  rw [← (h.textNamed_prepared htool).givenName_eq, givenName_prepared]

theorem LiveTools.name_ne_nil : givenName env tool ≠ [] :=
  givenName_ne_nil (h.distinct.identified tool htool)

end

variable {name : Text}

theorem LiveTools.stashed (h : LiveTools env call)
    (hget : (stashedTools env call).get? name = some out) :
    ∃ tool ∈ poolTools env call.originalTools, givenName env tool = name ∧
      out = prepared env tool := by
  unfold stashedTools stashPassThroughTools at hget
  obtain ⟨stashed, hstashed, heq⟩ := List.mem_map.mp (Dict.mem_of_get?_writeAll_empty hget)
  obtain ⟨rfl, rfl⟩ := Prod.mk.inj heq
  have hin := (mem_filter.mp (mem_filter.mp hstashed).1).1
  rw [h.toolsForPrune_eq] at hin
  obtain ⟨tool, htool, rfl⟩ := List.mem_map.mp hin
  exact ⟨tool, htool, (h.toolName_prepared ((poolTools_sublist _).subset htool)).symm, rfl⟩

theorem mem_of_originalToolsByName {original : Record φ}
    (h : (originalToolsByName p tools).get? name = some original) :
    original ∈ tools ∧ toolName p original = name := by
  unfold originalToolsByName at h
  obtain ⟨tool, htool, heq⟩ := List.mem_map.mp (Dict.mem_of_get?_writeAll_empty h)
  obtain ⟨rfl, rfl⟩ := Prod.mk.inj heq
  exact ⟨(mem_filter.mp htool).1, rfl⟩

theorem LiveTools.textNamed_pool (h : LiveTools env call) :
    ∀ tool ∈ toolsForPrune env call.originalTools, TextNamed tool :=
  textNamed_toolsForPrune h.active h.live h.distinct.textNamed

theorem LiveTools.original (h : LiveTools env call) {source : Record φ}
    (hsource : source ∈ poolTools env call.originalTools) :
    ∃ tool ∈ poolTools env call.originalTools,
      givenName env tool = givenName env source ∧
        (originalToolsByName env (toolsForPrune env call.originalTools)).get?
          (givenName env source) = some (prepared env tool) := by
  have hin := (@poolTools_sublist _ env call.originalTools).subset hsource
  have hname : givenName env source ∈ toolNames env (toolsForPrune env call.originalTools) := by
    refine mem_toolNames.mpr ⟨h.name_ne_nil hin, prepared env source, ?_, h.toolName_prepared hin⟩
    rw [h.toolsForPrune_eq]
    exact List.mem_map_of_mem hsource
  obtain ⟨original, hget, -⟩ := exists_originalToolsByName h.textNamed_pool hname
  obtain ⟨horiginal, hnamed⟩ := mem_of_originalToolsByName hget
  rw [h.toolsForPrune_eq] at horiginal
  obtain ⟨tool, htool, rfl⟩ := List.mem_map.mp horiginal
  rw [h.toolName_prepared ((poolTools_sublist _).subset htool)] at hnamed
  exact ⟨tool, htool, hnamed, hget⟩

variable {merged : List (Record φ)}

theorem LiveTools.pruned (h : LiveTools env call) (hkept : Keeps env call merged kept)
    (hget : (prunedTools env call merged).get? name = some out) :
    ∃ tool ∈ poolTools env call.originalTools, ∃ source ∈ poolTools env call.originalTools,
      ∃ apiTool, givenName env tool = name ∧ givenName env source = name ∧
        (prepared env source, apiTool) ∈ kept ∧
        out = mergeApiToolOntoOriginal (prepared env tool) apiTool := by
  unfold prunedTools prunedToolsByName at hget
  obtain ⟨apiTool, hapi, heq⟩ := List.mem_map.mp (Dict.mem_of_get?_writeAll_empty hget)
  obtain ⟨hname, hout⟩ := Prod.mk.inj heq
  rw [hkept.api] at hapi
  obtain ⟨⟨kept, apiTool⟩, hpair, rfl⟩ := List.mem_map.mp (mem_filter.mp hapi).1
  have hin := hkept.pool _ hpair
  rw [h.toolsForPrune_eq] at hin
  obtain ⟨source, hsource, rfl⟩ := List.mem_map.mp hin
  have hsourceName : givenName env source = name := by
    rw [← hname, hkept.name _ hpair, h.toolName_prepared ((poolTools_sublist _).subset hsource)]
  obtain ⟨tool, htool, hnamed, horiginal⟩ := h.original hsource
  rw [hname, ← hsourceName, horiginal] at hout
  exact ⟨tool, htool, source, hsource, apiTool, hnamed.trans hsourceName, hsourceName, hpair,
    hout.symm⟩

theorem LiveTools.picked (h : LiveTools env call) (hkept : Keeps env call merged kept)
    (honly : ∀ other ∈ poolTools env call.originalTools,
      givenName env other = givenName env tool → other = tool)
    (hpick : (stashedTools env call).get? (givenName env tool) = some out ∨
      (prunedTools env call merged).get? (givenName env tool) = some out) :
    ShapedFrom env kept tool out := by
  rcases hpick with hstashed | hpruned
  · obtain ⟨other, hother, hname, rfl⟩ := h.stashed hstashed
    rw [honly other hother hname]
    exact .inl rfl
  · obtain ⟨other, hother, source, hsource, apiTool, hname, hsourceName, hin, rfl⟩ :=
      h.pruned hkept hpruned
    obtain rfl := honly other hother hname
    obtain rfl := honly source hsource hsourceName
    exact .inr ⟨apiTool, hin, rfl⟩

theorem LiveTools.pooled (h : LiveTools env call) (merged : List (Record φ)) :
    ∃ pick : Record φ → Option (Record φ),
      pooledTools env call merged = (poolTools env call.originalTools).filterMap pick ∧
      ∀ tool ∈ poolTools env call.originalTools,
        pick tool = ((stashedTools env call).get? (givenName env tool)).or
            ((prunedTools env call merged).get? (givenName env tool)) ∨
          pick tool = ((prunedTools env call merged).get? (givenName env tool)).or
            ((stashedTools env call).get? (givenName env tool)) := by
  obtain ⟨pick, heq, hpick⟩ := h.merges.picks (toolsForPrune env call.originalTools)
    (prunedTools env call merged) (stashedTools env call) h.textNamed_pool
  refine ⟨pick ∘ prepared env, ?_, fun tool htool => ?_⟩
  · rw [pooledTools, heq, h.toolsForPrune_eq, filterMap_map]
  · have hin := (@poolTools_sublist _ env call.originalTools).subset htool
    have hprepared : prepared env tool ∈ toolsForPrune env call.originalTools := by
      rw [h.toolsForPrune_eq]
      exact List.mem_map_of_mem htool
    have hboth := (hpick _ hprepared).2
    rw [h.toolName_prepared hin] at hboth
    exact hboth (h.name_ne_nil hin)

theorem or_of_or_eq_some {α : Type} {a b : Option α} {x : α} {picked : Option α}
    (h : picked = a.or b ∨ picked = b.or a) (hx : picked = some x) : a = some x ∨ b = some x := by
  subst hx
  rcases h with h | h
  · exact (or_eq_some_iff.mp h.symm).imp_right And.right
  · exact (or_eq_some_iff.mp h.symm).symm.imp_left And.right

variable (h : LiveTools env call)

include h

theorem LiveTools.name_found (hkept : Keeps env call merged kept)
    (hget : (stashedTools env call).get? name = some out ∨
      (prunedTools env call merged).get? name = some out) :
    givenName env out = name := by
  rcases hget with hstashed | hpruned
  · obtain ⟨tool, -, rfl, rfl⟩ := h.stashed hstashed
    exact givenName_prepared env tool
  · obtain ⟨tool, -, -, -, apiTool, rfl, -, -, rfl⟩ := h.pruned hkept hpruned
    rw [givenName_congr (get?_name_mergeApiToolOntoOriginal _ _), givenName_prepared]

theorem LiveTools.shaped_pooled (htold : NamesTold env call.originalTools)
    (hkept : Keeps env call merged kept) (htool : tool ∈ poolTools env call.originalTools)
    (hpick : (stashedTools env call).get? (givenName env tool) = some out ∨
      (prunedTools env call merged).get? (givenName env tool) = some out)
    (hnone : NoneHot env call.originalTools (givenName env tool)) :
    ShapedFrom env kept tool out := by
  refine h.picked hkept (fun other hother hname => ?_) hpick
  exact htold.pool other hother tool htool hname (hname ▸ hnone)

theorem LiveTools.mem_t4Direct_iff :
    out ∈ (tierApply env call.originalTools).t4Direct ↔ ∃ tool ∈ call.originalTools,
      isExtraHot env env.tierForTool tool = true ∧ prepared env tool = out := by
  rw [h.t4Direct_eq, List.mem_map]
  simp only [mem_filter, and_assoc]

section

variable (htold : NamesTold env call.originalTools)
include htold

theorem LiveTools.shaped_left (hkept : Keeps env call merged kept)
    (hdirect : (tierApply env call.originalTools).t4Direct ≠ [])
    (hout : out ∈ leftTools env call merged) :
    ∃ tool, tool ∈ call.originalTools ∧ ShapedFrom env kept tool out := by
  obtain ⟨hname, hlast⟩ := (mem_mergeT4Tools hdirect).mp hout
  rw [lastNamed_append] at hlast
  rcases or_eq_some_iff.mp hlast with hhot | ⟨hnone, hpooled⟩
  · obtain ⟨tool, htool, -, rfl⟩ := h.mem_t4Direct_iff.mp (mem_of_lastNamed hhot).1
    exact ⟨tool, htool, .inl rfl⟩
  obtain ⟨pick, heq, hpick⟩ := h.pooled merged
  rw [heq] at hpooled
  obtain ⟨tool, htool, hsome⟩ := mem_filterMap.mp (mem_of_lastNamed hpooled).1
  have hfound := or_of_or_eq_some (hpick tool htool) hsome
  refine ⟨tool, (poolTools_sublist _).subset htool,
    h.shaped_pooled htold hkept htool hfound fun hot hin hhot hhotName => ?_⟩
  -- a hot tool of that name would have been merged over it
  have hdirectHot : prepared env hot ∈ (tierApply env call.originalTools).t4Direct :=
    h.mem_t4Direct_iff.mpr ⟨hot, hin, hhot, rfl⟩
  obtain ⟨last, hlastHot⟩ := exists_lastNamed (p := env) hdirectHot
  rw [givenName_prepared, hhotName, ← h.name_found hkept hfound, hnone] at hlastHot
  cases hlastHot

theorem LiveTools.sources (hkept : Keeps env call merged kept) :
    ∃ sources : List (Record φ), sources.Nodup ∧
      List.Forall₂ (fun tool out => tool ∈ call.originalTools ∧ ShapedFrom env kept tool out)
        sources (leftTools env call merged) := by
  by_cases hdirect : (tierApply env call.originalTools).t4Direct = []
  · -- without hot tools, the pool is left as it is
    obtain ⟨pick, heq, hpick⟩ := h.pooled merged
    have hleft : leftTools env call merged = (poolTools env call.originalTools).filterMap pick := by
      rw [leftTools, hdirect, ← heq]
      rfl
    have hnodup : call.originalTools.Nodup := List.Nodup.of_map _ h.distinct.nodup
    have hnone : ∀ name, NoneHot env call.originalTools name := by
      intro name hot hin hhot
      have hmem := h.mem_t4Direct_iff.mpr ⟨hot, hin, hhot, rfl⟩
      rw [hdirect] at hmem
      cases hmem
    refine ⟨(poolTools env call.originalTools).filter fun tool => (pick tool).isSome,
      (hnodup.sublist (poolTools_sublist _)).filter _, ?_⟩
    rw [hleft]
    refine forall₂_filterMap pick fun tool htool out hout => ?_
    exact ⟨(poolTools_sublist _).subset htool, h.shaped_pooled htold hkept htool
      (or_of_or_eq_some (hpick tool htool) hout) (hnone _)⟩
  · obtain ⟨sources, hsources⟩ := exists_forall₂ fun out hout =>
      h.shaped_left htold hkept hdirect hout
    have hnames := map_eq_of_forall₂ (f := givenName env)
      (g := givenName env) hsources fun tool out hboth => hboth.2.name
    have hnodup := (mergeT4Tools_spec (p := env) (pooledTools env call merged) hdirect).1
    change ((leftTools env call merged).map _).Nodup at hnodup
    rw [hnames] at hnodup
    exact ⟨sources, List.Nodup.of_map _ hnodup, hsources⟩

theorem LiveTools.hot_left (merged : List (Record φ))
    (htool : tool ∈ call.originalTools) (hhot : isExtraHot env env.tierForTool tool = true) :
    prepared env tool ∈ leftTools env call merged := by
  have hmem := h.mem_t4Direct_iff.mpr ⟨tool, htool, hhot, rfl⟩
  refine (mem_mergeT4Tools (ne_nil_of_mem hmem)).mpr ⟨?_, ?_⟩
  · rw [givenName_prepared]
    exact h.name_ne_nil htool
  · obtain ⟨last, hlast⟩ := exists_lastNamed (p := env) hmem
    obtain ⟨hin, hname⟩ := mem_of_lastNamed hlast
    obtain ⟨other, hother, hotherHot, rfl⟩ := h.mem_t4Direct_iff.mp hin
    rw [givenName_prepared, givenName_prepared] at hname
    rw [lastNamed_append, hlast, htold.direct other hother tool htool hotherHot hhot hname]
    rfl

end

theorem LiveTools.tier_of_hot_name (hout : out ∈ leftTools env call merged)
    (hname : givenName env out ∈ (tierApply env call.originalTools).t4Direct.map (givenName env)) :
    tierByMap env env.tierForTool out = .extraHot := by
  obtain ⟨hot, hhot, heq⟩ := List.mem_map.mp hname
  obtain ⟨last, hlast⟩ := exists_lastNamed (p := env) hhot
  have hfound := ((mem_mergeT4Tools (ne_nil_of_mem hhot)).mp hout).2
  rw [lastNamed_append, ← heq, hlast, some_or] at hfound
  obtain rfl := Option.some.inj hfound
  obtain ⟨tool, -, htool, rfl⟩ := h.mem_t4Direct_iff.mp (mem_of_lastNamed hlast).1
  rw [tierByMap_congr (recordEntityId_prepared env tool)]
  exact isExtraHot_iff.mp htool

theorem LiveTools.stamped {sources : List (Record φ)}
    (hsources : List.Forall₂ (fun tool out => tool ∈ call.originalTools ∧
      ShapedFrom env kept tool out) sources (leftTools env call merged)) :
    mergedPrunedTools env call merged (stashedTools env call) =
      (leftTools env call merged).map fun tool => Json.set tool injectionTierKey
        (.str (injectionTierAttr (tierLabelForPipeline (tierByMap env env.tierForTool tool)))) := by
  have hmerged : mergedPrunedTools env call merged (stashedTools env call) =
      stampToolInjectionTiers env (leftTools env call merged)
        (tierApply env call.originalTools).tierByTool
        (((tierApply env call.originalTools).t4Direct.map (givenName env)).filter
          fun name => !name.isEmpty) := rfl
  rw [hmerged, stampToolInjectionTiers]
  refine map_congr_left fun out hout => ?_
  obtain ⟨tool, -, htool, hshaped⟩ := exists_of_forall₂_left hsources.flip hout
  have htier : tierByMap env (tierApply env call.originalTools).tierByTool out =
      tierByMap env env.tierForTool out := by
    rw [tierApply_live h.active h.live, tierByMap_tierByTool h.distinct.identified htool
      hshaped.entityId, tierByMap_congr hshaped.entityId]
  dsimp only
  split
  · rename_i hcontains
    rw [contains_iff_mem] at hcontains
    rw [h.tier_of_hot_name hout (mem_filter.mp hcontains).1]
    rfl
  · rw [htier]

theorem LiveTools.eligibleTools_eq :
    (tierApply env call.originalTools).eligibleTools =
      call.originalTools.filter (isEligible env env.tierForTool) := by
  rw [tierApply_live h.active h.live, eligibleTools_live]

/-- The policies are those of the tiers if and only if the last tools of the names say so. -/
theorem LiveTools.policies_iff :
    (∀ tool ∈ (tierApply env call.originalTools).eligibleTools,
      (tierApply env call.originalTools).policyOverrides.get? (givenName env tool) =
        tierPolicy (tierByMap env env.tierForTool tool)) ↔
      ∀ tool ∈ call.originalTools, isEligible env env.tierForTool tool = true →
        ∀ last ∈ lastNamed env (call.originalTools.filter fun other =>
            !isDormant env env.tierForTool other) (givenName env tool),
          tierByMap env env.tierForTool last = tierByMap env env.tierForTool tool := by
  rw [h.eligibleTools_eq, tierApply_live h.active h.live]
  have hone : ∀ tool ∈ call.originalTools, isEligible env env.tierForTool tool = true →
      ((applyToolTiers env call.originalTools env.tierForTool true).policyOverrides.get?
          (givenName env tool) =
        tierPolicy (tierByMap env env.tierForTool tool) ↔
      ∀ last ∈ lastNamed env (call.originalTools.filter fun other =>
          !isDormant env env.tierForTool other) (givenName env tool),
        tierByMap env env.tierForTool last = tierByMap env env.tierForTool tool) := by
    intro tool htool heligible
    have hawake : isDormant env env.tierForTool tool = false := by
      refine eq_false_of_ne_true fun hdormant => ?_
      exact (isEligible_iff.mp heligible).1 (isDormant_iff.mp hdormant)
    have hmem : tool ∈ call.originalTools.filter fun other =>
        !isDormant env env.tierForTool other := by
      refine mem_filter.mpr ⟨htool, ?_⟩
      rw [hawake]
      rfl
    obtain ⟨last, hlast⟩ := exists_lastNamed (p := env) hmem
    rw [get?_policyOverrides h.distinct.identified, hlast, bind_some]
    constructor
    · rintro hpolicy _ ⟨⟩
      exact eq_of_tierPolicy_eq hpolicy
    · intro hall
      rw [hall last rfl]
  constructor
  · intro hall tool htool heligible
    exact (hone tool htool heligible).mp (hall tool (mem_filter.mpr ⟨htool, heligible⟩))
  · intro hall tool htool
    obtain ⟨hin, heligible⟩ := mem_filter.mp htool
    exact (hone tool hin heligible).mpr (hall tool hin heligible)

theorem keptApart_of_namesTold (htold : NamesTold env call.originalTools)
    (hkept : Keeps env call merged kept) : KeptApart env call merged kept := by
  obtain ⟨sources, hnodup, hsources⟩ := h.sources htold hkept
  refine ⟨h.policies_iff.mpr htold.policies, ⟨sources, hnodup, ?_, ?_, ?_⟩, h.stamped hsources⟩
  · intro tool htool
    obtain ⟨out, -, hin, -⟩ := exists_of_forall₂_left hsources htool
    exact hin
  · exact hsources.imp fun _ _ => And.right
  · intro tool htool hhot
    have hout := h.hot_left htold merged htool (isExtraHot_iff.mpr hhot)
    obtain ⟨source, hsource, hin, hshaped⟩ := exists_of_forall₂_left hsources.flip hout
    have hid := hshaped.entityId
    rw [recordEntityId_prepared] at hid
    rw [eq_of_entityId_eq h.distinct htool hin hid]
    exact hsource

omit h

/-- The same tiers with other policies. -/
def PruneEnv.withPolicies (env : PruneEnv φ) (policies : Dict Text Text → PolicyContext φ) :
    PruneEnv φ :=
  { env with outputPolicies := policies }

/-- Policies that let no tool through. -/
def nonePass (φ : Type) : Dict Text Text → PolicyContext φ := fun _ =>
  ⟨fun _ => false, fun _ => false, fun tools => tools, fun entries => entries⟩

/-- A request whose scoring leaves some tools. -/
def scoredCall (tools left : List (Record φ)) : PruneCall φ where
  originalTools := tools
  query := ['q']
  toolsToCatalogEntries tools := (tools, [])
  mergedToApiTools := some fun _ => left
  examplesConfig := ⟨false, false, [], false, 0, false, 0, 0⟩
  projectRoot := none
  projectMs := 0
  examples := Store.empty

theorem stashedTools_nonePass (call : PruneCall φ) (name : Text) :
    (stashedTools (env.withPolicies (nonePass φ)) call).get? name = none := by
  have hnone : ∀ tools : List (Record φ), tools.filter (fun _ => false) = [] :=
    fun tools => filter_eq_nil_iff.mpr fun _ _ => Bool.false_ne_true
  unfold stashedTools stashPassThroughTools
  dsimp only
  change (Dict.empty.writeAll (((_ : List (Record φ)).filter fun _ => false).map _)).get? name = none
  rw [hnone]
  rfl

theorem get?_description_mergeApiToolOntoOriginal (original : Record φ) {apiTool : Record φ}
    {description : Json φ} (h : get? apiTool descriptionKey = some description) :
    get? (mergeApiToolOntoOriginal original apiTool) descriptionKey = some description := by
  rw [mergeApiToolOntoOriginal, h]
  simp only [Proxy.toolSchemaKeys, foldl_cons, foldl_nil]
  rw [Proxy.get?_overlaySchema (by decide), Proxy.get?_overlaySchema (by decide),
    Proxy.get?_overlaySchema (by decide), Json.get?_set_self]

theorem LiveTools.direct_of_keptApart (h : LiveTools env call)
    (hapart : KeptApart env call merged kept) (ha : a ∈ call.originalTools)
    (hb : b ∈ call.originalTools) (hahot : isExtraHot env env.tierForTool a = true)
    (hbhot : isExtraHot env env.tierForTool b = true)
    (hname : givenName env a = givenName env b) : a = b := by
  obtain ⟨sources, -, -, hshaped, hhot⟩ := hapart.shaped
  obtain ⟨outA, houtA, hshapedA⟩ :=
    exists_of_forall₂_left hshaped (hhot a ha (isExtraHot_iff.mp hahot))
  obtain ⟨outB, houtB, hshapedB⟩ :=
    exists_of_forall₂_left hshaped (hhot b hb (isExtraHot_iff.mp hbhot))
  have hdirect : (tierApply env call.originalTools).t4Direct ≠ [] :=
    ne_nil_of_mem (h.mem_t4Direct_iff.mpr ⟨a, ha, hahot, rfl⟩)
  have hnodup := (mergeT4Tools_spec (p := env) (pooledTools env call merged) hdirect).1
  have heq : outA = outB := inj_on_of_nodup_map hnodup houtA houtB
    (by rw [hshapedA.name, hshapedB.name, hname])
  refine eq_of_entityId_eq h.distinct ha hb ?_
  rw [← hshapedA.entityId, heq, hshapedB.entityId]

/-- What the API has for a tool that the scoring left, with another description than a tool has. -/
def redescribed (name : Text) (tool : Record φ) : Record φ :=
  [(nameKey, .str name),
    (descriptionKey,
      match get? tool descriptionKey with
      | some .null => .bool true
      | _ => .null)]

theorem description_redescribed (name : Text) (tool : Record φ) :
    get? (redescribed name tool) descriptionKey ≠ get? tool descriptionKey := by
  have hget : get? (redescribed name tool) descriptionKey =
      some (match get? tool descriptionKey with
        | some .null => .bool true
        | _ => .null) := rfl
  rw [hget]
  split
  · rename_i heq
    rw [heq]
    exact fun h => by cases h
  · rename_i hnot
    exact fun h => hnot h.symm

theorem mergeApiToolOntoOriginal_redescribed_ne (name : Text) (tool : Record φ) :
    mergeApiToolOntoOriginal tool (redescribed name tool) ≠ tool := by
  intro heq
  have hdescription := @get?_description_mergeApiToolOntoOriginal _ tool (redescribed name tool) _
    rfl
  rw [heq] at hdescription
  exact description_redescribed name tool hdescription.symm

theorem LiveTools.pruned_single (h : LiveTools env call) {apiTool source : Record φ}
    (hsource : source ∈ call.originalTools) (hapi : apiTools env call merged = [apiTool])
    (hname : toolName env apiTool = givenName env source) (horiginal : (originalToolsByName env
      (toolsForPrune env call.originalTools)).get? (givenName env source) =
        some (prepared env tool)) :
    (prunedTools env call merged).get? (givenName env source) =
      some (mergeApiToolOntoOriginal (prepared env tool) apiTool) := by
  have hne : (toolName env apiTool).isEmpty = false := by
    rw [hname]
    exact isEmpty_eq_false_iff.mpr (h.name_ne_nil hsource)
  unfold prunedTools prunedToolsByName
  rw [hapi, filter_singleton, hne]
  change (Dict.empty.set _ _).get? _ = _
  dsimp only
  rw [hname, horiginal, Dict.get?_set_self]

/-- Under a name that no tool of the hottest tier has, what is left is the one tool that is pruned
under it, if nothing passes through. -/
theorem LiveTools.left_of_pruned (h : LiveTools env call) (hkept : Keeps env call merged kept)
    (hstash : ∀ name, (stashedTools env call).get? name = none)
    (htool : tool ∈ poolTools env call.originalTools)
    (hpruned : (prunedTools env call merged).get? (givenName env tool) = some out)
    (hnone : NoneHot env call.originalTools (givenName env tool)) :
    out ∈ leftTools env call merged := by
  obtain ⟨pick, heq, hpick⟩ := h.pooled merged
  have hpicked : ∀ other ∈ poolTools env call.originalTools, pick other =
      (prunedTools env call merged).get? (givenName env other) := by
    intro other hother
    rcases hpick other hother with hor | hor
    · rw [hor, hstash, none_or]
    · rw [hor, hstash, or_none]
  have hin : out ∈ pooledTools env call merged := by
    rw [heq]
    exact mem_filterMap.mpr ⟨tool, htool, (hpicked tool htool).trans hpruned⟩
  by_cases hdirect : (tierApply env call.originalTools).t4Direct = []
  · rw [leftTools, hdirect]
    exact hin
  have hname := h.name_found hkept (.inr hpruned)
  refine (mem_mergeT4Tools hdirect).mpr ⟨?_, ?_⟩
  · rw [hname]
    exact h.name_ne_nil ((poolTools_sublist _).subset htool)
  · have hcold : lastNamed env (tierApply env call.originalTools).t4Direct
        (givenName env out) = none := by
      refine eq_none_iff_forall_ne_some.mpr fun last hlast => ?_
      obtain ⟨hlastIn, hlastName⟩ := mem_of_lastNamed hlast
      obtain ⟨hot, hhotIn, hhot, rfl⟩ := h.mem_t4Direct_iff.mp hlastIn
      rw [givenName_prepared, hname] at hlastName
      exact hnone hot hhotIn hhot hlastName
    obtain ⟨last, hlast⟩ := exists_lastNamed (p := env) hin
    obtain ⟨hlastIn, hlastName⟩ := mem_of_lastNamed hlast
    rw [heq] at hlastIn
    obtain ⟨other, hother, hsome⟩ := mem_filterMap.mp hlastIn
    rw [hpicked other hother] at hsome
    have hotherName := h.name_found hkept (.inr hsome)
    rw [hlastName, hname] at hotherName
    rw [← hotherName, hpruned] at hsome
    rw [lastNamed_append, hcold, none_or, hlast, Option.some.inj hsome]

/-- Tools of the pool that share a name which no tool of the hottest tier has are not kept apart:
where the scoring leaves another than the last, its description comes out under the last. -/
theorem LiveTools.pool_of_keptApart (h : ∀ left, LiveTools env (scoredCall tools left))
    (hstash : ∀ call name, (stashedTools env call).get? name = none)
    (hapart : ∀ left kept, Keeps env (scoredCall tools left) [] kept →
      KeptApart env (scoredCall tools left) [] kept) (ha : a ∈ poolTools env tools)
    (hb : b ∈ poolTools env tools) (hname : givenName env a = givenName env b)
    (hnone : NoneHot env tools (givenName env a)) : a = b := by
  by_contra hne
  obtain ⟨last, hlast, hlastName, horiginal⟩ := (h []).original ha
  -- one of the two is not the last
  have hother : ∃ other ∈ poolTools env tools, other ≠ last ∧
      givenName env other = givenName env a := by
    by_cases heq : a = last
    · refine ⟨b, hb, fun hlastEq => hne (heq.trans hlastEq.symm), hname.symm⟩
    · exact ⟨a, ha, heq, rfl⟩
  obtain ⟨other, hotherIn, hotherNe, hotherName⟩ := hother
  have hsubset := (@poolTools_sublist _ env tools).subset
  let apiTool := redescribed (givenName env a) (prepared env last)
  have hlive := h [apiTool]
  have hkept : Keeps env (scoredCall tools [apiTool]) [] [(prepared env other, apiTool)] := by
    refine ⟨rfl, fun pair hpair => ?_, fun pair hpair => ?_⟩
    · obtain rfl := mem_singleton.mp hpair
      rw [hlive.toolsForPrune_eq]
      exact List.mem_map_of_mem hotherIn
    · obtain rfl := mem_singleton.mp hpair
      exact hotherName.symm.trans (hlive.toolName_prepared (hsubset hotherIn)).symm
  have hpruned : (prunedTools env (scoredCall tools [apiTool]) []).get?
      (givenName env a) = some (mergeApiToolOntoOriginal (prepared env last) apiTool) :=
    hlive.pruned_single (hsubset ha) rfl rfl horiginal
  have hleft := hlive.left_of_pruned hkept (hstash _) ha hpruned hnone
  obtain ⟨sources, -, hsources, hshaped, -⟩ := (hapart [apiTool] _ hkept).shaped
  obtain ⟨source, hsource, hfrom⟩ := exists_of_forall₂_left hshaped.flip hleft
  have hid := ShapedFrom.entityId hfrom
  rw [recordEntityId_mergeApiToolOntoOriginal, recordEntityId_prepared] at hid
  obtain rfl := eq_of_entityId_eq hlive.distinct (hsubset hlast) (hsources hsource) hid
  rcases hfrom with heq | ⟨api, hin, -⟩
  · exact mergeApiToolOntoOriginal_redescribed_ne _ _ heq
  · have hprepared := (Prod.mk.inj (mem_singleton.mp hin)).1
    have hidOther := congrArg (recordEntityId env) hprepared
    rw [recordEntityId_prepared, recordEntityId_prepared] at hidOther
    exact hotherNe (eq_of_entityId_eq hlive.distinct (hsubset hotherIn) (hsubset hlast)
      hidOther.symm)

/-- The tools of one name are kept apart in every pruning, whatever the policies and the scoring,
if and only if the names tell them apart. -/
theorem keptApart_iff (env : PruneEnv φ) {tools : List (Record φ)}
    (hmerges : MergesInOrder env env.mergeToolsPreservingOrder)
    (hactive : env.toolsTierPromptEvalActive = true) (hlive : env.tierMode = .live)
    (hdistinct : DistinctTools env tools) :
    (∀ policies call merged kept, call.originalTools = tools →
      Keeps (env.withPolicies policies) call merged kept →
      KeptApart (env.withPolicies policies) call merged kept) ↔ NamesTold env tools := by
  constructor
  · intro hall
    have htools : ∀ left, LiveTools (env.withPolicies (nonePass φ)) (scoredCall tools left) :=
      fun left => ⟨hmerges, hactive, hlive, hdistinct⟩
    have hnothing : Keeps (env.withPolicies (nonePass φ)) (scoredCall tools []) [] [] :=
      ⟨rfl, fun _ hpair => (by cases hpair), fun _ hpair => (by cases hpair)⟩
    have hapart := hall (nonePass φ) (scoredCall tools []) [] [] rfl hnothing
    constructor
    · intro a ha b hb hahot hbhot hname
      exact (htools []).direct_of_keptApart hapart ha hb hahot hbhot hname
    · exact (htools []).policies_iff.mp hapart.policies
    · intro a ha b hb hname hnone
      exact LiveTools.pool_of_keptApart htools stashedTools_nonePass
        (fun left kept hkept => hall _ _ _ _ rfl hkept) ha hb hname hnone
  · rintro htold policies call merged kept rfl hkept
    have htools : LiveTools (env.withPolicies policies) call := ⟨hmerges, hactive, hlive, hdistinct⟩
    exact keptApart_of_namesTold htools ⟨htold.direct, htold.policies, htold.pool⟩ hkept

theorem namesTold_of_nodup (env : PruneEnv φ) (h : (tools.map (givenName env)).Nodup) :
    NamesTold env tools := by
  have heq : ∀ a ∈ tools, ∀ b ∈ tools, givenName env a = givenName env b → a = b :=
    fun a ha b hb hname => inj_on_of_nodup_map h ha hb hname
  constructor
  · intro a ha b hb _ _ hname
    exact heq a ha b hb hname
  · intro tool htool _ last hlast
    obtain ⟨hin, hname⟩ := mem_of_lastNamed hlast
    rw [heq last (mem_filter.mp hin).1 tool htool hname]
  · intro a ha b hb hname _
    exact heq a ((poolTools_sublist _).subset ha) b ((poolTools_sublist _).subset hb) hname

/-- Live tiers where the search of the aggregator is `HOT`. -/
def hotSearchEnv : PruneEnv Empty :=
  { liveEnv with tierForTool := Dict.empty.set "cyt_mcp:search" .hot }

def fetchTool : Record Empty := [(nameKey, .str "fetch"), (catalogSourceKey, .str "executor")]

theorem textNamed_cons (fields : Record φ) : TextNamed ((nameKey, .str name) :: fields) := by
  intro v hv
  exact ⟨name, (Option.some.inj hv).symm⟩

theorem distinctTools_pair {p : PyFormat φ} {a b : Record φ} (ha : TextNamed a) (hb : TextNamed b)
    (hida : recordEntityId p a ≠ []) (hidb : recordEntityId p b ≠ [])
    (hnodup : ([a, b].map (recordEntityId p)).Nodup) : DistinctTools p [a, b] :=
  ⟨forall_mem_cons.mpr ⟨ha, forall_mem_singleton.mpr hb⟩,
    forall_mem_cons.mpr ⟨hida, forall_mem_singleton.mpr hidb⟩, hnodup⟩

theorem searchAndFetch_keptApart :
    NamesTold hotSearchEnv [aggregatorSearch, fetchTool] ∧
    ∀ policies call merged kept, call.originalTools = [aggregatorSearch, fetchTool] →
      Keeps (hotSearchEnv.withPolicies policies) call merged kept →
      KeptApart (hotSearchEnv.withPolicies policies) call merged kept := by
  have hdistinct : DistinctTools hotSearchEnv [aggregatorSearch, fetchTool] :=
    distinctTools_pair (textNamed_cons _) (textNamed_cons _) (by decide) (by decide) (by decide)
  have htold : NamesTold hotSearchEnv [aggregatorSearch, fetchTool] :=
    namesTold_of_nodup hotSearchEnv (by decide)
  exact ⟨htold,
    (keptApart_iff hotSearchEnv mergesInOrder_mergeStashedFirst rfl rfl hdistinct).mpr htold⟩

/-- The search of the executor puts its policy on that of the aggregator. -/
theorem searches_not_keptApart :
    DistinctTools hotSearchEnv [aggregatorSearch, executorSearch] ∧
    Keeps hotSearchEnv (scoredCall [aggregatorSearch, executorSearch] [executorSearch])
      [executorSearch] [(prepared hotSearchEnv executorSearch, executorSearch)] ∧
    ¬ KeptApart hotSearchEnv (scoredCall [aggregatorSearch, executorSearch] [executorSearch])
      [executorSearch] [(prepared hotSearchEnv executorSearch, executorSearch)] := by
  refine ⟨distinctTools_pair (textNamed_cons _) (textNamed_cons _) (by decide) (by decide)
    (by decide),
    ⟨rfl, fun pair hpair => ?_, fun pair hpair => ?_⟩, fun hapart => ?_⟩
  · obtain rfl := mem_singleton.mp hpair
    exact mem_cons_of_mem _ mem_cons_self
  · obtain rfl := mem_singleton.mp hpair
    rfl
  · have hpolicy := hapart.policies aggregatorSearch mem_cons_self
    revert hpolicy
    decide

end ClearYourTools.Pruners
