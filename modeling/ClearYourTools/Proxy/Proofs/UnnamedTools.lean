import ClearYourTools.Injection.Proofs.LogCorrespondence
import ClearYourTools.Proxy.Proofs.ToolPartition

/-!
# Unnamed tools over a session

The rebuilding of a tool array leaves the entries without a name as they are. The gate by the
session log comes after it and knows all of them under one key.
-/

namespace ClearYourTools.Proxy

open Misc CytClient Injection.SessionLog List

variable {φ : Type}

/-- The entries of an array that have no name. -/
def unnamedTools (p : Json.PyFormat φ) (tools : List (Fields φ)) : List (Fields φ) :=
  tools.filter (openaiToolPassThrough p)

section

variable {p : Json.PyFormat φ} {isMcp : Text → Bool}

theorem unnamedTools_sublist_filterMap {f : Fields φ → Option (Fields φ)}
    (hf : ∀ tool, openaiToolPassThrough p tool = true → f tool = some tool)
    (tools : List (Fields φ)) : (unnamedTools p tools).Sublist (tools.filterMap f) := by
  have hself : (unnamedTools p tools).filterMap f = unnamedTools p tools := by
    have hsome : ∀ tool ∈ unnamedTools p tools, f tool = some tool := fun tool htool =>
      hf tool (mem_filter.mp htool).2
    rw [filterMap_congr hsome, filterMap_some]
  rw [← hself]
  exact filter_sublist.filterMap f

theorem unnamedTools_sublist_merge (tools prunedNamed : List (Fields φ)) :
    (unnamedTools p tools).Sublist (mergePrunedOpenaiTools p tools prunedNamed) :=
  unnamedTools_sublist_filterMap (fun _ h => if_pos h) tools

theorem unnamedTools_sublist_split (tools : List (Fields φ))
    (prunedNamed : Option (List (Fields φ))) :
    (unnamedTools p tools).Sublist (openaiSplitForUserInject p isMcp tools prunedNamed).1 := by
  unfold openaiSplitForUserInject openaiAppendMcpStubs openaiToolsKeepSystemOnly
  exact (unnamedTools_sublist_filterMap (fun _ h => if_pos h) tools).trans (sublist_append_left _ _)

variable (request : OpenaiRequest φ)

section

variable (tools : List (Fields φ))

theorem unnamedTools_sublist_unpruned :
    (unnamedTools p tools).Sublist (request.unprunedTools p isMcp tools).1 := by
  unfold OpenaiRequest.unprunedTools
  split
  · exact unnamedTools_sublist_split tools none
  · exact filter_sublist

theorem unnamedTools_sublist_finalize (result : PruneResult φ) :
    (unnamedTools p tools).Sublist (request.finalizePruneResult p isMcp tools result).tools := by
  unfold OpenaiRequest.finalizePruneResult
  split
  · dsimp only
    split
    · exact unnamedTools_sublist_split tools _
    · exact unnamedTools_sublist_merge tools _
  · exact unnamedTools_sublist_unpruned request tools
  · exact filter_sublist

theorem unnamedTools_sublist_pruneArray (index : ℕ) :
    (unnamedTools p tools).Sublist (request.pruneArray p isMcp tools index).tools := by
  unfold OpenaiRequest.pruneArray
  split
  · exact filter_sublist
  split
  · exact unnamedTools_sublist_unpruned request tools
  split
  · exact filter_sublist
  split
  · exact unnamedTools_sublist_finalize request tools _
  · exact filter_sublist

end

/-- What goes out for each array of a request has the unnamed tools of the array, in order. -/
def KeepsUnnamed (p : Json.PyFormat φ) (arrays outgoing : List (List (Fields φ))) : Prop :=
  List.Forall₂ (fun tools sent => (unnamedTools p tools).Sublist sent) arrays outgoing

theorem keepsUnnamed_refl (arrays : List (List (Fields φ))) : KeepsUnnamed p arrays arrays :=
  forall₂_same.mpr fun _ _ => filter_sublist

theorem keepsUnnamed_prunedArrays :
    KeepsUnnamed p request.toolArrays ((request.prunedArrays p isMcp).map PrunedArray.tools) := by
  have harrays : request.toolArrays = request.toolArrays.zipIdx.map Prod.fst :=
    (zipIdx_map_fst 0 request.toolArrays).symm
  unfold KeepsUnnamed OpenaiRequest.prunedArrays
  rw [List.map_map]
  conv => arg 2; rw [harrays]
  rw [forall₂_map_left_iff, forall₂_map_right_iff, forall₂_same]
  intro x _
  exact unnamedTools_sublist_pruneArray request x.1 x.2

end

/-- The native gate injects a tool as it is: by the log it is not skipped, and where it is to be
injected in full its full definition is the tool itself, and the filter after the gate leaves
it. -/
structure PassesGate (env : SessionEnv φ) (ctx : PreExposureContext φ)
    (catalogTools : List (Fields φ)) (tool : Fields φ) : Prop where
  notSkipped : (nativeGateCall ctx catalogTools).mode env tool ≠ .skip
  unchanged : (nativeGateCall ctx catalogTools).mode env tool = .full →
    fullSource env catalogTools tool = tool
  notExposed : nativeToolNotExposed env ctx tool = true

section

variable {env : SessionEnv φ} {ctx : PreExposureContext φ} {catalogTools : List (Fields φ)}

theorem PassesGate.injectedForm {tool : Fields φ} (h : PassesGate env ctx catalogTools tool) :
    (nativeGateCall ctx catalogTools).injectedForm env tool = tool := by
  unfold GateCall.injectedForm GateCall.injectsFull GateCall.injectTool
  by_cases hfull : (nativeGateCall ctx catalogTools).mode env tool = .full
  · rw [decide_eq_true hfull, if_pos rfl]
    exact h.unchanged hfull
  · rw [decide_eq_false hfull, if_neg (by decide)]

theorem sublist_gateAndFilterNativeTools {kept tools : List (Fields φ)}
    {result : List (Fields φ) × List (Record φ)}
    (h : gateAndFilterNativeTools env ctx catalogTools tools = some result)
    (hsub : kept.Sublist tools) (hpasses : ∀ tool ∈ kept, PassesGate env ctx catalogTools tool) :
    kept.Sublist result.1 := by
  unfold gateAndFilterNativeTools at h
  obtain ⟨state, hstate, rfl⟩ := Option.map_eq_some_iff.mp h
  obtain ⟨hkept, -, -⟩ := GateCall.exists_pairs hstate
  have hinjects : kept.filter ((nativeGateCall ctx catalogTools).injects env) = kept :=
    filter_eq_self.mpr fun tool htool => decide_eq_true (hpasses tool htool).notSkipped
  have hforms : kept.map ((nativeGateCall ctx catalogTools).injectedForm env) = kept := by
    rw [map_congr_left fun tool htool => (hpasses tool htool).injectedForm]
    exact map_id _
  have hleft : kept.filter (nativeToolNotExposed env ctx) = kept :=
    filter_eq_self.mpr fun tool htool => (hpasses tool htool).notExposed
  have hgated : kept.Sublist state.kept := by
    rw [hkept, ← hforms]
    conv => arg 1; rw [← hinjects]
    exact (hsub.filter _).map _
  dsimp only
  rw [← hleft]
  exact hgated.filter _

theorem keepsUnnamed_applyNativePreExposure {arrays pruned : List (List (Fields φ))}
    {result : List (List (Fields φ)) × List (Record φ)}
    (h : applyNativePreExposure env ctx catalogTools pruned = some result)
    (hpruned : KeepsUnnamed env arrays pruned)
    (hpasses : ∀ tools ∈ arrays, ∀ tool ∈ unnamedTools env tools,
      PassesGate env ctx catalogTools tool) :
    KeepsUnnamed env arrays result.1 := by
  unfold applyNativePreExposure at h
  obtain ⟨results, hresults, rfl⟩ := Option.map_eq_some_iff.mp h
  have hgated := forall₂_of_mapM hresults
  unfold KeepsUnnamed at hpruned ⊢
  dsimp only
  clear h hresults
  induction hpruned generalizing results with
  | nil =>
    cases hgated
    exact .nil
  | cons hsub _ ih =>
    cases hgated with
    | cons hhead htail =>
      refine .cons ?_ (ih (fun tools htools => hpasses tools (mem_cons_of_mem _ htools)) _ htail)
      exact sublist_gateAndFilterNativeTools hhead hsub (hpasses _ mem_cons_self)

end

section

variable {env : SessionEnv φ} {index : SessionLogIndex φ} {key hash text skinny full : Text}
  {aliases : List Text}

theorem resolveInjectionMode_of_unlogged (hnone : index.entriesOf key aliases env.toPyFormat = [])
    (hskinny : isPreExposed skinny (combinedText text (index.verbatimCorpus env)) = false)
    (hfull : isPreExposed full (combinedText text (index.verbatimCorpus env)) = false) :
    resolveInjectionMode env key hash index text skinny full aliases = .skinny := by
  have hcount : index.countKey key aliases env.toPyFormat = 0 := by
    rw [SessionLogIndex.countKey, hnone]
    rfl
  have hlatest : index.latestHash key aliases env.toPyFormat = none := by
    rw [SessionLogIndex.latestHash, hnone]
    rfl
  have hsatisfied : index.hasSatisfiedFull key aliases env hash = false := by
    rw [SessionLogIndex.hasSatisfiedFull, hnone]
    rfl
  unfold resolveInjectionMode
  dsimp only
  rw [hcount, hlatest, hsatisfied, hskinny, hfull]
  simp [Injection.SessionLog.fullPromotionThreshold]

end

section

variable {env : SessionEnv φ} {ctx : PreExposureContext φ} {catalogTools : List (Fields φ)}
  {tool : Fields φ}

theorem strippedField_name_of_passThrough (h : openaiToolPassThrough env tool = true) :
    strippedField env tool Injection.SessionLog.nameKey = [] := by
  have hname : toolName env tool = [] := List.isEmpty_iff.mp h
  unfold toolName at hname
  have htext : fieldText env tool nameKey = [] := by
    unfold fieldText Json.strOr
    cases hget : Json.get? tool nameKey with
    | none => rfl
    | some v =>
      rw [hget] at hname
      by_cases htrue : Json.truthy env v = true
      · rw [Json.orElse, if_pos htrue]
        exact hname
      · rw [Json.orElse, if_neg htrue]
  exact congrArg Text.strip htext

theorem passesGate_of_unlogged (hname : openaiToolPassThrough env tool = true)
    (hnone : ctx.index.entriesOf (gateKey env tool) (gateAliases env tool) env.toPyFormat = [])
    (hskinny : isPreExposed ((nativeGateCall ctx catalogTools).skinnyFragment env tool)
      (combinedText ctx.payloadText (ctx.index.verbatimCorpus env)) = false)
    (hfull : isPreExposed ((nativeGateCall ctx catalogTools).fullFragment env tool)
      (combinedText ctx.payloadText (ctx.index.verbatimCorpus env)) = false) :
    PassesGate env ctx catalogTools tool := by
  have hmode : (nativeGateCall ctx catalogTools).mode env tool = .skinny :=
    resolveInjectionMode_of_unlogged hnone hskinny hfull
  refine ⟨?_, ?_, ?_⟩
  · rw [hmode]
    decide
  · rw [hmode]
    intro h
    cases h
  · have hnone' : ctx.index.entriesOf (gateKey env tool) [] env.toPyFormat = [] := by
      unfold SessionLogIndex.entriesOf at hnone ⊢
      rw [filter_eq_nil_iff] at hnone ⊢
      intro entry hentry hkey
      refine hnone entry hentry ?_
      rw [contains_iff_mem] at hkey ⊢
      exact mem_cons.mpr (.inl (mem_singleton.mp hkey))
    have hmode' : resolveInjectionMode env (gateKey env tool)
        (toolContentHash env [] (toolCatalogKind env tool) tool) ctx.index ctx.payloadText
        [] [] [] = .skinny :=
      resolveInjectionMode_of_unlogged hnone' rfl rfl
    unfold nativeToolNotExposed
    dsimp only
    rw [strippedField_name_of_passThrough hname]
    change (!([] != [] && _) && decide (resolveInjectionMode env (gateKey env tool) _ _ _ _ _ _ ≠
      .skip)) = true
    rw [hmode']
    rfl

end

namespace RequestStep

variable (env : SessionEnv φ) (isMcp : Text → Bool) (step : RequestStep φ)

/-- Where the native gate runs in a request, all unnamed tools pass it. -/
def UnnamedPass : Prop :=
  step.request.hasUserQuery = true → step.request.userMessageInject = false →
    ∀ tools ∈ step.request.toolArrays, ∀ tool ∈ unnamedTools env tools,
      PassesGate env (preExposureForProxy env step.request.sessionText step.log)
        (step.request.catalogTools env isMcp) tool

end RequestStep

section

variable {env : SessionEnv φ} {isMcp : Text → Bool} {agent : Text}

theorem keepsUnnamed_transform {log : Option Text} {request : OpenaiRequest φ}
    (h : RequestStep.UnnamedPass env isMcp
      ⟨log, request, (transformOpenaiRequest env isMcp agent log request).1⟩) :
    KeepsUnnamed env request.toolArrays (transformOpenaiRequest env isMcp agent log request).1 := by
  unfold transformOpenaiRequest
  split
  · exact keepsUnnamed_refl _
  rename_i hquery
  have hquery : request.hasUserQuery = true := by
    rw [Bool.or_eq_true, not_or, Bool.not_eq_true', Bool.not_eq_false] at hquery
    exact hquery.2
  cases hfinish : openaiFinishTransform env isMcp log request with
  | none => exact keepsUnnamed_refl _
  | some result =>
    dsimp only
    unfold openaiFinishTransform at hfinish
    dsimp only at hfinish
    split at hfinish
    · -- The tools go to the user turn: no array passes the native gate.
      split at hfinish
      · cases hfinish
        exact keepsUnnamed_prunedArrays request
      · obtain ⟨gated, -, rfl⟩ := Option.map_eq_some_iff.mp hfinish
        exact keepsUnnamed_prunedArrays request
    · rename_i hnative
      exact keepsUnnamed_applyNativePreExposure hfinish (keepsUnnamed_prunedArrays request)
        (h hquery (Bool.eq_false_iff.mpr hnative))

theorem outgoing_of_mem_runRequests {requests : List (OpenaiRequest φ)} {log : Option Text}
    {step : RequestStep φ} (h : step ∈ runRequests env isMcp agent log requests) :
    step = ⟨step.log, step.request,
      (transformOpenaiRequest env isMcp agent step.log step.request).1⟩ := by
  induction requests generalizing log with
  | nil => cases h
  | cons request requests ih =>
    rcases mem_cons.mp h with rfl | h
    · rfl
    · exact ih h

/-- In a session in which the unnamed tools of every request pass the native gate, wherever it
runs, every request has all of its unnamed tools in what goes out, whatever was pruned and
whatever the log held at the start. -/
theorem unnamedTools_survive {log : Option Text} {requests : List (OpenaiRequest φ)}
    (h : ∀ step ∈ runRequests env isMcp agent log requests, step.UnnamedPass env isMcp) :
    ∀ step ∈ runRequests env isMcp agent log requests,
      KeepsUnnamed env step.request.toolArrays step.outgoing := by
  intro step hstep
  have hpass := h step hstep
  have heq := outgoing_of_mem_runRequests hstep
  rw [heq] at hpass ⊢
  exact keepsUnnamed_transform hpass

end

/-- A native tool without a name. -/
def webSearch : Fields Empty := [(typeKey, .str "web_search")]

/-- A request with the native tool, which is not pruned. -/
def nativeRequest (userMessageInject : Bool) : OpenaiRequest Empty where
  toolArrays := [[webSearch]]
  hasUserQuery := true
  sessionText := []
  userMessageInject := userMessageInject
  requestPassThrough _ := false
  pruneResults _ := none

/-- A request with the native tool, and one whose tools go to the user turn. -/
theorem webSearch_survives :
    (runRequests plainEnv startsWithMcp "codex" none
        [nativeRequest false, nativeRequest true]).length = 2 ∧
      ∀ step ∈ runRequests plainEnv startsWithMcp "codex" none
          [nativeRequest false, nativeRequest true],
        KeepsUnnamed plainEnv step.request.toolArrays step.outgoing := by
  refine ⟨rfl, unnamedTools_survive ?_⟩
  intro step hstep hquery hnative
  rcases mem_cons.mp hstep with rfl | hstep
  · intro tools htools tool htool
    rw [mem_singleton.mp htools] at htool
    have hunnamed : tool ∈ [webSearch] := mem_of_mem_filter htool
    rw [mem_singleton.mp hunnamed]
    exact passesGate_of_unlogged (by decide +kernel) rfl (by decide +kernel) (by decide +kernel)
  · rw [mem_singleton.mp hstep] at hnative
    cases hnative

/-- The second of two requests loses the native tool. -/
theorem webSearch_lost :
    ∃ step ∈ runRequests plainEnv startsWithMcp "codex" none
        [nativeRequest false, nativeRequest false],
      ¬ KeepsUnnamed plainEnv step.request.toolArrays step.outgoing := by
  have hlast : (runRequests plainEnv startsWithMcp "codex" none
      [nativeRequest false, nativeRequest false]).any
        (fun step => step.outgoing.map List.length == [0] &&
          step.request.toolArrays.map (fun tools => (unnamedTools plainEnv tools).length)
            == [1]) = true := by
    decide +kernel
  obtain ⟨step, hstep, htest⟩ := any_eq_true.mp hlast
  obtain ⟨hsent, hunnamed⟩ := Bool.and_eq_true_iff.mp htest
  refine ⟨step, hstep, ?_⟩
  intro h
  have hlengths : List.Forall₂ (fun n m => n ≤ m)
      (step.request.toolArrays.map fun tools => (unnamedTools plainEnv tools).length)
      (step.outgoing.map List.length) := by
    rw [forall₂_map_left_iff, forall₂_map_right_iff]
    exact h.imp fun _ _ hsub => hsub.length_le
  rw [beq_iff_eq.mp hsent, beq_iff_eq.mp hunnamed] at hlengths
  cases hlengths with
  | cons hle _ => exact absurd hle (by decide)

end ClearYourTools.Proxy
