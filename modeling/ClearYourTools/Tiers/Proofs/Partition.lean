import ClearYourTools.Tiers.Partition

/-!
# The partition of tools by tier

A live partition parts the tools into the eligible ones, those of the hottest tier and the rest,
each in the order of the request, under their names.
-/

namespace ClearYourTools.Tiers

open Misc CytClient ToolExamples List
open Proxy (toolName nameKey)
open Json (get? PyFormat)
open List (isEmpty_iff)
open Option (some_or none_or)

variable {φ : Type} {p : PyFormat φ}

/-- A tool whose name, if it has one, is a text. -/
def TextNamed (tool : Record φ) : Prop := ∀ v, get? tool nameKey = some v → ∃ name, v = .str name

def toolNames (p : PyFormat φ) (tools : List (Record φ)) : List Text :=
  (tools.map (toolName p)).filter fun name => !name.isEmpty

theorem mem_toolNames {tools : List (Record φ)} {name : Text} :
    name ∈ toolNames p tools ↔ name ≠ [] ∧ ∃ tool ∈ tools, toolName p tool = name := by
  rw [toolNames, mem_filter, mem_map, Bool.not_eq_true', isEmpty_eq_false_iff, and_comm]

theorem TextNamed.congr {a b : Record φ} (h : get? a nameKey = get? b nameKey) (hb : TextNamed b) :
    TextNamed a := by
  intro v hv
  exact hb v (h ▸ hv)

variable {tool : Record φ}

theorem TextNamed.get?_eq (h : TextNamed tool) (hname : toolName p tool ≠ []) :
    get? tool nameKey = some (.str (toolName p tool)) := by
  unfold toolName at hname ⊢
  cases hget : get? tool nameKey with
  | none =>
    rw [hget] at hname
    exact absurd rfl hname
  | some v =>
    obtain ⟨name, rfl⟩ := h v hget
    rfl

theorem TextNamed.givenName_eq (h : TextNamed tool) : givenName p tool = toolName p tool := by
  unfold givenName Json.strOr Json.orElse toolName
  cases hget : get? tool nameKey with
  | none => rfl
  | some v =>
    obtain ⟨name, rfl⟩ := h v hget
    cases name with
    | nil => rfl
    | cons c cs => rfl

theorem toolNames_congr {a b : List (Record φ)}
    (h : a.map (get? · nameKey) = b.map (get? · nameKey)) : toolNames p a = toolNames p b := by
  have hname : ∀ tool : Record φ,
      toolName p tool = ((get? tool nameKey).map (Json.toStr p)).getD [] := by
    intro tool
    unfold toolName
    cases get? tool nameKey with
    | none => rfl
    | some v => rfl
  have hnames : ∀ tools : List (Record φ), tools.map (toolName p) =
      (tools.map (get? · nameKey)).map fun v => (v.map (Json.toStr p)).getD [] := by
    intro tools
    rw [List.map_map]
    exact map_congr_left fun tool _ => hname tool
  rw [toolNames, toolNames, hnames a, hnames b, h]

theorem get?_filter_key (fields : Record φ) (keep : Text → Bool) {key : Text}
    (h : keep key = true) : get? (fields.filter fun field => keep field.1) key =
      get? fields key := by
  unfold get?
  induction fields with
  | nil => rfl
  | cons field fields ih =>
    rw [filter_cons]
    split
    · rw [lookup_cons, lookup_cons, ih]
    rename_i hdrop
    have hne : (key == field.1) = false := by
      rw [beq_eq_false_iff_ne]
      rintro rfl
      exact hdrop h
    rw [lookup_cons, hne, ih]

theorem get?_name_stampToolDualSchema (tool : Record φ) (label : Tier) :
    get? (stampToolDualSchema p tool label) nameKey = get? tool nameKey := by
  unfold stampToolDualSchema
  rw [get?_filter_key _ (fun key => !(key == "inputSchema" || key == "parameters"))
    rfl, Json.get?_set_of_ne (by decide),
    Json.get?_set_of_ne (by decide)]

theorem get?_name_prepareToolForTierPipeline (tool : Record φ) (tier : Tier) :
    get? (prepareToolForTierPipeline p tool tier) nameKey = get? tool nameKey := by
  cases tier <;> exact get?_name_stampToolDualSchema tool _

variable (tools : List (Record φ))
variable (tierByTool : Dict Text Tier)

theorem map_name_prepareToolsForTierPipeline :
    (prepareToolsForTierPipeline p tools tierByTool).map (get? · nameKey) =
      tools.map (get? · nameKey) := by
  rw [prepareToolsForTierPipeline, List.map_map]
  exact map_congr_left fun tool _ => get?_name_prepareToolForTierPipeline tool _

theorem map_name_stampToolInjectionTiers
    (t4Names : List Text) :
    (stampToolInjectionTiers p tools tierByTool t4Names).map (get? · nameKey) =
      tools.map (get? · nameKey) := by
  rw [stampToolInjectionTiers, List.map_map]
  exact map_congr_left fun tool _ => Json.get?_set_of_ne (by decide) _

/-- A tool that the tiers leave to the pruners. -/
def isEligible (p : PyFormat φ) (tiers : Dict Text Tier) (tool : Record φ) : Bool :=
  match tierByMap p tiers tool with
  | .dormant => false
  | .extraHot => false
  | _ => true

def isExtraHot (p : PyFormat φ) (tiers : Dict Text Tier) (tool : Record φ) : Bool :=
  match tierByMap p tiers tool with
  | .extraHot => true
  | _ => false

variable {tiers : Dict Text Tier}

theorem isExtraHot_iff : isExtraHot p tiers tool = true ↔ tierByMap p tiers tool = .extraHot := by
  unfold isExtraHot
  cases tierByMap p tiers tool <;> simp

theorem isEligible_iff :
    isEligible p tiers tool = true ↔
      tierByMap p tiers tool ≠ .dormant ∧ tierByMap p tiers tool ≠ .extraHot := by
  unfold isEligible
  cases tierByMap p tiers tool <;> simp

variable (tiers : Dict Text Tier)

theorem applyToolTier_live (result : ToolsTierApplyResult φ) (tool : Record φ) :
    (applyToolTier p tiers true result tool).eligibleTools =
        result.eligibleTools ++ [tool].filter (isEligible p tiers) ∧
      (applyToolTier p tiers true result tool).t4Direct =
        result.t4Direct ++ ([tool].filter (isExtraHot p tiers)).map
          (prepareToolForTierPipeline p · .extraHot) := by
  unfold applyToolTier
  by_cases hid : (recordEntityId p tool).isEmpty = true
  · have htier : tierByMap p tiers tool = .active := by
      rw [tierByMap, if_pos hid]
    have heligible : isEligible p tiers tool = true := isEligible_iff.mpr (by simp [htier])
    have hcool : isExtraHot p tiers tool = false := by simp [isExtraHot, htier]
    simp only [hid, if_true, filter_cons, heligible, hcool, filter_nil]
    exact ⟨trivial, (List.append_nil _).symm⟩
  · have htier : tierByMap p tiers tool = (tiers.get? (recordEntityId p tool)).getD .active := by
      rw [tierByMap, if_neg hid]
    simp only [hid, filter_cons, filter_nil, isEligible, isExtraHot, htier]
    cases (tiers.get? (recordEntityId p tool)).getD .active <;> simp

section

variable (tools : List (Record φ))

theorem applyToolTiers_live_from (result : ToolsTierApplyResult φ) :
    (tools.foldl (applyToolTier p tiers true) result).eligibleTools =
        result.eligibleTools ++ tools.filter (isEligible p tiers) ∧
      (tools.foldl (applyToolTier p tiers true) result).t4Direct =
        result.t4Direct ++ (tools.filter (isExtraHot p tiers)).map
          (prepareToolForTierPipeline p · .extraHot) := by
  induction tools generalizing result with
  | nil => exact ⟨(List.append_nil _).symm, (List.append_nil _).symm⟩
  | cons tool tools ih =>
    obtain ⟨heligible, hdirect⟩ := applyToolTier_live tiers result tool
    obtain ⟨heligibles, hdirects⟩ := ih (applyToolTier p tiers true result tool)
    rw [foldl_cons, heligibles, hdirects, heligible, hdirect, List.append_assoc,
      List.append_assoc, ← map_append, ← filter_append, ← filter_append]
    exact ⟨rfl, rfl⟩

theorem eligibleTools_live :
    (applyToolTiers p tools tiers true).eligibleTools = tools.filter (isEligible p tiers) :=
  (applyToolTiers_live_from tiers tools _).1

theorem t4Direct_live :
    (applyToolTiers p tools tiers true).t4Direct =
      (tools.filter (isExtraHot p tiers)).map (prepareToolForTierPipeline p · .extraHot) :=
  (applyToolTiers_live_from tiers tools _).2

end

/-- Tools by name: each stands under its own name, and the order lists every name once. -/
structure NamedTools.Lawful (p : PyFormat φ) (tools : NamedTools φ) : Prop where
  named : ∀ name tool, tools.byName.get? name = some tool → givenName p tool = name ∧ name ≠ []
  nodup : tools.order.Nodup
  mem_order : ∀ name, name ∈ tools.order ↔ tools.byName.contains name = true

theorem NamedTools.lawful_empty : NamedTools.Lawful p ⟨.empty, []⟩ where
  named := fun name tool h => by cases h
  nodup := nodup_nil
  mem_order := fun name => by simp [Dict.contains]

variable {tools : NamedTools φ}

theorem NamedTools.Lawful.add (h : tools.Lawful p) {known : NamedTools φ → Text → Bool}
    (hknown : ∀ name, known tools name = true ↔ name ∈ tools.order) (tool : Record φ) :
    (tools.add p known tool).Lawful p ∧ ∀ name, name ∈ (tools.add p known tool).order ↔
      name ∈ tools.order ∨ name ≠ [] ∧ givenName p tool = name := by
  unfold NamedTools.add
  by_cases hempty : (givenName p tool).isEmpty = true
  · rw [if_pos hempty]
    refine ⟨h, fun name => (or_iff_left ?_).symm⟩
    rintro ⟨hne, rfl⟩
    exact hne (isEmpty_iff.mp hempty)
  · rw [if_neg hempty]
    have hname : givenName p tool ≠ [] := fun hnil => hempty (isEmpty_iff.mpr hnil)
    have horder : ∀ name, name ∈ (if known tools (givenName p tool) = true then tools.order
        else tools.order ++ [givenName p tool]) ↔
          name ∈ tools.order ∨ name ≠ [] ∧ givenName p tool = name := by
      intro name
      split
      · rename_i hin
        refine (or_iff_left_of_imp ?_).symm
        rintro ⟨-, rfl⟩
        exact (hknown _).mp hin
      · rw [mem_append, mem_singleton]
        exact or_congr_right ⟨fun heq => ⟨heq ▸ hname, heq.symm⟩, fun heq => heq.2.symm⟩
    refine ⟨⟨?_, ?_, ?_⟩, horder⟩
    · intro name stored hget
      dsimp only at hget
      rw [Dict.get?_set] at hget
      split at hget
      · rename_i heq
        obtain rfl := Option.some.inj hget
        exact ⟨heq.symm, heq ▸ hname⟩
      · exact h.named name stored hget
    · dsimp only
      split
      · exact h.nodup
      · rename_i hnew
        refine nodup_append.mpr ⟨h.nodup, nodup_singleton _, ?_⟩
        rintro name hin _ hlast rfl
        rw [mem_singleton] at hlast
        exact hnew ((hknown _).mpr (hlast ▸ hin))
    · intro name
      dsimp only
      rw [horder name, h.mem_order name, Dict.contains, Dict.contains, Dict.get?_set]
      by_cases heq : name = givenName p tool
      · rw [if_pos heq]
        exact ⟨fun _ => rfl, fun _ => .inr ⟨heq ▸ hname, heq.symm⟩⟩
      · rw [if_neg heq]
        exact or_iff_left fun hboth => heq hboth.2.symm

theorem NamedTools.Lawful.foldl (h : tools.Lawful p) {known : NamedTools φ → Text → Bool}
    (hknown : ∀ tools : NamedTools φ, tools.Lawful p → ∀ name, known tools name = true ↔
      name ∈ tools.order) (added : List (Record φ)) :
    (added.foldl (NamedTools.add p known) tools).Lawful p ∧
      ∀ name, name ∈ (added.foldl (NamedTools.add p known) tools).order ↔
        name ∈ tools.order ∨ name ≠ [] ∧ ∃ tool ∈ added, givenName p tool = name := by
  induction added generalizing tools with
  | nil =>
    refine ⟨h, fun name => (or_iff_left ?_).symm⟩
    rintro ⟨-, tool, htool, -⟩
    cases htool
  | cons tool added ih =>
    obtain ⟨hadd, horder⟩ := h.add (hknown tools h) tool
    obtain ⟨hrun, hrunOrder⟩ := ih hadd
    refine ⟨hrun, fun name => ?_⟩
    rw [foldl_cons, hrunOrder name, horder name, or_assoc, ← and_or_left]
    simp only [mem_cons, exists_eq_or_imp]

theorem NamedTools.Lawful.map_givenName (h : tools.Lawful p) :
    (tools.order.filterMap tools.byName.get?).map (givenName p) = tools.order := by
  have hfound : ∀ name ∈ tools.order, (tools.byName.get? name).map (givenName p) = some name := by
    intro name hname
    have hcontains := (h.mem_order name).mp hname
    rw [Dict.contains, Option.isSome_iff_exists] at hcontains
    obtain ⟨tool, hget⟩ := hcontains
    rw [hget, Option.map_some, (h.named name tool hget).1]
  rw [map_filterMap, filterMap_congr hfound, filterMap_some]

variable {P : Record φ → Prop}

theorem NamedTools.forall_foldl (h : tools.byName.Forall fun _ tool => P tool)
    (known : NamedTools φ → Text → Bool) {added : List (Record φ)} (hadded : ∀ tool ∈ added, P tool) :
    (added.foldl (NamedTools.add p known) tools).byName.Forall fun _ tool => P tool := by
  induction added generalizing tools with
  | nil => exact h
  | cons tool added ih =>
    refine ih ?_ fun tool htool => hadded tool (mem_cons_of_mem _ htool)
    dsimp only [NamedTools.add]
    split
    · exact h
    · exact h.set (hadded tool mem_cons_self)

variable {t4Direct : List (Record φ)}
variable {pruned : List (Record φ)}

theorem forall_mergeT4Tools (hpruned : ∀ tool ∈ pruned, P tool)
    (hdirect : ∀ tool ∈ t4Direct, P tool) : ∀ tool ∈ mergeT4Tools p pruned t4Direct, P tool := by
  unfold mergeT4Tools
  split
  · exact hpruned
  intro tool htool
  obtain ⟨name, -, hget⟩ := mem_filterMap.mp htool
  have hempty : (⟨.empty, []⟩ : NamedTools φ).byName.Forall fun _ tool => P tool :=
    Dict.forall_empty _
  have hkept := NamedTools.forall_foldl (p := p) hempty
    (fun tools name => tools.byName.contains name) hpruned
  have hmerged := NamedTools.forall_foldl (p := p) hkept
    (fun tools name => tools.order.contains name) hdirect
  exact hmerged.get? hget

theorem mergeT4Tools_spec (pruned : List (Record φ)) (hdirect : t4Direct ≠ []) :
    ((mergeT4Tools p pruned t4Direct).map (givenName p)).Nodup ∧
      ∀ name, name ∈ (mergeT4Tools p pruned t4Direct).map (givenName p) ↔
        name ≠ [] ∧ ∃ tool ∈ pruned ++ t4Direct, givenName p tool = name := by
  have hne : ¬ t4Direct.isEmpty = true := fun hempty => hdirect (isEmpty_iff.mp hempty)
  obtain ⟨hkept, hkeptOrder⟩ := NamedTools.Lawful.foldl (p := p) NamedTools.lawful_empty
    (fun tools htools name => (htools.mem_order name).symm) pruned
  obtain ⟨hmerged, hmergedOrder⟩ := hkept.foldl (fun tools _ name => contains_iff_mem) t4Direct
  unfold mergeT4Tools
  rw [if_neg hne, hmerged.map_givenName]
  refine ⟨hmerged.nodup, fun name => ?_⟩
  rw [hmergedOrder name, hkeptOrder name]
  simp only [not_mem_nil, false_or, mem_append, or_and_right, exists_or, ← and_or_left]

theorem map_givenName_eq {tools : List (Record φ)} (h : ∀ tool ∈ tools, TextNamed tool) :
    tools.map (givenName p) = tools.map (toolName p) :=
  map_congr_left fun tool htool => (h tool htool).givenName_eq

theorem toolNames_mergeT4Tools (hpruned : ∀ tool ∈ pruned, TextNamed tool)
    (hdirect : ∀ tool ∈ t4Direct, TextNamed tool) (hnodup : (toolNames p pruned).Nodup) :
    (toolNames p (mergeT4Tools p pruned t4Direct)).Nodup ∧
      ∀ name, name ∈ toolNames p (mergeT4Tools p pruned t4Direct) ↔
        name ∈ toolNames p pruned ∨ name ∈ toolNames p t4Direct := by
  by_cases hempty : t4Direct = []
  · rw [hempty]
    exact ⟨hnodup, fun name => (or_iff_left not_mem_nil).symm⟩
  have hmerged := forall_mergeT4Tools (p := p) hpruned hdirect
  obtain ⟨hmergedNodup, hmem⟩ := mergeT4Tools_spec (p := p) pruned hempty
  rw [map_givenName_eq hmerged] at hmergedNodup
  refine ⟨hmergedNodup.filter _, fun name => ?_⟩
  rw [mem_toolNames, mem_toolNames, mem_toolNames, ← and_or_left]
  have hname := hmem name
  rw [map_givenName_eq hmerged, mem_map] at hname
  refine and_congr_right fun hne => hname.trans ?_
  rw [and_iff_right hne]
  constructor
  · rintro ⟨tool, htool, heq⟩
    rcases mem_append.mp htool with htool | htool
    · exact .inl ⟨tool, htool, (hpruned tool htool).givenName_eq ▸ heq⟩
    · exact .inr ⟨tool, htool, (hdirect tool htool).givenName_eq ▸ heq⟩
  · rintro (⟨tool, htool, heq⟩ | ⟨tool, htool, heq⟩)
    · exact ⟨tool, mem_append_left _ htool, (hpruned tool htool).givenName_eq.trans heq⟩
    · exact ⟨tool, mem_append_right _ htool, (hdirect tool htool).givenName_eq.trans heq⟩

open Misc CytClient

/-- Every tool has an entity id. -/
def AllIdentified (p : PyFormat φ) (tools : List (Record φ)) : Prop :=
  ∀ tool ∈ tools, recordEntityId p tool ≠ []

variable {tiers : Dict Text Tier} {tool : Record φ}

theorem tierByMap_of_ne_nil (h : recordEntityId p tool ≠ []) :
    tierByMap p tiers tool = (tiers.get? (recordEntityId p tool)).getD .active := by
  unfold tierByMap
  exact if_neg fun hempty => h (isEmpty_iff.mp hempty)

variable {apply : Bool}

theorem tierByTool_applyToolTier {result : ToolsTierApplyResult φ} (h : recordEntityId p tool ≠ []) :
    (applyToolTier p tiers apply result tool).tierByTool =
      result.tierByTool.set (recordEntityId p tool) (tierByMap p tiers tool) := by
  rw [tierByMap_of_ne_nil h]
  unfold applyToolTier
  dsimp only
  rw [if_neg fun hempty => h (isEmpty_iff.mp hempty)]
  split
  · rfl
  · split <;> rfl

variable {tools : List (Record φ)}

theorem get?_tierByTool (h : AllIdentified p tools) (htool : tool ∈ tools) :
    (applyToolTiers p tools tiers apply).tierByTool.get? (recordEntityId p tool) =
      some (tierByMap p tiers tool) := by
  unfold applyToolTiers
  induction tools using List.reverseRecOn with
  | nil => cases htool
  | append_singleton tools last ih =>
    have hinit : AllIdentified p tools := fun other hother => h other (mem_append_left _ hother)
    rw [foldl_append, foldl_cons, foldl_nil,
      tierByTool_applyToolTier (h last (mem_append_right _ mem_cons_self)), Dict.get?_set]
    split
    · rename_i hid
      -- the tier is read by the id alone
      unfold tierByMap
      rw [hid]
    · rename_i hid
      refine ih hinit ?_
      rcases mem_append.mp htool with hin | hlast
      · exact hin
      · exact absurd (congrArg _ (mem_singleton.mp hlast)) hid

theorem tierByMap_tierByTool (h : AllIdentified p tools) {out : Record φ} (htool : tool ∈ tools)
    (hid : recordEntityId p out = recordEntityId p tool) :
    tierByMap p (applyToolTiers p tools tiers apply).tierByTool out = tierByMap p tiers tool := by
  have hout : recordEntityId p out ≠ [] := by
    rw [hid]
    exact h tool htool
  rw [tierByMap_of_ne_nil hout, hid, get?_tierByTool h htool]
  rfl

theorem tierByMap_congr {a b : Record φ} (h : recordEntityId p a = recordEntityId p b) :
    tierByMap p tiers a = tierByMap p tiers b := by
  unfold tierByMap
  rw [h]

def isDormant (p : PyFormat φ) (tiers : Dict Text Tier) (tool : Record φ) : Bool :=
  match tierByMap p tiers tool with
  | .dormant => true
  | _ => false

theorem isDormant_iff : isDormant p tiers tool = true ↔ tierByMap p tiers tool = .dormant := by
  unfold isDormant
  cases tierByMap p tiers tool <;> simp

theorem isDormant_of_tierPolicy_none (h : tierPolicy (tierByMap p tiers tool) = none) :
    isDormant p tiers tool = true := by
  unfold isDormant
  revert h
  cases tierByMap p tiers tool <;> simp [tierPolicy]

theorem isDormant_of_tierPolicy_some {policy : Text}
    (h : tierPolicy (tierByMap p tiers tool) = some policy) : isDormant p tiers tool = false := by
  unfold isDormant
  revert h
  cases tierByMap p tiers tool <;> simp [tierPolicy]

theorem eq_of_tierPolicy_eq {a b : Tier} (h : tierPolicy a = tierPolicy b) : a = b := by
  cases a <;> cases b <;> first | rfl | exact absurd h (by decide)

/-- The last tool of a name. -/
def lastNamed (p : PyFormat φ) (tools : List (Record φ)) (name : Text) : Option (Record φ) :=
  (tools.filter fun tool => givenName p tool == name).getLast?

theorem lastNamed_append (a b : List (Record φ)) (name : Text) :
    lastNamed p (a ++ b) name = (lastNamed p b name).or (lastNamed p a name) := by
  rw [lastNamed, filter_append, getLast?_append]
  rfl

theorem lastNamed_singleton (tool : Record φ) (name : Text) :
    lastNamed p [tool] name = if givenName p tool = name then some tool else none := by
  rw [lastNamed, filter_singleton]
  by_cases h : givenName p tool = name
  · rw [if_pos h, beq_iff_eq.mpr h]
    rfl
  · rw [if_neg h, beq_false_of_ne h]
    rfl

theorem mem_of_lastNamed {name : Text} (h : lastNamed p tools name = some tool) :
    tool ∈ tools ∧ givenName p tool = name := by
  obtain ⟨hin, hname⟩ := mem_filter.mp (mem_of_getLast? h)
  exact ⟨hin, beq_iff_eq.mp hname⟩

theorem exists_lastNamed (h : tool ∈ tools) :
    ∃ last, lastNamed p tools (givenName p tool) = some last := by
  have hmem : tool ∈ tools.filter fun other => givenName p other == givenName p tool :=
    mem_filter.mpr ⟨h, beq_self_eq_true _⟩
  exact ⟨_, getLast?_eq_some_getLast (ne_nil_of_mem hmem)⟩

theorem get?_policyOverrides (h : AllIdentified p tools) (name : Text) :
    (applyToolTiers p tools tiers true).policyOverrides.get? name =
      (lastNamed p (tools.filter fun tool => !isDormant p tiers tool) name).bind fun tool =>
        tierPolicy (tierByMap p tiers tool) := by
  unfold applyToolTiers
  induction tools using List.reverseRecOn with
  | nil => rfl
  | append_singleton tools last ih =>
    have hlast := h last (mem_append_right _ mem_cons_self)
    have hinit := ih fun other hother => h other (mem_append_left _ hother)
    rw [foldl_append, foldl_cons, foldl_nil, filter_append, lastNamed_append]
    generalize tools.foldl (applyToolTier p tiers true) _ = result at hinit ⊢
    have hstep : (applyToolTier p tiers true result last).policyOverrides =
        (tierPolicy (tierByMap p tiers last)).elim result.policyOverrides
          (result.policyOverrides.set (givenName p last)) := by
      rw [tierByMap_of_ne_nil hlast]
      unfold applyToolTier
      dsimp only
      rw [if_neg fun hempty => hlast (isEmpty_iff.mp hempty), if_neg (by decide)]
      cases (tiers.get? (recordEntityId p last)).getD .active <;> rfl
    rw [hstep, filter_singleton]
    cases hpolicy : tierPolicy (tierByMap p tiers last) with
    | none =>
      rw [isDormant_of_tierPolicy_none hpolicy]
      exact hinit
    | some policy =>
      rw [isDormant_of_tierPolicy_some hpolicy]
      refine (Dict.get?_set _ _ _ _).trans ?_
      change _ = ((lastNamed p [last] name).or _).bind _
      rw [lastNamed_singleton]
      by_cases hname : givenName p last = name
      · rw [if_pos hname.symm, if_pos hname, some_or, Option.bind_some, hpolicy]
      · rw [if_neg fun heq => hname heq.symm, if_neg hname, none_or, hinit]

theorem get?_byName_foldl (known : NamedTools φ → Text → Bool) (added : List (Record φ))
    (tools : NamedTools φ) {name : Text} (hname : name ≠ []) :
    (added.foldl (NamedTools.add p known) tools).byName.get? name =
      (lastNamed p added name).or (tools.byName.get? name) := by
  induction added using List.reverseRecOn with
  | nil => rfl
  | append_singleton added last ih =>
    rw [foldl_append, foldl_cons, foldl_nil, lastNamed_append, lastNamed_singleton]
    unfold NamedTools.add
    dsimp only
    split
    · rename_i hempty
      have hne : givenName p last ≠ name := by
        rintro rfl
        exact hname (isEmpty_iff.mp hempty)
      rw [if_neg hne, none_or]
      exact ih
    · refine (Dict.get?_set _ _ _ _).trans ?_
      by_cases hlast : givenName p last = name
      · rw [if_pos hlast.symm, if_pos hlast, some_or, some_or]
      · rw [if_neg fun heq => hlast heq.symm, if_neg hlast, none_or]
        exact ih

theorem mem_mergeT4Tools {pruned t4Direct : List (Record φ)} (hdirect : t4Direct ≠ [])
    {out : Record φ} :
    out ∈ mergeT4Tools p pruned t4Direct ↔ givenName p out ≠ [] ∧
      lastNamed p (pruned ++ t4Direct) (givenName p out) = some out := by
  have hne : ¬ t4Direct.isEmpty = true := fun hempty => hdirect (isEmpty_iff.mp hempty)
  obtain ⟨hkept, -⟩ := NamedTools.Lawful.foldl (p := p) NamedTools.lawful_empty
    (fun tools htools name => (htools.mem_order name).symm) pruned
  obtain ⟨hmerged, -⟩ := hkept.foldl (fun tools _ name => contains_iff_mem) t4Direct
  have hget : ∀ name, name ≠ [] → ((t4Direct.foldl (NamedTools.add p fun tools name =>
      tools.order.contains name) (pruned.foldl (NamedTools.add p fun tools name =>
        tools.byName.contains name) ⟨.empty, []⟩)).byName.get? name) =
      lastNamed p (pruned ++ t4Direct) name := by
    intro name hname
    rw [get?_byName_foldl _ _ _ hname, get?_byName_foldl _ _ _ hname, lastNamed_append]
    exact congrArg _ (Option.or_none)
  unfold mergeT4Tools
  rw [if_neg hne]
  dsimp only
  constructor
  · intro hout
    obtain ⟨name, -, hfound⟩ := mem_filterMap.mp hout
    obtain ⟨rfl, hname⟩ := hmerged.named name out hfound
    exact ⟨hname, (hget _ hname).symm.trans hfound⟩
  · rintro ⟨hname, hlast⟩
    have hfound := (hget _ hname).trans hlast
    refine mem_filterMap.mpr ⟨givenName p out, (hmerged.mem_order _).mpr ?_, hfound⟩
    rw [Dict.contains, hfound]
    rfl

end ClearYourTools.Tiers
