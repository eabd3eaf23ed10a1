import ClearYourTools.Pruners.Proofs.FullestSchema
import ClearYourTools.ToolExamples.Proofs.Redaction

/-!
# The schema that a tool is injected with

A tool of a tier is shaped, stamped with its tier, and given its schema, merged with what the
fullest schema of its name requires, which may be that of another source.
-/

namespace ClearYourTools.Pruners

open Misc CytClient Tiers ToolExamples List
open Json (get? PyFormat strOr)

variable {φ : Type} {p : PyFormat φ}

variable (env : EnrichEnv φ)

/-- A tool of a tier as it is injected: prepared for the pruners, stamped with its tier, and given
the schema by the catalog. -/
def injectedTools (catalogTools : List (Record φ)) (fullTool : Option (Record φ)) (tool : Record φ)
    (tier : Tier) : Option (List (Record φ)) :=
  let p := env.toPyFormat
  (stampToolInjectionTiers p [prepareToolForTierPipeline p tool tier]
    (Dict.empty.set (recordEntityId p tool) tier) []).mapM
      (ensureToolInjectionSchema env fullTool catalogTools)

/-- The fields that name the backend of a tool. -/
def identityKeys : List Text := [Proxy.nameKey, "server_key", "tool_name", catalogSourceKey]

/-- The rules of the contract for a tool of a tier and what is injected for it. -/
structure FollowsContract (tool : Record φ) (tier : Tier) (out : Record φ) : Prop where
  identity : ∀ key ∈ identityKeys, get? out key = get? tool key
  required_only : tier = .active →
    (∀ name, name ∈ inputSchemaProperties (inputSchemaFromTool out) ↔
      .str name ∈ requiredItems (inputSchemaFromTool tool)) ∧
    ∀ item, item ∈ requiredItems (inputSchemaFromTool out) ↔
      item ∈ requiredItems (inputSchemaFromTool tool)
  full : tier = .hot ∨ tier = .extraHot →
    (∀ name, name ∈ inputSchemaProperties (inputSchemaFromTool out) ↔
      name ∈ inputSchemaProperties (inputSchemaFromTool tool)) ∧
    ∀ item, item ∈ requiredItems (inputSchemaFromTool out) ↔
      item ∈ requiredItems (inputSchemaFromTool tool)
  own_properties : inputSchemaProperties (inputSchemaFromTool out) ⊆
    inputSchemaProperties (inputSchemaFromTool tool)
  own_required : requiredItems (inputSchemaFromTool out) ⊆
    requiredItems (inputSchemaFromTool tool)

/-- The fields that the stages write. -/
def stageKeys : List Text :=
  [backendSchemaKey, schemaKey, "inputSchema", "parameters", injectionTierKey,
    "cyt_injection_examples"]

theorem prepareToolForTierPipeline_eq (tool : Record φ) (tier : Tier) :
    prepareToolForTierPipeline p tool tier = stampToolDualSchema p tool tier := by
  cases tier <;> rfl

theorem get?_stampToolDualSchema (tool : Record φ) (label : Tier) (key : Text) :
    get? (stampToolDualSchema p tool label) key =
      if (!(key == "inputSchema" || key == "parameters")) = true then
        if key = schemaKey then
          some (.obj (schemaForTier p (inputSchemaFromTool tool) label))
        else if key = backendSchemaKey then some (.obj (inputSchemaFromTool tool))
        else get? tool key
      else none := by
  unfold stampToolDualSchema
  dsimp only
  rw [Json.get?_filter_key _
    fun key => !(key == "inputSchema" || key == "parameters"), Json.get?_set,
    Json.get?_set]

variable {key : Text}

theorem get?_stampToolDualSchema_of_not_mem (tool : Record φ) (label : Tier) (h : key ∉ stageKeys) :
    get? (stampToolDualSchema p tool label) key = get? tool key := by
  simp only [stageKeys, mem_cons, not_or] at h
  obtain ⟨hbackend, hschema, hinput, hparameters, -⟩ := h
  rw [get?_stampToolDualSchema, if_neg hschema, if_neg hbackend, if_pos]
  rw [beq_false_of_ne hinput, beq_false_of_ne hparameters]
  rfl

theorem recordEntityId_congr {a b : Record φ} (h : ∀ key, key ∉ stageKeys →
    get? a key = get? b key) : recordEntityId p a = recordEntityId p b := by
  unfold recordEntityId givenName strOr
  rw [h Proxy.nameKey (by decide), h catalogSourceKey (by decide), h sessionKey (by decide)]

/-- The tier that a tool is stamped with: `ACTIVE` for the tools that the tiers do not know. -/
def stampLabel (p : PyFormat φ) (tool : Record φ) (tier : Tier) : Tier :=
  tierLabelForPipeline (if (recordEntityId p tool).isEmpty then .active else tier)

/-- A tool before its schema is ensured. -/
def stampedTool (p : PyFormat φ) (tool : Record φ) (tier : Tier) : Record φ :=
  Json.set (stampToolDualSchema p tool tier) injectionTierKey
    (.str (injectionTierAttr (stampLabel p tool tier)))

theorem stampToolInjectionTiers_prepared (tool : Record φ) (tier : Tier) :
    stampToolInjectionTiers p [prepareToolForTierPipeline p tool tier]
      (Dict.empty.set (recordEntityId p tool) tier) [] = [stampedTool p tool tier] := by
  have hid : recordEntityId p (stampToolDualSchema p tool tier) = recordEntityId p tool :=
    recordEntityId_congr fun key hkey => get?_stampToolDualSchema_of_not_mem tool tier hkey
  have htier : tierByMap p (Dict.empty.set (recordEntityId p tool) tier)
      (stampToolDualSchema p tool tier) =
        if (recordEntityId p tool).isEmpty then .active else tier := by
    unfold tierByMap
    dsimp only
    rw [hid, Dict.get?_set_self]
    rfl
  rw [prepareToolForTierPipeline_eq, stampToolInjectionTiers, map_singleton, htier]
  rfl

theorem get?_stampedTool_of_not_mem (tool : Record φ) (tier : Tier) (h : key ∉ stageKeys) :
    get? (stampedTool p tool tier) key = get? tool key := by
  have hne : key ≠ injectionTierKey := by
    rintro rfl
    exact h (by decide)
  rw [stampedTool, Json.get?_set_of_ne hne, get?_stampToolDualSchema_of_not_mem tool tier h]

variable {tool schema : Record φ}

theorem inputSchemaFromTool_of_ne_nil (h : get? tool schemaKey = some (.obj schema))
    (hne : schema ≠ []) : inputSchemaFromTool tool = schema := by
  cases schema with
  | nil => exact absurd rfl hne
  | cons field fields =>
    rw [inputSchemaFromTool, findSome?_cons]
    change get? tool "input_schema" = _ at h
    rw [h]
    rfl

theorem inputSchemaFromTool_of_get? (h : get? tool schemaKey = some (.obj schema))
    (hinput : get? tool "inputSchema" = none) (hparameters : get? tool "parameters" = none) :
    inputSchemaFromTool tool = schema := by
  cases schema with
  | cons field fields => exact inputSchemaFromTool_of_ne_nil h (cons_ne_nil _ _)
  | nil =>
    change get? tool "input_schema" = _ at h
    simp only [inputSchemaFromTool, findSome?_cons, findSome?_nil, h, hinput, hparameters,
      Option.getD_none]

theorem inputSchemaFromTool_stampedTool (tool : Record φ) (tier : Tier) :
    inputSchemaFromTool (stampedTool p tool tier) =
      schemaForTier p (inputSchemaFromTool tool) tier := by
  have hget : ∀ key, key ≠ injectionTierKey → get? (stampedTool p tool tier) key =
      get? (stampToolDualSchema p tool tier) key :=
    fun key hkey => Json.get?_set_of_ne hkey _
  have hschema : get? (stampedTool p tool tier) "input_schema" =
      some (.obj (schemaForTier p (inputSchemaFromTool tool) tier)) := by
    rw [hget _ (by decide), get?_stampToolDualSchema]
    rfl
  have hinput : get? (stampedTool p tool tier) "inputSchema" = none := by
    rw [hget _ (by decide), get?_stampToolDualSchema]
    rfl
  have hparameters : get? (stampedTool p tool tier) "parameters" = none := by
    rw [hget _ (by decide), get?_stampToolDualSchema]
    rfl
  exact inputSchemaFromTool_of_get? hschema hinput hparameters

theorem backendSchemaFromTool_stampedTool (tool : Record φ) (tier : Tier)
    (fullTool : Option (Record φ)) :
    backendSchemaFromTool (stampedTool p tool tier) fullTool = inputSchemaFromTool tool := by
  have hget : get? (stampedTool p tool tier) backendSchemaKey =
      some (.obj (inputSchemaFromTool tool)) := by
    rw [stampedTool, Json.get?_set_of_ne (by decide), get?_stampToolDualSchema]
    rfl
  rw [backendSchemaFromTool, hget]

theorem injectionTier_stampedTool (tool : Record φ) (tier : Tier) :
    injectionTier p (stampedTool p tool tier) = injectionTierAttr (stampLabel p tool tier) := by
  have hattr : ∀ label, lower (injectionTierAttr label).strip = injectionTierAttr label := by
    intro label
    cases label <;> decide
  rw [injectionTier, stampedTool, strOr, Json.get?_set_self]
  exact hattr _

variable (names : List Text)
variable (value : Text → Json φ)

theorem mem_map_fst_foldl_set (fields : Record φ) (key : Text) :
    key ∈ (names.foldl (fun fields name => Json.set fields name (value name)) fields).map
      Prod.fst ↔ key ∈ fields.map Prod.fst ∨ key ∈ names := by
  induction names generalizing fields with
  | nil => exact (or_iff_left not_mem_nil).symm
  | cons name names ih =>
    rw [foldl_cons, ih, Json.set, Dict.mem_map_fst_setEntries, mem_cons,
      @or_comm (key = name), or_assoc]

theorem nodup_foldl_set {fields : Record φ} (h : (fields.map Prod.fst).Nodup) :
    ((names.foldl (fun fields name => Json.set fields name (value name)) fields).map
      Prod.fst).Nodup := by
  induction names generalizing fields with
  | nil => exact h
  | cons name names ih => exact ih (Json.nodup_set h name (value name))

structure SchemaOfTier (p : PyFormat φ) (schema : Record φ) (tier : Tier) (trimmed : Record φ) :
    Prop where
  among : RequiredAmongProperties trimmed
  rank_le : schemaRank p trimmed ≤ schemaRank p schema
  properties_subset : inputSchemaProperties trimmed ⊆ inputSchemaProperties schema
  required_subset : requiredItems trimmed ⊆ requiredItems schema
  required_only : tier = .active →
    (∀ name, name ∈ inputSchemaProperties trimmed ↔ .str name ∈ requiredItems schema) ∧
      requiredItems trimmed = requiredItems schema
  full : tier = .hot ∨ tier = .extraHot → trimmed = schema

variable {tier : Tier}

theorem schemaOfTier_nil (hactive : tier = .active → requiredItems schema = [])
    (hfull : tier = .hot ∨ tier = .extraHot → schema = []) :
    SchemaOfTier p schema tier [] where
  among item hitem := by cases hitem
  rank_le := by
    rw [schemaRank, schemaRank, Prod.Lex.toLex_le_toLex]
    rcases Nat.eq_zero_or_pos (schemaCompletenessScore p schema).1 with hzero | hpos
    · exact .inr ⟨hzero.symm, Nat.zero_le _⟩
    · exact .inl hpos
  properties_subset := nil_subset _
  required_subset := nil_subset _
  required_only htier := by
    rw [hactive htier]
    exact ⟨fun name => iff_of_false not_mem_nil not_mem_nil, rfl⟩
  full htier := (hfull htier).symm

theorem schemaOfTier_required (h : RequiredAmongProperties schema) (value : Text → Json φ)
    (type : Json φ) :
    SchemaOfTier p schema .active
      [("type".toList, type),
        ("properties".toList, .obj ((schemaRequiredPropertyNames p schema).foldl
          (fun trimmed name => Json.set trimmed name (value name)) [])),
        ("required".toList, .arr ((schemaRequiredPropertyNames p schema).map .str))] := by
  have hitems := map_schemaRequiredPropertyNames (p := p) h
  have hnames := mem_map_fst_foldl_set (schemaRequiredPropertyNames p schema) value []
  have hnodup := @nodup_foldl_set φ (schemaRequiredPropertyNames p schema) value [] nodup_nil
  generalize hfields : (schemaRequiredPropertyNames p schema).foldl _ _ = fields at hnames hnodup ⊢
  generalize htrimmed : [("type".toList, type), ("properties".toList, Json.obj fields),
    ("required".toList, .arr ((schemaRequiredPropertyNames p schema).map .str))] = trimmed
  have hproperties : inputSchemaProperties trimmed = fields.map Prod.fst := by
    rw [← htrimmed]
    rfl
  have hrequired : requiredItems trimmed = requiredItems schema := by
    rw [← htrimmed, ← hitems]
    rfl
  have hmem : ∀ name, name ∈ inputSchemaProperties trimmed ↔ .str name ∈ requiredItems schema := by
    intro name
    rw [hproperties, hnames, ← mem_schemaRequiredPropertyNames (p := p) h]
    exact or_iff_right not_mem_nil
  have hsubset : inputSchemaProperties trimmed ⊆ inputSchemaProperties schema := by
    intro name hname
    obtain ⟨other, hother, heq⟩ := h _ ((hmem name).mp hname)
    exact Json.str.inj heq ▸ hother
  have hamong : RequiredAmongProperties trimmed := by
    intro item hitem
    rw [hrequired] at hitem
    obtain ⟨name, -, rfl⟩ := h item hitem
    exact ⟨name, (hmem name).mpr hitem, rfl⟩
  refine ⟨hamong, ?_, hsubset, hrequired ▸ List.Subset.refl _, fun _ => ⟨hmem, hrequired⟩, ?_⟩
  · have hcount : (schemaCompletenessScore p trimmed).1 = (schemaCompletenessScore p schema).1 := by
      have hlength := congrArg List.length hrequired
      rwa [← map_schemaRequiredPropertyNames (p := p) hamong, ← hitems, length_map,
        length_map] at hlength
    have hle : (schemaCompletenessScore p trimmed).2 ≤ (schemaCompletenessScore p schema).2 := by
      rw [← hproperties] at hnodup
      exact (subperm_of_subset hnodup hsubset).length_le
    rw [schemaRank, schemaRank, Prod.Lex.toLex_le_toLex]
    exact .inr ⟨hcount, hle⟩
  · rintro (h | h) <;> cases h

theorem schemaOfTier_schemaForTier (h : RequiredAmongProperties schema) (tier : Tier) :
    SchemaOfTier p schema tier (schemaForTier p schema tier) := by
  have hself : ∀ tier, tier ≠ .active → SchemaOfTier p schema tier schema := by
    intro tier htier
    exact ⟨h, le_refl _, List.Subset.refl _, List.Subset.refl _, fun heq => absurd heq htier,
      fun _ => rfl⟩
  cases tier with
  | dormant => exact schemaOfTier_nil nofun nofun
  | cold => exact schemaOfTier_nil nofun nofun
  | hot => exact hself .hot nofun
  | extraHot => exact hself .extraHot nofun
  | active =>
    unfold schemaForTier
    dsimp only
    split
    · rename_i hempty
      refine schemaOfTier_nil (fun _ => ?_) nofun
      rw [← map_schemaRequiredPropertyNames (p := p) h, List.isEmpty_iff.mp hempty]
      rfl
    · exact schemaOfTier_required h _ _

/-- The tools whose schemas are compared: the tool, the full tool, and the catalog tools of its
name. -/
def comparedTools (p : PyFormat φ) (catalogTools : List (Record φ))
    (fullTool : Option (Record φ)) (tool : Record φ) : List (Record φ) :=
  tool :: (fullTool.toList ++ catalogTools.filter fun item =>
    (givenName p tool).strip != [] && (givenName p item).strip == (givenName p tool).strip)

/-- The most complete schema of the name requires nothing that the tool's own does not. -/
def FullestRequiresOwn (p : PyFormat φ) (catalogTools : List (Record φ))
    (fullTool : Option (Record φ)) (tool : Record φ) : Prop :=
  ∀ schema ∈ (givenSchemas (comparedTools p catalogTools fullTool tool)).argmax (schemaRank p),
    requiredItems schema ⊆ requiredItems (inputSchemaFromTool tool)

theorem givenSchemas_cons (tool : Record φ) (tools : List (Record φ)) :
    givenSchemas (tool :: tools) = if (inputSchemaFromTool tool).isEmpty then givenSchemas tools
      else inputSchemaFromTool tool :: givenSchemas tools := by
  rw [givenSchemas, map_cons, filter_cons]
  cases (inputSchemaFromTool tool).isEmpty <;> rfl

theorem resolveBackendSchema_stampedTool (h : RequiredAmongProperties (inputSchemaFromTool tool))
    (catalogTools : List (Record φ)) (fullTool : Option (Record φ)) (tier : Tier) :
    resolveBackendSchemaForInjection p (stampedTool p tool tier) fullTool catalogTools =
      ((givenSchemas (comparedTools p catalogTools fullTool tool)).argmax
        (schemaRank p)).getD [] := by
  have hname : givenName p (stampedTool p tool tier) = givenName p tool := by
    unfold givenName strOr
    rw [get?_stampedTool_of_not_mem tool tier (by decide)]
  have hrank := (schemaOfTier_schemaForTier (p := p) h tier).rank_le
  unfold resolveBackendSchemaForInjection comparedTools
  dsimp only
  rw [pickFullestInputSchema_eq, hname, backendSchemaFromTool_stampedTool, List.cons_append,
    List.cons_append, List.cons_append, nil_append, givenSchemas_cons,
    inputSchemaFromTool_schema, List.cons_append, givenSchemas_cons (stampedTool p tool tier),
    inputSchemaFromTool_stampedTool, givenSchemas_cons tool]
  cases hown : (inputSchemaFromTool tool).isEmpty with
  | true =>
    have htrimmed : schemaForTier p (inputSchemaFromTool tool) tier = [] := by
      rw [List.isEmpty_iff.mp hown]
      cases tier <;> rfl
    rw [htrimmed]
    rfl
  | false =>
    rw [if_neg Bool.false_ne_true, if_neg Bool.false_ne_true]
    split
    · rfl
    · rw [argmax_cons_cons_of_le _ hrank]

theorem requiredAmongProperties_fullest {tools : List (Record φ)}
    (h : ∀ tool ∈ tools, RequiredAmongProperties (inputSchemaFromTool tool)) :
    RequiredAmongProperties (((givenSchemas tools).argmax (schemaRank p)).getD []) := by
  cases hbest : (givenSchemas tools).argmax (schemaRank p) with
  | none =>
    intro item hitem
    cases hitem
  | some schema =>
    have hmem := (mem_filter.mp (argmax_mem hbest)).1
    obtain ⟨tool, htool, rfl⟩ := mem_map.mp hmem
    exact h tool htool

/-- A tool with the schema of its tier merged with what a full schema requires. -/
structure InjectedWith (p : PyFormat φ) (tool : Record φ) (tier : Tier) (full out : Record φ) :
    Prop where
  unchanged : ∀ key, key ∉ stageKeys → get? out key = get? tool key
  properties : ∀ name, name ∈ inputSchemaProperties (inputSchemaFromTool out) ↔
    name ∈ inputSchemaProperties (schemaForTier p (inputSchemaFromTool tool) tier) ∨
      .str name ∈ requiredItems full
  required : ∀ item, item ∈ requiredItems (inputSchemaFromTool out) ↔
    item ∈ requiredItems (schemaForTier p (inputSchemaFromTool tool) tier) ∨
      item ∈ requiredItems full

theorem get?_entangleInjectionExamples (schema tool : Record φ)
    (hkey : key ≠ "cyt_injection_examples") :
    get? (entangleInjectionExamples env schema tool) key = get? tool key := by
  unfold entangleInjectionExamples
  split
  · split
    · rfl
    · exact Json.get?_set_of_ne hkey _
  · rfl

theorem inputSchemaFromTool_entangleInjectionExamples (schema tool : Record φ) :
    inputSchemaFromTool (entangleInjectionExamples env schema tool) = inputSchemaFromTool tool := by
  simp only [inputSchemaFromTool, findSome?_cons, findSome?_nil]
  rw [get?_entangleInjectionExamples _ _ _ (by decide),
    get?_entangleInjectionExamples _ _ _ (by decide),
    get?_entangleInjectionExamples _ _ _ (by decide)]

theorem injectedWith_nil (tool : Record φ) (tier : Tier) (schema : Record φ) :
    InjectedWith p tool tier []
      (entangleInjectionExamples env schema (stampedTool p tool tier)) where
  unchanged key hkey := by
    have hne : key ≠ "cyt_injection_examples" := by
      rintro rfl
      exact hkey (by decide)
    rw [get?_entangleInjectionExamples _ _ _ hne, get?_stampedTool_of_not_mem tool tier hkey]
  properties name := by
    rw [inputSchemaFromTool_entangleInjectionExamples, inputSchemaFromTool_stampedTool]
    exact (or_iff_left not_mem_nil).symm
  required item := by
    rw [inputSchemaFromTool_entangleInjectionExamples, inputSchemaFromTool_stampedTool]
    exact (or_iff_left not_mem_nil).symm

variable {full : Record φ}

theorem injectedWith_merged {merged : Record φ}
    (h : MergesRequired (schemaForTier p (inputSchemaFromTool tool) tier) full merged) :
    InjectedWith p tool tier full (entangleInjectionExamples env merged
      (Json.set (stampedTool p tool tier) schemaKey (.obj merged))) := by
  have hschema : inputSchemaFromTool (entangleInjectionExamples env merged
      (Json.set (stampedTool p tool tier) schemaKey (.obj merged))) = merged := by
    rw [inputSchemaFromTool_entangleInjectionExamples]
    exact inputSchemaFromTool_of_ne_nil (Json.get?_set_self _ _ _) h.ne_nil
  constructor
  · intro key hkey
    have hexamples : key ≠ "cyt_injection_examples" := by
      rintro rfl
      exact hkey (by decide)
    have hne : key ≠ schemaKey := by
      rintro rfl
      exact hkey (by decide)
    rw [get?_entangleInjectionExamples _ _ _ hexamples, Json.get?_set_of_ne hne,
      get?_stampedTool_of_not_mem tool tier hkey]
  · rw [hschema]
    exact h.properties
  · rw [hschema]
    exact h.required

theorem contains_injectionTierAttr (label : Tier) :
    ["t2".toList, "t3".toList, "t4".toList].contains (injectionTierAttr label) =
      match label with
      | .dormant | .cold => false
      | .active | .hot | .extraHot => true := by
  cases label <;> decide

theorem contains_injectionTier (tool : Record φ) (tier : Tier) :
    ["t2".toList, "t3".toList, "t4".toList].contains
      (injectionTier p (stampedTool p tool tier)) = true ↔
        ¬ (tier = .cold ∧ recordEntityId p tool ≠ []) := by
  rw [injectionTier_stampedTool, contains_injectionTierAttr, stampLabel]
  cases hid : recordEntityId p tool with
  | nil => exact iff_of_true rfl fun h => h.2 rfl
  | cons c id =>
    cases tier with
    | cold => exact iff_of_false Bool.false_ne_true fun h => h ⟨rfl, cons_ne_nil _ _⟩
    | dormant => exact iff_of_true rfl nofun
    | active => exact iff_of_true rfl nofun
    | hot => exact iff_of_true rfl nofun
    | extraHot => exact iff_of_true rfl nofun

theorem validT2RequiredSchema_of_merges {merged : Record φ} (hfull : RequiredAmongProperties full)
    (h : MergesRequired schema full merged) : validT2RequiredSchema p tool merged full = true := by
  have hall : (schemaRequiredPropertyNames p full).all
      (inputSchemaProperties merged).contains = true := by
    refine all_eq_true.mpr fun name hname => ?_
    rw [contains_iff_mem]
    exact (h.properties name).mpr (.inr ((mem_schemaRequiredPropertyNames hfull).mp hname))
  rw [validT2RequiredSchema, hall, Bool.or_true]

theorem ensureToolInjectionSchema_spec {catalogTools : List (Record φ)}
    {fullTool : Option (Record φ)} (h : ∀ item ∈ comparedTools env catalogTools fullTool tool,
      RequiredAmongProperties (inputSchemaFromTool item)) (tier : Tier) :
    ∃ out, ensureToolInjectionSchema env fullTool catalogTools
        (stampedTool env tool tier) = some out ∧
      InjectedWith env tool tier
        (if tier = .cold ∧ recordEntityId env tool ≠ [] then []
        else ((givenSchemas (comparedTools env catalogTools fullTool tool)).argmax
          (schemaRank env)).getD []) out := by
  have hown := h tool mem_cons_self
  have hfull := requiredAmongProperties_fullest (p := env) h
  have hresolved := resolveBackendSchema_stampedTool (p := env) hown catalogTools fullTool tier
  have hbackend := backendSchemaFromTool_stampedTool (p := env) tool tier fullTool
  have hschema := inputSchemaFromTool_stampedTool (p := env) tool tier
  unfold ensureToolInjectionSchema
  dsimp only
  rw [hresolved, hbackend, hschema, injectionSchemaOf]
  by_cases hcold : tier = .cold ∧ recordEntityId env tool ≠ []
  · have hnone := mt (contains_injectionTier tool tier).mp (not_not_intro hcold)
    rw [if_pos hcold, if_neg hnone, eq_false_of_ne_true hnone]
    exact ⟨_, rfl, injectedWith_nil env tool tier _⟩
  have hsome := (contains_injectionTier tool tier).mpr hcold
  rw [if_neg hcold, if_pos hsome, hsome]
  cases hbest : (givenSchemas (comparedTools env catalogTools fullTool tool)).argmax
      (schemaRank env) with
  | none =>
    -- no schema of the name is given, so that the tool's own is empty
    have hempty : inputSchemaFromTool tool = [] := by
      have hall := argmax_eq_none.mp hbest
      rw [comparedTools, givenSchemas_cons] at hall
      split at hall
      · rename_i hnil
        exact List.isEmpty_iff.mp hnil
      · cases hall
    have htrimmed : schemaForTier env (inputSchemaFromTool tool) tier = [] := by
      rw [hempty]
      cases tier <;> rfl
    have hvalid : validT2RequiredSchema env (stampedTool env tool tier)
        [] [] = true := Bool.or_true _
    rw [Option.getD_none, htrimmed, hempty, ite_self, isEmpty_nil, if_pos rfl,
      Option.filter_some, if_pos hvalid]
    exact ⟨_, rfl, injectedWith_nil env tool tier []⟩
  | some full =>
    rw [hbest, Option.getD_some] at hfull
    have hne : full.isEmpty = false :=
      isEmpty_eq_false_iff.mpr (ne_nil_of_mem_givenSchemas (argmax_mem hbest))
    obtain ⟨merged, hmerged, hspec⟩ := ensureRequiredPropertiesInSchema_spec
      (p := env) (schemaOfTier_schemaForTier (p := env) hown tier).among
      hfull
    rw [Option.getD_some, hne, if_neg Bool.false_ne_true, hne, if_neg Bool.false_ne_true, hmerged,
      Option.filter_some, if_pos (validT2RequiredSchema_of_merges hfull hspec)]
    exact ⟨_, rfl, injectedWith_merged env hspec⟩

/-- A tool injected with a full schema follows the contract if and only if that schema requires
nothing that its own does not. -/
theorem followsContract_of_injectedWith_iff {out : Record φ}
    (hown : RequiredAmongProperties (inputSchemaFromTool tool))
    (h : InjectedWith p tool tier full out) :
    FollowsContract tool tier out ↔
      requiredItems full ⊆ requiredItems (inputSchemaFromTool tool) := by
  have htier := schemaOfTier_schemaForTier (p := p) hown tier
  constructor
  · intro hcontract item hitem
    exact hcontract.own_required ((h.required item).mpr (.inr hitem))
  intro hsubset
  have hrequired : requiredItems (schemaForTier p (inputSchemaFromTool tool) tier) =
      requiredItems (inputSchemaFromTool tool) →
      ∀ item, item ∈ requiredItems (inputSchemaFromTool out) ↔
        item ∈ requiredItems (inputSchemaFromTool tool) := by
    intro heq item
    rw [h.required, heq]
    exact or_iff_left_of_imp fun hitem => hsubset hitem
  have hproperty : ∀ name, .str name ∈ requiredItems full →
      name ∈ inputSchemaProperties (inputSchemaFromTool tool) := by
    intro name hname
    obtain ⟨other, hother, heq⟩ := hown _ (hsubset hname)
    exact Json.str.inj heq ▸ hother
  constructor
  · intro key hkey
    refine h.unchanged key ?_
    rintro hstage
    have hdisjoint : ∀ key ∈ identityKeys, key ∉ stageKeys := by decide
    exact hdisjoint key hkey hstage
  · intro hactive
    obtain ⟨hnames, heq⟩ := htier.required_only hactive
    refine ⟨fun name => ?_, hrequired heq⟩
    rw [h.properties, hnames]
    exact or_iff_left_of_imp fun hname => hsubset hname
  · intro hfull
    have heq := htier.full hfull
    refine ⟨fun name => ?_, hrequired (congrArg requiredItems heq)⟩
    rw [h.properties, heq]
    exact or_iff_left_of_imp (hproperty name)
  · intro name hname
    rcases (h.properties name).mp hname with hname | hname
    · exact htier.properties_subset hname
    · exact hproperty name hname
  · intro item hitem
    rcases (h.required item).mp hitem with hitem | hitem
    · exact htier.required_subset hitem
    · exact hsubset hitem

/-- A tool of a catalog is injected by the contract if and only if it is described only, or the
most complete schema of its name requires nothing that its own does not. -/
theorem followsContract_iff (env : EnrichEnv φ) {catalogTools : List (Record φ)}
    {fullTool : Option (Record φ)} {tool : Record φ}
    (hcatalog : ∀ item ∈ catalogTools, RequiredAmongProperties (inputSchemaFromTool item))
    (hfull : ∀ item ∈ fullTool, item ∈ catalogTools) (htool : tool ∈ catalogTools) (tier : Tier) :
    (∃ out, injectedTools env catalogTools fullTool tool tier = some [out] ∧
      FollowsContract tool tier out) ↔
        (tier = .cold ∧ recordEntityId env tool ≠ []) ∨
          FullestRequiresOwn env catalogTools fullTool tool := by
  have hcompared : ∀ item ∈ comparedTools env catalogTools fullTool tool,
      RequiredAmongProperties (inputSchemaFromTool item) := by
    intro item hitem
    rw [comparedTools, mem_cons, mem_append] at hitem
    rcases hitem with rfl | hitem | hitem
    · exact hcatalog _ htool
    · exact hcatalog item (hfull item (Option.mem_toList.mp hitem))
    · exact hcatalog item (mem_filter.mp hitem).1
  obtain ⟨out, hout, hspec⟩ := ensureToolInjectionSchema_spec env hcompared tier
  have hinjected : injectedTools env catalogTools fullTool tool tier = some [out] := by
    unfold injectedTools
    dsimp only
    rw [stampToolInjectionTiers_prepared, mapM_cons, hout]
    rfl
  have hiff := followsContract_of_injectedWith_iff (hcatalog tool htool) hspec
  have hexists : (∃ out, injectedTools env catalogTools fullTool tool tier = some [out] ∧
      FollowsContract tool tier out) ↔ FollowsContract tool tier out := by
    constructor
    · rintro ⟨other, hother, hcontract⟩
      rw [hinjected] at hother
      cases hother
      exact hcontract
    · intro hcontract
      exact ⟨out, hinjected, hcontract⟩
  rw [hexists, hiff]
  by_cases hcold : tier = .cold ∧ recordEntityId env tool ≠ []
  · rw [if_pos hcold]
    exact iff_of_true (nil_subset _) (.inl hcold)
  rw [if_neg hcold, or_iff_right hcold, FullestRequiresOwn]
  cases (givenSchemas (comparedTools env catalogTools fullTool tool)).argmax
      (schemaRank env) with
  | none => exact iff_of_true (nil_subset _) nofun
  | some full =>
    constructor
    · rintro hsubset _ ⟨⟩
      exact hsubset
    · intro hall
      exact hall full rfl

variable (source : Text)

/-- A tool `search` of a source that requires some properties. -/
def searchTool (names : List Text) : Record Empty :=
  [(Proxy.nameKey, .str "search"), (catalogSourceKey, .str source),
    (schemaKey, .obj [("properties", .obj (names.map fun name => (name, .obj []))),
      ("required", .arr (names.map .str))])]

def aggregatorSearch : Record Empty := searchTool "cyt_mcp".toList ["query".toList]

def executorSearch : Record Empty := searchTool "executor".toList ["query".toList, "site".toList]

theorem requiredItems_searchTool :
    requiredItems (inputSchemaFromTool (searchTool source names)) = names.map .str := rfl

theorem requiredAmongProperties_searchTool :
    RequiredAmongProperties (inputSchemaFromTool (searchTool source names)) := by
  have hproperties : inputSchemaProperties (inputSchemaFromTool (searchTool source names)) =
      (names.map fun name => (name, Json.obj (φ := Empty) [])).map Prod.fst := rfl
  intro item hitem
  rw [requiredItems_searchTool] at hitem
  obtain ⟨name, hname, rfl⟩ := mem_map.mp hitem
  refine ⟨name, ?_, rfl⟩
  rw [hproperties, List.map_map]
  exact mem_map.mpr ⟨name, hname, rfl⟩

theorem requiredAmongProperties_searches : ∀ item ∈ [aggregatorSearch, executorSearch],
    RequiredAmongProperties (inputSchemaFromTool item) := by
  intro item hitem
  rcases mem_cons.mp hitem with rfl | hitem
  · exact requiredAmongProperties_searchTool _ _
  · obtain rfl := mem_singleton.mp hitem
    exact requiredAmongProperties_searchTool _ _

/-- The fuller of the two tools is injected by the contract. -/
theorem followsContract_executorSearch :
    ∃ out, injectedTools plainExamplesEnv [aggregatorSearch, executorSearch] none executorSearch
      .active = some [out] ∧ FollowsContract executorSearch .active out := by
  have hnone : ∀ item ∈ (none : Option (Record Empty)),
      item ∈ [aggregatorSearch, executorSearch] := by
    intro item hitem
    cases hitem
  refine (followsContract_iff plainExamplesEnv requiredAmongProperties_searches hnone
    (mem_cons_of_mem _ mem_cons_self) .active).mpr (.inr fun schema hschema => ?_)
  have hmem := (mem_filter.mp (argmax_mem hschema)).1
  obtain ⟨tool, htool, rfl⟩ := mem_map.mp hmem
  have hall : ∀ tool ∈ [executorSearch, aggregatorSearch, executorSearch],
      requiredItems (inputSchemaFromTool tool) ⊆
        requiredItems (inputSchemaFromTool executorSearch) := by
    intro tool htool
    rcases mem_cons.mp htool with rfl | htool
    · exact List.Subset.refl _
    rcases mem_cons.mp htool with rfl | htool
    · exact map_subset Json.str (cons_subset_cons _ (nil_subset _))
    · obtain rfl := mem_singleton.mp htool
      exact List.Subset.refl _
  exact hall tool htool

/-- The other requires the property of its namesake. -/
theorem aggregatorSearch_injected :
    (∀ item ∈ [aggregatorSearch, executorSearch],
      RequiredAmongProperties (inputSchemaFromTool item)) ∧
    ¬ ∃ out, injectedTools plainExamplesEnv [aggregatorSearch, executorSearch] none
      aggregatorSearch .active = some [out] ∧ FollowsContract aggregatorSearch .active out := by
  refine ⟨requiredAmongProperties_searches, ?_⟩
  rintro ⟨out, hout, hcontract⟩
  have hproperties : (injectedTools plainExamplesEnv [aggregatorSearch, executorSearch] none
      aggregatorSearch .active).map (List.map fun out =>
        inputSchemaProperties (inputSchemaFromTool out)) =
      some [["query".toList, "site".toList]] := by decide
  rw [hout] at hproperties
  have hout : inputSchemaProperties (inputSchemaFromTool out) =
      ["query".toList, "site".toList] := head_eq_of_cons_eq (Option.some.inj hproperties)
  have hsite : "site".toList ∈ inputSchemaProperties (inputSchemaFromTool aggregatorSearch) := by
    refine hcontract.own_properties ?_
    rw [hout]
    decide
  exact absurd hsite (by decide)

end ClearYourTools.Pruners
