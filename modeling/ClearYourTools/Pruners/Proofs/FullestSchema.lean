import Mathlib.Data.Prod.Lex
import ClearYourTools.Pruners.ToolsFilter

/-!
# The fullest schema and what is merged from it

`pick_fullest_input_schema` takes the first of the most complete schemas, and
`ensure_required_properties_in_schema` adds what that schema requires: the properties and the
required names of the outcome are those of both.
-/

namespace ClearYourTools.Pruners

open Misc CytClient Tiers ToolExamples List
open Injection.SessionLog (dictOrEmpty)
open Json (get? PyFormat)

variable {φ : Type} {p : PyFormat φ}

/-- The completeness of a schema: required properties count first. -/
def schemaRank (p : PyFormat φ) (schema : Record φ) : ℕ ×ₗ ℕ :=
  toLex (schemaCompletenessScore p schema)

variable (tools : List (Record φ))

/-- The schemas of some tools, without the empty ones. -/
def givenSchemas : List (Record φ) :=
  (tools.map inputSchemaFromTool).filter fun schema => !schema.isEmpty

theorem scoreAbove_iff {a b : Record φ} :
    scoreAbove (schemaCompletenessScore p a) (schemaCompletenessScore p b) = true ↔
      schemaRank p b < schemaRank p a := by
  rw [scoreAbove, schemaRank, schemaRank, Prod.Lex.toLex_lt_toLex, Bool.or_eq_true,
    Bool.and_eq_true, decide_eq_true_iff, decide_eq_true_iff, beq_iff_eq]
  exact or_congr Iff.rfl (and_congr_left' eq_comm)

variable {schema : Record φ}

theorem ne_nil_of_mem_givenSchemas {tools : List (Record φ)} (h : schema ∈ givenSchemas tools) :
    schema ≠ [] := by
  have hfilter := (mem_filter.mp h).2
  rintro rfl
  cases hfilter

theorem pickFullestInputSchema_append (tool : Record φ) :
    pickFullestInputSchema p (tools ++ [tool]) =
      if (inputSchemaFromTool tool).isEmpty then pickFullestInputSchema p tools
      else if (pickFullestInputSchema p tools).isEmpty ||
          scoreAbove (schemaCompletenessScore p (inputSchemaFromTool tool))
            (schemaCompletenessScore p (pickFullestInputSchema p tools)) then
        inputSchemaFromTool tool
      else pickFullestInputSchema p tools := by
  rw [pickFullestInputSchema, foldl_append]
  rfl

theorem givenSchemas_append (tool : Record φ) :
    givenSchemas (tools ++ [tool]) = if (inputSchemaFromTool tool).isEmpty then givenSchemas tools
      else givenSchemas tools ++ [inputSchemaFromTool tool] := by
  rw [givenSchemas, map_append, filter_append, map_singleton, filter_singleton]
  cases (inputSchemaFromTool tool).isEmpty with
  | true => exact List.append_nil _
  | false => rfl

theorem pickFullestInputSchema_eq :
    pickFullestInputSchema p tools = ((givenSchemas tools).argmax (schemaRank p)).getD [] := by
  induction tools using List.reverseRecOn with
  | nil => rfl
  | append_singleton tools tool ih =>
    rw [pickFullestInputSchema_append, givenSchemas_append, ih]
    cases (inputSchemaFromTool tool).isEmpty with
    | true => rfl
    | false =>
      rw [if_neg Bool.false_ne_true, if_neg Bool.false_ne_true, argmax_concat]
      cases hbest : (givenSchemas tools).argmax (schemaRank p) with
      | none => rfl
      | some best =>
        have hne : best.isEmpty = false :=
          isEmpty_eq_false_iff.mpr (ne_nil_of_mem_givenSchemas (argmax_mem hbest))
        rw [Option.getD_some, hne, Bool.false_or]
        dsimp only
        by_cases habove : schemaRank p best < schemaRank p (inputSchemaFromTool tool)
        · rw [if_pos (scoreAbove_iff.mpr habove), if_pos habove, Option.getD_some]
        · rw [if_neg fun h => habove (scoreAbove_iff.mp h), if_neg habove, Option.getD_some]

theorem argmax_cons_cons_of_le {α β : Type} [LinearOrder β] {f : α → β} {a b : α} (l : List α)
    (h : f b ≤ f a) : (a :: b :: l).argmax f = (a :: l).argmax f := by
  rw [argmax_cons, argmax_cons, argmax_cons]
  cases l.argmax f with
  | none => exact if_neg (not_lt_of_ge h)
  | some c =>
    dsimp only
    by_cases hbc : f b < f c
    · rw [if_pos hbc]
    · rw [if_neg hbc]
      have hac : ¬ f a < f c := fun hac => hbc (lt_of_le_of_lt h hac)
      rw [if_neg hac]
      exact if_neg (not_lt_of_ge h)

/-- The `required` list of a schema. -/
def requiredItems (schema : Record φ) : List (Json φ) :=
  match get? schema "required" with
  | some (.arr items) => items
  | _ => []

/-- The schema lists as required only names that are among its properties. -/
def RequiredAmongProperties (schema : Record φ) : Prop :=
  ∀ item ∈ requiredItems schema, ∃ name ∈ inputSchemaProperties schema, item = .str name

theorem isSome_get?_iff {fields : Record φ} {key : Text} :
    (get? fields key).isSome = true ↔ key ∈ fields.map Prod.fst := by
  rw [← Option.ne_none_iff_isSome, ne_eq, Json.get?_eq_none_iff, not_not]

theorem contains_inputSchemaProperties {properties : Record φ}
    (h : get? schema "properties" = some (.obj properties)) (name : Text) :
    (inputSchemaProperties schema).contains name = (get? properties name).isSome := by
  rw [inputSchemaProperties, h, Bool.eq_iff_iff, contains_iff_mem, isSome_get?_iff]
  rfl

theorem schemaRequiredPropertyNames_eq (schema : Record φ) :
    schemaRequiredPropertyNames p schema = ((requiredItems schema).map (Json.toStr p)).filter
        (inputSchemaProperties schema).contains := by
  unfold schemaRequiredPropertyNames requiredItems
  split
  · rename_i properties names hproperties hrequired
    rw [hrequired, funext (contains_inputSchemaProperties hproperties)]
  rename_i hnot
  split
  · rename_i items hrequired
    have hempty : inputSchemaProperties schema = [] := by
      unfold inputSchemaProperties dictOrEmpty
      split
      · rename_i properties hproperties
        exact absurd hrequired (hnot properties items hproperties)
      · rfl
    rw [hempty]
    exact (filter_eq_nil_iff.mpr fun _ _ => Bool.false_ne_true).symm
  · rfl

theorem map_schemaRequiredPropertyNames (h : RequiredAmongProperties schema) :
    (schemaRequiredPropertyNames p schema).map .str = requiredItems schema := by
  have hkeep : ∀ name ∈ (requiredItems schema).map (Json.toStr p),
      (inputSchemaProperties schema).contains name = true := by
    intro name hname
    obtain ⟨item, hitem, rfl⟩ := mem_map.mp hname
    obtain ⟨name, hmem, rfl⟩ := h item hitem
    exact contains_iff_mem.mpr hmem
  rw [schemaRequiredPropertyNames_eq, filter_eq_self.mpr hkeep, List.map_map]
  refine (map_congr_left fun item hitem => ?_).trans (map_id _)
  obtain ⟨name, -, rfl⟩ := h item hitem
  rfl

theorem mem_schemaRequiredPropertyNames (h : RequiredAmongProperties schema) {name : Text} :
    name ∈ schemaRequiredPropertyNames p schema ↔ .str name ∈ requiredItems schema := by
  rw [← map_schemaRequiredPropertyNames (p := p) h, mem_map]
  constructor
  · intro hname
    exact ⟨name, hname, rfl⟩
  · rintro ⟨other, hother, heq⟩
    exact Json.str.inj heq ▸ hother

/-- The properties after those of some names were added where they were missing. -/
theorem isSome_get?_addProperties {fullProps : Record φ} (names : List Text) (props : Record φ)
    (hfull : ∀ name ∈ names, (get? fullProps name).isSome = true) (key : Text) :
    (get? (names.foldl (fun props name =>
      match get? props name, get? fullProps name with
      | none, some v => Json.set props name v
      | _, _ => props) props) key).isSome = true ↔
        (get? props key).isSome = true ∨ key ∈ names := by
  induction names generalizing props with
  | nil => exact (or_iff_left not_mem_nil).symm
  | cons name names ih =>
    have hstep : (get? (match get? props name, get? fullProps name with
        | none, some v => Json.set props name v
        | _, _ => props) key).isSome = true ↔ (get? props key).isSome = true ∨ key = name := by
      obtain ⟨v, hv⟩ := Option.isSome_iff_exists.mp (hfull name mem_cons_self)
      rw [hv]
      cases hprops : get? props name with
      | none =>
        dsimp only
        rw [Json.get?_set]
        by_cases hkey : key = name
        · simp [hkey]
        · simp [hkey]
      | some old =>
        dsimp only
        refine (or_iff_left_of_imp ?_).symm
        rintro rfl
        rw [hprops]
        rfl
    rw [foldl_cons, ih _ fun other hother => hfull other (mem_cons_of_mem _ hother), hstep,
      mem_cons, or_assoc]

theorem mem_filterMap_str? {items : List (Json φ)} {name : Text} :
    name ∈ items.filterMap Json.str? ↔ .str name ∈ items := by
  rw [mem_filterMap]
  constructor
  · rintro ⟨item, hitem, hname⟩
    cases item with
    | str text => exact Option.some.inj hname ▸ hitem
    | null => cases hname
    | bool => cases hname
    | int => cases hname
    | float => cases hname
    | arr => cases hname
    | obj => cases hname
  · intro hname
    exact ⟨.str name, hname, rfl⟩

theorem mem_foldl_addName (names known : List Text) (name : Text) :
    name ∈ names.foldl (fun names name =>
      if names.contains name then names else names ++ [name]) known ↔
        name ∈ known ∨ name ∈ names := by
  induction names generalizing known with
  | nil => exact (or_iff_left not_mem_nil).symm
  | cons first names ih =>
    rw [foldl_cons, ih, mem_cons, ← or_assoc]
    refine or_congr_left ?_
    split
    · rename_i hknown
      refine (or_iff_left_of_imp ?_).symm
      rintro rfl
      exact contains_iff_mem.mp hknown
    · rw [mem_append, mem_singleton]

theorem inputSchemaFromTool_schema (schema : Record φ) :
    inputSchemaFromTool [(schemaKey, .obj schema)] = schema := by
  cases schema <;> rfl

theorem requiredItems_of_inputSchemaProperties (h : RequiredAmongProperties schema)
    (hnone : inputSchemaProperties schema = []) : requiredItems schema = [] := by
  refine eq_nil_iff_forall_not_mem.mpr fun item hitem => ?_
  obtain ⟨name, hname, -⟩ := h item hitem
  rw [hnone] at hname
  cases hname

theorem inputSchemaProperties_set (schema properties : Record φ) :
    inputSchemaProperties (Json.set schema "properties" (.obj properties)) =
      properties.map Prod.fst := by
  rw [inputSchemaProperties, Json.get?_set_self]
  rfl

theorem inputSchemaProperties_set_required (schema : Record φ) (required : Json φ) :
    inputSchemaProperties (Json.set schema "required" required) = inputSchemaProperties schema := by
  rw [inputSchemaProperties, Json.get?_set_of_ne (by decide)]
  rfl

theorem requiredItems_set (schema : Record φ) (items : List (Json φ)) :
    requiredItems (Json.set schema "required" (.arr items)) = items := by
  rw [requiredItems, Json.get?_set_self]

theorem set_ne_nil (fields : Record φ) (key : Text) (v : Json φ) : Json.set fields key v ≠ [] := by
  intro h
  have hget := Json.get?_set_self fields key v
  rw [h] at hget
  cases hget

theorem requiredItems_set_properties (schema : Record φ) (properties : Json φ) :
    requiredItems (Json.set schema "properties" properties) = requiredItems schema := by
  rw [requiredItems, Json.get?_set_of_ne (by decide)]
  rfl

/-- What a merge leaves: the properties of the schema and the required ones of the full schema, and
the required names of both. -/
structure MergesRequired (schema full merged : Record φ) : Prop where
  ne_nil : merged ≠ []
  properties : ∀ name, name ∈ inputSchemaProperties merged ↔
    name ∈ inputSchemaProperties schema ∨ .str name ∈ requiredItems full
  required : ∀ item, item ∈ requiredItems merged ↔
    item ∈ requiredItems schema ∨ item ∈ requiredItems full

theorem ensure_spec_of_ne_nil {full : Record φ} (hne : schema ≠ [])
    (hschema : RequiredAmongProperties schema) (hfull : RequiredAmongProperties full) :
    ∃ merged, ensureRequiredPropertiesInSchema p schema full = some merged ∧
      MergesRequired schema full merged := by
  unfold ensureRequiredPropertiesInSchema
  rw [inputSchemaFromTool_schema, if_neg (by rwa [List.isEmpty_iff])]
  dsimp only
  split
  · rename_i fullProps hfullProps
    have hknown : ∀ name ∈ schemaRequiredPropertyNames p full,
        (get? fullProps name).isSome = true := by
      intro name hname
      rw [schemaRequiredPropertyNames_eq] at hname
      rw [← contains_inputSchemaProperties hfullProps]
      exact (mem_filter.mp hname).2
    have hprops := isSome_get?_addProperties (schemaRequiredPropertyNames p full)
      (dictOrEmpty (get? schema "properties")) hknown
    generalize (schemaRequiredPropertyNames p full).foldl _ _ = props at hprops ⊢
    have hnames : ∀ name, name ∈ props.map Prod.fst ↔
        name ∈ inputSchemaProperties schema ∨ .str name ∈ requiredItems full := by
      intro name
      rw [← isSome_get?_iff, hprops, isSome_get?_iff, mem_schemaRequiredPropertyNames hfull]
      rfl
    split
    · rename_i hempty
      have hitems : requiredItems full = [] := by
        rw [← map_schemaRequiredPropertyNames (p := p) hfull, List.isEmpty_iff.mp hempty]
        rfl
      refine ⟨_, rfl, set_ne_nil _ _ _, fun name => ?_, fun item => ?_⟩
      · rw [inputSchemaProperties_set, hnames]
      · rw [requiredItems_set_properties, hitems, or_iff_left not_mem_nil]
    · have hstrings : (requiredItems schema).any isUnhashable = false := by
        refine any_eq_false.mpr fun item hitem => ?_
        obtain ⟨name, -, rfl⟩ := hschema item hitem
        exact Bool.false_ne_true
      have hsome : ∀ item ∈ requiredItems schema ++ requiredItems full, ∃ name,
          item = .str name ∧ name ∈ props.map Prod.fst := by
        intro item hitem
        rcases mem_append.mp hitem with hitem | hitem
        · obtain ⟨name, hname, rfl⟩ := hschema item hitem
          exact ⟨name, rfl, (hnames name).mpr (.inl hname)⟩
        · obtain ⟨name, -, rfl⟩ := hfull item hitem
          exact ⟨name, rfl, (hnames name).mpr (.inr hitem)⟩
      refine ⟨_, if_neg (ne_true_of_eq_false hstrings), set_ne_nil _ _ _, fun name => ?_,
        fun item => ?_⟩
      · rw [inputSchemaProperties_set_required, inputSchemaProperties_set, hnames]
      · have hmerged : ∀ name, name ∈ (schemaRequiredPropertyNames p full ++
            (requiredItems schema).filterMap Json.str?).foldl (fun names name =>
              if names.contains name then names else names ++ [name]) [] ↔
            .str name ∈ requiredItems schema ∨ .str name ∈ requiredItems full := by
          intro name
          rw [mem_foldl_addName, or_iff_right not_mem_nil, mem_append,
            mem_schemaRequiredPropertyNames hfull, mem_filterMap_str?]
          exact or_comm
        rw [requiredItems_set, mem_map]
        constructor
        · rintro ⟨name, hname, rfl⟩
          exact (hmerged name).mp (mem_filter.mp hname).1
        · intro hitem
          obtain ⟨name, rfl, hname⟩ := hsome item (mem_append.mpr hitem)
          exact ⟨name, mem_filter.mpr ⟨(hmerged name).mpr hitem, isSome_get?_iff.mpr hname⟩, rfl⟩
  · rename_i hnot
    have hnone : inputSchemaProperties full = [] := by
      unfold inputSchemaProperties dictOrEmpty
      split
      · rename_i properties hproperties
        exact absurd hproperties (hnot properties)
      · rfl
    have hitems := requiredItems_of_inputSchemaProperties hfull hnone
    refine ⟨schema, rfl, hne, fun name => ?_, fun item => ?_⟩
    · rw [hitems, or_iff_left not_mem_nil]
    · rw [hitems, or_iff_left not_mem_nil]

theorem ensureRequiredPropertiesInSchema_spec {full : Record φ}
    (hschema : RequiredAmongProperties schema) (hfull : RequiredAmongProperties full) :
    ∃ merged, ensureRequiredPropertiesInSchema p schema full = some merged ∧
      MergesRequired schema full merged := by
  cases hempty : schema.isEmpty with
  | false => exact ensure_spec_of_ne_nil (isEmpty_eq_false_iff.mp hempty) hschema hfull
  | true =>
    obtain rfl := List.isEmpty_iff.mp hempty
    -- an empty schema stands for one without properties
    let bare : Record φ := [("type", .str "object"), ("properties", .obj [])]
    have hbare : RequiredAmongProperties bare := by
      intro item hitem
      cases hitem
    obtain ⟨merged, hmerged, hspec⟩ := ensure_spec_of_ne_nil (p := p) (cons_ne_nil _ _) hbare hfull
    exact ⟨merged, hmerged, hspec.ne_nil, hspec.properties, hspec.required⟩

end ClearYourTools.Pruners
