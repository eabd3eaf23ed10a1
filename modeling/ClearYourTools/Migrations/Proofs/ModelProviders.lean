import ClearYourTools.Migrations.ModelProviders

/-!
# What the provider registry keeps of an entry

After the revision all entries of a nick read one row: of each field it has the value of the last
entry that had one, then that of the user's own rows.
-/

namespace ClearYourTools.Migrations

open Misc CytClient List
open Json (get? noFloats truthy deepMerge orElse get?_set_of_ne get?_set_self get?_overlaid)
open Option (isSome_iff_exists some_or or_none)

variable {φ : Type} (p : Json.PyFormat φ)

/-- The row of a nick, empty if there is none. -/
def rowOf (registry : Registry φ) (nick : Text) : Record φ := (registry.get? nick).getD []

/-- Rows that are put into a registry one after the other. -/
def upsertAll (registry : Registry φ) (rows : List (Text × Record φ)) : Registry φ :=
  rows.foldl (fun registry row => upsertProvider registry row.1 row.2) registry

variable (rows : List (Text × Record φ))

/-- The last value of a field in the rows of a nick. -/
def lastField (nick field : Text) : Option (Json φ) :=
  rows.reverse.findSome? fun row => if row.1 = nick then get? row.2 field else none

/-- There is a row of the nick. -/
def HasRow (nick : Text) : Prop := ∃ row ∈ rows, row.1 = nick

theorem lastField_concat (row : Text × Record φ) (nick field : Text) :
    lastField (rows ++ [row]) nick field =
      (if row.1 = nick then get? row.2 field else none).or (lastField rows nick field) := by
  rw [lastField, reverse_append, reverse_singleton, singleton_append, findSome?_cons, lastField]
  cases (if row.1 = nick then get? row.2 field else none) <;> rfl

variable {nick field : Text}

theorem lastField_eq_none_iff {rows : List (Text × Record φ)} :
    lastField rows nick field = none ↔ ∀ row ∈ rows, row.1 = nick → get? row.2 field = none := by
  rw [lastField, findSome?_eq_none_iff]
  constructor
  · intro h row hrow hnick
    have hnone := h row (mem_reverse.mpr hrow)
    rw [if_pos hnick] at hnone
    exact hnone
  · intro h row hrow
    split
    · rename_i hnick
      exact h row (mem_reverse.mp hrow) hnick
    · rfl

theorem get?_withProvider (row : Record φ) (nick field : Text) :
    get? (withProvider row nick) field =
      if field = providerKey then (get? row providerKey).or (some (.str nick))
      else get? row field := by
  unfold withProvider
  by_cases hfield : field = providerKey
  · rw [if_pos hfield, hfield]
    cases hprovider : get? row providerKey with
    | none => exact get?_set_self row providerKey (.str nick)
    | some provider => exact hprovider
  · rw [if_neg hfield]
    split
    · exact get?_set_of_ne hfield _
    · rfl

variable (registry : Registry φ)

theorem rowOf_upsertProvider (nick nick' : Text) (fields : Record φ) :
    rowOf (upsertProvider registry nick fields) nick' = if nick' = nick then
        withProvider (Json.set (Json.overlaid (rowOf registry nick) fields) providerNickKey
          (.str nick)) nick
      else rowOf registry nick' := by
  rw [rowOf, upsertProvider, Dict.get?_set]
  split <;> rfl

theorem upsertAll_concat (rows : List (Text × Record φ))
    (row : Text × Record φ) : upsertAll registry (rows ++ [row]) =
      upsertProvider (upsertAll registry rows) row.1 row.2 := foldl_concat _ _ _ _

theorem isSome_upsertAll (rows : List (Text × Record φ)) (nick : Text) :
    ((upsertAll registry rows).get? nick).isSome ↔
      HasRow rows nick ∨ (registry.get? nick).isSome := by
  induction rows using List.reverseRecOn with
  | nil =>
    constructor
    · exact .inr
    · rintro (⟨row, hrow, -⟩ | h)
      · cases hrow
      · exact h
  | append_singleton rows row ih =>
    have hrows : HasRow (rows ++ [row]) nick ↔ nick = row.1 ∨ HasRow rows nick := by
      constructor
      · rintro ⟨row', hrow', hnick⟩
        rcases mem_append.mp hrow' with hrow' | hrow'
        · exact .inr ⟨row', hrow', hnick⟩
        · rw [mem_singleton.mp hrow'] at hnick
          exact .inl hnick.symm
      · rintro (hnick | ⟨row', hrow', hnick⟩)
        · exact ⟨row, mem_append_right rows (mem_singleton_self row), hnick.symm⟩
        · exact ⟨row', mem_append_left [row] hrow', hnick⟩
    rw [upsertAll_concat, hrows, upsertProvider, Dict.get?_set, or_assoc, ← ih]
    by_cases hnick : nick = row.1
    · rw [if_pos hnick]
      exact ⟨fun _ => .inl hnick, fun _ => rfl⟩
    · rw [if_neg hnick]
      exact ⟨.inr, fun h => h.resolve_left hnick⟩

theorem get?_rowOf_upsertAll (rows : List (Text × Record φ)) (nick : Text)
    (hprovider : field ≠ providerKey) (hnick : field ≠ providerNickKey) :
    get? (rowOf (upsertAll registry rows) nick) field =
      (lastField rows nick field).or (get? (rowOf registry nick) field) := by
  induction rows using List.reverseRecOn with
  | nil => rfl
  | append_singleton rows row ih =>
    rw [upsertAll_concat, rowOf_upsertProvider, lastField_concat]
    by_cases hrow : nick = row.1
    · rw [if_pos hrow, if_pos hrow.symm, get?_withProvider, if_neg hprovider,
        get?_set_of_ne hnick, get?_overlaid, ← hrow, ih, Option.or_assoc]
    · rw [if_neg hrow, if_neg (Ne.symm hrow), ih, Option.none_or]

theorem get?_rowOf_upsertAll_provider (rows : List (Text × Record φ))
    (nick : Text) (hrow : HasRow rows nick) :
    get? (rowOf (upsertAll registry rows) nick) providerKey = (lastField rows nick providerKey).or
        ((get? (rowOf registry nick) providerKey).or (some (.str nick))) := by
  have hne : providerKey ≠ providerNickKey := by decide
  -- before the first row of the nick the registry has what it had at the start
  have hstep : ∀ rows : List (Text × Record φ),
      (get? (rowOf (upsertAll registry rows) nick) providerKey).or (some (.str nick)) =
        (lastField rows nick providerKey).or
          ((get? (rowOf registry nick) providerKey).or (some (.str nick))) := by
    intro rows
    induction rows using List.reverseRecOn with
    | nil => rfl
    | append_singleton rows row ih =>
      rw [upsertAll_concat, rowOf_upsertProvider, lastField_concat]
      by_cases hrow : nick = row.1
      · rw [if_pos hrow, if_pos hrow.symm, get?_withProvider, if_pos rfl, get?_set_of_ne hne,
          get?_overlaid, ← hrow, Option.or_assoc, Option.or_assoc, Option.or_assoc, ← ih,
          Option.or_self]
      · rw [if_neg hrow, if_neg (Ne.symm hrow), ih, Option.none_or]
  have hsome : ∀ rows : List (Text × Record φ), HasRow rows nick →
      (get? (rowOf (upsertAll registry rows) nick) providerKey).isSome := by
    intro rows
    induction rows using List.reverseRecOn with
    | nil =>
      rintro ⟨row, hrow, -⟩
      cases hrow
    | append_singleton rows row ih =>
      rintro ⟨row', hrow', hnick⟩
      rw [upsertAll_concat, rowOf_upsertProvider]
      by_cases hrow : nick = row.1
      · rw [if_pos hrow, get?_withProvider, if_pos rfl, Option.isSome_or]
        exact Bool.or_true _
      · rw [if_neg hrow]
        rcases mem_append.mp hrow' with hrow' | hrow'
        · exact ih ⟨row', hrow', hnick⟩
        · rw [mem_singleton.mp hrow'] at hnick
          exact absurd hnick.symm hrow
  obtain ⟨provider, hprovider⟩ := isSome_iff_exists.mp (hsome rows hrow)
  rw [← hstep rows, hprovider, some_or]

theorem get?_rowOf_upsertAll_nick (rows : List (Text × Record φ))
    (nick : Text) (hrow : HasRow rows nick) :
    get? (rowOf (upsertAll registry rows) nick) providerNickKey = some (.str nick) := by
  have hne : providerNickKey ≠ providerKey := by decide
  induction rows using List.reverseRecOn with
  | nil =>
    obtain ⟨row, hrow, -⟩ := hrow
    cases hrow
  | append_singleton rows row ih =>
    obtain ⟨row', hrow', hnick⟩ := hrow
    rw [upsertAll_concat, rowOf_upsertProvider]
    by_cases hrow : nick = row.1
    · rw [if_pos hrow, get?_withProvider, if_neg hne, get?_set_self, hrow]
    · rw [if_neg hrow]
      rcases mem_append.mp hrow' with hrow' | hrow'
      · exact ih ⟨row', hrow', hnick⟩
      · rw [mem_singleton.mp hrow'] at hnick
        exact absurd hnick.symm hrow

/-- The row that an entry leaves in the registry. -/
def inlineRow (entry : Record φ) : Option (Text × Record φ) :=
  (defaultProviderNick p entry).bind fun nick =>
    if inlineFields entry = [] then none else some (nick, inlineFields entry)

/-- The rows that the revision puts into the registry. -/
def movedRows (models : Models φ) : List (Text × Record φ) :=
  listedRows p models.providers ++ models.entries.filterMap (inlineRow p)

theorem foldl_migrateInto (entries : List (Record φ)) (registry : Registry φ) :
    entries.foldl (migrateInto p) registry =
      upsertAll registry (entries.filterMap (inlineRow p)) := by
  rw [upsertAll, foldl_filterMap]
  congr 1
  funext registry entry
  unfold migrateInto inlineRow
  cases defaultProviderNick p entry with
  | none => rfl
  | some nick =>
    dsimp only [Option.bind_some]
    split <;> rfl

theorem migratedRegistry_eq (models : Models φ) :
    migratedRegistry p models =
      upsertAll (providerRegistryIndex p models.providers) (movedRows p models) := by
  rw [migratedRegistry, foldl_migrateInto, movedRows, upsertAll, upsertAll, foldl_append]
  rfl

theorem mem_listedRows {providers : Option (Json φ)} {row : Text × Record φ}
    (hrow : row ∈ iterNormalizedProviders p providers) : row ∈ listedRows p providers := by
  unfold listedRows
  split
  · exact (not_mem_nil hrow).elim
  · exact hrow

theorem providerRegistryIndex_cases (providers : Option (Json φ)) (nick : Text) :
    (providerRegistryIndex p providers).get? nick = none ∨
      ∃ row ∈ listedRows p providers, row.1 = nick ∧
        (providerRegistryIndex p providers).get? nick = some row.2 := by
  rw [providerRegistryIndex, Dict.get?_writeAll, Dict.get?_empty, or_none]
  cases hlast : ((iterNormalizedProviders p providers).filter fun row =>
      decide (row.1 = nick)).getLast? with
  | none => exact .inl rfl
  | some row =>
    have hmem := mem_filter.mp (mem_of_getLast? hlast)
    exact .inr ⟨row, mem_listedRows p hmem.1, of_decide_eq_true hmem.2, rfl⟩

theorem isSome_migratedRegistry (models : Models φ) (nick : Text) :
    ((migratedRegistry p models).get? nick).isSome ↔ HasRow (movedRows p models) nick := by
  rw [migratedRegistry_eq, isSome_upsertAll, or_iff_left_iff_imp]
  intro hsome
  rcases providerRegistryIndex_cases p models.providers nick with hnone | ⟨row, hrow, hnick, -⟩
  · rw [hnone] at hsome
    cases hsome
  · exact ⟨row, mem_append_left _ hrow, hnick⟩

variable {models : Models φ}

theorem get?_rowOf_index (hlast : lastField (movedRows p models) nick field = none) :
    get? (rowOf (providerRegistryIndex p models.providers) nick) field = none := by
  unfold rowOf
  rcases providerRegistryIndex_cases p models.providers nick with hnone | ⟨row, hrow, hnick, hsome⟩
  · rw [hnone]
    rfl
  · rw [hsome]
    exact lastField_eq_none_iff.mp hlast row (mem_append_left _ hrow) hnick

theorem get?_migratedRow (models : Models φ) (nick : Text) (hprovider : field ≠ providerKey)
    (hnick : field ≠ providerNickKey) :
    get? (rowOf (migratedRegistry p models) nick) field =
      lastField (movedRows p models) nick field := by
  rw [migratedRegistry_eq, get?_rowOf_upsertAll _ _ _ hprovider hnick]
  cases hlast : lastField (movedRows p models) nick field with
  | none => rw [get?_rowOf_index p hlast, or_none]
  | some value => rfl

theorem get?_migratedRow_provider (models : Models φ) (hrow : HasRow (movedRows p models) nick) :
    get? (rowOf (migratedRegistry p models) nick) providerKey =
      (lastField (movedRows p models) nick providerKey).or (some (.str nick)) := by
  rw [migratedRegistry_eq, get?_rowOf_upsertAll_provider _ _ _ hrow]
  cases hlast : lastField (movedRows p models) nick providerKey with
  | none => rw [get?_rowOf_index p hlast, Option.none_or]
  | some value => rfl

theorem nickedRow_obj {row : Record φ} (hnick : get? row providerNickKey = some (.str nick)) :
    nickedRow p (.obj row) = bif nick.isEmpty then none
      else some (nick, Json.set row providerKey (rowProvider p row nick)) := by
  have hne : providerNickKey ≠ providerKey := by decide
  have hnormalized : normalizeProviderEntry p row =
      some (Json.set row providerKey (rowProvider p row nick)) := by
    unfold normalizeProviderEntry
    rw [hnick]
    rfl
  unfold nickedRow
  dsimp only
  rw [hnormalized]
  dsimp only
  rw [get?_set_of_ne hne, hnick]
  cases nick <;> rfl

variable {registry : Registry φ}

theorem iterNormalizedProviders_sortedRows
    (hnicks : ∀ row ∈ registry.entries, get? row.2 providerNickKey = some (.str row.1)) :
    iterNormalizedProviders p (some (.arr (sortedRows registry))) =
      ((registry.entries.insertionSort fun a b => Bm25Search.textLe a.1 b.1 = true).filter
        fun row => !row.1.isEmpty).map fun row =>
          (row.1, Json.set row.2 providerKey (rowProvider p row.2 row.1)) := by
  rw [iterNormalizedProviders, sortedRows, filterMap_map, ← filterMap_eq_map',
    ← filterMap_eq_filter, filterMap_filterMap]
  apply filterMap_congr
  intro row hrow
  have hnick := hnicks row ((perm_insertionSort _ _).subset hrow)
  rw [Function.comp, nickedRow_obj p hnick, Option.guard]
  cases row.1.isEmpty <;> rfl

theorem nodup_keys_filter (q : Text × Record φ → Bool) :
    (((registry.entries.insertionSort fun a b => Bm25Search.textLe a.1 b.1 = true).filter
      q).map Prod.fst).Nodup := by
  have hperm := (perm_insertionSort (fun a b : Text × Record φ =>
    Bm25Search.textLe a.1 b.1 = true) registry.entries).map Prod.fst
  exact (filter_sublist.map Prod.fst).nodup (hperm.nodup_iff.mpr registry.nodup)

/-- What a reader finds in the rows that the revision writes. -/
theorem exists_iterNormalizedProviders
    (hnicks : ∀ row ∈ registry.entries, get? row.2 providerNickKey = some (.str row.1)) :
    ∃ read : Registry φ,
      iterNormalizedProviders p (some (.arr (sortedRows registry))) = read.entries ∧
      ∀ nick, read.get? nick = if nick = [] then none else (registry.get? nick).map fun row =>
        Json.set row providerKey (rowProvider p row nick) := by
  obtain ⟨sorted, hsorted⟩ : ∃ sorted : Registry φ, sorted.entries =
      (registry.entries.insertionSort fun a b => Bm25Search.textLe a.1 b.1 = true).filter
        fun row => !row.1.isEmpty := ⟨⟨_, nodup_keys_filter _⟩, rfl⟩
  refine ⟨sorted.mapVals fun nick row => Json.set row providerKey (rowProvider p row nick), ?_, ?_⟩
  · rw [iterNormalizedProviders_sortedRows p hnicks, ← hsorted]
    rfl
  · intro nick
    have hmem : ∀ row, sorted.get? nick = some row ↔
        registry.get? nick = some row ∧ (!nick.isEmpty) = true := by
      intro row
      rw [Dict.get?_eq_some_iff, hsorted, mem_filter, (perm_insertionSort _ _).mem_iff,
        Dict.get?_eq_some_iff]
    have hsame : sorted.get? nick = if nick = [] then none else registry.get? nick := by
      apply Option.ext
      intro row
      rw [hmem]
      cases nick with
      | nil =>
        rw [if_pos rfl]
        exact iff_of_false (fun h => nomatch h.2) (fun h => nomatch h)
      | cons c nick => exact and_iff_left rfl
    rw [Dict.get?_mapVals, hsame]
    split <;> rfl

theorem get?_migratedRow_nick (models : Models φ) :
    ∀ row ∈ (migratedRegistry p models).entries,
      get? row.2 providerNickKey = some (.str row.1) := by
  intro row hrow
  have hsome : (migratedRegistry p models).get? row.1 = some row.2 := Dict.get?_of_mem_entries hrow
  have hhas : HasRow (movedRows p models) row.1 := by
    rw [← isSome_migratedRegistry, hsome]
    rfl
  have hnick := get?_rowOf_upsertAll_nick (providerRegistryIndex p models.providers)
    (movedRows p models) row.1 hhas
  rw [← migratedRegistry_eq, rowOf, hsome] at hnick
  exact hnick

theorem iterNormalizedProviders_of_nil (hnil : (migratedRegistry p models).entries = []) :
    iterNormalizedProviders p models.providers = [] := by
  apply eq_nil_iff_forall_not_mem.mpr
  intro row hrow
  have hhas : HasRow (movedRows p models) row.1 :=
    ⟨row, mem_append_left _ (mem_listedRows p hrow), rfl⟩
  obtain ⟨value, hsome⟩ := isSome_iff_exists.mp ((isSome_migratedRegistry p models row.1).mpr hhas)
  have hmem := Dict.mem_entries_of_get? hsome
  rw [hnil] at hmem
  cases hmem

theorem get?_providerRegistry_upgrade (models : Models φ) (nick : Text) :
    (providerRegistry p (upgrade p models)).get? nick =
      match if nick = [] then none else (migratedRegistry p models).get? nick with
      | some row => some (deepMerge (rowOf (bundledProviderRegistry p) nick)
          (Json.set row providerKey (rowProvider p row nick)))
      | none => (bundledProviderRegistry p).get? nick := by
  by_cases hnil : (migratedRegistry p models).entries = []
  · have hproviders : (upgrade p models).providers = models.providers := if_pos hnil
    have hnone : (migratedRegistry p models).get? nick = none := by
      rw [Dict.get?, hnil]
      rfl
    rw [providerRegistry, hproviders, iterNormalizedProviders_of_nil p hnil, hnone, ite_self]
    rfl
  · have hproviders : (upgrade p models).providers =
        some (.arr (sortedRows (migratedRegistry p models))) := if_neg hnil
    obtain ⟨read, hread, hget⟩ := exists_iterNormalizedProviders p (get?_migratedRow_nick p models)
    rw [providerRegistry, hproviders, hread, Dict.get?_foldl_set (fun existing row =>
      deepMerge (existing.getD []) row) read, hget]
    split
    · rfl
    · cases (migratedRegistry p models).get? nick <;> rfl

instance (rows : List (Text × Record φ)) (nick : Text) : Decidable (HasRow rows nick) :=
  inferInstanceAs (Decidable (∃ row ∈ rows, row.1 = nick))

/-- A provider field of the row that all entries of a nick read after the revision: the last inline
value, or the last one of the user's rows, or the bundled one. A row without a provider gets the
nick, or its own `name`, for one. -/
def sharedField (models : Models φ) (nick field : Text) : Option (Json φ) :=
  let rows := movedRows p models
  if nick = [] ∨ ¬ HasRow rows nick then get? (rowOf (bundledProviderRegistry p) nick) field
  else if field = providerKey then
    some ((orElse p ((lastField rows nick providerKey).or (some (.str nick)))
      (orElse p (lastField rows nick "name") none)).getD (.str nick))
  else (lastField rows nick field).or (get? (rowOf (bundledProviderRegistry p) nick) field)

theorem providerField_ne (hfield : field ∈ providerFields) : field ≠ providerNickKey := by
  rintro rfl
  exact absurd hfield (by decide)

/-- A value that is not an object. -/
def isPlain : Json φ → Bool
  | .obj _ => false
  | _ => true

theorem mergedValue_bundled {value : Json φ}
    (hvalue : get? (rowOf (bundledProviderRegistry p) nick) field = some value)
    (overlay : Json φ) : Json.mergedValue value overlay = overlay := by
  have hflat : ((bundledProviderRegistry p).entries.all fun row =>
      row.2.all fun kv => isPlain kv.2) = true := rfl
  have hnot : ∀ fields, value ≠ .obj fields := by
    rintro fields rfl
    unfold rowOf at hvalue
    cases hrow : (bundledProviderRegistry p).get? nick with
    | none =>
      rw [hrow] at hvalue
      cases hvalue
    | some row =>
      rw [hrow] at hvalue
      obtain ⟨before, after, hsplit, -⟩ := lookup_eq_some_iff.mp hvalue
      have hmem : (field, Json.obj fields) ∈ row := by
        change row = _ at hsplit
        rw [hsplit]
        exact mem_append_right before mem_cons_self
      have hall := all_eq_true.mp (all_eq_true.mp hflat _ (Dict.mem_entries_of_get? hrow)) _ hmem
      exact Bool.false_ne_true hall
  cases value with
  | obj fields => exact absurd rfl (hnot fields)
  | _ => exact Json.mergedValue.eq_2 _ _ fun _ _ h _ => by cases h

theorem get?_deepMerge_bundled (nick field : Text) (row : Record φ) :
    get? (deepMerge (rowOf (bundledProviderRegistry p) nick) row) field =
      (get? row field).or (get? (rowOf (bundledProviderRegistry p) nick) field) := by
  rw [Json.get?_deepMerge]
  cases hbundled : get? (rowOf (bundledProviderRegistry p) nick) field with
  | none => cases get? row field <;> rfl
  | some value =>
    cases get? row field with
    | none => rfl
    | some overlay => exact congrArg some (mergedValue_bundled p hbundled overlay)

theorem get?_providerRegistry_field (models : Models φ) (nick : Text)
    (hfield : field ∈ providerFields) :
    get? (rowOf (providerRegistry p (upgrade p models)) nick) field =
      sharedField p models nick field := by
  have hbundled : (if nick = [] then none else (migratedRegistry p models).get? nick) = none →
      get? (rowOf (providerRegistry p (upgrade p models)) nick) field =
        get? (rowOf (bundledProviderRegistry p) nick) field := by
    intro hnone
    rw [rowOf, get?_providerRegistry_upgrade, hnone]
    rfl
  unfold sharedField
  dsimp only
  by_cases hnick : nick = []
  · rw [if_pos (.inl hnick)]
    exact hbundled (if_pos hnick)
  by_cases hrow : HasRow (movedRows p models) nick
  · obtain ⟨row, hsome⟩ := isSome_iff_exists.mp
      ((isSome_migratedRegistry p models nick).mpr hrow)
    have hrowOf : rowOf (migratedRegistry p models) nick = row := by
      rw [rowOf, hsome]
      rfl
    rw [if_neg (not_or.mpr ⟨hnick, not_not_intro hrow⟩), rowOf, get?_providerRegistry_upgrade,
      if_neg hnick, hsome]
    dsimp only [Option.getD_some]
    rw [get?_deepMerge_bundled]
    by_cases hprovider : field = providerKey
    · rw [if_pos hprovider, hprovider, get?_set_self, some_or, rowProvider, ← hrowOf,
        get?_migratedRow_provider p models hrow,
        get?_migratedRow p models nick (by decide) (by decide)]
    · rw [if_neg hprovider, get?_set_of_ne hprovider, ← hrowOf,
        get?_migratedRow p models nick hprovider (providerField_ne hfield)]
  · have hnone : (migratedRegistry p models).get? nick = none :=
      Option.not_isSome_iff_eq_none.mp fun h =>
        hrow ((isSome_migratedRegistry p models nick).mp h)
    rw [if_pos (.inr hrow)]
    apply hbundled
    rw [hnone, ite_self]

/-- The provider that an entry gets from its own and from its row. -/
def resolvedProvider (nick : Option Text) (own row : Option (Json φ)) : Option (Json φ) :=
  ((litellmProviderForEntry p nick own row).map .str).or (own.or row)

theorem get?_mergeModelEntry_provider (models : Models φ) (entry : Record φ) :
    get? (mergeModelEntry p models entry) providerKey =
      resolvedProvider p (routingNick p entry) (get? entry providerKey)
        (get? (baseRow p models entry) providerKey) := by
  unfold mergeModelEntry resolvedProvider
  dsimp only
  split
  · rename_i provider hprovider
    rw [hprovider, get?_set_self]
    rfl
  · rename_i hprovider
    rw [hprovider, get?_overlaid]
    rfl

theorem get?_mergeModelEntry (models : Models φ) (entry : Record φ)
    (hprovider : field ≠ providerKey) :
    get? (mergeModelEntry p models entry) field =
      (get? entry field).or (get? (baseRow p models entry) field) := by
  unfold mergeModelEntry
  dsimp only
  split
  · rw [get?_set_of_ne hprovider, get?_overlaid]
  · exact get?_overlaid _ _ _

theorem get?_baseRow_upgrade (models : Models φ) (entry : Record φ)
    (hfield : field ∈ providerFields) :
    get? (baseRow p (upgrade p models) entry) field =
      (routingNick p entry).bind fun nick => sharedField p models nick field := by
  unfold baseRow
  cases routingNick p entry with
  | none => rfl
  | some nick => exact get?_providerRegistry_field p models nick hfield

variable {entry : Record φ}

theorem migrateEntry_of_none (hnone : defaultProviderNick p entry = none) :
    migrateEntry p entry = entry := by
  unfold migrateEntry
  rw [hnone]

theorem get?_migrateEntry (hnick : defaultProviderNick p entry = some nick) (field : Text) :
    get? (migrateEntry p entry) field =
      if field = providerNickKey then (get? entry providerNickKey).or (some (.str nick))
      else if field ∈ providerFields then none else get? entry field := by
  have hkept : ∀ key, get? (entry.filter fun kv => !providerFields.contains kv.1) key =
      if key ∈ providerFields then none else get? entry key := by
    intro key
    rw [Json.get?_filter_key entry (fun key => !providerFields.contains key)]
    by_cases hkey : key ∈ providerFields
    · rw [if_pos hkey, contains_iff_mem.mpr hkey]
      rfl
    · rw [if_neg hkey, Bool.eq_false_iff.mpr fun h => hkey (contains_iff_mem.mp h)]
      rfl
  have hnickKey : providerNickKey ∉ providerFields := by decide
  unfold migrateEntry
  rw [hnick]
  dsimp only
  by_cases hfield : field = providerNickKey
  · subst hfield
    rw [if_pos rfl, hkept, if_neg hnickKey]
    cases hvalue : get? entry providerNickKey with
    | none =>
      rw [Option.isNone_none, if_pos rfl, get?_set_self]
      rfl
    | some value =>
      rw [Option.isNone_some, if_neg Bool.false_ne_true, hkept, if_neg hnickKey, hvalue]
      rfl
  · rw [if_neg hfield]
    split
    · rw [get?_set_of_ne hfield, hkept]
    · exact hkept field

theorem fieldIs_migrateEntry (entry : Record φ) (nick : Text) :
    fieldIs (migrateEntry p entry) "nick" nick = fieldIs entry "nick" nick := by
  cases hnick : defaultProviderNick p entry with
  | none => rw [migrateEntry_of_none p hnick]
  | some providerNick =>
    unfold fieldIs
    rw [get?_migrateEntry p hnick, if_neg (by decide), if_neg (by decide)]

theorem remoteEntry_upgrade {kind : ModelKind} (hentry : remoteEntry models kind nick = some entry) :
    remoteEntry (upgrade p models) kind nick = some (migrateEntry p entry) := by
  have hremote : (upgrade p models).remote kind = (models.remote kind).map (migrateEntry p) := by
    cases kind <;> rfl
  have hsame : ((fun entry => fieldIs entry "nick" nick) ∘ migrateEntry p) =
      fun entry : Record φ => fieldIs entry "nick" nick :=
    funext fun entry => fieldIs_migrateEntry p entry nick
  unfold remoteEntry at hentry ⊢
  rw [hremote, find?_map, hsame, hentry]
  rfl

/-- The nick under which an entry is looked up after the revision. -/
def migratedNick (entry : Record φ) : Option Text :=
  (defaultProviderNick p entry).or (routingNick p entry)

/-- A provider field that the revision leaves in an entry. -/
def keptField (entry : Record φ) (field : Text) : Option (Json φ) :=
  if (defaultProviderNick p entry).isSome then none else get? entry field

/-- An entry that is moved has no empty `provider_nick`, which would stay in it. -/
def HasNick (entry : Record φ) : Prop :=
  (defaultProviderNick p entry).isSome →
    ∀ value, get? entry providerNickKey = some value → truthy p value = true

theorem get?_migrateEntry_field (entry : Record φ) (hfield : field ∈ providerFields) :
    get? (migrateEntry p entry) field = keptField p entry field := by
  unfold keptField
  cases hnick : defaultProviderNick p entry with
  | none =>
    rw [migrateEntry_of_none p hnick]
    rfl
  | some nick =>
    rw [get?_migrateEntry p hnick, if_neg (providerField_ne hfield), if_pos hfield]
    rfl

theorem defaultProviderNick_ne_nil (hnick : defaultProviderNick p entry = some nick) :
    nick ≠ [] := by
  unfold defaultProviderNick at hnick
  exact bne_iff_ne.mp (Option.filter_eq_some_iff.mp hnick).2

theorem defaultProviderNick_of_truthy {value : Json φ}
    (hvalue : get? entry providerNickKey = some value) (htruthy : truthy p value = true)
    (hnick : defaultProviderNick p entry = some nick) : Json.toStr p value = nick := by
  unfold defaultProviderNick at hnick
  rw [hvalue, orElse, if_pos htruthy] at hnick
  exact Option.some.inj (Option.filter_eq_some_iff.mp hnick).1

theorem routingNick_migrateEntry (hhas : HasNick p entry) :
    routingNick p (migrateEntry p entry) = migratedNick p entry := by
  unfold migratedNick
  cases hnick : defaultProviderNick p entry with
  | none => rw [migrateEntry_of_none p hnick, Option.none_or]
  | some nick =>
    unfold routingNick
    rw [get?_migrateEntry p hnick, if_pos rfl, some_or]
    cases hvalue : get? entry providerNickKey with
    | none =>
      have htruthy : truthy p (.str nick) = true := by
        cases nick with
        | nil => exact absurd rfl (defaultProviderNick_ne_nil p hnick)
        | cons c nick => rfl
      rw [Option.none_or, orElse, if_pos htruthy]
      rfl
    | some value =>
      have htruthy := hhas (by rw [hnick]; rfl) value hvalue
      rw [some_or, orElse, if_pos htruthy]
      exact congrArg some (defaultProviderNick_of_truthy p hvalue htruthy hnick)

/-- An entry that the revision moves under an empty `provider_nick` has no provider afterwards. -/
theorem provider_of_not_hasNick (hnot : ¬ HasNick p entry) (models : Models φ) :
    get? (mergeModelEntry p (upgrade p models) (migrateEntry p entry)) providerKey = none ∧
      get? (mergeModelEntry p models entry) providerKey ≠ none := by
  unfold HasNick at hnot
  push Not at hnot
  obtain ⟨hsome, value, hvalue, hfalsy⟩ := hnot
  obtain ⟨nick, hnick⟩ := isSome_iff_exists.mp hsome
  have hprovider : get? (migrateEntry p entry) providerKey = none := by
    rw [get?_migrateEntry_field p entry mem_cons_self, keptField, if_pos hsome]
  have hrouting : routingNick p (migrateEntry p entry) = none := by
    unfold routingNick
    rw [get?_migrateEntry p hnick, if_pos rfl, hvalue, hprovider, some_or, orElse, if_neg hfalsy]
    rfl
  constructor
  · have hbase : baseRow p (upgrade p models) (migrateEntry p entry) = [] := by
      unfold baseRow
      rw [hrouting]
      rfl
    rw [get?_mergeModelEntry_provider, hrouting, hprovider, hbase]
    rfl
  · -- the nick of the entry can only be its provider
    obtain ⟨provider, hown⟩ : ∃ provider, get? entry providerKey = some provider := by
      cases hown : get? entry providerKey with
      | some provider => exact ⟨provider, rfl⟩
      | none =>
        unfold defaultProviderNick at hnick
        rw [hvalue, orElse, if_neg hfalsy, hown] at hnick
        cases hnick
    rw [get?_mergeModelEntry_provider, hown, resolvedProvider, some_or]
    intro hnone
    exact nomatch (Option.or_eq_none_iff.mp hnone).2

def endpointFields : List Text := [keyVarNameKey, baseUrlKey, domainMatchKey]

/-- What an entry has itself, or else in its row, is what the revision leaves in it, or else puts
into the shared row. -/
def RoutesAlike (models : Models φ) (entry : Record φ) : Prop :=
  HasNick p entry ∧
  (∀ field ∈ endpointFields, (keptField p entry field).or
      ((migratedNick p entry).bind fun nick => sharedField p models nick field) =
    (get? entry field).or (get? (baseRow p models entry) field)) ∧
  resolvedProvider p (migratedNick p entry) (keptField p entry providerKey)
      ((migratedNick p entry).bind fun nick => sharedField p models nick providerKey) =
    resolvedProvider p (routingNick p entry) (get? entry providerKey)
      (get? (baseRow p models entry) providerKey)

/-- The revision keeps the routing of an entry exactly when the shared row has its fields. -/
theorem keepsRouting_iff {models : Models φ} {kind : ModelKind} {nick : Text} {entry : Record φ}
    (hentry : remoteEntry models kind nick = some entry) :
    KeepsRouting p models kind nick entry ↔ RoutesAlike p models entry := by
  have hkeeps : KeepsRouting p models kind nick entry ↔ ∀ field ∈ providerFields,
      get? (mergeModelEntry p (upgrade p models) (migrateEntry p entry)) field =
        get? (mergeModelEntry p models entry) field := by
    unfold KeepsRouting
    rw [remoteEntry_upgrade p hentry]
    constructor
    · rintro ⟨migrated, hmigrated, hsame⟩
      cases hmigrated
      exact hsame
    · intro hsame
      exact ⟨_, rfl, hsame⟩
  have hendpoint : ∀ field ∈ endpointFields, field ∈ providerFields ∧ field ≠ providerKey := by
    decide
  rw [hkeeps]
  by_cases hhas : HasNick p entry
  · have hprovider : get? (mergeModelEntry p (upgrade p models) (migrateEntry p entry))
        providerKey = resolvedProvider p (migratedNick p entry) (keptField p entry providerKey)
          ((migratedNick p entry).bind fun nick => sharedField p models nick providerKey) := by
      rw [get?_mergeModelEntry_provider, get?_baseRow_upgrade p _ _ mem_cons_self,
        routingNick_migrateEntry p hhas, get?_migrateEntry_field p _ mem_cons_self]
    have hfield : ∀ field ∈ endpointFields,
        get? (mergeModelEntry p (upgrade p models) (migrateEntry p entry)) field =
          (keptField p entry field).or
            ((migratedNick p entry).bind fun nick => sharedField p models nick field) := by
      intro field hmem
      obtain ⟨hin, hne⟩ := hendpoint field hmem
      rw [get?_mergeModelEntry p _ _ hne, get?_baseRow_upgrade p _ _ hin,
        routingNick_migrateEntry p hhas, get?_migrateEntry_field p _ hin]
    constructor
    · intro hsame
      refine ⟨hhas, ?_, ?_⟩
      · intro field hmem
        obtain ⟨hin, hne⟩ := hendpoint field hmem
        rw [← hfield field hmem, hsame field hin, get?_mergeModelEntry p _ _ hne]
      · rw [← hprovider, hsame providerKey mem_cons_self, get?_mergeModelEntry_provider]
    · rintro ⟨-, hendpoints, hresolved⟩ field hin
      rcases mem_cons.mp hin with rfl | hmem
      · rw [hprovider, get?_mergeModelEntry_provider, hresolved]
      · rw [hfield field hmem, get?_mergeModelEntry p _ _ (hendpoint field hmem).2,
          hendpoints field hmem]
  · constructor
    · intro hsame
      obtain ⟨hnone, hsome⟩ := provider_of_not_hasNick p hhas models
      rw [hsame providerKey mem_cons_self] at hnone
      exact absurd hnone hsome
    · rintro ⟨hhas', -⟩
      exact absurd hhas' hhas

/-- A model that is served on the own machine, through the interface of OpenAI. -/
def localEntry (providerNick : Text) : Record Empty :=
  [("nick", .str "local"), (providerNickKey, .str providerNick),
    (providerKey, .str "openai"), (baseUrlKey, .str "http://localhost:11434/v1")]

/-- A model of OpenAI. -/
def hostedEntry : Record Empty := [("nick", .str "hosted"), (providerKey, .str "openai")]

/-- A configuration with both models. -/
def twoModels (localNick : Text) : Models Empty where
  providers := none
  llm := [localEntry localNick, hostedEntry]
  rerankers := []

/-- With a nick of its own the local model leaves the hosted one alone. -/
theorem hostedEntry_kept :
    KeepsRouting noFloats (twoModels "ollama") .llm "hosted" hostedEntry := by
  apply (keepsRouting_iff noFloats rfl).mpr
  refine ⟨?_, ?_, rfl⟩
  · intro _ value hvalue
    cases hvalue
  · intro field hfield
    rcases mem_cons.mp hfield with rfl | hfield
    · rfl
    · rcases mem_cons.mp hfield with rfl | hfield
      · rfl
      · rw [mem_singleton.mp hfield]
        rfl

/-- Under the nick of the provider the hosted model is sent to the own machine. -/
theorem hostedEntry_moved :
    ((twoModels "openai").entries.map fun entry =>
      fieldText noFloats entry "nick").Nodup ∧
    remoteEntry (twoModels "openai") .llm "hosted" = some hostedEntry ∧
    ¬ KeepsRouting noFloats (twoModels "openai") .llm "hosted" hostedEntry := by
  refine ⟨by decide, rfl, ?_⟩
  rintro ⟨migrated, hmigrated, hsame⟩
  have hfound : remoteEntry (upgrade noFloats (twoModels "openai")) .llm
      "hosted" = some (migrateEntry noFloats hostedEntry) := rfl
  rw [hfound] at hmigrated
  cases hmigrated
  have hurl := hsame baseUrlKey (by decide)
  have hbefore : get? (mergeModelEntry noFloats (twoModels "openai") hostedEntry)
      baseUrlKey = none := rfl
  have hafter : get? (mergeModelEntry noFloats
      (upgrade noFloats (twoModels "openai")) (migrateEntry noFloats hostedEntry))
      baseUrlKey = some (.str "http://localhost:11434/v1") := rfl
  rw [hbefore, hafter] at hurl
  cases hurl

end ClearYourTools.Migrations
