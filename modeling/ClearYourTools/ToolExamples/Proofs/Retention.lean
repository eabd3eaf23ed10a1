import ClearYourTools.ToolExamples.Store

/-!
# Floors and caps of the retention

What one run leaves of a path lies between `min_per_path` and the larger one of the two numbers,
except where a path has more than `max_per_path` but less than `min_per_path` examples: the number
to delete is negative then, and as a `LIMIT` it takes every row.
-/

namespace ClearYourTools.ToolExamples

open Misc List

variable {orders : RowOrders} {config : RetentionConfig}

instance : DecidableRel RarestOldest := fun row row' =>
  inferInstanceAs (Decidable (row.successCount < row'.successCount ∨
    row.successCount = row'.successCount ∧ row.timestampMs ≤ row'.timestampMs))

section

variable {cutoffMs minPerPath minHistoricalPerPath maxPerPath : ℤ}

theorem staleVictims_subset (group : List ExampleRow) :
    staleVictims orders cutoffMs minPerPath minHistoricalPerPath group ⊆ group := by
  intro row hrow
  unfold staleVictims at hrow
  dsimp only at hrow
  split at hrow
  · cases hrow
  · have hstale := mem_of_mem_filter (mem_of_mem_take hrow)
    exact orders.newestExample.mem_sort.mp (mem_of_mem_filter hstale)

variable {group : List ExampleRow}

theorem nodup_staleVictims (h : group.Nodup) :
    (staleVictims orders cutoffMs minPerPath minHistoricalPerPath group).Nodup := by
  unfold staleVictims
  dsimp only
  split
  · exact nodup_nil
  · have hsort := (orders.newestExample.perm group).nodup_iff.mpr h
    exact ((hsort.filter _).filter _).sublist (take_sublist _ _)

theorem length_staleVictims_le (group : List ExampleRow) :
    ((staleVictims orders cutoffMs minPerPath minHistoricalPerPath group).length : ℤ) ≤
      max 0 (group.length - minPerPath) := by
  unfold staleVictims
  dsimp only
  rw [orders.newestExample.length_sort]
  split
  · exact le_max_left _ _
  · rw [length_take]
    omega

theorem staleVictims_eq_nil (h : (group.length : ℤ) ≤ minPerPath) :
    staleVictims orders cutoffMs minPerPath minHistoricalPerPath group = [] := by
  unfold staleVictims
  dsimp only
  rw [orders.newestExample.length_sort, if_pos h]

theorem mem_limited {α : Type} {limit : ℤ} {rows : List α} {row : α}
    (h : row ∈ Store.limited limit rows) : row ∈ rows := by
  unfold Store.limited at h
  split at h
  · exact h
  · exact mem_of_mem_take h

theorem limited_sublist {α : Type} (limit : ℤ) (rows : List α) :
    (Store.limited limit rows).Sublist rows := by
  unfold Store.limited
  split
  · exact List.Sublist.refl _
  · exact take_sublist _ _

theorem pathVictims_subset (group : List ExampleRow) :
    pathVictims orders maxPerPath minPerPath group ⊆ group := by
  intro row hrow
  unfold pathVictims at hrow
  dsimp only at hrow
  split at hrow
  · cases hrow
  · exact orders.rarestOldest.mem_sort.mp (mem_limited hrow)

theorem nodup_pathVictims (h : group.Nodup) :
    (pathVictims orders maxPerPath minPerPath group).Nodup := by
  unfold pathVictims
  dsimp only
  split
  · exact nodup_nil
  · exact ((orders.rarestOldest.perm group).nodup_iff.mpr h).sublist (limited_sublist _ _)

theorem length_pathVictims (group : List ExampleRow) :
    (pathVictims orders maxPerPath minPerPath group).length =
      if (group.length : ℤ) ≤ maxPerPath then 0
      else if (group.length : ℤ) < max maxPerPath minPerPath then group.length
      else min ((group.length : ℤ) - max maxPerPath minPerPath).toNat group.length := by
  unfold pathVictims
  dsimp only
  split
  · rfl
  · unfold Store.limited
    rw [apply_ite List.length, length_take, orders.rarestOldest.length_sort]
    congr 1
    exact propext (by omega)

theorem pathVictims_rarestOldest {row kept : ExampleRow}
    (hrow : row ∈ pathVictims orders maxPerPath minPerPath group) (hkept : kept ∈ group)
    (hstays : kept ∉ pathVictims orders maxPerPath minPerPath group) : RarestOldest row kept := by
  unfold pathVictims at hrow hstays
  dsimp only at hrow hstays
  split at hrow
  · cases hrow
  rename_i hover
  rw [if_neg hover] at hstays
  have hsorted := orders.rarestOldest.sorted group
  have hmem := orders.rarestOldest.mem_sort.mpr hkept
  unfold Store.limited at hrow hstays
  split at hrow
  · rename_i hneg
    rw [if_pos hneg] at hstays
    exact absurd hmem hstays
  rename_i hneg
  rw [if_neg hneg] at hstays
  rw [← take_append_drop
    ((group.length : ℤ) - max maxPerPath minPerPath).toNat (orders.rarestOldest.sort group)]
    at hsorted hmem
  rcases mem_append.mp hmem with hkept | hkept
  · exact absurd hkept hstays
  · exact (pairwise_append.mp hsorted).2.2 row hrow kept hkept

end

/-- The constraints of the tables: the primary key of a capture, and the values of a path. -/
structure Store.Valid (store : Store) : Prop where
  primaryKey : (store.captures.map CaptureRow.schemaId).Nodup
  unique : (store.examples.map fun row => (row.schemaId, row.jsonPath, row.value)).Nodup

/-- The examples of a path of a capture. -/
def Store.examplesOf (store : Store) (path : ℕ × Text) : List ExampleRow :=
  Table.group ExampleRow.path store.examples path

section

variable {store : Store} {cutoffMs minPerPath minHistoricalPerPath maxPerPath : ℤ}

section

variable (h : store.Valid)
include h

theorem Store.Valid.nodup : store.examples.Nodup := h.unique.of_map _

variable (path : ℕ × Text)

theorem Store.Valid.nodup_examplesOf : (store.examplesOf path).Nodup :=
  h.nodup.filter _

theorem Store.Valid.pruneStaleExamples :
    (store.pruneStaleExamples orders cutoffMs minPerPath minHistoricalPerPath).1.Valid where
  primaryKey := h.primaryKey
  unique := h.unique.sublist ((Table.sweep_sublist _).map _)

theorem Store.Valid.enforceExamplePathLimit :
    (store.enforceExamplePathLimit orders maxPerPath minPerPath).1.Valid where
  primaryKey := h.primaryKey
  unique := h.unique.sublist ((Table.sweep_sublist _).map _)

theorem length_examplesOf_pruned :
    ((store.pruneStaleExamples orders cutoffMs minPerPath minHistoricalPerPath).1.examplesOf
        path).length =
      (store.examplesOf path).length -
        (staleVictims orders cutoffMs minPerPath minHistoricalPerPath
          (store.examplesOf path)).length := by
  unfold Store.pruneStaleExamples Store.examplesOf
  rw [Table.group_sweep staleVictims_subset]
  exact Table.length_delete (h.nodup_examplesOf path)
    (nodup_staleVictims (h.nodup_examplesOf path)) (staleVictims_subset _)

theorem length_examplesOf_capped :
    ((store.enforceExamplePathLimit orders maxPerPath minPerPath).1.examplesOf path).length =
      (store.examplesOf path).length -
        (pathVictims orders maxPerPath minPerPath (store.examplesOf path)).length := by
  unfold Store.enforceExamplePathLimit Store.examplesOf
  rw [Table.group_sweep pathVictims_subset]
  exact Table.length_delete (h.nodup_examplesOf path)
    (nodup_pathVictims (h.nodup_examplesOf path)) (pathVictims_subset _)

end

/-- The limit and the floor of the paths of `n` examples do not cross, and leave some room. -/
def FloorsApart (config : RetentionConfig) (n : ℕ) : Prop :=
  ¬ (config.maxPerPath < n ∧ n < config.minPerPath) ∧ 0 ≤ max config.maxPerPath config.minPerPath

theorem floor_cap_iff (h : store.Valid) (nowMs : ℤ) {path : ℕ × Text}
    (hsome : store.examplesOf path ≠ []) :
    (min config.minPerPath (store.examplesOf path).length ≤
        ((runRetention orders config nowMs store).capped.1.examplesOf path).length ∧
      ((runRetention orders config nowMs store).capped.1.examplesOf path).length ≤
        max config.maxPerPath config.minPerPath) ↔
      FloorsApart config (store.examplesOf path).length := by
  have hpos : 0 < (store.examplesOf path).length := length_pos_iff.mpr hsome
  unfold runRetention FloorsApart
  dsimp only
  rw [length_examplesOf_capped h.pruneStaleExamples, length_pathVictims, length_examplesOf_pruned h]
  have hle : ((staleVictims orders (nowMs - config.maxAgeDays * 86400 * 1000) config.minPerPath
      config.minHistoricalPerPath (store.examplesOf path)).length : ℤ) ≤
      max 0 ((store.examplesOf path).length - config.minPerPath) := length_staleVictims_le _
  have hfew : ((store.examplesOf path).length : ℤ) ≤ config.minPerPath →
      (staleVictims orders (nowMs - config.maxAgeDays * 86400 * 1000) config.minPerPath
        config.minHistoricalPerPath (store.examplesOf path)).length = 0 := fun hn => by
    rw [staleVictims_eq_nil hn, length_nil]
  generalize (staleVictims orders (nowMs - config.maxAgeDays * 86400 * 1000) config.minPerPath
    config.minHistoricalPerPath (store.examplesOf path)).length = stale at hle hfew ⊢
  generalize (store.examplesOf path).length = n at hpos hle hfew ⊢
  split
  · omega
  · split <;> omega

end

instance : Std.Total fun row row' : CaptureRow => row'.lastSeenMs ≤ row.lastSeenMs where
  total row row' := le_total row'.lastSeenMs row.lastSeenMs

instance : IsTrans CaptureRow fun row row' => row'.lastSeenMs ≤ row.lastSeenMs where
  trans _ _ _ h h' := le_trans h' h

/-- The stable sort of the captures of a schema. -/
def latestFirst : OrderBy fun row row' : CaptureRow => row'.lastSeenMs ≤ row.lastSeenMs := .stable

section

variable {store : Store} {maxCaptures minCaptures minPerSchemaHash : ℤ}

theorem captureVictims_subset (group : List CaptureRow) :
    captureVictims orders maxCaptures minCaptures minPerSchemaHash group ⊆ group := by
  intro row hrow
  unfold captureVictims at hrow
  dsimp only at hrow
  split at hrow
  · cases hrow
  · have hcandidate := (mem_insertionSort _).mp (mem_of_mem_take hrow)
    exact orders.newestCapture.mem_sort.mp (mem_of_mem_filter hcandidate)

theorem notMem_captureVictims {group : List CaptureRow} {row : CaptureRow}
    (h : row ∈ protectedCaptures minPerSchemaHash (orders.newestCapture.sort group)) :
    row ∉ captureVictims orders maxCaptures minCaptures minPerSchemaHash group := by
  intro hrow
  unfold captureVictims at hrow
  dsimp only at hrow
  split at hrow
  · cases hrow
  · have hcandidate := (mem_insertionSort _).mp (mem_of_mem_take hrow)
    have hnot := (mem_filter.mp hcandidate).2
    rw [Bool.not_eq_true', Bool.eq_false_iff, ne_eq, contains_iff_mem] at hnot
    exact hnot h

theorem exists_newest_protected {rows : List CaptureRow} {row : CaptureRow} (h : row ∈ rows) :
    ∃ newest ∈ protectedCaptures minPerSchemaHash rows, newest ∈ rows ∧
      newest.schemaHash = row.schemaHash ∧
      ∀ other ∈ rows, other.schemaHash = row.schemaHash → other.lastSeenMs ≤ newest.lastSeenMs := by
  have hgroup : Table.group CaptureRow.schemaHash rows row.schemaHash ≠ [] :=
    ne_nil_of_mem (Table.mem_group.mpr ⟨h, rfl⟩)
  obtain ⟨newest, hnewest, hfirst⟩ := latestFirst.exists_first (fun _ => le_refl _) hgroup
    (n := (max minPerSchemaHash 1).toNat) (by omega)
  have hmem := Table.mem_group.mp (latestFirst.mem_sort.mp (mem_of_mem_take hnewest))
  refine ⟨newest, ?_, hmem.1, hmem.2, ?_⟩
  · exact mem_flatMap.mpr ⟨row.schemaHash, Table.mem_keys.mpr ⟨row, h, rfl⟩, hnewest⟩
  · intro other hother hhash
    exact hfirst other (Table.mem_group.mpr ⟨hother, hhash⟩)

theorem enforceCaptureRetention_eq_sweep (store : Store) :
    ((store.enforceCaptureRetention orders maxCaptures minCaptures minPerSchemaHash).1.captures,
        (store.enforceCaptureRetention orders maxCaptures minCaptures minPerSchemaHash).2) =
      Table.sweep CaptureRow.tool
        (captureVictims orders maxCaptures minCaptures minPerSchemaHash) store.captures := by
  unfold Store.enforceCaptureRetention Table.sweep
  generalize Table.keys CaptureRow.tool store.captures = tools
  generalize (0 : ℕ) = n
  induction tools generalizing store n with
  | nil => rfl
  | cons tool tools ih =>
    rw [foldl_cons, foldl_cons]
    exact ih _ _

theorem captures_enforceCaptureRetention (store : Store) :
    (store.enforceCaptureRetention orders maxCaptures minCaptures minPerSchemaHash).1.captures =
      (Table.sweep CaptureRow.tool
        (captureVictims orders maxCaptures minCaptures minPerSchemaHash) store.captures).1 :=
  congrArg Prod.fst (enforceCaptureRetention_eq_sweep store)

variable {c : CaptureRow}

theorem examplesOf_keepCaptures {keep : CaptureRow → Bool}
    (hkey : (store.captures.map CaptureRow.schemaId).Nodup) (hmem : c ∈ store.captures)
    (hkeep : keep c = true) (jsonPath : Text) :
    (store.keepCaptures keep).examplesOf (c.schemaId, jsonPath) =
      store.examplesOf (c.schemaId, jsonPath) := by
  refine Table.group_filter ?_
  intro row _ hpath
  have hid : row.schemaId = c.schemaId := congrArg Prod.fst hpath
  rw [Bool.not_eq_true', Bool.eq_false_iff, ne_eq, contains_iff_mem, hid]
  intro hgone
  obtain ⟨other, hother, heq⟩ := mem_map.mp hgone
  obtain ⟨hotherMem, hnot⟩ := mem_filter.mp hother
  have hsame : other = c := inj_on_of_nodup_map hkey hotherMem hmem heq
  rw [hsame, hkeep] at hnot
  cases hnot

variable (tools : List (ℕ × Text × Text))

theorem captures_foldl_sublist (state : Store × ℕ) :
    (tools.foldl (Store.retainCaptures orders maxCaptures minCaptures minPerSchemaHash)
      state).1.captures.Sublist state.1.captures := by
  induction tools generalizing state with
  | nil => exact List.Sublist.refl _
  | cons tool tools ih => exact (ih _).trans filter_sublist

theorem examplesOf_foldl (state : Store × ℕ)
    (hkey : (state.1.captures.map CaptureRow.schemaId).Nodup)
    (hc : c ∈ (tools.foldl (Store.retainCaptures orders maxCaptures minCaptures minPerSchemaHash)
      state).1.captures) (jsonPath : Text) :
    (tools.foldl (Store.retainCaptures orders maxCaptures minCaptures minPerSchemaHash)
      state).1.examplesOf (c.schemaId, jsonPath) = state.1.examplesOf (c.schemaId, jsonPath) := by
  induction tools generalizing state with
  | nil => rfl
  | cons tool tools ih =>
    rw [foldl_cons] at hc ⊢
    have hstep := (captures_foldl_sublist tools _).subset hc
    obtain ⟨hmem, hkeep⟩ := mem_filter.mp hstep
    rw [ih _ (hkey.sublist (filter_sublist.map _)) hc]
    exact examplesOf_keepCaptures hkey hmem hkeep jsonPath

theorem examplesOf_enforceCaptureRetention (hvalid : store.Valid)
    (hc : c ∈ (store.enforceCaptureRetention orders maxCaptures minCaptures
      minPerSchemaHash).1.captures) (jsonPath : Text) :
    (store.enforceCaptureRetention orders maxCaptures minCaptures minPerSchemaHash).1.examplesOf
        (c.schemaId, jsonPath) = store.examplesOf (c.schemaId, jsonPath) :=
  examplesOf_foldl _ _ hvalid.primaryKey hc jsonPath

end

/-- What the retention promises of a run. -/
structure KeepsFloors (config : RetentionConfig) (store : Store) (run : RetentionRun) : Prop where
  floor : ∀ c ∈ run.retained.1.captures, ∀ jsonPath,
    store.examplesOf (c.schemaId, jsonPath) ≠ [] →
      min config.minPerPath (store.examplesOf (c.schemaId, jsonPath)).length ≤
        (run.retained.1.examplesOf (c.schemaId, jsonPath)).length
  cap : ∀ c ∈ run.retained.1.captures, ∀ jsonPath,
    store.examplesOf (c.schemaId, jsonPath) ≠ [] →
      (run.retained.1.examplesOf (c.schemaId, jsonPath)).length ≤
        max config.maxPerPath config.minPerPath
  rarestOldest : ∀ row ∈ run.pruned.1.examples, row ∉ run.capped.1.examples →
    ∀ kept ∈ run.capped.1.examples, kept.path = row.path → RarestOldest row kept
  newest : ∀ c ∈ store.captures, ∃ kept ∈ run.retained.1.captures,
    kept.tool = c.tool ∧ kept.schemaHash = c.schemaHash ∧
      ∀ other ∈ store.captures, other.tool = c.tool → other.schemaHash = c.schemaHash →
        other.lastSeenMs ≤ kept.lastSeenMs

variable (orders config) in
/-- Whether the capture retention deletes a capture of the table. -/
def isEvicted (captures : List CaptureRow) (c : CaptureRow) : Bool :=
  (captureVictims orders config.maxCapturesPerTool config.minCapturesPerTool
    config.minPerSchemaHash (Table.group CaptureRow.tool captures c.tool)).contains c

variable {store : Store} {nowMs : ℤ}

variable {c : CaptureRow}

theorem mem_retained :
    c ∈ (runRetention orders config nowMs store).retained.1.captures ↔
      c ∈ store.captures ∧ isEvicted orders config store.captures c = false := by
  unfold runRetention isEvicted
  dsimp only
  rw [captures_enforceCaptureRetention, Table.mem_sweep captureVictims_subset,
    Bool.eq_false_iff, ne_eq, contains_iff_mem]
  rfl

theorem examplesOf_retained (h : store.Valid)
    (hc : c ∈ (runRetention orders config nowMs store).retained.1.captures) (jsonPath : Text) :
    (runRetention orders config nowMs store).retained.1.examplesOf (c.schemaId, jsonPath) =
      (runRetention orders config nowMs store).capped.1.examplesOf (c.schemaId, jsonPath) :=
  examplesOf_enforceCaptureRetention h.pruneStaleExamples.enforceExamplePathLimit hc jsonPath

theorem run_rarestOldest {row kept : ExampleRow}
    (hrow : row ∈ (runRetention orders config nowMs store).pruned.1.examples)
    (hgone : row ∉ (runRetention orders config nowMs store).capped.1.examples)
    (hkept : kept ∈ (runRetention orders config nowMs store).capped.1.examples)
    (hpath : kept.path = row.path) : RarestOldest row kept := by
  unfold runRetention Store.enforceExamplePathLimit at hgone hkept
  dsimp only at hgone hkept
  rw [Table.mem_sweep pathVictims_subset, not_and, not_not] at hgone
  rw [Table.mem_sweep pathVictims_subset, hpath] at hkept
  exact pathVictims_rarestOldest (hgone hrow) (Table.mem_group.mpr ⟨hkept.1, hpath⟩) hkept.2

theorem run_newest (hc : c ∈ store.captures) :
    ∃ kept ∈ (runRetention orders config nowMs store).retained.1.captures,
      kept.tool = c.tool ∧ kept.schemaHash = c.schemaHash ∧
        ∀ other ∈ store.captures, other.tool = c.tool → other.schemaHash = c.schemaHash →
          other.lastSeenMs ≤ kept.lastSeenMs := by
  have hgroup : ∀ row, row ∈ orders.newestCapture.sort
      (Table.group CaptureRow.tool store.captures c.tool) ↔
        row ∈ store.captures ∧ row.tool = c.tool := fun row => by
    rw [OrderBy.mem_sort, Table.mem_group]
  obtain ⟨kept, hprotected, hmem, hhash, hnewest⟩ :=
    @exists_newest_protected config.minPerSchemaHash _ _ ((hgroup c).mpr ⟨hc, rfl⟩)
  obtain ⟨hstored, htool⟩ := (hgroup kept).mp hmem
  refine ⟨kept, mem_retained.mpr ⟨hstored, ?_⟩, htool, hhash, ?_⟩
  · unfold isEvicted
    rw [Bool.eq_false_iff, ne_eq, contains_iff_mem, htool]
    exact notMem_captureVictims hprotected
  · intro other hother hotherTool hotherHash
    exact hnewest other ((hgroup other).mpr ⟨hother, hotherTool⟩) hotherHash

/-- A run keeps its promises exactly when the limit and the floor do not cross on a path of a
capture that stays. -/
theorem keepsFloors_iff (h : store.Valid) :
    KeepsFloors config store (runRetention orders config nowMs store) ↔
      ∀ c ∈ store.captures, isEvicted orders config store.captures c = false →
        ∀ jsonPath, store.examplesOf (c.schemaId, jsonPath) ≠ [] →
          FloorsApart config (store.examplesOf (c.schemaId, jsonPath)).length := by
  constructor
  · intro hkeeps c hc hstays jsonPath hsome
    have hretained : c ∈ (runRetention orders config nowMs store).retained.1.captures :=
      mem_retained.mpr ⟨hc, hstays⟩
    have hfloor := hkeeps.floor c hretained jsonPath hsome
    have hcap := hkeeps.cap c hretained jsonPath hsome
    rw [examplesOf_retained h hretained] at hfloor hcap
    exact (floor_cap_iff h nowMs hsome).mp ⟨hfloor, hcap⟩
  · intro hapart
    have hpaths : ∀ c ∈ (runRetention orders config nowMs store).retained.1.captures, ∀ jsonPath,
        store.examplesOf (c.schemaId, jsonPath) ≠ [] →
          FloorsApart config (store.examplesOf (c.schemaId, jsonPath)).length :=
      fun c hc => hapart c (mem_retained.mp hc).1 (mem_retained.mp hc).2
    constructor
    · intro c hc jsonPath hsome
      rw [examplesOf_retained h hc]
      exact ((floor_cap_iff h nowMs hsome).mpr (hpaths c hc jsonPath hsome)).1
    · intro c hc jsonPath hsome
      rw [examplesOf_retained h hc]
      exact ((floor_cap_iff h nowMs hsome).mpr (hpaths c hc jsonPath hsome)).2
    · exact fun row hrow hgone kept hkept hpath => run_rarestOldest hrow hgone hkept hpath
    · exact fun c hc => run_newest hc

instance : Std.Total RarestOldest where
  total row row' := by
    unfold RarestOldest
    omega

instance : IsTrans ExampleRow RarestOldest where
  trans row row' row'' h h' := by
    unfold RarestOldest at *
    omega

instance : Std.Total fun row row' : ExampleRow => row'.timestampMs ≤ row.timestampMs where
  total row row' := le_total row'.timestampMs row.timestampMs

instance : IsTrans ExampleRow fun row row' => row'.timestampMs ≤ row.timestampMs where
  trans _ _ _ h h' := le_trans h' h

/-- Rows that an order does not tell apart as they stand in the table. -/
def tableOrder : RowOrders := ⟨.stable, .stable, .stable⟩

/-- A capture with two values of one path. -/
def twoValues : Store where
  projects := [⟨1, ['/'], 0, 0⟩]
  captures := [⟨1, 1, ['s'], ['t'], [], [], ['h'], ['i'], 5, 5⟩]
  examples := [⟨1, ['p'], ['a'], ['s'], 5, 1⟩, ⟨1, ['p'], ['b'], ['s'], 5, 1⟩]
  lastProjectId := 1
  lastSchemaId := 1

theorem twoValues_valid : twoValues.Valid := ⟨by decide, by decide⟩

/-- The default numbers keep both values. -/
theorem twoValues_kept : KeepsFloors {} twoValues (runRetention tableOrder {} 0 twoValues) := by
  refine (keepsFloors_iff twoValues_valid).mpr ?_
  intro c hc _ jsonPath _
  have hfew : (twoValues.examplesOf (c.schemaId, jsonPath)).length ≤ 2 := length_filter_le _ _
  refine ⟨?_, by decide⟩
  dsimp only
  omega

/-- One value at most and three at least. -/
def crossedConfig : RetentionConfig where
  maxPerPath := 1
  minPerPath := 3

/-- Both values are deleted where one is allowed and three are kept. -/
theorem twoValues_wiped :
    ¬ KeepsFloors crossedConfig twoValues (runRetention tableOrder crossedConfig 0 twoValues) := by
  intro hkeeps
  have hfloor := hkeeps.floor ⟨1, 1, ['s'], ['t'], [], [], ['h'], ['i'], 5, 5⟩ (by decide +kernel)
    ['p'] (by decide +kernel)
  have hbefore : (twoValues.examplesOf (1, ['p'])).length = 2 := by decide +kernel
  have hafter : ((runRetention tableOrder crossedConfig 0 twoValues).retained.1.examplesOf
      (1, ['p'])).length = 0 := by decide +kernel
  rw [hbefore, hafter] at hfloor
  revert hfloor
  decide

end ClearYourTools.ToolExamples
