import ClearYourTools.ToolExamples.Proofs.Retention

/-!
# The dry run of the retention

The counts of a dry run go through the rows as the passes do, but on their own: a count depends only
on how many rows of a path are stale, and on how many captures of a tool its schemas protect.
-/

namespace ClearYourTools.ToolExamples

open Misc List

variable {orders orders' : RowOrders}
variable (kept rows : List ExampleRow)

theorem countStaleFrom_eq {maxDeletable : ℤ} {deleteCount : ℕ}
    (h : (deleteCount : ℤ) ≤ maxDeletable) :
    countStaleFrom kept maxDeletable deleteCount rows =
      deleteCount + ((rows.filter fun row => !kept.contains row).take
        (maxDeletable - deleteCount).toNat).length := by
  induction rows generalizing deleteCount with
  | nil => rw [countStaleFrom, filter_nil, take_nil, length_nil, Nat.add_zero]
  | cons row rows ih =>
    rw [countStaleFrom]
    cases hkept : kept.contains row with
    | true =>
      rw [if_pos rfl, ih h, filter_cons_of_neg (by rw [hkept]; decide)]
    | false =>
      rw [if_neg Bool.false_ne_true, filter_cons_of_pos (by rw [hkept]; rfl)]
      by_cases hfull : maxDeletable ≤ deleteCount
      · rw [if_pos hfull, Int.toNat_of_nonpos (by omega), take_zero, length_nil, Nat.add_zero]
      · obtain ⟨n, hn⟩ : ∃ n, (maxDeletable - deleteCount).toNat = n + 1 :=
          ⟨(maxDeletable - deleteCount).toNat - 1, by omega⟩
        have hnext : (maxDeletable - (deleteCount + 1 : ℕ)).toNat = n := by omega
        rw [if_neg hfull, ih (by omega), hn, hnext, take_succ_cons, length_cons]
        omega

theorem countStaleFrom_zero {maxDeletable : ℤ} (h : 0 ≤ maxDeletable) :
    countStaleFrom kept maxDeletable 0 rows =
      ((rows.filter fun row => !kept.contains row).take maxDeletable.toNat).length := by
  rw [countStaleFrom_eq kept rows (by omega), Nat.zero_add, Nat.cast_zero, Int.sub_zero]

section

variable {cutoffMs minPerPath minHistoricalPerPath : ℤ} {group : List ExampleRow}

theorem countStaleOfPath_eq (group : List ExampleRow) :
    countStaleOfPath orders cutoffMs minPerPath minHistoricalPerPath group =
      (staleVictims orders cutoffMs minPerPath minHistoricalPerPath group).length := by
  unfold countStaleOfPath staleVictims
  dsimp only
  rw [apply_ite List.length, countStaleFrom_zero _ _ (le_max_left _ _)]
  rfl

/-- Of stale rows that are sorted from the newest on, the historical ones are the last. -/
theorem filter_unprotected {stale recent : List ExampleRow} (h : stale.Nodup)
    (hrecent : ∀ row ∈ stale, row ∉ recent) (keep : ℤ) :
    (stale.filter fun row => !(recent ++
        (if keep > 0 then stale.drop (stale.length - keep.toNat) else [])).contains row) =
      stale.take (stale.length - keep.toNat) := by
  have hlast : (if keep > 0 then stale.drop (stale.length - keep.toNat) else []) =
      stale.drop (stale.length - keep.toNat) := by
    split
    · rfl
    · rename_i hnone
      rw [Int.toNat_of_nonpos (not_lt.mp hnone), Nat.sub_zero, drop_length]
  rw [hlast]
  generalize stale.length - keep.toNat = n
  have hsplit := take_append_drop n stale
  have hapart := (nodup_append'.mp (hsplit.symm ▸ h)).2.2
  conv_lhs => rw [← hsplit]
  rw [filter_append, filter_eq_self.mpr, filter_eq_nil_iff.mpr, List.append_nil]
  · intro row hrow
    rw [hsplit, contains_iff_mem.mpr (mem_append_right recent hrow)]
    decide
  · intro row hrow
    rw [hsplit, Bool.not_eq_true', Bool.eq_false_iff, ne_eq, contains_iff_mem, mem_append, not_or]
    exact ⟨hrecent row (mem_of_mem_take hrow), fun hlate => hapart hrow hlate⟩

/-- How many examples of a path are deleted, by how many it has and how many are stale. -/
theorem length_staleVictims (h : group.Nodup) :
    (staleVictims orders cutoffMs minPerPath minHistoricalPerPath group).length =
      if (group.length : ℤ) ≤ minPerPath then 0
      else min (max 0 ((group.length : ℤ) - minPerPath)).toNat
        ((group.filter fun row => (row.timestampMs : ℤ) < cutoffMs).length -
          (min minHistoricalPerPath
            (group.filter fun row => (row.timestampMs : ℤ) < cutoffMs).length).toNat) := by
  have hperm := orders.newestExample.perm group
  have hnodup : ((orders.newestExample.sort group).filter
      fun row => (row.timestampMs : ℤ) < cutoffMs).Nodup :=
    (hperm.nodup_iff.mpr h).filter _
  have hlength := (hperm.filter fun row => (row.timestampMs : ℤ) < cutoffMs).length_eq
  unfold staleVictims
  dsimp only
  rw [filter_unprotected hnodup, apply_ite List.length, length_take, length_take, hlength,
    hperm.length_eq, length_nil]
  · rw [min_eq_left (Nat.sub_le _ _)]
  · intro row hstale hrecent
    have hold := of_decide_eq_true (mem_filter.mp hstale).2
    have hnew := of_decide_eq_true (mem_filter.mp hrecent).2
    omega

end

section

variable {maxCaptures minCaptures minPerSchemaHash : ℤ} {rows rows' group : List CaptureRow}

theorem protectedCaptures_subset (rows : List CaptureRow) :
    protectedCaptures minPerSchemaHash rows ⊆ rows := by
  intro row hrow
  obtain ⟨schemaHash, -, hfirst⟩ := mem_flatMap.mp hrow
  exact (Table.mem_group.mp ((mem_insertionSort _).mp (mem_of_mem_take hfirst))).1

theorem nodup_protectedCaptures (h : rows.Nodup) :
    (protectedCaptures minPerSchemaHash rows).Nodup := by
  have hhash : ∀ {schemaHash row}, row ∈ ((Table.group CaptureRow.schemaHash rows
      schemaHash).insertionSort fun row row' => row'.lastSeenMs ≤ row.lastSeenMs).take
        (max minPerSchemaHash 1).toNat → row.schemaHash = schemaHash := fun hrow =>
    (Table.mem_group.mp ((mem_insertionSort _).mp (mem_of_mem_take hrow))).2
  refine nodup_flatMap.mpr ⟨fun schemaHash _ => ?_, ?_⟩
  · have hgroup : (Table.group CaptureRow.schemaHash rows schemaHash).Nodup := h.filter _
    exact ((perm_insertionSort _ _).nodup_iff.mpr hgroup).sublist (take_sublist _ _)
  · refine (Table.nodup_keys rows).imp fun hne row hrow hrow' => hne ?_
    rw [← hhash hrow, ← hhash hrow']

theorem length_protectedCaptures (h : rows.Perm rows') :
    (protectedCaptures minPerSchemaHash rows).length =
      (protectedCaptures minPerSchemaHash rows').length := by
  unfold protectedCaptures
  rw [length_flatMap, length_flatMap]
  have hgroup : ∀ schemaHash, (Table.group CaptureRow.schemaHash rows schemaHash).length =
      (Table.group CaptureRow.schemaHash rows' schemaHash).length := fun schemaHash =>
    (h.filter _).length_eq
  simp only [length_take, length_insertionSort, hgroup]
  exact ((h.map _).dedup.map _).sum_nat

theorem countRemovableOfTool_eq (group : List CaptureRow) :
    countRemovableOfTool orders maxCaptures minCaptures minPerSchemaHash group =
      (captureVictims orders maxCaptures minCaptures minPerSchemaHash group).length := by
  unfold countRemovableOfTool captureVictims
  dsimp only
  rw [apply_ite List.length, orders.newestCapture.length_sort, length_take,
    length_insertionSort, length_nil]
  split
  · rfl
  · omega

/-- How many captures of a tool are deleted does not depend on the order of equal ones. -/
theorem length_captureVictims_congr (h : group.Nodup) :
    (captureVictims orders maxCaptures minCaptures minPerSchemaHash group).length =
      (captureVictims orders' maxCaptures minCaptures minPerSchemaHash group).length := by
  have hunprotected : ∀ order : OrderBy fun row row' : CaptureRow =>
      row'.lastSeenMs ≤ row.lastSeenMs,
      ((order.sort group).filter fun row =>
        !(protectedCaptures minPerSchemaHash (order.sort group)).contains row).length =
        group.length - (protectedCaptures minPerSchemaHash group).length := fun order => by
    have hsort := (order.perm group).nodup_iff.mpr h
    have hdelete := Table.length_delete hsort
      (@nodup_protectedCaptures minPerSchemaHash _ hsort) (protectedCaptures_subset _)
    rw [order.length_sort, length_protectedCaptures (order.perm group)] at hdelete
    exact hdelete
  unfold captureVictims
  dsimp only
  rw [apply_ite List.length, apply_ite List.length, length_take, length_take,
    length_insertionSort, length_insertionSort, hunprotected, hunprotected,
    orders.newestCapture.length_sort, orders'.newestCapture.length_sort]

theorem nodup_captureVictims (h : group.Nodup) :
    (captureVictims orders maxCaptures minCaptures minPerSchemaHash group).Nodup := by
  unfold captureVictims
  dsimp only
  split
  · exact nodup_nil
  · have hsort := (orders.newestCapture.perm group).nodup_iff.mpr h
    exact ((perm_insertionSort _ _).nodup_iff.mpr (hsort.filter _)).sublist (take_sublist _ _)

end

/-- A pass reports what was counted, and takes as many rows from the table. -/
structure DeletesCounted {α : Type} (counted : ℕ) (before after : List α) (reported : ℕ) : Prop where
  reported_eq : reported = counted
  removed : after.length + counted = before.length

variable {store : Store}

theorem Store.Valid.nodup_captures (h : store.Valid) : store.captures.Nodup := h.primaryKey.of_map _

theorem pruneStaleExamples_deletesCounted (h : store.Valid)
    (cutoffMs minPerPath minHistoricalPerPath : ℤ) :
    DeletesCounted (store.countStaleExamples orders cutoffMs minPerPath minHistoricalPerPath)
      store.examples
      (store.pruneStaleExamples orders' cutoffMs minPerPath minHistoricalPerPath).1.examples
      (store.pruneStaleExamples orders' cutoffMs minPerPath minHistoricalPerPath).2 := by
  have hreported : (store.pruneStaleExamples orders' cutoffMs minPerPath minHistoricalPerPath).2 =
      store.countStaleExamples orders cutoffMs minPerPath minHistoricalPerPath := by
    refine (Table.sweep_snd staleVictims_subset store.examples).trans (Table.tally_congr ?_)
    intro path
    have hgroup : (Table.group ExampleRow.path store.examples path).Nodup := h.nodup.filter _
    rw [countStaleOfPath_eq, length_staleVictims hgroup, length_staleVictims hgroup]
  refine ⟨hreported, ?_⟩
  rw [← hreported]
  exact Table.length_sweep staleVictims_subset (fun _ => nodup_staleVictims) h.nodup

theorem enforceCaptureRetention_deletesCounted (h : store.Valid)
    (maxCaptures minCaptures minPerSchemaHash : ℤ) :
    DeletesCounted
      (store.countCaptureRetentionRemovable orders maxCaptures minCaptures minPerSchemaHash)
      store.captures
      (store.enforceCaptureRetention orders' maxCaptures minCaptures minPerSchemaHash).1.captures
      (store.enforceCaptureRetention orders' maxCaptures minCaptures minPerSchemaHash).2 := by
  have hsweep := @enforceCaptureRetention_eq_sweep orders' maxCaptures minCaptures minPerSchemaHash
    store
  have hreported : (store.enforceCaptureRetention orders' maxCaptures minCaptures
      minPerSchemaHash).2 = store.countCaptureRetentionRemovable orders maxCaptures minCaptures
        minPerSchemaHash := by
    rw [show _ = _ from congrArg Prod.snd hsweep, Table.sweep_snd captureVictims_subset]
    refine Table.tally_congr fun tool => ?_
    have hgroup : (Table.group CaptureRow.tool store.captures tool).Nodup :=
      h.nodup_captures.filter _
    rw [countRemovableOfTool_eq]
    exact length_captureVictims_congr hgroup
  refine ⟨hreported, ?_⟩
  have hlength : (Table.sweep CaptureRow.tool (captureVictims orders' maxCaptures minCaptures
      minPerSchemaHash) store.captures).1.length + (Table.sweep CaptureRow.tool
        (captureVictims orders' maxCaptures minCaptures minPerSchemaHash) store.captures).2 =
      store.captures.length :=
    Table.length_sweep captureVictims_subset (fun _ => nodup_captureVictims) h.nodup_captures
  rw [← hsweep] at hlength
  rw [← hreported]
  exact hlength

/-- The dry run counts what the passes delete, on the store as it is and in a whole run. -/
theorem dryRun_exact (h : store.Valid) (orders orders' : RowOrders)
    (cutoffMs minPerPath minHistoricalPerPath maxCaptures minCaptures minPerSchemaHash : ℤ) :
    DeletesCounted (store.countStaleExamples orders cutoffMs minPerPath minHistoricalPerPath)
      store.examples
      (store.pruneStaleExamples orders' cutoffMs minPerPath minHistoricalPerPath).1.examples
      (store.pruneStaleExamples orders' cutoffMs minPerPath minHistoricalPerPath).2 ∧
    DeletesCounted
      (store.countCaptureRetentionRemovable orders maxCaptures minCaptures minPerSchemaHash)
      store.captures
      (store.enforceCaptureRetention orders' maxCaptures minCaptures minPerSchemaHash).1.captures
      (store.enforceCaptureRetention orders' maxCaptures minCaptures minPerSchemaHash).2 ∧
    ∀ (config : RetentionConfig) (nowMs : ℤ),
      DeletesCounted (store.countCaptureRetentionRemovable orders config.maxCapturesPerTool
          config.minCapturesPerTool config.minPerSchemaHash)
        store.captures (runRetention orders' config nowMs store).retained.1.captures
        (runRetention orders' config nowMs store).retained.2 := by
  refine ⟨pruneStaleExamples_deletesCounted h _ _ _, enforceCaptureRetention_deletesCounted h _ _ _,
    fun config nowMs => ?_⟩
  -- the passes before do not write to the table of the captures
  have hpruned := @Store.Valid.pruneStaleExamples orders' store
    (nowMs - config.maxAgeDays * 86400 * 1000) config.minPerPath config.minHistoricalPerPath h
  exact enforceCaptureRetention_deletesCounted hpruned.enforceExamplePathLimit _ _ _

theorem dryRun_exact_twoValues :
    DeletesCounted (twoValues.countStaleExamples tableOrder 6 1 0) twoValues.examples
      (twoValues.pruneStaleExamples tableOrder 6 1 0).1.examples
      (twoValues.pruneStaleExamples tableOrder 6 1 0).2 ∧
    twoValues.countStaleExamples tableOrder 6 1 0 = 1 :=
  ⟨(dryRun_exact twoValues_valid tableOrder tableOrder 6 1 0 50 5 5).1, by decide +kernel⟩

end ClearYourTools.ToolExamples
