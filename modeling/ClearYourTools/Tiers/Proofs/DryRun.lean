import ClearYourTools.Tiers.Store

/-!
# Dry runs of the maintenance

What a dry run counts against what the deletions remove. The count of idle entities has no
test for dormant ones, and that of the epoch log has the rows that go for both reasons twice.
-/

namespace ClearYourTools.Tiers

open Misc List
open Prod (fst)

theorem length_filter_eq_iff {α : Type} {p q : α → Bool} {xs : List α}
    (h : ∀ x ∈ xs, p x = true → q x = true) :
    (xs.filter p).length = (xs.filter q).length ↔ ∀ x ∈ xs, q x = true → p x = true := by
  induction xs with
  | nil => exact iff_of_true rfl nofun
  | cons x xs ih =>
    rw [forall_mem_cons] at h
    have hle : (xs.filter p).length ≤ (xs.filter q).length := by
      rw [← countP_eq_length_filter, ← countP_eq_length_filter]
      exact countP_mono_left h.2
    rw [forall_mem_cons, ← ih h.2, filter_cons, filter_cons]
    cases hp : p x with
    | true => simp [h.1 hp]
    | false =>
      cases hq : q x with
      | true => simp; omega
      | false => simp

theorem length_filter_add {α : Type} (p : α → Bool) (xs : List α) :
    (xs.filter fun x => !p x).length + (xs.filter p).length = xs.length := by
  induction xs with
  | nil => rfl
  | cons x xs ih =>
    rw [filter_cons, filter_cons, length_cons]
    cases p x <;> simp <;> omega

theorem length_filter_keys {κ α : Type} [DecidableEq κ] (d : Dict κ α) {ks : List κ}
    (hnodup : ks.Nodup) (hin : ∀ k ∈ ks, k ∈ d.keys) :
    (d.entries.filter fun e => decide (e.1 ∈ ks)).length = ks.length := by
  have hperm : ((d.entries.filter fun e => decide (e.1 ∈ ks)).map fst).Perm ks := by
    refine (perm_ext_iff_of_nodup ((filter_sublist.map fst).nodup d.nodup) hnodup).mpr fun k => ?_
    constructor
    · intro hk
      obtain ⟨e, he, rfl⟩ := mem_map.mp hk
      exact of_decide_eq_true (mem_filter.mp he).2
    · intro hk
      obtain ⟨e, he, rfl⟩ := mem_map.mp (hin k hk)
      exact mem_map.mpr ⟨e, mem_filter.mpr ⟨he, decide_eq_true hk⟩, rfl⟩
  rw [← hperm.length_eq, length_map]

/-- The count of idle entities, the number that the deletion reports and the number of rows of
`entity_stats` that it removes are the same. -/
structure DormantCountExact (store : TierStore) (limits : DormantLimits) : Prop where
  reported : store.countDormantEntities limits = (store.pruneDormantEntities limits).2
  removed : ((store.pruneDormantEntities limits).1.entityStats.entries.length : Int) +
    (store.pruneDormantEntities limits).2 = store.entityStats.entries.length

/-- Two rows are of one entity. -/
def SameEntity (row other : StatsKey × EffectiveStats) : Prop :=
  (row.1.projectId, row.1.entity) = (other.1.projectId, other.1.entity)

/-- No row that is counted belongs to a dormant entity, and the rows of an entity are deleted
for what each of them is. -/
structure DormantRowsPlain (store : TierStore) (limits : DormantLimits) : Prop where
  awake : ∀ row ∈ store.entityStats.entries, store.countsRow limits row = true →
    (Tier.dormant.value : Int) < store.joinedTier row.1
  pipelines : ∀ row ∈ store.entityStats.entries, store.prunesRow limits row = true →
    ∀ other ∈ store.entityStats.entries, SameEntity other row → store.prunesRow limits other = true

variable (store : TierStore)
variable (limits : DormantLimits)

theorem prunesRow_iff (row : StatsKey × EffectiveStats) :
    store.prunesRow limits row = true ↔ store.countsRow limits row = true ∧
      (Tier.dormant.value : Int) < store.joinedTier row.1 := by
  simp only [TierStore.prunesRow, TierStore.countsRow, Bool.and_eq_true, Bool.not_eq_true',
    decide_eq_false_iff_not, not_le]
  tauto

theorem entries_deleteEntity (projectId : Int) (entity : EntityKey) :
    (store.deleteEntity projectId entity).entityStats.entries =
      store.entityStats.entries.filter fun e =>
        !decide ((e.1.projectId, e.1.entity) = (projectId, entity)) := rfl

theorem foldl_deleteEntity (rows : List (StatsKey × EffectiveStats)) (state : TierStore × Int) :
    (rows.foldl (fun state row =>
        (state.1.deleteEntity row.1.projectId row.1.entity, state.2 + 1)) state).1.entityStats.entries =
      state.1.entityStats.entries.filter (fun e => !rows.any fun row =>
        decide ((e.1.projectId, e.1.entity) = (row.1.projectId, row.1.entity))) ∧
    (rows.foldl (fun state row =>
        (state.1.deleteEntity row.1.projectId row.1.entity, state.2 + 1)) state).2 =
      state.2 + rows.length := by
  induction rows generalizing state with
  | nil => simp
  | cons row rows ih =>
    obtain ⟨hentries, hcount⟩ :=
      ih (state.1.deleteEntity row.1.projectId row.1.entity, state.2 + 1)
    rw [foldl_cons, hentries, hcount, entries_deleteEntity, filter_filter]
    refine ⟨?_, by rw [length_cons]; push_cast; ring⟩
    congr 1
    funext e
    rw [any_cons, Bool.not_or, Bool.and_comm]

theorem reported_iff :
    store.countDormantEntities limits = (store.pruneDormantEntities limits).2 ↔
      ∀ row ∈ store.entityStats.entries, store.countsRow limits row = true →
        (Tier.dormant.value : Int) < store.joinedTier row.1 := by
  have hcount := (foldl_deleteEntity (store.entityStats.entries.filter (store.prunesRow limits))
    (store, 0)).2
  rw [TierStore.pruneDormantEntities, hcount, TierStore.countDormantEntities, Int.zero_add,
    Int.natCast_inj, eq_comm, length_filter_eq_iff]
  · refine forall_congr' fun row => forall_congr' fun _ => forall_congr' fun hcounts => ?_
    rw [prunesRow_iff]
    exact and_iff_right hcounts
  · exact fun row _ h => ((prunesRow_iff store limits row).mp h).1

theorem removed_iff :
    ((store.pruneDormantEntities limits).1.entityStats.entries.length : Int) +
        (store.pruneDormantEntities limits).2 = store.entityStats.entries.length ↔
      ∀ row ∈ store.entityStats.entries, store.prunesRow limits row = true →
        ∀ other ∈ store.entityStats.entries, SameEntity other row →
          store.prunesRow limits other = true := by
  obtain ⟨hentries, hcount⟩ := foldl_deleteEntity
    (store.entityStats.entries.filter (store.prunesRow limits)) (store, 0)
  rw [TierStore.pruneDormantEntities, hentries, hcount]
  generalize htouched : (fun e : StatsKey × EffectiveStats =>
    (store.entityStats.entries.filter (store.prunesRow limits)).any fun row =>
      decide ((e.1.projectId, e.1.entity) = (row.1.projectId, row.1.entity))) = touched
  have hany : ∀ e, touched e = true ↔ ∃ row ∈ store.entityStats.entries,
      store.prunesRow limits row = true ∧ SameEntity e row := by
    intro e
    rw [← htouched]
    simp only [any_eq_true, mem_filter, decide_eq_true_eq, and_assoc, SameEntity]
  have hfun : (fun e : StatsKey × EffectiveStats =>
      !(store.entityStats.entries.filter (store.prunesRow limits)).any fun row =>
        decide ((e.1.projectId, e.1.entity) = (row.1.projectId, row.1.entity))) =
      fun e => !touched e := by
    rw [← htouched]
  have hsum := length_filter_add touched store.entityStats.entries
  have hlengths : ((store.entityStats.entries.filter (store.prunesRow limits)).length =
      (store.entityStats.entries.filter touched).length) ↔ _ :=
    length_filter_eq_iff fun row hrow h => (hany row).mpr ⟨row, hrow, h, rfl⟩
  rw [hfun]
  have hcounts : ((store.entityStats.entries.filter fun e => !touched e).length : Int) +
      (0 + ((store.entityStats.entries.filter (store.prunesRow limits)).length : Int)) =
        store.entityStats.entries.length ↔
      (store.entityStats.entries.filter (store.prunesRow limits)).length =
        (store.entityStats.entries.filter touched).length := by
    omega
  rw [hcounts, hlengths]
  constructor
  · exact fun h row hrow hp other hother hsame => h other hother ((hany other).mpr ⟨row, hrow, hp, hsame⟩)
  · intro h other hother ht
    obtain ⟨row, hrow, hp, hsame⟩ := (hany other).mp ht
    exact h row hrow hp other hother hsame

theorem dormantCountExact_iff : DormantCountExact store limits ↔ DormantRowsPlain store limits :=
  ⟨fun h => ⟨(reported_iff store limits).mp h.reported, (removed_iff store limits).mp h.removed⟩,
    fun h => ⟨(reported_iff store limits).mpr h.awake, (removed_iff store limits).mpr h.pipelines⟩⟩

namespace EpochLog

/-- The count of the epoch log, the number that the deletion reports and the number of rows
that it removes are the same. -/
structure CountExact (log : EpochLog) (maxAgeMs maxEntries : Int) : Prop where
  reported : log.countPrunable maxAgeMs maxEntries = (log.prune maxAgeMs maxEntries).2
  removed : ((log.prune maxAgeMs maxEntries).1.entries.length : Int) +
    (log.prune maxAgeMs maxEntries).2 = log.entries.length

/-- No row is too old, or the age limit is on and no project has both rows that are too old and
rows beyond the cap. -/
def LimitsApart (log : EpochLog) (maxAgeMs maxEntries : Int) : Prop :=
  (∀ row ∈ log.entries, maxAgeMs ≤ row.2.tsMs) ∨
    0 < maxAgeMs ∧ ∀ projectId, (∀ row ∈ log.ofProject projectId, maxAgeMs ≤ row.2.tsMs) ∨
      ((log.ofProject projectId).length : Int) ≤ max maxEntries 0

variable (maxEntries : Int)

theorem excess_nonneg (count : ℕ) : 0 ≤ excess maxEntries count := le_max_right _ _

theorem excess_le (count : ℕ) : excess maxEntries count ≤ count := by
  rw [excess]
  omega

theorem excess_mono {m n : ℕ} (h : m ≤ n) : excess maxEntries m ≤ excess maxEntries n := by
  rw [excess, excess]
  omega

variable {log : EpochLog} {projectId : Int}

theorem mem_projects : projectId ∈ log.projects ↔ log.ofProject projectId ≠ [] := by
  have hget := get?_groupsBy (fun row : Int × EpochLogRow => row.2.projectId) log.entries projectId
  rw [projects, Dict.mem_keys_iff, hget, Ne, ofProject, filter_eq_nil_iff]
  constructor
  · rintro ⟨rows, hrows⟩ hnone
    split at hrows
    · rename_i hin
      obtain ⟨row, hrow, hproject⟩ := mem_map.mp hin
      exact hnone row hrow (decide_eq_true hproject)
    · cases hrows
  · intro hsome
    have hin : projectId ∈ log.entries.map fun row => row.2.projectId := by
      by_contra hnot
      refine hsome fun row hrow hproject => hnot ?_
      exact mem_map.mpr ⟨row, hrow, of_decide_eq_true hproject⟩
    exact ⟨_, if_pos hin⟩

theorem nodup_projects (log : EpochLog) : log.projects.Nodup :=
  (groupsBy (fun row : Int × EpochLogRow => row.2.projectId) log.entries).nodup

theorem mem_ofProject {row : Int × EpochLogRow} :
    row ∈ log.ofProject projectId ↔ row ∈ log.entries ∧ row.2.projectId = projectId := by
  rw [ofProject, mem_filter, decide_eq_true_eq]

theorem foldl_delete (rows : List (Int × EpochLogRow)) (state : EpochLog × Int) :
    (rows.foldl (fun state row =>
        (state.1.filter fun id _ => !decide (id = row.1), state.2 + 1)) state).1.entries =
      state.1.entries.filter (fun e => !decide (e.1 ∈ rows.map fst)) ∧
    (rows.foldl (fun state row =>
        (state.1.filter fun id _ => !decide (id = row.1), state.2 + 1)) state).2 =
      state.2 + rows.length := by
  induction rows generalizing state with
  | nil => simp
  | cons row rows ih =>
    obtain ⟨hentries, hcount⟩ := ih (state.1.filter fun id _ => !decide (id = row.1), state.2 + 1)
    have hfilter : (state.1.filter fun id _ => !decide (id = row.1)).entries =
        state.1.entries.filter fun e => !decide (e.1 = row.1) := rfl
    rw [foldl_cons, hentries, hcount, hfilter, filter_filter]
    refine ⟨?_, by rw [length_cons]; push_cast; ring⟩
    congr 1
    funext e
    rw [map_cons, Bool.eq_iff_iff]
    simp only [Bool.and_eq_true, Bool.not_eq_true', decide_eq_false_iff_not, mem_cons]
    tauto

theorem length_oldRows (log : EpochLog) (maxEntries projectId : Int) :
    ((log.oldRows maxEntries projectId).length : Int) =
      excess maxEntries (log.ofProject projectId).length := by
  have hle := excess_le maxEntries (log.ofProject projectId).length
  have hpos := excess_nonneg maxEntries (log.ofProject projectId).length
  rw [oldRows, length_take, length_mergeSort]
  omega

theorem mem_oldRows {maxEntries : Int} {row : Int × EpochLogRow}
    (h : row ∈ log.oldRows maxEntries projectId) :
    row ∈ log.entries ∧ row.2.projectId = projectId :=
  mem_ofProject.mp (mem_mergeSort.mp (mem_of_mem_take h))

theorem nodup_oldRows (log : EpochLog) (maxEntries projectId : Int) :
    ((log.oldRows maxEntries projectId).map fst).Nodup := by
  have hproject : ((log.ofProject projectId).map fst).Nodup :=
    (filter_sublist.map fst).nodup log.nodup
  have hsorted := ((mergeSort_perm (log.ofProject projectId) fun a b =>
    decide (a.2.tsMs ≤ b.2.tsMs)).map fst).nodup_iff.mpr hproject
  rw [oldRows, map_take]
  exact (take_sublist _ _).nodup hsorted

/-- What the body of the loop does: the excess of the project goes, and nothing else. -/
theorem trimProject_spec (state : EpochLog × Int) (projectId : Int) :
    (trimProject maxEntries state projectId).2 =
        state.2 + excess maxEntries (state.1.ofProject projectId).length ∧
      ((trimProject maxEntries state projectId).1.entries.length : Int) +
        excess maxEntries (state.1.ofProject projectId).length = state.1.entries.length ∧
      ∀ other ≠ projectId, (trimProject maxEntries state projectId).1.ofProject other =
        state.1.ofProject other := by
  obtain ⟨hentries, hcount⟩ := foldl_delete (state.1.oldRows maxEntries projectId) state
  have hlength := length_oldRows state.1 maxEntries projectId
  rw [trimProject]
  refine ⟨by rw [hcount, hlength], ?_, fun other hother => ?_⟩
  · have hkeys := length_filter_keys state.1 (nodup_oldRows state.1 maxEntries projectId)
      fun id hid => by
        obtain ⟨row, hrow, rfl⟩ := mem_map.mp hid
        exact mem_map_of_mem (mem_oldRows hrow).1
    have hsum := length_filter_add (fun e : Int × EpochLogRow =>
      decide (e.1 ∈ (state.1.oldRows maxEntries projectId).map fst)) state.1.entries
    rw [hentries, ← hlength]
    rw [length_map] at hkeys
    omega
  · rw [ofProject, ofProject, hentries, filter_filter]
    refine filter_congr fun row hrow => ?_
    by_cases hproject : row.2.projectId = other
    · have hkept : row.1 ∉ (state.1.oldRows maxEntries projectId).map fst := by
        intro hid
        obtain ⟨old, hold, hsame⟩ := mem_map.mp hid
        obtain ⟨hin, hof⟩ := mem_oldRows hold
        have heq : old = row := inj_on_of_nodup_map state.1.nodup hin hrow hsame
        rw [heq, hproject] at hof
        exact hother hof
      simp [hproject, hkept]
    · simp [hproject]

theorem foldl_trimProject {ids : List Int} (hnodup : ids.Nodup) (state : EpochLog × Int) :
    (ids.foldl (trimProject maxEntries) state).2 = state.2 +
        sumOf (fun id => excess maxEntries (state.1.ofProject id).length) ids ∧
      ((ids.foldl (trimProject maxEntries) state).1.entries.length : Int) +
        sumOf (fun id => excess maxEntries (state.1.ofProject id).length) ids =
          state.1.entries.length := by
  induction ids generalizing state with
  | nil => simp
  | cons id ids ih =>
    obtain ⟨hid, hids⟩ := nodup_cons.mp hnodup
    obtain ⟨hcount, hlength, hothers⟩ := trimProject_spec maxEntries state id
    obtain ⟨hcounts, hlengths⟩ := ih hids (trimProject maxEntries state id)
    have hsame : sumOf (fun other => excess maxEntries
        ((trimProject maxEntries state id).1.ofProject other).length) ids =
        sumOf (fun other => excess maxEntries (state.1.ofProject other).length) ids :=
      sumOf_congr fun other hother => by rw [hothers other fun heq => hid (heq ▸ hother)]
    rw [foldl_cons, sumOf_cons, hcounts, hsame, hcount]
    rw [hsame] at hlengths
    exact ⟨by ring, by omega⟩

theorem sumOf_subset {f : Int → Int} {xs ys : List Int} (hxs : xs.Nodup) (hys : ys.Nodup)
    (hsub : ∀ x ∈ xs, x ∈ ys) (hzero : ∀ y ∈ ys, y ∉ xs → f y = 0) : sumOf f xs = sumOf f ys := by
  have hperm : (ys.filter fun y => decide (y ∈ xs)).Perm xs := by
    refine (perm_ext_iff_of_nodup (hys.filter _) hxs).mpr fun x => ?_
    rw [mem_filter, decide_eq_true_eq]
    exact ⟨And.right, fun hx => ⟨hsub x hx, hx⟩⟩
  rw [← sumOf_perm hperm, sumOf_filter]
  refine sumOf_congr fun y hy => ?_
  by_cases hin : y ∈ xs
  · simp [hin]
  · simp [hin, hzero y hy hin]

theorem sumOf_eq_iff_of_le {f g : Int → Int} {xs : List Int} (h : ∀ x ∈ xs, f x ≤ g x) :
    sumOf f xs = sumOf g xs ↔ ∀ x ∈ xs, f x = g x := by
  have hdiff : sumOf (fun x => g x + -1 * f x) xs = 0 ↔ ∀ x ∈ xs, g x + -1 * f x = 0 :=
    sumOf_eq_zero_iff fun x hx => by have := h x hx; omega
  rw [sumOf_add, sumOf_mul_left] at hdiff
  constructor
  · intro heq x hx
    have hterm := hdiff.mp (by omega) x hx
    omega
  · exact fun heq => sumOf_congr heq

theorem prune_spec (log : EpochLog) (maxAgeMs maxEntries : Int) :
    (log.prune maxAgeMs maxEntries).2 = (log.pruneAged maxAgeMs).2 +
        sumOf (fun id => excess maxEntries ((log.pruneAged maxAgeMs).1.ofProject id).length)
          (log.pruneAged maxAgeMs).1.projects ∧
      ((log.prune maxAgeMs maxEntries).1.entries.length : Int) +
        (log.prune maxAgeMs maxEntries).2 = log.entries.length := by
  obtain ⟨hcount, hlength⟩ := foldl_trimProject maxEntries
    (nodup_projects (log.pruneAged maxAgeMs).1) (log.pruneAged maxAgeMs)
  have haged : ((log.pruneAged maxAgeMs).1.entries.length : Int) + (log.pruneAged maxAgeMs).2 =
      log.entries.length := by
    rw [pruneAged]
    split
    · have hsum := length_filter_add (fun row : Int × EpochLogRow =>
        decide (row.2.tsMs < maxAgeMs)) log.entries
      simp only [Dict.filter]
      omega
    · simp
  rw [prune]
  exact ⟨hcount, by omega⟩

theorem ofProject_pruneAged {maxAgeMs : Int} (h : 0 < maxAgeMs) (projectId : Int) :
    (log.pruneAged maxAgeMs).1.ofProject projectId =
      (log.ofProject projectId).filter fun row => !decide (row.2.tsMs < maxAgeMs) := by
  have hentries : (log.pruneAged maxAgeMs).1.entries =
      log.entries.filter fun row => !decide (row.2.tsMs < maxAgeMs) := by
    rw [pruneAged, if_pos h]
    rfl
  rw [ofProject, hentries, ofProject, filter_filter, filter_filter]
  congr 1
  funext row
  rw [Bool.and_comm]

theorem excess_filter_iff (maxAgeMs maxEntries : Int) (rows : List (Int × EpochLogRow)) :
    excess maxEntries (rows.filter fun row => !decide (row.2.tsMs < maxAgeMs)).length =
        excess maxEntries rows.length ↔
      (∀ row ∈ rows, maxAgeMs ≤ row.2.tsMs) ∨ (rows.length : Int) ≤ max maxEntries 0 := by
  have hle := length_filter_le (fun row : Int × EpochLogRow =>
    !decide (row.2.tsMs < maxAgeMs)) rows
  have hall : (rows.filter fun row => !decide (row.2.tsMs < maxAgeMs)).length = rows.length ↔
      ∀ row ∈ rows, maxAgeMs ≤ row.2.tsMs := by
    rw [length_filter_eq_length_iff]
    simp only [Bool.not_eq_true', decide_eq_false_iff_not, not_lt]
  rw [← hall, excess, excess]
  omega

theorem reported_iff (log : EpochLog) (maxAgeMs maxEntries : Int) :
    log.countPrunable maxAgeMs maxEntries = (log.prune maxAgeMs maxEntries).2 ↔
      log.LimitsApart maxAgeMs maxEntries := by
  have haged : (log.entries.filter fun row => decide (row.2.tsMs < maxAgeMs)) = [] ↔
      ∀ row ∈ log.entries, maxAgeMs ≤ row.2.tsMs := by
    rw [filter_eq_nil_iff]
    simp only [decide_eq_true_eq, not_lt]
  rw [(prune_spec log maxAgeMs maxEntries).1, countPrunable]
  by_cases h : 0 < maxAgeMs
  · have hsum : sumOf (fun id => excess maxEntries
        ((log.pruneAged maxAgeMs).1.ofProject id).length) (log.pruneAged maxAgeMs).1.projects =
        sumOf (fun id => excess maxEntries ((log.pruneAged maxAgeMs).1.ofProject id).length)
          log.projects := by
      refine sumOf_subset (nodup_projects _) (nodup_projects _) (fun id hid => ?_) fun id _ hid => ?_
      · rw [mem_projects, ofProject_pruneAged h] at hid
        rw [mem_projects]
        intro hnil
        rw [hnil] at hid
        exact hid rfl
      · rw [mem_projects, not_not] at hid
        rw [hid, length_nil, excess]
        omega
    have hnumber : (log.pruneAged maxAgeMs).2 =
        (log.entries.filter fun row => decide (row.2.tsMs < maxAgeMs)).length := by
      rw [pruneAged, if_pos h]
    rw [hsum, hnumber, add_right_inj, eq_comm, sumOf_eq_iff_of_le]
    · rw [LimitsApart]
      simp only [ofProject_pruneAged h, excess_filter_iff, h, true_and]
      constructor
      · intro hall
        refine .inr fun id => ?_
        by_cases hid : id ∈ log.projects
        · exact hall id hid
        · rw [mem_projects, not_not] at hid
          rw [hid]
          exact .inl nofun
      · rintro (hnone | hall)
        · exact fun id _ => .inl fun row hrow => hnone row (mem_ofProject.mp hrow).1
        · exact fun id _ => hall id
    · intro id _
      rw [ofProject_pruneAged h]
      exact excess_mono maxEntries (length_filter_le _ _)
  · have hsame : log.pruneAged maxAgeMs = (log, 0) := by rw [pruneAged, if_neg h]
    rw [hsame, LimitsApart, ← haged, ← length_eq_zero_iff]
    simp only [h, false_and, or_false]
    omega

theorem countExact_iff (log : EpochLog) (maxAgeMs maxEntries : Int) :
    log.CountExact maxAgeMs maxEntries ↔ log.LimitsApart maxAgeMs maxEntries :=
  ⟨fun h => (reported_iff log maxAgeMs maxEntries).mp h.reported,
    fun h => ⟨(reported_iff log maxAgeMs maxEntries).mpr h, (prune_spec log maxAgeMs maxEntries).2⟩⟩

end EpochLog

/-- Where neither decay nor the purge of stale tools changes a row, the maintenance reports in a
dry run what it reports when it deletes. -/
def DryRunExact (log : EpochLog) (retention : TierRetentionConfig) (nowMs : Int) : Prop :=
  ∀ (ops : FloatOps) (purgeStale : TierStore → TierStore),
    decayOnMaintenance ops retention store = (store, true) → purgeStale store = store →
      runTierStateMaintenance ops purgeStale retention nowMs true store log =
        runTierStateMaintenance ops purgeStale retention nowMs false store log

/-- The counts of a store and its epoch log are exact when no counted row is dormant, the rows
of an entity are deleted for what each of them is and the limits of the epoch log do not meet;
and then the dry run reports what the maintenance deletes. -/
theorem countsExact_iff (store : TierStore) (limits : DormantLimits) (log : EpochLog)
    (maxAgeMs maxEntries : Int) (retention : TierRetentionConfig) (nowMs : Int) :
    (DormantCountExact store limits ↔ DormantRowsPlain store limits) ∧
    (log.CountExact maxAgeMs maxEntries ↔ log.LimitsApart maxAgeMs maxEntries) ∧
    (DormantRowsPlain store (retention.dormantLimits nowMs) →
      log.LimitsApart (retention.ageCutoffMs nowMs) retention.epochLogMaxEntries →
        DryRunExact store log retention nowMs) := by
  refine ⟨dormantCountExact_iff _ _, EpochLog.countExact_iff _ _ _, ?_⟩
  intro hrows hlimits ops purgeStale hdecay hpurge
  have hcount := ((dormantCountExact_iff _ _).mpr hrows).reported
  have hlog := ((EpochLog.countExact_iff _ _ _).mpr hlimits).reported
  rw [runTierStateMaintenance, runTierStateMaintenance, deleteOnMaintenance, hdecay, hpurge,
    hcount, hlog]
  rfl

/-- A store of one skill that was last seen at the beginning of time, on a tier. -/
def idleStore (tier : Tier) : TierStore where
  entityTier := Dict.empty.set (1, .skill, ['s']) ⟨tier, tier, none, 0, none, 0, 0⟩
  entityStats := Dict.empty.set ⟨1, (.skill, ['s']), "default"⟩ .init

/-- One day and one millisecond after the beginning of time. -/
def idleLimits : TierRetentionConfig := ⟨true, false, 1, 1, 1, 1, 1⟩

theorem countsExact_iff_cold :
    (DormantCountExact (idleStore .cold) (idleLimits.dormantLimits 86400001) ↔
      DormantRowsPlain (idleStore .cold) (idleLimits.dormantLimits 86400001)) ∧
    (EpochLog.CountExact (Dict.empty.set 1 ⟨1, 0⟩) 1 1 ↔
      EpochLog.LimitsApart (Dict.empty.set 1 ⟨1, 0⟩) 1 1) ∧
    DryRunExact (idleStore .cold) (Dict.empty.set 1 ⟨1, 0⟩) idleLimits 86400001 := by
  have hrows : DormantRowsPlain (idleStore .cold) (idleLimits.dormantLimits 86400001) := by
    constructor
    · intro row hrow _
      obtain rfl := mem_singleton.mp hrow
      decide
    · intro row hrow hp other hother _
      obtain rfl := mem_singleton.mp hrow
      obtain rfl := mem_singleton.mp hother
      exact hp
  have hlimits : EpochLog.LimitsApart (Dict.empty.set 1 ⟨1, 0⟩) 1 1 := by
    refine .inr ⟨by decide, fun id => .inr ?_⟩
    exact Int.ofNat_le.mpr (length_filter_le _ _)
  obtain ⟨hdormant, hlog, hexact⟩ := countsExact_iff (idleStore .cold)
    (idleLimits.dormantLimits 86400001) (Dict.empty.set 1 ⟨1, 0⟩) 1 1 idleLimits 86400001
  exact ⟨hdormant, hlog, hexact hrows hlimits⟩

theorem dormant_entity_counted :
    ¬ ((∀ (store : TierStore) (limits : DormantLimits), DormantCountExact store limits) ∧
      ∀ (log : EpochLog) (maxAgeMs maxEntries : Int), log.CountExact maxAgeMs maxEntries) := by
  rintro ⟨h, -⟩
  have hreported := (h (idleStore .dormant) (idleLimits.dormantLimits 86400001)).reported
  have hcount : (idleStore .dormant).countDormantEntities (idleLimits.dormantLimits 86400001) = 1 := by
    decide
  have hprune : ((idleStore .dormant).pruneDormantEntities
      (idleLimits.dormantLimits 86400001)).2 = 0 := by
    decide
  rw [hcount, hprune] at hreported
  cases hreported

end ClearYourTools.Tiers
