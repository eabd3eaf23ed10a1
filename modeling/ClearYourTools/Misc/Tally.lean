import Mathlib.Algebra.Order.Group.Int
import Mathlib.Data.List.Dedup
import Mathlib.Data.List.Induction
import Mathlib.Data.List.Perm.Basic
import Mathlib.Data.List.Sort
import Mathlib.Tactic.Ring
import ClearYourTools.Misc.Dict

/-!
# Sums over lists and tables

The sum of a measure over a list, the dictionary of the sums by key, and the dictionary of the
groups by key. Regrouping a list does not change a sum.
-/

namespace Misc

open List Option

variable {α β κ : Type}

/-- The sum of a measure over a list. -/
def sumOf (f : α → ℤ) : List α → ℤ
  | [] => 0
  | x :: xs => f x + sumOf f xs

variable (f : α → ℤ)

@[simp] theorem sumOf_nil : sumOf f [] = 0 := rfl

@[simp] theorem sumOf_cons (x : α) (xs : List α) : sumOf f (x :: xs) = f x + sumOf f xs := rfl

@[simp] theorem sumOf_append (xs ys : List α) : sumOf f (xs ++ ys) = sumOf f xs + sumOf f ys := by
  induction xs with
  | nil => exact (zero_add _).symm
  | cons x xs ih => rw [List.cons_append, sumOf_cons, sumOf_cons, ih, add_assoc]

theorem sumOf_map (f : β → ℤ) (g : α → β) (xs : List α) :
    sumOf f (xs.map g) = sumOf (fun x => f (g x)) xs := by
  induction xs with
  | nil => rfl
  | cons x xs ih => rw [map_cons, sumOf_cons, sumOf_cons, ih]

theorem sumOf_flatMap (f : β → ℤ) (g : α → List β) (xs : List α) :
    sumOf f (xs.flatMap g) = sumOf (fun x => sumOf f (g x)) xs := by
  induction xs with
  | nil => rfl
  | cons x xs ih => rw [flatMap_cons, sumOf_append, sumOf_cons, ih]

variable {f : α → ℤ} {xs : List α}

theorem sumOf_congr {g : α → ℤ} (h : ∀ x ∈ xs, f x = g x) : sumOf f xs = sumOf g xs := by
  induction xs with
  | nil => rfl
  | cons x xs ih =>
    rw [sumOf_cons, sumOf_cons, h x mem_cons_self, ih fun y hy => h y (mem_cons_of_mem _ hy)]

theorem sumOf_filter (p : α → Bool) (xs : List α) :
    sumOf f (xs.filter p) = sumOf (fun x => if p x then f x else 0) xs := by
  induction xs with
  | nil => rfl
  | cons x xs ih =>
    rw [filter_cons, sumOf_cons, ← ih]
    cases p x with
    | true => rfl
    | false => exact (zero_add _).symm

theorem sumOf_add (f g : α → ℤ) (xs : List α) :
    sumOf (fun x => f x + g x) xs = sumOf f xs + sumOf g xs := by
  induction xs with
  | nil => rfl
  | cons x xs ih =>
    rw [sumOf_cons, sumOf_cons, sumOf_cons, ih]
    ring

theorem sumOf_zero (xs : List α) : sumOf (fun _ => 0) xs = 0 := by
  induction xs with
  | nil => rfl
  | cons x xs ih => rw [sumOf_cons, ih, add_zero]

theorem sumOf_mul_left (c : ℤ) (f : α → ℤ) (xs : List α) :
    sumOf (fun x => c * f x) xs = c * sumOf f xs := by
  induction xs with
  | nil => exact (mul_zero c).symm
  | cons x xs ih => rw [sumOf_cons, sumOf_cons, ih, mul_add]

theorem sumOf_nonneg (h : ∀ x ∈ xs, 0 ≤ f x) : 0 ≤ sumOf f xs := by
  induction xs with
  | nil => exact le_refl 0
  | cons x xs ih =>
    exact add_nonneg (h x mem_cons_self) (ih fun y hy => h y (mem_cons_of_mem _ hy))

/-- A sum of terms that are not negative is zero if and only if each term is. -/
theorem sumOf_eq_zero_iff (h : ∀ x ∈ xs, 0 ≤ f x) : sumOf f xs = 0 ↔ ∀ x ∈ xs, f x = 0 := by
  induction xs with
  | nil => exact iff_of_true rfl nofun
  | cons x xs ih =>
    have hrest : ∀ y ∈ xs, 0 ≤ f y := fun y hy => h y (mem_cons_of_mem _ hy)
    rw [sumOf_cons, add_eq_zero_iff_of_nonneg (h x mem_cons_self) (sumOf_nonneg hrest),
      ih hrest, forall_mem_cons]

theorem sumOf_perm {ys : List α} (h : xs.Perm ys) : sumOf f xs = sumOf f ys := by
  induction h with
  | nil => rfl
  | cons x _ ih => rw [sumOf_cons, sumOf_cons, ih]
  | swap x y xs =>
    rw [sumOf_cons, sumOf_cons, sumOf_cons, sumOf_cons]
    ring
  | trans _ _ ih₁ ih₂ => exact ih₁.trans ih₂

/-- A sum of terms that are positive is zero if and only if there are none. -/
theorem sumOf_eq_zero_iff_of_pos (h : ∀ x ∈ xs, 0 < f x) : sumOf f xs = 0 ↔ xs = [] := by
  rw [sumOf_eq_zero_iff fun x hx => (h x hx).le]
  constructor
  · intro hzero
    refine eq_nil_iff_forall_not_mem.mpr fun x hx => ?_
    exact (h x hx).ne' (hzero x hx)
  · rintro rfl
    exact nofun

variable [DecidableEq κ]

/-- Writing a key adds the measure of its new entry and takes away that of the old one. -/
theorem sumOf_entries_set (f : κ × α → ℤ) (d : Dict κ α) (k : κ) (v : α) :
    sumOf f (d.set k v).entries =
      sumOf f d.entries + f (k, v) - ((d.get? k).map fun old => f (k, old)).getD 0 := by
  have hentries : ∀ es : List (κ × α), sumOf f (Dict.setEntries k v es) =
      sumOf f es + f (k, v) - ((es.lookup k).map fun old => f (k, old)).getD 0 := by
    intro es
    induction es with
    | nil => simp [Dict.setEntries]
    | cons e es ih =>
      rw [Dict.setEntries]
      by_cases hk : e.1 = k
      · subst hk
        rw [if_pos rfl, sumOf_cons, sumOf_cons, lookup_cons, beq_self_eq_true]
        simp only [map_some, getD_some]
        ring
      · rw [if_neg hk, sumOf_cons, sumOf_cons, ih, lookup_cons, beq_false_of_ne fun h => hk h.symm]
        ring
  rw [Dict.entries_set]
  exact hentries d.entries

/-- Numbers, each added to the sum of its key. -/
def addSums (sums : Dict κ ℤ) (rows : List (κ × ℤ)) : Dict κ ℤ :=
  rows.foldl (fun sums row => sums.set row.1 ((sums.get? row.1).getD 0 + row.2)) sums

theorem getD_get?_addSums (sums : Dict κ ℤ) (rows : List (κ × ℤ)) (k : κ) :
    ((addSums sums rows).get? k).getD 0 =
      (sums.get? k).getD 0 + sumOf Prod.snd (rows.filter fun row => decide (row.1 = k)) := by
  induction rows generalizing sums with
  | nil => exact (add_zero _).symm
  | cons row rows ih =>
    have hstep : addSums sums (row :: rows) =
        addSums (sums.set row.1 ((sums.get? row.1).getD 0 + row.2)) rows := rfl
    rw [hstep, ih, filter_cons, Dict.get?_set]
    by_cases hk : k = row.1
    · subst hk
      rw [if_pos rfl, decide_eq_true rfl, if_pos rfl, sumOf_cons, getD_some, add_assoc]
    · rw [if_neg hk, decide_eq_false fun h => hk h.symm]
      rfl

/-- What a condition on the keys keeps of the sums is the sum of what it keeps of the numbers. -/
theorem sumOf_addSums (keep : κ → Bool) (sums : Dict κ ℤ) (rows : List (κ × ℤ)) :
    sumOf (fun row => if keep row.1 then row.2 else 0) (addSums sums rows).entries =
      sumOf (fun row => if keep row.1 then row.2 else 0) sums.entries +
        sumOf (fun row => if keep row.1 then row.2 else 0) rows := by
  induction rows generalizing sums with
  | nil => exact (add_zero _).symm
  | cons row rows ih =>
    have hstep : addSums sums (row :: rows) =
        addSums (sums.set row.1 ((sums.get? row.1).getD 0 + row.2)) rows := rfl
    rw [hstep, ih, sumOf_entries_set, sumOf_cons]
    cases hkeep : keep row.1 <;> cases sums.get? row.1 <;>
      simp only [hkeep, if_true, if_false, Bool.false_eq_true, getD_none, getD_some,
        map_none, map_some] <;>
      ring

/-- The groups of the items with a key, in the order in which the keys first occur. -/
def groupsOf (key : α → Option κ) (xs : List α) : Dict κ (List α) :=
  xs.foldl (fun groups x =>
    match key x with
    | none => groups
    | some k => groups.set k ((groups.get? k).getD [] ++ [x])) .empty

/-- The groups of a list by a key, in the order in which the keys first occur. -/
def groupsBy (key : α → κ) (xs : List α) : Dict κ (List α) := groupsOf (fun x => some (key x)) xs

variable {key : α → Option κ}

theorem groupsOf_append_none {x : α} (h : key x = none) (xs : List α) :
    groupsOf key (xs ++ [x]) = groupsOf key xs := by
  rw [groupsOf, foldl_append, foldl_cons, foldl_nil, h]
  rfl

theorem groupsOf_append_some {x : α} {k : κ} (h : key x = some k)
    (xs : List α) : groupsOf key (xs ++ [x]) =
      (groupsOf key xs).set k (((groupsOf key xs).get? k).getD [] ++ [x]) := by
  rw [groupsOf, foldl_append, foldl_cons, foldl_nil, h]
  rfl

variable (key : α → Option κ)

/-- Each group has the items of its key, in their order. -/
theorem get?_groupsOf (xs : List α) (k : κ) :
    (groupsOf key xs).get? k =
      if k ∈ xs.filterMap key then some (xs.filter fun x => decide (key x = some k)) else none := by
  induction xs using List.reverseRecOn with
  | nil => rfl
  | append_singleton xs x ih =>
    rw [filterMap_append, filter_append, filter_singleton]
    cases hx : key x with
    | none =>
      rw [groupsOf_append_none hx, ih, decide_eq_false nofun]
      simp [hx]
    | some k' =>
      rw [groupsOf_append_some hx, Dict.get?_set]
      by_cases hk : k = k'
      · subst hk
        have hmem : k ∈ xs.filterMap key ++ [x].filterMap key := by simp [hx]
        rw [if_pos rfl, if_pos hmem, decide_eq_true rfl, ih]
        split
        · rfl
        rename_i hnot
        have hnone : xs.filter (fun y => decide (key y = some k)) = [] := by
          refine filter_eq_nil_iff.mpr fun y hy heq => hnot ?_
          exact mem_filterMap.mpr ⟨y, hy, of_decide_eq_true heq⟩
        rw [hnone]
        rfl
      · have hmem : k ∈ xs.filterMap key ++ [x].filterMap key ↔ k ∈ xs.filterMap key := by
          simp [hx, hk]
        rw [if_neg hk, ih, decide_eq_false fun heq => hk (some_inj.mp heq).symm]
        simp only [hmem, Bool.cond_false, List.append_nil]

theorem sumOf_groupsOf (xs : List α) :
    sumOf (fun group => sumOf f group.2) (groupsOf key xs).entries =
      sumOf f (xs.filter fun x => (key x).isSome) := by
  induction xs using List.reverseRecOn with
  | nil => rfl
  | append_singleton xs x ih =>
    rw [filter_append, filter_singleton, sumOf_append, ← ih]
    cases hx : key x with
    | none =>
      rw [groupsOf_append_none hx]
      exact (add_zero _).symm
    | some k =>
      rw [groupsOf_append_some hx, sumOf_entries_set, sumOf_append]
      cases (groupsOf key xs).get? k with
      | none =>
        simp only [getD_none, sumOf_nil, map_none, isSome_some, cond_true]
        ring
      | some group =>
        simp only [getD_some, map_some, isSome_some, cond_true]
        ring

theorem get?_groupsBy (key : α → κ) (xs : List α) (k : κ) :
    (groupsBy key xs).get? k =
      if k ∈ xs.map key then some (xs.filter fun x => decide (key x = k)) else none := by
  rw [groupsBy, get?_groupsOf, filterMap_eq_map']
  simp only [some_inj]

/-- Lists over which all sums are the same have the same items. -/
theorem perm_of_sumOf {ys : List α} (h : ∀ f : α → ℤ, sumOf f xs = sumOf f ys) : xs.Perm ys := by
  classical
  have hcount : ∀ (a : α) (zs : List α),
      sumOf (fun x => if x = a then 1 else 0) zs = (zs.count a : ℤ) := by
    intro a zs
    induction zs with
    | nil => rfl
    | cons z zs ih =>
      rw [sumOf_cons, ih, count_cons]
      by_cases hz : z = a
      · simp [hz, add_comm]
      · simp [hz]
  refine perm_iff_count.mpr fun a => ?_
  have hsums := h fun x => if x = a then 1 else 0
  rw [hcount, hcount] at hsums
  exact Int.natCast_inj.mp hsums

theorem perm_groupsOf (xs : List α) :
    ((groupsOf key xs).entries.flatMap Prod.snd).Perm (xs.filter fun x => (key x).isSome) :=
  perm_of_sumOf fun f => by rw [sumOf_flatMap, sumOf_groupsOf]

end Misc

/-!
## Tables by groups

A table whose rows are gone through key by key: of the rows of a key some are deleted, which the
other keys do not see.
-/

namespace Misc

open List

/-- An `ORDER BY`. Which of two rows that the order does not tell apart comes first is not
specified. -/
structure OrderBy {α : Type} (r : α → α → Prop) where
  sort : List α → List α
  perm : ∀ rows, (sort rows).Perm rows
  sorted : ∀ rows, (sort rows).Pairwise r

namespace OrderBy

variable {α : Type} {r : α → α → Prop}

/-- The order that leaves such rows as they stand. -/
def stable [DecidableRel r] [Std.Total r] [IsTrans α r] : OrderBy r where
  sort rows := rows.insertionSort r
  perm := List.perm_insertionSort r
  sorted := List.pairwise_insertionSort r

variable (order : OrderBy r)

theorem mem_sort {rows : List α} {row : α} : row ∈ order.sort rows ↔ row ∈ rows :=
  (order.perm rows).mem_iff

theorem length_sort (rows : List α) : (order.sort rows).length = rows.length :=
  (order.perm rows).length_eq

/-- The first rows of an order hold one that comes before all others. -/
theorem exists_first (hr : ∀ row, r row row) {rows : List α} (h : rows ≠ [])
    {n : ℕ} (hn : 0 < n) : ∃ first ∈ (order.sort rows).take n, ∀ row ∈ rows, r first row := by
  cases hsort : order.sort rows with
  | nil =>
    have hlength := order.length_sort rows
    rw [hsort, length_nil] at hlength
    exact absurd (length_eq_zero_iff.mp hlength.symm) h
  | cons first rest =>
    obtain ⟨m, rfl⟩ : ∃ m, n = m + 1 := ⟨n - 1, by omega⟩
    refine ⟨first, by simp, ?_⟩
    intro row hrow
    have hsorted := order.sorted rows
    have hmem := order.mem_sort.mpr hrow
    rw [hsort] at hsorted hmem
    rcases mem_cons.mp hmem with rfl | hrest
    · exact hr row
    · exact (pairwise_cons.mp hsorted).1 row hrest

end OrderBy

namespace Table

variable {α κ : Type} [DecidableEq κ] (key : α → κ)

/-- The rows of a key. -/
def group (rows : List α) (k : κ) : List α := rows.filter fun row => key row == k

/-- `SELECT DISTINCT`. -/
def keys (rows : List α) : List κ := (rows.map key).dedup

variable {key}

variable {rows : List α} {k : κ}

theorem mem_group {row : α} : row ∈ group key rows k ↔ row ∈ rows ∧ key row = k := by
  rw [group, mem_filter, beq_iff_eq]

theorem mem_keys : k ∈ keys key rows ↔ ∃ row ∈ rows, key row = k := by
  rw [keys, mem_dedup, List.mem_map]

theorem nodup_keys (rows : List α) : (keys key rows).Nodup := nodup_dedup _

/-- Rows that are left out of a table leave the keys as they are that these rows do not have. -/
theorem group_filter {keep : α → Bool} (h : ∀ row ∈ rows, key row = k → keep row = true) :
    group key (rows.filter keep) k = group key rows k := by
  rw [group, group, List.filter_filter]
  refine filter_congr ?_
  intro row hrow
  exact Bool.and_eq_left_iff_imp.mpr fun hkey => h row hrow (beq_iff_eq.mp hkey)

variable [DecidableEq α] {victims : List α → List α}

def delete (gone rows : List α) : List α := rows.filter fun row => !gone.contains row

variable (key victims) in
/-- The table without the rows that are chosen of each key, and how many these are. -/
def sweep (rows : List α) : List α × ℕ :=
  (keys key rows).foldl (fun state k =>
    let gone := victims (group key state.1 k)
    (delete gone state.1, state.2 + gone.length)) (rows, 0)

variable (key) in
/-- What is counted of each key, added up. -/
def tally (count : List α → ℕ) (rows : List α) : ℕ :=
  (keys key rows).foldl (fun total k => total + count (group key rows k)) 0

variable {gone : List α}

theorem mem_delete {row : α} : row ∈ delete gone rows ↔ row ∈ rows ∧ row ∉ gone := by
  rw [delete, mem_filter, Bool.not_eq_true', Bool.eq_false_iff, ne_eq, contains_iff_mem]

theorem delete_sublist (gone rows : List α) : (delete gone rows).Sublist rows := filter_sublist

theorem group_delete (gone rows : List α) (k : κ) :
    group key (delete gone rows) k = delete gone (group key rows k) := by
  rw [group, group, delete, delete, filter_comm]

theorem delete_eq_self (h : ∀ row ∈ rows, row ∉ gone) : delete gone rows = rows := by
  refine filter_eq_self.mpr ?_
  intro row hrow
  rw [Bool.not_eq_true', Bool.eq_false_iff, ne_eq, contains_iff_mem]
  exact h row hrow

/-- How many rows are left when distinct rows of the table are deleted. -/
theorem length_delete (hrows : rows.Nodup) (hgone : gone.Nodup) (h : gone ⊆ rows) :
    (delete gone rows).length = rows.length - gone.length := by
  have hperm : (rows.filter fun row => gone.contains row).Perm gone := by
    refine (perm_ext_iff_of_nodup (hrows.filter _) hgone).mpr ?_
    intro row
    rw [mem_filter, contains_iff_mem]
    exact ⟨And.right, fun hrow => ⟨h hrow, hrow⟩⟩
  have hsplit := length_eq_length_filter_add (l := rows) fun row => gone.contains row
  rw [hperm.length_eq] at hsplit
  unfold delete
  omega

section

variable (hsub : ∀ rows, victims rows ⊆ rows)
include hsub

theorem group_delete_of_ne {rows : List α} {k k' : κ} (hne : k' ≠ k) :
    group key (delete (victims (group key rows k)) rows) k' = group key rows k' := by
  refine group_filter ?_
  intro row _ hkey
  rw [Bool.not_eq_true', Bool.eq_false_iff, ne_eq, contains_iff_mem]
  intro hgone
  exact hne (hkey.symm.trans (mem_group.mp (hsub _ hgone)).2)

theorem group_foldl {ks : List κ} (hks : ks.Nodup) (rows : List α) (n : ℕ) (k : κ) :
    group key (ks.foldl (fun state k =>
      let gone := victims (group key state.1 k)
      (delete gone state.1, state.2 + gone.length)) (rows, n)).1 k =
      if k ∈ ks then delete (victims (group key rows k)) (group key rows k)
      else group key rows k := by
  induction ks generalizing rows n with
  | nil => rfl
  | cons k₀ ks ih =>
    obtain ⟨hnot, hks⟩ := nodup_cons.mp hks
    rw [foldl_cons, ih hks]
    by_cases hk : k = k₀
    · subst hk
      rw [if_neg hnot, if_pos mem_cons_self, group_delete]
    · have hmem : k ∈ k₀ :: ks ↔ k ∈ ks := by
        rw [mem_cons, or_iff_right hk]
      rw [group_delete_of_ne hsub hk]
      simp only [hmem]

theorem group_sweep (rows : List α) (k : κ) :
    group key (sweep key victims rows).1 k =
      delete (victims (group key rows k)) (group key rows k) := by
  rw [sweep, group_foldl hsub (nodup_keys rows)]
  split
  · rfl
  · rename_i hk
    refine (delete_eq_self ?_).symm
    intro row hrow
    obtain ⟨hmem, hkey⟩ := mem_group.mp hrow
    exact absurd (mem_keys.mpr ⟨row, hmem, hkey⟩) hk

theorem foldl_sweep_snd {ks : List κ} (hks : ks.Nodup) {rows rows' : List α}
    (hsame : ∀ k ∈ ks, group key rows' k = group key rows k) (n : ℕ) :
    (ks.foldl (fun state k =>
      let gone := victims (group key state.1 k)
      (delete gone state.1, state.2 + gone.length)) (rows', n)).2 =
      ks.foldl (fun total k => total + (victims (group key rows k)).length) n := by
  induction ks generalizing rows' n with
  | nil => rfl
  | cons k ks ih =>
    obtain ⟨hnot, hks⟩ := nodup_cons.mp hks
    have hrest : ∀ k' ∈ ks,
        group key (delete (victims (group key rows' k)) rows') k' = group key rows k' := by
      intro k' hk'
      have hne : k' ≠ k := fun heq => hnot (heq ▸ hk')
      rw [group_delete_of_ne hsub hne]
      exact hsame k' (mem_cons_of_mem k hk')
    rw [foldl_cons, foldl_cons, ih hks hrest, hsame k mem_cons_self]

theorem sweep_snd (rows : List α) :
    (sweep key victims rows).2 = tally key (fun rows => (victims rows).length) rows :=
  foldl_sweep_snd hsub (nodup_keys rows) (fun _ _ => rfl) 0

theorem length_sweep (hnodup : ∀ rows, rows.Nodup → (victims rows).Nodup) {rows : List α}
    (hrows : rows.Nodup) :
    (sweep key victims rows).1.length + (sweep key victims rows).2 = rows.length := by
  have hfold : ∀ (ks : List κ) (state : List α × ℕ), state.1.Nodup →
      (ks.foldl (fun state k =>
        let gone := victims (group key state.1 k)
        (delete gone state.1, state.2 + gone.length)) state).1.length +
      (ks.foldl (fun state k =>
        let gone := victims (group key state.1 k)
        (delete gone state.1, state.2 + gone.length)) state).2 = state.1.length + state.2 := by
    intro ks
    induction ks with
    | nil => exact fun state _ => rfl
    | cons k ks ih =>
      intro state hstate
      have hgone : (victims (group key state.1 k)).Nodup := hnodup _ (hstate.filter _)
      have hwithin : victims (group key state.1 k) ⊆ state.1 :=
        fun row hrow => (mem_group.mp (hsub _ hrow)).1
      have hlength := length_delete hstate hgone hwithin
      have hle := (subperm_of_subset hgone hwithin).length_le
      rw [foldl_cons, ih _ (hstate.sublist (delete_sublist _ _))]
      dsimp only
      omega
  exact hfold _ (rows, 0) hrows

theorem mem_sweep {rows : List α} {row : α} :
    row ∈ (sweep key victims rows).1 ↔ row ∈ rows ∧ row ∉ victims (group key rows (key row)) := by
  have hgroup : group key (sweep key victims rows).1 (key row) =
      delete (victims (group key rows (key row))) (group key rows (key row)) :=
    group_sweep hsub rows (key row)
  have hself : ∀ rows : List α, row ∈ rows ↔ row ∈ group key rows (key row) := by
    intro rows
    rw [mem_group, and_iff_left rfl]
  rw [hself, hgroup, mem_delete, ← hself]

end

omit [DecidableEq α] in
theorem tally_congr {count count' : List α → ℕ} {rows : List α}
    (h : ∀ k, count (group key rows k) = count' (group key rows k)) :
    tally key count rows = tally key count' rows := by
  unfold tally
  congr 1
  funext total k
  rw [h]

theorem sweep_sublist (rows : List α) : (sweep key victims rows).1.Sublist rows := by
  have h : ∀ (ks : List κ) (state : List α × ℕ), (ks.foldl (fun state k =>
      let gone := victims (group key state.1 k)
      (delete gone state.1, state.2 + gone.length)) state).1.Sublist state.1 := by
    intro ks
    induction ks with
    | nil => exact fun state => List.Sublist.refl _
    | cons k ks ih => exact fun state => (ih _).trans (delete_sublist _ _)
  exact h _ _

end Table

/-!
## Keys and references

A table whose key the database gives out, and tables with references to it.
-/

namespace Table

/-- The keys of a table are given out in order, up to `last`, and its columns are `UNIQUE`. -/
structure Keyed {α κ : Type} (key : α → ℕ) (columns : α → κ) (last : ℕ) (rows : List α) : Prop where
  given : ∀ id ∈ rows.map key, id ≤ last
  primaryKey : (rows.map key).Nodup
  unique : (rows.map columns).Nodup

variable {α β κ : Type} {key : α → ℕ} {columns : α → κ} {last : ℕ} {rows rows' : List α}

theorem map_touch {p : α → Prop} [DecidablePred p] {g : α → α} {f : α → β}
    (hg : ∀ row, f (g row) = f row) :
    (rows.map fun row => if p row then g row else row).map f = rows.map f := by
  simp only [List.map_map, Function.comp_def, apply_ite f, hg, ite_self]

theorem nodup_insert {f : α → β} {row : α} (h : (rows.map f).Nodup) (hnew : f row ∉ rows.map f) :
    ((rows ++ [row]).map f).Nodup := by
  rw [map_append, map_singleton, ← concat_eq_append]
  exact h.concat hnew

theorem references_filter {ref : β → ℕ} {children : List β} (h : children.map ref ⊆ rows.map key)
    (keep : α → Bool) :
    (children.filter fun row =>
      !((rows.filter fun row => !keep row).map key).contains (ref row)).map ref ⊆
        (rows.filter keep).map key := by
  intro id hid
  obtain ⟨row, hrow, rfl⟩ := mem_map.mp hid
  obtain ⟨hrow, hstays⟩ := mem_filter.mp hrow
  obtain ⟨parent, hparent, heq⟩ := mem_map.mp (h (mem_map_of_mem hrow))
  refine mem_map.mpr ⟨parent, mem_filter.mpr ⟨hparent, ?_⟩, heq⟩
  -- a parent that goes takes the row with it
  by_contra hgone
  rw [Bool.not_eq_true', Bool.eq_false_iff, ne_eq, contains_iff_mem, ← heq] at hstays
  exact hstays (mem_map_of_mem (mem_filter.mpr ⟨hparent, by simpa using hgone⟩))

namespace Keyed

variable (h : Keyed key columns last rows)

include h

theorem sublist (hsub : rows' <+ rows) : Keyed key columns last rows' where
  given _ hid := h.given _ ((hsub.map _).subset hid)
  primaryKey := h.primaryKey.sublist (hsub.map _)
  unique := h.unique.sublist (hsub.map _)

theorem touch {p : α → Prop} [DecidablePred p] {g : α → α} (hkey : ∀ row, key (g row) = key row)
    (hcolumns : ∀ row, columns (g row) = columns row) :
    Keyed key columns last (rows.map fun row => if p row then g row else row) := by
  constructor <;> simp only [map_touch hkey, map_touch hcolumns]
  exacts [h.given, h.primaryKey, h.unique]

theorem insert {row : α} (hkey : key row = last + 1) (hnew : columns row ∉ rows.map columns) :
    Keyed key columns (last + 1) (rows ++ [row]) where
  given id hid := by
    rw [map_append, mem_append, map_singleton, mem_singleton, hkey] at hid
    exact hid.elim (fun hid => Nat.le_succ_of_le (h.given id hid)) Eq.le
  primaryKey := nodup_insert h.primaryKey fun hid => by
    have := h.given _ hid
    omega
  unique := nodup_insert h.unique hnew

end Keyed

end Table

/-!
## Greedy choices

Items are looked at in order, and each is taken if it fits with those that were taken before it.
-/

variable {α : Type}

/-- One more item. -/
def takeNext (fits : List α → α → Bool) (taken : List α) (x : α) : List α :=
  if fits taken x then taken ++ [x] else taken

def takeFitting (fits : List α → α → Bool) (xs : List α) : List α := xs.foldl (takeNext fits) []

variable {fits : List α → α → Bool}

theorem takeFitting_append_singleton (fits : List α → α → Bool) (xs : List α) (x : α) :
    takeFitting fits (xs ++ [x]) = takeNext fits (takeFitting fits xs) x := by
  rw [takeFitting, foldl_append, foldl_cons, foldl_nil]
  rfl

theorem mem_takeNext {taken : List α} {x y : α} :
    y ∈ takeNext fits taken x ↔ y ∈ taken ∨ y = x ∧ fits taken x = true := by
  unfold takeNext
  split
  · rename_i h
    rw [mem_append, mem_singleton, and_iff_left h]
  · rename_i h
    exact ⟨.inl, fun hy => hy.elim id fun hx => absurd hx.2 h⟩

theorem takeFitting_subset (fits : List α → α → Bool) (xs : List α) : takeFitting fits xs ⊆ xs := by
  induction xs using List.reverseRecOn with
  | nil => exact List.Subset.refl _
  | append_singleton xs x ih =>
    intro y hy
    rw [takeFitting_append_singleton] at hy
    rcases mem_takeNext.mp hy with hy | ⟨rfl, -⟩
    · exact mem_append_left _ (ih hy)
    · exact mem_append_right _ mem_cons_self

section

variable [DecidableEq α]

/-- What comes later changes nothing of what was taken. -/
theorem filter_takeFitting {xs ys : List α} (h : (xs ++ ys).Nodup) :
    xs.filter (takeFitting fits (xs ++ ys)).contains = takeFitting fits xs := by
  induction ys using List.reverseRecOn with
  | nil =>
    rw [List.append_nil] at h ⊢
    induction xs using List.reverseRecOn with
    | nil => rfl
    | append_singleton xs x ih =>
      obtain ⟨hxs, -, hdisjoint⟩ := nodup_append'.mp h
      have hx : x ∉ xs := fun hmem => hdisjoint hmem mem_cons_self
      have hx' : x ∉ takeFitting fits xs := fun hmem => hx (takeFitting_subset fits xs hmem)
      have hold : xs.filter (takeNext fits (takeFitting fits xs) x).contains =
          xs.filter (takeFitting fits xs).contains := by
        refine filter_congr fun y hy => ?_
        rw [Bool.eq_iff_iff, contains_iff_mem, contains_iff_mem, mem_takeNext]
        exact ⟨fun h => h.elim id fun heq => absurd (heq.1 ▸ hy) hx, .inl⟩
      have hnew : (takeNext fits (takeFitting fits xs) x).contains x =
          fits (takeFitting fits xs) x := by
        rw [Bool.eq_iff_iff, contains_iff_mem, mem_takeNext, or_iff_right hx', and_iff_right rfl]
      rw [takeFitting_append_singleton, filter_append, hold, ih hxs, filter_singleton, hnew]
      unfold takeNext
      cases fits (takeFitting fits xs) x with
      | true => rfl
      | false => exact List.append_nil _
  | append_singleton ys y ih =>
    rw [← List.append_assoc] at h ⊢
    obtain ⟨hold, -, hdisjoint⟩ := nodup_append'.mp h
    rw [takeFitting_append_singleton, ← ih hold]
    refine filter_congr fun x hx => ?_
    have hne : x ≠ y := by
      rintro rfl
      exact hdisjoint (mem_append_left ys hx) mem_cons_self
    rw [Bool.eq_iff_iff, contains_iff_mem, contains_iff_mem, mem_takeNext]
    exact ⟨fun h => h.elim id fun heq => absurd heq.1 hne, .inl⟩

/-- An item is taken if and only if it fits with the items before it that are taken. -/
theorem mem_takeFitting_iff {before after : List α} {x : α} (h : (before ++ x :: after).Nodup) :
    x ∈ takeFitting fits (before ++ x :: after) ↔
      fits (before.filter (takeFitting fits (before ++ x :: after)).contains) x = true := by
  have hsplit : before ++ x :: after = (before ++ [x]) ++ after := by simp
  have hprefix := @filter_takeFitting α fits _ _ _ (hsplit ▸ h)
  rw [filter_takeFitting h]
  have hx : x ∈ takeFitting fits (before ++ x :: after) ↔ x ∈ takeFitting fits (before ++ [x]) := by
    rw [← hprefix, ← hsplit, mem_filter, contains_iff_mem,
      and_iff_right (mem_append_right before mem_cons_self)]
  have hnot : x ∉ takeFitting fits before := by
    intro hmem
    obtain ⟨-, -, hdisjoint⟩ := nodup_append'.mp h
    exact hdisjoint (takeFitting_subset fits before hmem) mem_cons_self
  rw [hx, takeFitting_append_singleton, mem_takeNext, or_iff_right hnot, and_iff_right rfl]

end

end Misc
