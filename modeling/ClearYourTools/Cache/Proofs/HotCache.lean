import ClearYourTools.Misc.Dict

/-!
# The hot cache is least recently used

`cache/lru.rs`: the cache counts its uses and scans for the lowest count. The reference knows the
history: the keys in the order of their uses and the value last inserted of each.
-/

namespace ClearYourTools.Cache

open Misc List
open Prod (fst)

variable {κ α : Type} [DecidableEq κ]

inductive HotCall (κ α : Type) where
  | get (k : κ)
  | insert (k : κ) (v : α)

/-- What the call returns of a value, and the cache after it. -/
def HotCall.run : HotCall κ α → Lru κ α → Option α × Lru κ α
  | .get k, c => c.get k
  | .insert k v, c => (none, c.insert k v)

/-- The keys of the uses, the last one first, and the value last inserted of each key. -/
structure Uses (κ α : Type) where
  keys : List κ
  value : κ → Option α

namespace Uses

omit [DecidableEq κ] in
def none : Uses κ α := ⟨[], fun _ => .none⟩

/-- Each key once, where it stands first. -/
def distinct : List κ → List κ
  | [] => []
  | k :: ks => k :: (distinct ks).filter fun k' => k' ≠ k

variable (capacity : ℕ)

/-- The keys that were used last. -/
def held (u : Uses κ α) : List κ := (distinct u.keys).take (max capacity 1)

def use (u : Uses κ α) (k : κ) : Uses κ α := { u with keys := k :: u.keys }

def insert (u : Uses κ α) (k : κ) (v : α) : Uses κ α :=
  ⟨k :: u.keys, fun k' => if k' = k then some v else u.value k'⟩

/-- Only a key that is held is used by reading it. -/
def run (u : Uses κ α) : HotCall κ α → Option α × Uses κ α
  | .get k => if k ∈ u.held capacity then (u.value k, u.use k) else (.none, u)
  | .insert k v => (.none, u.insert k v)

variable {capacity} {u : Uses κ α}

theorem nodup_distinct (ks : List κ) : (distinct ks).Nodup := by
  induction ks with
  | nil => exact nodup_nil
  | cons k ks ih =>
    refine nodup_cons.mpr ⟨fun hk => ?_, ih.filter _⟩
    exact of_decide_eq_true (mem_filter.mp hk).2 rfl

/-- Of the keys without one of them, the first are told by one more of the keys. -/
theorem take_filter_ne {ks : List κ} (h : ks.Nodup) (k : κ) (n : ℕ) :
    (ks.filter fun k' => k' ≠ k).take n = ((ks.take (n + 1)).filter fun k' => k' ≠ k).take n := by
  induction ks generalizing n with
  | nil => rfl
  | cons key ks ih =>
    obtain ⟨hkey, hks⟩ := nodup_cons.mp h
    cases n with
    | zero => rw [take_zero, take_zero]
    | succ n =>
      rw [take_succ_cons]
      by_cases hk : key = k
      · subst hk
        have hall : ∀ m, (ks.take m).filter (fun k' => k' ≠ key) = ks.take m := by
          intro m
          refine filter_eq_self.mpr fun k' hk' => decide_eq_true ?_
          rintro rfl
          exact hkey (mem_of_mem_take hk')
        have hks' := hall ks.length
        rw [take_length] at hks'
        rw [filter_cons_of_neg (by simp), filter_cons_of_neg (by simp), hks', hall, take_take,
          min_self]
      · rw [filter_cons_of_pos (by simpa using hk), filter_cons_of_pos (by simpa using hk),
          take_succ_cons, take_succ_cons, ih hks]

/-- A use puts its key first; what has no room any more is the key used longest ago. -/
theorem held_cons (u : Uses κ α) (k : κ) (value : κ → Option α) :
    held capacity ⟨k :: u.keys, value⟩ =
      k :: ((u.held capacity).filter fun k' => k' ≠ k).take (max capacity 1 - 1) := by
  obtain ⟨n, hn⟩ : ∃ n, max capacity 1 = n + 1 := ⟨max capacity 1 - 1, by omega⟩
  rw [held, held, hn, Nat.add_sub_cancel, ← take_filter_ne (nodup_distinct u.keys)]
  rfl

end Uses

omit [DecidableEq κ] in
theorem filter_ne_of_notMem {β : Type} [DecidableEq κ] {k : κ} {entries : List (κ × β)}
    (h : k ∉ entries.map fst) : (entries.filter fun e => e.1 ≠ k) = entries := by
  refine filter_eq_self.mpr fun e he => decide_eq_true ?_
  rintro rfl
  exact h (mem_map_of_mem he)

/-- A write leaves the other entries and puts its own beside them. -/
theorem perm_entries_set {β : Type} (d : Dict κ β) (k : κ) (v : β) :
    (d.set k v).entries.Perm ((k, v) :: d.entries.filter fun e => e.1 ≠ k) := by
  rw [Dict.entries_set]
  obtain ⟨entries, hnodup⟩ := d
  dsimp only
  induction entries with
  | nil => exact Perm.refl _
  | cons e entries ih =>
    obtain ⟨hnew, hrest⟩ := nodup_cons.mp hnodup
    rw [Dict.setEntries]
    split
    · rename_i hk
      subst hk
      rw [filter_cons_of_neg (by simp), filter_ne_of_notMem hnew]
    · rename_i hk
      rw [filter_cons_of_pos (by simpa using hk)]
      exact ((ih hrest).cons e).trans (Perm.swap _ _ _)

variable {capacity : ℕ} {c : Lru κ α} {u : Uses κ α} {entries : List (κ × α × ℕ)}

variable (capacity) in
/-- The entries of the cache, from the last count on, are those of the keys that are held. -/
structure Tracks (c : Lru κ α) (u : Uses κ α) (entries : List (κ × α × ℕ)) : Prop where
  size : c.capacity = max capacity 1
  perm : entries.Perm c.map.entries
  ordered : entries.Pairwise fun e e' => e'.2.2 < e.2.2
  le_tick : ∀ e ∈ entries, e.2.2 ≤ c.tick
  keys : entries.map Prod.fst = u.held capacity
  value : ∀ e ∈ entries, u.value e.1 = some e.2.1

namespace Tracks

variable (h : Tracks capacity c u entries)

include h

theorem nodup : (entries.map fst).Nodup := (h.perm.map fst).nodup_iff.mpr c.map.nodup

variable {k : κ}

theorem mem_iff {x : α × ℕ} : (k, x) ∈ entries ↔ c.map.get? k = some x :=
  h.perm.mem_iff.trans Dict.get?_eq_some_iff.symm

theorem mem_held_iff : k ∈ u.held capacity ↔ ∃ x, c.map.get? k = some x := by
  rw [← h.keys, mem_map]
  exact ⟨fun ⟨e, he, hk⟩ => ⟨e.2, h.mem_iff.mp (hk ▸ he)⟩, fun ⟨x, hx⟩ =>
    ⟨(k, x), h.mem_iff.mpr hx, rfl⟩⟩

theorem length_le : entries.length ≤ max capacity 1 := by
  rw [← length_map (f := fst), h.keys, Uses.held]
  exact length_take_le _ _

theorem peek_eq (k : κ) : c.peek k = if k ∈ u.held capacity then u.value k else none := by
  unfold Lru.peek
  cases hk : c.map.get? k with
  | none =>
    rw [if_neg fun hheld => ?_]
    · rfl
    · obtain ⟨x, hx⟩ := h.mem_held_iff.mp hheld
      exact absurd (hk.symm.trans hx) nofun
  | some x => rw [if_pos (h.mem_held_iff.mpr ⟨x, hk⟩), h.value _ (h.mem_iff.mpr hk)]; rfl

theorem use {v : α} {value : κ → Option α} {c' : Lru κ α} (hcapacity : c'.capacity = c.capacity)
    (htick : c.tick < c'.tick) (hperm : ((k, v, c'.tick) ::
      (entries.filter fun e => e.1 ≠ k).take (max capacity 1 - 1)).Perm c'.map.entries)
    (hk : value k = some v) (hvalue : ∀ k' ≠ k, value k' = u.value k') :
    Tracks capacity c' ⟨k :: u.keys, value⟩
      ((k, v, c'.tick) :: (entries.filter fun e => e.1 ≠ k).take (max capacity 1 - 1)) := by
  have hsub : ∀ e ∈ (entries.filter fun e => e.1 ≠ k).take (max capacity 1 - 1),
      e ∈ entries ∧ e.1 ≠ k := by
    intro e he
    obtain ⟨hmem, hne⟩ := mem_filter.mp (mem_of_mem_take he)
    exact ⟨hmem, of_decide_eq_true hne⟩
  refine ⟨hcapacity.trans h.size, hperm, ?_, ?_, ?_, ?_⟩
  · refine pairwise_cons.mpr ⟨fun e he => ?_, ?_⟩
    · exact lt_of_le_of_lt (h.le_tick e (hsub e he).1) htick
    · exact h.ordered.sublist ((take_sublist _ _).trans filter_sublist)
  · intro e he
    rcases mem_cons.mp he with rfl | hold
    · exact le_refl _
    · exact (h.le_tick e (hsub e hold).1).trans htick.le
  · rw [Uses.held_cons, ← h.keys, map_cons, map_take, filter_map]
    rfl
  · intro e he
    rcases mem_cons.mp he with rfl | hold
    · exact hk
    · exact (hvalue e.1 (hsub e hold).2).trans (h.value e (hsub e hold).1)

/-- A key that is held leaves room for itself. -/
theorem take_of_held (hk : k ∈ entries.map fst) :
    (entries.filter fun e => e.1 ≠ k).take (max capacity 1 - 1) =
      entries.filter fun e => e.1 ≠ k := by
  obtain ⟨e, he, rfl⟩ := mem_map.mp hk
  refine take_of_length_le ?_
  have hlt : (entries.filter fun e' => e'.1 ≠ e.1).length < entries.length :=
    length_filter_lt_length_iff_exists.mpr ⟨e, he, by simp⟩
  have := h.length_le
  omega

/-- The scan finds the entry of the key used longest ago. -/
theorem evictOne : entries.dropLast.Perm c.evictOne.map.entries := by
  unfold Lru.evictOne
  rcases eq_nil_or_concat entries with rfl | ⟨init, last, rfl⟩
  · rw [h.perm.symm.eq_nil, argmin_nil]
    dsimp only
    rw [h.perm.symm.eq_nil, dropLast_nil]
  rw [concat_eq_append] at h ⊢
  obtain ⟨entry, hmin⟩ : ∃ entry, c.map.entries.argmin (fun entry => entry.2.2) = some entry := by
    refine Option.ne_none_iff_exists'.mp fun hnone => ?_
    have hlast := h.perm.mem_iff.mp (mem_append_right init mem_cons_self)
    rw [argmin_eq_none.mp hnone] at hlast
    exact not_mem_nil hlast
  obtain rfl : entry = last := by
    rcases mem_append.mp (h.perm.mem_iff.mpr (argmin_mem hmin)) with hinit | hlast
    · have hlt := (pairwise_append.mp h.ordered).2.2 entry hinit last mem_cons_self
      have hle := le_of_mem_argmin
        (h.perm.mem_iff.mp (mem_append_right init mem_cons_self)) hmin
      exact absurd hlt (not_lt.mpr hle)
    · exact mem_singleton.mp hlast
  have hnotin : entry.1 ∉ init.map fst := by
    have hnodup := h.nodup
    rw [map_append] at hnodup
    exact fun hin => (nodup_append'.mp hnodup).2.2 hin mem_cons_self
  have hkept : ((init ++ [entry]).filter fun e => e.1 ≠ entry.1) = init := by
    rw [filter_append, filter_ne_of_notMem hnotin, filter_cons_of_neg (by simp), filter_nil,
      List.append_nil]
  rw [hmin, dropLast_concat]
  dsimp only
  have hperm := h.perm.filter fun e => decide (e.1 ≠ entry.1)
  rw [hkept] at hperm
  refine hperm.trans (.of_eq (filter_congr fun e _ => ?_))
  rw [Bool.eq_iff_iff, decide_eq_true_iff, bne_iff_ne]

omit h

variable {k : κ} {v : α}

omit [DecidableEq κ] in
theorem lt_next (htick : c.tick + 1 < 18446744073709551616) : c.tick < Lru.next c.tick := by
  rw [Lru.next, Nat.mod_eq_of_lt htick]
  exact Nat.lt_succ_self _

theorem get (h : Tracks capacity c u entries) (k : κ) (htick : c.tick + 1 < 18446744073709551616) :
    (c.get k).1 = (u.run capacity (.get k)).1 ∧
      ∃ entries', Tracks capacity (c.get k).2 (u.run capacity (.get k : HotCall κ α)).2 entries' := by
  have hrun : u.run capacity (.get k) =
      if k ∈ u.held capacity then (u.value k, u.use k) else (none, u) := rfl
  rw [Lru.get_fst, h.peek_eq, hrun]
  unfold Lru.get
  cases hk : c.map.get? k with
  | none =>
    have hheld : k ∉ u.held capacity := fun hheld => by
      obtain ⟨x, hx⟩ := h.mem_held_iff.mp hheld
      exact absurd (hk.symm.trans hx) nofun
    rw [if_neg hheld, if_neg hheld]
    exact ⟨rfl, entries, h⟩
  | some x =>
    obtain ⟨v, tick⟩ := x
    have hheld : k ∈ u.held capacity := h.mem_held_iff.mpr ⟨_, hk⟩
    rw [if_pos hheld, if_pos hheld]
    refine ⟨rfl, _, h.use (v := v) rfl (lt_next htick) ?_ ?_ fun _ _ => rfl⟩
    · rw [h.take_of_held (h.keys ▸ hheld)]
      exact ((h.perm.filter _).cons _).trans (perm_entries_set _ _ _).symm
    · exact h.value _ (h.mem_iff.mpr hk)

theorem insert (h : Tracks capacity c u entries) (k : κ) (v : α)
    (htick : c.tick + 1 < 18446744073709551616) :
    ∃ entries', Tracks capacity (c.insert k v) (u.insert k v) entries' := by
  refine ⟨(k, v, Lru.next c.tick) :: (entries.filter fun e => e.1 ≠ k).take (max capacity 1 - 1), ?_⟩
  refine h.use ?_ (lt_next htick) ?_ (if_pos rfl) fun k' hk' => if_neg hk'
  · unfold Lru.insert Lru.evictOne
    dsimp only
    split
    · split <;> rfl
    · rfl
  · have hcontains : c.map.contains k = false ↔ k ∉ entries.map fst := by
      rw [h.keys, h.mem_held_iff, Dict.contains, ← Option.isSome_iff_exists, Bool.not_eq_true]
    have hlength := h.perm.length_eq
    have hle := h.length_le
    unfold Lru.insert
    dsimp only
    split
    · rename_i hfull
      obtain ⟨hsize, hnew⟩ := hfull
      have hnotin := hcontains.mp hnew
      have hevicted := h.evictOne
      have hroom : (entries.filter fun e => e.1 ≠ k).take (max capacity 1 - 1) =
          entries.dropLast.filter fun e => e.1 ≠ k := by
        have hnotin' : k ∉ entries.dropLast.map fst := fun hin =>
          hnotin ((dropLast_sublist entries).map fst |>.subset hin)
        rw [h.size, ← hlength] at hsize
        rw [filter_ne_of_notMem hnotin, filter_ne_of_notMem hnotin', dropLast_eq_take,
          Nat.le_antisymm hle hsize]
      rw [hroom]
      exact ((hevicted.filter _).cons _).trans (perm_entries_set _ _ _).symm
    · rename_i hroom
      have htake : (entries.filter fun e => e.1 ≠ k).take (max capacity 1 - 1) =
          entries.filter fun e => e.1 ≠ k := by
        by_cases hin : k ∈ entries.map fst
        · exact h.take_of_held hin
        · have hsize : ¬ c.capacity ≤ c.map.entries.length := fun hsize =>
            hroom ⟨hsize, hcontains.mpr hin⟩
          rw [h.size, ← hlength] at hsize
          exact take_of_length_le (by rw [filter_ne_of_notMem hin]; omega)
      rw [htake]
      exact ((h.perm.filter _).cons _).trans (perm_entries_set _ _ _).symm

theorem tick_run (c : Lru κ α) (call : HotCall κ α) (h : c.tick + 1 < 18446744073709551616) :
    (call.run c).2.tick ≤ c.tick + 1 := by
  have hnext : Lru.next c.tick = c.tick + 1 := Nat.mod_eq_of_lt h
  cases call with
  | get k =>
    unfold HotCall.run Lru.get
    dsimp only
    split
    · exact Nat.le_succ _
    · exact hnext.le
  | insert k v => exact hnext.le

end Tracks

/-- What the calls return, one after the other, and the cache after them. -/
def runCalls : Lru κ α → List (HotCall κ α) → List (Option α) × Lru κ α
  | c, [] => ([], c)
  | c, call :: calls =>
    ((call.run c).1 :: (runCalls (call.run c).2 calls).1, (runCalls (call.run c).2 calls).2)

/-- What the reference returns, one after the other, and the history after it. -/
def Uses.runCalls (capacity : ℕ) : Uses κ α → List (HotCall κ α) → List (Option α) × Uses κ α
  | u, [] => ([], u)
  | u, call :: calls =>
    ((u.run capacity call).1 :: ((u.run capacity call).2.runCalls capacity calls).1,
      ((u.run capacity call).2.runCalls capacity calls).2)

theorem Tracks.runCalls (calls : List (HotCall κ α)) (h : Tracks capacity c u entries)
    (htick : c.tick + calls.length < 18446744073709551616) :
    (Cache.runCalls c calls).1 = (u.runCalls capacity calls).1 ∧
      ∃ entries', Tracks capacity (Cache.runCalls c calls).2 (u.runCalls capacity calls).2
        entries' := by
  induction calls generalizing c u entries with
  | nil => exact ⟨rfl, entries, h⟩
  | cons call calls ih =>
    rw [length_cons] at htick
    have hnow : c.tick + 1 < 18446744073709551616 := by omega
    have hstep : (call.run c).1 = (u.run capacity call).1 ∧
        ∃ entries', Tracks capacity (call.run c).2 (u.run capacity call).2 entries' := by
      cases call with
      | get k => exact h.get k hnow
      | insert k v => exact ⟨rfl, h.insert k v hnow⟩
    obtain ⟨hvalue, entries', hstep⟩ := hstep
    have hlater := Tracks.tick_run c call hnow
    obtain ⟨hvalues, hrest⟩ := ih hstep (by omega)
    exact ⟨congrArg₂ cons hvalue hvalues, hrest⟩

/-- The cache returns what the reference does and holds the keys that it holds, with the values
last inserted of them. -/
def IsLru (capacity : ℕ) (calls : List (HotCall κ α)) : Prop :=
  let c := (runCalls (Lru.new capacity) calls).2
  let u := (Uses.none.runCalls capacity calls).2
  (runCalls (Lru.new capacity) calls).1 = (Uses.none.runCalls capacity calls).1 ∧
  c.map.keys.Perm (u.held capacity) ∧
  (∀ k, c.peek k = if k ∈ u.held capacity then u.value k else none) ∧
  ∀ k v, k ∉ u.held capacity → (u.held capacity).length = max capacity 1 →
    (u.insert k v).held capacity = k :: (u.held capacity).dropLast

theorem lruCache_isLru (capacity : ℕ) (calls : List (HotCall κ α))
    (h : calls.length < 18446744073709551616) : IsLru capacity calls := by
  have hstart : Tracks capacity (Lru.new capacity : Lru κ α) Uses.none [] :=
    ⟨rfl, .refl _, .nil, fun _ => nofun, take_nil.symm, fun _ => nofun⟩
  obtain ⟨hvalues, entries, hend⟩ := hstart.runCalls calls (by
    rw [show (Lru.new capacity : Lru κ α).tick = 0 from rfl, Nat.zero_add]
    exact h)
  refine ⟨hvalues, ?_, hend.peek_eq, ?_⟩
  · rw [← hend.keys]
    exact (hend.perm.map Prod.fst).symm
  · intro k v hk hfull
    have hkept : ((Uses.none.runCalls capacity calls).2.held capacity).filter (fun k' => k' ≠ k) =
        (Uses.none.runCalls capacity calls).2.held capacity := by
      refine filter_eq_self.mpr fun k' hk' => decide_eq_true ?_
      rintro rfl
      exact hk hk'
    rw [Uses.insert, Uses.held_cons, hkept, dropLast_eq_take, hfull]

theorem lruCache_isLru_threeKeys :
    IsLru 2 [.insert 1 10, .insert 2 20, .get 1, .insert 3 30, .get 2] :=
  lruCache_isLru _ _ (by decide)

end ClearYourTools.Cache
