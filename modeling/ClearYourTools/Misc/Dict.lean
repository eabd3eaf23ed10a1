import Mathlib.Data.List.MinMax
import Mathlib.Data.List.Nodup

/-!
# Insertion-ordered dictionaries

A dictionary is a list of key/value pairs with pairwise distinct keys, which the
structure carries as a field. Writing to a present key keeps its position, writing to an
absent key appends: Python's `dict` and, up to iteration order, a hash map.
-/

namespace Misc

open List Option
open Prod (fst snd)
open List (mem_map)

/-- A finite map as its list of bindings in insertion order. -/
structure Dict (κ α : Type) where
  entries : List (κ × α)
  nodup : (entries.map Prod.fst).Nodup

namespace Dict

variable {κ α : Type}

def empty : Dict κ α := ⟨[], List.nodup_nil⟩

def keys (d : Dict κ α) : List κ := d.entries.map Prod.fst

def vals (d : Dict κ α) : List α := d.entries.map Prod.snd

/-- Rewrite every value in place; no key changes. -/
def mapVals (f : κ → α → α) (d : Dict κ α) : Dict κ α :=
  ⟨d.entries.map fun e => (e.1, f e.1 e.2), by
    have h : (d.entries.map fun e => (e.1, f e.1 e.2)).map Prod.fst = d.entries.map Prod.fst := by
      simp
    rw [h]
    exact d.nodup⟩

/-- Keep the bindings that satisfy `p`. -/
def filter (p : κ → α → Bool) (d : Dict κ α) : Dict κ α :=
  ⟨d.entries.filter fun e => p e.1 e.2, (List.filter_sublist.map Prod.fst).nodup d.nodup⟩

variable [DecidableEq κ]

def get? (d : Dict κ α) (k : κ) : Option α := d.entries.lookup k

def contains (d : Dict κ α) (k : κ) : Bool := (d.get? k).isSome

/-- Replace the first binding of `k`, or append one. -/
def setEntries (k : κ) (v : α) : List (κ × α) → List (κ × α)
  | [] => [(k, v)]
  | e :: es => if e.1 = k then (k, v) :: es else e :: setEntries k v es

variable (k : κ)
variable (v : α)
variable (es : List (κ × α))

theorem mem_map_fst_setEntries (k' : κ) :
    k' ∈ (setEntries k v es).map fst ↔ k' = k ∨ k' ∈ es.map fst := by
  induction es with
  | nil => simp [setEntries]
  | cons e es ih =>
    by_cases h : e.1 = k
    · subst h
      simp [setEntries]
    · simp only [setEntries, h, if_false, map_cons, mem_cons, ih]
      tauto

theorem nodup_setEntries (h : (es.map fst).Nodup) : ((setEntries k v es).map fst).Nodup := by
  induction es with
  | nil => simp [setEntries]
  | cons e es ih =>
    simp only [map_cons, nodup_cons] at h
    by_cases he : e.1 = k
    · subst he
      simpa [setEntries] using h
    · rw [setEntries, if_neg he, map_cons, nodup_cons, mem_map_fst_setEntries, not_or]
      exact ⟨⟨he, h.1⟩, ih h.2⟩

def set (d : Dict κ α) (k : κ) (v : α) : Dict κ α :=
  ⟨setEntries k v d.entries, nodup_setEntries k v d.entries d.nodup⟩

/-- Apply `f` to the value of `k`, if there is one. -/
def update (d : Dict κ α) (k : κ) (f : α → α) : Dict κ α :=
  match d.get? k with
  | some v => d.set k (f v)
  | none => d

omit [DecidableEq κ] in
/-- Rewrite the values in order until `f` fails; the flag says whether it never did. -/
def mapUntilEntries (f : α → Option α) : List (κ × α) → List (κ × α) × Bool
  | [] => ([], true)
  | e :: es =>
    match f e.2 with
    | none => (e :: es, false)
    | some v => ((e.1, v) :: (mapUntilEntries f es).1, (mapUntilEntries f es).2)

omit [DecidableEq κ] in
theorem map_fst_mapUntilEntries (f : α → Option α) (es : List (κ × α)) :
    (mapUntilEntries f es).1.map fst = es.map fst := by
  induction es with
  | nil => rfl
  | cons e es ih =>
    simp only [mapUntilEntries]
    cases h : f e.2 with
    | none => simp
    | some v => simp [ih]

/-- A loop over the values that stops where its body raises. -/
def mapUntil (f : α → Option α) (d : Dict κ α) : Dict κ α × Bool :=
  (⟨(mapUntilEntries f d.entries).1, by rw [map_fst_mapUntilEntries]; exact d.nodup⟩,
    (mapUntilEntries f d.entries).2)

variable {k : κ} {v : α} {es : List (κ × α)}

theorem mem_setEntries {e : κ × α} (h : e ∈ setEntries k v es) : e = (k, v) ∨ e ∈ es := by
  induction es with
  | nil => exact .inl (mem_singleton.mp h)
  | cons f es ih =>
    rw [setEntries] at h
    split at h
    · rcases mem_cons.mp h with rfl | h
      · exact .inl rfl
      · exact .inr (mem_cons_of_mem f h)
    · rcases mem_cons.mp h with rfl | h
      · exact .inr mem_cons_self
      · rcases ih h with h | h
        · exact .inl h
        · exact .inr (mem_cons_of_mem f h)

theorem mem_setEntries_self : (k, v) ∈ setEntries k v es := by
  induction es with
  | nil => exact mem_singleton_self _
  | cons e es ih =>
    rw [setEntries]
    split
    · exact mem_cons_self
    · exact mem_cons_of_mem e ih

theorem mem_setEntries_of_ne {e : κ × α} (h : e ∈ es) (hne : e.1 ≠ k) : e ∈ setEntries k v es := by
  induction es with
  | nil => cases h
  | cons f es ih =>
    rw [setEntries]
    rcases mem_cons.mp h with rfl | h
    · rw [if_neg hne]
      exact mem_cons_self
    · split
      · exact mem_cons_of_mem _ h
      · exact mem_cons_of_mem f (ih h)

theorem setEntries_of_notMem (h : k ∉ es.map fst) : setEntries k v es = es ++ [(k, v)] := by
  induction es with
  | nil => rfl
  | cons e es ih =>
    rw [map_cons, mem_cons, not_or] at h
    rw [setEntries, if_neg (Ne.symm h.1), ih h.2, List.cons_append]

theorem length_setEntries :
    (setEntries k v es).length = if k ∈ es.map fst then es.length else es.length + 1 := by
  induction es with
  | nil => rfl
  | cons e es ih =>
    rw [setEntries, map_cons]
    by_cases he : e.1 = k
    · rw [if_pos he, if_pos (by rw [he]; exact mem_cons_self)]
      rfl
    rw [if_neg he, length_cons, ih, length_cons]
    by_cases hk : k ∈ es.map fst
    · rw [if_pos hk, if_pos (mem_cons_of_mem _ hk)]
    · have hnot : k ∉ e.1 :: es.map fst := by
        rw [mem_cons, not_or]
        exact ⟨Ne.symm he, hk⟩
      rw [if_neg hk, if_neg hnot]

theorem lookup_cons_of_ne {a : κ} {b : α} (h : k ≠ a) : ((a, b) :: es).lookup k = es.lookup k := by
  have hb : (k == a) = false := by simpa using h
  simp [lookup_cons, hb]

theorem lookup_setEntries (k k' : κ) (v : α) (es : List (κ × α)) :
    (setEntries k v es).lookup k' = if k' = k then some v else es.lookup k' := by
  induction es with
  | nil =>
    by_cases h : k' = k
    · simp [setEntries, h]
    · simp [setEntries, h, lookup_cons_of_ne]
  | cons e es ih =>
    obtain ⟨a, b⟩ := e
    by_cases he : a = k
    · subst he
      by_cases h : k' = a
      · simp [setEntries, h]
      · simp [setEntries, h, lookup_cons_of_ne]
    · by_cases h : k' = a
      · subst h
        simp [setEntries, he]
      · simp only [setEntries, he, if_false, lookup_cons_of_ne h, ih]

theorem entries_set (d : Dict κ α) (k : κ) (v : α) :
    (d.set k v).entries = setEntries k v d.entries := rfl

@[simp] theorem get?_empty : (empty : Dict κ α).get? k = none := rfl

section

variable (d : Dict κ α)

theorem get?_set (k k' : κ) (v : α) : (d.set k v).get? k' = if k' = k then some v else d.get? k' :=
  lookup_setEntries k k' v d.entries

@[simp] theorem get?_set_self (k : κ) (v : α) : (d.set k v).get? k = some v := by
  simp [get?_set]

theorem get?_set_of_ne {k' : κ} (v : α) (h : k' ≠ k) : (d.set k v).get? k' = d.get? k' := by
  simp [get?_set, h]

theorem get?_mapVals (f : κ → α → α) (k : κ) : (d.mapVals f).get? k = (d.get? k).map (f k) := by
  simp only [get?, mapVals]
  induction d.entries with
  | nil => rfl
  | cons e es ih =>
    obtain ⟨a, b⟩ := e
    by_cases h : k = a
    · subst h
      simp
    · simp [lookup_cons_of_ne h, ih]

theorem get?_update (k k' : κ) (f : α → α) :
    (d.update k f).get? k' = if k' = k then (d.get? k).map f else d.get? k' := by
  simp only [update]
  cases h : d.get? k with
  | none =>
    by_cases hk : k' = k
    · simp [hk, h]
    · simp [hk]
  | some v => simp [get?_set]

end

omit [DecidableEq κ] in
/-- The loop stops exactly when its body fails on some value. -/
theorem mapUntil_snd (d : Dict κ α) (f : α → Option α) :
    (d.mapUntil f).2 = true ↔ ∀ e ∈ d.entries, (f e.2).isSome := by
  simp only [mapUntil]
  induction d.entries with
  | nil => simp [mapUntilEntries]
  | cons e es ih =>
    cases hf : f e.2 with
    | none => simp [mapUntilEntries, hf]
    | some v => simp [mapUntilEntries, hf, ih]

omit [DecidableEq κ] in
/-- The entries after a loop that never stopped, one for each that was there. -/
theorem entries_mapUntil_of_true (d : Dict κ α) (f : α → Option α) (h : (d.mapUntil f).2 = true) :
    (d.mapUntil f).1.entries = d.entries.map fun e => (e.1, (f e.2).getD e.2) := by
  simp only [mapUntil] at h ⊢
  revert h
  induction d.entries with
  | nil => exact fun _ => rfl
  | cons e es ih =>
    intro h
    cases hf : f e.2 with
    | none => simp [mapUntilEntries, hf] at h
    | some v =>
      simp only [mapUntilEntries, hf] at h ⊢
      rw [ih h, map_cons, hf, getD_some]

/-- The last of some of the bindings after one of them is written that is the last, or the only
one. -/
theorem getLast?_filter_setEntries {p : κ → Bool} (hk : p k = true)
    (hnodup : (es.map fst).Nodup) (hlast : ∀ e ∈ (es.filter fun e => p e.1).getLast?, e.1 = k) :
    ((setEntries k v es).filter fun e => p e.1).getLast? = some (k, v) := by
  induction es with
  | nil =>
    rw [setEntries, filter_cons, if_pos hk]
    rfl
  | cons e es ih =>
    rw [map_cons, nodup_cons] at hnodup
    rw [setEntries]
    by_cases he : e.1 = k
    · have hp : p e.1 = true := by
        rw [he]
        exact hk
      have hnil : es.filter (fun e => p e.1) = [] := by
        by_contra hne
        rw [filter_cons, if_pos hp, getLast?_cons_of_ne_nil hne] at hlast
        have hin := getLast_mem hne
        have hkey := hlast _ (getLast?_eq_some_getLast hne)
        have hmem : ((es.filter fun e => p e.1).getLast hne).1 ∈ es.map fst :=
          List.mem_map_of_mem (mem_of_mem_filter hin)
        rw [hkey, ← he] at hmem
        exact hnodup.1 hmem
      rw [if_pos he, filter_cons, if_pos hk, hnil]
      rfl
    · rw [if_neg he, filter_cons]
      by_cases hp : p e.1 = true
      · have hne : es.filter (fun e => p e.1) ≠ [] := by
          intro hnil
          rw [filter_cons, if_pos hp, hnil] at hlast
          exact he (hlast e rfl)
        rw [filter_cons, if_pos hp, getLast?_cons_of_ne_nil hne] at hlast
        have htail := ih hnodup.2 hlast
        have hsome : (setEntries k v es).filter (fun e => p e.1) ≠ [] := by
          intro hnil
          rw [hnil] at htail
          cases htail
        rw [if_pos hp, getLast?_cons_of_ne_nil hsome, htail]
      · rw [filter_cons, if_neg hp] at hlast
        rw [if_neg hp, ih hnodup.2 hlast]

variable {d : Dict κ α}

theorem mem_entries_of_get? (h : d.get? k = some v) : (k, v) ∈ d.entries := by
  simp only [get?] at h
  obtain ⟨before, after, heq, -⟩ := lookup_eq_some_iff.mp h
  simp [heq]

theorem get?_of_mem_entries (h : (k, v) ∈ d.entries) : d.get? k = some v := by
  have hn := d.nodup
  simp only [get?]
  revert h hn
  induction d.entries with
  | nil => simp
  | cons e es ih =>
    obtain ⟨a, b⟩ := e
    intro h hn
    simp only [map_cons, nodup_cons] at hn
    rcases mem_cons.mp h with heq | hmem
    · cases heq
      simp
    · have hne : k ≠ a := by
        rintro rfl
        exact hn.1 (mem_map.mpr ⟨(k, v), hmem, rfl⟩)
      rw [lookup_cons_of_ne hne]
      exact ih hmem hn.2

theorem get?_eq_some_iff {d : Dict κ α} {k : κ} {v : α} : d.get? k = some v ↔ (k, v) ∈ d.entries :=
  ⟨mem_entries_of_get?, get?_of_mem_entries⟩

theorem get?_filter (d : Dict κ α) (p : κ → α → Bool) (k : κ) :
    (d.filter p).get? k = (d.get? k).filter (p k) := by
  cases h : d.get? k with
  | none =>
    cases h' : (d.filter p).get? k with
    | none => rfl
    | some v =>
      have hmem := mem_entries_of_get? h'
      simp only [filter, mem_filter] at hmem
      simp [get?_of_mem_entries hmem.1] at h
  | some v =>
    have hmem := mem_entries_of_get? h
    cases hp : p k v with
    | true =>
      simp only [Option.filter, hp, if_true]
      apply get?_of_mem_entries
      simp only [filter, mem_filter]
      exact ⟨hmem, hp⟩
    | false =>
      cases h' : (d.filter p).get? k with
      | none => simp [Option.filter, hp]
      | some w =>
        have hw := mem_entries_of_get? h'
        simp only [filter, mem_filter] at hw
        have hvw : some v = some w := h.symm.trans (get?_of_mem_entries hw.1)
        cases hvw
        simp [hp] at hw

theorem contains_filter_key (d : Dict κ α) (p : κ → Bool) (k : κ) :
    (d.filter fun k _ => p k).contains k = true ↔ d.contains k = true ∧ p k = true := by
  unfold contains
  rw [get?_filter]
  cases d.get? k with
  | none => simp
  | some v => cases hp : p k <;> simp [Option.filter]

theorem mem_keys_iff : k ∈ d.keys ↔ ∃ v, d.get? k = some v := by
  constructor
  · intro h
    obtain ⟨e, he, rfl⟩ := mem_map.mp h
    exact ⟨e.2, get?_of_mem_entries he⟩
  · rintro ⟨v, h⟩
    exact mem_map.mpr ⟨(k, v), mem_entries_of_get? h, rfl⟩

theorem get?_foldl_set_list {β : Type} (f : Option α → β → α) (es : List (κ × β))
    (hnodup : (es.map fst).Nodup) (d : Dict κ α) (k : κ) :
    (es.foldl (fun d e => d.set e.1 (f (d.get? e.1) e.2)) d).get? k =
      (es.lookup k).elim (d.get? k) fun b => some (f (d.get? k) b) := by
  induction es generalizing d with
  | nil => rfl
  | cons e es ih =>
    obtain ⟨a, b⟩ := e
    simp only [map_cons, nodup_cons] at hnodup
    rw [foldl_cons, ih hnodup.2]
    by_cases hk : k = a
    · subst hk
      have hnone : es.lookup k = none := by
        rw [lookup_eq_none_iff]
        intro e he
        have hne : e.1 ≠ k := fun heq => hnodup.1 (mem_map.mpr ⟨e, he, heq⟩)
        simpa using fun heq => hne heq.symm
      simp [hnone]
    · rw [lookup_cons_of_ne hk, get?_set_of_ne _ _ hk]

/-- A loop over a dictionary that rewrites the binding of each of its keys in `d`: the read
of a key sees only the iteration of that key. -/
theorem get?_foldl_set {β : Type} (f : Option α → β → α) (es : Dict κ β) (d : Dict κ α) (k : κ) :
    (es.entries.foldl (fun d e => d.set e.1 (f (d.get? e.1) e.2)) d).get? k =
      (es.get? k).elim (d.get? k) fun b => some (f (d.get? k) b) :=
  get?_foldl_set_list f es.entries es.nodup d k

/-- Several writes, one after the other. -/
def writeAll (d : Dict κ α) (ws : List (κ × α)) : Dict κ α := ws.foldl (fun d w => d.set w.1 w.2) d

@[simp] theorem writeAll_nil (d : Dict κ α) : d.writeAll [] = d := rfl

@[simp] theorem writeAll_cons (d : Dict κ α) (w : κ × α) (ws : List (κ × α)) :
    d.writeAll (w :: ws) = (d.set w.1 w.2).writeAll ws := rfl

theorem writeAll_append (d : Dict κ α) (ws ws' : List (κ × α)) :
    d.writeAll (ws ++ ws') = (d.writeAll ws).writeAll ws' :=
  foldl_append

/-- A read after several writes sees the last write of its key. -/
theorem get?_writeAll (d : Dict κ α) (ws : List (κ × α)) (k : κ) :
    (d.writeAll ws).get? k =
      ((ws.filter fun w => decide (w.1 = k)).getLast?.map snd).or (d.get? k) := by
  induction ws generalizing d with
  | nil => rfl
  | cons w ws ih =>
    rw [writeAll_cons, ih, get?_set, filter_cons]
    by_cases hk : w.1 = k
    · simp only [hk, decide_true, if_true]
      cases hlast : (ws.filter fun w => decide (w.1 = k)).getLast? with
      | none =>
        rw [getLast?_eq_none_iff] at hlast
        simp [hlast]
      | some v =>
        have hne : ws.filter (fun w => decide (w.1 = k)) ≠ [] := by
          intro hnil
          simp [hnil] at hlast
        rw [getLast?_cons_of_ne_nil hne, hlast]
        rfl
    · have hk' : ¬ k = w.1 := fun h => hk h.symm
      simp [hk, hk']

variable {ws : List (κ × α)}

theorem get?_writeAll_of_notMem (d : Dict κ α) (h : k ∉ ws.map fst) :
    (d.writeAll ws).get? k = d.get? k := by
  have hnil : ws.filter (fun w => decide (w.1 = k)) = [] := by
    rw [filter_eq_nil_iff]
    intro w hw heq
    exact h (mem_map.mpr ⟨w, hw, by simpa using heq⟩)
  rw [get?_writeAll, hnil]
  rfl

/-- Of writes with distinct keys each one can be read back. -/
theorem get?_writeAll_of_mem (d : Dict κ α) (hnodup : (ws.map fst).Nodup) {w : κ × α}
    (hw : w ∈ ws) : (d.writeAll ws).get? w.1 = some w.2 := by
  obtain ⟨before, after, rfl⟩ := append_of_mem hw
  rw [map_append, map_cons] at hnodup
  have hlater : w.1 ∉ after.map fst := (nodup_cons.mp (nodup_append.mp hnodup).2.1).1
  rw [writeAll_append, writeAll_cons, get?_writeAll_of_notMem _ hlater, get?_set_self]

/-- When all writes of a key write the same, that is what is read back. -/
theorem get?_writeAll_of_unique (d : Dict κ α) (hw : (k, v) ∈ ws)
    (hunique : ∀ v', (k, v') ∈ ws → v' = v) : (d.writeAll ws).get? k = some v := by
  have hne : ws.filter (fun w => decide (w.1 = k)) ≠ [] :=
    ne_nil_of_mem (mem_filter.mpr ⟨hw, decide_eq_true rfl⟩)
  obtain ⟨last, hlast⟩ : ∃ last, _ = some last := ⟨_, getLast?_eq_some_getLast hne⟩
  obtain ⟨hmem, hkey⟩ := mem_filter.mp (mem_of_getLast? hlast)
  have hk : last.1 = k := of_decide_eq_true hkey
  rw [get?_writeAll, hlast, map_some, some_or, some.injEq]
  exact hunique last.2 (by rw [← hk]; exact hmem)

theorem contains_writeAll_of_mem (d : Dict κ α) (h : k ∈ ws.map fst) :
    (d.writeAll ws).contains k = true := by
  obtain ⟨w, hw, rfl⟩ := mem_map.mp h
  have hne : ws.filter (fun w' => decide (w'.1 = w.1)) ≠ [] :=
    ne_nil_of_mem (mem_filter.mpr ⟨hw, decide_eq_true rfl⟩)
  unfold contains
  rw [get?_writeAll, getLast?_eq_some_getLast hne]
  rfl

theorem contains_writeAll_empty (ws : List (κ × α)) (k : κ) :
    ((empty : Dict κ α).writeAll ws).contains k = true ↔ k ∈ ws.map fst := by
  rw [contains, get?_writeAll, get?_empty, or_none, isSome_map,
    ← ne_none_iff_isSome, ne_eq, getLast?_eq_none_iff, filter_eq_nil_iff]
  simp

/-- What stands under a key was written there. -/
theorem mem_of_get?_writeAll_empty (h : ((empty : Dict κ α).writeAll ws).get? k = some v) :
    (k, v) ∈ ws := by
  rw [get?_writeAll, get?_empty, or_none] at h
  obtain ⟨w, hlast, rfl⟩ := map_eq_some_iff.mp h
  obtain ⟨hw, hkey⟩ := mem_filter.mp (mem_of_getLast? hlast)
  rw [← of_decide_eq_true hkey]
  exact hw

/-- Every value of the dictionary satisfies `P`. -/
def Forall (P : κ → α → Prop) (d : Dict κ α) : Prop := ∀ e ∈ d.entries, P e.1 e.2

omit [DecidableEq κ] in
theorem forall_empty (P : κ → α → Prop) : (empty : Dict κ α).Forall P := by
  simp [Forall, empty]

variable {P : κ → α → Prop}

theorem Forall.set (h : d.Forall P) (hv : P k v) : (d.set k v).Forall P := by
  intro e he
  have hget : (d.set k v).get? e.1 = some e.2 := get?_of_mem_entries he
  rw [get?_set] at hget
  by_cases hk : e.1 = k
  · rw [if_pos hk] at hget
    cases hget
    rw [hk]
    exact hv
  · rw [if_neg hk] at hget
    exact h e (mem_entries_of_get? hget)

theorem Forall.get? (h : d.Forall P) (hv : d.get? k = some v) : P k v :=
  h (k, v) (mem_entries_of_get? hv)

omit [DecidableEq κ] in
theorem Forall.mapVals {Q : κ → α → Prop} (h : d.Forall P) {f : κ → α → α}
    (hf : ∀ k v, P k v → Q k (f k v)) : (d.mapVals f).Forall Q := by
  intro e he
  obtain ⟨e', he', rfl⟩ := mem_map.mp he
  exact hf e'.1 e'.2 (h e' he')

omit [DecidableEq κ] in
theorem Forall.filter (h : d.Forall P) (p : κ → α → Bool) : (d.filter p).Forall P :=
  fun e he => h e (mem_filter.mp he).1

end Dict

/-!
## Least recently used

A cache that counts its uses and, when it is full, gives up the entry whose last use is the longest
ago.
-/

/-- The values with the count of their last use. -/
structure Lru (κ α : Type) where
  map : Dict κ (α × ℕ)
  tick : ℕ
  capacity : ℕ

namespace Lru

variable {κ α : Type} [DecidableEq κ]

omit [DecidableEq κ] in
def new (capacity : ℕ) : Lru κ α := ⟨.empty, 0, max capacity 1⟩

/-- A counter of 64 bits. -/
def next (tick : ℕ) : ℕ := (tick + 1) % 18446744073709551616

/-- The value of a key, without a use of it. -/
def peek (c : Lru κ α) (k : κ) : Option α := (c.map.get? k).map Prod.fst

/-- The value of a key, which is used by it. -/
def get (c : Lru κ α) (k : κ) : Option α × Lru κ α :=
  match c.map.get? k with
  | none => (none, c)
  | some (v, _) => (some v, { c with map := c.map.set k (v, next c.tick), tick := next c.tick })

def remove (c : Lru κ α) (k : κ) : Lru κ α := { c with map := c.map.filter fun k' _ => k' != k }

def evictOne (c : Lru κ α) : Lru κ α :=
  match c.map.entries.argmin fun entry => entry.2.2 with
  | none => c
  | some entry => c.remove entry.1

def insert (c : Lru κ α) (k : κ) (v : α) : Lru κ α :=
  let full := c.capacity ≤ c.map.entries.length ∧ c.map.contains k = false
  let room := if full then c.evictOne else c
  { room with map := room.map.set k (v, next c.tick), tick := next c.tick }

variable {c : Lru κ α} {k k' : κ} {v v' : α}

@[simp] theorem get_fst (c : Lru κ α) (k : κ) : (c.get k).1 = c.peek k := by
  unfold get peek
  cases c.map.get? k with
  | none => rfl
  | some entry => rfl

theorem get_of_peek_none (h : c.peek k = none) : c.get k = (none, c) := by
  unfold get
  rw [map_eq_none_iff.mp h]

@[simp] theorem peek_get (c : Lru κ α) (k k' : κ) : (c.get k).2.peek k' = c.peek k' := by
  unfold get peek
  cases h : c.map.get? k with
  | none => rfl
  | some entry =>
    dsimp only
    rw [Dict.get?_set]
    split
    · rename_i hk
      rw [hk, h]
      rfl
    · rfl

theorem peek_of_peek_remove (h : (c.remove k).peek k' = some v) : c.peek k' = some v := by
  obtain ⟨entry, hentry, hv⟩ := map_eq_some_iff.mp h
  rw [remove, Dict.get?_filter] at hentry
  unfold peek
  rw [(filter_eq_some_iff.mp hentry).1, map_some, hv]

theorem peek_of_peek_evictOne (h : c.evictOne.peek k = some v) : c.peek k = some v := by
  unfold evictOne at h
  split at h
  · exact h
  · exact peek_of_peek_remove h

@[simp] theorem peek_insert_self (c : Lru κ α) (k : κ) (v : α) :
    (c.insert k v).peek k = some v := by
  unfold insert peek
  dsimp only
  rw [Dict.get?_set_self, map_some]

/-- What an insertion leaves was there, or is what it inserts. -/
theorem peek_insert (h : (c.insert k v).peek k' = some v') :
    k' = k ∧ v' = v ∨ c.peek k' = some v' := by
  by_cases hk : k' = k
  · subst hk
    rw [peek_insert_self] at h
    exact .inl ⟨rfl, (Option.some.inj h).symm⟩
  right
  unfold insert peek at h
  dsimp only at h
  rw [Dict.get?_set_of_ne _ _ hk] at h
  split at h
  · exact peek_of_peek_evictOne h
  · exact h

/-- Every value of the cache satisfies `P`. -/
def All (P : κ → α → Prop) (c : Lru κ α) : Prop := ∀ k v, c.peek k = some v → P k v

variable {P : κ → α → Prop}

theorem all_new (capacity : ℕ) : (new capacity : Lru κ α).All P := by
  intro k v h
  cases h

theorem All.get (h : c.All P) (k : κ) : (c.get k).2.All P := by
  intro k' v hv
  rw [peek_get] at hv
  exact h k' v hv

theorem All.remove (h : c.All P) (k : κ) : (c.remove k).All P :=
  fun k' v hv => h k' v (peek_of_peek_remove hv)

theorem All.insert (h : c.All P) (hv : P k v) : (c.insert k v).All P := by
  intro k' v' hv'
  rcases peek_insert hv' with ⟨rfl, rfl⟩ | hold
  · exact hv
  · exact h k' v' hold

end Lru

end Misc
