import ClearYourTools.Tiers.Store

/-!
# What normalising loses

The copy that both functions make forgets the attempts and the epoch counters, the addition for
tools forgets the epoch counters, and the addition for skills forgets the attempts as well.
-/

namespace ClearYourTools.Tiers

open Misc List Option
open Prod (snd fst)

/-- A map of persisted states: each row stands under its kind and id. -/
structure PersistedStates where
  states : States
  keyed : states.Forall fun key state => key = (state.kind, state.entityId)

namespace Reconciliation

variable (r : Reconciliation)

variable (canonicalId : Text → Option Text)

/-- The fate of a row follows its canonical id; a row that is dropped has none or its own. -/
structure Follows : Prop where
  stays : ∀ id, r.fate id = .stays → canonicalId id = some id
  becomes : ∀ id canonical, r.fate id = .becomes canonical → canonicalId id = some canonical
  dropped : ∀ id canonical, r.fate id = .dropped → canonicalId id = some canonical → canonical = id

/-- The rows of the kind with the canonical id. -/
def rowsOf (states : States) (canonical : Text) : List EntityTierState :=
  (states.entries.filter fun e =>
    e.1.1 == r.kind && canonicalId e.1.2 == some canonical).map Prod.snd

variable (counter : Counter)

/-- The sum of a counter over rows. -/
def total (rows : List EntityTierState) : ℚ :=
  rows.foldr (fun state sum => state.stats.count counter + sum) 0

/-- The normalised states have one row for every canonical id, with the counters of all rows that
share the id, and to normalise again changes nothing. -/
structure Conserves (states : States) : Prop where
  merged : ∀ id canonical, states.contains (r.kind, id) = true →
    canonicalId id = some canonical →
      ∃ state, (r.normalize states).1.get? (r.kind, canonical) = some state ∧
        ∀ counter, state.stats.count counter = total counter (r.rowsOf canonicalId states canonical)
  again : r.normalize (r.normalize states).1 = ((r.normalize states).1, [], [])

theorem get?_delete (states : States) (key k : EntityKey) :
    (delete states key).get? k = if k = key then none else states.get? k := by
  rw [delete, Dict.get?_filter]
  cases states.get? k with
  | none => simp
  | some state =>
    by_cases hk : k = key
    · simp [Option.filter, hk]
    · simp [Option.filter, hk]

/-- The copy of a row stands for the canonical id. -/
def Renames : Prop :=
  ∀ canonical state, (r.clone canonical state).kind = r.kind ∧
    (r.clone canonical state).entityId = canonical

/-- The rows stand under their kind and id. -/
def Keyed (states : States) : Prop :=
  states.Forall fun key state => key = (state.kind, state.entityId)

/-- The rows that are dropped have no canonical id. -/
def Tracked (states : States) : Prop :=
  ∀ id, states.contains (r.kind, id) = true → r.fate id = .dropped → canonicalId id = none

variable {r} {canonicalId}

variable {states : States} {key : EntityKey} {state : EntityTierState}

theorem Keyed.entityId (h : Keyed states) (hstate : states.get? key = some state) :
    state.entityId = key.2 := by
  have hkey := h.get? hstate
  rw [hkey]

theorem absorb_key (hr : r.Renames) (h : Keyed states) (canonical : Text) (state : EntityTierState) :
    (r.kind, canonical) =
      ((r.absorb canonical (states.get? (r.kind, canonical)) state).kind,
        (r.absorb canonical (states.get? (r.kind, canonical)) state).entityId) := by
  cases htarget : states.get? (r.kind, canonical) with
  | none =>
    rw [absorb, (hr canonical state).1, (hr canonical state).2]
  | some target =>
    have hkey := h.get? htarget
    exact hkey

variable {acc : Reconciled}

theorem reconcile_stays (h : Keyed acc.states) (hstays : key.1 = r.kind → r.fate key.2 = .stays) :
    r.reconcile acc key = acc := by
  rw [reconcile]
  cases hstate : acc.states.get? key with
  | none => rfl
  | some state =>
    by_cases hkind : key.1 = r.kind
    · simp only [h.entityId hstate, hstays hkind, hkind, ne_eq, not_true_eq_false, if_false]
    · simp only [ne_eq, hkind, not_false_eq_true, if_true]

theorem reconcile_dropped (h : Keyed acc.states) (hstate : acc.states.get? key = some state)
    (hkind : key.1 = r.kind) (hfate : r.fate key.2 = .dropped) :
    r.reconcile acc key = { acc with
      states := delete acc.states key
      removed := acc.removed ++ [key.2] } := by
  rw [reconcile, hstate]
  simp only [h.entityId hstate, hfate, hkind, ne_eq, not_true_eq_false, if_false]

variable {canonical : Text}

theorem reconcile_becomes (h : Keyed acc.states) (hstate : acc.states.get? key = some state)
    (hkind : key.1 = r.kind) (hfate : r.fate key.2 = .becomes canonical) :
    r.reconcile acc key =
      { states := delete (acc.states.set (r.kind, canonical)
          (r.absorb canonical (acc.states.get? (r.kind, canonical)) state)) key
        removed := acc.removed ++ [key.2]
        touched := acc.touched ++ [canonical] } := by
  rw [reconcile, hstate]
  simp only [h.entityId hstate, hfate, hkind, ne_eq, not_true_eq_false, if_false]

theorem reconcile_cases (h : Keyed acc.states) (key : EntityKey) :
    (r.reconcile acc key = acc ∧
      (acc.states.get? key = none ∨ key.1 ≠ r.kind ∨ r.fate key.2 = .stays)) ∨
    ∃ state, acc.states.get? key = some state ∧ key.1 = r.kind ∧
      ((r.fate key.2 = .dropped ∧ r.reconcile acc key = { acc with
          states := delete acc.states key
          removed := acc.removed ++ [key.2] }) ∨
        ∃ canonical, r.fate key.2 = .becomes canonical ∧ r.reconcile acc key =
          { states := delete (acc.states.set (r.kind, canonical)
              (r.absorb canonical (acc.states.get? (r.kind, canonical)) state)) key
            removed := acc.removed ++ [key.2]
            touched := acc.touched ++ [canonical] }) := by
  cases hstate : acc.states.get? key with
  | none =>
    left
    rw [reconcile, hstate]
    exact ⟨rfl, .inl rfl⟩
  | some state =>
    by_cases hkind : key.1 = r.kind
    · cases hfate : r.fate key.2 with
      | stays => exact .inl ⟨reconcile_stays h fun _ => hfate, .inr (.inr rfl)⟩
      | dropped =>
        exact .inr ⟨state, rfl, hkind, .inl ⟨rfl, reconcile_dropped h hstate hkind hfate⟩⟩
      | becomes canonical =>
        exact .inr ⟨state, rfl, hkind,
          .inr ⟨canonical, rfl, reconcile_becomes h hstate hkind hfate⟩⟩
    · exact .inl ⟨reconcile_stays h fun hk => absurd hk hkind, .inr (.inl hkind)⟩

theorem reconcile_keyed (hr : r.Renames) (h : Keyed acc.states) (key : EntityKey) :
    Keyed (r.reconcile acc key).states := by
  rcases reconcile_cases h key with ⟨heq, -⟩ | ⟨state, -, -, ⟨-, heq⟩ | ⟨canonical, -, heq⟩⟩
  · rw [heq]
    exact h
  · rw [heq]
    exact h.filter _
  · rw [heq]
    exact (Dict.Forall.set h (absorb_key hr h canonical state)).filter _

theorem reconcile_get? (h : Keyed acc.states) {k : EntityKey} (hne : k ≠ key)
    (htarget : key.1 = r.kind → r.fate key.2 ≠ .becomes k.2 ∨ k.1 ≠ r.kind) :
    (r.reconcile acc key).states.get? k = acc.states.get? k := by
  rcases reconcile_cases h key with
    ⟨heq, -⟩ | ⟨state, -, hkind, ⟨-, heq⟩ | ⟨canonical, hfate, heq⟩⟩
  · rw [heq]
  · rw [heq, get?_delete, if_neg hne]
  · have hother : k ≠ (r.kind, canonical) := by
      rintro rfl
      rcases htarget hkind with hnot | hnot
      · exact hnot hfate
      · exact hnot rfl
    rw [heq, get?_delete, if_neg hne, Dict.get?_set_of_ne _ _ hother]

/-- The rows that go to a canonical id, in their order. -/
def sources (r : Reconciliation) (states : States) (canonical : Text) : List EntityTierState :=
  (states.entries.filter fun e =>
    e.1.1 == r.kind && r.fate e.1.2 == .becomes canonical).map Prod.snd

/-- The row of a canonical id after a list of rows has gone to it. -/
def absorbAll (r : Reconciliation) (canonical : Text) (target : Option EntityTierState)
    (rows : List EntityTierState) : Option EntityTierState :=
  rows.foldl (fun target state => some (r.absorb canonical target state)) target

/-- No canonical id that a row goes to is one that rows leave. -/
def Settled (r : Reconciliation) (states : States) : Prop :=
  ∀ id canonical, states.contains (r.kind, id) = true → r.fate id = .becomes canonical →
    r.fate canonical = .stays

/-- The loop over some of the rows, which still stand as they were: the row of an id that rows
do not leave absorbs those that go to it. -/
theorem foldl_reconcile_get? (hr : r.Renames) {es : List (EntityKey × EntityTierState)}
    (hnodup : (es.map fst).Nodup)
    (hsettled : ∀ e ∈ es, e.1.1 = r.kind → ∀ canonical, r.fate e.1.2 = .becomes canonical →
      r.fate canonical = .stays) (h : Keyed acc.states)
    (hstands : ∀ e ∈ es, e.1.1 = r.kind → r.fate e.1.2 ≠ .stays →
      acc.states.get? e.1 = some e.2) (hstays : r.fate canonical = .stays) :
    ((es.map fst).foldl r.reconcile acc).states.get? (r.kind, canonical) =
      r.absorbAll canonical (acc.states.get? (r.kind, canonical))
        ((es.filter fun e => e.1.1 == r.kind && r.fate e.1.2 == .becomes canonical).map snd) := by
  induction es generalizing acc with
  | nil => rfl
  | cons e es ih =>
    rw [map_cons, nodup_cons] at hnodup
    have hkeyed := reconcile_keyed hr h e.1
    have hrest : ∀ f ∈ es, f.1.1 = r.kind → r.fate f.1.2 ≠ .stays →
        (r.reconcile acc e.1).states.get? f.1 = some f.2 := by
      intro f hf hkind hleaves
      have hne : f.1 ≠ e.1 := by
        intro heq
        rw [← heq] at hnodup
        exact hnodup.1 (List.mem_map_of_mem hf)
      rw [reconcile_get? h hne fun hk => .inl fun hbecomes =>
        hleaves (hsettled e mem_cons_self hk _ hbecomes)]
      exact hstands f (mem_cons_of_mem e hf) hkind hleaves
    have htail := ih hnodup.2 (fun f hf => hsettled f (mem_cons_of_mem e hf)) hkeyed hrest
    rw [map_cons, foldl_cons, htail, filter_cons]
    by_cases hkind : e.1.1 = r.kind
    · by_cases hbecomes : r.fate e.1.2 = .becomes canonical
      · -- the row is absorbed
        have hleaves : r.fate e.1.2 ≠ .stays := by
          rw [hbecomes]
          exact Fate.noConfusion
        have hstate := hstands e mem_cons_self hkind hleaves
        have hne : (r.kind, canonical) ≠ e.1 := by
          intro heq
          rw [← heq] at hleaves
          exact hleaves hstays
        rw [reconcile_becomes h hstate hkind hbecomes, get?_delete, if_neg hne,
          Dict.get?_set_self, if_pos (by simp [hkind, hbecomes]), map_cons]
        rfl
      · have hne : (r.kind, canonical) = e.1 → r.fate e.1.2 = .stays := by
          intro heq
          rw [← heq]
          exact hstays
        rw [if_neg (by simp [hbecomes])]
        by_cases heq : (r.kind, canonical) = e.1
        · rw [reconcile_stays h fun _ => hne heq]
        · rw [reconcile_get? h heq fun _ => .inl hbecomes]
    · have hsame : r.reconcile acc e.1 = acc := reconcile_stays h fun hk => absurd hk hkind
      rw [hsame, if_neg (by simp [hkind])]

theorem reconcile_gone (h : Keyed acc.states) (hkind : key.1 = r.kind)
    (hleaves : r.fate key.2 ≠ .stays) : (r.reconcile acc key).states.get? key = none := by
  rcases reconcile_cases h key with
    ⟨heq, hnone | hother | hstays⟩ | ⟨state, -, -, ⟨-, heq⟩ | ⟨canonical, -, heq⟩⟩
  · rw [heq, hnone]
  · exact absurd hkind hother
  · exact absurd hstays hleaves
  · rw [heq, get?_delete, if_pos rfl]
  · rw [heq, get?_delete, if_pos rfl]

theorem foldl_reconcile_gone (hr : r.Renames) {keys : List EntityKey} (h : Keyed acc.states)
    {k : EntityKey} (hkind : k.1 = r.kind) (hleaves : r.fate k.2 ≠ .stays)
    (htarget : ∀ key ∈ keys, key.1 = r.kind → r.fate key.2 ≠ .becomes k.2)
    (hk : k ∈ keys ∨ acc.states.get? k = none) :
    (keys.foldl r.reconcile acc).states.get? k = none := by
  induction keys generalizing acc with
  | nil =>
    rcases hk with hk | hk
    · cases hk
    · exact hk
  | cons key keys ih =>
    refine ih (reconcile_keyed hr h key) (fun f hf => htarget f (mem_cons_of_mem key hf)) ?_
    by_cases heq : k = key
    · right
      rw [heq] at hkind hleaves ⊢
      exact reconcile_gone h hkind hleaves
    · rcases hk with hk | hk
      · exact .inl (mem_of_ne_of_mem heq hk)
      · right
        rw [reconcile_get? h heq fun hkey => .inl (htarget key mem_cons_self hkey), hk]

theorem foldl_reconcile_keyed (hr : r.Renames) (keys : List EntityKey) (h : Keyed acc.states) :
    Keyed (keys.foldl r.reconcile acc).states := by
  induction keys generalizing acc with
  | nil => exact h
  | cons key keys ih => exact ih (reconcile_keyed hr h key)

theorem normalize_get? (hr : r.Renames) (h : Keyed states) (hsettled : r.Settled states)
    (hstays : r.fate canonical = .stays) :
    (r.normalize states).1.get? (r.kind, canonical) =
      r.absorbAll canonical (states.get? (r.kind, canonical)) (r.sources states canonical) := by
  refine foldl_reconcile_get? hr states.nodup ?_ h ?_ hstays
  · intro e he hkind c hbecomes
    refine hsettled e.1.2 c ?_ hbecomes
    rw [Dict.contains, ← hkind, Dict.get?_of_mem_entries he]
    rfl
  · intro e he _ _
    exact Dict.get?_of_mem_entries he

/-- Which counters the addition and the copy carry over. -/
structure Carries (r : Reconciliation) (added copied : Counter → Bool) : Prop where
  merge : ∀ target source counter, (r.merge target source).count counter =
    target.count counter + if added counter then source.count counter else 0
  clone : ∀ canonical state counter, (r.clone canonical state).stats.count counter =
    if copied counter then state.stats.count counter else 0

variable {added copied : Counter → Bool}

theorem absorbAll_some (hcarries : r.Carries added copied) (canonical : Text)
    (target : EntityTierState) (rows : List EntityTierState) :
    ∃ state, r.absorbAll canonical (some target) rows = some state ∧
      ∀ counter, state.stats.count counter = target.stats.count counter +
        if added counter then total counter rows else 0 := by
  induction rows generalizing target with
  | nil =>
    refine ⟨target, rfl, fun counter => ?_⟩
    rw [total, foldr_nil, ite_self, add_zero]
  | cons row rows ih =>
    obtain ⟨state, hstate, hcount⟩ := ih (r.absorb canonical (some target) row)
    refine ⟨state, hstate, fun counter => ?_⟩
    rw [hcount, absorb, hcarries.merge, add_assoc]
    split
    · rfl
    · rw [add_zero]

theorem absorbAll_none (hcarries : r.Carries added copied) (canonical : Text)
    (row : EntityTierState) (rows : List EntityTierState) :
    ∃ state, r.absorbAll canonical none (row :: rows) = some state ∧
      ∀ counter, state.stats.count counter =
        (if copied counter then row.stats.count counter else 0) +
          if added counter then total counter rows else 0 := by
  obtain ⟨state, hstate, hcount⟩ := absorbAll_some hcarries canonical (r.clone canonical row) rows
  refine ⟨state, hstate, fun counter => ?_⟩
  rw [hcount, hcarries.clone]

theorem total_nil : total counter [] = 0 := rfl

theorem total_cons (state : EntityTierState) (rows : List EntityTierState) :
    total counter (state :: rows) = state.stats.count counter + total counter rows := rfl

theorem total_filter_or (p q : EntityKey × EntityTierState → Bool)
    (es : List (EntityKey × EntityTierState)) (hdisjoint : ∀ e ∈ es, p e = true → q e = false) :
    total counter ((es.filter fun e => p e || q e).map snd) =
      total counter ((es.filter p).map snd) + total counter ((es.filter q).map snd) := by
  induction es with
  | nil =>
    rw [filter_nil, filter_nil, filter_nil, map_nil, total_nil, add_zero]
  | cons e es ih =>
    have htail := ih fun f hf => hdisjoint f (mem_cons_of_mem e hf)
    rw [filter_cons, filter_cons, filter_cons]
    cases hp : p e with
    | true =>
      have hq := hdisjoint e mem_cons_self hp
      rw [hq, Bool.or_false, if_pos rfl, if_pos rfl, if_neg Bool.false_ne_true, map_cons,
        map_cons, total_cons, total_cons, htail, add_assoc]
    | false =>
      cases hq : q e with
      | true =>
        rw [Bool.or_true, if_pos rfl, if_pos rfl, if_neg Bool.false_ne_true, map_cons,
          map_cons, total_cons, total_cons, htail, add_left_comm]
      | false =>
        rw [Bool.or_false, if_neg Bool.false_ne_true, if_neg Bool.false_ne_true,
          if_neg Bool.false_ne_true, htail]

theorem total_filter_key (states : States) (key : EntityKey) :
    total counter ((states.entries.filter fun e => e.1 == key).map snd) =
      (states.get? key).elim 0 fun state => state.stats.count counter := by
  have hnodup := states.nodup
  rw [Dict.get?]
  revert hnodup
  induction states.entries with
  | nil => exact fun _ => rfl
  | cons e es ih =>
    intro hnodup
    obtain ⟨k, state⟩ := e
    rw [map_cons, nodup_cons] at hnodup
    by_cases hk : k = key
    · have hnil : es.filter (fun e => e.1 == key) = [] := by
        rw [filter_eq_nil_iff]
        intro e he hkey
        have heq : e.1 = k := (beq_iff_eq.mp hkey).trans hk.symm
        have hmem : e.1 ∈ es.map fst := List.mem_map_of_mem (f := fst) he
        rw [heq] at hmem
        exact hnodup.1 hmem
      have hkeep : ((k, state).1 == key) = true := beq_iff_eq.mpr hk
      rw [filter_cons, if_pos hkeep, hnil, map_cons, map_nil, total_cons, total_nil, add_zero, hk]
      simp
    · rw [filter_cons, if_neg (by simpa using hk), ih hnodup.2, Dict.lookup_cons_of_ne (Ne.symm hk)]

theorem total_rowsOf (hfollows : r.Follows canonicalId) (counter : Counter) (states : States)
    (hstays : r.fate canonical = .stays) :
    total counter (r.rowsOf canonicalId states canonical) =
      ((states.get? (r.kind, canonical)).elim 0 fun state => state.stats.count counter) +
        total counter (r.sources states canonical) := by
  rw [← total_filter_key, sources, ← total_filter_or]
  · have hparts : ∀ e : EntityKey × EntityTierState,
        (e.1.1 == r.kind && canonicalId e.1.2 == some canonical) =
          (e.1 == (r.kind, canonical) ||
            (e.1.1 == r.kind && r.fate e.1.2 == .becomes canonical)) := by
      intro e
      obtain ⟨⟨kind, id⟩, state⟩ := e
      rw [Bool.eq_iff_iff]
      by_cases hid : id = canonical
      · subst hid
        simp [hfollows.stays _ hstays, hstays]
      cases hfate : r.fate id with
      | stays => simp [hfollows.stays _ hfate, hid]
      | dropped =>
        have hother : canonicalId id ≠ some canonical := fun hsome =>
          hid (hfollows.dropped _ _ hfate hsome).symm
        simp [hother, hid]
      | becomes other => simp [hfollows.becomes _ _ hfate, hid]
    simp only [rowsOf, hparts]
  · intro e _ hkey
    rw [beq_iff_eq.mp hkey, hstays]
    exact Bool.and_false _

/-- The rows of the kind all stay. -/
def Stable (r : Reconciliation) (states : States) : Prop :=
  ∀ id, states.contains (r.kind, id) = true → r.fate id = .stays

/-- To normalise states whose rows all stay changes nothing. -/
theorem normalize_stable (h : Keyed states) (hstable : r.Stable states) :
    r.normalize states = (states, [], []) := by
  have hrun : r.run states = ⟨states, [], []⟩ := by
    have hkeys : ∀ key ∈ states.keys, states.contains key = true := by
      intro key hkey
      obtain ⟨state, hstate⟩ := Dict.mem_keys_iff.mp hkey
      rw [Dict.contains, hstate]
      rfl
    rw [run]
    revert hkeys
    induction states.keys with
    | nil => exact fun _ => rfl
    | cons key keys ih =>
      intro hkeys
      have hstays : key.1 = r.kind → r.fate key.2 = .stays := by
        intro hkind
        apply hstable key.2
        rw [← hkind]
        exact hkeys key mem_cons_self
      have hsame : r.reconcile ⟨states, [], []⟩ key = ⟨states, [], []⟩ := reconcile_stays h hstays
      rw [foldl_cons, hsame]
      exact ih fun k hk => hkeys k (mem_cons_of_mem key hk)
  have hnil : states.entries.filter (fun e => e.1.1 == r.kind && [].contains e.2.entityId) = [] := by
    rw [filter_eq_nil_iff]
    intro e _
    rw [contains_nil, Bool.and_false]
    exact Bool.false_ne_true
  rw [normalize, hrun, hnil]
  rfl

theorem foldl_reconcile_removed (keys : List EntityKey) (acc : Reconciled) :
    acc.removed.length ≤ (keys.foldl r.reconcile acc).removed.length := by
  induction keys generalizing acc with
  | nil => exact le_rfl
  | cons key keys ih =>
    refine le_trans ?_ (ih (r.reconcile acc key))
    rw [reconcile]
    split
    · exact le_rfl
    · split
      · exact le_rfl
      · split
        · exact le_rfl
        · simp
        · simp

/-- When nothing was removed, the rows all stay. -/
theorem stable_of_removed_nil (h : Keyed states) (hremoved : (r.normalize states).2.1 = []) :
    r.Stable states := by
  intro id hid
  by_contra hleaves
  obtain ⟨state, hstate⟩ := isSome_iff_exists.mp hid
  have hmem : (r.kind, id) ∈ states.keys := Dict.mem_keys_iff.mpr ⟨state, hstate⟩
  -- the first row that leaves adds its id to the removed ones
  have hgrows : ∀ keys : List EntityKey, (r.kind, id) ∈ keys → ∀ removed touched,
      removed.length < (keys.foldl r.reconcile ⟨states, removed, touched⟩).removed.length := by
    intro keys
    induction keys with
    | nil =>
      intro hkey
      cases hkey
    | cons key keys ih =>
      intro hkey removed touched
      rw [foldl_cons]
      have hacc : Keyed (Reconciled.mk states removed touched).states := h
      rcases reconcile_cases (r := r) hacc key with
        ⟨heq, hstays⟩ | ⟨row, -, -, ⟨-, heq⟩ | ⟨canonical, -, heq⟩⟩
      · rw [heq]
        refine ih ?_ removed touched
        refine mem_of_ne_of_mem ?_ hkey
        rintro rfl
        rcases hstays with hnone | hkind | hstays
        · rw [hnone] at hstate
          cases hstate
        · exact hkind rfl
        · exact hleaves hstays
      · refine lt_of_lt_of_le ?_ (foldl_reconcile_removed keys _)
        rw [heq]
        simp
      · refine lt_of_lt_of_le ?_ (foldl_reconcile_removed keys _)
        rw [heq]
        simp
  have hlength := hgrows states.keys hmem [] []
  have hnil : (r.run states).removed = [] := hremoved
  rw [run] at hnil
  rw [hnil] at hlength
  exact absurd hlength (lt_irrefl _)

theorem normalize_is_stable (hr : r.Renames) (h : Keyed states) (hsettled : r.Settled states) :
    r.Stable (r.normalize states).1 := by
  intro id hid
  by_contra hleaves
  have hgone : (r.normalize states).1.get? (r.kind, id) = none := by
    refine foldl_reconcile_gone hr h rfl hleaves ?_ ?_
    · intro key hkey hkind hbecomes
      obtain ⟨state, hstate⟩ := Dict.mem_keys_iff.mp hkey
      refine hleaves (hsettled key.2 id ?_ hbecomes)
      rw [← hkind, Dict.contains, hstate]
      rfl
    · cases hstate : states.get? (r.kind, id) with
      | none => exact .inr rfl
      | some state => exact .inl (Dict.mem_keys_iff.mpr ⟨state, hstate⟩)
  rw [Dict.contains, hgone] at hid
  exact Bool.false_ne_true hid

theorem normalize_keyed (hr : r.Renames) (h : Keyed states) : Keyed (r.normalize states).1 :=
  foldl_reconcile_keyed hr states.keys h

theorem again_iff_stable (hr : r.Renames) (h : Keyed states) :
    r.normalize (r.normalize states).1 = ((r.normalize states).1, [], []) ↔
      r.Stable (r.normalize states).1 := by
  constructor
  · intro hagain
    refine stable_of_removed_nil (normalize_keyed hr h) ?_
    rw [hagain]
  · exact normalize_stable (normalize_keyed hr h)

/-- A counter of the rows that go to a canonical id is not lost: a counter that the addition
forgets sums to zero, one that the copy forgets is zero in the row that is copied. -/
structure KeptAt (r : Reconciliation) (added copied : Counter → Bool) (states : States)
    (canonical : Text) (counter : Counter) : Prop where
  addition : added counter = false → total counter (r.sources states canonical) = 0
  copy : added counter = true → copied counter = false →
    states.get? (r.kind, canonical) = none →
      ∀ first, (r.sources states canonical).head? = some first → first.stats.count counter = 0

theorem mem_sources :
    state ∈ r.sources states canonical ↔
      ∃ id, states.get? (r.kind, id) = some state ∧ r.fate id = .becomes canonical := by
  rw [sources, List.mem_map]
  constructor
  · rintro ⟨⟨⟨kind, id⟩, row⟩, hmem, rfl⟩
    rw [mem_filter, Bool.and_eq_true, beq_iff_eq, beq_iff_eq] at hmem
    obtain ⟨hmem, rfl, hfate⟩ := hmem
    exact ⟨id, Dict.get?_of_mem_entries hmem, hfate⟩
  · rintro ⟨id, hstate, hfate⟩
    refine ⟨((r.kind, id), state), ?_, rfl⟩
    rw [mem_filter, Bool.and_eq_true, beq_iff_eq, beq_iff_eq]
    exact ⟨Dict.mem_entries_of_get? hstate, rfl, hfate⟩

/-- The row that normalising leaves under an id that stays, when there was a row for it. -/
theorem normalize_count (hr : r.Renames) (hfollows : r.Follows canonicalId)
    (hcarries : r.Carries added copied)
    (hcopied : ∀ counter, added counter = false → copied counter = false) (h : Keyed states)
    (hsettled : r.Settled states) (hstays : r.fate canonical = .stays)
    (hrows : states.get? (r.kind, canonical) = none → r.sources states canonical ≠ []) :
    ∃ state, (r.normalize states).1.get? (r.kind, canonical) = some state ∧
      ∀ counter, state.stats.count counter = total counter (r.rowsOf canonicalId states canonical) ↔
        r.KeptAt added copied states canonical counter := by
  rw [normalize_get? hr h hsettled hstays]
  cases htarget : states.get? (r.kind, canonical) with
  | some target =>
    obtain ⟨state, hstate, hcount⟩ :=
      absorbAll_some hcarries canonical target (r.sources states canonical)
    refine ⟨state, hstate, fun counter => ?_⟩
    rw [hcount, total_rowsOf hfollows counter states hstays, htarget, elim_some, add_right_inj]
    constructor
    · intro heq
      refine ⟨fun hadded => ?_, fun _ _ hnone => ?_⟩
      · rw [hadded, if_neg Bool.false_ne_true] at heq
        exact heq.symm
      · rw [htarget] at hnone
        cases hnone
    · intro hkept
      cases hadded : added counter with
      | true => rw [if_pos rfl]
      | false => rw [if_neg Bool.false_ne_true, hkept.addition hadded]
  | none =>
    obtain ⟨first, rest, hsources⟩ := exists_cons_of_ne_nil (hrows htarget)
    obtain ⟨state, hstate, hcount⟩ := absorbAll_none hcarries canonical first rest
    rw [hsources]
    refine ⟨state, hstate, fun counter => ?_⟩
    rw [hcount, total_rowsOf hfollows counter states hstays, htarget, elim_none, zero_add, hsources,
      total_cons]
    constructor
    · intro heq
      refine ⟨fun hadded => ?_, fun hadded hlost _ row hrow => ?_⟩
      · rw [hadded, hcopied counter hadded, if_neg Bool.false_ne_true, if_neg Bool.false_ne_true,
          add_zero] at heq
        rw [hsources, total_cons, ← heq]
      · rw [hadded, hlost, if_neg Bool.false_ne_true, if_pos rfl, zero_add] at heq
        rw [hsources, head?_cons, some_inj] at hrow
        rw [← hrow]
        exact right_eq_add.mp heq
    · intro hkept
      cases hadded : added counter with
      | false =>
        have hsum := hkept.addition hadded
        rw [hsources, total_cons] at hsum
        rw [hcopied counter hadded, if_neg Bool.false_ne_true, if_neg Bool.false_ne_true, add_zero,
          hsum]
      | true =>
        cases hlost : copied counter with
        | true => rw [if_pos rfl, if_pos rfl]
        | false =>
          have hfirst := hkept.copy hadded hlost htarget first (by rw [hsources]; rfl)
          rw [if_neg Bool.false_ne_true, if_pos rfl, hfirst]

/-- Normalising conserves the counters exactly when no canonical id is one that rows leave, no row
with a canonical id is dropped, and no counter that is forgotten had anything. -/
theorem conserves_iff (hr : r.Renames) (hfollows : r.Follows canonicalId)
    (hcarries : r.Carries added copied)
    (hcopied : ∀ counter, added counter = false → copied counter = false) (h : Keyed states) :
    r.Conserves canonicalId states ↔ r.Settled states ∧ r.Tracked canonicalId states ∧
      ∀ canonical counter, r.KeptAt added copied states canonical counter := by
  constructor
  · intro hconserves
    have hstable := (again_iff_stable hr h).mp hconserves.again
    have hsettled : r.Settled states := by
      intro id canonical hid hfate
      obtain ⟨state, hstate, -⟩ := hconserves.merged id canonical hid (hfollows.becomes _ _ hfate)
      apply hstable canonical
      rw [Dict.contains, hstate]
      rfl
    have htracked : r.Tracked canonicalId states := by
      intro id hid hfate
      by_contra hsome
      obtain ⟨canonical, hcanonical⟩ := ne_none_iff_exists'.mp hsome
      obtain ⟨state, hstate, -⟩ := hconserves.merged id canonical hid hcanonical
      have hpresent : (r.normalize states).1.contains (r.kind, canonical) = true := by
        rw [Dict.contains, hstate]
        rfl
      have hstays := hstable canonical hpresent
      rw [hfollows.dropped id canonical hfate hcanonical, hfate] at hstays
      cases hstays
    refine ⟨hsettled, htracked, fun canonical counter => ?_⟩
    by_cases hsources : r.sources states canonical = []
    · refine ⟨fun _ => ?_, fun _ _ _ first hfirst => ?_⟩
      · rw [hsources, total_nil]
      · rw [hsources] at hfirst
        cases hfirst
    · obtain ⟨row, hrow⟩ := exists_mem_of_ne_nil _ hsources
      obtain ⟨id, hid, hfate⟩ := mem_sources.mp hrow
      have hpresent : states.contains (r.kind, id) = true := by
        rw [Dict.contains, hid]
        rfl
      obtain ⟨state, hstate, hcount⟩ :=
        hconserves.merged id canonical hpresent (hfollows.becomes _ _ hfate)
      obtain ⟨found, hfound, hiff⟩ := normalize_count hr hfollows hcarries hcopied h hsettled
        (hsettled id canonical hpresent hfate) fun _ => hsources
      rw [hstate, some_inj] at hfound
      rw [← hiff, ← hfound]
      exact hcount counter
  · rintro ⟨hsettled, htracked, hkept⟩
    refine ⟨fun id canonical hid hcanonical => ?_,
      (again_iff_stable hr h).mpr (normalize_is_stable hr h hsettled)⟩
    have hrows : r.fate canonical = .stays ∧
        (states.get? (r.kind, canonical) = none → r.sources states canonical ≠ []) := by
      obtain ⟨row, hrow⟩ := isSome_iff_exists.mp hid
      cases hfate : r.fate id with
      | stays =>
        rw [hfollows.stays _ hfate, some_inj] at hcanonical
        rw [← hcanonical]
        refine ⟨hfate, fun hnone => ?_⟩
        rw [hnone] at hrow
        cases hrow
      | dropped =>
        rw [htracked id hid hfate] at hcanonical
        cases hcanonical
      | becomes other =>
        rw [hfollows.becomes _ _ hfate, some_inj] at hcanonical
        rw [hcanonical] at hfate
        exact ⟨hsettled id canonical hid hfate,
          fun _ => ne_nil_of_mem (mem_sources.mpr ⟨id, hrow, hfate⟩)⟩
    obtain ⟨state, hstate, hiff⟩ :=
      normalize_count hr hfollows hcarries hcopied h hsettled hrows.1 hrows.2
    exact ⟨state, hstate, fun counter => (hiff counter).mpr (hkept canonical counter)⟩

end Reconciliation

open Misc Reconciliation

/-- The counters that the copy of a row has. -/
def clonedCounter : Counter → Bool
  | .attempts | .epochUsed | .epochAttempts => false
  | _ => true

/-- The counters that `_merge_tool_stats` adds. -/
def addedForTools : Counter → Bool
  | .epochUsed | .epochAttempts => false
  | _ => true

theorem cloneEntityState_count (kind : EntityKind) (canonical : Text) (state : EntityTierState)
    (counter : Counter) : (cloneEntityState kind canonical state).stats.count counter =
      if clonedCounter counter then state.stats.count counter else 0 := by
  cases counter <;> rfl

variable (target source : EffectiveStats)

theorem mergeToolStats_count (counter : Counter) :
    (mergeToolStats target source).count counter =
      target.count counter + if addedForTools counter then source.count counter else 0 := by
  cases counter <;> first | rfl | exact (add_zero _).symm

theorem mergeSkillEntityStats_count (counter : Counter) :
    (mergeSkillEntityStats target source).count counter =
      target.count counter + if clonedCounter counter then source.count counter else 0 := by
  cases counter <;> first | rfl | exact (add_zero _).symm

theorem toolReconciliation_renames : toolReconciliation.Renames := fun _ _ => ⟨rfl, rfl⟩

theorem toolReconciliation_carries : toolReconciliation.Carries addedForTools clonedCounter :=
  ⟨mergeToolStats_count, cloneEntityState_count .tool⟩

variable (names : SkillPathNames)

theorem skillReconciliation_renames : (skillReconciliation names).Renames :=
  fun _ _ => ⟨rfl, rfl⟩

theorem skillReconciliation_carries :
    (skillReconciliation names).Carries clonedCounter clonedCounter :=
  ⟨mergeSkillEntityStats_count, cloneEntityState_count .skill⟩

theorem resolveToolCatalogSource_bare (name : Text) :
    resolveToolCatalogSource ⟨name, [], false⟩ = "mcpc" ∨
      resolveToolCatalogSource ⟨name, [], false⟩ = "cyt_mcp" ∨
        resolveToolCatalogSource ⟨name, [], false⟩ = "unknown" := by
  unfold resolveToolCatalogSource
  have hexplicit : ¬ Text.strip [] ≠ [] := fun hne => hne rfl
  dsimp only
  rw [if_neg hexplicit]
  split
  · exact .inl rfl
  · split
    · exact .inr (.inl rfl)
    · exact .inr (.inr rfl)

theorem stripped_toolEntityId (name : Text) : Text.Stripped (toolEntityId ⟨name, [], false⟩) := by
  rw [toolEntityId]
  split
  · exact Text.stripped_iff.mpr rfl
  refine Text.Stripped.append_cons ?_ (Text.stripped_strip name) rfl
  rcases resolveToolCatalogSource_bare name with heq | heq | heq
  · rw [heq]
    exact Text.stripped_iff.mpr (by decide)
  · rw [heq]
    exact Text.stripped_iff.mpr (by decide)
  · rw [heq]
    exact Text.stripped_iff.mpr (by decide)

theorem canonicalToolEntityId_canonical (entityId : Text) :
    canonicalToolEntityId (canonicalToolEntityId entityId) = canonicalToolEntityId entityId := by
  have hstays : ∀ text : Text, text.strip = text →
      ¬ "unknown:".toList.isPrefixOf text = true → canonicalToolEntityId text = text := by
    intro text hstrip hprefix
    unfold canonicalToolEntityId
    dsimp only
    rw [hstrip, if_pos hprefix]
  by_cases hprefix : "unknown:".toList.isPrefixOf entityId.strip = true
  · by_cases hresolved :
        toolEntityId ⟨entityId.strip.drop "unknown:".length, [], false⟩ ≠ [] ∧
          ¬ "unknown:".toList.isPrefixOf
            (toolEntityId ⟨entityId.strip.drop "unknown:".length, [], false⟩) = true
    · have hcanonical : canonicalToolEntityId entityId =
          toolEntityId ⟨entityId.strip.drop "unknown:".length, [], false⟩ := by
        unfold canonicalToolEntityId
        dsimp only
        rw [if_neg (not_not_intro hprefix), if_pos hresolved]
      rw [hcanonical]
      exact hstays _ (stripped_toolEntityId _).strip hresolved.2
    · -- the row stays unknown
      have hcanonical : ∀ text : Text, text.strip = entityId.strip →
          canonicalToolEntityId text = entityId.strip := by
        intro text htext
        unfold canonicalToolEntityId
        dsimp only
        rw [htext, if_neg (not_not_intro hprefix), if_neg hresolved]
      rw [hcanonical entityId rfl]
      exact hcanonical _ (Text.strip_strip entityId)
  · have hcanonical : canonicalToolEntityId entityId = entityId.strip := by
      unfold canonicalToolEntityId
      dsimp only
      rw [if_pos hprefix]
    rw [hcanonical]
    exact hstays _ (Text.strip_strip entityId) hprefix

theorem toolReconciliation_settled (states : States) : toolReconciliation.Settled states := by
  intro id canonical _ hfate
  have hcanonical : canonicalToolEntityId id = canonical := by
    have hfate : toolFate id = .becomes canonical := hfate
    unfold toolFate at hfate
    dsimp only at hfate
    split at hfate
    · cases hfate
    · exact Fate.becomes.inj hfate
  show toolFate canonical = .stays
  unfold toolFate
  dsimp only
  rw [← hcanonical, if_pos (canonicalToolEntityId_canonical id)]

def toolCanonicalId (entityId : Text) : Option Text := some (canonicalToolEntityId entityId)

theorem toolReconciliation_follows : toolReconciliation.Follows toolCanonicalId where
  stays id hfate := by
    have hfate : toolFate id = .stays := hfate
    unfold toolFate at hfate
    dsimp only at hfate
    split at hfate
    · rename_i hsame
      rw [toolCanonicalId, hsame]
    · cases hfate
  becomes id canonical hfate := by
    have hfate : toolFate id = .becomes canonical := hfate
    unfold toolFate at hfate
    dsimp only at hfate
    split at hfate
    · cases hfate
    · rw [toolCanonicalId, Fate.becomes.inj hfate]
  dropped id canonical hfate := by
    have hfate : toolFate id = .dropped := hfate
    unfold toolFate at hfate
    dsimp only at hfate
    split at hfate
    · cases hfate
    · cases hfate

theorem toolReconciliation_tracked (states : States) :
    toolReconciliation.Tracked toolCanonicalId states := by
  intro id _ hfate
  have hfate : toolFate id = .dropped := hfate
  unfold toolFate at hfate
  dsimp only at hfate
  split at hfate
  · cases hfate
  · cases hfate

/-- The canonical id of a skill id: that of an ephemeral path is resolved, and may be missing. -/
def skillCanonicalId (entityId : Text) : Option Text :=
  if ¬ names.isEphemeralSkillPath entityId then some entityId
  else
    let canonical := resolveSkillEntityId names entityId (names.resolveSkillDocId entityId)
    if canonical = [] then none else some canonical

theorem skillFate_cases (id : Text) :
    (skillFate names id = .stays ∧ skillCanonicalId names id = some id) ∨
    (skillFate names id = .dropped ∧
      (skillCanonicalId names id = none ∨ skillCanonicalId names id = some id)) ∨
    ∃ canonical, skillFate names id = .becomes canonical ∧
      skillCanonicalId names id = some canonical := by
  unfold skillFate skillCanonicalId
  dsimp only
  split
  · exact .inl ⟨rfl, rfl⟩
  by_cases hnil : resolveSkillEntityId names id (names.resolveSkillDocId id) = []
  · rw [if_pos (.inl hnil), if_pos hnil]
    exact .inr (.inl ⟨rfl, .inl rfl⟩)
  · by_cases hsame : resolveSkillEntityId names id (names.resolveSkillDocId id) = id
    · rw [if_pos (.inr hsame), if_neg hnil, hsame]
      exact .inr (.inl ⟨rfl, .inr rfl⟩)
    · rw [if_neg (not_or.mpr ⟨hnil, hsame⟩), if_neg hnil]
      exact .inr (.inr ⟨_, rfl, rfl⟩)

theorem skillReconciliation_follows :
    (skillReconciliation names).Follows (skillCanonicalId names) where
  stays id hfate := by
    have hfate : skillFate names id = .stays := hfate
    rcases skillFate_cases names id with ⟨-, hid⟩ | ⟨heq, -⟩ | ⟨canonical, heq, -⟩
    · exact hid
    · rw [heq] at hfate
      cases hfate
    · rw [heq] at hfate
      cases hfate
  becomes id canonical hfate := by
    have hfate : skillFate names id = .becomes canonical := hfate
    rcases skillFate_cases names id with ⟨heq, -⟩ | ⟨heq, -⟩ | ⟨other, heq, hid⟩
    · rw [heq] at hfate
      cases hfate
    · rw [heq] at hfate
      cases hfate
    · rw [heq] at hfate
      rw [hid, Fate.becomes.inj hfate]
  dropped id canonical hfate hid := by
    have hfate : skillFate names id = .dropped := hfate
    rcases skillFate_cases names id with ⟨heq, -⟩ | ⟨-, hnone | hsame⟩ | ⟨other, heq, -⟩
    · rw [heq] at hfate
      cases hfate
    · rw [hnone] at hid
      cases hid
    · rw [hsame] at hid
      exact (Option.some.inj hid).symm
    · rw [heq] at hfate
      cases hfate

/-- Renamed tool rows have nothing in the epoch counters, and the one that is copied has no
attempts. -/
structure ToolsKept (states : States) : Prop where
  epochUsed : ∀ canonical, total .epochUsed (toolReconciliation.sources states canonical) = 0
  epochAttempts :
    ∀ canonical, total .epochAttempts (toolReconciliation.sources states canonical) = 0
  attempts : ∀ canonical first, states.get? (.tool, canonical) = none →
    (toolReconciliation.sources states canonical).head? = some first → first.stats.attempts = 0

/-- Ephemeral skills go to ids that are not ephemeral, and have nothing in the attempts and the
epoch counters. -/
structure SkillsKept (names : SkillPathNames) (states : States) : Prop where
  settled : (skillReconciliation names).Settled states
  tracked : (skillReconciliation names).Tracked (skillCanonicalId names) states
  attempts :
    ∀ canonical, total .attempts ((skillReconciliation names).sources states canonical) = 0
  epochUsed :
    ∀ canonical, total .epochUsed ((skillReconciliation names).sources states canonical) = 0
  epochAttempts :
    ∀ canonical, total .epochAttempts ((skillReconciliation names).sources states canonical) = 0

theorem toolsKept_iff (states : States) :
    ToolsKept states ↔ ∀ canonical counter,
      toolReconciliation.KeptAt addedForTools clonedCounter states canonical counter := by
  constructor
  · intro hkept canonical counter
    refine ⟨fun hadded => ?_, fun hadded hcopied hnone first hfirst => ?_⟩
    · cases counter with
      | epochUsed => exact hkept.epochUsed canonical
      | epochAttempts => exact hkept.epochAttempts canonical
      | _ => cases hadded
    · cases counter with
      | attempts => exact hkept.attempts canonical first hnone hfirst
      | epochUsed => cases hadded
      | epochAttempts => cases hadded
      | _ => cases hcopied
  · intro hkept
    exact
      { epochUsed := fun canonical => (hkept canonical .epochUsed).addition rfl
        epochAttempts := fun canonical => (hkept canonical .epochAttempts).addition rfl
        attempts := fun canonical first hnone hfirst =>
          (hkept canonical .attempts).copy rfl rfl hnone first hfirst }

theorem skillsKept_iff (states : States) :
    SkillsKept names states ↔ (skillReconciliation names).Settled states ∧
      (skillReconciliation names).Tracked (skillCanonicalId names) states ∧
      ∀ canonical counter, (skillReconciliation names).KeptAt clonedCounter clonedCounter states
        canonical counter := by
  constructor
  · intro hkept
    refine ⟨hkept.settled, hkept.tracked, fun canonical counter => ?_⟩
    refine ⟨fun hadded => ?_, fun hadded hcopied _ _ _ => ?_⟩
    · cases counter with
      | attempts => exact hkept.attempts canonical
      | epochUsed => exact hkept.epochUsed canonical
      | epochAttempts => exact hkept.epochAttempts canonical
      | _ => cases hadded
    · rw [hadded] at hcopied
      cases hcopied
  · rintro ⟨hsettled, htracked, hkept⟩
    exact
      { settled := hsettled
        tracked := htracked
        attempts := fun canonical => (hkept canonical .attempts).addition rfl
        epochUsed := fun canonical => (hkept canonical .epochUsed).addition rfl
        epochAttempts := fun canonical => (hkept canonical .epochAttempts).addition rfl }

/-- Normalising persisted states conserves the statistics exactly when the rows that are renamed
have nothing in the counters that the copy and the addition forget. -/
theorem normalize_conserves (names : SkillPathNames) (persisted : PersistedStates) :
    (toolReconciliation.Conserves toolCanonicalId persisted.states ↔ ToolsKept persisted.states) ∧
    ((skillReconciliation names).Conserves (skillCanonicalId names) persisted.states ↔
      SkillsKept names persisted.states) := by
  constructor
  · have hlost : ∀ counter, addedForTools counter = false → clonedCounter counter = false := by
      intro counter hadded
      cases counter <;> first | rfl | cases hadded
    rw [conserves_iff toolReconciliation_renames toolReconciliation_follows
      toolReconciliation_carries hlost persisted.keyed, toolsKept_iff]
    exact ⟨fun h => h.2.2, fun h =>
      ⟨toolReconciliation_settled _, toolReconciliation_tracked _, h⟩⟩
  · rw [conserves_iff (skillReconciliation_renames names) (skillReconciliation_follows names)
      (skillReconciliation_carries names) (fun _ hadded => hadded) persisted.keyed, skillsKept_iff]

/-- The row of a tool whose source was not known, with one attempt. -/
def legacyTool : EntityTierState :=
  { EntityTierState.init .tool "unknown:mcp__search" .active with
    stats := { EffectiveStats.init with candidates := 1, attempts := 1 } }

def legacyStates : PersistedStates where
  states := Dict.empty.set (.tool, "unknown:mcp__search") legacyTool
  keyed := Dict.Forall.set (Dict.forall_empty _) rfl

theorem legacyStates_attempt_lost :
    ¬ toolReconciliation.Conserves toolCanonicalId legacyStates.states := by
  intro hconserves
  obtain ⟨state, hstate, hcount⟩ := hconserves.merged "unknown:mcp__search"
    "cyt_mcp:mcp__search" (by decide +kernel) (by decide +kernel)
  have hattempts := hcount .attempts
  have htotal : total .attempts (toolReconciliation.rowsOf toolCanonicalId legacyStates.states
      "cyt_mcp:mcp__search") = 1 := by decide +kernel
  have hrow : ((toolReconciliation.normalize legacyStates.states).1.get?
      (.tool, "cyt_mcp:mcp__search")).map (fun row => row.stats.attempts) = some 0 := by
    decide +kernel
  have hkind : toolReconciliation.kind = .tool := rfl
  rw [hkind] at hstate
  rw [hstate, map_some, some_inj] at hrow
  rw [EffectiveStats.count, hrow, htotal] at hattempts
  exact absurd hattempts (by decide)

end ClearYourTools.Tiers
