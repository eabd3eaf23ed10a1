import Mathlib.Data.List.Forall2
import Mathlib.Data.List.Nodup
import Mathlib.Data.List.Pairwise
import Mathlib.Data.List.Perm.Basic

/-!
# Lists rewritten item by item

`List.mapM` in `Option` relates each item to the one that stands for it, and `List.Forall₂`
carries what holds of such pairs over to the lists.
-/

namespace Misc

open List

variable {α β γ : Type}

variable {r : α → β → Prop} {xs : List α} {ys : List β} {x : α}

theorem exists_of_forall₂_left (h : List.Forall₂ r xs ys) (hx : x ∈ xs) : ∃ y ∈ ys, r x y := by
  induction h with
  | nil => cases hx
  | cons hhead _ ih =>
    rcases mem_cons.mp hx with rfl | hx
    · exact ⟨_, mem_cons_self, hhead⟩
    · obtain ⟨y, hy, hr⟩ := ih hx
      exact ⟨y, mem_cons_of_mem _ hy, hr⟩

/-- What the items of a pair have in common makes the two lists of it equal. -/
theorem map_eq_of_forall₂ {f : α → γ} {g : β → γ} (h : List.Forall₂ r xs ys)
    (hr : ∀ x y, r x y → g y = f x) : ys.map g = xs.map f := by
  induction h with
  | nil => rfl
  | cons hhead _ ih => rw [map_cons, map_cons, hr _ _ hhead, ih]

variable {f : α → Option β}

theorem forall₂_of_mapM (h : xs.mapM f = some ys) :
    List.Forall₂ (fun x y => f x = some y) xs ys := by
  induction xs generalizing ys with
  | nil =>
    rw [mapM_nil] at h
    cases h
    exact .nil
  | cons x xs ih =>
    rw [mapM_cons] at h
    obtain ⟨y, hy, h⟩ := Option.bind_eq_some_iff.mp h
    obtain ⟨ys, hys, h⟩ := Option.bind_eq_some_iff.mp h
    cases h
    exact .cons hy (ih hys)

theorem isSome_mapM_iff : (xs.mapM f).isSome = true ↔ ∀ x ∈ xs, (f x).isSome = true := by
  induction xs with
  | nil => simp
  | cons x xs ih =>
    rw [forall_mem_cons, ← ih, mapM_cons]
    cases f x with
    | none => simp
    | some y => cases xs.mapM f <;> simp

theorem mem_of_mapM (h : xs.mapM f = some ys) {y : β} (hy : y ∈ ys) : ∃ x ∈ xs, f x = some y :=
  exists_of_forall₂_left (forall₂_of_mapM h).flip hy

/-- A list whose items all come from somewhere comes from a list. -/
theorem exists_forall₂ (h : ∀ y ∈ ys, ∃ x, r x y) : ∃ xs, List.Forall₂ r xs ys := by
  induction ys with
  | nil => exact ⟨[], .nil⟩
  | cons y ys ih =>
    obtain ⟨x, hx⟩ := h y mem_cons_self
    obtain ⟨xs, hxs⟩ := ih fun z hz => h z (mem_cons_of_mem _ hz)
    exact ⟨x :: xs, .cons hx hxs⟩

/-- What a partial rewriting leaves comes from the items that it keeps. -/
theorem forall₂_filterMap (f : α → Option β) (h : ∀ x ∈ xs, ∀ y, f x = some y → r x y) :
    List.Forall₂ r (xs.filter fun x => (f x).isSome) (xs.filterMap f) := by
  induction xs with
  | nil => exact .nil
  | cons x xs ih =>
    have hrest := ih fun z hz => h z (mem_cons_of_mem _ hz)
    rw [filter_cons, filterMap_cons]
    cases hx : f x with
    | none => exact hrest
    | some y => exact .cons (h x mem_cons_self y hx) hrest

/-- A rewriting of a list that may fail, and one that does not. -/
theorem mapM_eq_some_map_iff (f : α → Option β) (g : α → β) (xs : List α) :
    xs.mapM f = some (xs.map g) ↔ ∀ x ∈ xs, f x = some (g x) := by
  induction xs with
  | nil => exact ⟨fun _ x hx => (by cases hx), fun _ => rfl⟩
  | cons x xs ih =>
    rw [forall_mem_cons, ← ih, mapM_cons, map_cons]
    cases hx : f x with
    | none => simp
    | some y =>
      cases hxs : xs.mapM f with
      | none => simp
      | some ys => simp

/-- Items that can be told from one another by a name of theirs. -/
theorem eq_of_name {ν : Type} {name : α → ν} (h : (xs.map name).Nodup) {y : α} (hx : x ∈ xs)
    (hy : y ∈ xs) (hname : name x = name y) : x = y :=
  inj_on_of_nodup_map h hx hy hname

/-- Two lists whose heads alone have a certain name are the same up to order when their heads and
their tails are. -/
theorem cons_perm_cons_iff {ν : Type} (name : α → ν) {y : α} {ys : List α} (hname : name x = name y)
    (hys : ∀ z ∈ ys, name z ≠ name y) : (x :: xs).Perm (y :: ys) ↔ x = y ∧ xs.Perm ys := by
  constructor
  · intro h
    rcases mem_cons.mp (h.subset mem_cons_self) with rfl | hx
    · exact ⟨rfl, h.cons_inv⟩
    · exact absurd hname (hys x hx)
  · rintro ⟨rfl, h⟩
    exact h.cons x

/-- Two selections from a list of distinct names, each rewritten item by item, are the same up to
order only when they select the same items and rewrite them alike. The first rewriting may spoil
names; what it selects does not depend on what it spoils. -/
theorem map_filter_perm_iff {ν : Type} {name : α → ν} {name' : β → ν} {spoil : ν → ν}
    {p q : α → Bool} {f g : α → β} (hnodup : (xs.map name).Nodup)
    (hspoil : ∀ x, spoil (spoil x) = spoil x) (hf : ∀ x, name' (f x) = spoil (name x))
    (hg : ∀ x, name' (g x) = name x) (hp : ∀ x y, spoil (name x) = spoil (name y) → p x = p y) :
    ((xs.filter p).map f).Perm ((xs.filter q).map g) ↔
      ∀ x ∈ xs, (p x = true ↔ q x = true) ∧ (q x = true → f x = g x) := by
  constructor
  · intro h
    have hnames : ((xs.filter p).map (fun x => spoil (name x))).Perm ((xs.filter q).map name) := by
      have := h.map name'
      rw [List.map_map, List.map_map] at this
      rw [map_congr_left (f := name' ∘ f) (g := fun x => spoil (name x)) fun x _ => hf x,
        map_congr_left (f := name' ∘ g) (g := name) fun x _ => hg x] at this
      exact this
    have hnodup' : ((xs.filter p).map (fun x => spoil (name x))).Nodup :=
      hnames.nodup_iff.mpr (hnodup.sublist (filter_sublist.map name))
    -- what is selected on the left stands for itself on the right
    have hleft : ∀ x ∈ xs, p x = true → q x = true ∧ f x = g x := by
      intro x hx hpx
      obtain ⟨y, hy, hfg⟩ := mem_map.mp (h.subset (mem_map_of_mem (mem_filter.mpr ⟨hx, hpx⟩)))
      obtain ⟨hyxs, hqy⟩ := mem_filter.mp hy
      have hname : spoil (name y) = spoil (name x) := by
        rw [← hg, hfg, hf, hspoil]
      have hpy : p y = true := (hp y x hname).trans hpx
      have hxy : y = x := eq_of_name hnodup' (mem_filter.mpr ⟨hyxs, hpy⟩)
        (mem_filter.mpr ⟨hx, hpx⟩) hname
      subst hxy
      exact ⟨hqy, hfg.symm⟩
    intro x hx
    have hright : q x = true → p x = true := by
      intro hqx
      obtain ⟨y, hy, hfg⟩ := mem_map.mp (h.symm.subset (mem_map_of_mem (mem_filter.mpr ⟨hx, hqx⟩)))
      obtain ⟨hyxs, hpy⟩ := mem_filter.mp hy
      have hname : name y = name x := by
        rw [← hg, ← (hleft y hyxs hpy).2, hfg, hg]
      rw [← eq_of_name hnodup hyxs hx hname]
      exact hpy
    exact ⟨⟨fun hpx => (hleft x hx hpx).1, hright⟩, fun hqx => (hleft x hx (hright hqx)).2⟩
  · intro h
    rw [filter_congr fun x hx => Bool.eq_iff_iff.mpr (h x hx).1]
    rw [map_congr_left fun x hx => (h x (mem_filter.mp hx).1).2 (mem_filter.mp hx).2]

/-!
## Spans

Half-open ranges of positions, and the spans that a list of starts cuts out of a stretch.
-/

/-- Position `i` lies in the span `r`. -/
def covers (i : ℕ) (r : ℕ × ℕ) : Bool := decide (r.1 ≤ i) && decide (i < r.2)

/-- The spans from each start to the next one, the last of them up to `stop`. -/
def spansFrom (stop : ℕ) : List ℕ → List (ℕ × ℕ)
  | [] => []
  | start :: rest => (start, rest.head?.getD stop) :: spansFrom stop rest

/-- Each span runs from one of the starts to a later position. -/
theorem mem_spansFrom {stop : ℕ} {starts : List ℕ} (hsorted : starts.Pairwise (· < ·))
    (hstop : ∀ a ∈ starts, a < stop) {r : ℕ × ℕ} (hr : r ∈ spansFrom stop starts) :
    r.1 ∈ starts ∧ r.1 < r.2 ∧ r.2 ≤ stop := by
  induction starts with
  | nil => simp [spansFrom] at hr
  | cons a rest ih =>
    rw [pairwise_cons] at hsorted
    rcases mem_cons.mp hr with rfl | hr
    · refine ⟨mem_cons_self, ?_⟩
      cases rest with
      | nil => exact ⟨hstop a mem_cons_self, Nat.le_refl stop⟩
      | cons b rest =>
        exact ⟨hsorted.1 b mem_cons_self, Nat.le_of_lt (hstop b (mem_cons_of_mem _ mem_cons_self))⟩
    · obtain ⟨hmem, hlt⟩ := ih hsorted.2 (fun b hb => hstop b (mem_cons_of_mem _ hb)) hr
      exact ⟨mem_cons_of_mem _ hmem, hlt⟩

/-- Spans cut out by increasing starts cover every position from the first start on, once. -/
theorem countP_covers_spansFrom {stop : ℕ} {starts : List ℕ} (i : ℕ)
    (hsorted : starts.Pairwise (· < ·)) (hstop : ∀ a ∈ starts, a < stop) :
    (spansFrom stop starts).countP (covers i) =
      if starts.head?.getD stop ≤ i ∧ i < stop then 1 else 0 := by
  induction starts with
  | nil =>
    have hnot : ¬ (stop ≤ i ∧ i < stop) := by omega
    simp [spansFrom, hnot]
  | cons a rest ih =>
    rw [pairwise_cons] at hsorted
    have ha : a < stop := hstop a mem_cons_self
    have hrest := ih hsorted.2 fun b hb => hstop b (mem_cons_of_mem _ hb)
    have hnext : a < rest.head?.getD stop ∧ rest.head?.getD stop ≤ stop := by
      cases rest with
      | nil => exact ⟨ha, Nat.le_refl stop⟩
      | cons b rest =>
        exact ⟨hsorted.1 b mem_cons_self, Nat.le_of_lt (hstop b (mem_cons_of_mem _ mem_cons_self))⟩
    have hhead : (a :: rest).head?.getD stop = a := rfl
    rw [spansFrom, countP_cons, hrest, hhead]
    simp only [covers, Bool.and_eq_true, decide_eq_true_eq]
    obtain ⟨hlt, hle⟩ := hnext
    by_cases hi : rest.head?.getD stop ≤ i ∧ i < stop
    · have hhere : ¬ (a ≤ i ∧ i < rest.head?.getD stop) := by omega
      have hall : a ≤ i ∧ i < stop := by omega
      rw [if_pos hi, if_neg hhere, if_pos hall]
    · by_cases hhere : a ≤ i ∧ i < rest.head?.getD stop
      · have hall : a ≤ i ∧ i < stop := by omega
        rw [if_neg hi, if_pos hhere, if_pos hall]
      · have hall : ¬ (a ≤ i ∧ i < stop) := by omega
        rw [if_neg hi, if_neg hhere, if_neg hall]

end Misc
