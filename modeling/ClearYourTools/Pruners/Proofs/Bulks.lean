import ClearYourTools.Misc.Tally
import ClearYourTools.Pruners.Split

/-!
# The bulks hold what fits

Both ways to split keep a packing of the items gone through so far: each item that fits a bulk of
its own is in one bulk, and no bulk is over the limit.
-/

namespace ClearYourTools.Pruners

open Misc List
open Prod (snd fst)

variable {T : Type} {baseTokens maxTokens separatorTokens : ℤ} {items : List (T × ℤ)}

/-- The tokens of the items of a bulk and of what separates them. -/
def Bulk.tokens (separatorTokens : ℤ) (bulk : Bulk T) : ℤ :=
  sumOf Prod.snd bulk + separatorTokens * (bulk.length - 1 : ℕ)

variable (baseTokens maxTokens) in
/-- An item that fits a bulk of its own. -/
def fitsAlone (item : T × ℤ) : Bool := decide (baseTokens + item.2 ≤ maxTokens)

variable (baseTokens maxTokens separatorTokens) in
/-- The bulks hold the items that fit, each as often as it stands there, and keep the limit. -/
structure Packs (items : List (T × ℤ)) (bulks : List (Bulk T)) : Prop where
  perm : bulks.flatten.Perm (items.filter (fitsAlone baseTokens maxTokens))
  ne_nil : ∀ bulk ∈ bulks, bulk ≠ []
  le : ∀ bulk ∈ bulks, baseTokens + bulk.tokens separatorTokens ≤ maxTokens

theorem Bulk.tokens_append_singleton {bulk : Bulk T} (h : bulk ≠ []) (item : T × ℤ) :
    Bulk.tokens separatorTokens (bulk ++ [item]) =
      bulk.tokens separatorTokens + separatorTokens + item.2 := by
  obtain ⟨n, hn⟩ : ∃ n, bulk.length = n + 1 := ⟨bulk.length - 1, by
    have := length_pos_iff.mpr h
    omega⟩
  have hlength : (bulk ++ [item]).length - 1 = n + 1 := by
    rw [length_append, length_singleton, hn]
    rfl
  rw [Bulk.tokens, Bulk.tokens, sumOf_append, sumOf_cons, sumOf_nil, hlength, hn,
    Nat.add_sub_cancel, Nat.cast_add, Nat.cast_one]
  ring

theorem Bulk.tokens_singleton (item : T × ℤ) : Bulk.tokens separatorTokens [item] = item.2 := by
  simp [Bulk.tokens]

theorem Bulk.tokens_zero (bulk : Bulk T) : bulk.tokens 0 = sumOf snd bulk := by
  rw [Bulk.tokens, zero_mul, add_zero]

theorem filter_fitsAlone_append (item : T × ℤ) :
    (items ++ [item]).filter (fitsAlone baseTokens maxTokens) =
      items.filter (fitsAlone baseTokens maxTokens) ++
        if baseTokens + item.2 ≤ maxTokens then [item] else [] := by
  rw [filter_append, filter_singleton, fitsAlone, Bool.cond_decide]

theorem flatten_closeBulk (bulks : List (Bulk T)) (bulk : Bulk T) :
    (closeBulk bulks bulk).flatten = bulks.flatten ++ bulk := by
  unfold closeBulk
  split
  · rename_i hempty
    rw [List.isEmpty_iff.mp hempty, List.append_nil]
  · rw [flatten_append, flatten_singleton]

theorem mem_closeBulk {bulks : List (Bulk T)} {bulk bulk' : Bulk T}
    (h : bulk' ∈ closeBulk bulks bulk) : bulk' ∈ bulks ∨ bulk' = bulk ∧ bulk ≠ [] := by
  unfold closeBulk at h
  split at h
  · exact .inl h
  · rename_i hsome
    refine (mem_append.mp h).imp_right fun heq => ⟨mem_singleton.mp heq, ?_⟩
    exact fun hnil => hsome (List.isEmpty_iff.mpr hnil)

variable (baseTokens maxTokens) in
/-- What the pass in order keeps of the items that it has gone through. -/
structure SplitInv (items : List (T × ℤ)) (state : SplitState T) : Prop where
  flatten : state.bulks.flatten ++ state.currentBulk = items.filter (fitsAlone baseTokens maxTokens)
  closed : ∀ bulk ∈ state.bulks, bulk ≠ [] ∧ baseTokens + sumOf Prod.snd bulk ≤ maxTokens
  tokens : state.currentTokens = baseTokens + sumOf Prod.snd state.currentBulk
  current : state.currentBulk ≠ [] → state.currentTokens ≤ maxTokens

theorem SplitInv.closeBulk {state : SplitState T} (h : SplitInv baseTokens maxTokens items state) :
    ∀ bulk ∈ closeBulk state.bulks state.currentBulk,
      bulk ≠ [] ∧ baseTokens + sumOf snd bulk ≤ maxTokens := by
  intro bulk hbulk
  rcases mem_closeBulk hbulk with hclosed | ⟨rfl, hne⟩
  · exact h.closed bulk hclosed
  · exact ⟨hne, h.tokens ▸ h.current hne⟩

theorem splitItem_inv {state : SplitState T} (h : SplitInv baseTokens maxTokens items state)
    (item : T × ℤ) :
    SplitInv baseTokens maxTokens (items ++ [item]) (splitItem baseTokens maxTokens state item) := by
  unfold splitItem
  split
  · rename_i hover
    refine ⟨?_, h.closed, h.tokens, h.current⟩
    rw [filter_fitsAlone_append, if_neg (not_le.mpr hover), List.append_nil, h.flatten]
  rename_i hfits
  split
  · refine ⟨?_, h.closeBulk, ?_, fun _ => not_lt.mp hfits⟩
    · rw [flatten_closeBulk, h.flatten, filter_fitsAlone_append, if_pos (not_lt.mp hfits)]
    · rw [sumOf_cons, sumOf_nil, add_zero]
  · rename_i hroom
    refine ⟨?_, h.closed, ?_, fun _ => not_lt.mp hroom⟩
    · rw [← List.append_assoc, h.flatten, filter_fitsAlone_append, if_pos (not_lt.mp hfits)]
    · rw [h.tokens, sumOf_append, sumOf_cons, sumOf_nil, add_zero, add_assoc]

theorem foldl_splitItem_inv (items : List (T × ℤ)) :
    SplitInv baseTokens maxTokens items
      (items.foldl (splitItem baseTokens maxTokens) ⟨[], [], baseTokens⟩) := by
  induction items using List.reverseRecOn with
  | nil => exact ⟨rfl, fun _ => nofun, (add_zero _).symm, fun h => absurd rfl h⟩
  | append_singleton items item ih =>
    rw [foldl_append, foldl_cons, foldl_nil]
    exact splitItem_inv ih item

theorem flatten_splitItems (items : List (T × ℤ)) :
    (splitItems baseTokens maxTokens items).flatten =
      items.filter (fitsAlone baseTokens maxTokens) := by
  rw [splitItems, flatten_closeBulk, (foldl_splitItem_inv items).flatten]

theorem splitItems_packs (items : List (T × ℤ)) :
    Packs baseTokens maxTokens 0 items (splitItems baseTokens maxTokens items) where
  perm := .of_eq (flatten_splitItems items)
  ne_nil bulk h := ((foldl_splitItem_inv items).closeBulk bulk h).1
  le bulk h := by
    rw [Bulk.tokens_zero]
    exact ((foldl_splitItem_inv items).closeBulk bulk h).2

theorem exists_of_bestBulk {itemTokens : ℤ} {bulks : List (Bulk T × ℤ)} {best : ℕ × ℤ}
    (h : bestBulk maxTokens separatorTokens itemTokens bulks = some best) :
    ∃ bulk, bulks[best.1]? = some bulk ∧ nextTotal separatorTokens itemTokens bulk ≤ maxTokens := by
  have hfold : ∀ (rest : List ((Bulk T × ℤ) × ℕ)) (start : Option (ℕ × ℤ)),
      (∀ found ∈ start, ∃ bulk, bulks[found.1]? = some bulk ∧
        nextTotal separatorTokens itemTokens bulk ≤ maxTokens) →
      (∀ bulk ∈ rest, bulks[bulk.2]? = some bulk.1) →
      ∀ found ∈ rest.foldl (lighterBulk maxTokens separatorTokens itemTokens) start,
        ∃ bulk, bulks[found.1]? = some bulk ∧
          nextTotal separatorTokens itemTokens bulk ≤ maxTokens := by
    intro rest
    induction rest with
    | nil => exact fun _ hstart _ => hstart
    | cons bulk rest ih =>
      intro start hstart hrest
      obtain ⟨hbulk, hrest⟩ := forall_mem_cons.mp hrest
      refine ih _ ?_ hrest
      intro found hfound
      unfold lighterBulk at hfound
      split at hfound
      · rename_i hchosen
        cases hfound
        exact ⟨bulk.1, hbulk, hchosen.1⟩
      · exact hstart found hfound
  refine hfold bulks.zipIdx none (fun _ => nofun) ?_ best h
  rintro ⟨bulk, index⟩ hmem
  exact mem_zipIdx_iff_getElem?.mp hmem

variable (baseTokens maxTokens separatorTokens) in
structure BulkInv (bulk : Bulk T × ℤ) : Prop where
  ne_nil : bulk.1 ≠ []
  total : bulk.2 = baseTokens + bulk.1.tokens separatorTokens
  le : bulk.2 ≤ maxTokens

theorem BulkInv.append {bulk : Bulk T × ℤ} (h : BulkInv baseTokens maxTokens separatorTokens bulk)
    {item : T × ℤ} (hfits : nextTotal separatorTokens item.2 bulk ≤ maxTokens) :
    BulkInv baseTokens maxTokens separatorTokens
      (bulk.1 ++ [item], nextTotal separatorTokens item.2 bulk) where
  ne_nil := append_ne_nil_of_right_ne_nil _ (cons_ne_nil _ _)
  total := by
    have hjoin : joinTokens separatorTokens bulk.1 = separatorTokens :=
      if_neg fun hempty => h.ne_nil (List.isEmpty_iff.mp hempty)
    rw [nextTotal, hjoin, h.total, Bulk.tokens_append_singleton h.ne_nil]
    ring
  le := hfits

variable (baseTokens maxTokens separatorTokens) in
/-- What the balanced pass keeps of the items that it has gone through. -/
structure PlaceInv (items : List (T × ℤ)) (bulks : List (Bulk T × ℤ)) : Prop where
  perm : (bulks.map Prod.fst).flatten.Perm (items.filter (fitsAlone baseTokens maxTokens))
  bulk : ∀ bulk ∈ bulks, BulkInv baseTokens maxTokens separatorTokens bulk

theorem placeItem_inv {bulks : List (Bulk T × ℤ)}
    (h : PlaceInv baseTokens maxTokens separatorTokens items bulks) (item : T × ℤ) :
    PlaceInv baseTokens maxTokens separatorTokens (items ++ [item])
      (placeItem baseTokens maxTokens separatorTokens bulks item) := by
  unfold placeItem
  split
  · rename_i hover
    refine ⟨?_, h.bulk⟩
    rw [filter_fitsAlone_append, if_neg (not_le.mpr hover), List.append_nil]
    exact h.perm
  rename_i hfits
  have hkept : (items ++ [item]).filter (fitsAlone baseTokens maxTokens) =
      items.filter (fitsAlone baseTokens maxTokens) ++ [item] := by
    rw [filter_fitsAlone_append, if_pos (not_lt.mp hfits)]
  split
  · rename_i best hbest
    obtain ⟨bulk, hbulk, hroom⟩ := exists_of_bestBulk hbest
    have hlt : best.1 < bulks.length := (List.getElem?_eq_some_iff.mp hbulk).1
    obtain ⟨before, bulk', after, hbulks, hlength, hmodify⟩ :=
      exists_of_modify (fun bulk : Bulk T × ℤ =>
        (bulk.1 ++ [item], nextTotal separatorTokens item.2 bulk)) hlt
    obtain rfl : bulk' = bulk := by
      rw [hbulks, ← hlength, getElem?_append_right (Nat.le_refl _), Nat.sub_self] at hbulk
      exact Option.some_inj.mp hbulk
    rw [hmodify]
    subst hbulks
    constructor
    · -- The item moves from the end of its bulk to the end of all bulks.
      have hperm := h.perm
      rw [map_append, map_cons, flatten_append, flatten_cons] at hperm ⊢
      rw [hkept]
      refine List.Perm.trans ?_ (hperm.append_right [item])
      rw [List.append_assoc, List.append_assoc, List.append_assoc]
      exact (perm_append_comm.append_left _).append_left _
    · intro bulk hbulk
      rcases mem_append.mp hbulk with hbefore | hbulk
      · exact h.bulk bulk (mem_append_left _ hbefore)
      rcases mem_cons.mp hbulk with rfl | hafter
      · exact (h.bulk bulk' (mem_append_right _ mem_cons_self)).append hroom
      · exact h.bulk bulk (mem_append_right _ (mem_cons_of_mem _ hafter))
  · constructor
    · rw [map_append, flatten_append, hkept]
      exact h.perm.append (.of_eq (List.append_nil _))
    · intro bulk hbulk
      rcases mem_append.mp hbulk with hold | hnew
      · exact h.bulk bulk hold
      · cases mem_singleton.mp hnew
        exact ⟨cons_ne_nil _ _, by rw [Bulk.tokens_singleton], not_lt.mp hfits⟩

theorem foldl_placeItem_inv (items : List (T × ℤ)) :
    PlaceInv baseTokens maxTokens separatorTokens items
      (items.foldl (placeItem baseTokens maxTokens separatorTokens) []) := by
  induction items using List.reverseRecOn with
  | nil => exact ⟨.refl _, fun _ => nofun⟩
  | append_singleton items item ih =>
    rw [foldl_append, foldl_cons, foldl_nil]
    exact placeItem_inv ih item

theorem placeItems_packs (items : List (T × ℤ)) :
    Packs baseTokens maxTokens separatorTokens items
      ((placeItems baseTokens maxTokens separatorTokens items).map fst) := by
  have hinv := @foldl_placeItem_inv T baseTokens maxTokens separatorTokens
    (items.insertionSort fun item item' => item'.2 ≤ item.2)
  refine ⟨hinv.perm.trans ((perm_insertionSort _ items).filter _), ?_, ?_⟩
  · intro bulk hbulk
    obtain ⟨bulk, hmem, rfl⟩ := mem_map.mp hbulk
    exact (hinv.bulk bulk hmem).ne_nil
  · intro bulk hbulk
    obtain ⟨bulk, hmem, rfl⟩ := mem_map.mp hbulk
    exact (hinv.bulk bulk hmem).total ▸ (hinv.bulk bulk hmem).le

variable (tokens : TokenBatch)

theorem length_resolveItemTokenCounts (texts : List Text) (itemTokenCounts : Option (List ℤ)) :
    (resolveItemTokenCounts tokens texts itemTokenCounts).length = texts.length := by
  have hset : ∀ (found : List (ℕ × ℤ)) (resolved : List ℤ),
      (found.foldl (fun resolved found => resolved.set found.1 found.2) resolved).length =
        resolved.length := by
    intro found
    induction found with
    | nil => exact fun _ => rfl
    | cons e found ih => exact fun resolved => (ih _).trans length_set
  unfold resolveItemTokenCounts
  split
  · rename_i hempty
    exact congrArg List.length (List.isEmpty_iff.mp hempty).symm
  cases itemTokenCounts with
  | none => exact tokens.length_countTokensBatch texts
  | some counts =>
    dsimp only
    split
    · exact tokens.length_countTokensBatch texts
    · rename_i hlength
      split
      · exact not_not.mp hlength
      · rw [hset, not_not.mp hlength]

variable (transformFn : T → Text)
variable (itemTokenCounts : Option (List ℤ))

theorem map_fst_itemTokens (items : List T) :
    (itemTokens tokens transformFn itemTokenCounts items).map fst = items := by
  rw [itemTokens, map_fst_zip]
  rw [length_resolveItemTokenCounts, length_map]

/-- Counts of the items that are all positive are taken as they are. -/
theorem itemTokens_of_pos {counts : List ℤ}
    {items : List T} (hlength : counts.length = items.length) (hpos : ∀ count ∈ counts, 0 < count) :
    itemTokens tokens transformFn (some counts) items = items.zip counts := by
  cases items with
  | nil => rfl
  | cons item items =>
    have hmissing : (List.range counts.length).filter (fun index => counts.getD index 0 ≤ 0) =
        [] := by
      refine filter_eq_nil_iff.mpr fun index hindex => ?_
      have hlt := mem_range.mp hindex
      rw [decide_eq_true_iff, not_le, getD_eq_getElem?_getD,
        getElem?_eq_getElem hlt, Option.getD_some]
      exact hpos _ (getElem_mem hlt)
    have hresolved : resolveItemTokenCounts tokens ((item :: items).map transformFn) (some counts) =
        counts := by
      rw [resolveItemTokenCounts, map_cons, isEmpty_cons, if_neg Bool.false_ne_true]
      dsimp only
      rw [if_neg (not_not.mpr (by rw [hlength, length_cons, length_cons, length_map])), hmissing]
      rfl
    rw [itemTokens, hresolved]

/-- Nothing that fits is lost: the items with their tokens are split into bulks that are not empty
and keep the limit, and each item that fits a bulk of its own is in one of them. The pass in order
keeps the order. -/
theorem splits_packItems (tokens : TokenBatch) (transformFn : T → Text)
    (itemTokenCounts : Option (List ℤ)) (items : List T)
    (baseTokens maxTokens separatorTokens : ℤ) :
    (itemTokens tokens transformFn itemTokenCounts items).map Prod.fst = items ∧
    (∀ counts, itemTokenCounts = some counts → counts.length = items.length →
      (∀ count ∈ counts, 0 < count) →
      itemTokens tokens transformFn itemTokenCounts items = items.zip counts) ∧
    (∃ bulks : List (Bulk T),
      splitIntoBulks tokens items transformFn baseTokens maxTokens itemTokenCounts =
        bulks.map Bulk.items ∧
      Packs baseTokens maxTokens 0 (itemTokens tokens transformFn itemTokenCounts items) bulks ∧
      bulks.flatten = (itemTokens tokens transformFn itemTokenCounts items).filter
        (fitsAlone baseTokens maxTokens)) ∧
    ∃ bulks : List (Bulk T),
      splitIntoBulksBalanced tokens items transformFn baseTokens maxTokens itemTokenCounts
        separatorTokens = bulks.map Bulk.items ∧
      Packs baseTokens maxTokens separatorTokens
        (itemTokens tokens transformFn itemTokenCounts items) bulks := by
  refine ⟨map_fst_itemTokens tokens transformFn itemTokenCounts items, ?_,
    ⟨_, ?_, splitItems_packs _, flatten_splitItems _⟩, ⟨_, ?_, placeItems_packs _⟩⟩
  · rintro counts rfl
    exact itemTokens_of_pos tokens transformFn
  · cases items with
    | nil => rfl
    | cons item items => rfl
  · cases items with
    | nil => rfl
    | cons item items => exact (List.map_map).symm

end ClearYourTools.Pruners
