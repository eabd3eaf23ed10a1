import ClearYourTools.Pruners.Llm

/-!
# The scores of the LLM selector

An item is stored under the id of its chunk, and its score comes back by that id. An item that
gets no chunk is stored under the id of the next one, which takes its place.
-/

namespace ClearYourTools.Pruners

open Misc CytClient List

variable {φ : Type} {p : SelectorFormat φ} {data : Record φ}

/-- The best score that some answer gives an id, 0 if none does. -/
def bestAnswer (answers : List (Dict ℤ ℕ)) (id : ℤ) : ℕ :=
  (answers.map fun scores => (scores.get? id).getD 0).foldr max 0

theorem get?_mergeSelectorScores (merged bulkScores : Dict ℤ ℕ) (id : ℤ) :
    ((mergeSelectorScores merged bulkScores).get? id).getD 0 =
      max ((merged.get? id).getD 0) ((bulkScores.get? id).getD 0) := by
  have h := Dict.get?_foldl_set (fun old score => max (old.getD 0) score) bulkScores merged id
  unfold mergeSelectorScores raiseScore
  rw [h]
  cases bulkScores.get? id with
  | none => exact (Nat.max_zero _).symm
  | some score => rfl

theorem get?_foldl_mergeSelectorScores (answers : List (Dict ℤ ℕ)) (merged : Dict ℤ ℕ) (id : ℤ) :
    ((answers.foldl mergeSelectorScores merged).get? id).getD 0 =
      max ((merged.get? id).getD 0) (bestAnswer answers id) := by
  induction answers generalizing merged with
  | nil => exact (Nat.max_zero _).symm
  | cons scores answers ih =>
    rw [foldl_cons, ih, get?_mergeSelectorScores, Nat.max_assoc]
    rfl

theorem get?_runLlmSelectorBulks (answers : List (Dict ℤ ℕ)) (id : ℤ) :
    ((runLlmSelectorBulks answers).get? id).getD 0 = bestAnswer answers id := by
  rw [runLlmSelectorBulks, get?_foldl_mergeSelectorScores]
  exact Nat.zero_max _

variable {answers : List (Dict ℤ ℕ)}
variable {answers' : List (Dict ℤ ℕ)}

theorem bestAnswer_perm (h : answers.Perm answers') (id : ℤ) :
    bestAnswer answers id = bestAnswer answers' id :=
  (h.map _).foldr_eq' (fun a _ b _ best => Nat.max_left_comm b a best) 0

theorem restoreField_get? (item : Record φ) (key : Text) :
    restoreField item (key, Json.get? item key) = item := by
  unfold restoreField
  cases found : Json.get? item key with
  | none => rfl
  | some v =>
    by_cases hscore : key = scoreKey
    · cases v <;> simp [hscore]
    · have hset := Json.set_of_get? found
      cases v <;> simp [hscore, hset]

theorem restoreFields_eq (item : Record φ) (keys : List Text) :
    (keys.map fun k => (k, Json.get? item k)).foldl restoreField item = item := by
  induction keys with
  | nil => rfl
  | cons key keys ih => rw [map_cons, foldl_cons, restoreField_get?, ih]

theorem scoreStored_stored (key : ListKey) (item : Record φ) (score : ℕ) :
    scoreStored p (stored p key item) score = applyLlmChunkScore p item score := by
  unfold scoreStored stored
  rw [restoreFields_eq]

theorem applyLlmChunkScore_inj {item : Record φ} {score : ℕ}
    (h : applyLlmChunkScore p item score = applyLlmChunkScore p item 0) : score = 0 := by
  have hget := congrArg (fun item => Json.get? item scoreKey) h
  simp only [applyLlmChunkScore, Json.get?_set_self, Option.some.injEq, Json.float.injEq] at hget
  exact p.eq_zero_of_hundredth score hget

variable {key : ListKey}

theorem name_inj {key' : ListKey} (h : key.name = key'.name) : key = key' := by
  cases key <;> cases key' <;> first | rfl | exact absurd h (by decide)

variable (storage : Dict ℤ (Stored φ))

theorem get?_applySelectorIds (scores : Dict ℤ ℕ) (keys : List ListKey) (key : ListKey)
    (h : key ∈ keys) :
    Json.get? (applySelectorIdsToCatalog p data storage scores keys) key.name =
      some (.arr (newDataList p storage scores key)) := by
  have hget : ∀ (keys : List ListKey) (data : Record φ),
      Json.get? (applySelectorIdsToCatalog p data storage scores keys) key.name =
        if key ∈ keys then some (.arr (newDataList p storage scores key))
        else Json.get? data key.name := by
    intro keys
    induction keys with
    | nil => exact fun data => rfl
    | cons k keys ih =>
      intro data
      have hstep := ih (Json.set data k.name (.arr (newDataList p storage scores k)))
      rw [applySelectorIdsToCatalog, foldl_cons, ← applySelectorIdsToCatalog, hstep, Json.get?_set]
      by_cases hk : key = k
      · simp [hk]
      · have hname : key.name ≠ k.name := fun heq => hk (name_inj heq)
        simp [hk, hname]
  rw [hget, if_pos h]

variable {scores scores' : Dict ℤ ℕ}

section

variable (h : ∀ id, (scores.get? id).getD 0 = (scores'.get? id).getD 0)
include h

theorem newDataList_congr
    (key : ListKey) : newDataList p storage scores key = newDataList p storage scores' key := by
  unfold newDataList
  refine map_congr_left ?_
  intro e _
  rw [h]

theorem applySelectorIds_congr (keys : List ListKey) :
    applySelectorIdsToCatalog p data storage scores keys =
      applySelectorIdsToCatalog p data storage scores' keys := by
  unfold applySelectorIdsToCatalog
  congr 1
  funext data key
  rw [newDataList_congr storage h]

end

/-- An item that the loop visits, with the list it stands in. -/
structure Visit (φ : Type) where
  key : ListKey
  item : Record φ

namespace Visit

/-- The item of a list at which the loop does not pass by. -/
def of? (key : ListKey) : Json φ → Option (Visit φ)
  | .obj item => some ⟨key, item⟩
  | _ => none

def hasChunk (p : SelectorFormat φ) (v : Visit φ) : Bool :=
  Pruners.hasChunk p.toPyFormat v.key v.item

end Visit

/-- The dict items of a list of the catalog. -/
def dictItems (data : Record φ) (key : ListKey) : List (Visit φ) :=
  ((listItems data key).getD []).filterMap (Visit.of? key)

/-- What the loop visits, in its order. -/
def visits (p : SelectorFormat φ) (data : Record φ) : List (Visit φ) :=
  (listKeys data).flatMap fun key =>
    (sortedItems p.toPyFormat data key).filterMap (Visit.of? key)

/-- One turn of the loop. -/
def prepareVisit (p : SelectorFormat φ) (state : Prepared φ) (v : Visit φ) : Prepared φ :=
  prepareItem p v.key state (.obj v.item)

theorem foldl_prepareItem (key : ListKey) (items : List (Json φ)) (state : Prepared φ) :
    items.foldl (prepareItem p key) state =
      (items.filterMap (Visit.of? key)).foldl (prepareVisit p) state := by
  induction items generalizing state with
  | nil => rfl
  | cons item items ih =>
    rw [foldl_cons, ih]
    cases item <;> rfl

theorem prepare_eq_visits :
    (listKeys data).foldl (prepareList p data) Prepared.start =
      (visits p data).foldl (prepareVisit p) Prepared.start := by
  unfold visits
  rw [foldl_flatMap]
  congr 1
  funext state key
  exact foldl_prepareItem key _ state

/-- The visits, each with the chunk that its turn adds. -/
def traceFrom (p : SelectorFormat φ) (state : Prepared φ) :
    List (Visit φ) → List (Visit φ × Option Chunk)
  | [] => []
  | v :: vs =>
    let next := prepareVisit p state v
    (v, next.chunks[state.chunks.length]?) :: traceFrom p next vs

def trace (p : SelectorFormat φ) (data : Record φ) : List (Visit φ × Option Chunk) :=
  traceFrom p Prepared.start (visits p data)

theorem traceFrom_fst (state : Prepared φ) (vs : List (Visit φ)) :
    (traceFrom p state vs).map Prod.fst = vs := by
  induction vs generalizing state with
  | nil => rfl
  | cons v vs ih => rw [traceFrom, map_cons, ih]

variable {v : Visit φ}

theorem key_of_mem_of? {items : List (Json φ)} (h : v ∈ items.filterMap (Visit.of? key)) :
    v.key = key := by
  obtain ⟨item, -, hv⟩ := mem_filterMap.mp h
  cases item with
  | obj item =>
    cases hv
    rfl
  | _ => cases hv

theorem key_mem_of_mem_visits (h : v ∈ visits p data) : v.key ∈ listKeys data := by
  obtain ⟨key, hkey, hv⟩ := mem_flatMap.mp h
  rwa [key_of_mem_of? hv]

theorem filter_of? (key key' : ListKey) (items : List (Json φ)) :
    (items.filterMap (Visit.of? key)).filter (fun v => v.key == key') =
      if key = key' then items.filterMap (Visit.of? key) else [] := by
  by_cases heq : key = key'
  · rw [if_pos heq, filter_eq_self]
    intro v hv
    rw [key_of_mem_of? hv, heq, beq_self_eq_true]
  · rw [if_neg heq, filter_eq_nil_iff]
    intro v hv hkey
    exact heq ((key_of_mem_of? hv).symm.trans (beq_iff_eq.mp hkey))

theorem visits_perm_dictItems (hkey : key ∈ listKeys data) :
    ((visits p data).filter fun v => v.key == key).Perm (dictItems data key) := by
  have hnodup : (listKeys data).Nodup := List.Nodup.filter _ (by decide)
  have heq : (visits p data).filter (fun v => v.key == key) =
      (sortedItems p.toPyFormat data key).filterMap (Visit.of? key) := by
    unfold visits
    rw [filter_flatMap]
    obtain ⟨before, after, hsplit⟩ := append_of_mem hkey
    rw [hsplit] at hnodup ⊢
    have hother : ∀ keys : List ListKey, key ∉ keys → keys.flatMap (fun k =>
        ((sortedItems p.toPyFormat data k).filterMap (Visit.of? k)).filter
          fun v => v.key == key) = [] := by
      intro keys hnot
      rw [flatMap_eq_nil_iff]
      intro k hk
      rw [filter_of?, if_neg]
      rintro rfl
      exact hnot hk
    rw [nodup_append] at hnodup
    have hbefore : key ∉ before := fun hmem => hnodup.2.2 key hmem key mem_cons_self rfl
    rw [flatMap_append, flatMap_cons, hother before hbefore,
      hother after (nodup_cons.mp hnodup.2.1).1, filter_of?, if_pos rfl, List.append_nil,
      nil_append]
  rw [heq]
  exact (mergeSort_perm _ _).filterMap _

section

variable (state : Prepared φ)

theorem prepareVisit_storage (v : Visit φ) :
    (prepareVisit p state v).storage = state.storage.set state.nextId (stored p v.key v.item) := by
  unfold prepareVisit prepareItem
  dsimp only
  split <;> rfl

theorem prepareVisit_nextId (v : Visit φ) :
    (prepareVisit p state v).nextId =
      if v.hasChunk p = true then state.nextId + 1 else state.nextId := by
  unfold prepareVisit prepareItem Visit.hasChunk
  dsimp only
  split <;> rfl

theorem prepareVisit_chunks (v : Visit φ) :
    (prepareVisit p state v).chunks =
      if v.hasChunk p = true then state.chunks ++ [itemChunk p v.key v.item state.nextId]
      else state.chunks := by
  unfold prepareVisit prepareItem Visit.hasChunk
  dsimp only
  split <;> rfl

theorem getElem?_prepareVisit_chunks (v : Visit φ) :
    (prepareVisit p state v).chunks[state.chunks.length]? =
      if v.hasChunk p = true then some (itemChunk p v.key v.item state.nextId) else none := by
  rw [prepareVisit_chunks]
  split
  · exact getElem?_concat_length
  · exact getElem?_eq_none (le_refl _)

theorem traceFrom_append (vs ws : List (Visit φ)) :
    traceFrom p state (vs ++ ws) =
      traceFrom p state vs ++ traceFrom p (vs.foldl (prepareVisit p) state) ws := by
  induction vs generalizing state with
  | nil => rfl
  | cons v vs ih =>
    rw [List.cons_append, traceFrom, traceFrom, ih, List.cons_append, foldl_cons]

end

/-- The ids in use are below the next one. -/
def Below (state : Prepared φ) : Prop := ∀ id ∈ state.storage.keys, id < state.nextId

theorem below_start : Below (Prepared.start : Prepared φ) := by
  intro id hid
  cases hid

/-- Visits with the ids from `n` on. -/
def numberFrom (n : ℤ) : List (Visit φ) → List (ℤ × Visit φ)
  | [] => []
  | v :: vs => (n, v) :: numberFrom (n + 1) vs

/-- The entry of the storage for a numbered visit. -/
def storedEntry (p : SelectorFormat φ) (e : ℤ × Visit φ) : ℤ × Stored φ :=
  (e.1, stored p e.2.key e.2.item)

/-- The visit with the chunk of its number. -/
def chunkEntry (p : SelectorFormat φ) (e : ℤ × Visit φ) : Visit φ × Option Chunk :=
  (e.2, some (itemChunk p e.2.key e.2.item e.1))

variable {state : Prepared φ}

theorem entries_prepareVisit (h : Below state) (v : Visit φ) :
    (prepareVisit p state v).storage.entries =
      state.storage.entries ++ [storedEntry p (state.nextId, v)] := by
  rw [prepareVisit_storage, Dict.entries_set, Dict.setEntries_of_notMem]
  · rfl
  · intro hmem
    exact lt_irrefl _ (h _ hmem)

theorem Below.prepareVisit (h : Below state) (hv : v.hasChunk p = true) :
    Below (prepareVisit p state v) := by
  intro id hid
  rw [prepareVisit_nextId, if_pos hv]
  rw [Dict.keys, entries_prepareVisit h, map_append, mem_append] at hid
  rcases hid with hid | hid
  · exact (h id hid).trans (lt_add_one _)
  · rw [mem_singleton.mp hid]
    exact lt_add_one _

theorem run_of_hasChunk (h : Below state) {vs : List (Visit φ)}
    (hvs : ∀ v ∈ vs, v.hasChunk p = true) :
    Below (vs.foldl (prepareVisit p) state) ∧
      (vs.foldl (prepareVisit p) state).nextId = state.nextId + vs.length ∧
      (vs.foldl (prepareVisit p) state).storage.entries =
        state.storage.entries ++ (numberFrom state.nextId vs).map (storedEntry p) ∧
      traceFrom p state vs = (numberFrom state.nextId vs).map (chunkEntry p) := by
  induction vs generalizing state with
  | nil => exact ⟨h, (add_zero _).symm, (List.append_nil _).symm, rfl⟩
  | cons v vs ih =>
    have hv := hvs v mem_cons_self
    have hnext : (prepareVisit p state v).nextId = state.nextId + 1 := by
      rw [prepareVisit_nextId, if_pos hv]
    obtain ⟨hbelow, hid, hentries, htrace⟩ := ih (h.prepareVisit hv) fun w hw =>
      hvs w (mem_cons_of_mem v hw)
    rw [hnext] at hid hentries htrace
    refine ⟨hbelow, ?_, ?_, ?_⟩
    · rw [foldl_cons, hid, length_cons, Nat.cast_add]
      omega
    · rw [foldl_cons, hentries, entries_prepareVisit h, List.append_assoc, numberFrom]
      rfl
    · rw [traceFrom, htrace, getElem?_prepareVisit_chunks, if_pos hv, numberFrom]
      rfl

theorem length_prepareVisit_le (state : Prepared φ) (v : Visit φ) :
    (prepareVisit p state v).storage.entries.length ≤ state.storage.entries.length + 1 := by
  rw [prepareVisit_storage, Dict.entries_set, Dict.length_setEntries]
  split <;> omega

theorem length_run_le (state : Prepared φ) (vs : List (Visit φ)) :
    (vs.foldl (prepareVisit p) state).storage.entries.length ≤
      state.storage.entries.length + vs.length := by
  induction vs generalizing state with
  | nil => exact le_refl _
  | cons v vs ih =>
    have hv := length_prepareVisit_le (p := p) state v
    have hvs := ih (prepareVisit p state v)
    rw [foldl_cons, length_cons]
    omega

theorem length_prepareVisit_twice (state : Prepared φ) (hv : v.hasChunk p = false) (w : Visit φ) :
    (prepareVisit p (prepareVisit p state v) w).storage.entries.length ≤
      state.storage.entries.length + 1 := by
  have hnext : (prepareVisit p state v).nextId = state.nextId := by
    rw [prepareVisit_nextId, if_neg (by rw [hv]; exact Bool.false_ne_true)]
  have hmem : state.nextId ∈ (prepareVisit p state v).storage.entries.map Prod.fst := by
    rw [prepareVisit_storage]
    exact (Dict.mem_map_fst_setEntries _ _ _ _).mpr (.inl rfl)
  rw [prepareVisit_storage, hnext, Dict.entries_set, Dict.length_setEntries, if_pos hmem]
  exact length_prepareVisit_le state v

theorem length_run_lt {before after : List (Visit φ)} {v w : Visit φ} (hv : v.hasChunk p = false) :
    ((before ++ v :: w :: after).foldl (prepareVisit p) Prepared.start).storage.entries.length <
      (before ++ v :: w :: after).length := by
  have hbefore := length_run_le (p := p) Prepared.start before
  have hboth := length_prepareVisit_twice (before.foldl (prepareVisit p) Prepared.start) hv w
  have hafter := length_run_le (p := p)
    (prepareVisit p (prepareVisit p (before.foldl (prepareVisit p) Prepared.start) v) w) after
  have hstart : (Prepared.start : Prepared φ).storage.entries.length = 0 := rfl
  rw [foldl_append, foldl_cons, foldl_cons, length_append, length_cons, length_cons]
  omega

theorem stored_of_run (vs : List (Visit φ)) :
    ∀ e ∈ (vs.foldl (prepareVisit p) Prepared.start).storage.entries,
      ∃ v ∈ vs, e.2 = stored p v.key v.item := by
  induction vs using List.reverseRecOn with
  | nil =>
    intro e he
    cases he
  | append_singleton vs v ih =>
    intro e he
    rw [foldl_append, foldl_cons, foldl_nil, prepareVisit_storage] at he
    rcases Dict.mem_setEntries he with rfl | he
    · exact ⟨v, mem_append_right vs mem_cons_self, rfl⟩
    · obtain ⟨w, hw, heq⟩ := ih e he
      exact ⟨w, mem_append_left _ hw, heq⟩

theorem length_by_key {α : Type} (f : α → ListKey) (l : List α) :
    (l.filter fun a => f a == .json).length + (l.filter fun a => f a == .md).length = l.length := by
  induction l with
  | nil => rfl
  | cons a l ih =>
    rw [filter_cons, filter_cons]
    cases f a <;> simp <;> omega

/-- The score that the answers give the id in the chunk of an item, 0 if there is no chunk. -/
def ownScore (answers : List (Dict ℤ ℕ)) (chunk : Option Chunk) : ℕ :=
  chunk.elim 0 fun c => bestAnswer answers c.id

/-- A visited item with the score of its own chunk. -/
def scoredItem (p : SelectorFormat φ) (answers : List (Dict ℤ ℕ)) (t : Visit φ × Option Chunk) :
    Json φ :=
  .obj (applyLlmChunkScore p t.1.item (ownScore answers t.2))

/-- The selector returns every dict item of the lists once, in its own list, with the score of
its own chunk, whatever the order of the bulks. -/
structure SelectsAll (p : SelectorFormat φ) (data : Record φ) (answers : List (Dict ℤ ℕ)) :
    Prop where
  visited : ∀ key ∈ listKeys data,
    (((trace p data).filter fun t => t.1.key == key).map Prod.fst).Perm (dictItems data key)
  lists : ∀ key ∈ listKeys data, ∃ result items,
    selectCatalog p data answers = some result ∧
      Json.get? result key.name = some (.arr items) ∧
      items.Perm (((trace p data).filter fun t => t.1.key == key).map (scoredItem p answers))
  order : ∀ answers', answers.Perm answers' →
    selectCatalog p data answers' = selectCatalog p data answers

/-- Only the item that the loop visits last can be without a chunk, and then no answer scores
the id behind those of the chunks. -/
def ChunkedButLast (p : SelectorFormat φ) (data : Record φ) (answers : List (Dict ℤ ℕ)) : Prop :=
  ∀ before v after, visits p data = before ++ v :: after → v.hasChunk p = false →
    after = [] ∧ bestAnswer answers (before.length + 1) = 0

/-- What the loop leaves of the catalog. -/
def finalState (p : SelectorFormat φ) (data : Record φ) : Prepared φ :=
  (visits p data).foldl (prepareVisit p) Prepared.start

theorem selectCatalog_eq (answers : List (Dict ℤ ℕ)) (h : listKeys data ≠ []) :
    selectCatalog p data answers = some (applySelectorIdsToCatalog p data
      (finalState p data).storage (runLlmSelectorBulks answers) (listKeys data)) := by
  unfold selectCatalog prepareCatalogSelectorChunks finalState
  rw [if_neg h, prepare_eq_visits]
  rfl

theorem selectCatalog_perm (h : answers.Perm answers') :
    selectCatalog p data answers' = selectCatalog p data answers := by
  unfold selectCatalog
  congr 1
  funext prepared
  refine applySelectorIds_congr _ ?_ _
  intro id
  rw [get?_runLlmSelectorBulks, get?_runLlmSelectorBulks, bestAnswer_perm h]

theorem trace_perm_dictItems (hkey : key ∈ listKeys data) :
    (((trace p data).filter fun t => t.1.key == key).map Prod.fst).Perm (dictItems data key) := by
  have heq : ((trace p data).filter fun t => t.1.key == key).map Prod.fst =
      (visits p data).filter fun v => v.key == key := by
    conv => rhs; rw [← traceFrom_fst (p := p) Prepared.start (visits p data)]
    rw [filter_map]
    rfl
  rw [heq]
  exact visits_perm_dictItems hkey

theorem selected_items (hkey : key ∈ listKeys data) {result : Record φ} {items : List (Json φ)}
    (hresult : selectCatalog p data answers = some result)
    (hitems : Json.get? result key.name = some (.arr items)) :
    items = newDataList p (finalState p data).storage (runLlmSelectorBulks answers) key := by
  rw [selectCatalog_eq answers (ne_nil_of_mem hkey)] at hresult
  cases hresult
  rw [get?_applySelectorIds _ _ _ _ hkey] at hitems
  cases hitems
  rfl

/-- The list that numbered visits give. -/
def numberedItems (p : SelectorFormat φ) (answers : List (Dict ℤ ℕ)) (key : ListKey)
    (es : List (ℤ × Visit φ)) : List (Json φ) :=
  (es.filter fun e => e.2.key == key).map fun e =>
    .obj (applyLlmChunkScore p e.2.item (bestAnswer answers e.1))

theorem newDataList_numbered {storage : Dict ℤ (Stored φ)} {es : List (ℤ × Visit φ)}
    (h : storage.entries = es.map (storedEntry p)) (answers : List (Dict ℤ ℕ)) (key : ListKey) :
    newDataList p storage (runLlmSelectorBulks answers) key = numberedItems p answers key es := by
  unfold newDataList numberedItems
  rw [h, filter_map, List.map_map]
  refine map_congr_left ?_
  intro e _
  rw [Function.comp_apply, get?_runLlmSelectorBulks, storedEntry, scoreStored_stored]

theorem scoredItems_numbered (answers : List (Dict ℤ ℕ)) (key : ListKey) (es : List (ℤ × Visit φ)) :
    ((es.map (chunkEntry p)).filter fun t => t.1.key == key).map (scoredItem p answers) =
      numberedItems p answers key es := by
  unfold numberedItems
  rw [filter_map, List.map_map]
  rfl

/-- The chunk of the item that is visited last. -/
def lastChunk (p : SelectorFormat φ) (id : ℤ) (v : Visit φ) : Option Chunk :=
  if v.hasChunk p = true then some (itemChunk p v.key v.item id) else none

variable {before : List (Visit φ)}

theorem run_of_last (hvisits : visits p data = before ++ [v])
    (hbefore : ∀ w ∈ before, w.hasChunk p = true) :
    (finalState p data).storage.entries =
        (numberFrom 1 before ++ [((before.length : ℤ) + 1, v)]).map (storedEntry p) ∧
      trace p data = (numberFrom 1 before).map (chunkEntry p) ++
        [(v, lastChunk p (before.length + 1) v)] := by
  obtain ⟨hbelow, hid, hentries, htrace⟩ := run_of_hasChunk below_start hbefore
  have hid : (before.foldl (prepareVisit p) Prepared.start).nextId = (before.length : ℤ) + 1 := by
    rw [hid]
    exact add_comm _ _
  constructor
  · unfold finalState
    rw [hvisits, foldl_append, foldl_cons, foldl_nil, entries_prepareVisit hbelow,
      hentries, hid, map_append]
    rfl
  · unfold trace
    rw [hvisits, traceFrom_append, htrace, traceFrom, traceFrom, getElem?_prepareVisit_chunks, hid]
    rfl

theorem lists_of_last (hvisits : visits p data = before ++ [v])
    (hbefore : ∀ w ∈ before, w.hasChunk p = true) (answers : List (Dict ℤ ℕ)) (key : ListKey) :
    newDataList p (finalState p data).storage (runLlmSelectorBulks answers) key =
        numberedItems p answers key (numberFrom 1 before) ++
          numberedItems p answers key [((before.length : ℤ) + 1, v)] ∧
      ((trace p data).filter fun t => t.1.key == key).map (scoredItem p answers) =
        numberedItems p answers key (numberFrom 1 before) ++
          ([(v, lastChunk p (before.length + 1) v)].filter fun t => t.1.key == key).map
            (scoredItem p answers) := by
  obtain ⟨hentries, htrace⟩ := run_of_last hvisits hbefore
  constructor
  · rw [newDataList_numbered hentries, numberedItems, filter_append, map_append]
    rfl
  · rw [htrace, filter_append, map_append, scoredItems_numbered]

theorem numberedItems_singleton (answers : List (Dict ℤ ℕ)) (id : ℤ) (v : Visit φ) :
    numberedItems p answers v.key [(id, v)] =
      [.obj (applyLlmChunkScore p v.item (bestAnswer answers id))] := by
  unfold numberedItems
  rw [filter_cons, if_pos (beq_self_eq_true _)]
  rfl

theorem scoredItems_singleton (answers : List (Dict ℤ ℕ)) (t : Visit φ × Option Chunk) :
    ([t].filter fun t' => t'.1.key == t.1.key).map (scoredItem p answers) =
      [scoredItem p answers t] := by
  rw [filter_cons, if_pos (beq_self_eq_true _)]
  rfl

theorem last_item_iff (answers : List (Dict ℤ ℕ)) (id : ℤ) (v : Visit φ) :
    Json.obj (applyLlmChunkScore p v.item (bestAnswer answers id)) =
        scoredItem p answers (v, lastChunk p id v) ↔
      (v.hasChunk p = false → bestAnswer answers id = 0) := by
  unfold scoredItem lastChunk
  cases hv : v.hasChunk p with
  | true =>
    rw [if_pos rfl]
    exact ⟨fun _ h => (Bool.noConfusion h), fun _ => rfl⟩
  | false =>
    rw [if_neg Bool.false_ne_true]
    constructor
    · intro h _
      injection h with h
      exact applyLlmChunkScore_inj h
    · intro h
      rw [h rfl]
      rfl

/-- Where no item is lost, every item that has another behind it has a chunk. -/
theorem hasChunk_of_length (h : SelectsAll p data answers) {after : List (Visit φ)} {w : Visit φ}
    (hvisits : visits p data = before ++ v :: w :: after) : v.hasChunk p = true := by
  by_contra hv
  have hlost := @length_run_lt _ p before after v w (Bool.eq_false_of_not_eq_true hv)
  rw [← hvisits] at hlost
  -- a list has as many items in the storage as in the trace
  have hkey : ∀ key, ((finalState p data).storage.entries.filter fun e => e.2.key == key).length =
      ((visits p data).filter fun v => v.key == key).length := by
    intro key
    by_cases hmem : key ∈ listKeys data
    · obtain ⟨result, items, hresult, hitems, hperm⟩ := h.lists key hmem
      have hlen := hperm.length_eq
      have htrace := (h.visited key hmem).length_eq
      rw [selected_items hmem hresult hitems, newDataList, length_map, length_map] at hlen
      rw [length_map] at htrace
      rw [hlen, htrace, (visits_perm_dictItems hmem).length_eq]
    · have hstored : (finalState p data).storage.entries.filter (fun e => e.2.key == key) = [] := by
        rw [filter_eq_nil_iff]
        intro e he heq
        obtain ⟨v, hv, hstored⟩ := stored_of_run _ e he
        rw [hstored] at heq
        exact hmem (by rw [← beq_iff_eq.mp heq]; exact key_mem_of_mem_visits hv)
      have hwalked : (visits p data).filter (fun v => v.key == key) = [] := by
        rw [filter_eq_nil_iff]
        intro v hv heq
        exact hmem (by rw [← beq_iff_eq.mp heq]; exact key_mem_of_mem_visits hv)
      rw [hstored, hwalked]
      rfl
  have hstored := length_by_key (fun e : ℤ × Stored φ => e.2.key)
    (finalState p data).storage.entries
  have hwalked := length_by_key Visit.key (visits p data)
  rw [hkey, hkey, hwalked] at hstored
  unfold finalState at hstored
  omega

/-- The selector keeps every item with the score of its own chunk exactly when only the item
visited last can be without a chunk, and then nothing is said of the id that it would have. -/
theorem selectsAll_iff (p : SelectorFormat φ) (data : Record φ) (answers : List (Dict ℤ ℕ)) :
    SelectsAll p data answers ↔ ChunkedButLast p data answers := by
  constructor
  · intro h before v after hvisits hv
    cases after with
    | cons w after =>
      rw [hasChunk_of_length h hvisits] at hv
      cases hv
    | nil =>
      refine ⟨rfl, ?_⟩
      have hbefore : ∀ w ∈ before, w.hasChunk p = true := by
        intro w hw
        obtain ⟨first, last, rfl⟩ := append_of_mem hw
        rw [List.append_assoc, List.cons_append] at hvisits
        cases last with
        | nil => exact hasChunk_of_length h hvisits
        | cons w' last => exact hasChunk_of_length h hvisits
      have hlast : v ∈ visits p data := by
        rw [hvisits]
        exact mem_append_right before mem_cons_self
      have hmem := key_mem_of_mem_visits hlast
      obtain ⟨result, items, hresult, hitems, hperm⟩ := h.lists v.key hmem
      obtain ⟨hactual, hexpected⟩ := lists_of_last hvisits hbefore answers v.key
      rw [selected_items hmem hresult hitems, hactual, hexpected, perm_append_left_iff,
        numberedItems_singleton, scoredItems_singleton answers (v, _), perm_singleton] at hperm
      injection hperm with hperm
      exact (last_item_iff answers _ v).mp hperm hv
  · intro h
    refine ⟨fun key hkey => trace_perm_dictItems hkey, ?_, fun answers' => selectCatalog_perm⟩
    intro key hkey
    refine ⟨_, _, selectCatalog_eq answers (ne_nil_of_mem hkey),
      get?_applySelectorIds _ _ _ _ hkey, ?_⟩
    rcases eq_nil_or_concat (visits p data) with hnil | ⟨before, v, hvisits⟩
    · unfold finalState trace newDataList
      rw [hnil]
      exact List.Perm.refl _
    rw [concat_eq_append] at hvisits
    have hbefore : ∀ w ∈ before, w.hasChunk p = true := by
      intro w hw
      by_contra hnot
      obtain ⟨first, last, rfl⟩ := append_of_mem hw
      rw [List.append_assoc, List.cons_append] at hvisits
      have hnil := (h first w _ hvisits (Bool.eq_false_of_not_eq_true hnot)).1
      exact append_ne_nil_of_right_ne_nil last (cons_ne_nil v []) hnil
    obtain ⟨hactual, hexpected⟩ := lists_of_last hvisits hbefore answers key
    rw [hactual, hexpected]
    by_cases heq : v.key = key
    · subst heq
      rw [numberedItems_singleton, scoredItems_singleton answers (v, _),
        (last_item_iff answers _ v).mpr fun hv => (h before v [] hvisits hv).2]
    · have hne : (v.key == key) = false := beq_false_of_ne heq
      unfold numberedItems
      rw [filter_cons, filter_cons, hne]
      exact List.Perm.refl _

/-- Scores in hundredths. -/
def hundredths : SelectorFormat ℕ where
  repr n := Text.ofNat (n / 100) ++ ['.', Nat.digitChar (n / 10 % 10), Nat.digitChar (n % 10)]
  read _ := none
  isZero n := n == 0
  strOther _ := []
  toInt
    | .int n => some n
    | .bool b => some b.toNat
    | _ => none
  hundredth n := n
  eq_zero_of_hundredth _ h := h

/-- A tool without a path, and a chunk with one. -/
def pathlessCatalog : Record ℕ :=
  [("json", .arr [.obj [("name", .str "read_file")]]),
    ("md", .arr [.obj [(filePathKey, .str "read_file.md")]])]

theorem visits_pathlessCatalog : visits hundredths pathlessCatalog =
    [⟨.json, [("name", .str "read_file")]⟩, ⟨.md, [(filePathKey, .str "read_file.md")]⟩] := by
  have hkeys : listKeys pathlessCatalog = [.json, .md] := rfl
  have hjson : listItems pathlessCatalog .json = some [.obj [("name", .str "read_file")]] := rfl
  have hmd : listItems pathlessCatalog .md = some [.obj [(filePathKey, .str "read_file.md")]] := rfl
  unfold visits sortedItems
  rw [hkeys, flatMap_cons, flatMap_cons, hjson, hmd, Option.getD_some, Option.getD_some,
    mergeSort_singleton, mergeSort_singleton]
  rfl

/-- The tool is stored under the id of the chunk, which takes its place. -/
theorem pathlessCatalog_lost : ¬ SelectsAll hundredths pathlessCatalog [] := by
  intro h
  have hvisits : visits hundredths pathlessCatalog = [] ++ _ :: _ :: [] := visits_pathlessCatalog
  exact absurd (hasChunk_of_length h hvisits) (by decide)

end ClearYourTools.Pruners
