import ClearYourTools.Proxy.Stats

/-!
# The rollup of the requests

`rollup_historical` on the list of the requests: those of a group that is merged are taken out, and
one request for each such group is added at the end.
-/

namespace ClearYourTools.Proxy.Stats

open Misc List Option
open Prod (snd fst)

/-- A model of a request and its token counts. -/
abbrev ModelCounts : Type := ModelKey × List (TokenKey × ℤ)

/-- A request with all its rows, without their ids. -/
structure Request where
  columns : ProxyColumns
  models : List ModelCounts

/-- The counts of a model request. -/
def countsOf (db : StatsDb) (modelId : ℕ) : List (TokenKey × ℤ) :=
  (tokensOf db modelId).map fun row => (row.toTokenKey, row.tokens)

/-- The models of a request with their counts. -/
def treeOf (db : StatsDb) (proxyId : ℕ) : List ModelCounts :=
  (modelsOf db proxyId).map fun row => (row.toModelKey, countsOf db row.id)

def requestOf (db : StatsDb) (row : ProxyRow) : Request := ⟨row.toProxyColumns, treeOf db row.id⟩

def requests (db : StatsDb) : List Request := db.proxyRequest.map (requestOf db)

/-- Ids are drawn once, and each row belongs to a row whose id was drawn before. -/
structure WellFormed (db : StatsDb) : Prop where
  proxyIds_nodup : (db.proxyRequest.map ProxyRow.id).Nodup
  proxyId_lt : ∀ row ∈ db.proxyRequest, row.id < db.nextId
  modelIds_nodup : (db.modelRequest.map ModelRow.id).Nodup
  modelId_lt : ∀ row ∈ db.modelRequest, row.id < db.nextId
  proxyRequestId_lt : ∀ row ∈ db.modelRequest, row.proxyRequestId < db.nextId
  modelRequestId_lt : ∀ row ∈ db.tokens, row.modelRequestId < db.nextId

theorem wellFormed_empty : WellFormed .empty where
  proxyIds_nodup := nodup_nil
  proxyId_lt := nofun
  modelIds_nodup := nodup_nil
  modelId_lt := nofun
  proxyRequestId_lt := nofun
  modelRequestId_lt := nofun

/-- What is stored of the token rows of a record. -/
def ModelRequestRecord.stored (record : ModelRequestRecord) : ModelCounts :=
  (record.toModelKey, (record.tokenRows.filter fun row =>
    decide (row.tokens ≠ 0 ∧ ¬(row.tokens < 0 ∧ row.isSaved = false))).map fun row =>
      (row.toTokenKey, row.tokens))

theorem foldl_insertTokenRow (modelId : ℕ) (rows : List TokenRecord) (db : StatsDb) :
    ∃ added nextId, rows.foldl (insertTokenRow modelId) db =
        { db with tokens := db.tokens ++ added, nextId := nextId } ∧ db.nextId ≤ nextId ∧
      (∀ row ∈ added, row.modelRequestId = modelId) ∧
      added.map (fun row => (row.toTokenKey, row.tokens)) =
        (rows.filter fun row =>
          decide (row.tokens ≠ 0 ∧ ¬(row.tokens < 0 ∧ row.isSaved = false))).map fun row =>
            (row.toTokenKey, row.tokens) := by
  induction rows generalizing db with
  | nil => exact ⟨[], db.nextId, by rw [List.append_nil, foldl_nil], le_refl _, nofun, rfl⟩
  | cons row rows ih =>
    rw [foldl_cons, insertTokenRow]
    split
    · rename_i hzero
      obtain ⟨added, nextId, hfold, hle, hids, hadded⟩ := ih db
      refine ⟨added, nextId, hfold, hle, hids, hadded.trans ?_⟩
      rw [filter_cons_of_neg]
      exact fun h => (of_decide_eq_true h).1 hzero
    · rename_i hzero
      split
      · rename_i hnegative
        obtain ⟨added, nextId, hfold, hle, hids, hadded⟩ := ih db
        refine ⟨added, nextId, hfold, hle, hids, hadded.trans ?_⟩
        rw [filter_cons_of_neg]
        exact fun h => (of_decide_eq_true h).2 hnegative
      · rename_i hnegative
        obtain ⟨added, nextId, hfold, hle, hids, hadded⟩ := ih
          { db with
            tokens := db.tokens ++ [⟨row.toTokenKey, db.nextId, modelId, row.tokens⟩]
            nextId := db.nextId + 1 }
        refine ⟨⟨row.toTokenKey, db.nextId, modelId, row.tokens⟩ :: added, nextId, ?_,
          Nat.le_of_succ_le hle, ?_, ?_⟩
        · rw [hfold, List.append_assoc]
          rfl
        · exact forall_mem_cons.mpr ⟨rfl, hids⟩
        · rw [map_cons, hadded, filter_cons_of_pos, map_cons]
          exact decide_eq_true ⟨hzero, hnegative⟩

theorem filter_modelRequestId {added : List TokenRow} {modelId : ℕ} (id : ℕ)
    (hadded : ∀ row ∈ added, row.modelRequestId = modelId) :
    (added.filter fun row => row.modelRequestId == id) = if id = modelId then added else [] := by
  split
  · rename_i heq
    exact filter_eq_self.mpr fun row hrow => beq_iff_eq.mpr ((hadded row hrow).trans heq.symm)
  · rename_i hne
    refine filter_eq_nil_iff.mpr fun row hrow heq => hne ?_
    exact (beq_iff_eq.mp heq).symm.trans (hadded row hrow)

variable {db : StatsDb} {id : ℕ}

theorem countsOf_fresh (hdb : WellFormed db) (hid : db.nextId ≤ id) : countsOf db id = [] := by
  have hnone : tokensOf db id = [] := by
    refine filter_eq_nil_iff.mpr fun row hrow heq => ?_
    have hlt := hdb.modelRequestId_lt row hrow
    rw [beq_iff_eq.mp heq] at hlt
    omega
  rw [countsOf, hnone]
  rfl

theorem treeOf_fresh (hdb : WellFormed db) (hid : db.nextId ≤ id) : treeOf db id = [] := by
  have hnone : modelsOf db id = [] := by
    refine filter_eq_nil_iff.mpr fun row hrow heq => ?_
    have hlt := hdb.proxyRequestId_lt row hrow
    rw [beq_iff_eq.mp heq] at hlt
    omega
  rw [treeOf, hnone]
  rfl

/-- What an insertion that adds models to a request keeps and does. -/
structure AddsModels (proxyId : ℕ) (models : List ModelCounts) (db db' : StatsDb) : Prop where
  wellFormed : WellFormed db'
  proxyRequest : db'.proxyRequest = db.proxyRequest
  nextId_le : db.nextId ≤ db'.nextId
  treeOf : ∀ id, treeOf db' id = treeOf db id ++ if id = proxyId then models else []

theorem insertModelRequest_adds (hdb : WellFormed db) {proxyId : ℕ} (hproxy : proxyId < db.nextId)
    (record : ModelRequestRecord) :
    AddsModels proxyId [record.stored] db (insertModelRequest proxyId db record) := by
  obtain ⟨added, nextId, hfold, hle, hids, hadded⟩ := foldl_insertTokenRow db.nextId
    record.tokenRows
    { db with
      modelRequest := db.modelRequest ++ [⟨record.toModelKey, db.nextId, proxyId⟩]
      nextId := db.nextId + 1 }
  have hlt : db.nextId < nextId := hle
  have hcounts : ∀ id, countsOf (insertModelRequest proxyId db record) id =
      countsOf db id ++ if id = db.nextId then record.stored.2 else [] := by
    intro id
    rw [countsOf, insertModelRequest, hfold, tokensOf, filter_append, map_append,
      filter_modelRequestId id hids]
    split
    · rw [hadded]
      rfl
    · rfl
  constructor
  · rw [insertModelRequest, hfold]
    constructor
    · exact hdb.proxyIds_nodup
    · exact fun row hrow => (hdb.proxyId_lt row hrow).trans hlt
    · show ((db.modelRequest ++ [_]).map ModelRow.id).Nodup
      rw [map_append, map_singleton]
      refine List.Nodup.append hdb.modelIds_nodup (nodup_singleton _) ?_
      intro id hid hnew
      obtain ⟨row, hrow, rfl⟩ := List.mem_map.mp hid
      exact (hdb.modelId_lt row hrow).ne (mem_singleton.mp hnew)
    · refine forall_mem_append.mpr ⟨fun row hrow => (hdb.modelId_lt row hrow).trans hlt, ?_⟩
      exact forall_mem_singleton.mpr hlt
    · refine forall_mem_append.mpr
        ⟨fun row hrow => (hdb.proxyRequestId_lt row hrow).trans hlt, ?_⟩
      exact forall_mem_singleton.mpr (hproxy.trans hlt)
    · refine forall_mem_append.mpr
        ⟨fun row hrow => (hdb.modelRequestId_lt row hrow).trans hlt, fun row hrow => ?_⟩
      exact lt_of_eq_of_lt (hids row hrow) hlt
  · rw [insertModelRequest, hfold]
  · rw [insertModelRequest, hfold]
    exact hlt.le
  · intro id
    have hmodels : modelsOf (insertModelRequest proxyId db record) id =
        modelsOf db id ++ if id = proxyId then [⟨record.toModelKey, db.nextId, proxyId⟩] else [] := by
      rw [insertModelRequest, hfold, modelsOf, filter_append, filter_singleton]
      by_cases hid : id = proxyId
      · rw [if_pos hid, hid, beq_self_eq_true]
        rfl
      · rw [if_neg hid, beq_false_of_ne fun h => hid h.symm]
        rfl
    rw [treeOf, hmodels, map_append]
    congr 1
    · refine map_congr_left fun row hrow => ?_
      have hrowId := hdb.modelId_lt row (mem_of_mem_filter hrow)
      rw [hcounts, if_neg hrowId.ne, List.append_nil]
    · split
      · rw [map_singleton, hcounts, if_pos rfl, countsOf_fresh hdb (le_refl _), nil_append]
        rfl
      · rfl

theorem foldl_insertModelRequest {proxyId : ℕ} (records : List ModelRequestRecord)
    (hdb : WellFormed db) (hproxy : proxyId < db.nextId) :
    AddsModels proxyId (records.map ModelRequestRecord.stored) db
      (records.foldl (insertModelRequest proxyId) db) := by
  induction records generalizing db with
  | nil => exact ⟨hdb, rfl, le_refl _, fun id => by
      rw [map_nil, ite_self, List.append_nil, foldl_nil]⟩
  | cons record records ih =>
    have hfirst := insertModelRequest_adds hdb hproxy record
    have hrest := ih hfirst.wellFormed (hproxy.trans_le hfirst.nextId_le)
    refine ⟨hrest.wellFormed, hrest.proxyRequest.trans hfirst.proxyRequest,
      hfirst.nextId_le.trans hrest.nextId_le, fun id => ?_⟩
    rw [foldl_cons, hrest.treeOf, hfirst.treeOf, List.append_assoc]
    split <;> rfl

/-- What an insertion that adds a request keeps and does. -/
structure AddsRequest (request : Request) (db db' : StatsDb) : Prop where
  wellFormed : WellFormed db'
  proxyRequest : db'.proxyRequest = db.proxyRequest ++ [⟨request.columns, db.nextId⟩]
  treeOf_old : ∀ id < db.nextId, treeOf db' id = treeOf db id
  treeOf_new : treeOf db' db.nextId = request.models

theorem insertRequest_adds (hdb : WellFormed db) (columns : ProxyColumns)
    (records : List ModelRequestRecord) :
    AddsRequest ⟨columns, records.map ModelRequestRecord.stored⟩ db
      (insertRequest columns records db) := by
  have hrow : WellFormed
      { db with
        proxyRequest := db.proxyRequest ++ [⟨columns, db.nextId⟩]
        nextId := db.nextId + 1 } := by
    constructor
    · show ((db.proxyRequest ++ [_]).map ProxyRow.id).Nodup
      rw [map_append, map_singleton]
      refine List.Nodup.append hdb.proxyIds_nodup (nodup_singleton _) ?_
      intro id hid hnew
      obtain ⟨row, hrow, rfl⟩ := List.mem_map.mp hid
      exact (hdb.proxyId_lt row hrow).ne (mem_singleton.mp hnew)
    · refine forall_mem_append.mpr ⟨fun row hrow => (hdb.proxyId_lt row hrow).trans ?_, ?_⟩
      · exact Nat.lt_succ_self _
      · exact forall_mem_singleton.mpr (Nat.lt_succ_self _)
    · exact hdb.modelIds_nodup
    · exact fun row hrow => (hdb.modelId_lt row hrow).trans (Nat.lt_succ_self _)
    · exact fun row hrow => (hdb.proxyRequestId_lt row hrow).trans (Nat.lt_succ_self _)
    · exact fun row hrow => (hdb.modelRequestId_lt row hrow).trans (Nat.lt_succ_self _)
  have hadds := foldl_insertModelRequest records hrow (Nat.lt_succ_self db.nextId)
  refine ⟨hadds.wellFormed, hadds.proxyRequest, fun id hid => ?_, ?_⟩
  · rw [insertRequest, hadds.treeOf, if_neg hid.ne, List.append_nil]
    rfl
  · rw [insertRequest, hadds.treeOf, if_pos rfl]
    show treeOf db db.nextId ++ _ = _
    rw [treeOf_fresh hdb (le_refl _), nil_append]

theorem requests_of_adds {db' : StatsDb} {request : Request} (hdb : WellFormed db)
    (hadds : AddsRequest request db db') : requests db' = requests db ++ [request] := by
  rw [requests, hadds.proxyRequest, map_append, map_singleton]
  congr 1
  · refine map_congr_left fun row hrow => ?_
    rw [requestOf, hadds.treeOf_old row.id (hdb.proxyId_lt row hrow)]
    rfl
  · rw [requestOf, hadds.treeOf_new]

theorem treeOf_deleteProxyTree (hdb : WellFormed db) (proxyIds : List ℕ) (hid : id ∉ proxyIds) :
    treeOf (deleteProxyTree proxyIds db) id = treeOf db id := by
  have hkept : ∀ row ∈ modelsOf db id, row.id ∉
      (db.modelRequest.filter fun row => proxyIds.contains row.proxyRequestId).map ModelRow.id := by
    intro row hrow hdeleted
    obtain ⟨hmem, howner⟩ := mem_filter.mp hrow
    obtain ⟨other, hother, heq⟩ := List.mem_map.mp hdeleted
    obtain ⟨hotherMem, hotherOwner⟩ := mem_filter.mp hother
    cases inj_on_of_nodup_map hdb.modelIds_nodup hotherMem hmem heq
    rw [beq_iff_eq.mp howner] at hotherOwner
    exact hid (contains_iff_mem.mp hotherOwner)
  have hmodels : modelsOf (deleteProxyTree proxyIds db) id = modelsOf db id := by
    show List.filter _ (List.filter _ db.modelRequest) = _
    rw [List.filter_filter]
    refine filter_congr fun row hrow => ?_
    cases howner : row.proxyRequestId == id with
    | false => rfl
    | true =>
      have hnot := hkept row (mem_filter.mpr ⟨hrow, howner⟩)
      rw [Bool.true_and, Bool.not_eq_true', ← Bool.not_eq_true, contains_iff_mem]
      exact hnot
  rw [treeOf, hmodels]
  refine map_congr_left fun row hrow => ?_
  have hcounts : tokensOf (deleteProxyTree proxyIds db) row.id = tokensOf db row.id := by
    show List.filter _ (List.filter _ db.tokens) = _
    rw [List.filter_filter]
    refine filter_congr fun token _ => ?_
    cases howner : token.modelRequestId == row.id with
    | false => rfl
    | true =>
      rw [Bool.true_and, Bool.not_eq_true', ← Bool.not_eq_true, contains_iff_mem,
        beq_iff_eq.mp howner]
      exact hkept row hrow
  rw [countsOf, hcounts]
  rfl

theorem wellFormed_deleteProxyTree (hdb : WellFormed db) (proxyIds : List ℕ) :
    WellFormed (deleteProxyTree proxyIds db) where
  proxyIds_nodup := hdb.proxyIds_nodup.sublist (filter_sublist.map _)
  proxyId_lt row hrow := hdb.proxyId_lt row (mem_of_mem_filter hrow)
  modelIds_nodup := hdb.modelIds_nodup.sublist (filter_sublist.map _)
  modelId_lt row hrow := hdb.modelId_lt row (mem_of_mem_filter hrow)
  proxyRequestId_lt row hrow := hdb.proxyRequestId_lt row (mem_of_mem_filter hrow)
  modelRequestId_lt row hrow := hdb.modelRequestId_lt row (mem_of_mem_filter hrow)

def addModelCounts (models : Dict ModelKey (Dict TokenKey ℤ)) (model : ModelCounts) :
    Dict ModelKey (Dict TokenKey ℤ) :=
  models.set model.1 (addSums ((models.get? model.1).getD .empty) model.2)

variable (models : List ModelCounts)

/-- The map of the models of some requests. -/
def mergedModels : Dict ModelKey (Dict TokenKey ℤ) := models.foldl addModelCounts .empty

theorem addTokens_eq (counts : Dict TokenKey ℤ) (rows : List TokenRow) :
    addTokens counts rows = addSums counts (rows.map fun row => (row.toTokenKey, row.tokens)) := by
  rw [addSums, foldl_map]
  rfl

theorem addModel_eq (db : StatsDb) (models : Dict ModelKey (Dict TokenKey ℤ)) (row : ModelRow) :
    addModel db models row = addModelCounts models (row.toModelKey, countsOf db row.id) := by
  rw [addModel, addTokens_eq]
  rfl

theorem modelMap_eq (db : StatsDb) (members : List ProxyRow) :
    modelMap db members = mergedModels (members.flatMap fun row => treeOf db row.id) := by
  have htrees : (members.flatMap fun row => treeOf db row.id) =
      (members.flatMap fun row => modelsOf db row.id).map fun row =>
        (row.toModelKey, countsOf db row.id) := map_flatMap.symm
  rw [modelMap, mergedModels, htrees, foldl_map]
  congr 1
  funext models row
  exact addModel_eq db models row

/-- The sum of the tokens of a model and kind. -/
def cellTotal (model : ModelKey) (token : TokenKey) : ℤ :=
  sumOf (fun entry => sumOf Prod.snd (entry.2.filter fun row => decide (row.1 = token)))
    (models.filter fun entry => decide (entry.1 = model))

theorem cellTotal_cons (entry : ModelCounts) (models : List ModelCounts) (model : ModelKey)
    (token : TokenKey) :
    cellTotal (entry :: models) model token = (if entry.1 = model then
        sumOf snd (entry.2.filter fun row => decide (row.1 = token)) else 0) +
        cellTotal models model token := by
  rw [cellTotal, filter_cons]
  by_cases hmodel : entry.1 = model
  · rw [decide_eq_true hmodel, if_pos rfl, if_pos hmodel]
    rfl
  · rw [decide_eq_false hmodel, if_neg hmodel, zero_add]
    rfl

/-- The sum of the map for a model and kind. -/
def cell (models : Dict ModelKey (Dict TokenKey ℤ)) (model : ModelKey) (token : TokenKey) : ℤ :=
  ((((models.get? model).getD .empty).get? token).getD 0)

theorem cell_foldl (models : Dict ModelKey (Dict TokenKey ℤ)) (added : List ModelCounts)
    (model : ModelKey) (token : TokenKey) :
    cell (added.foldl addModelCounts models) model token =
      cell models model token + cellTotal added model token := by
  induction added generalizing models with
  | nil => exact (add_zero _).symm
  | cons entry added ih =>
    rw [foldl_cons, ih, cellTotal_cons, ← add_assoc]
    congr 1
    by_cases hmodel : model = entry.1
    · subst hmodel
      rw [if_pos rfl, cell, addModelCounts, Dict.get?_set_self, getD_some, getD_get?_addSums]
      rfl
    · rw [if_neg fun h => hmodel h.symm, add_zero, cell, addModelCounts,
        Dict.get?_set_of_ne _ _ hmodel]
      rfl

theorem cell_mergedModels (model : ModelKey) (token : TokenKey) :
    cell (mergedModels models) model token = cellTotal models model token := by
  rw [mergedModels, cell_foldl]
  exact zero_add _

theorem get?_foldl_addModelCounts (models : Dict ModelKey (Dict TokenKey ℤ))
    (added : List ModelCounts) (model : ModelKey) :
    ((added.foldl addModelCounts models).get? model).isSome ↔
      (models.get? model).isSome ∨ model ∈ added.map fst := by
  induction added generalizing models with
  | nil => simp
  | cons entry added ih =>
    rw [foldl_cons, ih, map_cons, mem_cons, addModelCounts, Dict.get?_set]
    by_cases hmodel : model = entry.1
    · simp [hmodel]
    · simp [hmodel]

theorem mem_keys_mergedModels {models : List ModelCounts} {model : ModelKey} :
    model ∈ (mergedModels models).keys ↔ model ∈ models.map fst := by
  rw [Dict.mem_keys_iff, ← isSome_iff_exists, mergedModels, get?_foldl_addModelCounts]
  exact or_iff_right nofun

variable (keep : ModelKey → TokenKey → Bool)

/-- What a condition keeps of the counts of a model. -/
def keptCounts (model : ModelKey) (counts : List (TokenKey × ℤ)) : ℤ :=
  sumOf (fun row => if keep model row.1 then row.2 else 0) counts

/-- What a condition keeps of the tokens of a request. -/
def tokenSum (models : List ModelCounts) : ℤ :=
  sumOf (fun entry => keptCounts keep entry.1 entry.2) models

theorem tokenSum_cons (entry : ModelCounts) (models : List ModelCounts) :
    tokenSum keep (entry :: models) = keptCounts keep entry.1 entry.2 + tokenSum keep models := rfl

theorem tokenSum_foldl (models : Dict ModelKey (Dict TokenKey ℤ)) (added : List ModelCounts) :
    sumOf (fun entry => keptCounts keep entry.1 entry.2.entries)
        (added.foldl addModelCounts models).entries =
      sumOf (fun entry => keptCounts keep entry.1 entry.2.entries) models.entries +
        tokenSum keep added := by
  induction added generalizing models with
  | nil => exact (add_zero _).symm
  | cons entry added ih =>
    have hsums := fun sums => sumOf_addSums (keep entry.1) sums entry.2
    rw [foldl_cons, ih, addModelCounts, sumOf_entries_set, tokenSum_cons]
    cases models.get? entry.1 with
    | none =>
      have hempty : keptCounts keep entry.1 (addSums Dict.empty entry.2).entries =
          keptCounts keep entry.1 entry.2 := (hsums .empty).trans (zero_add _)
      simp only [getD_none, map_none, hempty]
      ring
    | some old =>
      have hold : keptCounts keep entry.1 (addSums old entry.2).entries =
          keptCounts keep entry.1 old.entries + keptCounts keep entry.1 entry.2 := hsums old
      simp only [getD_some, map_some, hold]
      ring

theorem stored_mergedRecord (entry : ModelKey × Dict TokenKey ℤ) :
    (mergedRecord entry).stored = (entry.1, entry.2.entries.filter fun row => decide (0 < row.2)) := by
  rw [ModelRequestRecord.stored, mergedRecord, List.filter_map, List.map_map, List.filter_filter]
  congr 1
  have hid : ((fun row : TokenRecord => (row.toTokenKey, row.tokens)) ∘
      fun count : TokenKey × ℤ => ⟨count.1, count.2⟩) = id := rfl
  rw [hid, List.map_id]
  refine filter_congr fun row _ => ?_
  by_cases hpos : 0 < row.2
  · have hstored : row.2 ≠ 0 ∧ ¬(row.2 < 0 ∧ row.1.isSaved = false) :=
      ⟨hpos.ne', fun h => absurd h.1 hpos.le.not_gt⟩
    rw [decide_eq_true hpos, Bool.and_true]
    exact decide_eq_true hstored
  · simp [hpos]

/-- The models of the request that replaces some requests. -/
def storedModels : List ModelCounts :=
  (mergedModels models).entries.map fun entry =>
    (entry.1, entry.2.entries.filter fun row => decide (0 < row.2))

/-- The negative sums that a merge leaves out, of what a condition keeps. -/
def dropped (models : List ModelCounts) : ℤ :=
  sumOf (fun entry => sumOf
    (fun row => if keep entry.1 row.1 then (if 0 < row.2 then 0 else -row.2) else 0)
      entry.2.entries) (mergedModels models).entries

theorem tokenSum_storedModels (models : List ModelCounts) :
    tokenSum keep (storedModels models) = tokenSum keep models + dropped keep models := by
  have hall : sumOf (fun entry => keptCounts keep entry.1 entry.2.entries)
      (mergedModels models).entries = tokenSum keep models :=
    (tokenSum_foldl keep .empty models).trans (zero_add _)
  rw [← hall, dropped, ← sumOf_add, tokenSum, storedModels, sumOf_map]
  refine sumOf_congr fun entry _ => ?_
  simp only [keptCounts]
  rw [sumOf_filter, ← sumOf_add]
  refine sumOf_congr fun row _ => ?_
  by_cases hpos : 0 < row.2
  · simp [hpos]
  · cases keep entry.1 row.1 <;> simp [hpos]

theorem dropped_nonneg (models : List ModelCounts) : 0 ≤ dropped keep models := by
  refine sumOf_nonneg fun entry _ => sumOf_nonneg fun row _ => ?_
  split
  · split
    · exact le_refl 0
    · omega
  · exact le_refl 0

/-- Nothing is left out if and only if no sum that the condition keeps is negative. -/
theorem dropped_eq_zero_iff {keep : ModelKey → TokenKey → Bool} {models : List ModelCounts} :
    dropped keep models = 0 ↔
      ∀ model token, keep model token = true → 0 ≤ cellTotal models model token := by
  have hinner : ∀ entry : ModelKey × Dict TokenKey ℤ, ∀ row ∈ entry.2.entries,
      0 ≤ if keep entry.1 row.1 then (if 0 < row.2 then 0 else -row.2) else 0 := by
    intro entry row _
    split
    · split
      · exact le_refl 0
      · omega
    · exact le_refl 0
  rw [dropped, sumOf_eq_zero_iff fun entry _ => sumOf_nonneg (hinner entry)]
  constructor
  · intro hzero model token hkeep
    rw [← cell_mergedModels, cell]
    cases hmodel : (mergedModels models).get? model with
    | none => exact le_refl 0
    | some counts =>
      rw [getD_some]
      cases htoken : counts.get? token with
      | none => exact le_refl 0
      | some count =>
        have hentry := hzero _ (Dict.mem_entries_of_get? hmodel)
        have hrow := (sumOf_eq_zero_iff (hinner (model, counts))).mp hentry _
          (Dict.mem_entries_of_get? htoken)
        rw [if_pos hkeep] at hrow
        rw [getD_some]
        split at hrow <;> omega
  · intro hcells entry hentry
    refine (sumOf_eq_zero_iff (hinner entry)).mpr fun row hrow => ?_
    split
    · rename_i hkeep
      have hcell := hcells entry.1 row.1 hkeep
      rw [← cell_mergedModels, cell, Dict.get?_of_mem_entries hentry, getD_some,
        Dict.get?_of_mem_entries hrow, getD_some] at hcell
      split <;> omega
    · rfl

/-- The request that replaces the members of a group. -/
def mergedRequest (db : StatsDb) (first : ProxyRow) (members : List ProxyRow) (dayStartMs : ℤ) :
    Request :=
  ⟨mergedColumns first members dayStartMs,
    storedModels (members.flatMap fun row => treeOf db row.id)⟩

/-- The requests that replace the members of a group: one, if there are members. -/
def replacement (db : StatsDb) (dayStartMs : ℤ) : List ProxyRow → List Request
  | [] => []
  | first :: rest => [mergedRequest db first (first :: rest) dayStartMs]

/-- The rows that are not among some ids. -/
def withoutIds (ids : List ℕ) (rows : List ProxyRow) : List ProxyRow :=
  rows.filter fun row => !ids.contains row.id

variable {row : ProxyRow}

theorem mem_withoutIds {ids : List ℕ} {rows : List ProxyRow} :
    row ∈ withoutIds ids rows ↔ row ∈ rows ∧ row.id ∉ ids := by
  rw [withoutIds, mem_filter, Bool.not_eq_true', ← Bool.not_eq_true, contains_iff_mem]

theorem withoutIds_nil (rows : List ProxyRow) : withoutIds [] rows = rows :=
  filter_eq_self.mpr fun _ _ => rfl

/-- What merging the members of a group keeps and does. -/
structure Merges (members : List ProxyRow) (dayStartMs : ℤ) (db db' : StatsDb) : Prop where
  wellFormed : WellFormed db'
  nextId_le : db.nextId ≤ db'.nextId
  treeOf_old : ∀ id < db.nextId, id ∉ members.map ProxyRow.id → treeOf db' id = treeOf db id
  rows : ∃ added, db'.proxyRequest = withoutIds (members.map ProxyRow.id) db.proxyRequest ++ added ∧
    (∀ row ∈ added, db.nextId ≤ row.id) ∧
    added.map (requestOf db') = replacement db dayStartMs members

variable {db : StatsDb}

theorem mergeProxyGroup_merges (hdb : WellFormed db) {members : List ProxyRow}
    (hmembers : ∀ row ∈ members, row.id < db.nextId) (dayStartMs : ℤ) :
    Merges members dayStartMs db (mergeProxyGroup members dayStartMs db) := by
  cases members with
  | nil =>
    refine ⟨hdb, le_refl _, fun id _ _ => rfl, [], ?_, nofun, rfl⟩
    rw [List.append_nil, map_nil, withoutIds_nil]
    rfl
  | cons first rest =>
    have hadds := insertRequest_adds hdb (mergedColumns first (first :: rest) dayStartMs)
      ((modelMap db (first :: rest)).entries.map mergedRecord)
    have hnew : db.nextId ∉ (first :: rest).map ProxyRow.id := by
      intro hmem
      obtain ⟨row, hrow, heq⟩ := List.mem_map.mp hmem
      exact (hmembers row hrow).ne heq
    have hmodels : ((modelMap db (first :: rest)).entries.map mergedRecord).map
        ModelRequestRecord.stored =
          storedModels ((first :: rest).flatMap fun row => treeOf db row.id) := by
      rw [List.map_map, modelMap_eq, storedModels]
      exact map_congr_left fun entry _ => stored_mergedRecord entry
    refine ⟨wellFormed_deleteProxyTree hadds.wellFormed _, ?_, fun id hid hnot => ?_,
      [⟨mergedColumns first (first :: rest) dayStartMs, db.nextId⟩], ?_, ?_, ?_⟩
    · have hmem : (⟨mergedColumns first (first :: rest) dayStartMs, db.nextId⟩ : ProxyRow) ∈
          (insertRequest (mergedColumns first (first :: rest) dayStartMs)
            ((modelMap db (first :: rest)).entries.map mergedRecord) db).proxyRequest := by
        rw [hadds.proxyRequest]
        exact mem_append_right _ mem_cons_self
      exact (hadds.wellFormed.proxyId_lt _ hmem).le
    · exact (treeOf_deleteProxyTree hadds.wellFormed _ hnot).trans (hadds.treeOf_old id hid)
    · show withoutIds _ (insertRequest _ _ db).proxyRequest = _
      rw [hadds.proxyRequest, withoutIds, filter_append, filter_singleton]
      have hkept : ((first :: rest).map ProxyRow.id).contains db.nextId = false := by
        rw [← Bool.not_eq_true, contains_iff_mem]
        exact hnew
      rw [hkept]
      rfl
    · exact forall_mem_singleton.mpr (le_refl _)
    · rw [map_singleton, replacement, mergedRequest, ← hmodels, requestOf]
      congr 2
      exact (treeOf_deleteProxyTree hadds.wellFormed _ hnew).trans hadds.treeOf_new

variable {δ : Type}

/-- The rows of some groups. -/
def rowsOf {κ : Type} (groups : List (κ × List ProxyRow)) : List ProxyRow := groups.flatMap Prod.snd

theorem withoutIds_append (ids ids' : List ℕ) (rows : List ProxyRow) :
    withoutIds ids' (withoutIds ids rows) = withoutIds (ids ++ ids') rows := by
  rw [withoutIds, withoutIds, withoutIds, List.filter_filter]
  refine filter_congr fun row _ => ?_
  rw [contains_append, Bool.not_or, Bool.and_comm]

theorem replacement_congr {db' : StatsDb} {members : List ProxyRow} (dayStartMs : ℤ)
    (h : ∀ row ∈ members, treeOf db' row.id = treeOf db row.id) :
    replacement db' dayStartMs members = replacement db dayStartMs members := by
  cases members with
  | nil => rfl
  | cons first rest =>
    rw [replacement, replacement, mergedRequest, mergedRequest, flatMap_congr h]

theorem foldl_mergeProxyGroup (cal : Calendar δ) (groups : List (GroupKey δ × List ProxyRow))
    (hdb : WellFormed db) (hmem : ∀ group ∈ groups, ∀ row ∈ group.2, row ∈ db.proxyRequest)
    (hdisjoint : groups.Pairwise fun group group' => ∀ row ∈ group'.2,
      row.id ∉ group.2.map ProxyRow.id) :
    let db' := groups.foldl
      (fun db group => mergeProxyGroup group.2 (cal.dayStart group.1.day) db) db
    WellFormed db' ∧ requests db' =
      (withoutIds ((rowsOf groups).map ProxyRow.id) db.proxyRequest).map (requestOf db) ++
        groups.flatMap fun group => replacement db (cal.dayStart group.1.day) group.2 := by
  induction groups generalizing db with
  | nil =>
    refine ⟨hdb, ?_⟩
    rw [flatMap_nil, List.append_nil]
    exact (congrArg (List.map (requestOf db)) (withoutIds_nil db.proxyRequest)).symm
  | cons group groups ih =>
    obtain ⟨hothers, hdisjoint⟩ := pairwise_cons.mp hdisjoint
    obtain ⟨hgroup, hgroups⟩ := forall_mem_cons.mp hmem
    have hmerge := mergeProxyGroup_merges hdb (fun row hrow => hdb.proxyId_lt row (hgroup row hrow))
      (cal.dayStart group.1.day)
    obtain ⟨added, hrows, hadded, hreplaced⟩ := hmerge.rows
    have htree : ∀ row ∈ db.proxyRequest, row.id ∉ group.2.map ProxyRow.id →
        treeOf (mergeProxyGroup group.2 (cal.dayStart group.1.day) db) row.id = treeOf db row.id :=
      fun row hrow hnot => hmerge.treeOf_old row.id (hdb.proxyId_lt row hrow) hnot
    obtain ⟨hwell, hrequests⟩ := ih hmerge.wellFormed (fun group' hgroup' row hrow => by
      rw [hrows]
      exact mem_append_left _ (mem_withoutIds.mpr
        ⟨hgroups group' hgroup' row hrow, hothers group' hgroup' row hrow⟩)) hdisjoint
    refine ⟨hwell, hrequests.trans ?_⟩
    have hkeepsAdded : withoutIds ((rowsOf groups).map ProxyRow.id) added = added := by
      refine filter_eq_self.mpr fun row hrow => ?_
      rw [Bool.not_eq_true', ← Bool.not_eq_true, contains_iff_mem]
      intro hid
      obtain ⟨other, hother, heq⟩ := List.mem_map.mp hid
      obtain ⟨group', hgroup', hother⟩ := mem_flatMap.mp hother
      have hlt := hdb.proxyId_lt other (hgroups group' hgroup' other hother)
      have hle := hadded row hrow
      omega
    have hids : (rowsOf (group :: groups)).map ProxyRow.id =
        group.2.map ProxyRow.id ++ (rowsOf groups).map ProxyRow.id := by
      rw [rowsOf, flatMap_cons, map_append]
      rfl
    have hsplit : withoutIds ((rowsOf groups).map ProxyRow.id)
        (mergeProxyGroup group.2 (cal.dayStart group.1.day) db).proxyRequest =
          withoutIds ((rowsOf (group :: groups)).map ProxyRow.id) db.proxyRequest ++ added := by
      rw [hrows, hids, ← withoutIds_append]
      conv_lhs => rw [withoutIds, filter_append]
      exact congrArg _ hkeepsAdded
    rw [hsplit, map_append, hreplaced, List.append_assoc, flatMap_cons]
    congr 1
    · refine map_congr_left fun row hrow => ?_
      obtain ⟨hrow, hnot⟩ := mem_withoutIds.mp hrow
      rw [hids, mem_append, not_or] at hnot
      rw [requestOf, htree row hrow hnot.1]
      rfl
    · congr 1
      refine flatMap_congr fun group' hgroup' => ?_
      exact replacement_congr _ fun row hrow =>
        htree row (hgroups group' hgroup' row hrow) (hothers group' hgroup' row hrow)

variable [DecidableEq δ]

/-- The requests before a day that belong to a group. -/
def groupRows (cal : Calendar δ) (today : δ) (db : StatsDb) (key : GroupKey δ) : List ProxyRow :=
  (db.proxyRequest.filter fun row => decide (row.tsMs < cal.dayStart today)).filter fun row =>
    decide (groupKey cal db row = key)

variable {cal : Calendar δ} {today : δ}

theorem mem_groupRows {key : GroupKey δ} : row ∈ groupRows cal today db key ↔
      row ∈ db.proxyRequest ∧ row.tsMs < cal.dayStart today ∧ groupKey cal db row = key := by
  rw [groupRows, mem_filter, mem_filter, decide_eq_true_iff, decide_eq_true_iff, and_assoc]

variable {group : GroupKey δ × List ProxyRow}

theorem mem_mergedGroups : group ∈ mergedGroups cal today db ↔
      group.2 = groupRows cal today db group.1 ∧ 1 < group.2.length := by
  rw [mergedGroups, mem_filter, decide_eq_true_iff]
  refine and_congr_left fun hlength => ?_
  rw [show group = (group.1, group.2) from rfl, ← Dict.get?_eq_some_iff, get?_groupsBy]
  split
  · exact some_inj.trans eq_comm
  rename_i hnot
  refine iff_of_false nofun fun heq => ?_
  obtain ⟨row, hrow⟩ := exists_mem_of_length_pos (Nat.lt_of_succ_lt hlength)
  rw [heq] at hrow
  obtain ⟨hpast, hkey⟩ := mem_filter.mp hrow
  exact hnot (List.mem_map.mpr ⟨row, hpast, of_decide_eq_true hkey⟩)

theorem mergedGroups_keys_nodup (cal : Calendar δ) (today : δ) (db : StatsDb) :
    ((mergedGroups cal today db).map fst).Nodup :=
  (groupsBy (groupKey cal db) _).nodup.sublist (filter_sublist.map _)

theorem mem_rowsOf_mergedGroups :
    row ∈ rowsOf (mergedGroups cal today db) ↔
      row ∈ groupRows cal today db (groupKey cal db row) ∧
        1 < (groupRows cal today db (groupKey cal db row)).length := by
  rw [rowsOf, mem_flatMap]
  constructor
  · rintro ⟨group, hgroup, hrow⟩
    obtain ⟨hrows, hlength⟩ := mem_mergedGroups.mp hgroup
    rw [hrows] at hrow hlength
    rw [(mem_groupRows.mp hrow).2.2]
    exact ⟨hrow, hlength⟩
  · rintro ⟨hrow, hlength⟩
    exact ⟨(_, _), mem_mergedGroups.mpr ⟨rfl, hlength⟩, hrow⟩

theorem mem_proxyRequest_of_group (hgroup : group ∈ mergedGroups cal today db)
    (hrow : row ∈ group.2) : row ∈ db.proxyRequest ∧ groupKey cal db row = group.1 := by
  rw [(mem_mergedGroups.mp hgroup).1] at hrow
  obtain ⟨hmem, -, hkey⟩ := mem_groupRows.mp hrow
  exact ⟨hmem, hkey⟩

section

variable {cal : Calendar δ} {today : δ} {db : StatsDb} (hdb : WellFormed db)

include hdb

theorem eq_of_id_eq {row row' : ProxyRow} (hrow : row ∈ db.proxyRequest)
    (hrow' : row' ∈ db.proxyRequest) (h : row.id = row'.id) : row = row' :=
  inj_on_of_nodup_map hdb.proxyIds_nodup hrow hrow' h

theorem mergedGroups_disjoint : (mergedGroups cal today db).Pairwise fun group group' =>
    ∀ row ∈ group'.2, row.id ∉ group.2.map ProxyRow.id := by
  have hkeys : (mergedGroups cal today db).Pairwise fun group group' => group.1 ≠ group'.1 :=
    pairwise_map.mp (mergedGroups_keys_nodup cal today db)
  refine hkeys.imp_of_mem fun {group group'} hgroup hgroup' hne row hrow hid => ?_
  obtain ⟨other, hother, heq⟩ := List.mem_map.mp hid
  obtain ⟨hotherMem, hotherKey⟩ := mem_proxyRequest_of_group hgroup hother
  obtain ⟨hrowMem, hrowKey⟩ := mem_proxyRequest_of_group hgroup' hrow
  cases eq_of_id_eq hdb hotherMem hrowMem heq
  exact hne (hotherKey.symm.trans hrowKey)

theorem requests_rollupHistorical :
    WellFormed (rollupHistorical cal today db).1 ∧
      requests (rollupHistorical cal today db).1 =
        (withoutIds ((rowsOf (mergedGroups cal today db)).map ProxyRow.id) db.proxyRequest).map
            (requestOf db) ++
          (mergedGroups cal today db).flatMap fun group =>
            replacement db (cal.dayStart group.1.day) group.2 :=
  foldl_mergeProxyGroup cal (mergedGroups cal today db) hdb
    (fun _ hgroup _ hrow => (mem_proxyRequest_of_group hgroup hrow).1)
    (mergedGroups_disjoint hdb)

theorem proxyRequest_nodup : db.proxyRequest.Nodup := hdb.proxyIds_nodup.of_map _

theorem proxyRequest_perm : db.proxyRequest.Perm
    (withoutIds ((rowsOf (mergedGroups cal today db)).map ProxyRow.id) db.proxyRequest ++
      rowsOf (mergedGroups cal today db)) := by
  have hnodup : (rowsOf (mergedGroups cal today db)).Nodup := by
    refine nodup_flatMap.mpr ⟨fun group hgroup => ?_, ?_⟩
    · rw [(mem_mergedGroups.mp hgroup).1]
      exact ((proxyRequest_nodup hdb).filter _).filter _
    · refine (mergedGroups_disjoint hdb).imp fun {group group'} hdisjoint => ?_
      exact fun row hrow hrow' => hdisjoint row hrow' (List.mem_map_of_mem hrow)
  have hmerged : (db.proxyRequest.filter fun row =>
      ((rowsOf (mergedGroups cal today db)).map ProxyRow.id).contains row.id).Perm
        (rowsOf (mergedGroups cal today db)) := by
    refine (perm_ext_iff_of_nodup ((proxyRequest_nodup hdb).filter _) hnodup).mpr fun row => ?_
    rw [mem_filter, contains_iff_mem]
    constructor
    · rintro ⟨hrow, hid⟩
      obtain ⟨other, hother, heq⟩ := List.mem_map.mp hid
      have hotherMem := (mem_groupRows.mp (mem_rowsOf_mergedGroups.mp hother).1).1
      cases eq_of_id_eq hdb hotherMem hrow heq
      exact hother
    · intro hrow
      exact ⟨(mem_groupRows.mp (mem_rowsOf_mergedGroups.mp hrow).1).1, List.mem_map_of_mem hrow⟩
  exact (filter_append_perm _ db.proxyRequest).symm.trans
    (perm_append_comm.trans (hmerged.append_left _))

theorem sumOf_rollupHistorical (measure : Request → ℤ) :
    sumOf measure (requests (rollupHistorical cal today db).1) = sumOf measure (requests db) +
        sumOf (fun group => sumOf measure (replacement db (cal.dayStart group.1.day) group.2) -
          sumOf (fun row => measure (requestOf db row)) group.2) (mergedGroups cal today db) := by
  have hgroups : sumOf measure ((mergedGroups cal today db).flatMap fun group =>
      replacement db (cal.dayStart group.1.day) group.2) =
        sumOf (fun row => measure (requestOf db row)) (rowsOf (mergedGroups cal today db)) +
          sumOf (fun group => sumOf measure (replacement db (cal.dayStart group.1.day) group.2) -
            sumOf (fun row => measure (requestOf db row)) group.2) (mergedGroups cal today db) := by
    rw [sumOf_flatMap, rowsOf, sumOf_flatMap, ← sumOf_add]
    refine sumOf_congr fun group _ => ?_
    ring
  rw [(requests_rollupHistorical hdb).2, sumOf_append, hgroups, ← add_assoc]
  congr 1
  rw [requests, sumOf_map, sumOf_map, ← sumOf_append]
  exact (sumOf_perm (proxyRequest_perm hdb)).symm

end

/-- The stages of a request that count for its group. -/
def fingerprintOf : Text :=
  [','].intercalate (executedStages.filter fun stage =>
    models.any fun entry => entry.1.stage == stage)

def Request.groupKey (cal : Calendar δ) (request : Request) : GroupKey δ :=
  ⟨cal.dayOf request.columns.tsMs, request.columns.endpoint, request.columns.pruneStatus,
    request.columns.pipeline, request.columns.hasError, fingerprintOf request.models⟩

omit [DecidableEq δ] in
theorem groupKey_eq (cal : Calendar δ) (db : StatsDb) (row : ProxyRow) :
    Stats.groupKey cal db row = (requestOf db row).groupKey cal := by
  have hfingerprint : executedStagesFingerprint db row.id = fingerprintOf (treeOf db row.id) := by
    simp only [executedStagesFingerprint, fingerprintOf, treeOf, List.any_map]
    rfl
  rw [Stats.groupKey, hfingerprint]
  rfl

theorem stages_of_fingerprint {f g : Text → Bool} (h : [','].intercalate (executedStages.filter f) =
    [','].intercalate (executedStages.filter g)) : ∀ stage ∈ executedStages, f stage = g stage := by
  have hcomma : ∀ f : Text → Bool, ∀ stage ∈ executedStages.filter f, ',' ∉ stage := by
    intro f stage hstage
    have hplain : ∀ stage ∈ executedStages, ',' ∉ stage := by decide
    exact hplain stage (mem_of_mem_filter hstage)
  have hsplit : ∀ f : Text → Bool, executedStages.filter f ≠ [] →
      ([','].intercalate (executedStages.filter f)).splitOn ',' = executedStages.filter f :=
    fun f => splitOn_intercalate ',' (hcomma f)
  have hblank : ([] : Text) ∉ executedStages := by decide
  have hempty : ∀ f : Text → Bool, [','].intercalate (executedStages.filter f) = [] →
      executedStages.filter f = [] := by
    intro f hnil
    by_contra hne
    have hstages := hsplit f hne
    rw [hnil, splitOn_nil] at hstages
    have hmem : ([] : Text) ∈ executedStages.filter f := hstages ▸ mem_cons_self
    exact hblank (mem_of_mem_filter hmem)
  have hfilter : executedStages.filter f = executedStages.filter g := by
    by_cases hf : executedStages.filter f = []
    · rw [hf, hempty g (by rw [← h, hf]; rfl)]
    · have hg : executedStages.filter g ≠ [] :=
        fun hg => hf (hempty f (by rw [h, hg]; rfl))
      rw [← hsplit f hf, h, hsplit g hg]
  intro stage hstage
  have hiff : stage ∈ executedStages.filter f ↔ stage ∈ executedStages.filter g := by rw [hfilter]
  rw [mem_filter, mem_filter] at hiff
  exact Bool.eq_iff_iff.mpr ((and_iff_right hstage).symm.trans (hiff.trans (and_iff_right hstage)))

theorem mem_map_fst_storedModels {models : List ModelCounts} {model : ModelKey} :
    model ∈ (storedModels models).map fst ↔ model ∈ models.map fst := by
  rw [storedModels, List.map_map]
  exact mem_keys_mergedModels

theorem any_stage_iff {models : List ModelCounts} {stage : Text} :
    (models.any fun entry => entry.1.stage == stage) = true ↔
      ∃ model ∈ models.map fst, model.stage = stage := by
  simp only [List.any_eq_true, beq_iff_eq, List.mem_map]
  constructor
  · rintro ⟨entry, hentry, hstage⟩
    exact ⟨entry.1, ⟨entry, hentry, rfl⟩, hstage⟩
  · rintro ⟨model, ⟨entry, hentry, rfl⟩, hstage⟩
    exact ⟨entry, hentry, hstage⟩

theorem fingerprintOf_storedModels {fingerprint : Text} {trees : List (List ModelCounts)}
    (hnonempty : trees ≠ []) (h : ∀ tree ∈ trees, fingerprintOf tree = fingerprint) :
    fingerprintOf (storedModels trees.flatten) = fingerprint := by
  obtain ⟨first, hfirst⟩ := exists_mem_of_ne_nil trees hnonempty
  rw [← h first hfirst, fingerprintOf, fingerprintOf]
  congr 1
  refine filter_congr fun stage hstage => Bool.eq_iff_iff.mpr ?_
  rw [any_stage_iff, any_stage_iff]
  constructor
  · rintro ⟨model, hmodel, hmodelStage⟩
    rw [mem_map_fst_storedModels, List.mem_map] at hmodel
    obtain ⟨entry, hentry, rfl⟩ := hmodel
    obtain ⟨tree, htree, hentry⟩ := mem_flatten.mp hentry
    have hsame := stages_of_fingerprint ((h tree htree).trans (h first hfirst).symm) stage hstage
    exact any_stage_iff.mp (hsame ▸ any_stage_iff.mpr
      ⟨entry.1, List.mem_map_of_mem hentry, hmodelStage⟩)
  · rintro ⟨model, hmodel, hmodelStage⟩
    obtain ⟨entry, hentry, rfl⟩ := List.mem_map.mp hmodel
    exact ⟨entry.1, mem_map_fst_storedModels.mpr
      (List.mem_map_of_mem (mem_flatten.mpr ⟨first, hfirst, hentry⟩)), hmodelStage⟩

theorem exists_replacement (hgroup : group ∈ mergedGroups cal today db) :
    ∃ first rest, group.2 = first :: rest ∧
      replacement db (cal.dayStart group.1.day) group.2 =
        [mergedRequest db first group.2 (cal.dayStart group.1.day)] ∧
      (mergedRequest db first group.2 (cal.dayStart group.1.day)).groupKey cal = group.1 := by
  have hmember : ∀ row ∈ group.2, (requestOf db row).groupKey cal = group.1 := fun row hrow =>
    (groupKey_eq cal db row).symm.trans (mem_proxyRequest_of_group hgroup hrow).2
  obtain ⟨key, members⟩ := group
  cases members with
  | nil => exact absurd (mem_mergedGroups.mp hgroup).2 (Nat.not_lt_zero 1)
  | cons first rest =>
    refine ⟨first, rest, rfl, rfl, ?_⟩
    have hfingerprint : fingerprintOf
        (storedModels ((first :: rest).flatMap fun row => treeOf db row.id)) = key.fingerprint := by
      rw [flatMap_def]
      refine fingerprintOf_storedModels (by simp) fun tree htree => ?_
      obtain ⟨row, hrow, rfl⟩ := List.mem_map.mp htree
      exact congrArg GroupKey.fingerprint (hmember row hrow)
    have hfirst : (requestOf db first).groupKey cal = key := hmember first mem_cons_self
    rw [Request.groupKey, mergedRequest, hfingerprint]
    show GroupKey.mk (cal.dayOf (cal.dayStart key.day)) first.endpoint first.pruneStatus
      first.pipeline first.hasError key.fingerprint = key
    rw [cal.dayOf_dayStart, ← hfirst]
    rfl

theorem length_groupRows (cal : Calendar δ) (today : δ) (db : StatsDb) (key : GroupKey δ) :
    (groupRows cal today db key).length = (requests db).countP fun request =>
      decide (request.groupKey cal = key) && decide (request.columns.tsMs < cal.dayStart today) := by
  rw [groupRows, List.filter_filter, requests, countP_map, countP_eq_length_filter]
  simp only [groupKey_eq, Function.comp_def]
  rfl

theorem length_groupRows_rollupHistorical (hdb : WellFormed db) (key : GroupKey δ) :
    (groupRows cal today (rollupHistorical cal today db).1 key).length ≤ 1 := by
  have hadded : ((mergedGroups cal today db).flatMap fun group =>
      replacement db (cal.dayStart group.1.day) group.2).map (Request.groupKey cal) =
        (mergedGroups cal today db).map fst := by
    rw [map_flatMap, map_eq_flatMap]
    refine flatMap_congr fun group hgroup => ?_
    obtain ⟨first, rest, -, hreplacement, hkey⟩ := exists_replacement hgroup
    rw [hreplacement, map_singleton, hkey]
  have hkept : ((withoutIds ((rowsOf (mergedGroups cal today db)).map ProxyRow.id)
      db.proxyRequest).map (requestOf db)).countP (fun request =>
        decide (request.groupKey cal = key) &&
          decide (request.columns.tsMs < cal.dayStart today)) ≤
            if 1 < (groupRows cal today db key).length then 0 else 1 := by
    split
    · rename_i hmerged
      rw [Nat.le_zero, countP_eq_zero]
      intro request hrequest hcounted
      obtain ⟨row, hrow, rfl⟩ := List.mem_map.mp hrequest
      obtain ⟨hmem, hnot⟩ := mem_withoutIds.mp hrow
      obtain ⟨hkey, hpast⟩ := Bool.and_eq_true_iff.mp hcounted
      have hrowKey : Stats.groupKey cal db row = key :=
        (groupKey_eq cal db row).trans (of_decide_eq_true hkey)
      refine hnot (List.mem_map_of_mem (mem_rowsOf_mergedGroups.mpr ?_))
      rw [hrowKey]
      exact ⟨mem_groupRows.mpr ⟨hmem, of_decide_eq_true hpast, hrowKey⟩, hmerged⟩
    · rename_i halone
      refine le_trans ?_ (Nat.le_of_not_lt halone)
      rw [length_groupRows, requests]
      exact (filter_sublist.map _).countP_le
  have hmerged : ((mergedGroups cal today db).flatMap fun group =>
      replacement db (cal.dayStart group.1.day) group.2).countP (fun request =>
        decide (request.groupKey cal = key) &&
          decide (request.columns.tsMs < cal.dayStart today)) ≤
            if 1 < (groupRows cal today db key).length then 1 else 0 := by
    have hcount : ((mergedGroups cal today db).map fst).count key ≤
        if 1 < (groupRows cal today db key).length then 1 else 0 := by
      split
      · exact nodup_iff_count_le_one.mp (mergedGroups_keys_nodup cal today db) key
      rename_i halone
      rw [Nat.le_zero, count_eq_zero]
      intro hkey
      obtain ⟨group, hgroup, rfl⟩ := List.mem_map.mp hkey
      obtain ⟨hrows, hlength⟩ := mem_mergedGroups.mp hgroup
      exact halone (hrows ▸ hlength)
    refine le_trans ?_ hcount
    rw [← hadded, count_eq_countP, countP_map]
    refine countP_mono_left fun request _ h => ?_
    exact beq_iff_eq.mpr (of_decide_eq_true (Bool.and_eq_true_iff.mp h).1)
  rw [length_groupRows, (requests_rollupHistorical hdb).2, countP_append]
  refine (Nat.add_le_add hkept hmerged).trans ?_
  split <;> exact le_refl 1

theorem rowsRemoved_rollupHistorical (hdb : WellFormed db) :
    (rollupHistorical cal today (rollupHistorical cal today db).1).2.rowsRemoved = 0 := by
  have hnone : mergedGroups cal today (rollupHistorical cal today db).1 = [] := by
    refine eq_nil_iff_forall_not_mem.mpr fun group hgroup => ?_
    obtain ⟨hrows, hlength⟩ := mem_mergedGroups.mp hgroup
    rw [hrows] at hlength
    exact absurd hlength (length_groupRows_rollupHistorical hdb group.1).not_gt
  rw [rollupHistorical, hnone]
  rfl

end ClearYourTools.Proxy.Stats
