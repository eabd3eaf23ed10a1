import ClearYourTools.Proxy.Proofs.StatsRollup

/-!
# When a rollup keeps the totals

After any recordings and rollups, the next rollup keeps the totals and the budget of the skills
exactly where no group has saved less than nothing for a model, and the requests of a group of
skills injections agree in their models.
-/

namespace ClearYourTools.Proxy.Stats

open Misc List
open Prod (fst)
open Bool (and_eq_true_iff)

variable {δ : Type} [DecidableEq δ]
variable (db : StatsDb)

theorem sumTokens_eq (keep : ModelKey → TokenKey → Bool) :
    sumTokens db keep = sumOf (fun request => tokenSum keep request.models) (requests db) := by
  rw [sumTokens, sumOf_filter, joinedTokens, sumOf_flatMap, joinedModels, sumOf_flatMap, requests,
    sumOf_map]
  refine sumOf_congr fun row _ => ?_
  show _ = tokenSum keep (treeOf db row.id)
  rw [sumOf_map, tokenSum, treeOf, sumOf_map]
  refine sumOf_congr fun model _ => ?_
  rw [sumOf_map, keptCounts, countsOf, sumOf_map]

/-- The models of the requests of a group. -/
def groupModels (cal : Calendar δ) (today : δ) (db : StatsDb) (key : GroupKey δ) :
    List ModelCounts :=
  (groupRows cal today db key).flatMap fun row => treeOf db row.id

theorem tokenSum_flatMap {α : Type} (keep : ModelKey → TokenKey → Bool) (f : α → List ModelCounts)
    (xs : List α) : tokenSum keep (xs.flatMap f) = sumOf (fun x => tokenSum keep (f x)) xs :=
  sumOf_flatMap _ f xs

variable {cal : Calendar δ} {today : δ} {db : StatsDb}

theorem forall_mergedGroups {P : GroupKey δ → List ProxyRow → Prop} :
    (∀ group ∈ mergedGroups cal today db, P group.1 group.2) ↔
      ∀ key, 1 < (groupRows cal today db key).length → P key (groupRows cal today db key) := by
  constructor
  · intro h key hlength
    exact h (key, groupRows cal today db key) (mem_mergedGroups.mpr ⟨rfl, hlength⟩)
  · intro h group hgroup
    obtain ⟨hrows, hlength⟩ := mem_mergedGroups.mp hgroup
    rw [hrows] at hlength ⊢
    exact h group.1 hlength

section

variable {cal : Calendar δ} {today : δ} {db : StatsDb} (hdb : WellFormed db)

include hdb

variable (keep : ModelKey → TokenKey → Bool)

theorem sumTokens_rollupHistorical :
    sumTokens (rollupHistorical cal today db).1 keep =
      sumTokens db keep + sumOf (fun group => dropped keep (groupModels cal today db group.1))
        (mergedGroups cal today db) := by
  rw [sumTokens_eq, sumTokens_eq, sumOf_rollupHistorical hdb]
  congr 1
  refine sumOf_congr fun group hgroup => ?_
  obtain ⟨first, rest, -, hreplacement, -⟩ := exists_replacement hgroup
  rw [hreplacement, sumOf_cons, sumOf_nil, add_zero]
  show tokenSum keep (storedModels _) - sumOf (fun row : ProxyRow => tokenSum keep (treeOf db row.id)) _ = _
  rw [tokenSum_storedModels, tokenSum_flatMap, groupModels, ← (mem_mergedGroups.mp hgroup).1]
  ring

theorem sumTokens_rollupHistorical_iff :
    sumTokens (rollupHistorical cal today db).1 keep = sumTokens db keep ↔
      ∀ key, 1 < (groupRows cal today db key).length → ∀ model token, keep model token = true →
        0 ≤ cellTotal (groupModels cal today db key) model token := by
  rw [sumTokens_rollupHistorical hdb, add_eq_left,
    sumOf_eq_zero_iff fun group _ => dropped_nonneg keep _]
  simp only [dropped_eq_zero_iff]
  exact forall_mergedGroups (P := fun key _ => ∀ model token, keep model token = true →
    0 ≤ cellTotal (groupModels cal today db key) model token)

end

/-- What holds of the requests: tokens that are not saved are positive counts, and the skills of a
request are recorded once for each model. -/
structure Sound (request : Request) : Prop where
  positive : ∀ entry ∈ request.models, ∀ row ∈ entry.2, row.1.isSaved = false → 0 < row.2
  distinct : ((request.models.map Prod.fst).filter fun model => model.stage == skillsStage).Nodup

theorem cellTotal_nonneg {models : List ModelCounts}
    (hpositive : ∀ entry ∈ models, ∀ row ∈ entry.2, row.1.isSaved = false → 0 < row.2)
    (model : ModelKey) {token : TokenKey} (htoken : token.isSaved = false) :
    0 ≤ cellTotal models model token := by
  refine sumOf_nonneg fun entry hentry => sumOf_nonneg fun row hrow => ?_
  obtain ⟨hrow, hkey⟩ := mem_filter.mp hrow
  refine (hpositive entry (mem_of_mem_filter hentry) row hrow ?_).le
  rw [of_decide_eq_true hkey, htoken]

theorem positive_groupModels (hsound : ∀ request ∈ requests db, Sound request) (key : GroupKey δ) :
    ∀ entry ∈ groupModels cal today db key, ∀ row ∈ entry.2, row.1.isSaved = false → 0 < row.2 := by
  intro entry hentry
  obtain ⟨row, hrow, hentry⟩ := mem_flatMap.mp hentry
  have hrequest : requestOf db row ∈ requests db := mem_map_of_mem (mem_groupRows.mp hrow).1
  exact (hsound _ hrequest).positive entry hentry

theorem sumTokens_unsaved (hdb : WellFormed db) (hsound : ∀ request ∈ requests db, Sound request)
    {keep : ModelKey → TokenKey → Bool}
    (hkeep : ∀ model token, keep model token = true → token.isSaved = false) :
    sumTokens (rollupHistorical cal today db).1 keep = sumTokens db keep :=
  (sumTokens_rollupHistorical_iff hdb keep).mpr fun key _ model token h =>
    cellTotal_nonneg (positive_groupModels hsound key) model (hkeep model token h)

variable (columns : ProxyColumns)

theorem sound_storedModels (models : List ModelCounts) : Sound ⟨columns, storedModels models⟩ where
  positive entry hentry row hrow _ := by
    obtain ⟨stored, -, rfl⟩ := mem_map.mp hentry
    exact of_decide_eq_true (mem_filter.mp hrow).2
  distinct := by
    have hkeys : (storedModels models).map fst = (mergedModels models).keys := by
      rw [storedModels, List.map_map]
      rfl
    show (List.filter _ ((storedModels models).map fst)).Nodup
    rw [hkeys]
    exact (mergedModels models).nodup.filter _

theorem sound_rollupHistorical (hdb : WellFormed db)
    (hsound : ∀ request ∈ requests db, Sound request) :
    ∀ request ∈ requests (rollupHistorical cal today db).1, Sound request := by
  rw [(requests_rollupHistorical hdb).2]
  refine forall_mem_append.mpr ⟨fun request hrequest => ?_, fun request hrequest => ?_⟩
  · obtain ⟨row, hrow, rfl⟩ := mem_map.mp hrequest
    exact hsound _ (mem_map_of_mem (mem_withoutIds.mp hrow).1)
  · obtain ⟨group, hgroup, hrequest⟩ := mem_flatMap.mp hrequest
    obtain ⟨first, rest, -, hreplacement, -⟩ := exists_replacement hgroup
    rw [hreplacement, mem_singleton] at hrequest
    rw [hrequest]
    exact sound_storedModels _ _

theorem positive_stored (record : ModelRequestRecord) :
    ∀ row ∈ record.stored.2, row.1.isSaved = false → 0 < row.2 := by
  intro row hrow hsaved
  obtain ⟨stored, hstored, rfl⟩ := mem_map.mp hrow
  have hcount := of_decide_eq_true (mem_filter.mp hstored).2
  have hnot : ¬stored.tokens < 0 := fun h => hcount.2 ⟨h, hsaved⟩
  exact lt_of_le_of_ne (le_of_not_gt hnot) hcount.1.symm

variable {records : List ModelRequestRecord}

theorem sound_recorded (hdistinct : ((records.map ModelRequestRecord.toModelKey).filter fun model =>
      model.stage == skillsStage).Nodup) :
    Sound ⟨columns, records.map ModelRequestRecord.stored⟩ where
  positive := by
    intro entry hentry
    obtain ⟨record, -, rfl⟩ := mem_map.mp hentry
    exact positive_stored record
  distinct := by
    rw [List.map_map]
    exact hdistinct

theorem stage_pruningStageRecords {stages : Dict Text StageTokenUsage} {record : ModelRequestRecord}
    (h : record ∈ pruningStageRecords stages) : record.stage ∈ pruningStatStages := by
  obtain ⟨stage, hstage, hrecord⟩ := mem_filterMap.mp h
  split at hrecord
  · cases hrecord
  · split at hrecord
    · cases hrecord
      exact hstage
    · cases hrecord

theorem nodup_of_noSkills (h : ∀ record ∈ records, record.stage ≠ skillsStage) :
    ((records.map ModelRequestRecord.toModelKey).filter fun model =>
      model.stage == skillsStage).Nodup := by
  have hnone : ((records.map ModelRequestRecord.toModelKey).filter fun model =>
      model.stage == skillsStage) = [] := by
    refine filter_eq_nil_iff.mpr fun model hmodel => ?_
    obtain ⟨record, hrecord, rfl⟩ := mem_map.mp hmodel
    exact fun heq => h record hrecord (beq_iff_eq.mp heq)
  rw [hnone]
  exact nodup_nil

theorem noSkills_pruningStageRecords (stages : Dict Text StageTokenUsage) :
    ∀ record ∈ pruningStageRecords stages, record.stage ≠ skillsStage := by
  have hstages : ∀ stage ∈ pruningStatStages, stage ≠ skillsStage := by decide
  exact fun record hrecord => hstages _ (stage_pruningStageRecords hrecord)

/-- The skills that a request has injected. -/
def skillsOf (request : Request) : ℤ :=
  if skillsEndpoints.contains request.columns.endpoint then request.columns.skillsIn else 0

theorem skillsInTotal_eq : skillsInTotal db = sumOf skillsOf (requests db) := by
  rw [skillsInTotal, sumOf_filter, requests, sumOf_map]
  rfl

theorem cast_columnSum (column : ProxyColumns → ℕ) (rows : List ProxyRow) :
    (columnSum column rows : ℤ) = sumOf (fun row => (column row.toProxyColumns : ℤ)) rows := by
  induction rows with
  | nil => rfl
  | cons row rows ih =>
    rw [sumOf_cons, ← ih]
    exact Int.natCast_add _ _

variable {cal : Calendar δ} {today : δ} {db : StatsDb}
variable {group : GroupKey δ × List ProxyRow}

theorem endpoint_of_group (hgroup : group ∈ mergedGroups cal today db) {row : ProxyRow}
    (hrow : row ∈ group.2) : row.endpoint = group.1.endpoint :=
  congrArg GroupKey.endpoint (mem_proxyRequest_of_group hgroup hrow).2

theorem skillsOf_replacement (hgroup : group ∈ mergedGroups cal today db) :
    sumOf skillsOf (replacement db (cal.dayStart group.1.day) group.2) =
      sumOf (fun row => skillsOf (requestOf db row)) group.2 := by
  obtain ⟨first, rest, hrows, hreplacement, -⟩ := exists_replacement hgroup
  have hfirst : first.endpoint = group.1.endpoint :=
    endpoint_of_group hgroup (hrows ▸ mem_cons_self)
  have heach : ∀ row ∈ group.2, skillsOf (requestOf db row) =
      if skillsEndpoints.contains group.1.endpoint then (row.skillsIn : ℤ) else 0 := by
    intro row hrow
    rw [← endpoint_of_group hgroup hrow]
    rfl
  have hmembers : sumOf (fun row => skillsOf (requestOf db row)) group.2 =
      if skillsEndpoints.contains group.1.endpoint then
        sumOf (fun row : ProxyRow => (row.skillsIn : ℤ)) group.2 else 0 := by
    rw [sumOf_congr heach]
    cases skillsEndpoints.contains group.1.endpoint with
    | true => rfl
    | false => exact sumOf_zero _
  rw [hreplacement, sumOf_cons, sumOf_nil, add_zero, hmembers, ← hfirst]
  show (if skillsEndpoints.contains first.endpoint then
    ((columnSum ProxyColumns.skillsIn group.2 : ℕ) : ℤ) else 0) = _
  rw [cast_columnSum]

theorem skillsInTotal_rollupHistorical (hdb : WellFormed db) :
    skillsInTotal (rollupHistorical cal today db).1 = skillsInTotal db := by
  rw [skillsInTotal_eq, skillsInTotal_eq, sumOf_rollupHistorical hdb, add_eq_left,
    ← sumOf_zero (mergedGroups cal today db)]
  exact sumOf_congr fun group hgroup => sub_eq_zero.mpr (skillsOf_replacement hgroup)

variable {α κ : Type}

theorem getD_groupedSum [DecidableEq κ] (key : α → κ) (value : α → ℤ) (rows : List α)
    (k : κ) : (groupedSum key value rows k).getD 0 =
      sumOf value (rows.filter fun row => decide (key row = k)) := by
  rw [groupedSum]
  split
  · rename_i hnone
    rw [List.isEmpty_iff.mp hnone]
    rfl
  · rfl

theorem isSome_groupedSum [DecidableEq κ] (key : α → κ) (value : α → ℤ) (rows : List α) (k : κ) :
    (groupedSum key value rows k).isSome ↔ ∃ row ∈ rows, key row = k := by
  rw [groupedSum]
  split
  · rename_i hnone
    refine iff_of_false nofun ?_
    rintro ⟨row, hrow, hkey⟩
    exact filter_eq_nil_iff.mp (List.isEmpty_iff.mp hnone) row hrow (decide_eq_true hkey)
  · rename_i hsome
    refine iff_of_true rfl ?_
    obtain ⟨row, hrow⟩ := exists_mem_of_ne_nil _ fun h => hsome (List.isEmpty_iff.mpr h)
    obtain ⟨hrow, hkey⟩ := mem_filter.mp hrow
    exact ⟨row, hrow, of_decide_eq_true hkey⟩

theorem groupedSum_of_pos [DecidableEq κ] {key : α → κ} {value : α → ℤ} {rows : List α}
    (hpos : ∀ row ∈ rows, 0 < value row) (k : κ) :
    groupedSum key value rows k =
      (if sumOf value (rows.filter fun row => decide (key row = k)) = 0 then none
        else some (sumOf value (rows.filter fun row => decide (key row = k)))) := by
  have hzero : sumOf value (rows.filter fun row => decide (key row = k)) = 0 ↔
      rows.filter (fun row => decide (key row = k)) = [] :=
    sumOf_eq_zero_iff_of_pos fun row hrow => hpos row (mem_of_mem_filter hrow)
  rw [groupedSum]
  by_cases hnone : rows.filter (fun row => decide (key row = k)) = []
  · rw [if_pos (List.isEmpty_iff.mpr hnone), if_pos (hzero.mpr hnone)]
  · rw [if_neg fun h => hnone (List.isEmpty_iff.mp h), if_neg fun h => hnone (hzero.mp h)]

variable (k : Option Text × Option Text)

/-- Whether a model is one of a name and DNS name for which skills were injected. -/
def isSkillsModel (model : ModelKey) : Bool :=
  model.stage == skillsStage && decide ((model.modelName, model.providerDnsName) = k)

/-- The models of a request for which its skills are counted. -/
def skillsModels (models : List ModelCounts) : List ModelKey :=
  (models.map Prod.fst).filter (isSkillsModel k)

/-- The skills of a request that are counted for a name and DNS name. -/
def injectedFor (request : Request) : ℤ := skillsOf request * (skillsModels k request.models).length

theorem sumOf_ite_const {α : Type} (c : ℤ) (p : α → Bool) (xs : List α) :
    sumOf (fun x => if p x then c else 0) xs = c * (xs.filter p).length := by
  induction xs with
  | nil => exact (mul_zero c).symm
  | cons x xs ih =>
    rw [sumOf_cons, ih, filter_cons]
    cases p x with
    | true =>
      rw [if_pos rfl, if_pos rfl, length_cons]
      push_cast
      ring
    | false => exact zero_add _

theorem getD_querySkillsInjectionTokens (k : Option Text × Option Text) :
    (querySkillsInjectionTokens db k).getD 0 = sumOf (injectedFor k) (requests db) := by
  rw [querySkillsInjectionTokens, getD_groupedSum, filter_filter, sumOf_filter, joinedModels,
    sumOf_flatMap, requests, sumOf_map]
  refine sumOf_congr fun row _ => ?_
  have hlength : (skillsModels k (treeOf db row.id)).length =
      ((modelsOf db row.id).filter fun model => isSkillsModel k model.toModelKey).length := by
    rw [skillsModels, treeOf, List.map_map, filter_map, length_map]
    rfl
  show _ = injectedFor k (requestOf db row)
  rw [injectedFor]
  show _ = skillsOf (requestOf db row) * ((skillsModels k (treeOf db row.id)).length : ℤ)
  rw [hlength, ← sumOf_ite_const, sumOf_map]
  refine sumOf_congr fun model _ => ?_
  show (if (decide ((model.modelName, model.providerDnsName) = k) &&
      (skillsEndpoints.contains row.endpoint && model.stage == skillsStage)) = true
    then (row.skillsIn : ℤ) else 0) = if isSkillsModel k model.toModelKey = true then
      (if skillsEndpoints.contains row.endpoint then (row.skillsIn : ℤ) else 0) else 0
  rw [isSkillsModel]
  cases decide ((model.modelName, model.providerDnsName) = k) <;>
    cases skillsEndpoints.contains row.endpoint <;> cases model.stage == skillsStage <;> rfl

/-- There is a row for a name and DNS name if a request has a model with them. -/
theorem isSome_querySkillsInjectionTokens (k : Option Text × Option Text) :
    (querySkillsInjectionTokens db k).isSome ↔ ∃ request ∈ requests db,
      skillsEndpoints.contains request.columns.endpoint = true ∧
        skillsModels k request.models ≠ [] := by
  rw [querySkillsInjectionTokens, isSome_groupedSum]
  constructor
  · rintro ⟨⟨row, model⟩, hrow, hkey⟩
    obtain ⟨hjoined, hkeep⟩ := mem_filter.mp hrow
    obtain ⟨row', hrow', hjoined⟩ := mem_flatMap.mp hjoined
    obtain ⟨model', hmodel', heq⟩ := mem_map.mp hjoined
    cases heq
    obtain ⟨hendpoint, hstage⟩ := and_eq_true_iff.mp hkeep
    refine ⟨requestOf db row, mem_map_of_mem hrow', hendpoint, ?_⟩
    refine ne_nil_of_mem (a := model.toModelKey) (mem_filter.mpr ⟨?_, ?_⟩)
    · show model.toModelKey ∈ (treeOf db row.id).map fst
      rw [treeOf, List.map_map]
      exact mem_map.mpr ⟨model, hmodel', rfl⟩
    · exact and_eq_true_iff.mpr ⟨hstage, decide_eq_true hkey⟩
  · rintro ⟨request, hrequest, hendpoint, hmodels⟩
    obtain ⟨row, hrow, rfl⟩ := mem_map.mp hrequest
    obtain ⟨key, hkey⟩ := exists_mem_of_ne_nil _ hmodels
    obtain ⟨hmem, hskills⟩ := mem_filter.mp hkey
    obtain ⟨hstage, hname⟩ := and_eq_true_iff.mp hskills
    have hmem : key ∈ (treeOf db row.id).map fst := hmem
    rw [treeOf, List.map_map] at hmem
    obtain ⟨model, hmodel, rfl⟩ := mem_map.mp hmem
    refine ⟨(row, model), mem_filter.mpr ⟨?_, ?_⟩, of_decide_eq_true hname⟩
    · exact mem_flatMap.mpr ⟨row, hrow, mem_map.mpr ⟨model, hmodel, rfl⟩⟩
    · exact and_eq_true_iff.mpr ⟨hendpoint, hstage⟩

theorem skillsOf_nonneg (request : Request) : 0 ≤ skillsOf request := by
  rw [skillsOf]
  split
  · exact Int.natCast_nonneg _
  · exact le_refl 0

theorem nodup_skillsModels {request : Request} (hsound : Sound request)
    (k : Option Text × Option Text) : (skillsModels k request.models).Nodup := by
  have hsub : skillsModels k request.models =
      ((request.models.map fst).filter fun model => model.stage == skillsStage).filter
        fun model => decide ((model.modelName, model.providerDnsName) = k) := by
    rw [filter_filter]
    exact filter_congr fun model _ => Bool.and_comm _ _
  rw [hsub]
  exact hsound.distinct.filter _

section

variable {cal : Calendar δ} {today : δ} {db : StatsDb}

/-- How many models of a name and DNS name a merged request has. -/
def mergedCount (cal : Calendar δ) (today : δ) (db : StatsDb) (key : GroupKey δ)
    (k : Option Text × Option Text) : ℕ :=
  (skillsModels k (storedModels (groupModels cal today db key))).length

theorem injectedFor_replacement
    (hgroup : group ∈ mergedGroups cal today db) (k : Option Text × Option Text) :
    sumOf (injectedFor k) (replacement db (cal.dayStart group.1.day) group.2) -
        sumOf (fun row => injectedFor k (requestOf db row)) group.2 =
      sumOf (fun row => skillsOf (requestOf db row) * ((mergedCount cal today db group.1 k : ℤ) -
        (skillsModels k (treeOf db row.id)).length)) group.2 := by
  have htotal := skillsOf_replacement hgroup
  obtain ⟨first, rest, -, hreplacement, -⟩ := exists_replacement hgroup
  rw [hreplacement, sumOf_cons, sumOf_nil, add_zero] at htotal
  have hmerged : injectedFor k
      (mergedRequest db first group.2 (cal.dayStart group.1.day)) =
        (mergedCount cal today db group.1 k : ℤ) *
          sumOf (fun row => skillsOf (requestOf db row)) group.2 := by
    rw [injectedFor, htotal, mul_comm, mergedCount, groupModels, ← (mem_mergedGroups.mp hgroup).1]
    rfl
  rw [hreplacement, sumOf_cons, sumOf_nil, add_zero, hmerged, ← sumOf_mul_left, sub_eq_iff_eq_add,
    ← sumOf_add]
  refine sumOf_congr fun row _ => ?_
  rw [injectedFor]
  show _ = _ + skillsOf (requestOf db row) * ((skillsModels k (treeOf db row.id)).length : ℤ)
  ring

variable {key : GroupKey δ} {row : ProxyRow}

theorem skillsModels_subset (hrow : row ∈ groupRows cal today db key)
    (k : Option Text × Option Text) :
    skillsModels k (treeOf db row.id) ⊆
      skillsModels k (storedModels (groupModels cal today db key)) := by
  intro model hmodel
  obtain ⟨hmem, hskills⟩ := mem_filter.mp hmodel
  obtain ⟨entry, hentry, rfl⟩ := mem_map.mp hmem
  refine mem_filter.mpr ⟨mem_map_fst_storedModels.mpr ?_, hskills⟩
  exact mem_map_of_mem (mem_flatMap.mpr ⟨row, hrow, hentry⟩)

variable (hsound : ∀ request ∈ requests db, Sound request)

include hsound

variable (hrow : row ∈ groupRows cal today db key)
include hrow

theorem skillsModels_subperm (k : Option Text × Option Text) :
    (skillsModels k (treeOf db row.id)).Subperm
      (skillsModels k (storedModels (groupModels cal today db key))) := by
  have hrequest : requestOf db row ∈ requests db := mem_map_of_mem (mem_groupRows.mp hrow).1
  exact subperm_of_subset (nodup_skillsModels (hsound _ hrequest) k) (skillsModels_subset hrow k)

theorem length_skillsModels_eq_iff (k : Option Text × Option Text) :
    (skillsModels k (treeOf db row.id)).length = mergedCount cal today db key k ↔
      ∀ model ∈ skillsModels k (storedModels (groupModels cal today db key)),
        model ∈ (treeOf db row.id).map fst := by
  have hsubperm := skillsModels_subperm hsound hrow k
  constructor
  · intro hlength model hmodel
    have hperm := hsubperm.perm_of_length_le hlength.ge
    exact mem_of_mem_filter (hperm.mem_iff.mpr hmodel)
  · intro hall
    refine le_antisymm hsubperm.length_le  (subperm_of_subset ?_ fun model hmodel => ?_).length_le
    · exact nodup_skillsModels (sound_storedModels (ProxyColumns.plain [] 0 [] []) _) k
    · exact mem_filter.mpr ⟨hall model hmodel, (mem_filter.mp hmodel).2⟩

end

/-- What is done to the database. -/
inductive Operation (δ : Type)
  | recordProxyRequest (tsMs : ℤ) (record : ProxyRequestRecord)
  | recordSkillsInjection (tsMs : ℤ) (call : SkillsInjection)
  | recordToolsHookInjection (tsMs : ℤ) (call : ToolsHookInjection)
  | rollupHistorical (today : δ)

/-- The database after an operation. -/
def perform (cal : Calendar δ) (db : StatsDb) : Operation δ → StatsDb
  | .recordProxyRequest tsMs record => recordProxyRequest tsMs record db
  | .recordSkillsInjection tsMs call => recordSkillsInjection tsMs call db
  | .recordToolsHookInjection tsMs call => recordToolsHookInjection tsMs call db
  | .rollupHistorical today => (rollupHistorical cal today db).1

/-- The database after some operations. -/
def performAll (cal : Calendar δ) (operations : List (Operation δ)) : StatsDb :=
  operations.foldl (perform cal) .empty

/-- What holds of the database in every run. -/
def Consistent (db : StatsDb) : Prop := WellFormed db ∧ ∀ request ∈ requests db, Sound request

variable {db : StatsDb}

theorem consistent_insertRequest (hdb : Consistent db) (columns : ProxyColumns)
    {records : List ModelRequestRecord}
    (hdistinct : ((records.map ModelRequestRecord.toModelKey).filter fun model =>
      model.stage == skillsStage).Nodup) : Consistent (insertRequest columns records db) := by
  have hadds := insertRequest_adds hdb.1 columns records
  refine ⟨hadds.wellFormed, ?_⟩
  rw [requests_of_adds hdb.1 hadds]
  exact forall_mem_append.mpr ⟨hdb.2, forall_mem_singleton.mpr (sound_recorded columns hdistinct)⟩

theorem upstreamStage_ne : upstreamStage ≠ skillsStage := by decide

theorem toolsStage_ne : toolsStage ≠ skillsStage := by decide

theorem consistent_perform (cal : Calendar δ) (hdb : Consistent db) (operation : Operation δ) :
    Consistent (perform cal db operation) := by
  cases operation with
  | recordProxyRequest tsMs record =>
    refine consistent_insertRequest hdb _ (nodup_of_noSkills ?_)
    refine forall_mem_append.mpr ⟨?_, noSkills_pruningStageRecords _⟩
    intro record hrecord
    rcases mem_cons.mp hrecord with rfl | hrecord
    · exact upstreamStage_ne
    · cases mem_singleton.mp hrecord
      exact toolsStage_ne
  | recordSkillsInjection tsMs call =>
    refine consistent_insertRequest hdb _ ?_
    exact (nodup_singleton _).filter _
  | recordToolsHookInjection tsMs call =>
    refine consistent_insertRequest hdb _ (nodup_of_noSkills ?_)
    refine forall_mem_append.mpr ⟨forall_mem_append.mpr ⟨?_, ?_⟩, noSkills_pruningStageRecords _⟩
    · intro record hrecord
      split at hrecord
      · cases hrecord
      · cases mem_singleton.mp hrecord
        exact upstreamStage_ne
    · intro record hrecord
      cases mem_singleton.mp hrecord
      exact toolsStage_ne
  | rollupHistorical today =>
    exact ⟨(requests_rollupHistorical hdb.1).1, sound_rollupHistorical hdb.1 hdb.2⟩

theorem consistent_performAll (cal : Calendar δ) (operations : List (Operation δ)) :
    Consistent (performAll cal operations) := by
  induction operations using List.reverseRecOn with
  | nil => exact ⟨wellFormed_empty, nofun⟩
  | append_singleton operations operation ih =>
    rw [performAll, foldl_append]
    exact consistent_perform cal ih operation

/-- The tokens of a stage, model and type that were not saved. -/
def keepStageModel (k : Text × Option Text × Text) (model : ModelKey) (token : TokenKey) : Bool :=
  decide ((model.stage, model.modelName, token.type) = k) &&
    ([llmStage, rerankStage, bm25Stage, skillsStage].contains model.stage && !token.isSaved)

/-- The tokens of a name and DNS name that were saved. -/
def keepUpstream (model : ModelKey) (token : TokenKey) : Bool :=
  decide ((model.modelName, model.providerDnsName) = k) &&
    (model.stage == upstreamStage && token.isSaved)

theorem positive_joinedTokens (hsound : ∀ request ∈ requests db, Sound request)
    {row : ProxyRow × ModelRow × TokenRow} (hrow : row ∈ joinedTokens db)
    (hsaved : row.2.2.isSaved = false) : 0 < row.2.2.tokens := by
  obtain ⟨⟨p, m⟩, hjoined, hrow⟩ := mem_flatMap.mp hrow
  obtain ⟨t, ht, rfl⟩ := mem_map.mp hrow
  obtain ⟨p', hp, hjoined⟩ := mem_flatMap.mp hjoined
  obtain ⟨m', hm, heq⟩ := mem_map.mp hjoined
  cases heq
  exact (hsound (requestOf db p) (mem_map_of_mem hp)).positive
    (m.toModelKey, countsOf db m.id) (mem_map.mpr ⟨m, hm, rfl⟩)
    (t.toTokenKey, t.tokens) (mem_map.mpr ⟨t, ht, rfl⟩) hsaved

theorem queryStageModelTokens_eq (hsound : ∀ request ∈ requests db, Sound request)
    (k : Text × Option Text × Text) :
    queryStageModelTokens db k = if sumTokens db (keepStageModel k) = 0 then none
      else some (sumTokens db (keepStageModel k)) := by
  rw [queryStageModelTokens, groupedSum_of_pos, filter_filter]
  · rfl
  · intro row hrow
    obtain ⟨hjoined, hkeep⟩ := mem_filter.mp hrow
    refine positive_joinedTokens hsound hjoined ?_
    exact Bool.not_eq_true' _ ▸ (and_eq_true_iff.mp hkeep).2

theorem getD_queryUpstreamSavedTokens (k : Option Text × Option Text) :
    (queryUpstreamSavedTokens db k).getD 0 = sumTokens db (keepUpstream k) := by
  rw [queryUpstreamSavedTokens, getD_groupedSum, filter_filter]
  rfl

theorem getD_eq_of_isSome {result result' : Option ℤ} (hsome : result.isSome ↔ result'.isSome)
    (hget : result.getD 0 = result'.getD 0) : result = result' := by
  cases result with
  | none =>
    cases result' with
    | none => rfl
    | some count => exact absurd (hsome.mpr rfl) nofun
  | some count =>
    cases result' with
    | none => exact absurd (hsome.mp rfl) nofun
    | some count' => exact congrArg some hget

theorem positiveCounts_congr {κ : Type} {result result' : κ → Option ℤ}
    (h : ∀ k, (result k).getD 0 = (result' k).getD 0) :
    positiveCounts result = positiveCounts result' := by
  have hcounts : ∀ counts : Option ℤ, (counts.filter fun count => decide (0 < count)) =
      if 0 < counts.getD 0 then some (counts.getD 0) else none := by
    intro counts
    cases counts with
    | none => rfl
    | some count =>
      rw [Option.filter_some, Option.getD_some]
      by_cases hpos : 0 < count <;> simp [hpos]
  funext k
  rw [positiveCounts, positiveCounts, hcounts, hcounts, h k]

/-- In every group that is merged, what was saved for a model is not less than nothing. -/
def SavedNonneg (cal : Calendar δ) (today : δ) (db : StatsDb) : Prop :=
  ∀ key, 1 < (groupRows cal today db key).length → ∀ model token, token.isSaved = true →
    0 ≤ cellTotal (groupModels cal today db key) model token

/-- In every group of skills endpoints, a request that has injected skills has each model for which
one of the group has. -/
def SkillsShared (cal : Calendar δ) (today : δ) (db : StatsDb) : Prop :=
  ∀ key, skillsEndpoints.contains key.endpoint = true →
    ∀ row ∈ groupRows cal today db key, 0 < row.skillsIn →
      ∀ row' ∈ groupRows cal today db key, ∀ model ∈ modelsOf db row'.id,
        model.stage = skillsStage → ∃ model' ∈ modelsOf db row.id,
          model'.toModelKey = model.toModelKey

/-- The totals besides the number of requests. -/
def Totals.withoutEvents (totals : Totals) : Totals := { totals with events := 0 }

theorem Totals.eq_of_withoutEvents {totals totals' : Totals}
    (h : totals.withoutEvents = totals'.withoutEvents) :
    totals.toolsSentUpstream = totals'.toolsSentUpstream ∧ totals.toolsSaved = totals'.toolsSaved ∧
      totals.toolsAccepted = totals'.toolsAccepted ∧ totals.skillsIn = totals'.skillsIn := by
  injection h with _ hsent hsaved haccepted _ _ _ _ hskills
  exact ⟨hsent, hsaved, haccepted, hskills⟩

/-- What a rollup is to keep. -/
structure KeepsTotals (cal : Calendar δ) (today : δ) (db : StatsDb) : Prop where
  totals : (queryTotals (rollupHistorical cal today db).1).withoutEvents =
    (queryTotals db).withoutEvents
  stageModelTokens : queryStageModelTokens (rollupHistorical cal today db).1 =
    queryStageModelTokens db
  upstreamSavedTokens : ∀ k, (queryUpstreamSavedTokens (rollupHistorical cal today db).1 k).getD 0 =
    (queryUpstreamSavedTokens db k).getD 0
  skillsInjectionTokens : querySkillsInjectionTokens (rollupHistorical cal today db).1 =
    querySkillsInjectionTokens db
  budget : ∀ (κ : Type) (env : BudgetEnv κ) (injectPath : Text),
    querySkillsBudgetState env (rollupHistorical cal today db).1 injectPath =
      querySkillsBudgetState env db injectPath
  rowsRemoved : (rollupHistorical cal today (rollupHistorical cal today db).1).2.rowsRemoved = 0

theorem sumTokens_saved_iff {cal : Calendar δ} {today : δ} (hdb : WellFormed db) :
    sumTokens (rollupHistorical cal today db).1 (fun _ token => token.isSaved) =
      sumTokens db (fun _ token => token.isSaved) ↔ SavedNonneg cal today db :=
  sumTokens_rollupHistorical_iff hdb _

theorem skillsOf_eq_zero_iff {row : ProxyRow}
    (hendpoint : skillsEndpoints.contains row.endpoint = true) :
    skillsOf (requestOf db row) = 0 ↔ ¬0 < row.skillsIn := by
  show (if skillsEndpoints.contains row.endpoint then (row.skillsIn : ℤ) else 0) = 0 ↔ _
  rw [if_pos hendpoint]
  omega

section

variable {cal : Calendar δ} {today : δ} {db : StatsDb} (hdb : Consistent db)

include hdb

theorem isSome_querySkillsInjectionTokens_rollupHistorical (k : Option Text × Option Text) :
    (querySkillsInjectionTokens (rollupHistorical cal today db).1 k).isSome ↔
      (querySkillsInjectionTokens db k).isSome := by
  rw [isSome_querySkillsInjectionTokens, isSome_querySkillsInjectionTokens,
    (requests_rollupHistorical hdb.1).2]
  constructor
  · rintro ⟨request, hrequest, hendpoint, hmodels⟩
    rcases mem_append.mp hrequest with hkept | hadded
    · obtain ⟨row, hrow, rfl⟩ := mem_map.mp hkept
      exact ⟨_, mem_map_of_mem (mem_withoutIds.mp hrow).1, hendpoint, hmodels⟩
    obtain ⟨group, hgroup, hadded⟩ := mem_flatMap.mp hadded
    obtain ⟨first, rest, hrows, hreplacement, hkey⟩ := exists_replacement hgroup
    rw [hreplacement, mem_singleton] at hadded
    subst hadded
    obtain ⟨model, hmodel⟩ := exists_mem_of_ne_nil _ hmodels
    obtain ⟨hmem, hskills⟩ := mem_filter.mp hmodel
    obtain ⟨entry, hentry, rfl⟩ := mem_map.mp (mem_map_fst_storedModels.mp hmem)
    obtain ⟨row, hrow, hentry⟩ := mem_flatMap.mp hentry
    refine ⟨requestOf db row, mem_map_of_mem (mem_proxyRequest_of_group hgroup hrow).1, ?_,
      ne_nil_of_mem (mem_filter.mpr ⟨mem_map_of_mem hentry, hskills⟩)⟩
    have hsame : row.endpoint = first.endpoint := (endpoint_of_group hgroup hrow).trans
      (endpoint_of_group hgroup (hrows ▸ mem_cons_self)).symm
    show skillsEndpoints.contains row.endpoint = true
    rw [hsame]
    exact hendpoint
  · rintro ⟨request, hrequest, hendpoint, hmodels⟩
    obtain ⟨row, hrow, rfl⟩ := mem_map.mp hrequest
    by_cases hid : row.id ∈ (rowsOf (mergedGroups cal today db)).map ProxyRow.id
    · obtain ⟨other, hother, heq⟩ := mem_map.mp hid
      obtain ⟨group, hgroup, hmember⟩ := mem_flatMap.mp hother
      have hotherMem := mem_proxyRequest_of_group hgroup hmember
      cases eq_of_id_eq hdb.1 hotherMem.1 hrow heq
      obtain ⟨first, rest, hrows, hreplacement, hkey⟩ := exists_replacement hgroup
      refine ⟨_, mem_append_right _ (mem_flatMap.mpr
        ⟨group, hgroup, hreplacement ▸ mem_cons_self⟩), ?_, ?_⟩
      · have hsame : first.endpoint = row.endpoint :=
          (endpoint_of_group hgroup (hrows ▸ mem_cons_self)).trans
            (endpoint_of_group hgroup hmember).symm
        show skillsEndpoints.contains first.endpoint = true
        rw [hsame]
        exact hendpoint
      · obtain ⟨model, hmodel⟩ := exists_mem_of_ne_nil _ hmodels
        have hgroupRow : row ∈ groupRows cal today db group.1 :=
          (mem_mergedGroups.mp hgroup).1 ▸ hmember
        have hmerged := skillsModels_subset hgroupRow k hmodel
        rw [groupModels, ← (mem_mergedGroups.mp hgroup).1] at hmerged
        exact ne_nil_of_mem hmerged
    · exact ⟨_, mem_append_left _ (mem_map_of_mem (mem_withoutIds.mpr ⟨hrow, hid⟩)),
        hendpoint, hmodels⟩

theorem getD_querySkillsInjectionTokens_rollupHistorical_iff (k : Option Text × Option Text) :
    (querySkillsInjectionTokens (rollupHistorical cal today db).1 k).getD 0 =
      (querySkillsInjectionTokens db k).getD 0 ↔
        ∀ group ∈ mergedGroups cal today db, ∀ row ∈ group.2, skillsOf (requestOf db row) = 0 ∨
          (skillsModels k (treeOf db row.id)).length = mergedCount cal today db group.1 k := by
  have hgroups : sumOf (fun group =>
      sumOf (injectedFor k) (replacement db (cal.dayStart group.1.day) group.2) -
        sumOf (fun row => injectedFor k (requestOf db row)) group.2) (mergedGroups cal today db) =
      sumOf (fun group => sumOf (fun row => skillsOf (requestOf db row) *
        ((mergedCount cal today db group.1 k : ℤ) - (skillsModels k (treeOf db row.id)).length))
          group.2) (mergedGroups cal today db) :=
    sumOf_congr fun group hgroup => injectedFor_replacement hgroup k
  have hnonneg : ∀ group ∈ mergedGroups cal today db, ∀ row ∈ group.2,
      0 ≤ skillsOf (requestOf db row) *
        ((mergedCount cal today db group.1 k : ℤ) - (skillsModels k (treeOf db row.id)).length) := by
    intro group hgroup row hrow
    have hrow : row ∈ groupRows cal today db group.1 := (mem_mergedGroups.mp hgroup).1 ▸ hrow
    have hle : (skillsModels k (treeOf db row.id)).length ≤ mergedCount cal today db group.1 k :=
      (skillsModels_subperm hdb.2 hrow k).length_le
    exact Int.mul_nonneg (skillsOf_nonneg _) (sub_nonneg.mpr (Int.ofNat_le.mpr hle))
  rw [getD_querySkillsInjectionTokens, getD_querySkillsInjectionTokens,
    sumOf_rollupHistorical hdb.1, add_eq_left, hgroups,
    sumOf_eq_zero_iff fun group hgroup => sumOf_nonneg (hnonneg group hgroup)]
  refine forall₂_congr fun group hgroup => ?_
  rw [sumOf_eq_zero_iff (hnonneg group hgroup)]
  refine forall₂_congr fun row _ => ?_
  rw [mul_eq_zero, sub_eq_zero, Int.natCast_inj]
  exact or_congr_right eq_comm

/-- The skills of each model stay exactly where the requests of a group share their models. -/
theorem querySkillsInjectionTokens_rollupHistorical_iff :
    querySkillsInjectionTokens (rollupHistorical cal today db).1 = querySkillsInjectionTokens db ↔
      SkillsShared cal today db := by
  constructor
  · intro hsame key hendpoint row hrow hskills row' hrow' model hmodel hstage
    by_cases hlength : 1 < (groupRows cal today db key).length
    · have hgroup : (key, groupRows cal today db key) ∈ mergedGroups cal today db :=
        mem_mergedGroups.mpr ⟨rfl, hlength⟩
      have hrowEndpoint : row.endpoint = key.endpoint := endpoint_of_group hgroup hrow
      have hcount := (getD_querySkillsInjectionTokens_rollupHistorical_iff hdb
        (model.modelName, model.providerDnsName)).mp (by rw [hsame]) _ hgroup row hrow
      have hlengths := hcount.resolve_left fun hzero =>
        (skillsOf_eq_zero_iff (hrowEndpoint ▸ hendpoint)).mp hzero hskills
      have hmerged : model.toModelKey ∈ skillsModels (model.modelName, model.providerDnsName)
          (treeOf db row'.id) := by
        refine mem_filter.mpr ⟨?_, and_eq_true_iff.mpr ⟨beq_iff_eq.mpr hstage, decide_eq_true rfl⟩⟩
        rw [treeOf, List.map_map]
        exact mem_map.mpr ⟨model, hmodel, rfl⟩
      have hmem := (length_skillsModels_eq_iff hdb.2 hrow _).mp hlengths _
        (skillsModels_subset hrow' _ hmerged)
      rw [treeOf, List.map_map] at hmem
      exact mem_map.mp hmem
    · have hone : (groupRows cal today db key).length = 1 :=
        Nat.le_antisymm (Nat.le_of_not_lt hlength) (length_pos_of_mem hrow)
      obtain ⟨only, honly⟩ := length_eq_one_iff.mp hone
      rw [honly, mem_singleton] at hrow hrow'
      subst hrow hrow'
      exact ⟨model, hmodel, rfl⟩
  · intro hshared
    funext k
    refine getD_eq_of_isSome (isSome_querySkillsInjectionTokens_rollupHistorical hdb k) ?_
    refine (getD_querySkillsInjectionTokens_rollupHistorical_iff hdb k).mpr ?_
    intro group hgroup row hrow
    have hgroupRow : row ∈ groupRows cal today db group.1 := (mem_mergedGroups.mp hgroup).1 ▸ hrow
    by_cases hendpoint : skillsEndpoints.contains group.1.endpoint = true
    · by_cases hskills : 0 < row.skillsIn
      · refine Or.inr ((length_skillsModels_eq_iff hdb.2 hgroupRow k).mpr fun key hkey => ?_)
        obtain ⟨hmem, hisSkills⟩ := mem_filter.mp hkey
        obtain ⟨entry, hentry, rfl⟩ := mem_map.mp (mem_map_fst_storedModels.mp hmem)
        obtain ⟨row', hrow', hentry⟩ := mem_flatMap.mp hentry
        obtain ⟨model, hmodel, rfl⟩ := mem_map.mp hentry
        have hstage : model.stage = skillsStage := beq_iff_eq.mp (and_eq_true_iff.mp hisSkills).1
        obtain ⟨model', hmodel', hsame⟩ := hshared group.1 hendpoint row hgroupRow hskills row'
          hrow' model hmodel hstage
        rw [treeOf, List.map_map]
        exact mem_map.mpr ⟨model', hmodel', hsame⟩
      · refine Or.inl ((skillsOf_eq_zero_iff ?_).mpr hskills)
        rw [endpoint_of_group hgroup hrow]
        exact hendpoint
    · refine Or.inl (if_neg ?_)
      show ¬skillsEndpoints.contains row.endpoint = true
      rw [endpoint_of_group hgroup hrow]
      exact hendpoint

end

theorem queryTotals_congr {db' : StatsDb} (hunsaved : ∀ keep : ModelKey → TokenKey → Bool,
      (∀ model token, keep model token = true → token.isSaved = false) →
        sumTokens db' keep = sumTokens db keep)
    (hsaved : sumTokens db' (fun _ token => token.isSaved) =
      sumTokens db fun _ token => token.isSaved) (hskills : skillsInTotal db' = skillsInTotal db) :
    (queryTotals db').withoutEvents = (queryTotals db).withoutEvents := by
  have hstage : ∀ stage type, stageTokens db' stage type = stageTokens db stage type := by
    intro stage type
    refine hunsaved _ fun model token h => ?_
    exact Bool.not_eq_true' _ ▸ (and_eq_true_iff.mp h).2
  simp only [Totals.withoutEvents, queryTotals, hstage, hsaved, hskills]

theorem querySkillsBudgetState_congr {κ : Type} (env : BudgetEnv κ) {db' : StatsDb}
    (injectPath : Text) (htotals : (queryTotals db').withoutEvents = (queryTotals db).withoutEvents)
    (hstages : queryStageModelTokens db' = queryStageModelTokens db)
    (hupstream : ∀ k, (queryUpstreamSavedTokens db' k).getD 0 =
      (queryUpstreamSavedTokens db k).getD 0)
    (hskills : querySkillsInjectionTokens db' = querySkillsInjectionTokens db) :
    querySkillsBudgetState env db' injectPath = querySkillsBudgetState env db injectPath := by
  obtain ⟨hsent, hsaved, haccepted, hskillsIn⟩ := Totals.eq_of_withoutEvents htotals
  have hinjected : skillsInTotal db' = skillsInTotal db := hskillsIn
  simp only [querySkillsBudgetState, hsent, hsaved, haccepted, hskillsIn, hinjected, hstages,
    hskills, positiveCounts_congr hupstream]

/-- A rollup after any recordings and rollups keeps the totals and the budget exactly where no group
that it merges has saved less than nothing for a model, and the requests with skills of a group
have all the models of the group. -/
theorem keepsTotals_iff (cal : Calendar δ) (operations : List (Operation δ)) (today : δ) :
    KeepsTotals cal today (performAll cal operations) ↔
      SavedNonneg cal today (performAll cal operations) ∧
        SkillsShared cal today (performAll cal operations) := by
  have hdb := consistent_performAll cal operations
  constructor
  · intro hkeeps
    exact ⟨(sumTokens_saved_iff hdb.1).mp (Totals.eq_of_withoutEvents hkeeps.totals).2.1,
      (querySkillsInjectionTokens_rollupHistorical_iff hdb).mp hkeeps.skillsInjectionTokens⟩
  · rintro ⟨hsaved, hshared⟩
    have hunsaved : ∀ keep : ModelKey → TokenKey → Bool,
        (∀ model token, keep model token = true → token.isSaved = false) →
          sumTokens (rollupHistorical cal today (performAll cal operations)).1 keep =
            sumTokens (performAll cal operations) keep :=
      fun keep hkeep => sumTokens_unsaved hdb.1 hdb.2 hkeep
    have htotals := queryTotals_congr hunsaved ((sumTokens_saved_iff hdb.1).mpr hsaved)
      (skillsInTotal_rollupHistorical hdb.1)
    have hstages : queryStageModelTokens
        (rollupHistorical cal today (performAll cal operations)).1 =
          queryStageModelTokens (performAll cal operations) := by
      funext k
      rw [queryStageModelTokens_eq (sound_rollupHistorical hdb.1 hdb.2),
        queryStageModelTokens_eq hdb.2, hunsaved]
      intro model token h
      exact Bool.not_eq_true' _ ▸ (Bool.and_eq_true_iff.mp (Bool.and_eq_true_iff.mp h).2).2
    have hupstream : ∀ k, (queryUpstreamSavedTokens
        (rollupHistorical cal today (performAll cal operations)).1 k).getD 0 =
          (queryUpstreamSavedTokens (performAll cal operations) k).getD 0 := by
      intro k
      rw [getD_queryUpstreamSavedTokens, getD_queryUpstreamSavedTokens]
      refine (sumTokens_rollupHistorical_iff hdb.1 _).mpr fun key hlength model token h => ?_
      exact hsaved key hlength model token (Bool.and_eq_true_iff.mp (Bool.and_eq_true_iff.mp h).2).2
    have hskills := (querySkillsInjectionTokens_rollupHistorical_iff hdb).mpr hshared
    exact ⟨htotals, hstages, hupstream, hskills,
      fun κ env injectPath => querySkillsBudgetState_congr env injectPath htotals hstages hupstream
        hskills, rowsRemoved_rollupHistorical hdb.1⟩

/-- Days of the same length. -/
def utcCalendar : Calendar ℤ where
  dayOf tsMs := tsMs / 86400000
  dayStart day := day * 86400000
  dayOf_dayStart day := Int.mul_ediv_cancel day (by decide)

/-- A hook call that prunes ten tokens of tools and injects fifty. -/
def costlyInjection : ToolsHookInjection where
  query := "search"
  modelName := "sonnet"
  toolsIn := 100
  toolsOut := 90
  promptTokens := 50
  pruningStages := .empty
  toolsFinalMd := none
  pruneStatus := "applied"
  pipeline := none
  provider := none
  providerDns := none

/-- Two such calls on one day. -/
def costlyDay : StatsDb :=
  performAll utcCalendar
    [.recordToolsHookInjection 1000 costlyInjection, .recordToolsHookInjection 2000 costlyInjection]

/-- What the calls of a day cost beyond what they saved is lost when they are merged. -/
theorem costlyDay_notKept : (queryTotals costlyDay).toolsSaved = -80 ∧
    (queryTotals (rollupHistorical utcCalendar 1 costlyDay).1).toolsSaved = 0 ∧
      ¬KeepsTotals utcCalendar 1 costlyDay := by
  have hbefore : (queryTotals costlyDay).toolsSaved = -80 := by decide +kernel
  have hafter : (queryTotals (rollupHistorical utcCalendar 1 costlyDay).1).toolsSaved = 0 := by
    decide +kernel
  refine ⟨hbefore, hafter, fun hkeeps => ?_⟩
  have hsame := (Totals.eq_of_withoutEvents hkeeps.totals).2.1
  rw [hbefore, hafter] at hsame
  exact absurd hsame (by decide)

end ClearYourTools.Proxy.Stats
