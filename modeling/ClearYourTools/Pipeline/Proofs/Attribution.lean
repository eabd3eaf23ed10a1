import ClearYourTools.PageIndex.Proofs.Isolation
import ClearYourTools.Pipeline.Skills

/-!
# The entries of matches and sections

A skill is an entry directory and a document id, but survivors are grouped, and the rows of the
search trace looked up, by the document id alone. Sections and matches are attributed to their own
entries, in whatever order hash maps are walked, exactly when that id is enough.
-/

namespace ClearYourTools.Bm25Search

open Misc PageIndex List
open List (mem_map)

/-- The entry directory that a group is attributed to. -/
def groupEntryDir (rows : List SkillRow) : Text := (rows.head?.map SkillRow.entryDir).getD []

/-- Every row is in a group that is attributed to the entry it was scored in. -/
def GroupsOwn (survivors : List SkillRow) : Prop :=
  ∀ group ∈ groupSurvivorsByDoc survivors, ∀ row ∈ group.2, row.entryDir = groupEntryDir group.2

theorem map_fst_pushByDoc (row : SkillRow) (groups : List (Text × List SkillRow)) :
    (pushByDoc row groups).map Prod.fst =
      if row.docId ∈ groups.map Prod.fst then groups.map Prod.fst
      else groups.map Prod.fst ++ [row.docId] := by
  induction groups with
  | nil => rfl
  | cons group groups ih =>
    rw [pushByDoc]
    by_cases hkey : group.1 = row.docId
    · rw [if_pos hkey, map_cons, map_cons, if_pos (by rw [hkey]; exact
        mem_cons_self)]
    rw [if_neg hkey, map_cons, map_cons, ih]
    have hne : row.docId ≠ group.1 := Ne.symm hkey
    simp only [mem_cons, hne, false_or]
    split
    · rfl
    · rfl

/-- The row goes to the end of its group, which may be a new one; the others stay. -/
theorem mem_pushByDoc {row : SkillRow} {groups : List (Text × List SkillRow)}
    (hnodup : (groups.map Prod.fst).Nodup) {group : Text × List SkillRow}
    (h : group ∈ pushByDoc row groups) :
    (group.1 = row.docId ∧ ∃ old, group.2 = old ++ [row] ∧
        ((group.1, old) ∈ groups ∨ old = [] ∧ row.docId ∉ groups.map Prod.fst)) ∨
      (group.1 ≠ row.docId ∧ group ∈ groups) := by
  induction groups with
  | nil =>
    obtain rfl := mem_singleton.mp h
    exact .inl ⟨rfl, [], rfl, .inr ⟨rfl, not_mem_nil⟩⟩
  | cons first groups ih =>
    obtain ⟨hfirst, hnodup⟩ := nodup_cons.mp hnodup
    rw [pushByDoc] at h
    by_cases hkey : first.1 = row.docId
    · rw [if_pos hkey] at h
      rcases mem_cons.mp h with rfl | h
      · exact .inl ⟨hkey, first.2, rfl, .inl mem_cons_self⟩
      · refine .inr ⟨fun hgroup => hfirst ?_, mem_cons_of_mem first h⟩
        rw [hkey, ← hgroup]
        exact mem_map.mpr ⟨group, h, rfl⟩
    · rw [if_neg hkey] at h
      rcases mem_cons.mp h with rfl | h
      · exact .inr ⟨hkey, mem_cons_self⟩
      rcases ih hnodup h with ⟨hgroup, old, hold, hfound⟩ | ⟨hgroup, hmem⟩
      · refine .inl ⟨hgroup, old, hold, ?_⟩
        rcases hfound with hfound | ⟨hnil, hnew⟩
        · exact .inl (mem_cons_of_mem first hfound)
        · refine .inr ⟨hnil, fun hin => ?_⟩
          rcases mem_cons.mp hin with heq | hin
          · exact hkey heq.symm
          · exact hnew hin
      · exact .inr ⟨hgroup, mem_cons_of_mem first hmem⟩

/-- The groups of the rows that are done. -/
structure GroupsOf (groups : List (Text × List SkillRow)) (done : List SkillRow) : Prop where
  nodup : (groups.map Prod.fst).Nodup
  rows : ∀ group ∈ groups, group.2 = done.filter fun row => row.docId == group.1
  ne_nil : ∀ group ∈ groups, group.2 ≠ []
  covers : ∀ row ∈ done, row.docId ∈ groups.map Prod.fst

theorem GroupsOf.push {groups : List (Text × List SkillRow)} {done : List SkillRow}
    (h : GroupsOf groups done) (row : SkillRow) :
    GroupsOf (pushByDoc row groups) (done ++ [row]) := by
  have hkeys := map_fst_pushByDoc row groups
  constructor
  · rw [hkeys]
    split
    · exact h.nodup
    · rename_i hnew
      exact List.Nodup.append h.nodup (nodup_singleton _) (disjoint_singleton.mpr hnew)
  · intro group hgroup
    rw [filter_append]
    rcases mem_pushByDoc h.nodup hgroup with ⟨hdoc, old, hold, hfound⟩ | ⟨hdoc, hmem⟩
    · have hown : ([row].filter fun r => r.docId == group.1) = [row] := by
        rw [filter_cons_of_pos (by rw [hdoc]; exact beq_self_eq_true _), filter_nil]
      rw [hold, hown]
      congr 1
      rcases hfound with hfound | ⟨rfl, hnew⟩
      · exact h.rows (group.1, old) hfound
      · refine (filter_eq_nil_iff.mpr fun r hr heq => ?_).symm
        rw [hdoc, beq_iff_eq] at heq
        rw [← heq] at hnew
        exact hnew (h.covers r hr)
    · have hother : ([row].filter fun r => r.docId == group.1) = [] := by
        rw [filter_cons_of_neg (by rw [beq_iff_eq]; exact Ne.symm hdoc), filter_nil]
      rw [hother, List.append_nil]
      exact h.rows group hmem
  · intro group hgroup
    rcases mem_pushByDoc h.nodup hgroup with ⟨-, old, hold, -⟩ | ⟨-, hmem⟩
    · rw [hold]
      exact append_ne_nil_of_right_ne_nil _ (cons_ne_nil _ _)
    · exact h.ne_nil group hmem
  · intro r hr
    rw [hkeys]
    rcases mem_append.mp hr with hr | hr
    · split
      · exact h.covers r hr
      · exact mem_append_left _ (h.covers r hr)
    · obtain rfl := mem_singleton.mp hr
      split
      · assumption
      · exact mem_append_right _ mem_cons_self

variable (survivors : List SkillRow)

theorem groupsOf_groupSurvivorsByDoc : GroupsOf (groupSurvivorsByDoc survivors) survivors := by
  have hfrom : ∀ (rows done : List SkillRow) (groups : List (Text × List SkillRow)),
      GroupsOf groups done →
        GroupsOf (rows.foldl (fun groups row => pushByDoc row groups) groups) (done ++ rows) := by
    intro rows
    induction rows with
    | nil =>
      intro done groups h
      rw [List.append_nil]
      exact h
    | cons row rows ih =>
      intro done groups h
      have hnext := ih (done ++ [row]) (pushByDoc row groups) (h.push row)
      rw [List.append_assoc, singleton_append] at hnext
      exact hnext
  have hnil : GroupsOf [] [] := ⟨nodup_nil, by simp, by simp, by simp⟩
  exact hfrom survivors [] [] hnil

theorem groupsOwn_iff :
    GroupsOwn survivors ↔ ∀ row ∈ survivors, ∀ other ∈ survivors, row.docId = other.docId →
      row.entryDir = other.entryDir := by
  have hgroups := groupsOf_groupSurvivorsByDoc survivors
  constructor
  · intro hown row hrow other hother hdoc
    obtain ⟨group, hgroup, hkey⟩ := mem_map.mp (hgroups.covers row hrow)
    have hin : row ∈ group.2 := by
      rw [hgroups.rows group hgroup]
      exact mem_filter.mpr ⟨hrow, beq_iff_eq.mpr hkey.symm⟩
    have hin' : other ∈ group.2 := by
      rw [hgroups.rows group hgroup]
      exact mem_filter.mpr ⟨hother, beq_iff_eq.mpr (hdoc.symm.trans hkey.symm)⟩
    rw [hown group hgroup row hin, hown group hgroup other hin']
  · intro hsame group hgroup row hrow
    have hmem : ∀ r ∈ group.2, r ∈ survivors ∧ r.docId = group.1 := by
      intro r hr
      rw [hgroups.rows group hgroup] at hr
      obtain ⟨hr, hdoc⟩ := mem_filter.mp hr
      exact ⟨hr, beq_iff_eq.mp hdoc⟩
    obtain ⟨first, rest, hfirst⟩ := exists_cons_of_ne_nil (hgroups.ne_nil group hgroup)
    have hhead : first ∈ group.2 := by
      rw [hfirst]
      exact mem_cons_self
    obtain ⟨hr, hdoc⟩ := hmem row hrow
    obtain ⟨hf, hdoc'⟩ := hmem first hhead
    rw [groupEntryDir, hfirst]
    exact hsame row hr first hf (hdoc.trans hdoc'.symm)

end ClearYourTools.Bm25Search

namespace ClearYourTools.Pipeline

open Misc PageIndex Bm25Search List Option

/-- The entries that an index run leaves: of different skills, with names, and the document in an
entry directory is the entry's own. -/
structure Indexed (store : SkillStore) (entries : List SkillEntry) : Prop where
  distinct : (entries.map SkillEntry.key).Nodup
  entryDir_ne_nil : ∀ entry ∈ entries, entry.entryDir ≠ []
  docId_ne_nil : ∀ entry ∈ entries, entry.docId ≠ []
  own_document : ∀ entry ∈ entries, ∀ doc, store.loadDocument entry = some (some doc) →
    doc.id = entry.docId

/-- The sections that the search scores at or above the threshold. -/
def survivors (store : SkillStore) (entries : List SkillEntry) (query : Text)
    (options : SearchSkillsOptions) : List SkillRow :=
  if query.isBlank ∨ entries = [] then []
  else ((scoredChunks store (eligibleEntries store entries query options) query).getD []).filter
    (meetsThreshold options.threshold)

/-- The row is a section of the entry. -/
def SectionOf (store : SkillStore) (entry : SkillEntry) (row : SkillRow) : Prop :=
  row.entryDir = entry.entryDir ∧ row.bm25ChunkDir = entry.chunkDir ∧
    ∃ doc, store.loadDocument entry = some (some doc) ∧ row.docId = doc.id ∧
      row.filePath = rowPath entry doc

/-- The score of a match of the given sections. -/
def ScoreOf (rows : List SkillRow) (score : PyFloat) : Prop :=
  score = jsonNumber (topScore (rows.map SkillRow.score)) ∨
    score = topScore (rows.map fun row => jsonNumber row.score)

/-- The markdown, up to space at its ends, is restored from the index of the entry by the ids of
the sections. -/
def RestoredFrom (store : SkillStore) (entry : SkillEntry) (rows : List SkillRow)
    (markdown : Text) : Prop :=
  ∃ variant index restored, (variant = some entry.chunkDir ∨ variant = none ∧ entry.chunkDir = []) ∧
    (let specs := (sortDedup (rows.map SkillRow.id)).map Text.ofNat
     restore store entry.entryDir entry.docId variant [] specs = some (index, restored) ∨
       restore store entry.entryDir entry.docId variant specs [] = some (index, restored)) ∧
    (markdown = restored ∨ markdown = restored.trim)

/-- The match is made of surviving sections of the entry: score, path and markdown. -/
structure OwnMatch (store : SkillStore) (entry : SkillEntry) (survivors : List SkillRow)
    (found : SkillMatch) : Prop where
  entryDir : found.entryDir = entry.entryDir
  docId : found.docId = entry.docId
  sourcePath : ∃ doc, store.loadDocument entry = some (some doc) ∧
    found.filePath = rowPath entry doc
  sections : ∃ rows, rows ≠ [] ∧ (∀ row ∈ rows, row ∈ survivors ∧ row.key = entry.key) ∧
    ScoreOf rows found.score ∧ RestoredFrom store entry rows found.markdown

/-- Every section is attributed to its entry, by the groups and under a budget, and every match
that is returned is made of sections of its own entry. -/
structure Attributed (store : SkillStore) (orders : HashOrders) (entries : List SkillEntry)
    (query : Text) (options : SearchSkillsOptions) : Prop where
  grouped : GroupsOwn (survivors store entries query options)
  selected : 0 < options.maxTokens → ∀ row ∈ survivors store entries query options,
    (entryOfRow orders.lookup (entryLookup entries) (traceRow options.threshold row)).map
      SkillEntry.entryDir = some row.entryDir
  own : ∀ found, searchSkillsAndSelect store orders entries query options = some found →
    ∀ found' ∈ found, ∃ entry ∈ entries,
      OwnMatch store entry (survivors store entries query options) found'

/-- The document id of a surviving section is enough: no other entry has survivors with it, and
under a budget, no other entry has it at all. -/
structure IdSuffices (store : SkillStore) (entries : List SkillEntry) (query : Text)
    (options : SearchSkillsOptions) : Prop where
  survivors : ∀ row ∈ survivors store entries query options,
    ∀ other ∈ survivors store entries query options, row.docId = other.docId →
      row.entryDir = other.entryDir
  entries : 0 < options.maxTokens → ∀ row ∈ Pipeline.survivors store entries query options,
    ∀ entry ∈ entries, entry.docId = row.docId → entry.entryDir = row.entryDir

variable {store : SkillStore} {entry : SkillEntry} {row : SkillRow}

theorem sectionOf_entryRows {rows : List SkillRow} (h : entryRows store entry = some rows)
    (hrow : row ∈ rows) : SectionOf store entry row := by
  obtain ⟨found, hfound, rfl⟩ := map_eq_some_iff.mp h
  cases found with
  | none => exact absurd hrow not_mem_nil
  | some doc =>
    obtain ⟨id, -, hid⟩ := mem_filterMap.mp hrow
    obtain ⟨content, -, hcontent⟩ := bind_eq_some_iff.mp hid
    simp only at hcontent
    split at hcontent
    · cases hcontent
    · obtain rfl := Option.some.inj hcontent
      exact ⟨rfl, rfl, doc, hfound, rfl, rfl⟩

variable {entries : List SkillEntry} {query : Text}

theorem sectionOf_scoredChunks {scored : List SkillRow}
    (h : scoredChunks store entries query = some scored) (hrow : row ∈ scored) :
    ∃ entry ∈ entries, SectionOf store entry row := by
  obtain ⟨corpus, hcorpus, rfl⟩ := map_eq_some_iff.mp h
  obtain ⟨lists, hlists, rfl⟩ := map_eq_some_iff.mp hcorpus
  rw [scoreCatalogDict, mem_mergeSort, mem_mapIdx] at hrow
  obtain ⟨i, hi, rfl⟩ := hrow
  obtain ⟨rows, hrows, hmem⟩ := mem_flatten.mp (getElem_mem hi)
  obtain ⟨entry, hentry, hfound⟩ := mem_of_mapM hlists hrows
  have hsection : SectionOf store entry lists.flatten[i] := sectionOf_entryRows hfound hmem
  exact ⟨entry, hentry, hsection⟩

variable {options : SearchSkillsOptions}

theorem eligibleEntries_subset (h : entry ∈ eligibleEntries store entries query options) :
    entry ∈ entries := by
  unfold eligibleEntries at h
  split at h
  · exact h
  · exact (mem_filter.mp h).1

theorem sectionOf_survivors (h : row ∈ survivors store entries query options) :
    ∃ entry ∈ entries, SectionOf store entry row := by
  unfold survivors at h
  split at h
  · exact absurd h not_mem_nil
  obtain ⟨hmem, -⟩ := mem_filter.mp h
  cases hscored : scoredChunks store (eligibleEntries store entries query options) query with
  | none =>
    rw [hscored] at hmem
    exact absurd hmem not_mem_nil
  | some scored =>
    rw [hscored] at hmem
    obtain ⟨entry, hentry, hsection⟩ := sectionOf_scoredChunks hscored hmem
    exact ⟨entry, eligibleEntries_subset hentry, hsection⟩

theorem SectionOf.key_eq (h : SectionOf store entry row) (hindexed : Indexed store entries)
    (hentry : entry ∈ entries) : row.key = entry.key := by
  obtain ⟨hdir, -, doc, hdoc, hid, -⟩ := h
  rw [SkillRow.key, SkillEntry.key, hdir, hid, hindexed.own_document entry hentry doc hdoc]

/-- The walk that starts at the given entry of a hash map. -/
def walkFirst {α : Type} [DecidableEq α] (x : α) : HashOrder α where
  walk xs := if x ∈ xs then x :: xs.erase x else xs
  perm xs := by
    split
    · rename_i hx
      exact (List.perm_cons_erase hx).symm
    · exact List.Perm.refl xs

theorem entryLookup_eq (h : Indexed store entries) :
    entryLookup entries = entries.map fun entry => (entry.key, entry) := by
  have hfrom : ∀ (es : List SkillEntry) (acc : List ((Text × Text) × SkillEntry)),
      (acc.map Prod.fst ++ es.map SkillEntry.key).Nodup → (∀ e ∈ es, e.entryDir ≠ [] ∧
      e.docId ≠ []) → es.foldl addEntry acc = acc ++ es.map fun entry => (entry.key, entry) := by
    intro es
    induction es with
    | nil =>
      intro acc _ _
      rw [map_nil, List.append_nil]
      rfl
    | cons e es ih =>
      intro acc hnodup hne
      obtain ⟨hdir, hdoc⟩ := hne e mem_cons_self
      have hnew : e.key ∉ acc.map Prod.fst := by
        intro hin
        exact (nodup_append.mp hnodup).2.2 e.key hin e.key mem_cons_self rfl
      have hadd : addEntry acc e = acc ++ [(e.key, e)] := by
        rw [addEntry, if_neg (not_or.mpr ⟨hdir, hdoc⟩), Dict.setEntries_of_notMem hnew]
      rw [foldl_cons, hadd, ih, List.append_assoc, singleton_append, map_cons]
      · rw [map_append, List.append_assoc]
        exact hnodup
      · exact fun e' he' => hne e' (mem_cons_of_mem e he')
  refine hfrom entries [] ?_ fun e he => ⟨h.entryDir_ne_nil e he, h.docId_ne_nil e he⟩
  exact h.distinct

theorem entryOfRow_traceRow (order : HashOrder ((Text × Text) × SkillEntry))
    (lookup : List ((Text × Text) × SkillEntry)) (threshold : PyFloat) (row : SkillRow) :
    entryOfRow order lookup (traceRow threshold row) =
      ((order.walk lookup).find? fun e => e.1.2 == row.docId).map Prod.snd := rfl

theorem entryOfRow_own (hindexed : Indexed store entries)
    (order : HashOrder ((Text × Text) × SkillEntry)) (threshold : PyFloat) {own : SkillEntry}
    (hown : own ∈ entries) (hkey : row.key = own.key)
    (hid : ∀ entry ∈ entries, entry.docId = row.docId → entry.entryDir = row.entryDir) :
    ∃ entry ∈ entries, entry.key = row.key ∧
      entryOfRow order (entryLookup entries) (traceRow threshold row) = some entry := by
  rw [entryOfRow_traceRow, entryLookup_eq hindexed]
  have hmem : (own.key, own) ∈ order.walk (entries.map fun entry => (entry.key, entry)) :=
    (order.perm _).mem_iff.mpr (mem_map.mpr ⟨own, hown, rfl⟩)
  have hdoc : own.docId = row.docId := (congrArg Prod.snd hkey).symm
  cases hfound : (order.walk (entries.map fun entry => (entry.key, entry))).find?
      fun e => e.1.2 == row.docId with
  | none => exact absurd (beq_iff_eq.mpr hdoc) (find?_eq_none.mp hfound _ hmem)
  | some e =>
    have hin := (order.perm _).mem_iff.mp (mem_of_find?_eq_some hfound)
    obtain ⟨entry, hentry, rfl⟩ := mem_map.mp hin
    have htest := find?_some hfound
    have hsame : entry.docId = row.docId := by simpa [SkillEntry.key] using htest
    have hdir := hid entry hentry hsame
    exact ⟨entry, hentry, Prod.ext hdir hsame, rfl⟩

theorem entryOfRow_walkFirst (hindexed : Indexed store entries) (threshold : PyFloat)
    (hentry : entry ∈ entries) (hdoc : entry.docId = row.docId) :
    entryOfRow (walkFirst (entry.key, entry)) (entryLookup entries) (traceRow threshold row) =
      some entry := by
  have hmem : (entry.key, entry) ∈ entries.map fun entry => (entry.key, entry) :=
    mem_map.mpr ⟨entry, hentry, rfl⟩
  obtain ⟨rest, hwalk⟩ : ∃ rest, (walkFirst (entry.key, entry)).walk
      (entries.map fun entry => (entry.key, entry)) = (entry.key, entry) :: rest := by
    rw [walkFirst]
    simp only [if_pos hmem]
    exact ⟨_, rfl⟩
  have htest : (entry.key.2 == row.docId) = true := beq_iff_eq.mpr hdoc
  rw [entryOfRow_traceRow, entryLookup_eq hindexed, hwalk, find?_cons, htest]
  rfl

theorem rebuildSkillMatch_own {known : List SkillEntry} (hindexed : Indexed store entries)
    (hsame : ∀ row ∈ survivors store entries query options,
      ∀ other ∈ survivors store entries query options, row.docId = other.docId →
        row.entryDir = other.entryDir) {group : Text × List SkillRow}
    (hgroup : group ∈ groupSurvivorsByDoc (survivors store entries query options))
    {found : SkillMatch} (h : rebuildSkillMatch store known group = some (some found)) :
    ∃ entry ∈ entries, OwnMatch store entry (survivors store entries query options) found := by
  have hgroups := groupsOf_groupSurvivorsByDoc (survivors store entries query options)
  have hmem : ∀ row ∈ group.2, row ∈ survivors store entries query options ∧
      row.docId = group.1 := by
    intro row hrow
    rw [hgroups.rows group hgroup] at hrow
    obtain ⟨hrow, hdoc⟩ := mem_filter.mp hrow
    exact ⟨hrow, beq_iff_eq.mp hdoc⟩
  obtain ⟨first, rest, hfirst⟩ := exists_cons_of_ne_nil (hgroups.ne_nil group hgroup)
  obtain ⟨hhead, hdoc⟩ := hmem first (by rw [hfirst]; exact mem_cons_self)
  obtain ⟨entry, hentry, hsection⟩ := sectionOf_survivors hhead
  have hkey := hsection.key_eq hindexed hentry
  obtain ⟨hdir, hchunk, doc, hloaded, -, hpath⟩ := hsection
  have hid : group.1 = entry.docId := hdoc.symm.trans (congrArg Prod.snd hkey)
  obtain ⟨⟨index, restored⟩, hrestored, hfound⟩ := map_eq_some_iff.mp h
  rw [hfirst] at hrestored hfound
  simp only [head?_cons, map_some, getD_some] at hrestored hfound
  split at hfound
  · cases hfound
  obtain rfl := Option.some.inj hfound
  refine ⟨entry, hentry, hdir, hid, ⟨doc, hloaded, hpath⟩, group.2,
    hgroups.ne_nil group hgroup, ?_, ?_, ?_⟩
  · intro row hrow
    obtain ⟨hsurvives, hrowDoc⟩ := hmem row hrow
    have hrowDir := hsame row hsurvives first hhead (hrowDoc.trans hdoc.symm)
    exact ⟨hsurvives, (Prod.ext hrowDir (hrowDoc.trans hdoc.symm)).trans hkey⟩
  · rw [hfirst]
    exact .inl rfl
  · refine ⟨some entry.chunkDir, index, restored, .inl rfl, .inl ?_, .inl rfl⟩
    rw [hfirst, ← hdir, ← hchunk, ← hid]
    exact hrestored

/-- The row of a selection stands for a surviving section, with the data of its entry. -/
def OwnBudgetRow (store : SkillStore) (entries : List SkillEntry) (survivors : List SkillRow)
    (selected : BudgetRow) : Prop :=
  ∃ row ∈ survivors, ∃ entry ∈ entries, SectionOf store entry row ∧ row.key = entry.key ∧
    selected.docKey = entry.key ∧ selected.itemId = row.id ∧ selected.score = jsonNumber row.score ∧
    selected.filePath = row.filePath ∧ selected.bm25ChunkDir = entry.chunkDir

/-- The selection has rows of their entries, and matches made of sections of their entries. -/
structure GreedyOwn (store : SkillStore) (entries : List SkillEntry)
    (survivors : List SkillRow) (state : GreedyState) : Prop where
  rows : ∀ doc ∈ state.rowsByDoc, ∀ selected ∈ doc.2,
    OwnBudgetRow store entries survivors selected ∧ selected.docKey = doc.1
  byDoc : ∀ doc ∈ state.matchByDoc, ∀ found, doc.2 = some found →
    ∃ entry ∈ entries, OwnMatch store entry survivors found
  best : ∀ found ∈ state.bestMatches, ∃ entry ∈ entries, OwnMatch store entry survivors found

variable {store : SkillStore} {entries : List SkillEntry} {survived : List SkillRow}

variable {state : GreedyState}

theorem trialDocRows_own (hstate : GreedyOwn store entries survived state) {row : BudgetRow}
    (hrow : OwnBudgetRow store entries survived row) :
    ∀ selected ∈ trialDocRows state row,
      OwnBudgetRow store entries survived selected ∧ selected.docKey = row.docKey := by
  intro selected hselected
  rcases mem_append.mp hselected with hold | hnew
  · cases hlookup : state.rowsByDoc.lookup row.docKey with
    | none =>
      rw [hlookup] at hold
      exact absurd hold not_mem_nil
    | some rows =>
      rw [hlookup] at hold
      obtain ⟨before, after, hsplit, -⟩ := lookup_eq_some_iff.mp hlookup
      have hmem : (row.docKey, rows) ∈ state.rowsByDoc := by
        rw [hsplit]
        exact mem_append_right _ mem_cons_self
      exact hstate.rows _ hmem selected hold
  · obtain rfl := mem_singleton.mp hnew
    exact ⟨hrow, rfl⟩

variable {rows : List BudgetRow}

theorem sections_of_rows {key : Text × Text}
    (h : ∀ selected ∈ rows, OwnBudgetRow store entries survived selected ∧ selected.docKey = key) :
    ∃ sections : List SkillRow, sections.length = rows.length ∧ (∀ row ∈ sections, row ∈ survived ∧
      row.key = key) ∧ sections.map SkillRow.id = rows.map BudgetRow.itemId ∧
      (sections.map fun row => jsonNumber row.score) = rows.map BudgetRow.score := by
  induction rows with
  | nil => exact ⟨[], rfl, by simp, rfl, rfl⟩
  | cons selected rows ih =>
    obtain ⟨sections, hlength, hmem, hids, hscores⟩ :=
      ih fun other hother => h other (mem_cons_of_mem selected hother)
    obtain ⟨⟨row, hrow, entry, -, -, hkey, hdoc, hid, hscore, -, -⟩, hselected⟩ :=
      h selected mem_cons_self
    refine ⟨row :: sections, by rw [length_cons, length_cons, hlength],
      forall_mem_cons.mpr ⟨⟨hrow, ?_⟩, hmem⟩, ?_, ?_⟩
    · rw [hkey, ← hdoc, hselected]
    · rw [map_cons, map_cons, hids, hid]
    · rw [map_cons, map_cons, hscores, hscore]

variable {itemKind : Text}

theorem reconstructGroupMatch_own (hstate : GreedyOwn store entries survived state)
    {row : BudgetRow} (hrow : OwnBudgetRow store entries survived row) {found : SkillMatch}
    (h : reconstructGroupMatch store row.entryDir row.docId row.bm25ChunkDir itemKind
      (sortDedup ((trialDocRows state row).map BudgetRow.itemId)) row.filePath
      (topScore ((trialDocRows state row).map BudgetRow.score)) row.frontmatter =
        some (some found)) : ∃ entry ∈ entries, OwnMatch store entry survived found := by
  obtain ⟨sections, hlength, hmem, hids, hscores⟩ :=
    sections_of_rows (trialDocRows_own hstate hrow)
  obtain ⟨own, -, entry, hentry, hsection, -, hkey, -, -, hpath, hchunk⟩ := hrow
  obtain ⟨-, -, doc, hloaded, -, hown⟩ := hsection
  have hdir : row.entryDir = entry.entryDir := congrArg Prod.fst hkey
  have hdoc : row.docId = entry.docId := congrArg Prod.snd hkey
  obtain ⟨⟨index, restored⟩, hrestored, hfound⟩ := map_eq_some_iff.mp h
  simp only at hfound
  split at hfound
  · cases hfound
  obtain rfl := Option.some.inj hfound
  refine ⟨entry, hentry, hdir, hdoc, ⟨doc, hloaded, hpath.trans hown⟩, sections, ?_, ?_, ?_, ?_⟩
  · intro hnil
    rw [hnil, trialDocRows, length_append] at hlength
    simp at hlength
  · intro section' hsection
    obtain ⟨hsurvives, hsectionKey⟩ := hmem section' hsection
    exact ⟨hsurvives, hsectionKey.trans hkey⟩
  · exact .inr (congrArg topScore hscores.symm)
  · refine ⟨if row.bm25ChunkDir = [] then none else some row.bm25ChunkDir, index, restored,
      ?_, ?_, .inr rfl⟩
    · rw [hchunk]
      split
      · exact .inr ⟨rfl, by assumption⟩
      · exact .inl rfl
    · rw [hids, ← hdir, ← hdoc]
      split at hrestored
      · exact .inl hrestored
      · exact .inr hrestored

variable {maxTokens : ℤ}
variable {order : HashOrder (Option SkillMatch)}

theorem greedyStep_own {state' : GreedyState} (hstate : GreedyOwn store entries survived state)
    {row : BudgetRow} (hrow : OwnBudgetRow store entries survived row)
    (h : greedyStep store order itemKind maxTokens state row = some state') :
    GreedyOwn store entries survived state' := by
  obtain ⟨trial, htrial, hstep⟩ := map_eq_some_iff.mp h
  have hbyDoc : ∀ doc ∈ Dict.setEntries row.docKey trial state.matchByDoc, ∀ found,
      doc.2 = some found → ∃ entry ∈ entries, OwnMatch store entry survived found := by
    intro doc hdoc found hfound
    rcases Dict.mem_setEntries hdoc with rfl | hdoc
    · have hvalue : trial = some found := hfound
      rw [hvalue] at htrial
      exact reconstructGroupMatch_own hstate hrow htrial
    · exact hstate.byDoc doc hdoc found hfound
  simp only at hstep
  split at hstep
  · rw [← hstep]
    refine ⟨?_, hbyDoc, ?_⟩
    · intro doc hdoc
      rcases Dict.mem_setEntries hdoc with rfl | hdoc
      · exact trialDocRows_own hstate hrow
      · exact hstate.rows doc hdoc
    · intro found hfound
      rw [mem_mergeSort] at hfound
      obtain ⟨value, hvalue, hsome⟩ := mem_filterMap.mp hfound
      obtain ⟨doc, hdoc, rfl⟩ := mem_map.mp ((order.perm _).mem_iff.mp hvalue)
      exact hbyDoc doc hdoc found hsome
  · rw [← hstep]
    exact hstate

theorem foldlM_greedyStep_own (hrows : ∀ row ∈ rows, OwnBudgetRow store entries survived row)
    {state' : GreedyState} (hstate : GreedyOwn store entries survived state)
    (h : rows.foldlM (greedyStep store order itemKind maxTokens) state = some state') :
    GreedyOwn store entries survived state' := by
  induction rows generalizing state with
  | nil =>
    obtain rfl := Option.some.inj h
    exact hstate
  | cons row rows ih =>
    rw [foldlM_cons] at h
    obtain ⟨next, hnext, h⟩ := bind_eq_some_iff.mp h
    exact ih (fun other hother => hrows other (mem_cons_of_mem row hother))
      (greedyStep_own hstate (hrows row mem_cons_self) hnext) h

theorem mem_keepBest {best : List ((Text × ℕ) × BudgetRow)} {e : (Text × ℕ) × BudgetRow}
    (h : e ∈ rows.foldl keepBest best) : e ∈ best ∨ e.2 ∈ rows ∧ e.2.passed = true := by
  induction rows generalizing best with
  | nil => exact .inl h
  | cons row rows ih =>
    have hstep : ∀ e ∈ keepBest best row, e ∈ best ∨ e.2 = row ∧ row.passed = true := by
      intro e he
      unfold keepBest at he
      split at he
      · exact .inl he
      rename_i hpassed
      rw [not_or, Bool.not_eq_false] at hpassed
      split at he
      · rcases Dict.mem_setEntries he with rfl | he
        · exact .inr ⟨rfl, hpassed.1⟩
        · exact .inl he
      · split at he
        · rcases Dict.mem_setEntries he with rfl | he
          · exact .inr ⟨rfl, hpassed.1⟩
          · exact .inl he
        · exact .inl he
    rcases ih h with h | ⟨hmem, hpassed⟩
    · rcases hstep e h with h | ⟨heq, hpassed⟩
      · exact .inl h
      · refine .inr ⟨?_, ?_⟩
        · rw [heq]
          exact mem_cons_self
        · rw [heq]
          exact hpassed
    · exact .inr ⟨mem_cons_of_mem row hmem, hpassed⟩

theorem greedySelectSkillItems_own {bestOrder : HashOrder BudgetRow}
    {matchOrder : HashOrder (Option SkillMatch)} {found : List SkillMatch}
    (hrows : ∀ row ∈ rows, row.passed = true → OwnBudgetRow store entries survived row)
    (h : greedySelectSkillItems store bestOrder matchOrder rows itemKind maxTokens =
      some found) : ∀ one ∈ found, ∃ entry ∈ entries, OwnMatch store entry survived one := by
  obtain ⟨state, hstate, rfl⟩ := map_eq_some_iff.mp h
  refine (foldlM_greedyStep_own ?_ ⟨by simp, by simp, by simp⟩ hstate).best
  intro row hrow
  rw [mem_mergeSort] at hrow
  obtain ⟨e, he, rfl⟩ := mem_map.mp ((bestOrder.perm _).mem_iff.mp hrow)
  rcases mem_keepBest he with hnil | ⟨hmem, hpassed⟩
  · exact absurd hnil not_mem_nil
  · exact hrows e.2 hmem hpassed

theorem Indexed.eq_of_key (h : Indexed store entries) {a b : SkillEntry} (ha : a ∈ entries)
    (hb : b ∈ entries) (hkey : a.key = b.key) : a = b :=
  inj_on_of_nodup_map h.distinct ha hb hkey

section

variable {query : Text} {options : SearchSkillsOptions}

theorem survivors_of_scored (hquery : ¬ (query.isBlank = true ∨ entries = []))
    {scored : List SkillRow}
    (hscored : scoredChunks store (eligibleEntries store entries query options) query =
      some scored) :
    survivors store entries query options = scored.filter (meetsThreshold options.threshold) := by
  rw [survivors, if_neg hquery, hscored, getD_some]

theorem enrichSurvivor_own (hindexed : Indexed store entries)
    (hid : ∀ row ∈ survivors store entries query options,
      ∀ entry ∈ entries, entry.docId = row.docId → entry.entryDir = row.entryDir)
    {order : HashOrder ((Text × Text) × SkillEntry)} {row : SkillRow}
    (hrow : row ∈ survivors store entries query options) {entry : SkillEntry}
    (hfound : entryOfRow order (entryLookup entries) (traceRow options.threshold row) =
      some entry) :
    OwnBudgetRow store entries (survivors store entries query options)
      (enrichSurvivor (traceRow options.threshold row) entry) := by
  obtain ⟨own, hown, hsection⟩ := sectionOf_survivors hrow
  have hkey := hsection.key_eq hindexed hown
  obtain ⟨other, hother, hotherKey, hotherFound⟩ :=
    entryOfRow_own hindexed order options.threshold hown hkey (hid row hrow)
  obtain rfl := Option.some.inj (hfound.symm.trans hotherFound)
  obtain rfl := hindexed.eq_of_key hother hown (hotherKey.trans hkey)
  have hdoc : row.docId = entry.docId := congrArg Prod.snd hkey
  exact ⟨row, hrow, entry, hown, hsection, hkey, Prod.ext rfl hdoc, rfl, rfl, rfl, rfl⟩

theorem searchSkillsAndSelect_own (hindexed : Indexed store entries)
    (hsuffices : IdSuffices store entries query options) {orders : HashOrders}
    {found : List SkillMatch}
    (h : searchSkillsAndSelect store orders entries query options = some found) :
    ∀ one ∈ found, ∃ entry ∈ entries,
      OwnMatch store entry (survivors store entries query options) one := by
  unfold searchSkillsAndSelect at h
  by_cases hquery : query.isBlank = true ∨ entries = []
  · rw [if_pos hquery] at h
    obtain rfl := Option.some.inj h
    exact fun one hone => absurd hone not_mem_nil
  rw [if_neg hquery] at h
  obtain ⟨⟨rebuilt, trace⟩, hsearch, h⟩ := bind_eq_some_iff.mp h
  obtain ⟨scored, hscored, hsearch⟩ := bind_eq_some_iff.mp hsearch
  obtain ⟨matches', hmatches, hpair⟩ := map_eq_some_iff.mp hsearch
  obtain ⟨rfl, rfl⟩ := Prod.mk.inj hpair
  have hsurvivors := survivors_of_scored hquery hscored
  have hrebuilt : ∀ one ∈ matches', ∃ entry ∈ entries,
      OwnMatch store entry (survivors store entries query options) one := by
    intro one hone
    obtain ⟨list, hlist, rfl⟩ := map_eq_some_iff.mp hmatches
    obtain ⟨value, hvalue, hsome⟩ := mem_filterMap.mp hone
    obtain ⟨group, hgroup, hmatch⟩ := mem_of_mapM hlist hvalue
    rw [id_eq] at hsome
    rw [hsome] at hmatch
    refine rebuildSkillMatch_own hindexed hsuffices.survivors ?_ hmatch
    rw [hsurvivors]
    exact (orders.byDoc.perm _).mem_iff.mp hgroup
  simp only at h
  split at h
  · rename_i hbudget
    unfold applyBudgetSelection at h
    simp only at h
    split at h
    · obtain rfl := Option.some.inj h
      exact hrebuilt
    refine greedySelectSkillItems_own (fun selected hselected hpassed => ?_) h
    obtain ⟨trace, htrace, hfound⟩ := mem_filterMap.mp hselected
    obtain ⟨entry, hentry, rfl⟩ := map_eq_some_iff.mp hfound
    obtain ⟨row, hrow, rfl⟩ := mem_map.mp htrace
    have hrow' : row ∈ survivors store entries query options := by
      rw [hsurvivors]
      exact mem_filter.mpr ⟨hrow, hpassed⟩
    exact enrichSurvivor_own hindexed (hsuffices.entries hbudget.1) hrow' hentry
  · obtain rfl := Option.some.inj h
    exact hrebuilt

/-- In whatever order the hash maps are walked, sections are attributed to their entries and
matches are made of their own sections, exactly when the document id is enough. -/
theorem searchSkillsAndSelect_attributed_iff (hindexed : Indexed store entries) :
    (∀ orders, Attributed store orders entries query options) ↔
      IdSuffices store entries query options := by
  constructor
  · intro hall
    have hwalk : ∀ {α : Type}, HashOrder α := fun {α} => ⟨id, fun xs => List.Perm.refl xs⟩
    refine ⟨(groupsOwn_iff _).mp (hall ⟨hwalk, hwalk, hwalk, hwalk⟩).grouped, ?_⟩
    intro hbudget row hrow entry hentry hdoc
    have hselected := (hall ⟨walkFirst (entry.key, entry), hwalk, hwalk, hwalk⟩).selected
      hbudget row hrow
    rw [entryOfRow_walkFirst hindexed options.threshold hentry hdoc, map_some] at hselected
    exact Option.some.inj hselected
  · intro hsuffices orders
    refine ⟨(groupsOwn_iff _).mpr hsuffices.survivors, ?_,
      fun found h => searchSkillsAndSelect_own hindexed hsuffices h⟩
    intro hbudget row hrow
    obtain ⟨own, hown, hsection⟩ := sectionOf_survivors hrow
    obtain ⟨entry, -, hkey, hfound⟩ := entryOfRow_own hindexed orders.lookup options.threshold
      hown (hsection.key_eq hindexed hown) (hsuffices.entries hbudget row hrow)
    have hdir : entry.entryDir = row.entryDir := congrArg Prod.fst hkey
    rw [hfound, map_some, hdir]

end

section

/-- The document of an entry: one node with the chunk 1. -/
def oneChunkDocument (docId path : Text) : SkillDocument where
  id := docId
  path := path
  tree := .node ⟨some "T", some 2, none, 1, some "# T", some [1]⟩ .nil .nil
  frontmatter := none
  preamble := none

def oneChunkIndex (docId : Text) : SkillsIndex where
  documents := Dict.set .empty docId (oneChunkDocument docId [])
  files := Dict.set .empty (chunkMdRel "bm25" "default" 1) "# T"
  chunkPipeline := some "bm25"
  chunkParamsHash := some "default"

/-- A store in which every entry has one chunk, of the score 1/2. -/
def oneChunkStore : SkillStore where
  env := plainEnvironment
  loadDocument entry := some (some (oneChunkDocument entry.docId entry.sourcePath))
  loadIndex _ docId _ := some (oneChunkIndex docId)
  readChunkBody _ _ := some "# T"
  chunkScores _ _ _ := .num (1 / 2)
  frontmatterScores _ _ _ := .num 0
  countTokensOrMin t := t.length + 1

def skillEntry (entryDir docId : Text) : SkillEntry where
  entryDir := entryDir
  docId := docId
  sourcePath := entryDir ++ "/SKILL.md"
  frontmatter := none
  documentFrontmatter := none
  bm25ChunkDir := none

theorem oneChunkStore_indexed {a b : SkillEntry} (hdistinct : a.key ≠ b.key)
    (ha : a.entryDir ≠ [] ∧ a.docId ≠ []) (hb : b.entryDir ≠ [] ∧ b.docId ≠ []) :
    Indexed oneChunkStore [a, b] := by
  have hnames : ∀ entry ∈ [a, b], entry.entryDir ≠ [] ∧ entry.docId ≠ [] :=
    forall_mem_cons.mpr ⟨ha, forall_mem_singleton.mpr hb⟩
  refine ⟨by simpa using hdistinct, fun entry h => (hnames entry h).1,
    fun entry h => (hnames entry h).2, ?_⟩
  intro entry _ doc hdoc
  obtain rfl := Option.some.inj (Option.some.inj hdoc)
  rfl

/-- Skills with document ids of their own. -/
def otherSkills : List SkillEntry := [skillEntry "a" "x", skillEntry "b" "y"]

theorem otherSkills_indexed : Indexed oneChunkStore otherSkills :=
  oneChunkStore_indexed (by decide) ⟨by decide, by decide⟩ ⟨by decide, by decide⟩

theorem otherSkills_suffice (options : SearchSkillsOptions) :
    IdSuffices oneChunkStore otherSkills "q" options := by
  have hsame : ∀ a ∈ otherSkills, ∀ b ∈ otherSkills, a.docId = b.docId → a = b := by
    intro a ha b hb hdoc
    simp only [otherSkills, mem_cons, not_mem_nil, or_false] at ha hb
    rcases ha with rfl | rfl
    · rcases hb with rfl | rfl
      · rfl
      · exact absurd hdoc (by decide)
    · rcases hb with rfl | rfl
      · exact absurd hdoc (by decide)
      · rfl
  constructor
  · intro row hrow other hother hdoc
    obtain ⟨a, ha, hrowOf⟩ := sectionOf_survivors hrow
    obtain ⟨b, hb, hotherOf⟩ := sectionOf_survivors hother
    have hrowKey := hrowOf.key_eq otherSkills_indexed ha
    have hotherKey := hotherOf.key_eq otherSkills_indexed hb
    have hrowDoc : row.docId = a.docId := congrArg Prod.snd hrowKey
    have hotherDoc : other.docId = b.docId := congrArg Prod.snd hotherKey
    obtain rfl := hsame a ha b hb (by rw [← hrowDoc, hdoc, hotherDoc])
    exact congrArg Prod.fst (hrowKey.trans hotherKey.symm)
  · intro _ row hrow entry hentry hdoc
    obtain ⟨a, ha, hrowOf⟩ := sectionOf_survivors hrow
    have hrowKey := hrowOf.key_eq otherSkills_indexed ha
    have hrowDoc : row.docId = a.docId := congrArg Prod.snd hrowKey
    obtain rfl := hsame entry hentry a ha (hdoc.trans hrowDoc)
    exact (congrArg Prod.fst hrowKey).symm

theorem otherSkills_attributed :
    IdSuffices oneChunkStore otherSkills "q" ⟨.num (1 / 2), 100, none, "chunk"⟩ ∧
      ∀ orders, Attributed oneChunkStore orders otherSkills
        "q" ⟨.num (1 / 2), 100, none, "chunk"⟩ :=
  ⟨otherSkills_suffice _,
    (searchSkillsAndSelect_attributed_iff otherSkills_indexed).mpr (otherSkills_suffice _)⟩

/-- Skills of two directories with the same document id. -/
def sameStemSkills : List SkillEntry := [skillEntry "a" "x", skillEntry "b" "x"]

theorem sameStemSkills_indexed : Indexed oneChunkStore sameStemSkills :=
  oneChunkStore_indexed (by decide) ⟨by decide, by decide⟩ ⟨by decide, by decide⟩

/-- The row of the one chunk of an entry. -/
def oneChunkRow (entry : SkillEntry) (score : PyFloat) : SkillRow where
  id := 1
  docId := entry.docId
  filePath := rowPath entry (oneChunkDocument entry.docId entry.sourcePath)
  content := "# T"
  score := score
  entryDir := entry.entryDir
  bm25ChunkDir := entry.chunkDir

theorem entryRows_oneChunkStore (entry : SkillEntry) :
    entryRows oneChunkStore entry = some [oneChunkRow entry (.num 0)] := by
  have hids : iterContentChunkIds (oneChunkDocument entry.docId entry.sourcePath).tree = [1] := by
    show (List.mergeSort [1] _).dedup = [1]
    rw [mergeSort_singleton]
    rfl
  show some ((iterContentChunkIds (oneChunkDocument entry.docId entry.sourcePath).tree).filterMap
    (chunkRow oneChunkStore entry (oneChunkDocument entry.docId entry.sourcePath))) = _
  rw [hids]
  rfl

theorem oneChunk_survives {entry : SkillEntry} (hentry : entry ∈ sameStemSkills) :
    oneChunkRow entry (.num (1 / 2)) ∈
      survivors oneChunkStore sameStemSkills "q" SearchSkillsOptions.default := by
  have hcorpus : buildChunkCorpus oneChunkStore sameStemSkills =
      some (sameStemSkills.map fun entry => oneChunkRow entry (.num 0)) := by
    rw [buildChunkCorpus, sameStemSkills, mapM_cons, entryRows_oneChunkStore,
      mapM_cons, entryRows_oneChunkStore, mapM_nil]
    rfl
  have hscored : scoredChunks oneChunkStore
      (eligibleEntries oneChunkStore sameStemSkills "q" SearchSkillsOptions.default)
      "q" = some (scoreCatalogDict oneChunkStore "q"
        (sameStemSkills.map fun entry => oneChunkRow entry (.num 0))) := by
    show (buildChunkCorpus oneChunkStore sameStemSkills).map _ = _
    rw [hcorpus]
    rfl
  have hquery : ¬ (Text.isBlank "q" = true ∨ sameStemSkills = []) := by
    rintro (h | h)
    · cases h
    · cases h
  rw [survivors_of_scored hquery hscored, mem_filter]
  constructor
  · rw [scoreCatalogDict, mem_mergeSort]
    show _ ∈ sameStemSkills.map fun entry => oneChunkRow entry (.num (1 / 2))
    exact mem_map.mpr ⟨entry, hentry, rfl⟩
  · have hnum : PyFloat.num (1 / 2) ≠ .nan := by rintro ⟨⟩
    exact PyFloat.le_self hnum

/-- A group has the sections of both skills, and is attributed to one of them. -/
theorem sameStem_mixed : Indexed oneChunkStore sameStemSkills ∧
    ∀ orders, ¬ Attributed oneChunkStore orders sameStemSkills "q" SearchSkillsOptions.default := by
  refine ⟨sameStemSkills_indexed, fun orders h => ?_⟩
  have ha : skillEntry "a" "x" ∈ sameStemSkills := mem_cons_self
  have hb : skillEntry "b" "x" ∈ sameStemSkills := mem_cons_of_mem _ mem_cons_self
  have hfirst := oneChunk_survives ha
  have hsecond := oneChunk_survives hb
  have hdirs := (groupsOwn_iff _).mp h.grouped _ hfirst _ hsecond rfl
  exact absurd hdirs (by decide)

end

end ClearYourTools.Pipeline
