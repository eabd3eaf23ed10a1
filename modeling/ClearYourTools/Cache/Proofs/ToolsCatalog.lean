import ClearYourTools.Cache.ToolsCatalog
import ClearYourTools.Misc.Mapped

/-!
# Transparency of the tool catalog cache

An index is found again by the hash of the definition alone, and a directory counts as complete as
soon as its root file is there. Where that hash determines an entry, and no call looks at a
directory that is half written, every call gives what a build without the cache gives.
-/

namespace ClearYourTools.Cache

open Misc Option

variable {φ : Type} {crate : CatalogCrate φ} {entries : Set (Json φ)}

/-- Two indexes that a merge does not tell apart. -/
structure SameIndex (a b : CatalogIndex φ) : Prop where
  tools : a.tools = b.tools
  files : cacheFilesOnly a = cacheFilesOnly b

theorem SameIndex.refl (a : CatalogIndex φ) : SameIndex a a := ⟨rfl, rfl⟩

variable {as bs : List (CatalogIndex φ)}

theorem foldl_files_congr (h : List.Forall₂ SameIndex as bs) (files : FileMap) :
    as.foldl (fun files part rel => (cacheFilesOnly part rel).or (files rel)) files =
      bs.foldl (fun files part rel => (cacheFilesOnly part rel).or (files rel)) files := by
  induction h generalizing files with
  | nil => rfl
  | cons hsame _ ih => rw [List.foldl_cons, List.foldl_cons, hsame.files, ih]

theorem mergeCatalogIndexes_congr (h : List.Forall₂ SameIndex as bs) :
    mergeCatalogIndexes crate as = mergeCatalogIndexes crate bs := by
  have htools : as.map CatalogIndex.tools = bs.map CatalogIndex.tools :=
    (map_eq_of_forall₂ h fun _ _ hsame => hsame.tools.symm).symm
  have hall : as.flatMap CatalogIndex.tools = bs.flatMap CatalogIndex.tools := by
    rw [List.flatMap_def, List.flatMap_def, htools]
  unfold mergeCatalogIndexes
  rw [hall, foldl_files_congr h]

variable {index : CatalogIndex φ}

theorem cacheFilesOnly_eq_some {rel content : Text} (h : cacheFilesOnly index rel = some content) :
    skipCacheFiles.contains rel = false ∧ index.files rel = some content := by
  unfold cacheFilesOnly at h
  split at h
  · cases h
  · rename_i hskip
    exact ⟨Bool.eq_false_iff.mpr hskip, h⟩

/-- The entries of a run: each has a definition whose hash no other one has, and its files are
found again under their names. -/
structure Determined (crate : CatalogCrate φ) (entries : Set (Json φ)) : Prop where
  defined : ∀ entry ∈ entries, originalDefinitionForEntry entry ≠ none
  unique : ∀ entry ∈ entries, ∀ entry' ∈ entries, crate.entryHash entry = crate.entryHash entry' →
    entry = entry'
  plain : ∀ entry ∈ entries, ∀ rel content,
    cacheFilesOnly (crate.buildIndexForEntry entry) rel = some content → isPlain rel = true

/-- The index of the entry that has a hash. -/
def Serves (crate : CatalogCrate φ) (entries : Set (Json φ)) (contentHash : Text)
    (index : CatalogIndex φ) : Prop :=
  ∃ entry ∈ entries, crate.entryHash entry = some contentHash ∧
    SameIndex index (crate.buildIndexForEntry entry)

/-- Whatever is kept belongs to the entry under whose hash it is kept. -/
structure Coherent (crate : CatalogCrate φ) (entries : Set (Json φ)) (s : CatalogState φ) :
    Prop where
  hot : s.hot.All (Serves crate entries)
  disk : ∀ contentHash rel content, (s.disk contentHash).files rel = some content →
    ∃ entry ∈ entries, crate.entryHash entry = some contentHash ∧
      cacheFilesOnly (crate.buildIndexForEntry entry) rel = some content
  queued : ∀ job ∈ s.queued, Serves crate entries job.1 job.2

theorem coherent_fresh (capacity : ℕ) : Coherent crate entries (.fresh capacity) where
  hot := Lru.all_new capacity
  disk := fun _ _ _ h => by cases h
  queued := fun _ h => by cases h

variable {s : CatalogState φ} {contentHash : Text} {entry : Json φ}

section

variable (h : Coherent crate entries s)
include h

theorem Coherent.background (event : Background) : Coherent crate entries (s.background event) := by
  cases event with
  | evict contentHash => exact ⟨h.hot.remove contentHash, h.disk, h.queued⟩
  | writeFile job rel =>
    unfold CatalogState.background
    dsimp only
    split
    · exact h
    rename_i contentHash index hjob
    split
    · exact h
    rename_i content hcontent
    refine ⟨h.hot, ?_, h.queued⟩
    intro contentHash' rel' content' hfile
    dsimp only at hfile
    by_cases hhash : contentHash' = contentHash
    · subst hhash
      rw [Function.update_self] at hfile
      unfold EntryDir.write at hfile
      dsimp only at hfile
      by_cases hrel : rel' = rel
      · subst hrel
        rw [Function.update_self] at hfile
        cases hfile
        obtain ⟨entry, hentry, hserves, hsame⟩ :=
          h.queued _ (List.mem_of_getElem? hjob)
        exact ⟨entry, hentry, hserves, hsame.files ▸ hcontent⟩
      · rw [Function.update_of_ne hrel] at hfile
        exact h.disk _ _ _ hfile
    · rw [Function.update_of_ne hhash] at hfile
      exact h.disk _ _ _ hfile

theorem Coherent.backgrounds (events : List Background) :
    Coherent crate entries (s.backgrounds events) := by
  unfold CatalogState.backgrounds
  induction events generalizing s with
  | nil => exact h
  | cons event events ih => exact ih (h.background event)

variable (hserves : Serves crate entries contentHash index)
include hserves

theorem Coherent.storeToolCatalog : Coherent crate entries (s.storeToolCatalog contentHash index) :=
  ⟨h.hot.insert hserves, h.disk, h.queued⟩

theorem Coherent.maybeEnqueueToolCatalog :
    Coherent crate entries (s.maybeEnqueueToolCatalog contentHash index) := by
  refine ⟨h.hot, h.disk, ?_⟩
  intro job hjob
  rcases List.mem_append.mp hjob with hold | hnew
  · exact h.queued job hold
  · rw [List.mem_singleton.mp hnew]
    exact hserves

end

theorem Serves.same (hdet : Determined crate entries) (hentry : entry ∈ entries)
    (hhash : crate.entryHash entry = some contentHash) (h : Serves crate entries contentHash index) :
    SameIndex index (crate.buildIndexForEntry entry) := by
  obtain ⟨entry', hentry', hhash', hsame⟩ := h
  rwa [hdet.unique entry hentry entry' hentry' (hhash.trans hhash'.symm)]

/-- The directory of an entry is not half written: where its root file makes it count, all of its
files are there. -/
def Whole (crate : CatalogCrate φ) (s : CatalogState φ) (contentHash : Text) (entry : Json φ) :
    Prop :=
  toolCacheValid crate (s.disk contentHash) (toolIdFromEntry entry) = true →
    ∀ rel content, cacheFilesOnly (crate.buildIndexForEntry entry) rel = some content →
      (s.disk contentHash).files rel ≠ none

theorem load_same (hdet : Determined crate entries) (hinv : Coherent crate entries s)
    (hentry : entry ∈ entries) (hhash : crate.entryHash entry = some contentHash)
    (hvalid : toolCacheValid crate (s.disk contentHash) (toolIdFromEntry entry) = true)
    (hwhole : Whole crate s contentHash entry) :
    SameIndex (loadIndexFromEntryDir (s.disk contentHash) entry)
      (crate.buildIndexForEntry entry) := by
  constructor
  · exact (crate.tools_build entry _).symm
  · have hown : ∀ rel content, (s.disk contentHash).files rel = some content →
        cacheFilesOnly (crate.buildIndexForEntry entry) rel = some content := by
      intro rel content hfile
      obtain ⟨entry', hentry', hhash', hcontent⟩ := hinv.disk contentHash rel content hfile
      rwa [hdet.unique entry hentry entry' hentry' (hhash.trans hhash'.symm)]
    funext rel
    cases hcontent : cacheFilesOnly (crate.buildIndexForEntry entry) rel with
    | some content =>
      obtain ⟨hskip, -⟩ := cacheFilesOnly_eq_some hcontent
      have hplain := hdet.plain entry hentry rel content hcontent
      obtain ⟨content', hfile⟩ := ne_none_iff_exists'.mp (hwhole hvalid rel content hcontent)
      have hsame := (hown rel content' hfile).symm.trans hcontent
      unfold cacheFilesOnly loadIndexFromEntryDir collectFiles
      dsimp only
      rw [hskip, hplain, if_neg (by decide), if_neg (by decide), hfile, hsame]
    | none =>
      cases hload : cacheFilesOnly (loadIndexFromEntryDir (s.disk contentHash) entry) rel with
      | none => rfl
      | some content =>
        obtain ⟨-, hcollected⟩ := cacheFilesOnly_eq_some hload
        unfold loadIndexFromEntryDir collectFiles at hcollected
        dsimp only at hcollected
        split at hcollected
        · cases hcollected
        · rw [hown rel content hcollected] at hcontent
          cases hcontent

/-- What an entry of a call meets: the directory that it looks at is whole. -/
structure EntryMeets (crate : CatalogCrate φ) (s : CatalogState φ) (io : DiskIo)
    (entry : Json φ) : Prop where
  first : ∀ contentHash, crate.entryHash entry = some contentHash →
    s.hot.peek contentHash = none → Whole crate s contentHash entry
  locked : ∀ contentHash, crate.entryHash entry = some contentHash →
    s.hot.peek contentHash = none → Whole crate (s.backgrounds io.meanwhile) contentHash entry

theorem serves_build (hentry : entry ∈ entries) (hhash : crate.entryHash entry = some contentHash) :
    Serves crate entries contentHash (crate.buildIndexForEntry entry) :=
  ⟨entry, hentry, hhash, .refl _⟩

theorem ensureOnDisk_spec (hdet : Determined crate entries) (hinv : Coherent crate entries s)
    (hentry : entry ∈ entries) (hhash : crate.entryHash entry = some contentHash)
    (policy : CachePolicy) (io : DiskIo) (hfirst : Whole crate s contentHash entry)
    (hlocked : Whole crate (s.backgrounds io.meanwhile) contentHash entry) :
    SameIndex (s.ensureOnDisk crate policy io entry contentHash).1.index
        (crate.buildIndexForEntry entry) ∧
      Coherent crate entries (s.ensureOnDisk crate policy io entry contentHash).2 := by
  have hbuilt := serves_build hentry hhash
  unfold CatalogState.ensureOnDisk
  dsimp only
  split
  · rename_i hload
    have hsame := load_same hdet hinv hentry hhash
      (Bool.and_eq_true_iff.mp (Bool.and_eq_true_iff.mp hload).1).2 hfirst
    exact ⟨hsame, hinv.storeToolCatalog ⟨entry, hentry, hhash, hsame⟩⟩
  · split
    · have hinv' := hinv.backgrounds io.meanwhile
      split
      · rename_i hload
        have hsame := load_same hdet hinv' hentry hhash (Bool.and_eq_true_iff.mp hload).1 hlocked
        exact ⟨hsame, hinv'.storeToolCatalog ⟨entry, hentry, hhash, hsame⟩⟩
      · exact ⟨.refl _, (hinv'.storeToolCatalog hbuilt).maybeEnqueueToolCatalog hbuilt⟩
    · exact ⟨.refl _, hinv.storeToolCatalog hbuilt⟩

theorem ensureSingleToolCached_spec (hdet : Determined crate entries)
    (hinv : Coherent crate entries s) (hentry : entry ∈ entries) (policy : CachePolicy)
    {io : DiskIo} (hmeets : EntryMeets crate s io entry) :
    ∃ outcome s', s.ensureSingleToolCached crate policy io entry = .ok (outcome, s') ∧
      SameIndex outcome.index (crate.buildIndexForEntry entry) ∧ Coherent crate entries s' := by
  obtain ⟨definition, hdefinition⟩ := ne_none_iff_exists'.mp (hdet.defined entry hentry)
  have hhash : crate.entryHash entry = some (crate.toolDefinitionContentHash definition) := by
    rw [CatalogCrate.entryHash, hdefinition, map_some]
  unfold CatalogState.ensureSingleToolCached
  rw [hdefinition]
  dsimp only
  cases hpeek : s.hot.peek (crate.toolDefinitionContentHash definition) with
  | none =>
    rw [Lru.get_of_peek_none hpeek]
    exact ⟨_, _, rfl, ensureOnDisk_spec hdet hinv hentry hhash policy io
      (hmeets.first _ hhash hpeek) (hmeets.locked _ hhash hpeek)⟩
  | some cached =>
    have hcached := Lru.get_fst s.hot (crate.toolDefinitionContentHash definition)
    have hhot := hinv.hot.get (crate.toolDefinitionContentHash definition)
    rw [hpeek] at hcached
    generalize s.hot.get (crate.toolDefinitionContentHash definition) = found at hcached hhot
    obtain ⟨value, hot⟩ := found
    cases hcached
    exact ⟨_, _, rfl, (hinv.hot _ _ hpeek).same hdet hentry hhash, hhot, hinv.disk, hinv.queued⟩

/-- What the entries of a call meet, each in the state that the call gets to it in. -/
def CallMeets (crate : CatalogCrate φ) (entries : Set (Json φ)) (policy : CachePolicy) :
    CatalogState φ → List (CallItem φ) → Prop
  | _, [] => True
  | s, item :: items =>
    item.entry ∈ entries ∧ EntryMeets crate (s.backgrounds item.before) item.io item.entry ∧
      ∀ outcome s', (s.backgrounds item.before).ensureSingleToolCached crate policy item.io
        item.entry = .ok (outcome, s') → CallMeets crate entries policy s' items

theorem ensureParts_spec (hdet : Determined crate entries) (policy : CachePolicy)
    {items : List (CallItem φ)} (hinv : Coherent crate entries s)
    (hmeets : CallMeets crate entries policy s items) :
    ∃ outcomes s', s.ensureParts crate policy items = (.ok outcomes, s') ∧
      List.Forall₂ SameIndex (outcomes.map SingleToolCacheOutcome.index)
        (items.map fun item => crate.buildIndexForEntry item.entry) ∧
      Coherent crate entries s' := by
  induction items generalizing s with
  | nil => exact ⟨[], s, rfl, .nil, hinv⟩
  | cons item items ih =>
    obtain ⟨hentry, hitem, hrest⟩ := hmeets
    obtain ⟨outcome, s₁, hensure, hsame, hinv₁⟩ :=
      ensureSingleToolCached_spec hdet (hinv.backgrounds item.before) hentry policy hitem
    obtain ⟨outcomes, s', hparts, hsames, hinv'⟩ := ih hinv₁ (hrest outcome s₁ hensure)
    refine ⟨outcome :: outcomes, s', ?_, .cons hsame hsames, hinv'⟩
    rw [CatalogState.ensureParts]
    simp only [hensure, hparts]
    rfl

theorem call_spec (hdet : Determined crate entries) (policy : CachePolicy)
    {items : List (CallItem φ)} (hinv : Coherent crate entries s)
    (hmeets : CallMeets crate entries policy s items) :
    (∃ handle, (s.ensureToolCatalogFromEntryList crate policy items).1 = .ok handle ∧
        handle.index = mergeCatalogIndexes crate
          (items.map fun item => crate.buildIndexForEntry item.entry)) ∧
      Coherent crate entries (s.ensureToolCatalogFromEntryList crate policy items).2 := by
  obtain ⟨outcomes, s', hparts, hsames, hinv'⟩ := ensureParts_spec hdet policy hinv hmeets
  unfold CatalogState.ensureToolCatalogFromEntryList
  rw [hparts]
  exact ⟨⟨_, rfl, mergeCatalogIndexes_congr hsames⟩, hinv'⟩

/-- What a step of a run meets. -/
def ActionMeets (crate : CatalogCrate φ) (entries : Set (Json φ)) (s : CatalogState φ) :
    CatalogState.Action φ → Prop
  | .call policy items => CallMeets crate entries policy s items
  | _ => True

theorem Coherent.step (hdet : Determined crate entries) {action : CatalogState.Action φ}
    {s' : CatalogState φ} (hinv : Coherent crate entries s)
    (hmeets : ActionMeets crate entries s action) (h : s.step crate action = some s') :
    Coherent crate entries s' := by
  cases action with
  | call policy items =>
    cases h
    exact (call_spec hdet policy hinv hmeets).2
  | background event =>
    cases h
    exact hinv.background event
  | restart capacity =>
    cases h
    exact ⟨Lru.all_new capacity, hinv.disk, fun _ hjob => by cases hjob⟩

/-- In a run whose entries are determined by the hash of their definition, and whose calls look at
no half written directory, a call returns what a build without the cache gives. -/
theorem transparent (hdet : Determined crate entries) {capacity : ℕ}
    {actions : List (CatalogState.Action φ)}
    (run : Run (CatalogState.step crate) (ActionMeets crate entries) (.fresh capacity) actions s)
    {policy : CachePolicy} {items : List (CallItem φ)}
    (hmeets : CallMeets crate entries policy s items) :
    ∃ handle, (s.ensureToolCatalogFromEntryList crate policy items).1 = .ok handle ∧
      handle.index = mergeCatalogIndexes crate
        (items.map fun item => crate.buildIndexForEntry item.entry) :=
  (call_spec hdet policy (run.invariant (coherent_fresh capacity) (Coherent.step hdet)) hmeets).1

/-- A crate that puts a tool in one file. -/
def oneFileCrate : CatalogCrate Empty where
  sha256 text := text
  toString := Json.dumps Json.noFloats false
  toStringPretty _ := []
  collectEnums _ := []
  buildCatalogIndex tools _ :=
    { tools := tools
      files := fun rel =>
        if rel = "schemas/decomposed/" ++ (tools.map toolIdFromEntry).flatten ++
            ".json" then some ['x'] else none }
  enrichToolSchemaMetadata files := files
  catalogIndexToCatalogDict _ := .null
  decomposedPrefix := "schemas/decomposed/"
  jsonExt := ".json"
  tools_build _ _ := rfl

/-- A tool of the given identifier. All have the same definition. -/
def namedEntry (id : Text) : Json Empty :=
  .obj [("id", .str id), ("full_schema", .obj [])]

def quietItem (available : Bool) (id : Text) : CallItem Empty where
  before := []
  entry := namedEntry id
  io := ⟨available, true, true, []⟩

theorem determined_namedEntry : Determined oneFileCrate {namedEntry ['a']} where
  defined := by
    rintro _ rfl
    exact some_ne_none _
  unique := by
    rintro _ rfl _ rfl _
    rfl
  plain := by
    rintro _ rfl rel content hfile
    obtain ⟨-, hfile⟩ := cacheFilesOnly_eq_some hfile
    obtain ⟨rfl, -⟩ := ite_none_right_eq_some.mp hfile
    decide +kernel

def rootFile : Text := "schemas/decomposed/a.json"

/-- A call that finds nothing, the write of the file, and a restart. -/
def writtenActions : List (CatalogState.Action Empty) :=
  [.call .auto [quietItem true ['a']], .background (.writeFile 0 rootFile), .restart 4]

/-- What they leave. -/
def written : CatalogState Empty :=
  let called := ((CatalogState.fresh 4).ensureToolCatalogFromEntryList oneFileCrate .auto
    [quietItem true ['a']]).2
  { called.background (.writeFile 0 rootFile) with hot := .new 4, queued := [] }

/-- After a restart the tool comes from the disk as it was built. -/
theorem written_transparent :
    Run (CatalogState.step oneFileCrate) (ActionMeets oneFileCrate {namedEntry ['a']}) (.fresh 4)
      writtenActions written ∧
    ∃ handle, (written.ensureToolCatalogFromEntryList oneFileCrate .auto [quietItem true ['a']]).1 =
        .ok handle ∧
      handle.index = mergeCatalogIndexes oneFileCrate
        [oneFileCrate.buildIndexForEntry (namedEntry ['a'])] := by
  have hbuilt : CallMeets oneFileCrate {namedEntry ['a']} .auto (.fresh 4)
      [quietItem true ['a']] := by
    refine ⟨rfl, ⟨fun _ _ _ hvalid => ?_, fun _ _ _ hvalid => ?_⟩, fun _ _ _ => trivial⟩
    · cases hvalid
    · cases hvalid
  have hrun : Run (CatalogState.step oneFileCrate)
      (ActionMeets oneFileCrate {namedEntry ['a']}) (.fresh 4) writtenActions written :=
    .cons hbuilt rfl (.cons trivial rfl (.cons trivial rfl .nil))
  refine ⟨hrun, transparent determined_namedEntry hrun ?_⟩
  have hwhole : ∀ contentHash, oneFileCrate.entryHash (namedEntry ['a']) = some contentHash →
      Whole oneFileCrate written contentHash (namedEntry ['a']) := by
    intro contentHash hhash _ rel content hfile
    obtain ⟨-, hfile⟩ := cacheFilesOnly_eq_some hfile
    obtain ⟨rfl, -⟩ := ite_none_right_eq_some.mp hfile
    cases hhash
    decide +kernel
  exact ⟨rfl, ⟨fun contentHash hhash _ => hwhole contentHash hhash,
    fun contentHash hhash _ => hwhole contentHash hhash⟩, fun _ _ _ => trivial⟩

/-- The second of two tools with one definition comes out as the first. -/
theorem definition_shared : ∃ s, Run (CatalogState.step oneFileCrate) (fun _ _ => True) (.fresh 4)
      [.call .forceMemory [quietItem false ['a']]] s ∧
    ∀ handle, (s.ensureToolCatalogFromEntryList oneFileCrate .forceMemory
        [quietItem false ['b']]).1 = .ok handle →
      handle.index ≠ mergeCatalogIndexes oneFileCrate
        [oneFileCrate.buildIndexForEntry (namedEntry ['b'])] := by
  refine ⟨_, .cons trivial rfl .nil, ?_⟩
  intro handle hhandle heq
  have htools := congrArg (fun index => index.tools.map toolIdFromEntry) heq
  have hfirst : (((CatalogState.fresh 4).ensureToolCatalogFromEntryList oneFileCrate .forceMemory
      [quietItem false ['a']]).2.ensureToolCatalogFromEntryList oneFileCrate .forceMemory
        [quietItem false ['b']]).1.toOption.map
          (fun handle => handle.index.tools.map toolIdFromEntry) = some [['a']] := by
    decide +kernel
  rw [hhandle] at hfirst
  have hids : handle.index.tools.map toolIdFromEntry = [['a']] := Option.some.inj hfirst
  rw [hids] at htools
  revert htools
  decide +kernel

end ClearYourTools.Cache
