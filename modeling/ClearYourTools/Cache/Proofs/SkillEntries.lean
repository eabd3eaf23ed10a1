import ClearYourTools.Cache.SkillsRegistry
import ClearYourTools.PageIndex.Proofs.EntryFiles

/-!
# What the skill caches keep

Every entry on disk is kept, and so are the indices in memory: their documents are there, and their
chunk indices are no others than those of entries that are kept.
-/

namespace ClearYourTools.Cache

open Misc PageIndex Bm25Cohesion Option

variable (env : EntryEnvironment)

/-- An index in memory fits the files of its entry. -/
structure IndexKept (files : EntryFiles) (docId : Text) (variant : ChunkVariant)
    (index : SkillsIndex) : Prop where
  chunks : ChunksKept env index.files files
  document : ∃ doc, index.documents.get? docId = some doc ∧ (variant = none → Chunkless doc.tree)

structure CacheKept (cache : SkillsCache) : Prop where
  disk : ∀ entryDir, EntryKept env (cache.disk entryDir)
  indices : cache.skillsIndices.All fun key index =>
    IndexKept env (cache.disk key.1) key.2.1 key.2.2 index

/-- What is on disk stays there. -/
structure Persists (cache cache' : SkillsCache) : Prop where
  grows : ∀ dir, Grows (cache.disk dir) (cache'.disk dir)
  pages : ∀ dir page, readPage env (cache.disk dir) = some page →
    readPage env (cache'.disk dir) = some page

/-- What a call changes that works for one entry and variant: a document that gets into memory, or a
page index that gets on disk, satisfies `Own`. -/
structure Advances (entryDir : Text) (variant : ChunkVariant) (Own : SkillDocument → Prop)
    (cache cache' : SkillsCache) : Prop extends Persists env cache cache' where
  newPage : ∀ dir page, readPage env (cache'.disk dir) = some page →
    readPage env (cache.disk dir) = some page ∨ dir = entryDir ∧ Own page
  newDocument : ∀ key doc, cache'.mergedDocuments.peek key = some doc →
    cache.mergedDocuments.peek key = some doc ∨ key = (entryDir, variant) ∧ Own doc

variable {env} {cache cache' cache'' : SkillsCache} {entryDir docId : Text} {variant : ChunkVariant}
  {Own : SkillDocument → Prop} {files : EntryFiles}

theorem IndexKept.mono {index : SkillsIndex} {files' : EntryFiles}
    (h : IndexKept env files docId variant index) (hgrows : Grows files files') :
    IndexKept env files' docId variant index :=
  ⟨h.chunks.mono hgrows, h.document⟩

theorem cacheKept_empty (lruMergedDocuments lruSkillsIndex : ℕ) :
    CacheKept env (.empty lruMergedDocuments lruSkillsIndex) where
  disk := fun _ => entryKept_empty
  indices := Lru.all_new _

theorem Persists.refl (cache : SkillsCache) : Persists env cache cache :=
  ⟨fun _ => .refl _, fun _ _ h => h⟩

theorem Persists.trans (h : Persists env cache cache') (h' : Persists env cache' cache'') :
    Persists env cache cache'' where
  grows := fun dir => (h.grows dir).trans (h'.grows dir)
  pages := fun dir page hpage => h'.pages dir page (h.pages dir page hpage)

namespace Advances

theorem trans (h : Advances env entryDir variant Own cache cache')
    (h' : Advances env entryDir variant Own cache' cache'') :
    Advances env entryDir variant Own cache cache'' where
  toPersists := h.toPersists.trans h'.toPersists
  newPage := by
    intro dir page hpage
    rcases h'.newPage dir page hpage with hpage | hnew
    · exact h.newPage dir page hpage
    · exact .inr hnew
  newDocument := by
    intro key doc hdoc
    rcases h'.newDocument key doc hdoc with hdoc | hnew
    · exact h.newDocument key doc hdoc
    · exact .inr hnew

end Advances

section

@[simp] theorem disk_write_self (cache : SkillsCache) (entryDir : Text) (files : EntryFiles) :
    (cache.write entryDir files).disk entryDir = files :=
  Function.update_self _ _ _

theorem disk_write_of_ne {dir : Text} (h : dir ≠ entryDir) (cache : SkillsCache)
    (files : EntryFiles) : (cache.write entryDir files).disk dir = cache.disk dir :=
  Function.update_of_ne h _ _

theorem grows_write (h : Grows (cache.disk entryDir) files) (dir : Text) :
    Grows (cache.disk dir) ((cache.write entryDir files).disk dir) := by
  by_cases hdir : dir = entryDir
  · subst hdir
    rw [disk_write_self]
    exact h
  · rw [disk_write_of_ne hdir]
    exact .refl _

theorem CacheKept.write (h : CacheKept env cache) (hfiles : EntryKept env files)
    (hgrows : Grows (cache.disk entryDir) files) : CacheKept env (cache.write entryDir files) where
  disk := by
    intro dir
    by_cases hdir : dir = entryDir
    · rw [hdir, disk_write_self]
      exact hfiles
    · rw [disk_write_of_ne hdir]
      exact h.disk dir
  indices := by
    intro key index hindex
    exact (h.indices key index hindex).mono (grows_write hgrows key.1)

theorem advances_write (hgrows : Grows (cache.disk entryDir) files)
    (hpages : ∀ page, readPage env (cache.disk entryDir) = some page →
      readPage env files = some page)
    (hnew : ∀ page, readPage env files = some page →
      readPage env (cache.disk entryDir) = some page ∨ Own page) :
    Advances env entryDir variant Own cache (cache.write entryDir files) where
  grows := grows_write hgrows
  pages := by
    intro dir page hpage
    by_cases hdir : dir = entryDir
    · rw [hdir, disk_write_self]
      rw [hdir] at hpage
      exact hpages page hpage
    · rw [disk_write_of_ne hdir]
      exact hpage
  newPage := by
    intro dir page hpage
    by_cases hdir : dir = entryDir
    · rw [hdir, disk_write_self] at hpage
      rw [hdir]
      exact (hnew page hpage).imp id fun hown => ⟨rfl, hown⟩
    · rw [disk_write_of_ne hdir] at hpage
      exact .inl hpage
  newDocument := fun _ _ h => .inl h

theorem indexKept_entryIndex (h : EntryKept env files) {page : SkillDocument}
    (hpage : readPage env files = some page) (docId : Text) (variant : ChunkVariant) :
    IndexKept env files docId variant (entryIndex env files docId variant page) where
  chunks := by
    intro pipeline hash raw hraw
    unfold entryIndex at hraw
    dsimp only at hraw
    rw [Dict.get?_filter] at hraw
    exact h.chunks pipeline hash raw (filter_eq_some_iff.mp hraw).1
  document := by
    refine ⟨mergedDocument env files variant page, Dict.get?_set_self _ _ _, ?_⟩
    rintro rfl
    exact h.page.chunkless hpage

end

/-- What changes where a document gets into memory. -/
structure Remembers (entryDir : Text) (variant : ChunkVariant) (document : SkillDocument)
    (cache cache' : SkillsCache) : Prop where
  disk : cache'.disk = cache.disk
  indices : cache'.skillsIndices = cache.skillsIndices
  documents : ∀ key doc, cache'.mergedDocuments.peek key = some doc →
    cache.mergedDocuments.peek key = some doc ∨ key = (entryDir, variant) ∧ doc = document

namespace Remembers

variable {document : SkillDocument}
variable (h : Remembers entryDir variant document cache cache')
include h

theorem trans (h' : Remembers entryDir variant document cache' cache'') :
    Remembers entryDir variant document cache cache'' where
  disk := h'.disk.trans h.disk
  indices := h'.indices.trans h.indices
  documents := by
    intro key doc hdoc
    rcases h'.documents key doc hdoc with hdoc | hnew
    · exact h.documents key doc hdoc
    · exact .inr hnew

theorem kept (hkept : CacheKept env cache) : CacheKept env cache' where
  disk := by
    rw [h.disk]
    exact hkept.disk
  indices := by
    rw [h.disk, h.indices]
    exact hkept.indices

theorem advances (hown : Own document) : Advances env entryDir variant Own cache cache' where
  grows := by
    intro dir
    rw [h.disk]
    exact .refl _
  pages := by
    intro dir page hpage
    rw [h.disk]
    exact hpage
  newPage := by
    intro dir page hpage
    rw [h.disk] at hpage
    exact .inl hpage
  newDocument := by
    intro key doc hdoc
    rcases h.documents key doc hdoc with hold | ⟨hkey, rfl⟩
    · exact .inl hold
    · exact .inr ⟨hkey, hown⟩

end Remembers

theorem getMergedDocument_spec (cache : SkillsCache) (entryDir : Text) (variant : ChunkVariant)
    (document : SkillDocument) : ∃ cache', cache.getMergedDocument entryDir variant =
        (cache.mergedDocuments.peek (entryDir, variant), cache') ∧
      Remembers entryDir variant document cache cache' := by
  refine ⟨(cache.getMergedDocument entryDir variant).2, ?_, rfl, rfl, ?_⟩
  · exact Prod.ext (Lru.get_fst _ _) rfl
  · intro key doc hdoc
    unfold SkillsCache.getMergedDocument at hdoc
    dsimp only at hdoc
    rw [Lru.peek_get] at hdoc
    exact .inl hdoc

theorem remembers_storeMergedDocument (cache : SkillsCache) (entryDir : Text)
    (variant : ChunkVariant) (document : SkillDocument) :
    Remembers entryDir variant document cache
      (cache.storeMergedDocument entryDir variant document) := by
  refine ⟨rfl, rfl, ?_⟩
  intro key doc hdoc
  rcases Lru.peek_insert hdoc with ⟨rfl, rfl⟩ | hold
  · exact .inr ⟨rfl, rfl⟩
  · exact .inl hold

variable {page : SkillDocument}

theorem loadDocumentCached_spec {env : RegistryEnvironment}
    (h : EntryKept env (cache.disk entryDir))
    (hpage : readPage env (cache.disk entryDir) = some page) (variant : ChunkVariant) :
    ∃ document cache', cache.loadDocumentCached env entryDir variant = (.ok document, cache') ∧
      document = (cache.mergedDocuments.peek (entryDir, variant)).getD
        (mergedDocument env (cache.disk entryDir) variant page) ∧
      Remembers entryDir variant document cache cache' := by
  obtain ⟨document, hdocument⟩ : ∃ document, document =
      (cache.mergedDocuments.peek (entryDir, variant)).getD
        (mergedDocument env (cache.disk entryDir) variant page) := ⟨_, rfl⟩
  obtain ⟨cache₁, hget, hsame⟩ := getMergedDocument_spec cache entryDir variant document
  unfold SkillsCache.loadDocumentCached
  rw [hget]
  cases hpeek : cache.mergedDocuments.peek (entryDir, variant) with
  | some hot =>
    rw [hpeek, getD_some] at hdocument
    exact ⟨document, cache₁, by rw [hdocument], by rw [hdocument, getD_some], hsame⟩
  | none =>
    rw [hpeek, getD_none] at hdocument
    refine ⟨document, cache₁.storeMergedDocument entryDir variant document, ?_, ?_,
      hsame.trans (remembers_storeMergedDocument _ _ _ _)⟩
    · dsimp only
      unfold SkillsCache.loadMergedDocumentJson
      rw [hsame.disk, h.loadMerged_eq hpage entryDir variant, ← hdocument]
    · rw [getD_none]
      exact hdocument

/-- What the steps of a call that leave the documents in memory and the page indices alone keep. -/
structure Stays (env : EntryEnvironment) (cache cache' : SkillsCache) : Prop where
  kept : CacheKept env cache'
  grows : ∀ dir, Grows (cache.disk dir) (cache'.disk dir)
  page : ∀ dir, readPage env (cache'.disk dir) = readPage env (cache.disk dir)
  documents : cache'.mergedDocuments = cache.mergedDocuments

namespace Stays

theorem refl (h : CacheKept env cache) : Stays env cache cache :=
  ⟨h, fun _ => .refl _, fun _ => rfl, rfl⟩

theorem trans (h : Stays env cache cache') (h' : Stays env cache' cache'') :
    Stays env cache cache'' where
  kept := h'.kept
  grows := fun dir => (h.grows dir).trans (h'.grows dir)
  page := fun dir => (h'.page dir).trans (h.page dir)
  documents := h'.documents.trans h.documents

theorem advances (h : Stays env cache cache') (entryDir : Text) (variant : ChunkVariant)
    (Own : SkillDocument → Prop) : Advances env entryDir variant Own cache cache' where
  grows := h.grows
  pages := by
    intro dir page hpage
    rw [h.page dir]
    exact hpage
  newPage := by
    intro dir page hpage
    rw [h.page dir] at hpage
    exact .inl hpage
  newDocument := by
    intro key doc hdoc
    rw [h.documents] at hdoc
    exact .inl hdoc

end Stays

/-- What changes where an index gets into memory. -/
structure Loads (entryDir docId : Text) (variant : ChunkVariant) (index : SkillsIndex)
    (cache cache' : SkillsCache) : Prop where
  disk : cache'.disk = cache.disk
  documents : cache'.mergedDocuments = cache.mergedDocuments
  indices : ∀ key other, cache'.skillsIndices.peek key = some other →
    cache.skillsIndices.peek key = some other ∨ key = (entryDir, docId, variant) ∧ other = index

namespace Loads

variable {index : SkillsIndex}
variable (h : Loads entryDir docId variant index cache cache')
include h

theorem trans (h' : Loads entryDir docId variant index cache' cache'') :
    Loads entryDir docId variant index cache cache'' where
  disk := h'.disk.trans h.disk
  documents := h'.documents.trans h.documents
  indices := by
    intro key other hother
    rcases h'.indices key other hother with hother | hnew
    · exact h.indices key other hother
    · exact .inr hnew

theorem stays (hkept : CacheKept env cache)
    (hindex : IndexKept env (cache.disk entryDir) docId variant index) :
    Stays env cache cache' where
  kept := by
    constructor
    · rw [h.disk]
      exact hkept.disk
    · rw [h.disk]
      intro key other hother
      rcases h.indices key other hother with hold | ⟨rfl, rfl⟩
      · exact hkept.indices key other hold
      · exact hindex
  grows := by
    intro dir
    rw [h.disk]
    exact .refl _
  page := by
    intro dir
    rw [h.disk]
  documents := h.documents

end Loads

theorem loads_storeSkillsIndex (cache : SkillsCache) (entryDir docId : Text)
    (variant : ChunkVariant) (index : SkillsIndex) :
    Loads entryDir docId variant index cache
      (cache.storeSkillsIndex entryDir docId variant index) := by
  refine ⟨rfl, rfl, ?_⟩
  intro key other hother
  rcases Lru.peek_insert hother with ⟨rfl, rfl⟩ | hold
  · exact .inr ⟨rfl, rfl⟩
  · exact .inl hold

theorem getSkillsIndex_spec (cache : SkillsCache) (entryDir docId : Text) (variant : ChunkVariant)
    (index : SkillsIndex) : ∃ cache', cache.getSkillsIndex entryDir docId variant =
        (cache.skillsIndices.peek (entryDir, docId, variant), cache') ∧
      Loads entryDir docId variant index cache cache' := by
  refine ⟨(cache.getSkillsIndex entryDir docId variant).2, ?_, rfl, rfl, ?_⟩
  · exact Prod.ext (Lru.get_fst _ _) rfl
  · intro key other hother
    unfold SkillsCache.getSkillsIndex at hother
    dsimp only at hother
    rw [Lru.peek_get] at hother
    exact .inl hother

theorem loadSkillsIndexFromEntry_spec (h : EntryKept env (cache.disk entryDir))
    (hpage : readPage env (cache.disk entryDir) = some page) (docId : Text) (variant : ChunkVariant) :
    ∃ index cache', cache.loadSkillsIndexFromEntry env entryDir docId variant =
        (.ok index, cache') ∧
      index = (cache.skillsIndices.peek (entryDir, docId, variant)).getD
        (entryIndex env (cache.disk entryDir) docId variant page) ∧
      Loads entryDir docId variant index cache cache' := by
  obtain ⟨index, hindex⟩ : ∃ index, index =
      (cache.skillsIndices.peek (entryDir, docId, variant)).getD
        (entryIndex env (cache.disk entryDir) docId variant page) := ⟨_, rfl⟩
  obtain ⟨cache₁, hget, hsame⟩ := getSkillsIndex_spec cache entryDir docId variant index
  unfold SkillsCache.loadSkillsIndexFromEntry
  rw [hget]
  cases hpeek : cache.skillsIndices.peek (entryDir, docId, variant) with
  | some hot =>
    rw [hpeek, getD_some] at hindex
    exact ⟨index, cache₁, by rw [hindex], by rw [hindex, getD_some], hsame⟩
  | none =>
    rw [hpeek, getD_none] at hindex
    refine ⟨index, cache₁.storeSkillsIndex entryDir docId variant index, ?_, ?_,
      hsame.trans (loads_storeSkillsIndex _ _ _ _ _)⟩
    · dsimp only
      rw [hsame.disk, h.loadSkillsIndexFromDisk_eq hpage entryDir docId variant, ← hindex]
    · rw [getD_none]
      exact hindex

theorem CacheKept.loaded (h : CacheKept env cache)
    (hpage : readPage env (cache.disk entryDir) = some page) (docId : Text) (variant : ChunkVariant) :
    IndexKept env (cache.disk entryDir) docId variant
      ((cache.skillsIndices.peek (entryDir, docId, variant)).getD
        (entryIndex env (cache.disk entryDir) docId variant page)) := by
  cases hpeek : cache.skillsIndices.peek (entryDir, docId, variant) with
  | none => exact indexKept_entryIndex (h.disk entryDir) hpage docId variant
  | some index => exact h.indices _ index hpeek

theorem loads_refreshSkillsIndexCache (h : EntryKept env (cache.disk entryDir))
    (hpage : readPage env (cache.disk entryDir) = some page) (docId : Text) (variant : ChunkVariant) :
    Loads entryDir docId variant (entryIndex env (cache.disk entryDir) docId variant page) cache
      (cache.refreshSkillsIndexCache env entryDir docId variant) := by
  unfold SkillsCache.refreshSkillsIndexCache
  rw [h.loadSkillsIndexFromDisk_eq hpage entryDir docId variant]
  exact loads_storeSkillsIndex _ _ _ _ _

variable {config : PageIndexConfig}

theorem buildChunkVariant_spec (h : CacheKept env cache)
    (hpage : readPage env (cache.disk entryDir) = some page) (docId pipeline hash : Text)
    {chunker : Bm25CohesionChunker}
    (hnew : Bm25CohesionChunker.new config.cohesionConfigForChunking = .ok chunker) :
    ∃ index doc cache₁, index = (cache.skillsIndices.peek (entryDir, docId, none)).getD
        (entryIndex env (cache.disk entryDir) docId none page) ∧
      index.documents.get? docId = some doc ∧ Chunkless doc.tree ∧
      Loads entryDir docId none index cache cache₁ ∧
      cache.buildChunkVariant env entryDir docId pipeline hash config =
        (.ok (), cache₁.write entryDir
          (variantFiles env chunker index doc docId pipeline hash config (cache₁.disk entryDir))) := by
  obtain ⟨index, cache₁, hload, hindexEq, hloads⟩ :=
    loadSkillsIndexFromEntry_spec (h.disk entryDir) hpage docId none
  have hindex := h.loaded hpage docId none
  rw [← hindexEq] at hindex
  obtain ⟨doc, hdoc, hplain⟩ := hindex.document
  refine ⟨index, doc, cache₁, hindexEq, hdoc, hplain rfl, hloads, ?_⟩
  unfold SkillsCache.buildChunkVariant Outcome.andThen
  rw [hload]
  dsimp only
  rw [buildChunkVariant_eq env hdoc hnew]
  rfl

theorem stays_writeVariant (h : CacheKept env cache) {index : SkillsIndex} {doc : SkillDocument}
    {pipeline hash : Text} {chunker : Bm25CohesionChunker}
    (hindices : ChunksKept env index.files (cache.disk entryDir)) (hplain : Chunkless doc.tree) :
    Stays env cache (cache.write entryDir
      (variantFiles env chunker index doc docId pipeline hash config (cache.disk entryDir))) := by
  obtain ⟨files, hfiles⟩ : ∃ files, files = variantFiles env chunker index doc docId pipeline hash
      config (cache.disk entryDir) := ⟨_, rfl⟩
  have hgrows : Grows (cache.disk entryDir) files := by
    rw [hfiles]
    exact grows_variantFiles env _
  have hkept : EntryKept env files := by
    rw [hfiles]
    exact entryKept_variantFiles env (h.disk entryDir) hindices hplain
  have hsame : readPage env files = readPage env (cache.disk entryDir) := by
    unfold readPage
    rw [hfiles, get?_variantFiles_of_node env _ head?_pageIndexRel]
  rw [← hfiles]
  refine ⟨h.write hkept hgrows, grows_write hgrows, ?_, rfl⟩
  intro dir
  by_cases hdir : dir = entryDir
  · rw [hdir, disk_write_self, hsame]
  · rw [disk_write_of_ne hdir]

/-- What an entry has on disk for a chunk variant. -/
def HasVariant (files : EntryFiles) (variant : ChunkVariant) : Prop :=
  ∀ v ∈ variant, files.contains (chunkIndexRel v.1 v.2) = true

theorem HasVariant.mono {files files' : EntryFiles} (h : HasVariant files variant)
    (hgrows : Grows files files') : HasVariant files' variant :=
  fun v hv => hgrows _ (h v hv)

/-- The pipeline of a chunk variant is that of `ensure_bm25_chunk_variant`. -/
def IsBm25 (variant : ChunkVariant) : Prop := ∀ v ∈ variant, v.1 = "bm25"

theorem isBm25_bm25Variant (pipeline paramsHash : Text) :
    IsBm25 (bm25Variant pipeline paramsHash) := by
  intro v hv
  unfold bm25Variant at hv
  split at hv
  · rw [mem_some_iff] at hv
    rw [← hv]
  · cases hv

/-- The chunker takes the configuration, where chunks are asked for. -/
def ChunkerAccepts (config : PageIndexConfig) (variant : ChunkVariant) : Prop :=
  variant.isSome = true →
    ∃ chunker, Bm25CohesionChunker.new config.cohesionConfigForChunking = .ok chunker

theorem chunkerAccepts_of_validate (h : config.cohesionConfigForChunking.validate = .ok ()) :
    ChunkerAccepts config variant := by
  intro _
  unfold Bm25CohesionChunker.new
  split
  · exact ⟨_, rfl⟩
  · rename_i e he
    rw [h] at he
    cases he

theorem ensureBm25ChunkVariant_spec {env : RegistryEnvironment} (h : CacheKept env cache)
    (hpage : readPage env (cache.disk entryDir) = some page) (hvariant : IsBm25 variant)
    (hchunker : ChunkerAccepts config variant) (docId : Text) :
    ∃ cache', cache.ensureBm25ChunkVariant env entryDir docId config variant = (.ok (), cache') ∧
      Stays env cache cache' ∧ HasVariant (cache'.disk entryDir) variant := by
  unfold SkillsCache.ensureBm25ChunkVariant
  cases variant with
  | none =>
    refine ⟨cache, rfl, .refl h, ?_⟩
    intro v hv
    cases hv
  | some v =>
    obtain ⟨pipeline, paramsHash⟩ := v
    obtain rfl : pipeline = "bm25" := hvariant _ rfl
    obtain ⟨chunker, hnew⟩ := hchunker rfl
    dsimp only
    split
    · rename_i hvalid
      have hindex := ((h.disk entryDir).chunkVariantValid_iff hpage _ _ _ _).mp hvalid
      refine ⟨cache, rfl, .refl h, ?_⟩
      intro v hv
      rw [mem_some_iff] at hv
      rw [← hv]
      exact hindex.2
    · obtain ⟨index, doc, cache₁, hindexEq, -, hplain, hloads, hbuild⟩ :=
        buildChunkVariant_spec h hpage docId "bm25" paramsHash hnew
      have hindex := h.loaded hpage docId none
      rw [← hindexEq] at hindex
      have hstays₁ := hloads.stays h hindex
      rw [← hloads.disk] at hindex
      obtain ⟨cache₂, hcache₂⟩ : ∃ cache₂, cache₂ = cache₁.write entryDir
          (variantFiles env chunker index doc docId "bm25" paramsHash
            config (cache₁.disk entryDir)) := ⟨_, rfl⟩
      have hstays₂ : Stays env cache₁ cache₂ := by
        rw [hcache₂]
        exact stays_writeVariant hstays₁.kept hindex.chunks hplain
      have hpage₂ : readPage env (cache₂.disk entryDir) = some page := by
        rw [hstays₂.page, hstays₁.page, hpage]
      have hvariantFile : (cache₂.disk entryDir).contains
          (chunkIndexRel "bm25" paramsHash) = true := by
        unfold Dict.contains
        rw [hcache₂, disk_write_self, get?_variantFiles_index, isSome_some]
      have hrefresh := (loads_refreshSkillsIndexCache (hstays₂.kept.disk entryDir) hpage₂ docId
        (some ("bm25", paramsHash))).stays hstays₂.kept
          (indexKept_entryIndex (hstays₂.kept.disk entryDir) hpage₂ docId _)
      unfold Outcome.andThen
      rw [hbuild, ← hcache₂]
      refine ⟨_, rfl, (hstays₁.trans hstays₂).trans hrefresh, ?_⟩
      intro v hv
      rw [mem_some_iff] at hv
      rw [← hv]
      exact hrefresh.grows entryDir _ hvariantFile

end ClearYourTools.Cache
