import ClearYourTools.Cache.Proofs.SkillServing

/-!
# When the caches serve the same index

A document is loaded before the chunks of its entry are built, and the memory branch does not chunk
at all; so a call serves the structure of the page index where it ought to have chunks.
-/

namespace ClearYourTools.Cache

open Misc PageIndex Bm25Cohesion Option SkillRequest
open Outcome (andThen)

section

variable (env : RegistryEnvironment) (req : SkillRequest) (content sourcePath : Text)
  (chunker : Bm25CohesionChunker)

/-- The structure that is loaded for the entry: that of the document in memory, or else what the
entry has on disk, which is built with chunks where it has nothing. -/
def SkillRequest.loadedTree (cache : SkillsCache) : Structure :=
  match cache.mergedDocuments.peek (req.entryDir env, req.chunkVariant) with
  | some hot => hot.tree
  | none =>
    if (cache.disk (req.entryDir env)).contains pageIndexRel = true ∧
      (cache.disk (req.entryDir env)).contains (chunkIndexRel "bm25" req.paramsHash) = false then
      (req.page env content sourcePath).tree
    else req.chunked env content sourcePath chunker

def CallMode.diskOk (mode : CallMode) : Bool := Cache.diskOk mode.policy mode.diskAvailable

def SkillRequest.variant (mode : CallMode) : ChunkVariant :=
  bm25Variant mode.pipeline req.paramsHash

/-- There is a document in memory, a page index or a disk. -/
def CanMaterialize (cache : SkillsCache) (mode : CallMode) : Prop :=
  (cache.mergedDocuments.peek (req.entryDir env, req.chunkVariant)).isSome = true ∨
    (cache.disk (req.entryDir env)).contains pageIndexRel = true ∨ mode.diskOk = true

/-- What would be loaded has chunks: the document in memory, or else the entry, unless it has nothing
to load. -/
def ChunksServed (cache : SkillsCache) : Prop :=
  match cache.mergedDocuments.peek (req.entryDir env, req.chunkVariant) with
  | some hot => HasChunks hot.tree
  | none =>
    (cache.disk (req.entryDir env)).contains pageIndexRel = true →
      (cache.disk (req.entryDir env)).contains (chunkIndexRel "bm25" req.paramsHash) = true

/-- The action asks for the skill with chunks. -/
def AsksForChunks : SkillAction → Prop
  | .ensure mode => materializesBm25 mode.pipeline = true
  | .materialize mode => materializesBm25 mode.pipeline = true
  | _ => False

/-- There is nothing to chunk, or else the registry has a disk and the caches the chunks;
`materialize_skill_entry` goes without a disk where there is something to load. -/
def MeetsChunks (cache : SkillsCache) : SkillAction → Prop
  | .ensure mode =>
    WithoutChunks content req.config ∨ mode.diskOk = true ∧ ChunksServed env req cache
  | .materialize mode =>
    CanMaterialize env req cache mode ∧
      (WithoutChunks content req.config ∨ ChunksServed env req cache)
  | _ => True

/-- An action gives the structure that the first call gives. -/
def ServesIndex (cache : SkillsCache) (a : SkillAction) : Prop :=
  ∃ doc first, (req.act env a cache).1 = .ok (some doc) ∧
    (req.firstCall env).1 = .ok (some first) ∧ doc.tree = first.tree

/-- A call gives a document, of one of the two structures where it asks for chunks. -/
structure Gives (variant : ChunkVariant) (tree : Structure) (doc : SkillDocument)
    (cache' : SkillsCache) : Prop where
  kept : SkillKept env req content sourcePath chunker cache'
  tree : variant = req.chunkVariant → doc.tree = tree

variable {env req content sourcePath chunker} {cache cache' : SkillsCache} {mode : CallMode}

theorem variant_eq (h : materializesBm25 mode.pipeline = true) :
    req.variant mode = req.chunkVariant := by
  unfold SkillRequest.variant bm25Variant
  rw [if_pos h]
  rfl

theorem variant_cases (req : SkillRequest) (mode : CallMode) :
    req.variant mode = none ∨ req.variant mode = req.chunkVariant := by
  by_cases h : materializesBm25 mode.pipeline = true
  · exact .inr (variant_eq h)
  · left
    unfold SkillRequest.variant bm25Variant
    rw [if_neg h]

theorem chunkVariant_ne_none (req : SkillRequest) : req.chunkVariant ≠ none := some_ne_none _

theorem loadedTree_of_hot {hot : SkillDocument}
    (h : cache.mergedDocuments.peek (req.entryDir env, req.chunkVariant) = some hot) :
    req.loadedTree env content sourcePath chunker cache = hot.tree := by
  unfold loadedTree
  rw [h]

theorem loadedTree_of_complete (h : (cache.disk (req.entryDir env)).contains pageIndexRel = true →
      (cache.disk (req.entryDir env)).contains (chunkIndexRel "bm25" req.paramsHash) = true) :
    req.loadedTree env content sourcePath chunker cache =
      ((cache.mergedDocuments.peek (req.entryDir env, req.chunkVariant)).map
        SkillDocument.tree).getD (req.chunked env content sourcePath chunker) := by
  unfold loadedTree
  cases cache.mergedDocuments.peek (req.entryDir env, req.chunkVariant) with
  | some hot => rfl
  | none =>
    dsimp only
    rw [if_neg]
    · rfl
    · rintro ⟨hpage, hchunks⟩
      rw [h hpage] at hchunks
      cases hchunks

variable {page : SkillDocument} (h : SkillKept env req content sourcePath chunker cache)

include h

theorem SkillKept.not_page (hread : readPage env (cache.disk (req.entryDir env)) = none) :
    (cache.disk (req.entryDir env)).contains pageIndexRel = false := by
  rw [Bool.eq_false_iff]
  intro hin
  obtain ⟨page, hpage⟩ := readPage_of_contains h.kept hin
  rw [hread] at hpage
  cases hpage

theorem SkillKept.tree_loaded (hread : readPage env (cache.disk (req.entryDir env)) = some page) :
    ((cache.mergedDocuments.peek (req.entryDir env, req.chunkVariant)).getD
      (mergedDocument env (cache.disk (req.entryDir env)) req.chunkVariant
        page)).tree = req.loadedTree env content sourcePath chunker cache := by
  unfold loadedTree
  cases cache.mergedDocuments.peek (req.entryDir env, req.chunkVariant) with
  | some hot => rfl
  | none =>
    rw [getD_none, h.tree_merged hread, contains_of_readPage hread]
    cases (cache.disk (req.entryDir env)).contains (chunkIndexRel "bm25" req.paramsHash) with
    | false => rfl
    | true => rfl

theorem SkillKept.isStructure_loadedTree :
    IsStructure env req content sourcePath chunker
      (req.loadedTree env content sourcePath chunker cache) := by
  unfold loadedTree
  cases hhot : cache.mergedDocuments.peek (req.entryDir env, req.chunkVariant) with
  | some hot => exact h.document hot hhot
  | none =>
    dsimp only
    split
    · exact .inl rfl
    · exact .inr rfl

theorem SkillKept.ensured (hindexes : Indexes env req sourcePath chunker)
    (hread : readPage env (cache.disk (req.entryDir env)) = some page) {variant : ChunkVariant}
    (hvariant : variant = none ∨ variant = req.chunkVariant) :
    ∃ cache', cache.ensureBm25ChunkVariant env (req.entryDir env) (req.docId env) req.config
        variant = (.ok (), cache') ∧
      SkillKept env req content sourcePath chunker cache' ∧
      cache'.mergedDocuments = cache.mergedDocuments ∧
      readPage env (cache'.disk (req.entryDir env)) = some page ∧
      (variant = req.chunkVariant → (cache'.disk (req.entryDir env)).contains
        (chunkIndexRel "bm25" req.paramsHash) = true) := by
  rcases hvariant with rfl | rfl
  · exact ⟨cache, rfl, h, rfl, hread, fun hnone => absurd hnone.symm (chunkVariant_ne_none req)⟩
  · obtain ⟨cache', hensure, hkept, hdocuments, hread', hchunks⟩ := h.ensureVariant hindexes hread
    exact ⟨cache', hensure, hkept, hdocuments, hread', fun _ => hchunks⟩

theorem SkillKept.loadsDocument (hread : readPage env (cache.disk (req.entryDir env)) = some page)
    (variant : ChunkVariant) :
    ∃ doc cache', cache.loadDocumentCached env (req.entryDir env) variant = (.ok doc, cache') ∧
      Gives env req content sourcePath chunker variant
        (req.loadedTree env content sourcePath chunker cache) doc cache' ∧
      cache'.disk = cache.disk := by
  obtain ⟨doc, cache', hload, hdoc, hremembers⟩ :=
    loadDocumentCached_spec (h.kept.disk (req.entryDir env)) hread variant
  have htree : variant = req.chunkVariant →
      doc.tree = req.loadedTree env content sourcePath chunker cache := by
    rintro rfl
    rw [hdoc]
    exact h.tree_loaded hread
  refine ⟨doc, cache', hload, ⟨?_, htree⟩, hremembers.disk⟩
  apply h.remembers hremembers
  intro hvariant
  rw [htree hvariant]
  exact h.isStructure_loadedTree

theorem hit_gives (hindexes : Indexes env req sourcePath chunker)
    (hread : readPage env (cache.disk (req.entryDir env)) = some page) :
    ∃ ref doc cache', (req.registryCall mode).hit env req.spec (entryHash env req.spec) cache =
        (.ok ref, cache') ∧ ref.document = some doc ∧
      Gives env req content sourcePath chunker (req.variant mode)
        (req.loadedTree env content sourcePath chunker cache) doc cache' := by
  obtain ⟨doc, cache₁, hload, hgives, hdisk⟩ := h.loadsDocument hread (req.variant mode)
  have hdir : skillEntryDir ((req.registryCall mode).root env) (entryHash env req.spec) =
      req.entryDir env := rfl
  have hvariant : (req.registryCall mode).variant = req.variant mode := rfl
  unfold RegistryCall.hit andThen
  dsimp only
  rw [hdir, hvariant, hload]
  dsimp only
  split
  · rw [← hdisk] at hread
    obtain ⟨cache₂, hensure, hkept₂, -⟩ :=
      hgives.kept.ensured hindexes hread (variant_cases req mode)
    have hensure' : cache₁.ensureBm25ChunkVariant env (req.entryDir env)
        (env.docIdFromPath req.spec.path) (req.registryCall mode).config (req.variant mode) =
          (.ok (), cache₂) := hensure
    rw [hensure']
    exact ⟨_, doc, cache₂, rfl, rfl, hkept₂, hgives.tree⟩
  · exact ⟨_, doc, cache₁, rfl, rfl, hgives⟩

omit h in
theorem indexKept_built {files : EntryFiles} :
    IndexKept env files (req.docId env) none (req.index env content sourcePath) := by
  constructor
  · intro pipeline hash raw hraw
    unfold SkillRequest.index at hraw
    rw [get?_builtIndex_chunkIndex] at hraw
    cases hraw
  · exact ⟨_, get?_documents_builtIndex _, fun _ => chunkless_pageDocument⟩

omit h in
theorem indexFits_built : IndexFits env req content sourcePath (req.index env content sourcePath) :=
  ⟨_, get?_documents_builtIndex _, rfl, fun _ _ _ _ => rfl⟩

theorem SkillKept.builds (hread : readPage env (cache.disk (req.entryDir env)) = none) :
    ∃ cache₁, cache.writePageIndexEntry env (req.index env content sourcePath) (req.entryDir env)
        (req.docId env) = (.ok (), cache₁) ∧
      SkillKept env req content sourcePath chunker cache₁ ∧
      cache₁.mergedDocuments = cache.mergedDocuments ∧
      readPage env (cache₁.disk (req.entryDir env)) = some (req.page env content sourcePath) := by
  refine ⟨_, ?_, h.writePage hread, rfl, ?_⟩
  · unfold SkillsCache.writePageIndexEntry SkillRequest.index
    rw [writePageIndexEntry_eq]
  · rw [disk_write_self, readPage_pageFiles]
    rfl

theorem persist_gives (hindexes : Indexes env req sourcePath chunker)
    (hread : readPage env (cache.disk (req.entryDir env)) = none) :
    ∃ ref doc cache', (req.registryCall mode).persist env req.spec (entryHash env req.spec)
        (req.index env content sourcePath) cache = (.ok ref, cache') ∧ ref.document = some doc ∧
      Gives env req content sourcePath chunker (req.variant mode)
        (req.loadedTree env content sourcePath chunker cache) doc cache' := by
  obtain ⟨cache₁, hwrite, hkept₁, hdocuments₁, hread₁⟩ := h.builds hread
  -- the index is stored
  obtain ⟨cache₂, hcache₂⟩ : ∃ cache₂, cache₂ = cache₁.storeSkillsIndex (req.entryDir env)
      (req.docId env) none (req.index env content sourcePath) := ⟨_, rfl⟩
  have hkept₂ : SkillKept env req content sourcePath chunker cache₂ := by
    rw [hcache₂]
    exact hkept₁.loads (loads_storeSkillsIndex _ _ _ _ _) indexKept_built
      fun _ => ⟨indexFits_built, contains_of_readPage hread₁⟩
  have hread₂ : readPage env (cache₂.disk (req.entryDir env)) =
      some (req.page env content sourcePath) := by
    rw [hcache₂]
    exact hread₁
  have hdocuments₂ : cache₂.mergedDocuments = cache.mergedDocuments := by
    rw [hcache₂]
    exact hdocuments₁
  -- the chunk variant is ensured, and the document loaded
  obtain ⟨cache₃, hensure, hkept₃, hdocuments₃, hread₃, hchunks⟩ :=
    hkept₂.ensured hindexes hread₂ (variant_cases req mode)
  obtain ⟨doc, cache₄, hload, hgives, -⟩ := hkept₃.loadsDocument hread₃ (req.variant mode)
  have htree : req.variant mode = req.chunkVariant →
      doc.tree = req.loadedTree env content sourcePath chunker cache := by
    intro hvariant
    have habsent := h.not_page hread
    rw [hgives.tree hvariant, loadedTree_of_complete fun _ => hchunks hvariant,
      loadedTree_of_complete (by simp [habsent]), hdocuments₃, hdocuments₂]
  have hdir : skillEntryDir ((req.registryCall mode).root env) (entryHash env req.spec) =
      req.entryDir env := rfl
  have hid : env.docIdFromPath req.spec.path = req.docId env := rfl
  have hvariant : (req.registryCall mode).variant = req.variant mode := rfl
  have hconfig : (req.registryCall mode).config = req.config := rfl
  refine ⟨(req.registryCall mode).entryRef env req.spec (entryHash env req.spec) true .miss
    (some doc) false, doc, cache₄, ?_, rfl, hgives.kept, htree⟩
  unfold RegistryCall.persist andThen
  dsimp only
  rw [hdir, hid, hvariant, hconfig, hwrite]
  dsimp only
  rw [← hcache₂, hensure]
  dsimp only
  rw [hload]

theorem keep_gives :
    ∃ ref doc cache', (req.registryCall mode).keep env req.spec (entryHash env req.spec)
        (req.index env content sourcePath) cache = (.ok ref, cache') ∧ ref.document = some doc ∧
      Gives env req content sourcePath chunker (req.variant mode)
        (req.page env content sourcePath).tree doc cache' := by
  have hdoc : (req.index env content sourcePath).documents.get? (env.docIdFromPath req.spec.path) =
      some (req.page env content sourcePath) := get?_documents_builtIndex _
  unfold RegistryCall.keep
  rw [hdoc]
  exact ⟨_, _, _, rfl, rfl,
    h.remembers (remembers_storeMergedDocument _ _ _ _) fun _ => .inl rfl, fun _ => rfl⟩

theorem ensure_gives (mode : CallMode)
    (hreadable : ReadableSkill env req content) (hindexes : Indexes env req sourcePath chunker) :
    ∃ ref doc cache', ensureSkillsRegistry env (req.registryCall mode) cache =
        (.ok [ref], cache') ∧ ref.document = some doc ∧
      Gives env req content sourcePath chunker (req.variant mode)
        (if mode.diskOk then req.loadedTree env content sourcePath chunker cache
          else (req.page env content sourcePath).tree) doc cache' := by
  obtain ⟨hhash, hdigest⟩ := hreadable.source.contentSha256_eq
  have hvalid := (h.kept.disk (req.entryDir env)).page.pageIndexValid_iff
    (entryHashMatches_of_isDigest hdigest (env.expandTilde req.catalogRoot))
  have hdir : skillEntryDir ((req.registryCall mode).root env) (entryHash env req.spec) =
      req.entryDir env := rfl
  have hdiskOk : (req.registryCall mode).diskOk = mode.diskOk := rfl
  have hone : ∃ ref doc cache', (req.registryCall mode).ensureOneSkillEntry env req.spec cache =
        (.ok ref, cache') ∧ ref.document = some doc ∧
      Gives env req content sourcePath chunker (req.variant mode)
        (if mode.diskOk then req.loadedTree env content sourcePath chunker cache
          else (req.page env content sourcePath).tree) doc cache' := by
    unfold RegistryCall.ensureOneSkillEntry
    rw [hhash]
    dsimp only
    rw [hdir, hdiskOk]
    split
    · rename_i hhit
      rw [Bool.and_eq_true] at hhit
      obtain ⟨page, hread⟩ := readPage_of_contains h.kept (hvalid.mp hhit.2)
      rw [if_pos hhit.1]
      exact hit_gives h hindexes hread
    · rename_i hmiss
      have hbuild : env.buildPageIndexForContent req.spec.path content
          (req.registryCall mode).config = .ok (req.index env content sourcePath) :=
        buildPageIndex_eq hindexes.path content req.config
      rw [if_neg (by simp [registryCall])]
      unfold RegistryCall.build
      rw [hreadable.text]
      dsimp only
      rw [hbuild, hdiskOk]
      dsimp only
      cases hdisk : mode.diskOk with
      | false =>
        rw [if_neg (by simp), if_neg (by simp)]
        exact keep_gives h
      | true =>
        rw [if_pos rfl, if_pos rfl]
        apply persist_gives h hindexes
        cases hread : readPage env (cache.disk (req.entryDir env)) with
        | none => rfl
        | some page =>
          rw [hdisk, Bool.true_and] at hmiss
          exact absurd (hvalid.mpr (contains_of_readPage hread)) hmiss
  obtain ⟨ref, doc, cache', hensure, hdoc, hgives⟩ := hone
  refine ⟨ref, doc, cache', ?_, hdoc, hgives⟩
  have hsources : (req.registryCall mode).sources = [req.spec] := rfl
  unfold ensureSkillsRegistry
  rw [hsources]
  unfold RegistryCall.ensureEntries andThen
  rw [if_pos hreadable.source.isPresent, hensure]
  rfl

/-- The branch of a valid page index, where no document is in memory. -/
theorem load_gives (mode : CallMode)
    (hread : readPage env (cache.disk (req.entryDir env)) = some page) :
    ∃ ref doc cache', (req.materializeCall env mode).load env cache = (.ok ref, cache') ∧
      ref.document = some doc ∧ SkillKept env req content sourcePath chunker cache' ∧
        doc = mergedDocument env (cache.disk (req.entryDir env)) (req.variant mode) page := by
  obtain ⟨doc, hdoc⟩ : ∃ doc, doc = mergedDocument env
      (cache.disk (req.entryDir env)) (req.variant mode) page := ⟨_, rfl⟩
  have hstructure : req.variant mode = req.chunkVariant →
      IsStructure env req content sourcePath chunker doc.tree := by
    intro hvariant
    rw [hdoc, hvariant, h.tree_merged hread]
    split
    · exact .inr rfl
    · exact .inl rfl
  obtain ⟨cache₁, hcache₁⟩ : ∃ cache₁, cache₁ =
      cache.storeMergedDocument (req.entryDir env) (req.variant mode) doc := ⟨_, rfl⟩
  have hkept₁ : SkillKept env req content sourcePath chunker cache₁ := by
    rw [hcache₁]
    exact h.remembers (remembers_storeMergedDocument _ _ _ _) hstructure
  have hread₁ : readPage env (cache₁.disk (req.entryDir env)) = some page := by
    rw [hcache₁]
    exact hread
  obtain ⟨index, cache₂, hload, hindexEq, hloads⟩ := loadSkillsIndexFromEntry_spec
    (hkept₁.kept.disk (req.entryDir env)) hread₁ (req.docId env) (req.variant mode)
  have hindex := hkept₁.kept.loaded hread₁ (req.docId env) (req.variant mode)
  rw [← hindexEq] at hindex
  have hfits : req.variant mode = none → IndexFits env req content sourcePath index ∧
      (cache₁.disk (req.entryDir env)).contains pageIndexRel = true := by
    intro hnone
    rw [hindexEq, hnone]
    exact ⟨hkept₁.loadedFits hread₁, contains_of_readPage hread₁⟩
  have hkept₂ := hkept₁.loads hloads hindex hfits
  rw [← hloads.disk] at hindex hfits
  refine ⟨(req.materializeCall env mode).materializedRef doc true .hit, doc, _, ?_, rfl,
    hkept₂.loads (loads_storeSkillsIndex _ _ _ _ _) hindex hfits, hdoc⟩
  have hentry : (req.materializeCall env mode).entryDir = req.entryDir env := rfl
  have hid : (req.materializeCall env mode).docId = req.docId env := rfl
  have hvariant : (req.materializeCall env mode).variant = req.variant mode := rfl
  unfold MaterializeCall.load SkillsCache.loadMergedDocumentJson
  rw [hentry, hid, hvariant, (h.kept.disk _).loadMerged_eq hread, ← hdoc]
  dsimp only
  rw [← hcache₁, hload]

theorem build_gives (hindexes : Indexes env req sourcePath chunker)
    (hread : readPage env (cache.disk (req.entryDir env)) = none)
    (hcan : mode.diskOk = true ∨ req.variant mode = none) :
    ∃ ref doc cache', (req.materializeCall env mode).build env content cache = (.ok ref, cache') ∧
      ref.document = some doc ∧ Gives env req content sourcePath chunker (req.variant mode)
        (req.chunked env content sourcePath chunker) doc cache' := by
  have hbuild : env.buildPageIndexForContent (req.materializeCall env mode).source content
      (req.materializeCall env mode).config = .ok (req.index env content sourcePath) :=
    buildPageIndex_eq hindexes.path content req.config
  have hentry : (req.materializeCall env mode).entryDir = req.entryDir env := rfl
  have hid : (req.materializeCall env mode).docId = req.docId env := rfl
  have hvariant : (req.materializeCall env mode).variant = req.variant mode := rfl
  have hconfig : (req.materializeCall env mode).config = req.config := rfl
  have hdiskOk : (req.materializeCall env mode).diskOk = mode.diskOk := rfl
  unfold MaterializeCall.build MaterializeCall.builtDocument
  rw [hbuild]
  dsimp only
  rw [hentry, hid, hvariant, hconfig, hdiskOk]
  cases hdisk : mode.diskOk with
  | true =>
    obtain ⟨cache₁, hwrite, hkept₁, -, hread₁⟩ := h.builds hread
    obtain ⟨cache₂, hensure, hkept₂, -, hread₂, hchunks⟩ :=
      hkept₁.ensured hindexes hread₁ (variant_cases req mode)
    obtain ⟨doc, hdoc⟩ : ∃ doc, doc = mergedDocument env
        (cache₂.disk (req.entryDir env)) (req.variant mode) (req.page env content sourcePath) :=
      ⟨_, rfl⟩
    have htree : req.variant mode = req.chunkVariant →
        doc.tree = req.chunked env content sourcePath chunker := by
      intro hbm25
      rw [hdoc, hbm25, hkept₂.tree_merged hread₂, if_pos (hchunks hbm25)]
    have hload := (hkept₂.kept.disk (req.entryDir env)).loadMerged_eq hread₂ (req.entryDir env)
      (req.variant mode)
    unfold andThen SkillsCache.loadMergedDocumentJson
    simp only [if_pos, hwrite, hensure, hload, ← hdoc]
    refine ⟨_, doc, _, rfl, rfl, ⟨hkept₂.remembers (remembers_storeMergedDocument _ _ _ _) ?_, htree⟩⟩
    intro hbm25
    rw [htree hbm25]
    exact .inr rfl
  | false =>
    have hnone : req.variant mode = none := hcan.resolve_left (by simp [hdisk])
    have hdoc : (req.index env content sourcePath).documents.get? (req.docId env) =
        some (req.page env content sourcePath) := get?_documents_builtIndex _
    rw [hnone, hdoc]
    exact ⟨_, _, _, rfl, rfl, h.remembers (remembers_storeMergedDocument _ _ _ _)
      fun hbm25 => absurd hbm25.symm (chunkVariant_ne_none req),
      fun hbm25 => absurd hbm25.symm (chunkVariant_ne_none req)⟩

theorem build_error (hindexes : Indexes env req sourcePath chunker)
    (hread : readPage env (cache.disk (req.entryDir env)) = none) (hdisk : mode.diskOk = false)
    (hvariant : req.variant mode = req.chunkVariant) :
    ∃ e cache', (req.materializeCall env mode).build env content cache = (.error e, cache') ∧
      SkillKept env req content sourcePath chunker cache' := by
  have hbuild : env.buildPageIndexForContent (req.materializeCall env mode).source content
      (req.materializeCall env mode).config = .ok (req.index env content sourcePath) :=
    buildPageIndex_eq hindexes.path content req.config
  have hentry : (req.materializeCall env mode).entryDir = req.entryDir env := rfl
  have hid : (req.materializeCall env mode).docId = req.docId env := rfl
  have hasked : (req.materializeCall env mode).variant =
      some ("bm25".toList, req.paramsHash) := hvariant
  have hdiskOk : (req.materializeCall env mode).diskOk = false := hdisk
  -- no index is in memory, and none can be loaded
  have hpeek : cache.skillsIndices.peek (req.entryDir env, req.docId env, none) = none := by
    rw [eq_none_iff_forall_ne_some]
    intro index hindex
    have hin := (h.index index hindex).2
    rw [h.not_page hread] at hin
    cases hin
  have hget : cache.getSkillsIndex (req.entryDir env) (req.docId env) none = (none, cache) := by
    unfold SkillsCache.getSkillsIndex
    rw [Lru.get_of_peek_none hpeek]
  obtain ⟨e, he⟩ := loadMerged_error hread (req.entryDir env) none
  refine ⟨e, cache, ?_, h⟩
  have hinvalid : cache.chunkVariantValid env (req.entryDir env) req.paramsHash (req.docId env) =
      false := not_chunkVariantValid hread _ _ _ _
  unfold MaterializeCall.build SkillsCache.ensureBm25ChunkVariant SkillsCache.buildChunkVariant
    SkillsCache.loadSkillsIndexFromEntry loadSkillsIndexFromDisk andThen
  rw [hbuild]
  dsimp only
  rw [hdiskOk, hasked, hentry, hid]
  simp only [Bool.false_eq_true, if_false, hinvalid, hget, he]

/-- What `materialize_skill_entry` gives: what is loaded, or an error where it asks for chunks that it
cannot load or build. -/
theorem materialize_gives (mode : CallMode)
    (hreadable : ReadableSkill env req content) (hindexes : Indexes env req sourcePath chunker) :
    (∃ ref doc cache', materializeSkillEntry env (req.materializeCall env mode) cache =
        (.ok ref, cache') ∧ ref.document = some doc ∧
      Gives env req content sourcePath chunker (req.variant mode)
        (req.loadedTree env content sourcePath chunker cache) doc cache' ∧
      (req.variant mode = req.chunkVariant → CanMaterialize env req cache mode)) ∨
    ∃ e cache', materializeSkillEntry env (req.materializeCall env mode) cache = (.error e, cache') ∧
      SkillKept env req content sourcePath chunker cache' ∧
      req.variant mode = req.chunkVariant ∧ ¬ CanMaterialize env req cache mode := by
  obtain ⟨-, hdigest⟩ := hreadable.source.contentSha256_eq
  have hvalid := (h.kept.disk (req.entryDir env)).page.pageIndexValid_iff
    (entryHashMatches_of_isDigest hdigest (env.expandTilde req.catalogRoot))
  have hentry : (req.materializeCall env mode).entryDir = req.entryDir env := rfl
  have hvariant : (req.materializeCall env mode).variant = req.variant mode := rfl
  have hhash : (req.materializeCall env mode).contentSha256 = entryHash env req.spec := rfl
  have hsource : (req.materializeCall env mode).source = req.spec.path := rfl
  unfold materializeSkillEntry
  rw [hentry, hvariant, hhash, hsource]
  cases hhot : cache.mergedDocuments.peek (req.entryDir env, req.variant mode) with
  | some hot =>
    obtain ⟨cache₁, hget, hremembers⟩ :=
      getMergedDocument_spec cache (req.entryDir env) (req.variant mode) hot
    rw [hhot] at hget
    rw [hget]
    refine .inl ⟨_, hot, cache₁, rfl, rfl, ⟨h.remembers hremembers ?_, ?_⟩, ?_⟩
    · intro hbm25
      rw [hbm25] at hhot
      exact h.document hot hhot
    · intro hbm25
      rw [hbm25] at hhot
      exact (loadedTree_of_hot hhot).symm
    · intro hbm25
      rw [hbm25] at hhot
      exact .inl (by rw [hhot, isSome_some])
  | none =>
    obtain ⟨cache₁, hget, hremembers⟩ := getMergedDocument_spec cache (req.entryDir env)
      (req.variant mode) (req.page env content sourcePath)
    have hkept₁ := h.remembers hremembers fun _ => .inl rfl
    rw [hhot] at hget
    rw [hget]
    dsimp only
    rw [hremembers.disk]
    split
    · rename_i hpage
      have hin := hvalid.mp hpage
      obtain ⟨page, hread⟩ := readPage_of_contains h.kept hin
      have hread₁ := hread
      rw [← hremembers.disk] at hread₁
      obtain ⟨ref, doc, cache₂, hload, hdoc, hkept₂, htree⟩ :=
        load_gives hkept₁ mode hread₁
      refine .inl ⟨ref, doc, cache₂, hload, hdoc, ⟨hkept₂, ?_⟩, fun _ => .inr (.inl hin)⟩
      intro hbm25
      rw [htree, hremembers.disk, hbm25, ← h.tree_loaded hread, ← hbm25, hhot, getD_none]
    · rename_i hpage
      have hread : readPage env (cache.disk (req.entryDir env)) = none := by
        rw [eq_none_iff_forall_ne_some]
        intro page hread
        exact hpage (hvalid.mpr (contains_of_readPage hread))
      have hread₁ := hread
      rw [← hremembers.disk] at hread₁
      rw [hreadable.file]
      dsimp only
      by_cases hcan : mode.diskOk = true ∨ req.variant mode = none
      · obtain ⟨ref, doc, cache₂, hbuild, hdoc, hgives⟩ := build_gives hkept₁ hindexes hread₁ hcan
        refine .inl ⟨ref, doc, cache₂, hbuild, hdoc, ⟨hgives.kept, ?_⟩, ?_⟩
        · intro hbm25
          rw [hgives.tree hbm25, loadedTree_of_complete (by simp [h.not_page hread]), ← hbm25, hhot]
          rfl
        · intro hbm25
          exact .inr (.inr (hcan.resolve_right (hbm25 ▸ chunkVariant_ne_none req)))
      · obtain ⟨hdisk, hasked⟩ := not_or.mp hcan
        have hbm25 := (variant_cases req mode).resolve_left hasked
        obtain ⟨e, cache₂, hbuild, hkept₂⟩ :=
          build_error hkept₁ hindexes hread₁ (Bool.eq_false_iff.mpr hdisk) hbm25
        refine .inr ⟨e, cache₂, hbuild, hkept₂, hbm25, ?_⟩
        rintro (hin | hin | hin)
        · rw [← hbm25, hhot] at hin
          cases hin
        · rw [h.not_page hread] at hin
          cases hin
        · exact hdisk hin

theorem SkillKept.forgets (hdisk : cache'.disk = cache.disk)
    (hdocuments : ∀ key doc, cache'.mergedDocuments.peek key = some doc →
      cache.mergedDocuments.peek key = some doc)
    (hindices : ∀ key index, cache'.skillsIndices.peek key = some index →
      cache.skillsIndices.peek key = some index) :
    SkillKept env req content sourcePath chunker cache' where
  kept := by
    constructor
    · rw [hdisk]
      exact h.kept.disk
    · rw [hdisk]
      intro key index hindex
      exact h.kept.indices key index (hindices key index hindex)
  page := by
    rw [hdisk]
    exact h.page
  chunks := by
    rw [hdisk]
    exact h.chunks
  document := fun doc hdoc => h.document doc (hdocuments _ doc hdoc)
  index := by
    rw [hdisk]
    exact fun index hindex => h.index index (hindices _ index hindex)

theorem act_ensure (mode : CallMode)
    (hreadable : ReadableSkill env req content) (hindexes : Indexes env req sourcePath chunker) :
    ∃ doc cache', req.act env (.ensure mode) cache = (.ok (some doc), cache') ∧
      Gives env req content sourcePath chunker (req.variant mode)
        (if mode.diskOk then req.loadedTree env content sourcePath chunker cache
          else (req.page env content sourcePath).tree) doc cache' := by
  obtain ⟨ref, doc, cache', hensure, hdoc, hgives⟩ :=
    ensure_gives h mode hreadable hindexes
  refine ⟨doc, cache', ?_, hgives⟩
  unfold act andThen
  dsimp only
  rw [hensure, ← hdoc]
  rfl

theorem act_materialize (mode : CallMode)
    (hreadable : ReadableSkill env req content) (hindexes : Indexes env req sourcePath chunker) :
    (∃ doc cache', req.act env (.materialize mode) cache = (.ok (some doc), cache') ∧
      Gives env req content sourcePath chunker (req.variant mode)
        (req.loadedTree env content sourcePath chunker cache) doc cache' ∧
      (req.variant mode = req.chunkVariant → CanMaterialize env req cache mode)) ∨
    ∃ e cache', req.act env (.materialize mode) cache = (.error e, cache') ∧
      SkillKept env req content sourcePath chunker cache' ∧
      req.variant mode = req.chunkVariant ∧ ¬ CanMaterialize env req cache mode := by
  unfold act andThen
  dsimp only
  rcases materialize_gives h mode hreadable hindexes with
    ⟨ref, doc, cache', hcall, hdoc, hrest⟩ | ⟨e, cache', hcall, hrest⟩
  · rw [hcall]
    refine .inl ⟨doc, cache', ?_, hrest⟩
    dsimp only
    rw [hdoc]
  · rw [hcall]
    exact .inr ⟨e, cache', rfl, hrest⟩

theorem skillKept_act
    (hreadable : ReadableSkill env req content) (hindexes : Indexes env req sourcePath chunker)
    (a : SkillAction) : SkillKept env req content sourcePath chunker (req.act env a cache).2 := by
  cases a with
  | ensure mode =>
    obtain ⟨doc, cache', hact, hgives⟩ := act_ensure h mode hreadable hindexes
    rw [hact]
    exact hgives.kept
  | materialize mode =>
    rcases act_materialize h mode hreadable hindexes with
      ⟨doc, cache', hact, hgives, -⟩ | ⟨e, cache', hact, hkept, -, -⟩
    · rw [hact]
      exact hgives.kept
    · rw [hact]
      exact hkept
  | evictDocument key =>
    exact h.forgets rfl (fun _ _ => Lru.peek_of_peek_remove) fun _ _ hindex => hindex
  | evictIndex key =>
    exact h.forgets rfl (fun _ _ hdoc => hdoc) fun _ _ => Lru.peek_of_peek_remove
  | reset lruMergedDocuments lruSkillsIndex =>
    refine h.forgets rfl ?_ ?_
    · intro key doc hdoc
      cases hdoc
    · intro key index hindex
      cases hindex

omit h

theorem skillKept_run (hreadable : ReadableSkill env req content)
    (hindexes : Indexes env req sourcePath chunker) {lruMergedDocuments lruSkillsIndex : ℕ}
    {actions : List SkillAction}
    (run : Run (req.step env) (fun _ _ => True) (.empty lruMergedDocuments lruSkillsIndex) actions
      cache) :
    SkillKept env req content sourcePath chunker cache := by
  refine run.invariant (skillKept_empty _ _) ?_
  intro s a s' h _ hstep
  cases hstep
  exact skillKept_act h hreadable hindexes a

theorem firstCall_eq (hreadable : ReadableSkill env req content)
    (hindexes : Indexes env req sourcePath chunker) :
    ∃ first, (req.firstCall env).1 = .ok (some first) ∧
      first.tree = req.chunked env content sourcePath chunker := by
  have hbm25 : req.variant ⟨"bm25", .auto, true⟩ = req.chunkVariant := variant_eq (by decide)
  obtain ⟨first, cache', hact, hgives⟩ := act_ensure (skillKept_empty 128 64)
    ⟨"bm25", .auto, true⟩ hreadable hindexes
  refine ⟨first, ?_, ?_⟩
  · unfold firstCall
    rw [hact]
  · rw [hgives.tree hbm25]
    rfl

theorem ensureBm25ChunkVariant_error {entryDir paramsHash : Text}
    (h : EntryKept env (cache.disk entryDir))
    (hread : readPage env (cache.disk entryDir) = some page)
    (hchunks : (cache.disk entryDir).contains (chunkIndexRel "bm25" paramsHash) = false)
    {config : PageIndexConfig} {e : String}
    (hnew : Bm25CohesionChunker.new config.cohesionConfigForChunking = .error e) (docId : Text) :
    ∃ e cache', cache.ensureBm25ChunkVariant env entryDir docId config
      (some ("bm25", paramsHash)) = (.error e, cache') := by
  have hinvalid : ¬ cache.chunkVariantValid env entryDir paramsHash docId = true := by
    intro hvalid
    have hindex := (h.chunkVariantValid_iff hread _ _ _ _).mp hvalid
    rw [hchunks] at hindex
    cases hindex.2
  obtain ⟨index, cache₁, hload, -, -⟩ := loadSkillsIndexFromEntry_spec h hread docId none
  obtain ⟨e', he'⟩ : ∃ e, buildChunkVariant env index docId "bm25" paramsHash
      config = .error e := buildChunkVariant_error env hnew
  refine ⟨e', cache₁, ?_⟩
  unfold SkillsCache.ensureBm25ChunkVariant SkillsCache.buildChunkVariant andThen
  dsimp only
  rw [if_neg hinvalid, hload]
  dsimp only
  rw [he']

theorem indexes_of_firstCall (hreadable : ReadableSkill env req content) {first : SkillDocument}
    (h : (req.firstCall env).1 = .ok (some first)) :
    ∃ sourcePath chunker, Indexes env req sourcePath chunker := by
  obtain ⟨call, hcall⟩ : ∃ call, call = req.registryCall ⟨"bm25", .auto, true⟩ := ⟨_, rfl⟩
  -- the call of the skill went well
  obtain ⟨ref, cache', hone⟩ : ∃ ref cache',
      call.ensureOneSkillEntry env req.spec (.empty 128 64) = (.ok ref, cache') := by
    have hsources : call.sources = [req.spec] := by
      rw [hcall]
      rfl
    unfold firstCall act at h
    dsimp only at h
    rw [← hcall] at h
    unfold ensureSkillsRegistry at h
    rw [hsources] at h
    unfold RegistryCall.ensureEntries at h
    rw [if_pos hreadable.source.isPresent] at h
    obtain ⟨outcome, houtcome⟩ : ∃ outcome, outcome =
      call.ensureOneSkillEntry env req.spec (.empty 128 64) := ⟨_, rfl⟩
    rw [← houtcome] at h ⊢
    obtain ⟨result, cache'⟩ := outcome
    cases result with
    | error e => cases h
    | ok ref => exact ⟨ref, cache', rfl⟩
  have hempty : ∀ hash, pageIndexValid env (skillEntryDir (call.root env) hash)
      hash ((SkillsCache.empty 128 64).disk (skillEntryDir (call.root env) hash)) = false := by
    intro hash
    exact Bool.and_false _
  have hdiskOk : call.diskOk = true := by
    rw [hcall]
    rfl
  have heager : call.lazyRegistry = false := by
    rw [hcall]
    rfl
  obtain ⟨hhash, -⟩ := hreadable.source.contentSha256_eq
  unfold RegistryCall.ensureOneSkillEntry RegistryCall.build at hone
  rw [hhash] at hone
  dsimp only at hone
  rw [hempty, Bool.and_false, if_neg (by simp), heager, Bool.false_and, if_neg (by simp),
    hreadable.text] at hone
  dsimp only at hone
  cases hpath : env.shortenHomePath req.spec.path with
  | error e =>
    unfold RegistryEnvironment.buildPageIndexForContent at hone
    rw [buildIndexForContent_eq, hpath] at hone
    cases hone
  | ok sourcePath =>
    refine ⟨sourcePath, ?_⟩
    cases hnew : Bm25CohesionChunker.new req.config.cohesionConfigForChunking with
    | ok chunker => exact ⟨chunker, hpath, hnew⟩
    | error e =>
      have hconfig : call.config = req.config := by
        rw [hcall]
        rfl
      have hbm25 : req.variant ⟨"bm25", .auto, true⟩ = req.chunkVariant := variant_eq (by decide)
      have hvariant : call.variant = some ("bm25".toList, req.paramsHash) := by
        rw [hcall]
        exact hbm25
      rw [buildPageIndex_eq hpath, hdiskOk, hconfig] at hone
      dsimp only at hone
      rw [if_pos rfl] at hone
      unfold RegistryCall.persist SkillsCache.writePageIndexEntry andThen at hone
      dsimp only at hone
      rw [writePageIndexEntry_eq, hconfig, hvariant] at hone
      dsimp only at hone
      -- the chunks are missing after the page index is written
      obtain ⟨entryDir, hentry⟩ : ∃ entryDir, entryDir =
        skillEntryDir (call.root env) (entryHash env req.spec) := ⟨_, rfl⟩
      rw [← hentry] at hone
      obtain ⟨written, hwritten⟩ : ∃ written, written = ((SkillsCache.empty 128 64).write entryDir
          (pageFiles env req.config sourcePath (env.docIdFromPath req.spec.path)
            content ((SkillsCache.empty 128 64).disk entryDir))).storeSkillsIndex entryDir
              (env.docIdFromPath req.spec.path) none
              (builtIndex env req.config sourcePath
                (env.docIdFromPath req.spec.path) content) := ⟨_, rfl⟩
      have hdisk : written.disk entryDir = pageFiles env req.config sourcePath
          (env.docIdFromPath req.spec.path) content .empty := by
        rw [hwritten]
        exact disk_write_self _ _ _
      have hkept : EntryKept env (written.disk entryDir) := by
        rw [hdisk]
        exact entryKept_pageFiles _ entryKept_empty
      have hread : readPage env (written.disk entryDir) =
          some (pageDocument req.config sourcePath (env.docIdFromPath req.spec.path) content) := by
        rw [hdisk, readPage_pageFiles]
      have hchunks : (written.disk entryDir).contains
          (chunkIndexRel "bm25" req.paramsHash) = false := by
        unfold Dict.contains
        rw [hdisk, get?_pageFiles_of_chunk _ _ (head?_chunkIndexRel _ _)]
        rfl
      obtain ⟨e', cache₁, hensure⟩ := ensureBm25ChunkVariant_error hkept hread hchunks hnew
        (env.docIdFromPath req.spec.path)
      rw [← hwritten, hensure] at hone
      cases hone

theorem tree_page_eq_iff :
    (req.page env content sourcePath).tree = req.chunked env content sourcePath chunker ↔
      WithoutChunks content req.config := by
  constructor
  · intro heq
    by_contra hwith
    have hchunks : HasChunks (req.chunked env content sourcePath chunker) :=
      hasChunks_chunkedTree env chunker hwith
    rw [← heq] at hchunks
    exact not_hasChunks_of_chunkless chunkless_pageDocument hchunks
  · intro hwithout
    exact (chunkedTree_of_withoutChunks env chunker hwithout _).symm

theorem SkillKept.loadedTree_eq_iff (h : SkillKept env req content sourcePath chunker cache) :
    req.loadedTree env content sourcePath chunker cache =
        req.chunked env content sourcePath chunker ↔
      WithoutChunks content req.config ∨ ChunksServed env req cache := by
  by_cases hwithout : WithoutChunks content req.config
  · refine iff_of_true ?_ (.inl hwithout)
    rcases h.isStructure_loadedTree with hpage | hchunked
    · rw [hpage]
      exact tree_page_eq_iff.mpr hwithout
    · exact hchunked
  · rw [or_iff_right hwithout]
    unfold loadedTree ChunksServed
    cases hhot : cache.mergedDocuments.peek (req.entryDir env, req.chunkVariant) with
    | some hot =>
      dsimp only
      constructor
      · intro heq
        rw [heq]
        exact hasChunks_chunkedTree env chunker hwithout
      · intro hchunks
        refine (h.document hot hhot).resolve_left ?_
        intro hpage
        rw [hpage] at hchunks
        exact not_hasChunks_of_chunkless chunkless_pageDocument hchunks
    | none =>
      dsimp only
      split
      · rename_i halone
        refine iff_of_false (fun heq => hwithout (tree_page_eq_iff.mp heq)) ?_
        intro hchunks
        have hin := hchunks halone.1
        rw [halone.2] at hin
        cases hin
      · rename_i hnot
        refine iff_of_true rfl ?_
        intro hpage
        rw [not_and] at hnot
        exact Bool.not_eq_false _ ▸ hnot hpage

/-- In every run for a skill, a call for its chunks serves the index of the first call exactly where
the skill can be indexed and the caches have its chunks. -/
theorem servesIndex_iff (hreadable : ReadableSkill env req content)
    {lruMergedDocuments lruSkillsIndex : ℕ} {actions : List SkillAction} {a : SkillAction}
    (run : Run (req.step env) (fun _ _ => True) (.empty lruMergedDocuments lruSkillsIndex) actions
      cache) (hasks : AsksForChunks a) :
    ServesIndex env req cache a ↔
      (∃ sourcePath chunker, Indexes env req sourcePath chunker) ∧
        MeetsChunks env req content cache a := by
  by_cases hindexes : ∃ sourcePath chunker, Indexes env req sourcePath chunker
  · rw [and_iff_right hindexes]
    obtain ⟨sourcePath, chunker, hindexes⟩ := hindexes
    have hkept := skillKept_run hreadable hindexes run
    obtain ⟨first, hfirst, htree⟩ := firstCall_eq hreadable hindexes
    -- of a call that gives a document, the structure decides
    have hserves : ∀ {doc}, (req.act env a cache).1 = .ok (some doc) →
        (ServesIndex env req cache a ↔ doc.tree = req.chunked env content sourcePath chunker) := by
      intro doc hdoc
      rw [← htree]
      constructor
      · rintro ⟨doc', first', hdoc', hfirst', heq⟩
        rw [hdoc, Except.ok.injEq, some.injEq] at hdoc'
        rw [hfirst, Except.ok.injEq, some.injEq] at hfirst'
        rw [hdoc', hfirst', heq]
      · intro heq
        exact ⟨doc, first, hdoc, hfirst, heq⟩
    cases a with
    | ensure mode =>
      obtain ⟨doc, cache', hact, hgives⟩ := act_ensure hkept mode hreadable hindexes
      rw [hserves (congrArg Prod.fst hact), hgives.tree (variant_eq hasks)]
      unfold MeetsChunks
      dsimp only
      cases mode.diskOk with
      | false =>
        rw [if_neg (by simp), tree_page_eq_iff]
        simp
      | true =>
        rw [if_pos rfl, hkept.loadedTree_eq_iff]
        simp
    | materialize mode =>
      have hvariant : req.variant mode = req.chunkVariant := variant_eq hasks
      rcases act_materialize hkept mode hreadable hindexes with
        ⟨doc, cache', hact, hgives, hcan⟩ | ⟨e, cache', hact, -, -, hcannot⟩
      · rw [hserves (congrArg Prod.fst hact), hgives.tree hvariant, hkept.loadedTree_eq_iff]
        exact (and_iff_right (hcan hvariant)).symm
      · refine iff_of_false ?_ fun hmeets => hcannot hmeets.1
        rintro ⟨doc, first', hdoc, -⟩
        rw [hact] at hdoc
        cases hdoc
    | evictDocument key => exact hasks.elim
    | evictIndex key => exact hasks.elim
    | reset lruMergedDocuments lruSkillsIndex => exact hasks.elim
  · refine iff_of_false ?_ fun h => hindexes h.1
    rintro ⟨doc, first, -, hfirst, -⟩
    exact hindexes (indexes_of_firstCall hreadable hfirst)

end

def plainSkill : SkillRequest := ⟨skillSource "a.md", "cache", .default, "p"⟩

def plainSkillFiles : RegistryEnvironment := plainRegistry [("a.md", "# A")]

def bm25Disk : CallMode := ⟨"bm25", .auto, true⟩

def bm25Memory : CallMode := ⟨"bm25", .forceMemory, true⟩

/-- The page index is asked for, without chunks. -/
def pageDisk : CallMode := ⟨"none", .auto, true⟩

theorem readableSkill_plain : ReadableSkill plainSkillFiles plainSkill "# A" :=
  ⟨⟨⟨"# A", rfl⟩, fun _ hhash => nomatch hhash⟩, rfl, rfl⟩

theorem indexes_plain : ∃ sourcePath chunker, Indexes plainSkillFiles plainSkill sourcePath chunker := by
  have haccepts : ChunkerAccepts plainSkill.config plainSkill.chunkVariant :=
    chunkerAccepts_of_validate (by decide +kernel)
  obtain ⟨chunker, hnew⟩ := haccepts rfl
  exact ⟨_, chunker, rfl, hnew⟩

instance (tree : Structure) : Decidable (HasChunks tree) :=
  decidable_of_iff ((structureToList tree).any (·.chunks.isSome) = true) (by
    unfold HasChunks
    rw [List.any_eq_true]
    simp only [Option.isSome_iff_ne_none])

/-- The caches after one call. -/
def plainSkillServed (mode : CallMode) : SkillsCache :=
  (plainSkill.act plainSkillFiles (.ensure mode) (.empty 128 64)).2

theorem servesIndex_memory :
    ServesIndex plainSkillFiles plainSkill (plainSkillServed bm25Disk) (.materialize bm25Memory) := by
  have hhot : ((plainSkillServed bm25Disk).mergedDocuments.peek
      (plainSkill.entryDir plainSkillFiles, plainSkill.chunkVariant)).any
        (fun hot => decide (HasChunks hot.tree)) = true := by
    decide +kernel
  obtain ⟨hot, hpeek, hchunks⟩ := (Option.any_eq_true _ _).mp hhot
  have run : Run (plainSkill.step plainSkillFiles) (fun _ _ => True) (.empty 128 64)
      [.ensure bm25Disk] (plainSkillServed bm25Disk) := .snoc .nil trivial rfl
  have hasks : materializesBm25 bm25Memory.pipeline = true := by decide
  refine (servesIndex_iff (a := .materialize bm25Memory) readableSkill_plain run hasks).mpr
    ⟨indexes_plain, .inl ?_, .inr ?_⟩
  · rw [hpeek, isSome_some]
  · unfold ChunksServed
    rw [hpeek]
    exact of_decide_eq_true hchunks

/-- Where the page index is there without its chunks, they are missing in what is served. -/
theorem registry_loses_chunks :
    ¬ ∀ (env : RegistryEnvironment) (req : SkillRequest) (content : Text)
      (actions : List SkillAction) (cache : SkillsCache) (a : SkillAction),
      ReadableSkill env req content → (∃ sourcePath chunker, Indexes env req sourcePath chunker) →
      Run (req.step env) (fun _ _ => True) (.empty 128 64) actions cache → AsksForChunks a →
      ServesIndex env req cache a := by
  intro h
  have hasks : materializesBm25 bm25Disk.pipeline = true := by decide
  obtain ⟨doc, first, hdoc, hfirst, heq⟩ := h plainSkillFiles plainSkill "# A" _
    (plainSkillServed pageDisk) (.ensure bm25Disk) readableSkill_plain indexes_plain
    (.snoc (a := .ensure pageDisk) .nil trivial rfl) hasks
  have hwithout : ((plainSkill.act plainSkillFiles (.ensure bm25Disk)
      (plainSkillServed pageDisk)).1.toOption.map fun doc => doc.map fun doc =>
        decide (HasChunks doc.tree)) = some (some false) := by
    decide +kernel
  have hwith : ((plainSkill.firstCall plainSkillFiles).1.toOption.map fun doc => doc.map fun doc =>
      decide (HasChunks doc.tree)) = some (some true) := by
    decide +kernel
  rw [hdoc] at hwithout
  rw [hfirst] at hwith
  have hnone : decide (HasChunks doc.tree) = false := Option.some.inj (Option.some.inj hwithout)
  have hsome : decide (HasChunks first.tree) = true := Option.some.inj (Option.some.inj hwith)
  rw [heq, hsome] at hnone
  cases hnone

end ClearYourTools.Cache
