import ClearYourTools.PageIndex.EntryFiles
import ClearYourTools.PageIndex.Proofs.Isolation

/-!
# What the files of an entry hold

Writing adds files to an entry and takes none away. The page index that was written can be read, and
its node files are there; so do the chunk indices and their chunk files.
-/

namespace ClearYourTools.PageIndex

open Misc Bm25Cohesion List Option
open Prod (fst)
open List (mem_map)

theorem get?_writeSelectedFiles (index : SkillsIndex) (files : EntryFiles) (isIncluded : Text → Bool)
    (rel : Text) : (writeSelectedFiles index files isIncluded).get? rel =
      if isIncluded rel then (index.files.get? rel).or (files.get? rel) else files.get? rel := by
  have hnodup : ((index.files.entries.filter fun file => isIncluded file.1).map fst).Nodup :=
    (filter_sublist.map fst).nodup index.files.nodup
  have hother : (∀ raw, index.files.get? rel = some raw → isIncluded rel = false) →
      (writeSelectedFiles index files isIncluded).get? rel = files.get? rel := by
    intro hnot
    apply Dict.get?_writeAll_of_notMem
    intro hmem
    obtain ⟨file, hfile, rfl⟩ := mem_map.mp hmem
    obtain ⟨hentry, hincluded⟩ := mem_filter.mp hfile
    have hexcluded := hnot file.2 (Dict.get?_of_mem_entries hentry)
    rw [hexcluded] at hincluded
    cases hincluded
  cases hincluded : isIncluded rel with
  | false =>
    rw [if_neg (by simp)]
    exact hother fun _ _ => hincluded
  | true =>
    rw [if_pos rfl]
    cases hraw : index.files.get? rel with
    | none =>
      apply hother
      intro raw h
      rw [hraw] at h
      cases h
    | some raw =>
      exact Dict.get?_writeAll_of_mem files hnodup
        (mem_filter.mpr ⟨Dict.mem_entries_of_get? hraw, hincluded⟩)

/-- Nothing is missing that was there. -/
def Grows (files files' : EntryFiles) : Prop :=
  ∀ rel, files.contains rel = true → files'.contains rel = true

theorem Grows.refl (files : EntryFiles) : Grows files files := fun _ h => h

theorem Grows.trans {files files' files'' : EntryFiles} (h : Grows files files')
    (h' : Grows files' files'') : Grows files files'' :=
  fun rel hrel => h' rel (h rel hrel)

theorem grows_set (files : EntryFiles) (rel raw : Text) : Grows files (files.set rel raw) := by
  intro rel' h
  unfold Dict.contains at h ⊢
  rw [Dict.get?_set]
  split
  · rfl
  · exact h

theorem grows_writeSelectedFiles (index : SkillsIndex) (files : EntryFiles)
    (isIncluded : Text → Bool) : Grows files (writeSelectedFiles index files isIncluded) := by
  intro rel h
  unfold Dict.contains at h ⊢
  rw [get?_writeSelectedFiles]
  split
  · rw [isSome_or, h, Bool.or_true]
  · exact h

theorem startsWith_append (p t : Text) : Text.startsWith p (p ++ t) = true := by
  unfold Text.startsWith
  rw [ isPrefixOf_iff_prefix]
  exact prefix_append p t

theorem startsWith_nodeMdRel (id : ℕ) : Text.startsWith "nodes/" (nodeMdRel id) = true := by
  have hname : "nodes/n".toList = "nodes/".toList ++ ['n'] := by decide
  unfold nodeMdRel
  rw [hname, List.append_assoc, List.append_assoc]
  exact startsWith_append _ _

theorem loadsFile_nodeMdRel (variant : ChunkVariant) (id : ℕ) :
    loadsFile variant (nodeMdRel id) = true := by
  have hname : "nodes/n".toList = "nodes/".toList ++ ['n'] := by decide
  have hrest : (nodeMdRel id).drop "nodes/".toList.length = 'n' :: (Text.ofNat id ++ ".md") := by
    unfold nodeMdRel
    rw [hname, List.append_assoc, List.append_assoc, drop_left]
    rfl
  have hslash : '/' ∉ 'n' :: (Text.ofNat id ++ ".md") := by
    rw [mem_cons, mem_append, not_or, not_or]
    refine ⟨by decide, ?_, by decide⟩
    intro hin
    have hdigit := Text.isDigit_of_mem_ofNat hin
    revert hdigit
    decide
  unfold loadsFile inDir
  rw [hrest, contains_eq_mem, decide_eq_false hslash]
  have hstart := startsWith_nodeMdRel id
  unfold Text.startsWith at hstart
  rw [hstart]
  rfl

theorem startsWith_pageIndexRel : Text.startsWith "nodes/" pageIndexRel = true := by decide

variable {rel : Text}

theorem not_startsWith_nodes (h : rel.head? = some 'c') : Text.startsWith "nodes/" rel = false := by
  cases rel with
  | nil => cases h
  | cons c rel =>
    have hc : c = 'c' := by simpa using h
    subst hc
    rfl

variable (pipeline hash : Text)

theorem head?_chunkIndexRel : (chunkIndexRel pipeline hash).head? = some 'c' := by
  have hname : "chunks/".toList.head? = some 'c' := by decide
  unfold chunkIndexRel chunkVariantRel
  simp only [List.append_assoc]
  rw [head?_append, hname, some_or]

theorem startsWith_chunkVariantRel (pipeline hash name : Text) :
    Text.startsWith ("chunks/" ++ normalizePipeline pipeline ++ '/' :: hash)
      (chunkVariantRel pipeline hash ++ name) = true := by
  have hslash : "/" = ['/'] := by decide
  have hsame : chunkVariantRel pipeline hash ++ name =
      ("chunks/" ++ normalizePipeline pipeline ++ '/' :: hash) ++ '/' :: name := by
    unfold chunkVariantRel
    rw [hslash]
    simp only [List.append_assoc, List.cons_append, nil_append]
  rw [hsame]
  exact startsWith_append _ _

theorem startsWith_chunkIndexRel :
    Text.startsWith ("chunks/" ++ normalizePipeline pipeline ++ '/' :: hash)
      (chunkIndexRel pipeline hash) = true :=
  startsWith_chunkVariantRel pipeline hash _

theorem startsWith_chunkMdRel (id : ℕ) :
    Text.startsWith ("chunks/" ++ normalizePipeline pipeline ++ '/' :: hash)
      (chunkMdRel pipeline hash id) = true :=
  startsWith_chunkVariantRel pipeline hash _

theorem not_startsWith_chunks (h : rel.head? = some 'n') (pipeline hash : Text) :
    Text.startsWith ("chunks/" ++ normalizePipeline pipeline ++ '/' :: hash) rel = false := by
  have hname : "chunks/" = 'c' :: "hunks/" := by decide
  cases rel with
  | nil => cases h
  | cons c rel =>
    have hc : c = 'n' := by simpa using h
    subst hc
    rw [hname]
    rfl

theorem head?_pageIndexRel : pageIndexRel.head? = some 'n' := by decide

theorem chunkMdRel_of_chunkIndexRel {pipeline hash pipeline' hash' : Text}
    (h : chunkIndexRel pipeline hash = chunkIndexRel pipeline' hash') (id : ℕ) :
    chunkMdRel pipeline hash id = chunkMdRel pipeline' hash' id := by
  unfold chunkIndexRel at h
  rw [append_cancel_right_eq] at h
  unfold chunkMdRel
  rw [h]

section

variable (env : EntryEnvironment) (config : PageIndexConfig)

def pageDocument (sourcePath docId content : Text) : SkillDocument where
  id := docId
  path := sourcePath
  tree := formatStructureForOutput (buildFlatStructure content config) config
  frontmatter := (extractSkillPrefix content).frontmatter
  preamble := (extractSkillPrefix content).preamble

/-- The page index of a source, without chunks. -/
def builtIndex (sourcePath docId content : Text) : SkillsIndex where
  documents := Dict.empty.set docId (pageDocument config sourcePath docId content)
  files := Dict.empty.writeAll ((pageIndexRel, env.serializePageIndex
    (pageDocument config sourcePath docId content)) ::
      nodeWrites env config docId (documentNodes content config))
  chunkPipeline := none
  chunkParamsHash := none

theorem buildIndexForContent_eq (path docId content : Text) :
    buildIndexForContent env path docId content config none =
      (env.shortenHomePath path).map fun sourcePath =>
        builtIndex env config sourcePath docId content := by
  have hfree : SkillsIndex.default.documents.contains docId = false := rfl
  unfold buildIndexForContent
  rw [indexSkillMdContent_eq env path docId content config none hfree]
  unfold documentOutput
  cases env.shortenHomePath path with
  | error e => rfl
  | ok sourcePath =>
    simp only [attachOutput, chunkIndexWrites, Except.map, bind, Except.bind, pure, Except.pure]
    rw [structureToList, preorder_buildFlatStructure, nil_append, List.append_nil, singleton_append]
    rfl

variable {config} {sourcePath docId content : Text}

@[simp] theorem get?_documents_builtIndex :
    (builtIndex env config sourcePath docId content).documents.get? docId =
      some (pageDocument config sourcePath docId content) :=
  Dict.get?_set_self _ _ _

theorem get?_builtIndex_page :
    (builtIndex env config sourcePath docId content).files.get? pageIndexRel =
      some (env.serializePageIndex (pageDocument config sourcePath docId content)) := by
  have hnotMem : pageIndexRel ∉
      (nodeWrites env config docId (documentNodes content config)).map fst := by
    unfold nodeWrites
    rw [List.map_map]
    intro hmem
    obtain ⟨obj, -, heq⟩ := mem_map.mp hmem
    exact nodeMdRel_ne_pageIndexRel obj.id heq
  unfold builtIndex
  dsimp only
  rw [Dict.writeAll_cons, Dict.get?_writeAll_of_notMem _ hnotMem, Dict.get?_set_self]

theorem get?_builtIndex_chunkIndex :
    (builtIndex env config sourcePath docId content).files.get? (chunkIndexRel pipeline hash) =
      none := by
  unfold builtIndex
  dsimp only
  rw [Dict.get?_writeAll_of_notMem]
  · rfl
  · unfold nodeWrites
    rw [map_cons, List.map_map, mem_cons, not_or]
    constructor
    · intro heq
      have hhead := head?_chunkIndexRel pipeline hash
      rw [heq, head?_pageIndexRel] at hhead
      cases hhead
    · intro hmem
      obtain ⟨obj, -, heq⟩ := mem_map.mp hmem
      exact nodeMdRel_ne_chunkIndexRel obj.id pipeline hash heq

theorem contains_builtIndex_nodeMd {id : ℕ}
    (h : id ∈ (documentNodes content config).map NodeObj.id) :
    (builtIndex env config sourcePath docId content).files.contains (nodeMdRel id) = true := by
  unfold builtIndex nodeWrites
  dsimp only
  rw [Dict.contains_writeAll_empty, map_cons, List.map_map]
  obtain ⟨obj, hobj, rfl⟩ := mem_map.mp h
  exact mem_cons_of_mem _ (mem_map.mpr ⟨obj, hobj, rfl⟩)

theorem mem_pageDocument {obj : NodeObj}
    (h : obj ∈ structureToList (pageDocument config sourcePath docId content).tree) :
    ∃ old ∈ documentNodes content config, obj.id = old.id ∧ obj.nodeId = old.nodeId ∧
      obj.chunks = none ∧ (config.ifAddNodeText = false → obj.text = none) := by
  unfold pageDocument formatStructureForOutput at h
  dsimp only at h
  split at h
  · rename_i hconfig
    rw [structureToList, preorder_buildFlatStructure] at h
    refine ⟨obj, h, rfl, rfl, chunks_of_mem_documentNodes h, ?_⟩
    intro hnot
    rw [hconfig] at hnot
    cases hnot
  · rw [structureToList, Forest.preorder_map, preorder_buildFlatStructure] at h
    obtain ⟨old, hold, rfl⟩ := mem_map.mp h
    have hchunks := chunks_of_mem_documentNodes hold
    exact ⟨old, hold, rfl, rfl, hchunks, fun _ => rfl⟩

end

section

variable (env : EntryEnvironment)

/-- No node refers to chunks. -/
def Chunkless (tree : Structure) : Prop := ∀ obj ∈ structureToList tree, obj.chunks = none

/-- The page index of an entry, if there is one, can be read, and its node files are there. -/
def PageKept (files : EntryFiles) : Prop :=
  ∀ raw, files.get? pageIndexRel = some raw →
    ∃ page, env.readPageIndex raw = some page ∧ Chunkless page.tree ∧
      pageIndexFilesComplete files page.tree = true

/-- The chunk indices among some files can be read, and their chunk files are in the entry. -/
def ChunksKept (indices files : EntryFiles) : Prop :=
  ∀ pipeline hash raw, indices.get? (chunkIndexRel pipeline hash) = some raw →
    ∃ tree, env.readChunkIndex raw = some tree ∧ ∀ obj ∈ structureToList tree,
      ∀ id ∈ obj.chunks.getD [], files.contains (chunkMdRel pipeline hash id) = true

structure EntryKept (files : EntryFiles) : Prop where
  page : PageKept env files
  chunks : ChunksKept env files files

/-- The page index with the structure of a chunk variant, where there is one. -/
def mergedDocument (files : EntryFiles) (variant : ChunkVariant) (page : SkillDocument) :
    SkillDocument :=
  match variant with
  | none => page
  | some (pipeline, hash) =>
    match (files.get? (chunkIndexRel pipeline hash)).bind env.readChunkIndex with
    | none => page
    | some tree => { page with tree := tree }

/-- The index that is read from an entry, with the merged document. -/
def entryIndex (files : EntryFiles) (docId : Text) (variant : ChunkVariant) (page : SkillDocument) :
    SkillsIndex where
  documents := Dict.empty.set docId (mergedDocument env files variant page)
  files := files.filter fun rel _ => loadsFile variant rel
  chunkPipeline := variant.map Prod.fst
  chunkParamsHash := variant.map Prod.snd

variable {env} {files files' indices : EntryFiles}

theorem entryKept_empty : EntryKept env .empty where
  page := by
    intro raw h
    cases h
  chunks := by
    intro pipeline hash raw h
    cases h

theorem ChunksKept.mono (h : ChunksKept env indices files) (hgrows : Grows files files') :
    ChunksKept env indices files' := by
  intro pipeline hash raw hraw
  obtain ⟨tree, hread, hfiles⟩ := h pipeline hash raw hraw
  exact ⟨tree, hread, fun obj hobj id hid => hgrows _ (hfiles obj hobj id hid)⟩

theorem pageIndexFilesComplete_mono {tree : Structure} (hgrows : Grows files files')
    (h : pageIndexFilesComplete files tree = true) : pageIndexFilesComplete files' tree = true := by
  unfold pageIndexFilesComplete at h ⊢
  rw [List.all_eq_true] at h ⊢
  intro obj hobj
  have hid := h obj hobj
  cases hnode : obj.nodeId with
  | none => rfl
  | some id =>
    rw [hnode, all_some] at hid
    exact hgrows _ hid

theorem PageKept.exists_page (h : PageKept env files) (hpage : files.contains pageIndexRel = true) :
    ∃ page, readPage env files = some page ∧ pageIndexFilesComplete files page.tree = true := by
  obtain ⟨raw, hraw⟩ := isSome_iff_exists.mp hpage
  obtain ⟨page, hread, -, hcomplete⟩ := h raw hraw
  refine ⟨page, ?_, hcomplete⟩
  unfold readPage
  rw [hraw, bind_some, hread]

variable {page : SkillDocument}

theorem contains_of_readPage (h : readPage env files = some page) :
    files.contains pageIndexRel = true := by
  obtain ⟨raw, hraw, -⟩ := bind_eq_some_iff.mp h
  unfold Dict.contains
  rw [hraw, isSome_some]

theorem PageKept.chunkless (h : PageKept env files) (hpage : readPage env files = some page) :
    Chunkless page.tree := by
  obtain ⟨raw, hraw, hread⟩ := bind_eq_some_iff.mp hpage
  obtain ⟨page', hread', hplain, -⟩ := h raw hraw
  rw [hread, some.injEq] at hread'
  rw [hread']
  exact hplain

theorem PageKept.pageIndexValid_iff (h : PageKept env files) {entryDir contentSha256 : Text}
    (hname : entryHashMatches entryDir contentSha256 = true) :
    pageIndexValid env entryDir contentSha256 files = true ↔
      files.contains pageIndexRel = true := by
  unfold pageIndexValid
  rw [hname, Bool.true_and, Option.any_eq_true]
  constructor
  · rintro ⟨page, hpage, -⟩
    exact contains_of_readPage hpage
  · intro hpage
    exact h.exists_page hpage

theorem EntryKept.loadMerged_eq (h : EntryKept env files) (hpage : readPage env files = some page)
    (entryDir : Text) (variant : ChunkVariant) :
    loadMergedDocumentFromEntry env entryDir files variant =
      .ok (mergedDocument env files variant page) := by
  unfold loadMergedDocumentFromEntry mergedDocument
  rw [hpage]
  cases variant with
  | none => rfl
  | some v =>
    obtain ⟨pipeline, hash⟩ := v
    dsimp only
    cases hraw : files.get? (chunkIndexRel pipeline hash) with
    | none => rfl
    | some raw =>
      obtain ⟨tree, hread, -⟩ := h.chunks pipeline hash raw hraw
      dsimp only
      rw [bind_some, hread]

theorem loadMerged_error (hpage : readPage env files = none) (entryDir : Text)
    (variant : ChunkVariant) :
    ∃ e, loadMergedDocumentFromEntry env entryDir files variant = .error e := by
  unfold loadMergedDocumentFromEntry
  rw [hpage]
  exact ⟨_, rfl⟩

variable (variant : ChunkVariant)

@[simp] theorem mergedDocument_id (page : SkillDocument) :
    (mergedDocument env files variant page).id = page.id := by
  unfold mergedDocument
  split
  · rfl
  · split <;> rfl

@[simp] theorem mergedDocument_path (page : SkillDocument) :
    (mergedDocument env files variant page).path = page.path := by
  unfold mergedDocument
  split
  · rfl
  · split <;> rfl

theorem EntryKept.chunkVariantValid_iff (h : EntryKept env files)
    (hpage : readPage env files = some page) (entryDir pipeline hash docId : Text) :
    chunkVariantValid env entryDir files pipeline hash docId = true ↔
      page.id = docId ∧ files.contains (chunkIndexRel pipeline hash) = true := by
  unfold chunkVariantValid chunkVariantFilesComplete
  rw [h.loadMerged_eq hpage]
  dsimp only
  rw [Bool.and_eq_true, Bool.and_eq_true, beq_iff_eq, mergedDocument_id]
  refine and_congr_right fun _ => and_iff_left_of_imp ?_
  intro hindex
  obtain ⟨raw, hraw⟩ := isSome_iff_exists.mp hindex
  obtain ⟨tree, hread, hfiles⟩ := h.chunks pipeline hash raw hraw
  unfold mergedDocument
  dsimp only
  rw [hraw, bind_some, hread]
  simp only [List.all_eq_true]
  exact hfiles

theorem not_chunkVariantValid (hpage : readPage env files = none)
    (entryDir pipeline hash docId : Text) :
    chunkVariantValid env entryDir files pipeline hash docId = false := by
  obtain ⟨e, he⟩ := loadMerged_error hpage entryDir (some (pipeline, hash))
  unfold chunkVariantValid
  rw [he]

theorem EntryKept.loadSkillsIndexFromDisk_eq (h : EntryKept env files)
    (hpage : readPage env files = some page) (entryDir docId : Text) (variant : ChunkVariant) :
    loadSkillsIndexFromDisk env entryDir files docId variant =
      .ok (entryIndex env files docId variant page) := by
  unfold loadSkillsIndexFromDisk entryIndex
  rw [h.loadMerged_eq hpage]

end

section

variable (env : EntryEnvironment) (config : PageIndexConfig) (sourcePath docId content : Text)
  (files : EntryFiles)

/-- The files of an entry after its page index is written. -/
def pageFiles : EntryFiles :=
  writeSelectedFiles (builtIndex env config sourcePath docId content)
    (files.set pageIndexRel (env.serializePageIndex (pageDocument config sourcePath docId content)))
    (Text.startsWith "nodes/")

theorem writePageIndexEntry_eq :
    writePageIndexEntry env (builtIndex env config sourcePath docId content) docId files =
      .ok (pageFiles env config sourcePath docId content files) := by
  unfold writePageIndexEntry
  rw [get?_documents_builtIndex]
  rfl

variable {config sourcePath docId content}

theorem grows_pageFiles : Grows files (pageFiles env config sourcePath docId content files) :=
  (grows_set _ _ _).trans (grows_writeSelectedFiles _ _ _)

theorem get?_pageFiles_page :
    (pageFiles env config sourcePath docId content files).get? pageIndexRel =
      some (env.serializePageIndex (pageDocument config sourcePath docId content)) := by
  unfold pageFiles
  rw [get?_writeSelectedFiles, if_pos startsWith_pageIndexRel, get?_builtIndex_page, some_or]

theorem get?_pageFiles_nodeMd {id : ℕ} (h : id ∈ (documentNodes content config).map NodeObj.id) :
    (pageFiles env config sourcePath docId content files).get? (nodeMdRel id) =
      (builtIndex env config sourcePath docId content).files.get? (nodeMdRel id) := by
  have hin : (builtIndex env config sourcePath docId content).files.contains (nodeMdRel id) = true :=
    contains_builtIndex_nodeMd env h
  obtain ⟨raw, hraw⟩ := isSome_iff_exists.mp hin
  unfold pageFiles
  rw [get?_writeSelectedFiles, if_pos (startsWith_nodeMdRel id), hraw, some_or]

theorem get?_pageFiles_of_chunk (h : rel.head? = some 'c') :
    (pageFiles env config sourcePath docId content files).get? rel = files.get? rel := by
  have hne : rel ≠ pageIndexRel := by
    rintro rfl
    rw [head?_pageIndexRel] at h
    cases h
  unfold pageFiles
  rw [get?_writeSelectedFiles, not_startsWith_nodes h, if_neg (by simp), Dict.get?_set_of_ne _ _ hne]

theorem chunkless_pageDocument : Chunkless (pageDocument config sourcePath docId content).tree := by
  intro obj hobj
  obtain ⟨_, _, _, _, hchunks, _⟩ := mem_pageDocument hobj
  exact hchunks

theorem stripChunks_pageDocument :
    stripChunksFromStructure (pageDocument config sourcePath docId content).tree =
      (pageDocument config sourcePath docId content).tree := by
  unfold stripChunksFromStructure
  apply Forest.map_eq_self
  intro obj hobj
  rw [← chunkless_pageDocument obj hobj]

@[simp] theorem readPage_pageFiles :
    readPage env (pageFiles env config sourcePath docId content files) =
      some (pageDocument config sourcePath docId content) := by
  unfold readPage
  rw [get?_pageFiles_page, bind_some, env.read_serializePageIndex, stripChunks_pageDocument]

variable {files}

theorem entryKept_pageFiles (h : EntryKept env files) :
    EntryKept env (pageFiles env config sourcePath docId content files) where
  page := by
    intro raw hraw
    rw [get?_pageFiles_page, some.injEq] at hraw
    refine ⟨pageDocument config sourcePath docId content, ?_, chunkless_pageDocument, ?_⟩
    · rw [← hraw, env.read_serializePageIndex, stripChunks_pageDocument]
    · unfold pageIndexFilesComplete
      rw [List.all_eq_true]
      intro obj hobj
      obtain ⟨old, hold, hid, -, -, -⟩ := mem_pageDocument hobj
      cases hnode : obj.nodeId with
      | none => rfl
      | some id =>
        have hobjId : obj.id = id := by
          unfold NodeObj.id
          rw [hnode]
          rfl
        have hmem : id ∈ (documentNodes content config).map NodeObj.id := by
          rw [← hobjId, hid]
          exact List.mem_map_of_mem hold
        rw [all_some]
        unfold Dict.contains
        rw [get?_pageFiles_nodeMd env files hmem]
        exact contains_builtIndex_nodeMd env hmem
  chunks := by
    intro pipeline hash raw hraw
    rw [get?_pageFiles_of_chunk env files (head?_chunkIndexRel pipeline hash)] at hraw
    exact (h.chunks.mono (grows_pageFiles env files)) pipeline hash raw hraw

end

section

variable (env : EntryEnvironment) (chunker : Bm25CohesionChunker)

/-- The structure of a chunk variant, with the texts of the node files. -/
def chunkedTree (nodeFiles : EntryFiles) (tree : Structure) : Structure :=
  attachTree env chunker (nextChunkId (populateStructureText nodeFiles tree))
    (populateStructureText nodeFiles tree)
    (structureToList (populateStructureText nodeFiles tree))

def chunkVariantIndex (index : SkillsIndex) (doc : SkillDocument) (docId pipeline hash : Text)
    (config : PageIndexConfig) : SkillsIndex where
  documents :=
    index.documents.set docId { doc with tree := chunkedTree env chunker index.files doc.tree }
  files := (index.files.writeAll (chunkWrites env chunker docId pipeline hash
    (nextChunkId (populateStructureText index.files doc.tree))
    (structureToList (populateStructureText index.files doc.tree)))).set
      (chunkIndexRel pipeline hash)
      (env.serializeChunkIndex (chunkedTree env chunker index.files doc.tree) pipeline config)
  chunkPipeline := some pipeline
  chunkParamsHash := some hash

variable {chunker} {index : SkillsIndex} {doc : SkillDocument} {docId pipeline hash : Text}
  {config : PageIndexConfig}

theorem buildChunkVariant_eq (hdoc : index.documents.get? docId = some doc)
    (hnew : Bm25CohesionChunker.new config.cohesionConfigForChunking = .ok chunker) :
    buildChunkVariant env index docId pipeline hash config =
      .ok (chunkVariantIndex env chunker index doc docId pipeline hash config) := by
  unfold buildChunkVariant attachChunksToStructure
  rw [hdoc]
  simp only [hnew, bind, Except.bind, pure, Except.pure, foldl_attachNode]
  rfl

theorem buildChunkVariant_error {e : String}
    (hnew : Bm25CohesionChunker.new config.cohesionConfigForChunking = .error e) :
    ∃ e, buildChunkVariant env index docId pipeline hash config = .error e := by
  unfold buildChunkVariant attachChunksToStructure
  cases index.documents.get? docId with
  | none => exact ⟨_, rfl⟩
  | some doc =>
    simp only [hnew, bind, Except.bind]
    exact ⟨_, rfl⟩

variable (chunker index doc docId pipeline hash config) (files : EntryFiles)

/-- The files of an entry after a chunk variant is written. -/
def variantFiles : EntryFiles :=
  writeChunkVariantFiles (chunkVariantIndex env chunker index doc docId pipeline hash config) files
    pipeline hash

variable {chunker index doc docId pipeline hash config}

theorem grows_variantFiles :
    Grows files (variantFiles env chunker index doc docId pipeline hash config files) :=
  grows_writeSelectedFiles _ _ _

theorem get?_variantFiles_index :
    (variantFiles env chunker index doc docId pipeline hash config files).get?
      (chunkIndexRel pipeline hash) =
        some (env.serializeChunkIndex (chunkedTree env chunker index.files doc.tree) pipeline
          config) := by
  unfold variantFiles writeChunkVariantFiles chunkVariantIndex
  rw [get?_writeSelectedFiles, if_pos (startsWith_chunkIndexRel pipeline hash),
    Dict.get?_set_self, some_or]

theorem get?_variantFiles_of_node (h : rel.head? = some 'n') :
    (variantFiles env chunker index doc docId pipeline hash config files).get? rel =
      files.get? rel := by
  unfold variantFiles writeChunkVariantFiles
  rw [get?_writeSelectedFiles, not_startsWith_chunks h, if_neg (by simp)]

theorem get?_variantFiles_of_other {pipeline' hash' raw : Text}
    (hne : chunkIndexRel pipeline' hash' ≠ chunkIndexRel pipeline hash)
    (h : (variantFiles env chunker index doc docId pipeline hash config files).get?
      (chunkIndexRel pipeline' hash') = some raw) :
    index.files.get? (chunkIndexRel pipeline' hash') = some raw ∨
      files.get? (chunkIndexRel pipeline' hash') = some raw := by
  have hother : (chunkVariantIndex env chunker index doc docId pipeline hash config).files.get?
      (chunkIndexRel pipeline' hash') = index.files.get? (chunkIndexRel pipeline' hash') := by
    unfold chunkVariantIndex
    dsimp only
    rw [Dict.get?_set_of_ne _ _ hne, Dict.get?_writeAll_of_notMem]
    rw [keys_chunkWrites]
    intro hmem
    obtain ⟨id, -, heq⟩ := mem_map.mp hmem
    exact chunkMdRel_ne_chunkIndexRel pipeline hash id pipeline' hash' heq
  unfold variantFiles writeChunkVariantFiles at h
  rw [get?_writeSelectedFiles, hother] at h
  split at h
  · exact or_eq_some_iff.mp h |>.imp id And.right
  · exact .inr h

theorem mem_populateStructureText {nodeFiles : EntryFiles} {tree : Structure} {obj : NodeObj}
    (h : obj ∈ structureToList (populateStructureText nodeFiles tree)) :
    ∃ old ∈ structureToList tree, obj.nodeId = old.nodeId ∧ obj.chunks = old.chunks := by
  unfold structureToList populateStructureText at h
  rw [Forest.preorder_map] at h
  obtain ⟨old, hold, rfl⟩ := mem_map.mp h
  refine ⟨old, hold, ?_⟩
  split
  · exact ⟨rfl, rfl⟩
  · dsimp only
    split <;> exact ⟨rfl, rfl⟩

theorem nextChunkId_of_chunkless {tree : Structure} (h : Chunkless tree) : nextChunkId tree = 0 := by
  have hnil : (structureToList tree).flatMap (fun obj => obj.chunks.getD []) = [] := by
    rw [flatMap_eq_nil_iff]
    intro obj hobj
    rw [h obj hobj]
    rfl
  unfold nextChunkId
  rw [hnil]
  rfl

variable {files}

theorem contains_variantFiles {obj : NodeObj} {id : ℕ} (hplain : Chunkless doc.tree)
    (hobj : obj ∈ structureToList (chunkedTree env chunker index.files doc.tree))
    (hid : id ∈ obj.chunks.getD []) :
    (variantFiles env chunker index doc docId pipeline hash config files).contains
      (chunkMdRel pipeline hash id) = true := by
  have hnone : Chunkless (populateStructureText index.files doc.tree) := by
    intro obj hobj
    obtain ⟨old, hold, -, hchunks⟩ := mem_populateStructureText hobj
    rw [hchunks, hplain old hold]
  have hzero := nextChunkId_of_chunkless hnone
  have hlt : id < chunkCount env chunker
      (structureToList (populateStructureText index.files doc.tree)) := by
    rcases mem_chunks_attachTree env chunker hobj hid with ⟨old, hold, hin⟩ | hlt
    · rw [hnone old hold] at hin
      cases hin
    · omega
  have hkey : chunkMdRel pipeline hash id ∈ (chunkWrites env chunker docId pipeline
      hash (nextChunkId (populateStructureText index.files doc.tree))
      (structureToList (populateStructureText index.files doc.tree))).map fst := by
    rw [keys_chunkWrites, hzero]
    exact List.mem_map_of_mem (by simpa using hlt)
  have hwritten : (chunkVariantIndex env chunker index doc docId pipeline hash
      config).files.contains (chunkMdRel pipeline hash id) = true := by
    have hin := Dict.contains_writeAll_of_mem index.files hkey
    unfold chunkVariantIndex Dict.contains
    dsimp only
    rw [Dict.get?_set_of_ne _ _ (chunkMdRel_ne_chunkIndexRel pipeline hash id pipeline hash)]
    exact hin
  unfold variantFiles writeChunkVariantFiles Dict.contains
  rw [get?_writeSelectedFiles, if_pos (startsWith_chunkMdRel pipeline hash id), isSome_or]
  unfold Dict.contains at hwritten
  rw [hwritten, Bool.true_or]

theorem entryKept_variantFiles (h : EntryKept env files)
    (hindices : ChunksKept env index.files files) (hplain : Chunkless doc.tree) :
    EntryKept env (variantFiles env chunker index doc docId pipeline hash config files) where
  page := by
    intro raw hraw
    rw [get?_variantFiles_of_node env files head?_pageIndexRel] at hraw
    obtain ⟨page, hread, hplain, hcomplete⟩ := h.page raw hraw
    exact ⟨page, hread, hplain, pageIndexFilesComplete_mono (grows_variantFiles env files) hcomplete⟩
  chunks := by
    have hgrows : Grows files (variantFiles env chunker index doc docId pipeline hash config files) :=
      grows_variantFiles env files
    intro pipeline' hash' raw hraw
    by_cases hsame : chunkIndexRel pipeline' hash' = chunkIndexRel pipeline hash
    · rw [hsame, get?_variantFiles_index, some.injEq] at hraw
      refine ⟨chunkedTree env chunker index.files doc.tree, ?_, ?_⟩
      · rw [← hraw, env.read_serializeChunkIndex]
      · intro obj hobj id hid
        rw [chunkMdRel_of_chunkIndexRel hsame]
        exact contains_variantFiles env hplain hobj hid
    · rcases get?_variantFiles_of_other env files hsame hraw with hindex | hfile
      · exact (hindices.mono hgrows) pipeline' hash' raw hindex
      · exact (h.chunks.mono hgrows) pipeline' hash' raw hfile

end

def textCodec : Codec Text := .list .char

def nodeKindCodec : Codec NodeKind :=
  Codec.nat.via (fun kind => if kind = .frontmatter then 0 else 1)
    (fun n => if n = 0 then .frontmatter else .preamble) (fun kind => by cases kind <;> rfl)

def nodeObjCodec : Codec NodeObj :=
  Codec.via (.pair (.option textCodec) (.pair (.option .nat) (.pair (.option nodeKindCodec)
    (.pair .nat (.pair (.option textCodec) (.option (.list .nat)))))))
    (fun obj => (obj.title, obj.nodeId, obj.kind, obj.lineNum, obj.text, obj.chunks))
    (fun p => ⟨p.1, p.2.1, p.2.2.1, p.2.2.2.1, p.2.2.2.2.1, p.2.2.2.2.2⟩) (fun _ => rfl)

def documentCodec : Codec SkillDocument :=
  Codec.via (.pair textCodec (.pair textCodec (.pair (.forest nodeObjCodec)
    (.pair (.option textCodec) (.option textCodec)))))
    (fun doc => (doc.id, doc.path, doc.tree, doc.frontmatter, doc.preamble))
    (fun p => ⟨p.1, p.2.1, p.2.2.1, p.2.2.2.1, p.2.2.2.2⟩) (fun _ => rfl)

theorem read_codec {α : Type} (c : Codec α) (a : α) : (c.read (c.write a)).map fst = some a := by
  have h := c.read_write a []
  rw [List.append_nil] at h
  rw [h]
  rfl

/-- An environment without a home directory, whose index files are written with these. -/
def plainEntryEnvironment : EntryEnvironment where
  cohesion := plainExternals
  shortenHomePath path := .ok path
  serializePageIndex doc :=
    documentCodec.write { doc with tree := stripChunksFromStructure doc.tree }
  serializeChunkIndex tree _ _ := (Codec.forest nodeObjCodec).write tree
  readFile _ := none
  readPageIndex raw := (documentCodec.read raw).map Prod.fst
  readChunkIndex raw := ((Codec.forest nodeObjCodec).read raw).map Prod.fst
  readError _ := "No such file or directory (os error 2)"
  read_serializePageIndex _ := read_codec documentCodec _
  read_serializeChunkIndex tree _ _ := read_codec (.forest nodeObjCodec) tree

end ClearYourTools.PageIndex
