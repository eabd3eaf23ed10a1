import ClearYourTools.Cache.Proofs.SkillAttribution
import ClearYourTools.PageIndex.Proofs.ChunkRetrieval

/-!
# The index that the caches serve

Of one skill there are two structures: that of the page index, and that with chunks.
-/

namespace ClearYourTools.PageIndex

open Misc Bm25Cohesion List Option

/-- Some node refers to chunks. -/
def HasChunks (tree : Structure) : Prop := ∃ obj ∈ structureToList tree, obj.chunks ≠ none

/-- No node of a document has an id, or a text in the page index. -/
def WithoutChunks (content : Text) (config : PageIndexConfig) : Prop :=
  ∀ obj ∈ documentNodes content config, obj.nodeId = none ∧ config.ifAddNodeText = false

variable {tree : Structure}

theorem not_hasChunks_of_chunkless (h : Chunkless tree) : ¬ HasChunks tree := by
  rintro ⟨obj, hobj, hchunks⟩
  exact hchunks (h obj hobj)

/-- Two sets of files agree on the node files of a structure. -/
def NodesAgree (tree : Structure) (files files' : EntryFiles) : Prop :=
  ∀ obj ∈ structureToList tree, ∀ id ∈ obj.nodeId,
    files.get? (nodeMdRel id) = files'.get? (nodeMdRel id)

variable {files files' : EntryFiles}

theorem populateStructureText_congr (h : NodesAgree tree files files') :
    populateStructureText files tree = populateStructureText files' tree := by
  unfold populateStructureText
  apply Forest.map_congr
  intro obj hobj
  cases hid : obj.nodeId with
  | none => rfl
  | some id => rw [bind_some, bind_some, h obj hobj id hid]

variable (env : EntryEnvironment) (chunker : Bm25CohesionChunker)

theorem chunkedTree_congr (h : NodesAgree tree files files') :
    chunkedTree env chunker files tree = chunkedTree env chunker files' tree := by
  unfold chunkedTree
  rw [populateStructureText_congr h]

theorem attachTree_of_blank (start : ℕ) (tree : Structure) {nodes : List NodeObj}
    (h : ∀ obj ∈ nodes, (obj.text.getD []).trim = []) :
    attachTree env chunker start tree nodes = tree := by
  induction nodes with
  | nil => rfl
  | cons obj rest ih =>
    rw [attachTree, if_pos (h obj mem_cons_self)]
    exact ih fun other hother => h other (mem_cons_of_mem _ hother)

variable {config : PageIndexConfig} {sourcePath docId content : Text}

theorem chunkedTree_of_withoutChunks (h : WithoutChunks content config) (files : EntryFiles) :
    chunkedTree env chunker files (pageDocument config sourcePath docId content).tree =
      (pageDocument config sourcePath docId content).tree := by
  have hsame : populateStructureText files (pageDocument config sourcePath docId content).tree =
      (pageDocument config sourcePath docId content).tree := by
    unfold populateStructureText
    apply Forest.map_eq_self
    intro obj hobj
    obtain ⟨old, hold, -, hid, -, -⟩ := mem_pageDocument hobj
    rw [hid, (h old hold).1]
    rfl
  unfold chunkedTree
  rw [hsame]
  apply attachTree_of_blank
  intro obj hobj
  obtain ⟨old, hold, -, -, -, htext⟩ := mem_pageDocument hobj
  rw [htext (h old hold).2]
  rfl

variable {id : ℕ}

theorem hasChunks_insert (h : (∃ obj ∈ structureToList tree, obj.id = id) ∨ HasChunks tree)
    (refs : List ℕ) : HasChunks (insertChunksOnNode tree id refs).1 := by
  unfold HasChunks structureToList insertChunksOnNode at *
  rw [(Forest.updateFirst_spec _ _ tree).1]
  refine Forest.exists_updateFirstIn (P := fun obj : NodeObj => obj.chunks ≠ none)
    (g := fun obj => { obj with chunks := some refs }) (fun _ => some_ne_none refs) ?_
  rcases h with ⟨obj, hobj, hid⟩ | ⟨obj, hobj, hchunks⟩
  · exact ⟨obj, hobj, .inl (beq_iff_eq.mpr hid)⟩
  · exact ⟨obj, hobj, .inr hchunks⟩

theorem exists_id_insert (h : ∃ obj ∈ structureToList tree, obj.id = id) (target : ℕ)
    (refs : List ℕ) :
    ∃ obj ∈ structureToList (insertChunksOnNode tree target refs).1, obj.id = id := by
  unfold structureToList insertChunksOnNode at *
  rw [(Forest.updateFirst_spec _ _ tree).1]
  obtain ⟨obj, hobj, rfl⟩ := h
  have hsame : ∀ obj : NodeObj, NodeObj.id { obj with chunks := some refs } = obj.id := fun _ => rfl
  have hids : (Forest.updateFirstIn (fun obj => obj.id == target)
      (fun obj => { obj with chunks := some refs }) tree.preorder).map NodeObj.id =
        tree.preorder.map NodeObj.id :=
    Forest.map_updateFirstIn NodeObj.id hsame _ _
  have hmem : obj.id ∈ tree.preorder.map NodeObj.id := List.mem_map_of_mem hobj
  rw [← hids] at hmem
  obtain ⟨other, hother, hid⟩ := List.mem_map.mp hmem
  exact ⟨other, hother, hid⟩

theorem hasChunks_attachTree (start : ℕ) {nodes : List NodeObj}
    (h : HasChunks tree ∨ ∃ obj ∈ nodes, (obj.text.getD []).trim ≠ [] ∧
      ∃ node ∈ structureToList tree, node.id = obj.id) :
    HasChunks (attachTree env chunker start tree nodes) := by
  induction nodes generalizing start tree with
  | nil =>
    rcases h with h | ⟨obj, hobj, -⟩
    · exact h
    · cases hobj
  | cons obj rest ih =>
    rw [attachTree]
    split
    · rename_i hblank
      apply ih
      rcases h with h | ⟨other, hother, htext, hid⟩
      · exact .inl h
      · rcases mem_cons.mp hother with rfl | hother
        · exact absurd hblank htext
        · exact .inr ⟨other, hother, htext, hid⟩
    · dsimp only
      apply ih
      rcases h with h | ⟨other, hother, htext, hid⟩
      · exact .inl (hasChunks_insert (.inr h) _)
      · rcases mem_cons.mp hother with rfl | hother
        · exact .inl (hasChunks_insert (.inl hid) _)
        · exact .inr ⟨other, hother, htext, exists_id_insert hid _ _⟩

theorem trim_trimStart (t : Text) : t.trimStart.trim = t.trim := by
  unfold Text.trim
  rw [Text.trimStart_eq_self (Text.head?_trimStart t)]

theorem trim_strip_decomposedMd (docId : Text) (fields : List (String × ℕ)) {body : Text}
    (h : body.trim ≠ []) : (stripDecomposedFrontmatter (decomposedMd docId fields body)).trim ≠ [] := by
  have hin : closingDelimiter <:+: docId ++ ((fields.flatMap fun f =>
      '\n' :: f.1.toList ++ ": ".toList ++ Text.ofNat f.2) ++ closingDelimiter) := by
    rw [← List.append_assoc]
    exact (suffix_append _ _).isInfix
  obtain ⟨y, hy⟩ := Text.afterFirst_append_of_infix (by simp [closingDelimiter]) hin ('\n' :: body)
  have hsame : docId ++ ((fields.flatMap fun f =>
      '\n' :: f.1.toList ++ ": ".toList ++ Text.ofNat f.2) ++ (closingDelimiter ++ '\n' :: body)) =
        docId ++ ((fields.flatMap fun f =>
          '\n' :: f.1.toList ++ ": ".toList ++ Text.ofNat f.2) ++ closingDelimiter) ++
            '\n' :: body := by
    simp only [List.append_assoc]
  rw [stripDecomposedFrontmatter_eq, hsame, hy, map_some, getD_some, trim_trimStart]
  intro hblank
  apply h
  rw [Text.trim_eq_nil_iff] at hblank ⊢
  intro c hc
  exact hblank c (mem_append_right y (mem_cons_of_mem _ hc))

theorem exists_mem_pageDocument (sourcePath docId : Text) {old : NodeObj}
    (h : old ∈ documentNodes content config) :
    ∃ obj ∈ structureToList (pageDocument config sourcePath docId content).tree,
      obj.nodeId = old.nodeId ∧ (config.ifAddNodeText = true → obj = old) := by
  unfold pageDocument formatStructureForOutput
  dsimp only
  split
  · rw [structureToList, preorder_buildFlatStructure]
    exact ⟨old, h, rfl, fun _ => rfl⟩
  · rename_i hnot
    rw [structureToList, Forest.preorder_map, preorder_buildFlatStructure]
    exact ⟨_, List.mem_map_of_mem h, rfl, fun hyes => absurd hyes hnot⟩

theorem exists_of_nodeFile {raw : Text}
    (h : (builtIndex env config sourcePath docId content).files.get? (nodeMdRel id) = some raw) :
    ∃ obj ∈ documentNodes content config, raw = nodeMd env config docId obj := by
  have hwrite := Dict.mem_of_get?_writeAll_empty h
  rcases mem_cons.mp hwrite with heq | hmem
  · exact absurd (congrArg Prod.fst heq) (nodeMdRel_ne_pageIndexRel id)
  · obtain ⟨obj, hobj, heq⟩ := List.mem_map.mp hmem
    exact ⟨obj, hobj, (congrArg Prod.snd heq).symm⟩

theorem trim_nodeBody {obj : NodeObj} (h : obj ∈ documentNodes content config) :
    (nodeBody obj).trim ≠ [] := by
  have htext := content_documentNodes h
  unfold nodeBody
  dsimp only
  split
  · exact htext
  · split
    · rename_i hnil
      rw [hnil] at htext
      exact absurd rfl htext
    · exact htext

/-- The text that a node of the page index gets has content, where it gets or brings one. -/
theorem exists_text_populated {old : NodeObj} (hold : old ∈ documentNodes content config)
    (h : old.nodeId ≠ none ∨ config.ifAddNodeText = true) :
    ∃ obj ∈ structureToList (populateStructureText
        (builtIndex env config sourcePath docId content).files
        (pageDocument config sourcePath docId content).tree),
      (obj.text.getD []).trim ≠ [] := by
  obtain ⟨obj, hobj, hid, hsame⟩ := exists_mem_pageDocument sourcePath docId hold
  unfold structureToList populateStructureText
  rw [Forest.preorder_map]
  refine ⟨_, List.mem_map_of_mem hobj, ?_⟩
  dsimp only
  rw [hid]
  cases hnode : old.nodeId with
  | none =>
    have hadd : config.ifAddNodeText = true := h.resolve_left fun hne => hne hnode
    rw [hsame hadd]
    exact content_documentNodes hold
  | some id =>
    have holdId : old.id = id := by
      unfold NodeObj.id
      rw [hnode]
      rfl
    have hmem : id ∈ (documentNodes content config).map NodeObj.id := by
      rw [← holdId]
      exact List.mem_map_of_mem hold
    have hin : (builtIndex env config sourcePath docId content).files.contains (nodeMdRel id) =
        true := contains_builtIndex_nodeMd env hmem
    obtain ⟨raw, hraw⟩ := isSome_iff_exists.mp hin
    obtain ⟨node, hnodeMem, rfl⟩ := exists_of_nodeFile env hraw
    have htext := trim_strip_decomposedMd docId [("node_id", node.id), ("line_num", node.lineNum),
      ("token_count", env.count config (nodeBody node))] (trim_nodeBody hnodeMem)
    rw [bind_some, hraw]
    unfold nodeMd
    dsimp only
    split
    · rename_i hnil
      rw [hnil] at htext
      exact absurd rfl htext
    · exact htext

theorem hasChunks_chunkedTree (h : ¬ WithoutChunks content config) :
    HasChunks (chunkedTree env chunker (builtIndex env config sourcePath docId content).files
      (pageDocument config sourcePath docId content).tree) := by
  unfold WithoutChunks at h
  push Not at h
  obtain ⟨old, hold, hnot⟩ := h
  have hor : old.nodeId ≠ none ∨ config.ifAddNodeText = true := by
    by_cases hid : old.nodeId = none
    · exact .inr (by simpa using hnot hid)
    · exact .inl hid
  obtain ⟨obj, hobj, htext⟩ := exists_text_populated env hold hor
  exact hasChunks_attachTree env chunker _ (.inr ⟨obj, hobj, htext, obj, hobj, rfl⟩)

end ClearYourTools.PageIndex

namespace ClearYourTools.Cache

open Misc PageIndex Bm25Cohesion Option

section

variable (env : RegistryEnvironment) (req : SkillRequest) (content sourcePath : Text)
  (chunker : Bm25CohesionChunker)

namespace SkillRequest

def docId : Text := env.docIdFromPath req.spec.path

def chunkVariant : ChunkVariant := some ("bm25", req.paramsHash)

/-- The document of the page index. -/
def page : SkillDocument := pageDocument req.config sourcePath (req.docId env) content

def index : SkillsIndex := builtIndex env req.config sourcePath (req.docId env) content

def chunked : Structure :=
  chunkedTree env chunker (req.index env content sourcePath).files
    (req.page env content sourcePath).tree

end SkillRequest

/-- The skill can be read, as the text that may come with its source is in its file. -/
structure ReadableSkill : Prop where
  source : Readable env req.spec
  text : env.sourceText req.spec = .ok content
  file : env.readToString req.spec.path = .ok content

/-- The skill can be indexed. -/
structure Indexes : Prop where
  path : env.shortenHomePath req.spec.path = .ok sourcePath
  chunker : Bm25CohesionChunker.new req.config.cohesionConfigForChunking = .ok chunker

/-- One of the two structures. -/
def IsStructure (tree : Structure) : Prop :=
  tree = (req.page env content sourcePath).tree ∨ tree = req.chunked env content sourcePath chunker

def IndexFits (index : SkillsIndex) : Prop :=
  ∃ doc, index.documents.get? (req.docId env) = some doc ∧
    doc.tree = (req.page env content sourcePath).tree ∧
      NodesAgree (req.page env content sourcePath).tree index.files
        (req.index env content sourcePath).files

/-- What the calls for a skill keep of the caches. -/
structure SkillKept (cache : SkillsCache) : Prop where
  kept : CacheKept env cache
  page : ∀ page, readPage env (cache.disk (req.entryDir env)) = some page →
    page = req.page env content sourcePath ∧
      NodesAgree page.tree (cache.disk (req.entryDir env)) (req.index env content sourcePath).files
  chunks : ∀ raw, (cache.disk (req.entryDir env)).get?
      (chunkIndexRel "bm25" req.paramsHash) = some raw →
    env.readChunkIndex raw = some (req.chunked env content sourcePath chunker) ∧
      (cache.disk (req.entryDir env)).contains pageIndexRel = true
  document : ∀ doc, cache.mergedDocuments.peek (req.entryDir env, req.chunkVariant) = some doc →
    IsStructure env req content sourcePath chunker doc.tree
  index : ∀ index, cache.skillsIndices.peek (req.entryDir env, req.docId env, none) = some index →
    IndexFits env req content sourcePath index ∧
      (cache.disk (req.entryDir env)).contains pageIndexRel = true

variable {env req content sourcePath chunker} {cache cache' : SkillsCache}

theorem skillKept_empty (lruMergedDocuments lruSkillsIndex : ℕ) :
    SkillKept env req content sourcePath chunker (.empty lruMergedDocuments lruSkillsIndex) where
  kept := cacheKept_empty _ _
  page := by
    intro page h
    cases h
  chunks := by
    intro raw h
    cases h
  document := by
    intro doc h
    cases h
  index := by
    intro index h
    cases h

theorem readPage_of_contains (h : CacheKept env cache) {entryDir : Text}
    (hpage : (cache.disk entryDir).contains pageIndexRel = true) :
    ∃ page, readPage env (cache.disk entryDir) = some page := by
  obtain ⟨page, hread, -⟩ := (h.disk entryDir).page.exists_page hpage
  exact ⟨page, hread⟩

variable (h : SkillKept env req content sourcePath chunker cache)

include h

variable {variant : ChunkVariant}

theorem SkillKept.remembers {document : SkillDocument}
    (hremembers : Remembers (req.entryDir env) variant document cache cache')
    (hdocument : variant = req.chunkVariant →
      IsStructure env req content sourcePath chunker document.tree) :
    SkillKept env req content sourcePath chunker cache' where
  kept := hremembers.kept h.kept
  page := by
    rw [hremembers.disk]
    exact h.page
  chunks := by
    rw [hremembers.disk]
    exact h.chunks
  document := by
    intro doc hdoc
    rcases hremembers.documents _ doc hdoc with hold | ⟨hkey, rfl⟩
    · exact h.document doc hold
    · exact hdocument (congrArg Prod.snd hkey).symm
  index := by
    rw [hremembers.disk, hremembers.indices]
    exact h.index

theorem SkillKept.loads {index : SkillsIndex}
    (hloads : Loads (req.entryDir env) (req.docId env) variant index cache cache')
    (hkept : IndexKept env (cache.disk (req.entryDir env)) (req.docId env) variant index)
    (hindex : variant = none → IndexFits env req content sourcePath index ∧
      (cache.disk (req.entryDir env)).contains pageIndexRel = true) :
    SkillKept env req content sourcePath chunker cache' where
  kept := (hloads.stays h.kept hkept).kept
  page := by
    rw [hloads.disk]
    exact h.page
  chunks := by
    rw [hloads.disk]
    exact h.chunks
  document := by
    rw [hloads.documents]
    exact h.document
  index := by
    intro other hother
    rw [hloads.disk]
    rcases hloads.indices _ other hother with hold | ⟨hkey, rfl⟩
    · exact h.index other hold
    · exact hindex (congrArg (fun key => key.2.2) hkey).symm

/-- The page index is written where there was none. -/
theorem SkillKept.writePage (hpage : readPage env (cache.disk (req.entryDir env)) = none) :
    SkillKept env req content sourcePath chunker (cache.write (req.entryDir env)
      (pageFiles env req.config sourcePath (req.docId env) content
        (cache.disk (req.entryDir env)))) := by
  obtain ⟨files, hfiles⟩ : ∃ files, files = pageFiles env req.config sourcePath
      (req.docId env) content (cache.disk (req.entryDir env)) := ⟨_, rfl⟩
  have habsent : ∀ {P : Prop}, (cache.disk (req.entryDir env)).contains pageIndexRel = true → P := by
    intro P hin
    obtain ⟨page, hread⟩ := readPage_of_contains h.kept hin
    rw [hpage] at hread
    cases hread
  rw [← hfiles]
  constructor
  · rw [hfiles]
    exact h.kept.write (entryKept_pageFiles _ (h.kept.disk _)) (grows_pageFiles _ _)
  · intro page hread
    rw [disk_write_self, hfiles, readPage_pageFiles, some.injEq] at hread
    subst hread
    refine ⟨rfl, ?_⟩
    intro obj hobj id hid
    obtain ⟨old, hold, -, hnode, -, -⟩ := mem_pageDocument hobj
    have hmem : id ∈ (documentNodes content req.config).map NodeObj.id := by
      have hidOld : old.id = id := by
        unfold NodeObj.id
        rw [← hnode, hid]
        rfl
      rw [← hidOld]
      exact List.mem_map_of_mem hold
    rw [disk_write_self, hfiles]
    exact get?_pageFiles_nodeMd _ _ hmem
  · intro raw hraw
    rw [disk_write_self, hfiles, get?_pageFiles_of_chunk _ _ (head?_chunkIndexRel _ _)] at hraw
    exact habsent (h.chunks raw hraw).2
  · exact h.document
  · intro index hindex
    exact habsent (h.index index hindex).2

theorem SkillKept.writeVariant {index : SkillsIndex} {doc : SkillDocument}
    (hindex : IndexKept env (cache.disk (req.entryDir env)) (req.docId env) none index)
    (hfits : IndexFits env req content sourcePath index)
    (hdoc : index.documents.get? (req.docId env) = some doc) (hplain : Chunkless doc.tree)
    (hpage : (cache.disk (req.entryDir env)).contains pageIndexRel = true) :
    SkillKept env req content sourcePath chunker (cache.write (req.entryDir env)
      (variantFiles env chunker index doc (req.docId env) "bm25"
        req.paramsHash req.config (cache.disk (req.entryDir env)))) := by
  obtain ⟨files, hfiles⟩ : ∃ files, files = variantFiles env chunker index doc
      (req.docId env) "bm25" req.paramsHash req.config (cache.disk (req.entryDir env)) :=
    ⟨_, rfl⟩
  obtain ⟨doc', hdoc', htree, hnodes⟩ := hfits
  rw [hdoc, some.injEq] at hdoc'
  subst hdoc'
  have hstays : Stays env cache (cache.write (req.entryDir env) files) := by
    rw [hfiles]
    exact stays_writeVariant h.kept hindex.chunks hplain
  have hgrows := hstays.grows (req.entryDir env)
  rw [← hfiles]
  constructor
  · exact hstays.kept
  · intro page hread
    rw [hstays.page] at hread
    obtain ⟨hown, hagree⟩ := h.page page hread
    refine ⟨hown, ?_⟩
    intro obj hobj id hid
    rw [disk_write_self, hfiles, get?_variantFiles_of_node _ _ (head?_nodeMdRel id)]
    exact hagree obj hobj id hid
  · intro raw hraw
    rw [disk_write_self, hfiles, get?_variantFiles_index, some.injEq] at hraw
    refine ⟨?_, hgrows _ hpage⟩
    rw [← hraw, env.read_serializeChunkIndex, htree, chunkedTree_congr _ _ hnodes]
    rfl
  · exact h.document
  · intro other hother
    obtain ⟨hfits, hin⟩ := h.index other hother
    exact ⟨hfits, hgrows _ hin⟩

omit h

variable {page : SkillDocument}

theorem SkillKept.loadedFits (h : SkillKept env req content sourcePath chunker cache)
    (hread : readPage env (cache.disk (req.entryDir env)) = some page) :
    IndexFits env req content sourcePath
      ((cache.skillsIndices.peek (req.entryDir env, req.docId env, none)).getD
        (entryIndex env (cache.disk (req.entryDir env)) (req.docId env) none page)) := by
  cases hpeek : cache.skillsIndices.peek (req.entryDir env, req.docId env, none) with
  | some index => exact (h.index index hpeek).1
  | none =>
    obtain ⟨hown, hagree⟩ := h.page page hread
    refine ⟨page, Dict.get?_set_self _ _ _, by rw [hown], ?_⟩
    intro obj hobj id hid
    rw [← hown] at hobj
    rw [← hagree obj hobj id hid, getD_none]
    unfold entryIndex
    dsimp only
    rw [Dict.get?_filter]
    cases (cache.disk (req.entryDir env)).get? (nodeMdRel id) with
    | none => rfl
    | some raw => rw [filter_some, loadsFile_nodeMdRel, if_pos rfl]

theorem SkillKept.ensureVariant (h : SkillKept env req content sourcePath chunker cache)
    (hindexes : Indexes env req sourcePath chunker)
    (hread : readPage env (cache.disk (req.entryDir env)) = some page) :
    ∃ cache', cache.ensureBm25ChunkVariant env (req.entryDir env) (req.docId env) req.config
        req.chunkVariant = (.ok (), cache') ∧
      SkillKept env req content sourcePath chunker cache' ∧
      cache'.mergedDocuments = cache.mergedDocuments ∧
      readPage env (cache'.disk (req.entryDir env)) = some page ∧
      (cache'.disk (req.entryDir env)).contains (chunkIndexRel "bm25" req.paramsHash) = true := by
  have hin := contains_of_readPage hread
  have hentry := h.kept.disk (req.entryDir env)
  unfold SkillsCache.ensureBm25ChunkVariant SkillRequest.chunkVariant
  dsimp only
  split
  · rename_i hvalid
    have hindex := (hentry.chunkVariantValid_iff hread _ _ _ _).mp hvalid
    exact ⟨cache, rfl, h, rfl, hread, hindex.2⟩
  obtain ⟨index, doc, cache₁, hindexEq, hdoc, hplain, hloads, hbuild⟩ :=
    buildChunkVariant_spec h.kept hread (req.docId env) "bm25" req.paramsHash hindexes.chunker
  have hindex := h.kept.loaded hread (req.docId env) none
  have hfits := h.loadedFits hread
  rw [← hindexEq] at hindex hfits
  -- the index is loaded, and the chunks are written
  have hkept₁ := h.loads hloads hindex fun _ => ⟨hfits, hin⟩
  rw [← hloads.disk] at hindex hin
  have hkept₂ := hkept₁.writeVariant hindex hfits hdoc hplain hin
  obtain ⟨cache₂, hcache₂⟩ : ∃ cache₂, cache₂ = cache₁.write (req.entryDir env)
      (variantFiles env chunker index doc (req.docId env) "bm25"
        req.paramsHash req.config (cache₁.disk (req.entryDir env))) := ⟨_, rfl⟩
  have hstays₂ : Stays env cache₁ cache₂ := by
    rw [hcache₂]
    exact stays_writeVariant hkept₁.kept hindex.chunks hplain
  have hread₂ : readPage env (cache₂.disk (req.entryDir env)) = some page := by
    rw [hstays₂.page, hloads.disk, hread]
  have hvariant : (cache₂.disk (req.entryDir env)).contains
      (chunkIndexRel "bm25" req.paramsHash) = true := by
    unfold Dict.contains
    rw [hcache₂, disk_write_self, get?_variantFiles_index, isSome_some]
  rw [← hcache₂] at hkept₂ hbuild
  -- the index of the variant is refreshed
  have hentry₂ := hkept₂.kept.disk (req.entryDir env)
  have hrefresh := loads_refreshSkillsIndexCache hentry₂ hread₂ (req.docId env)
    (some ("bm25", req.paramsHash))
  unfold Outcome.andThen
  rw [hbuild]
  refine ⟨_, rfl, hkept₂.loads hrefresh (indexKept_entryIndex hentry₂ hread₂ _ _)
    (fun hnone => absurd hnone (some_ne_none _)), ?_, ?_, ?_⟩
  · rw [hrefresh.documents, hstays₂.documents, hloads.documents]
  · rw [hrefresh.disk, hread₂]
  · rw [hrefresh.disk, hvariant]

theorem SkillKept.tree_merged (h : SkillKept env req content sourcePath chunker cache)
    (hread : readPage env (cache.disk (req.entryDir env)) = some page) :
    (mergedDocument env (cache.disk (req.entryDir env)) req.chunkVariant page).tree =
      if (cache.disk (req.entryDir env)).contains (chunkIndexRel "bm25" req.paramsHash) then
        req.chunked env content sourcePath chunker
      else (req.page env content sourcePath).tree := by
  unfold mergedDocument SkillRequest.chunkVariant Dict.contains
  dsimp only
  cases hraw : (cache.disk (req.entryDir env)).get?
      (chunkIndexRel "bm25" req.paramsHash) with
  | none =>
    rw [bind_none, isSome_none, if_neg (by simp), (h.page page hread).1]
  | some raw =>
    rw [bind_some, (h.chunks raw hraw).1, isSome_some, if_pos rfl]

end

end ClearYourTools.Cache
