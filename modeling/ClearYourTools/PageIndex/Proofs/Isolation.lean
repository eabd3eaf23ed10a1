import ClearYourTools.Bm25Cohesion.Proofs.Coverage
import ClearYourTools.PageIndex.Proofs.DocumentFiles
import ClearYourTools.PageIndex.Retrieve

/-!
# Isolation of the documents of one build

Node and chunk ids start over in every document, and the map of files is shared by the whole
build.
-/

namespace ClearYourTools.PageIndex

open Misc Bm25Cohesion List

variable (env : Environment) (config : PageIndexConfig) (variant : ChunkVariant)

/-- The files of the walk that become documents: the first of each id. -/
def indexedFiles (files : List SkillFile) : List SkillFile :=
  files.foldl (fun acc file =>
    if acc.any fun other => other.docId == file.docId then acc else acc ++ [file]) []

variable (file : SkillFile)

/-- The index of a file alone. -/
def ownIndex : Except String SkillsIndex :=
  buildIndexForContent env file.path file.docId file.content config variant

/-- The names of node and chunk files. -/
def IsEntryKey (key : Text) : Prop :=
  (∃ id, key = nodeMdRel id) ∨
    ∃ pipeline paramsHash id, variant = some (pipeline, paramsHash) ∧
      key = chunkMdRel pipeline paramsHash id

/-- No two documents share the name of a node or chunk file, and the bodies of the nodes and
chunks of a document are those that the index of the document alone gives. -/
structure Isolated (files : List SkillFile) (index : SkillsIndex) : Prop where
  keys : ∀ f ∈ indexedFiles files, ∀ g ∈ indexedFiles files, f.docId ≠ g.docId →
    ∀ own own', ownIndex env config variant f = .ok own →
      ownIndex env config variant g = .ok own' → ∀ key, IsEntryKey variant key →
        ¬ (own.files.contains key = true ∧ own'.files.contains key = true)
  bodies : ∀ f ∈ indexedFiles files, ∀ own doc, ownIndex env config variant f = .ok own →
    own.documents.get? f.docId = some doc → ∀ obj ∈ structureToList doc.tree,
      resolveNodeBody index obj = resolveNodeBody own obj ∧
        ∀ id ∈ obj.chunks.getD [], resolveChunkBody index id = resolveChunkBody own id

/-- What indexing a file adds. -/
def fileOutput : Except String (SkillDocument × List (Text × Text)) :=
  documentOutput env file.path file.docId file.content config variant

theorem ownIndex_eq :
    ownIndex env config variant file = (fileOutput env config variant file).map
        (SkillsIndex.default.addDocument file.docId variant) :=
  indexSkillMdContent_eq env file.path file.docId file.content config variant rfl

variable (content : Text)

def hasFrontmatter : Bool := (extractSkillPrefix content).frontmatter.isSome

/-- The text has content before its first heading, outside the frontmatter. -/
def hasPreamble : Bool := (extractSkillPrefix content).preamble.isSome

/-- The text has a heading. -/
def hasSections : Bool := !(sections content).isEmpty

/-- The text has something to index. -/
def hasNodes : Bool := hasFrontmatter content || hasPreamble content || hasSections content

/-- Two texts that have no kind of node in common, and with chunks at most one of which has
nodes at all. Without node ids a heading counts as the frontmatter. -/
structure Separate (a b : Text) : Prop where
  preamble : ¬ (hasPreamble a = true ∧ hasPreamble b = true)
  frontmatter : ¬ (hasFrontmatter a = true ∧ hasFrontmatter b = true)
  sections : ¬ (hasSections a = true ∧ hasSections b = true)
  unnumbered : config.ifAddNodeId = false →
    ¬ (hasFrontmatter a = true ∧ hasSections b = true) ∧
      ¬ (hasSections a = true ∧ hasFrontmatter b = true)
  chunks : variant.isSome = true → ¬ (hasNodes a = true ∧ hasNodes b = true)

theorem mem_ids_iff (id : ℕ) :
    id ∈ (documentNodes content config).map NodeObj.id ↔
      (id = nodeIdFrontmatter ∧ hasFrontmatter content = true) ∨
      (id = nodeIdPreamble ∧ hasPreamble content = true) ∨
      (config.ifAddNodeId = true ∧ contentNodeIdStart ≤ id ∧
        id < contentNodeIdStart + (sections content).length) ∨
      (config.ifAddNodeId = false ∧ id = nodeIdFrontmatter ∧ hasSections content = true) := by
  have hprefix : ∀ (text : Option Text) (n : ℕ),
      id ∈ text.toList.map (fun _ => n) ↔ id = n ∧ text.isSome = true := by
    intro text n
    cases text <;> simp
  rw [map_id_documentNodes, mem_append, mem_append, hprefix, hprefix]
  simp only [hasFrontmatter, hasPreamble, hasSections]
  cases config.ifAddNodeId with
  | true => simp [mem_range'_1]
  | false =>
    cases sections content <;> simp [nodeIdFrontmatter]

theorem ids_disjoint_iff (a b : Text) :
    (∀ id, ¬ (id ∈ (documentNodes a config).map NodeObj.id ∧
      id ∈ (documentNodes b config).map NodeObj.id)) ↔ Separate config none a b := by
  have hpos : ∀ content, hasSections content = true ↔ 0 < (sections content).length := by
    intro content
    rw [hasSections, Bool.not_eq_true', isEmpty_eq_false_iff, length_pos_iff]
  constructor
  · intro h
    refine ⟨?_, ?_, ?_, ?_, by simp⟩
    · rintro ⟨ha, hb⟩
      exact h nodeIdPreamble ⟨(mem_ids_iff config a _).mpr (.inr (.inl ⟨rfl, ha⟩)),
        (mem_ids_iff config b _).mpr (.inr (.inl ⟨rfl, hb⟩))⟩
    · rintro ⟨ha, hb⟩
      exact h nodeIdFrontmatter ⟨(mem_ids_iff config a _).mpr (.inl ⟨rfl, ha⟩),
        (mem_ids_iff config b _).mpr (.inl ⟨rfl, hb⟩)⟩
    · rintro ⟨ha, hb⟩
      cases hid : config.ifAddNodeId with
      | true =>
        -- the first headings of both documents have the same id
        rw [hpos] at ha hb
        exact h contentNodeIdStart
          ⟨(mem_ids_iff config a _).mpr (.inr (.inr (.inl ⟨hid, Nat.le_refl _, by omega⟩))),
            (mem_ids_iff config b _).mpr (.inr (.inr (.inl ⟨hid, Nat.le_refl _, by omega⟩)))⟩
      | false =>
        exact h nodeIdFrontmatter
          ⟨(mem_ids_iff config a _).mpr (.inr (.inr (.inr ⟨hid, rfl, ha⟩))),
            (mem_ids_iff config b _).mpr (.inr (.inr (.inr ⟨hid, rfl, hb⟩)))⟩
    · intro hid
      constructor
      · rintro ⟨ha, hb⟩
        exact h nodeIdFrontmatter ⟨(mem_ids_iff config a _).mpr (.inl ⟨rfl, ha⟩),
          (mem_ids_iff config b _).mpr (.inr (.inr (.inr ⟨hid, rfl, hb⟩)))⟩
      · rintro ⟨ha, hb⟩
        exact h nodeIdFrontmatter
          ⟨(mem_ids_iff config a _).mpr (.inr (.inr (.inr ⟨hid, rfl, ha⟩))),
            (mem_ids_iff config b _).mpr (.inl ⟨rfl, hb⟩)⟩
  · rintro ⟨hpre, hfm, hsec, hunnumbered, -⟩ id ⟨ha, hb⟩
    rw [mem_ids_iff] at ha hb
    simp only [nodeIdFrontmatter, nodeIdPreamble, contentNodeIdStart] at ha hb
    rcases ha with ⟨rfl, ha⟩ | ⟨rfl, ha⟩ | ⟨hid, hlow, hhigh⟩ | ⟨hid, rfl, ha⟩
    · rcases hb with ⟨-, hb⟩ | ⟨h01, -⟩ | ⟨-, hlow, -⟩ | ⟨hid, -, hb⟩
      · exact hfm ⟨ha, hb⟩
      · omega
      · omega
      · exact (hunnumbered hid).1 ⟨ha, hb⟩
    · rcases hb with ⟨h10, -⟩ | ⟨-, hb⟩ | ⟨-, hlow, -⟩ | ⟨-, h10, -⟩
      · omega
      · exact hpre ⟨ha, hb⟩
      · omega
      · omega
    · have ha := (hpos a).mpr (by omega)
      rcases hb with ⟨rfl, -⟩ | ⟨rfl, -⟩ | ⟨-, -, hhigh'⟩ | ⟨hid', -⟩
      · omega
      · omega
      · exact hsec ⟨ha, (hpos b).mpr (by omega)⟩
      · rw [hid] at hid'
        cases hid'
    · rcases hb with ⟨-, hb⟩ | ⟨h01, -⟩ | ⟨hid', -⟩ | ⟨-, -, hb⟩
      · exact (hunnumbered hid).2 ⟨ha, hb⟩
      · omega
      · rw [hid] at hid'
        cases hid'
      · exact hsec ⟨ha, hb⟩

theorem hasNodes_iff : hasNodes content = true ↔ documentNodes content config ≠ [] := by
  have hids := map_id_documentNodes content config
  simp only [hasNodes, hasFrontmatter, hasPreamble, hasSections]
  rw [ne_eq, ← map_eq_nil_iff (f := NodeObj.id), hids]
  cases (extractSkillPrefix content).frontmatter <;>
    cases (extractSkillPrefix content).preamble <;> cases config.ifAddNodeId <;>
      cases sections content <;> simp [range'_succ, replicate_succ]

variable (chunker : Bm25CohesionChunker)

theorem chunkCount_pos_iff (content : Text) :
    0 < chunkCount env chunker (documentNodes content config) ↔ hasNodes content = true := by
  rw [hasNodes_iff config]
  cases hdoc : documentNodes content config with
  | nil => simp [chunkCount]
  | cons obj rest =>
    have hobj : obj ∈ documentNodes content config := hdoc ▸ mem_cons_self
    obtain ⟨t, htext, htidy⟩ := tidy_of_mem_documentNodes hobj
    have hcontent : ¬ (obj.text.getD []).trim = [] := by
      rw [htext]
      exact htidy.trim_ne_nil
    have hchunks : 0 < (nodeChunks env chunker (obj.text.getD [])).length := by
      rw [nodeChunks]
      split
      · exact Nat.one_pos
      · exact length_pos_iff.mpr ‹_›
    rw [chunkCount, if_neg hcontent]
    simp only [ne_eq, reduceCtorEq, not_false_eq_true, iff_true]
    omega

def fileWrites : List (Text × Text) :=
  match fileOutput env config variant file with
  | .ok out => out.2
  | .error _ => []

/-- The state of the build after it has indexed the files of `done`. -/
structure BuiltFrom (done : List SkillFile) (index : SkillsIndex) : Prop where
  distinct : done.Pairwise fun f g => f.docId ≠ g.docId
  outputs : ∀ f ∈ done, ∃ out, fileOutput env config variant f = .ok out
  taken : ∀ id, index.documents.contains id = true ↔ ∃ f ∈ done, f.docId = id
  files : index.files = Dict.empty.writeAll (done.flatMap (fileWrites env config variant))
  names : ∀ pipeline paramsHash, variant = some (pipeline, paramsHash) → done ≠ [] →
    index.chunkPipeline = some pipeline ∧ index.chunkParamsHash = some paramsHash

theorem builtFrom_default : BuiltFrom env config variant [] SkillsIndex.default where
  distinct := List.Pairwise.nil
  outputs := by simp
  taken := by simp [SkillsIndex.default, Dict.contains]
  files := rfl
  names := by simp

theorem contains_addDocument (index : SkillsIndex) (docId : Text)
    (out : SkillDocument × List (Text × Text)) (id : Text) :
    (index.addDocument docId variant out).documents.contains id = true ↔
      id = docId ∨ index.documents.contains id = true := by
  simp only [SkillsIndex.addDocument, Dict.contains, Dict.get?_set]
  by_cases hid : id = docId <;> simp [hid]

variable {done : List SkillFile} {index : SkillsIndex}

theorem builtFrom_walkSkillFile {index' : SkillsIndex} (h : BuiltFrom env config variant done index)
    {file : SkillFile} (hstep : walkSkillFile env config variant index file = .ok index') :
    BuiltFrom env config variant
      (if done.any fun other => other.docId == file.docId then done else done ++ [file]) index' := by
  have htaken : (done.any fun other => other.docId == file.docId) =
      index.documents.contains file.docId := by
    rw [Bool.eq_iff_iff, h.taken]
    simp
  rw [htaken]
  rw [walkSkillFile] at hstep
  cases hfree : index.documents.contains file.docId with
  | true =>
    rw [hfree, if_pos rfl] at hstep
    cases hstep
    rw [if_pos rfl]
    exact h
  | false =>
    rw [hfree, if_neg (by simp), indexSkillMdContent_eq env _ _ _ config variant hfree] at hstep
    rw [if_neg (by simp)]
    cases hout : fileOutput env config variant file with
    | error e =>
      rw [fileOutput] at hout
      rw [hout] at hstep
      cases hstep
    | ok out =>
      have hwrites : fileWrites env config variant file = out.2 := by rw [fileWrites, hout]
      rw [fileOutput] at hout
      rw [hout] at hstep
      simp only [Except.map, Except.ok.injEq] at hstep
      subst hstep
      constructor
      · rw [pairwise_append]
        refine ⟨h.distinct, pairwise_singleton _ _, ?_⟩
        intro f hf g hg heq
        obtain rfl := mem_singleton.mp hg
        have htaken := (h.taken g.docId).mpr ⟨f, hf, heq⟩
        rw [hfree] at htaken
        cases htaken
      · intro f hf
        rcases mem_append.mp hf with hf | hf
        · exact h.outputs f hf
        · obtain rfl := mem_singleton.mp hf
          exact ⟨out, hout⟩
      · intro id
        rw [contains_addDocument, h.taken]
        simp only [mem_append, mem_singleton, or_and_right, exists_or, exists_eq_left]
        rw [or_comm, eq_comm]
      · rw [SkillsIndex.addDocument, h.files, flatMap_append, Dict.writeAll_append]
        simp [hwrites]
      · intro pipeline paramsHash hvariant _
        simp [SkillsIndex.addDocument, hvariant]

variable {files : List SkillFile}

theorem builtFrom_foldlM {index' : SkillsIndex} (h : BuiltFrom env config variant done index)
    (hrun : files.foldlM (walkSkillFile env config variant) index = .ok index') :
    BuiltFrom env config variant
      (files.foldl (fun acc file =>
        if acc.any fun other => other.docId == file.docId then acc else acc ++ [file]) done)
      index' := by
  induction files generalizing done index with
  | nil =>
    cases hrun
    exact h
  | cons file rest ih =>
    rw [foldlM_cons] at hrun
    cases hstep : walkSkillFile env config variant index file with
    | error e =>
      rw [hstep] at hrun
      cases hrun
    | ok next =>
      rw [hstep] at hrun
      exact ih (builtFrom_walkSkillFile env config variant h hstep) hrun

variable {f : SkillFile}

theorem BuiltFrom.get?_files (h : BuiltFrom env config variant done index) (hf : f ∈ done)
    {key : Text} (hkey : key ∈ (fileWrites env config variant f).map Prod.fst)
    (hothers : ∀ g ∈ done, f.docId ≠ g.docId →
      key ∉ (fileWrites env config variant g).map Prod.fst) :
    index.files.get? key = (Dict.empty.writeAll (fileWrites env config variant f)).get? key := by
  obtain ⟨before, after, rfl⟩ := append_of_mem hf
  have hdistinct := pairwise_append.mp h.distinct
  have hlater : key ∉ (after.flatMap (fileWrites env config variant)).map Prod.fst := by
    intro hmem
    obtain ⟨w, hw, rfl⟩ := mem_map.mp hmem
    obtain ⟨g, hg, hw⟩ := mem_flatMap.mp hw
    have hne : f.docId ≠ g.docId := (pairwise_cons.mp hdistinct.2.1).1 g hg
    exact hothers g (by simp [hg]) hne (mem_map_of_mem hw)
  have hsome : ((fileWrites env config variant f).filter fun w => decide (w.1 = key)) ≠ [] := by
    obtain ⟨w, hw, rfl⟩ := mem_map.mp hkey
    exact ne_nil_of_mem (mem_filter.mpr ⟨hw, by simp⟩)
  rw [h.files, flatMap_append, flatMap_cons, Dict.writeAll_append, Dict.writeAll_append,
    Dict.get?_writeAll_of_notMem _ hlater, Dict.get?_writeAll _ (fileWrites env config variant f),
    Dict.get?_writeAll _ (fileWrites env config variant f), getLast?_eq_some_getLast hsome]
  rfl

variable {obj : NodeObj}

/-- The references that attaching chunks adds are numbers of its own chunks. -/
theorem mem_chunks_attachTree {start : ℕ} {tree : Structure}
    {nodes : List NodeObj} (hobj : obj ∈ (attachTree env chunker start tree nodes).preorder)
    {id : ℕ} (hid : id ∈ obj.chunks.getD []) :
    (∃ old ∈ tree.preorder, id ∈ old.chunks.getD []) ∨ id < start + chunkCount env chunker nodes := by
  have hfirst : ∀ (p : NodeObj → Bool) (refs : List ℕ) (objs : List NodeObj) (o : NodeObj),
      o ∈ Forest.updateFirstIn p (fun obj => { obj with chunks := some refs }) objs →
        o ∈ objs ∨ o.chunks = some refs := by
    intro p refs objs o
    induction objs with
    | nil => simp [Forest.updateFirstIn]
    | cons a rest ih =>
      rw [Forest.updateFirstIn]
      intro ho
      split at ho
      · rcases mem_cons.mp ho with rfl | ho
        · exact .inr rfl
        · exact .inl (mem_cons_of_mem _ ho)
      · rcases mem_cons.mp ho with rfl | ho
        · exact .inl mem_cons_self
        · rcases ih ho with ho | ho
          · exact .inl (mem_cons_of_mem _ ho)
          · exact .inr ho
  induction nodes generalizing start tree with
  | nil => exact .inl ⟨obj, hobj, hid⟩
  | cons node rest ih =>
    rw [attachTree] at hobj
    rw [chunkCount]
    split at hobj
    · rename_i hblank
      rw [if_pos hblank]
      exact ih hobj
    rename_i hblank
    rw [if_neg hblank]
    rcases ih hobj with ⟨old, hold, hin⟩ | hlt
    · rw [insertChunksOnNode, (Forest.updateFirst_spec _ _ tree).1] at hold
      rcases hfirst _ _ _ _ hold with hold | hrefs
      · exact .inl ⟨old, hold, hin⟩
      · rw [hrefs, Option.getD_some, mem_range'_1] at hin
        exact .inr (by omega)
    · exact .inr (by omega)

variable {env config variant}

variable {own : SkillsIndex}

theorem ownIndex_ok (h : ownIndex env config variant f = .ok own) :
    ∃ out, fileOutput env config variant f = .ok out ∧
      own = SkillsIndex.default.addDocument f.docId variant out ∧
      own.files = Dict.empty.writeAll (fileWrites env config variant f) := by
  rw [ownIndex_eq] at h
  cases hout : fileOutput env config variant f with
  | error e =>
    rw [hout] at h
    cases h
  | ok out =>
    rw [hout] at h
    simp only [Except.map, Except.ok.injEq] at h
    refine ⟨out, rfl, h.symm, ?_⟩
    rw [← h, fileWrites, hout]
    rfl

theorem contains_nodeMdRel_iff (h : ownIndex env config variant f = .ok own) (id : ℕ) :
    own.files.contains (nodeMdRel id) = true ↔
      id ∈ (documentNodes f.content config).map NodeObj.id := by
  obtain ⟨out, hout, -, hfiles⟩ := ownIndex_ok h
  rw [hfiles, Dict.contains_writeAll_empty, fileWrites, hout]
  exact nodeMdRel_mem_writes env config variant hout id

/-- Two documents keep apart exactly when they share no name of a node or chunk file. -/
theorem separate_iff {g : SkillFile} {own' : SkillsIndex}
    (hown : ownIndex env config variant f = .ok own)
    (hown' : ownIndex env config variant g = .ok own') :
    Separate config variant f.content g.content ↔
      ∀ key, IsEntryKey variant key →
        ¬ (own.files.contains key = true ∧ own'.files.contains key = true) := by
  have hids := ids_disjoint_iff config f.content g.content
  have hnode := contains_nodeMdRel_iff hown
  have hnode' := contains_nodeMdRel_iff hown'
  obtain ⟨out, hout, -, hfiles⟩ := ownIndex_ok hown
  obtain ⟨out', hout', -, hfiles'⟩ := ownIndex_ok hown'
  have hchunk : ∀ pipeline paramsHash, variant = some (pipeline, paramsHash) →
      ((∀ id, ¬ (own.files.contains (chunkMdRel pipeline paramsHash id) = true ∧
        own'.files.contains (chunkMdRel pipeline paramsHash id) = true)) ↔
          ¬ (hasNodes f.content = true ∧ hasNodes g.content = true)) := by
    rintro pipeline paramsHash rfl
    obtain ⟨chunker, -, hkeys⟩ := chunkMdRel_mem_writes env config hout
    obtain ⟨chunker', -, hkeys'⟩ := chunkMdRel_mem_writes env config hout'
    rw [hfiles, hfiles', fileWrites, fileWrites, hout, hout']
    simp only [Dict.contains_writeAll_empty, hkeys, hkeys']
    rw [← chunkCount_pos_iff env config chunker, ← chunkCount_pos_iff env config chunker']
    constructor
    · intro h hpos
      exact h 0 hpos
    · rintro h id ⟨hid, hid'⟩
      exact h ⟨by omega, by omega⟩
  constructor
  · intro hsep key hkey
    rcases hkey with ⟨id, rfl⟩ | ⟨pipeline, paramsHash, id, hvariant, rfl⟩
    · rw [hnode, hnode']
      refine hids.mpr ?_ id
      exact ⟨hsep.preamble, hsep.frontmatter, hsep.sections, hsep.unnumbered, by simp⟩
    · exact (hchunk pipeline paramsHash hvariant).mpr
        (hsep.chunks (by simp [hvariant])) id
  · intro h
    have hnone := hids.mp fun id => by
      have hkey := h (nodeMdRel id) (.inl ⟨id, rfl⟩)
      rwa [hnode, hnode'] at hkey
    refine ⟨hnone.preamble, hnone.frontmatter, hnone.sections, hnone.unnumbered, ?_⟩
    intro hsome
    obtain ⟨⟨pipeline, paramsHash⟩, hvariant⟩ := Option.isSome_iff_exists.mp hsome
    exact (hchunk pipeline paramsHash hvariant).mp fun id =>
      h _ (.inr ⟨pipeline, paramsHash, id, hvariant, rfl⟩)

theorem BuiltFrom.ownIndex (h : BuiltFrom env config variant done index) (hf : f ∈ done) :
    ∃ own, ownIndex env config variant f = .ok own := by
  obtain ⟨out, hout⟩ := h.outputs f hf
  refine ⟨SkillsIndex.default.addDocument f.docId variant out, ?_⟩
  rw [ownIndex_eq, hout]
  rfl

theorem BuiltFrom.get?_eq_own (h : BuiltFrom env config variant done index) (hf : f ∈ done)
    (hsep : ∀ g ∈ done, f.docId ≠ g.docId → Separate config variant f.content g.content)
    (hown : PageIndex.ownIndex env config variant f = .ok own) {key : Text}
    (hkey : IsEntryKey variant key) (hcontains : own.files.contains key = true) :
    index.files.get? key = own.files.get? key := by
  obtain ⟨out, hout, -, hfiles⟩ := ownIndex_ok hown
  rw [hfiles] at hcontains ⊢
  apply h.get?_files env config variant hf ((Dict.contains_writeAll_empty _ _).mp hcontains)
  intro g hg hne hmem
  obtain ⟨own', hown'⟩ := h.ownIndex hg
  obtain ⟨out', hout', -, hfiles'⟩ := ownIndex_ok hown'
  refine (separate_iff hown hown').mp (hsep g hg hne) key hkey ⟨?_, ?_⟩
  · rw [hfiles]
    exact hcontains
  · rw [hfiles']
    exact (Dict.contains_writeAll_empty _ _).mpr hmem

theorem mem_formatStructureForOutput {tree : Structure}
    (h : obj ∈ structureToList (formatStructureForOutput tree config)) :
    ∃ old ∈ structureToList tree, obj.id = old.id ∧ obj.chunks = old.chunks := by
  rw [formatStructureForOutput] at h
  split at h
  · exact ⟨obj, h, rfl, rfl⟩
  · rw [structureToList, Forest.preorder_map] at h
    obtain ⟨old, hold, rfl⟩ := mem_map.mp h
    exact ⟨old, hold, rfl, rfl⟩

theorem entries_of_own (hown : ownIndex env config variant f = .ok own) {doc : SkillDocument}
    (hdoc : own.documents.get? f.docId = some doc) (hobj : obj ∈ structureToList doc.tree) :
    own.files.contains (nodeMdRel obj.id) = true ∧
      ∀ id ∈ obj.chunks.getD [], ∃ pipeline paramsHash, variant = some (pipeline, paramsHash) ∧
        own.chunkMdRelFor id = some (chunkMdRel pipeline paramsHash id) ∧
        own.files.contains (chunkMdRel pipeline paramsHash id) = true := by
  have hnode := contains_nodeMdRel_iff hown
  obtain ⟨out, hout, heq, hfiles⟩ := ownIndex_ok hown
  have hout1 : out.1 = doc := by
    rw [heq, SkillsIndex.addDocument] at hdoc
    simpa using hdoc
  have hfile : fileWrites env config variant f = out.2 := by rw [fileWrites, hout]
  obtain ⟨sourcePath, flat, writes, -, hattach, hfields, hout2⟩ :=
    documentOutput_ok env config variant hout
  rw [← hout1, hfields] at hobj
  obtain ⟨old, hold, hid, hchunks⟩ := mem_formatStructureForOutput hobj
  rw [hid, hchunks, hnode]
  rcases attachOutput_ok env config variant hattach with
    ⟨-, rfl, -⟩ | ⟨pipeline, paramsHash, chunker, hvariant, -, rfl, hwrites⟩
  · rw [structureToList, preorder_buildFlatStructure] at hold
    refine ⟨mem_map_of_mem hold, ?_⟩
    rw [chunks_of_mem_documentNodes hold]
    simp
  · constructor
    · rw [← preorder_buildFlatStructure, ← map_attachTree env chunker NodeObj.id (fun _ _ => rfl) 0]
      exact mem_map_of_mem hold
    · intro id hmem
      refine ⟨pipeline, paramsHash, hvariant, ?_, ?_⟩
      · rw [heq]
        simp [SkillsIndex.addDocument, SkillsIndex.chunkMdRelFor, hvariant]
      · rcases mem_chunks_attachTree env chunker hold hmem with ⟨old', hold', hin⟩ | hlt
        · rw [preorder_buildFlatStructure] at hold'
          rw [chunks_of_mem_documentNodes hold'] at hin
          simp at hin
        rw [hfiles, Dict.contains_writeAll_empty, hfile, hout2, hwrites, map_append, map_append, map_append,
          keys_chunkWrites]
        simp only [mem_append]
        refine .inl (.inl (.inl (mem_map_of_mem ?_)))
        rw [mem_range'_1]
        omega

/-- The documents of a build are isolated exactly when any two of them keep apart. -/
theorem isolated_iff {files : List SkillFile} {includeChunks : Bool}
    {chunkPipeline chunkParamsHash : Option Text} {index : SkillsIndex}
    (hbuild : buildSkillsIndexWithOptions env files config includeChunks chunkPipeline
      chunkParamsHash = .ok index) :
    Isolated env config (requestedVariant includeChunks chunkPipeline chunkParamsHash) files index ↔
      ∀ f ∈ indexedFiles files, ∀ g ∈ indexedFiles files, f.docId ≠ g.docId →
        Separate config (requestedVariant includeChunks chunkPipeline chunkParamsHash)
          f.content g.content := by
  generalize hv : requestedVariant includeChunks chunkPipeline chunkParamsHash = variant
  rw [buildSkillsIndexWithOptions, hv] at hbuild
  have hbuilt : BuiltFrom env config variant (indexedFiles files) index :=
    builtFrom_foldlM env config variant (builtFrom_default env config variant) hbuild
  constructor
  · intro hiso f hf g hg hne
    obtain ⟨own, hown⟩ := hbuilt.ownIndex hf
    obtain ⟨own', hown'⟩ := hbuilt.ownIndex hg
    exact (separate_iff hown hown').mpr (hiso.keys f hf g hg hne own own' hown hown')
  · intro hsep
    constructor
    · intro f hf g hg hne own own' hown hown'
      exact (separate_iff hown hown').mp (hsep f hf g hg hne)
    · intro f hf own doc hown hdoc obj hobj
      obtain ⟨hnode, hchunks⟩ := entries_of_own hown hdoc hobj
      have hread : ∀ key, IsEntryKey variant key → own.files.contains key = true →
          index.files.get? key = own.files.get? key :=
        fun _ hentry hcontains => hbuilt.get?_eq_own hf (hsep f hf) hown hentry hcontains
      constructor
      · rw [resolveNodeBody, resolveNodeBody, hread _ (.inl ⟨obj.id, rfl⟩) hnode]
      · intro id hid
        obtain ⟨pipeline, paramsHash, hvariant, hrel, hcontains⟩ := hchunks id hid
        obtain ⟨hpipeline, hhash⟩ :=
          hbuilt.names pipeline paramsHash hvariant (ne_nil_of_mem hf)
        have hrel' : index.chunkMdRelFor id = some (chunkMdRel pipeline paramsHash id) := by
          rw [SkillsIndex.chunkMdRelFor, hpipeline, hhash]
        rw [resolveChunkBody, resolveChunkBody, hrel, hrel']
        simp only [Option.some_or, Option.bind_some]
        rw [hread _ (.inr ⟨pipeline, paramsHash, id, hvariant, rfl⟩) hcontains]

/-- An environment without a home directory and without files on disk. -/
def plainEnvironment : Environment where
  cohesion := plainExternals
  shortenHomePath path := .ok path
  serializePageIndex _ := []
  serializeChunkIndex _ _ _ := []
  readFile _ := none

def skillFile (name content : String) : SkillFile := ⟨name.toList, name.toList, content.toList⟩

def twoSkills : List SkillFile := [skillFile "a.md" "# A", skillFile "b.md" "# B"]

theorem isolated_iff_twoSkills :
    ∃ index, buildSkillsIndexWithOptions plainEnvironment twoSkills .default false none none =
        .ok index ∧
      (Isolated plainEnvironment .default (requestedVariant false none none) twoSkills index ↔
        ∀ f ∈ indexedFiles twoSkills, ∀ g ∈ indexedFiles twoSkills, f.docId ≠ g.docId →
          Separate .default (requestedVariant false none none) f.content g.content) :=
  ⟨_, rfl, isolated_iff rfl⟩

/-- The first headings of two skills share a node file. -/
theorem headings_of_two_skills_collide :
    ¬ ∀ (env : Environment) (files : List SkillFile) (config : PageIndexConfig)
      (includeChunks : Bool) (chunkPipeline chunkParamsHash : Option Text) (index : SkillsIndex),
      config.ifAddNodeText = false →
      buildSkillsIndexWithOptions env files config includeChunks chunkPipeline chunkParamsHash =
        .ok index →
      Isolated env config (requestedVariant includeChunks chunkPipeline chunkParamsHash) files
        index := by
  intro h
  have hiso := h plainEnvironment twoSkills .default false none none _ rfl rfl
  have hindexed : indexedFiles twoSkills = twoSkills := rfl
  have hown : ownIndex plainEnvironment .default none (skillFile "a.md" "# A") = .ok _ := rfl
  have hown' : ownIndex plainEnvironment .default none (skillFile "b.md" "# B") = .ok _ := rfl
  have hf : skillFile "a.md" "# A" ∈ indexedFiles twoSkills := by
    rw [hindexed]
    exact mem_cons_self
  have hg : skillFile "b.md" "# B" ∈ indexedFiles twoSkills := by
    rw [hindexed]
    exact mem_cons_of_mem _ mem_cons_self
  have hkeys := hiso.keys _ hf _ hg (by decide) _ _ hown hown'
  apply hkeys (nodeMdRel contentNodeIdStart) (.inl ⟨_, rfl⟩)
  rw [contains_nodeMdRel_iff hown, contains_nodeMdRel_iff hown']
  decide

end ClearYourTools.PageIndex
