import ClearYourTools.PageIndex.Build
import ClearYourTools.PageIndex.Proofs.SectionPartition

/-!
# What indexing a document writes

Indexing a document adds the document and a list of file writes to the index, and both are
determined by the document alone: nothing is read from the index but whether the id is
taken.
-/

namespace ClearYourTools.PageIndex

open Misc List Option
open List (range')
open Prod (fst snd)

/-- The nodes on a stack, from its bottom up. -/
def stackNodes (stack : List MutableNode) : List NodeObj :=
  stack.reverse.flatMap fun m => m.value :: m.children.preorder

theorem stackNodes_cons (top : MutableNode) (stack : List MutableNode) :
    stackNodes (top :: stack) = stackNodes stack ++ top.value :: top.children.preorder := by
  simp [stackNodes]

theorem finishTop_spec (top : MutableNode) (stack : List MutableNode) (roots : Structure) :
    (finishTop top stack roots).2.preorder ++ stackNodes (finishTop top stack roots).1 =
        roots.preorder ++ stackNodes (top :: stack) ∧
      (finishTop top stack roots).1.length = stack.length := by
  cases stack with
  | nil => simp [finishTop, stackNodes]
  | cons parent stack => simp [finishTop, stackNodes_cons]

theorem popClosed_spec (level fuel : ℕ) (stack : List MutableNode) (roots : Structure) :
    (popClosed level fuel stack roots).2.preorder ++ stackNodes (popClosed level fuel stack roots).1 =
      roots.preorder ++ stackNodes stack := by
  induction fuel generalizing stack roots with
  | zero => rfl
  | succ fuel ih =>
    cases stack with
    | nil => rfl
    | cons top stack =>
      rw [popClosed]
      split
      · rw [ih, (finishTop_spec top stack roots).1]
      · rfl

theorem popAll_spec {fuel : ℕ} {stack : List MutableNode} (h : stack.length ≤ fuel)
    (roots : Structure) :
    (popAll fuel stack roots).preorder = roots.preorder ++ stackNodes stack := by
  induction fuel generalizing stack roots with
  | zero =>
    have hnil : stack = [] := length_eq_zero_iff.mp (Nat.le_zero.mp h)
    simp [popAll, hnil, stackNodes]
  | succ fuel ih =>
    cases stack with
    | nil => simp [popAll, stackNodes]
    | cons top stack =>
      obtain ⟨hnodes, hlength⟩ := finishTop_spec top stack roots
      rw [length_cons] at h
      rw [popAll, ih (by omega), hnodes]

theorem pushHeading_spec (state : List MutableNode × Structure) (node : ContentNode) :
    (pushHeading state node).2.preorder ++ stackNodes (pushHeading state node).1 =
      state.2.preorder ++ stackNodes state.1 ++ [headingObj node] := by
  have hpop := popClosed_spec node.level state.1.length state.1 state.2
  rw [pushHeading, stackNodes_cons, Forest.preorder_nil, ← List.append_assoc, hpop]

theorem preorder_buildTreeFromNodes (nodeList : List ContentNode) :
    (buildTreeFromNodes nodeList).preorder = nodeList.map headingObj := by
  have hfold : ∀ state : List MutableNode × Structure,
      (nodeList.foldl pushHeading state).2.preorder ++
          stackNodes (nodeList.foldl pushHeading state).1 =
        state.2.preorder ++ stackNodes state.1 ++ nodeList.map headingObj := by
    induction nodeList with
    | nil => simp
    | cons node rest ih =>
      intro state
      rw [foldl_cons, ih, pushHeading_spec]
      simp
  rw [buildTreeFromNodes, popAll_spec (Nat.le_refl _), hfold]
  simp [stackNodes]

/-- The objects with consecutive ids. -/
def numbered (start : ℕ) : List NodeObj → List NodeObj
  | [] => []
  | obj :: rest => { obj with nodeId := some start } :: numbered (start + 1) rest

variable (start : ℕ)

theorem numbered_append (xs ys : List NodeObj) :
    numbered start (xs ++ ys) = numbered start xs ++ numbered (start + xs.length) ys := by
  induction xs generalizing start with
  | nil => rfl
  | cons x xs ih =>
    rw [List.cons_append, numbered, ih, numbered, List.cons_append, length_cons]
    congr 3
    omega

theorem writeNodeId_spec (tree : Structure) (start : ℕ) :
    (writeNodeId tree start).1.preorder = numbered start tree.preorder ∧
      (writeNodeId tree start).2 = start + tree.preorder.length := by
  induction tree generalizing start with
  | nil => exact ⟨rfl, rfl⟩
  | node obj children rest ihc ihr =>
    obtain ⟨hchildren, hnext⟩ := ihc (start + 1)
    obtain ⟨hrest, hlast⟩ := ihr (writeNodeId children (start + 1)).2
    simp only [writeNodeId, Forest.preorder_node, numbered, numbered_append, length_cons,
      length_append]
    rw [hchildren, hrest, hlast, hnext]
    exact ⟨rfl, by omega⟩

theorem map_id_numbered (objs : List NodeObj) :
    (numbered start objs).map NodeObj.id = range' start objs.length := by
  induction objs generalizing start with
  | nil => rfl
  | cons obj rest ih =>
    rw [numbered, map_cons, ih, length_cons, range'_succ]
    rfl

theorem map_text_numbered (objs : List NodeObj) :
    (numbered start objs).map NodeObj.text = objs.map NodeObj.text := by
  induction objs generalizing start with
  | nil => rfl
  | cons obj rest ih => rw [numbered, map_cons, ih, map_cons]

/-- The heading sections of a text. -/
def sections (content : Text) : List ContentNode :=
  extractNodeTextContent (extractNodesFromMarkdown content).1 (extractNodesFromMarkdown content).2

/-- The prefix node of a text, when there is one. -/
def prefixNodes (kind : NodeKind) (nodeId : ℕ) (text : Option Text) (lineNum : Option ℕ) :
    List NodeObj :=
  (((text.map Text.trim).filter fun t => !t.isEmpty).map
    (prefixNode kind nodeId (lineNum.getD 1))).toList

/-- The nodes of the headings of a text. -/
def headingObjs (content : Text) (config : PageIndexConfig) : List NodeObj :=
  if config.ifAddNodeId then numbered contentNodeIdStart ((sections content).map headingObj)
  else (sections content).map headingObj

def documentNodes (content : Text) (config : PageIndexConfig) : List NodeObj :=
  let p := extractSkillPrefix content
  prefixNodes .frontmatter nodeIdFrontmatter p.frontmatter p.frontmatterLineNum ++
    (prefixNodes .preamble nodeIdPreamble p.preamble p.preambleLineNum ++
      headingObjs content config)

theorem preorder_insertPrefix (kind : NodeKind) (nodeId : ℕ) (text : Option Text)
    (lineNum : Option ℕ) (roots : Structure) :
    (insertPrefix kind nodeId text lineNum roots).preorder =
      prefixNodes kind nodeId text lineNum ++ roots.preorder := by
  rw [insertPrefix, prefixNodes]
  cases (text.map Text.trim).filter fun t => !t.isEmpty with
  | none => rfl
  | some t => rfl

theorem preorder_buildFlatStructure (content : Text) (config : PageIndexConfig) :
    (buildFlatStructure content config).preorder = documentNodes content config := by
  have htree := preorder_buildTreeFromNodes (sections content)
  have hids : (if config.ifAddNodeId then
      (writeNodeId (buildTreeFromNodes (sections content)) contentNodeIdStart).1
      else buildTreeFromNodes (sections content)).preorder = headingObjs content config := by
    rw [headingObjs]
    split
    · rw [(writeNodeId_spec _ _).1, htree]
    · exact htree
  simp only [buildFlatStructure, finalizeSkillStructure, formatStructureForOutput, if_true]
  rw [preorder_insertPrefix, preorder_insertPrefix, documentNodes]
  simp only [sections] at hids
  rw [hids]

/-- The texts that a markdown text is split into. -/
def partTexts (content : Text) : List Text :=
  let p := extractSkillPrefix content
  p.frontmatter.toList ++ (p.preamble.toList ++ (sections content).map ContentNode.text)

/-- A trimmed text with content. -/
def Tidy (t : Text) : Prop := t ≠ [] ∧ t.trim = t

variable {t : Text}

theorem tidy_trim (h : t.trim ≠ []) : Tidy t.trim := ⟨h, Text.trim_trim t⟩

theorem Tidy.trimStart (h : Tidy t) : t.trimStart = t := by
  have hstart := Text.trimStart_trim t
  rwa [h.2] at hstart

theorem Tidy.trim_ne_nil (h : Tidy t) : t.trim ≠ [] := by
  rw [h.2]
  exact h.1

variable {content : Text}

theorem tidy_frontmatter (h : (extractSkillPrefix content).frontmatter = some t) : Tidy t := by
  rw [(partsHaveRanges content).frontmatter] at h
  obtain ⟨r, -, rfl⟩ := map_eq_some_iff.mp h
  refine ⟨?_, ?_⟩
  · simp
  · apply Text.trim_eq_self
    · intro c hc
      have hdash : c = '-' := by simpa using hc.symm
      subst hdash
      decide
    · intro c hc
      have hname : "\n---".toList.getLast? = some '-' := by decide
      rw [getLast?_append, hname, some_or, mem_some_iff] at hc
      subst hc
      decide

theorem tidy_preamble (h : (extractSkillPrefix content).preamble = some t) : Tidy t := by
  have hloop : ∀ {ls : List Text} {start : ℕ},
      (extractPreambleFromLines ls start).1 = some t → Tidy t := by
    intro ls start hsome
    simp only [extractPreambleFromLines] at hsome
    split at hsome
    · cases hsome
    · rename_i hne
      simp only [some.injEq] at hsome
      rw [← hsome]
      exact tidy_trim hne
  simp only [extractSkillPrefix, skillPrefixOfLines] at h
  split at h
  · exact hloop h
  · split at h
    · cases h
    · exact hloop h

theorem tidy_section (h : t ∈ (sections content).map ContentNode.text) : Tidy t := by
  have hsections := (partsHaveRanges content).sections
  rw [sections, hsections] at h
  obtain ⟨r, hr, rfl⟩ := List.mem_map.mp h
  generalize content.lines = ls at hr
  obtain ⟨hsorted, hbound⟩ := sectionStarts_spec ls
  obtain ⟨hstart, hlt, hstop⟩ := mem_spansFrom hsorted hbound hr
  obtain ⟨node, hnode, hnum⟩ := List.mem_map.mp hstart
  obtain ⟨i, line, hi, hget, hhead⟩ :=
    mem_extractNodesFrom (List.mem_map_of_mem (f := HeaderNode.lineNum) hnode)
  obtain rfl : i = r.1 := by omega
  apply tidy_trim
  intro hblank
  have hindex : (ls.take r.2)[r.1]? = some line := by
    rw [getElem?_take_of_lt hlt]
    exact hget
  have hdrop : ((ls.take r.2).drop r.1)[0]? = some line := by
    rw [getElem?_drop]
    exact hindex
  have hall := Text.trim_joinLines_eq_nil_iff.mp hblank line (mem_of_getElem? hdrop)
  exact trim_ne_nil_of_isHeadingLine hhead hall

theorem tidy_partTexts (h : t ∈ partTexts content) : Tidy t := by
  rw [partTexts, mem_append, mem_append, mem_toList, mem_toList] at h
  rcases h with h | h | h
  · exact tidy_frontmatter h
  · exact tidy_preamble h
  · exact tidy_section h

theorem map_prefixNodes {β : Type} (g : NodeObj → β) {kind : NodeKind} {nodeId : ℕ}
    {text : Option Text} {lineNum : Option ℕ} (h : ∀ t ∈ text, Tidy t) :
    (prefixNodes kind nodeId text lineNum).map g =
      text.toList.map fun t => g (prefixNode kind nodeId (lineNum.getD 1) t) := by
  rw [prefixNodes]
  cases text with
  | none => rfl
  | some t =>
    obtain ⟨hne, htrim⟩ := h t rfl
    simp [htrim, hne]

theorem map_text_headingObjs (content : Text) (config : PageIndexConfig) :
    (headingObjs content config).map NodeObj.text =
      ((sections content).map ContentNode.text).map some := by
  rw [headingObjs]
  split
  · rw [map_text_numbered, List.map_map, List.map_map]
    rfl
  · rw [List.map_map, List.map_map]
    rfl

theorem map_text_documentNodes (content : Text) (config : PageIndexConfig) :
    (documentNodes content config).map NodeObj.text = (partTexts content).map some := by
  simp only [documentNodes, partTexts, map_append]
  rw [map_prefixNodes _ fun t ht => tidy_frontmatter ht,
    map_prefixNodes _ fun t ht => tidy_preamble ht, map_text_headingObjs]
  rfl

variable {config : PageIndexConfig} {obj : NodeObj}

theorem tidy_of_mem_documentNodes (h : obj ∈ documentNodes content config) :
    ∃ t, obj.text = some t ∧ Tidy t := by
  have hmem := List.mem_map_of_mem (f := NodeObj.text) h
  rw [map_text_documentNodes] at hmem
  obtain ⟨t, ht, heq⟩ := List.mem_map.mp hmem
  exact ⟨t, heq.symm, tidy_partTexts ht⟩

theorem texts_documentNodes (content : Text) (config : PageIndexConfig) :
    (documentNodes content config).map (fun node => node.text.getD []) = partTexts content := by
  have htexts := congrArg (List.map fun t => t.getD []) (map_text_documentNodes content config)
  rw [List.map_map, List.map_map] at htexts
  have hid : (fun t : Option Text => t.getD []) ∘ some = id := rfl
  rw [hid, List.map_id] at htexts
  exact htexts

theorem content_documentNodes (h : obj ∈ documentNodes content config) :
    (obj.text.getD []).trim ≠ [] := by
  obtain ⟨t, htext, htidy⟩ := tidy_of_mem_documentNodes h
  rw [htext]
  exact htidy.trim_ne_nil

theorem map_id_headingObjs (content : Text) (config : PageIndexConfig) :
    (headingObjs content config).map NodeObj.id =
      if config.ifAddNodeId then range' contentNodeIdStart (sections content).length
      else List.replicate (sections content).length 0 := by
  rw [headingObjs]
  split
  · rw [map_id_numbered, length_map]
  · rw [List.map_map, eq_replicate_iff]
    refine ⟨by simp, ?_⟩
    intro id hid
    obtain ⟨node, -, rfl⟩ := List.mem_map.mp hid
    rfl

theorem map_id_documentNodes (content : Text) (config : PageIndexConfig) :
    (documentNodes content config).map NodeObj.id =
      (extractSkillPrefix content).frontmatter.toList.map (fun _ => nodeIdFrontmatter) ++
        ((extractSkillPrefix content).preamble.toList.map (fun _ => nodeIdPreamble) ++
          if config.ifAddNodeId then range' contentNodeIdStart (sections content).length
          else List.replicate (sections content).length 0) := by
  simp only [documentNodes, map_append]
  rw [map_prefixNodes _ fun t ht => tidy_frontmatter ht,
    map_prefixNodes _ fun t ht => tidy_preamble ht, map_id_headingObjs]
  rfl

/-- The nodes of the document have ids of their own: without node ids a heading counts as the
frontmatter. -/
def DistinctIds (content : Text) (config : PageIndexConfig) : Prop :=
  config.ifAddNodeId = true ∨
    (extractSkillPrefix content).frontmatter.toList.length + (sections content).length ≤ 1

theorem nodup_ids_iff (content : Text) (config : PageIndexConfig) :
    ((documentNodes content config).map NodeObj.id).Nodup ↔ DistinctIds content config := by
  rw [map_id_documentNodes, DistinctIds]
  generalize (sections content).length = n
  cases config.ifAddNodeId with
  | true =>
    simp only [if_true, true_or, iff_true]
    cases (extractSkillPrefix content).frontmatter <;>
      cases (extractSkillPrefix content).preamble <;>
        simp [nodup_range', nodeIdFrontmatter, nodeIdPreamble, contentNodeIdStart]
  | false =>
    simp only [Bool.false_eq_true, if_false, false_or]
    cases (extractSkillPrefix content).frontmatter <;>
      cases (extractSkillPrefix content).preamble <;>
        simp [nodup_replicate, nodeIdFrontmatter, nodeIdPreamble] <;> omega

theorem chunks_of_mem_documentNodes (h : obj ∈ documentNodes content config) :
    obj.chunks = none := by
  have hprefix : ∀ {kind nodeId text lineNum}, obj ∈ prefixNodes kind nodeId text lineNum →
      obj.chunks = none := by
    intro kind nodeId text lineNum hobj
    rw [prefixNodes, mem_toList, map_eq_some_iff] at hobj
    obtain ⟨t, -, rfl⟩ := hobj
    rfl
  have hnumbered : ∀ {objs : List NodeObj} {start : ℕ}, (∀ o ∈ objs, o.chunks = none) →
      obj ∈ numbered start objs → obj.chunks = none := by
    intro objs
    induction objs with
    | nil => simp [numbered]
    | cons o rest ih =>
      intro start hall hobj
      rcases mem_cons.mp hobj with rfl | hobj
      · exact hall o mem_cons_self
      · exact ih (fun o ho => hall o (mem_cons_of_mem _ ho)) hobj
  have hheadings : ∀ o ∈ (sections content).map headingObj, o.chunks = none := by
    intro o ho
    obtain ⟨node, -, rfl⟩ := List.mem_map.mp ho
    rfl
  simp only [documentNodes, mem_append] at h
  rcases h with h | h | h
  · exact hprefix h
  · exact hprefix h
  · rw [headingObjs] at h
    split at h
    · exact hnumbered hheadings h
    · exact hheadings obj h

open Misc Bm25Cohesion

variable (env : Environment)

section

variable (chunker : Bm25CohesionChunker) (docId pipeline paramsHash : Text)

/-- The chunk files of one node, under ids from `start` on. -/
def chunkWritesOf (obj : NodeObj) (start : ℕ) (chunks : List CohesionChunk) : List (Text × Text) :=
  (chunks.zipIdx start).map fun c =>
    (chunkMdRel pipeline paramsHash c.2, chunkMd docId obj c.2 c.1)

/-- The chunk files of the nodes. -/
def chunkWrites : ℕ → List NodeObj → List (Text × Text)
  | _, [] => []
  | start, obj :: rest =>
    if (obj.text.getD []).trim = [] then chunkWrites start rest
    else
      let chunks := nodeChunks env chunker (obj.text.getD [])
      chunkWritesOf docId pipeline paramsHash obj start chunks ++
        chunkWrites (start + chunks.length) rest

/-- The number of chunks of the nodes. -/
def chunkCount : List NodeObj → ℕ
  | [] => 0
  | obj :: rest =>
    if (obj.text.getD []).trim = [] then chunkCount rest
    else (nodeChunks env chunker (obj.text.getD [])).length + chunkCount rest

/-- The structure with the chunk references of the nodes. -/
def attachTree : ℕ → Structure → List NodeObj → Structure
  | _, tree, [] => tree
  | start, tree, obj :: rest =>
    if (obj.text.getD []).trim = [] then attachTree start tree rest
    else
      let chunks := nodeChunks env chunker (obj.text.getD [])
      attachTree (start + chunks.length)
        (insertChunksOnNode tree obj.id (List.range' start chunks.length)).1 rest

theorem writeChunkFiles_eq (obj : NodeObj) (start : ℕ) (files : Dict Text Text)
    (chunks : List CohesionChunk) :
    writeChunkFiles docId pipeline paramsHash obj start files chunks =
      files.writeAll (chunkWritesOf docId pipeline paramsHash obj start chunks) := by
  induction chunks generalizing start files with
  | nil => rfl
  | cons chunk rest ih =>
    rw [writeChunkFiles, ih, chunkWritesOf, chunkWritesOf, zipIdx_cons, map_cons,
      Dict.writeAll_cons]

theorem foldl_attachNode (state : AttachState) (nodes : List NodeObj) :
    nodes.foldl (attachNode env chunker docId pipeline paramsHash) state =
      ⟨attachTree env chunker state.nextId state.tree nodes,
        state.files.writeAll (chunkWrites env chunker docId pipeline paramsHash state.nextId nodes),
        state.nextId + chunkCount env chunker nodes⟩ := by
  induction nodes generalizing state with
  | nil => rfl
  | cons obj rest ih =>
    rw [foldl_cons, ih, attachNode, attachTree, chunkWrites, chunkCount]
    by_cases hblank : (obj.text.getD []).trim = []
    · simp [hblank]
    · simp [hblank, writeChunkFiles_eq, Dict.writeAll_append, Nat.add_assoc]

theorem keys_chunkWrites (nodes : List NodeObj) :
    (chunkWrites env chunker docId pipeline paramsHash start nodes).map fst =
      (range' start (chunkCount env chunker nodes)).map (chunkMdRel pipeline paramsHash) := by
  induction nodes generalizing start with
  | nil => rfl
  | cons obj rest ih =>
    rw [chunkWrites, chunkCount]
    split
    · exact ih start
    have hids : ∀ chunks : List CohesionChunk,
        (chunkWritesOf docId pipeline paramsHash obj start chunks).map fst =
          (range' start chunks.length).map (chunkMdRel pipeline paramsHash) := by
      intro chunks
      rw [chunkWritesOf, List.map_map]
      have hcomp : (chunks.zipIdx start).map (fst ∘ fun c =>
          (chunkMdRel pipeline paramsHash c.2, chunkMd docId obj c.2 c.1)) =
            ((chunks.zipIdx start).map snd).map (chunkMdRel pipeline paramsHash) := by
        rw [List.map_map]
        rfl
      rw [hcomp, zipIdx_map_snd]
    rw [map_append, hids, ih, ← map_append, range'_append_1]

theorem map_attachTree {β : Type} (g : NodeObj → β)
    (hg : ∀ (obj : NodeObj) (refs : List ℕ), g { obj with chunks := some refs } = g obj)
    (start : ℕ) (tree : Structure) (nodes : List NodeObj) :
    (attachTree env chunker start tree nodes).preorder.map g = tree.preorder.map g := by
  induction nodes generalizing start tree with
  | nil => rfl
  | cons obj rest ih =>
    rw [attachTree]
    split
    · exact ih start tree
    · simp only
      rw [ih, insertChunksOnNode, (Forest.updateFirst_spec _ _ tree).1,
        Forest.map_updateFirstIn g fun obj => hg obj _]

end

/-- The chunks of a variant, on a structure without chunks. -/
def attachOutput (flat : Structure) (config : PageIndexConfig) (docId : Text) :
    ChunkVariant → Except String (Structure × List (Text × Text))
  | none => .ok (flat, [])
  | some (pipeline, paramsHash) => do
    let chunker ← Bm25CohesionChunker.new config.cohesionConfigForChunking
    return (attachTree env chunker 0 flat (structureToList flat),
      chunkWrites env chunker docId pipeline paramsHash 0 (structureToList flat))

/-- The node files of a structure. -/
def nodeWrites (config : PageIndexConfig) (docId : Text) (nodes : List NodeObj) :
    List (Text × Text) :=
  nodes.map fun obj => (nodeMdRel obj.id, nodeMd env config docId obj)

def chunkIndexWrites (config : PageIndexConfig) (tree : Structure) :
    ChunkVariant → List (Text × Text)
  | none => []
  | some (pipeline, paramsHash) =>
    [(chunkIndexRel pipeline paramsHash, env.serializeChunkIndex tree pipeline config)]

/-- The document that indexing adds and the files that it writes. -/
def documentOutput (path docId content : Text) (config : PageIndexConfig)
    (variant : ChunkVariant) : Except String (SkillDocument × List (Text × Text)) := do
  let p := extractSkillPrefix content
  let sourcePath ← env.shortenHomePath path
  let (flat, writes) ← attachOutput env (buildFlatStructure content config) config docId variant
  let doc : SkillDocument :=
    { id := docId
      path := sourcePath
      tree := formatStructureForOutput flat config
      frontmatter := p.frontmatter
      preamble := p.preamble }
  return (doc, writes ++ [(pageIndexRel, env.serializePageIndex doc)] ++
    nodeWrites env config docId (structureToList flat) ++ chunkIndexWrites env config doc.tree variant)

def SkillsIndex.addDocument (index : SkillsIndex) (docId : Text) (variant : ChunkVariant)
    (out : SkillDocument × List (Text × Text)) : SkillsIndex :=
  { documents := index.documents.set docId out.1
    files := index.files.writeAll out.2
    chunkPipeline := (variant.map Prod.fst).or index.chunkPipeline
    chunkParamsHash := (variant.map Prod.snd).or index.chunkParamsHash }

theorem nextChunkId_buildFlatStructure (content : Text) (config : PageIndexConfig) :
    nextChunkId (buildFlatStructure content config) = 0 := by
  have hnil : (documentNodes content config).flatMap (fun obj => obj.chunks.getD []) = [] := by
    rw [flatMap_eq_nil_iff]
    intro obj hobj
    rw [chunks_of_mem_documentNodes hobj]
    rfl
  rw [nextChunkId, structureToList, preorder_buildFlatStructure, hnil]
  rfl

theorem writeNodeMarkdownFiles_eq (index : SkillsIndex) (doc : SkillDocument) (flat : Structure)
    (config : PageIndexConfig) :
    writeNodeMarkdownFiles env index doc flat config =
      { index with
        files := index.files.writeAll (nodeWrites env config doc.id (structureToList flat)) } := by
  rw [writeNodeMarkdownFiles, Dict.writeAll, nodeWrites, foldl_map]

theorem indexSkillMdContent_eq (path docId content : Text) (config : PageIndexConfig)
    (variant : ChunkVariant) {index : SkillsIndex} (hfree : index.documents.contains docId = false) :
    indexSkillMdContent env path docId content config variant index =
      (documentOutput env path docId content config variant).map
        (index.addDocument docId variant) := by
  simp only [indexSkillMdContent, documentOutput]
  cases hpath : env.shortenHomePath path with
  | error e => rfl
  | ok sourcePath =>
    cases variant with
    | none =>
      simp [hfree, attachVariant, attachOutput, decomposeVariant, decomposePageIndex,
        writeNodeMarkdownFiles_eq, chunkIndexWrites, SkillsIndex.addDocument, Except.map,
        bind, Except.bind, pure, Except.pure]
    | some v =>
      obtain ⟨pipeline, paramsHash⟩ := v
      cases hnew : Bm25CohesionChunker.new config.cohesionConfigForChunking with
      | error e =>
        simp [hfree, attachVariant, attachOutput, attachChunksToStructure, hnew, Except.map,
          bind, Except.bind]
      | ok chunker =>
        simp [hfree, attachVariant, attachOutput, attachChunksToStructure, hnew, foldl_attachNode,
          nextChunkId_buildFlatStructure, decomposeVariant, decomposeChunkVariant,
          decomposePageIndex, writeNodeMarkdownFiles_eq, chunkIndexWrites, SkillsIndex.addDocument,
          Dict.writeAll_append, Except.map, bind, Except.bind, pure, Except.pure]

theorem exists_output_of_indexed {path docId content : Text} {config : PageIndexConfig}
    {variant : ChunkVariant} {index index' : SkillsIndex}
    (hfree : index.documents.contains docId = false)
    (h : indexSkillMdContent env path docId content config variant index = .ok index') :
    ∃ out, documentOutput env path docId content config variant = .ok out ∧
      index.addDocument docId variant out = index' := by
  rw [indexSkillMdContent_eq env _ _ _ _ _ hfree] at h
  cases hout : documentOutput env path docId content config variant with
  | error e =>
    rw [hout] at h
    cases h
  | ok out =>
    rw [hout] at h
    exact ⟨out, rfl, Except.ok.inj h⟩

section

variable (config : PageIndexConfig) (variant : ChunkVariant)

variable {path docId content : Text} {out : SkillDocument × List (Text × Text)}

theorem documentOutput_ok (h : documentOutput env path docId content config variant = .ok out) :
    ∃ sourcePath flat writes, env.shortenHomePath path = .ok sourcePath ∧
      attachOutput env (buildFlatStructure content config) config docId variant =
        .ok (flat, writes) ∧
      out.1 = ⟨docId, sourcePath, formatStructureForOutput flat config,
        (extractSkillPrefix content).frontmatter, (extractSkillPrefix content).preamble⟩ ∧
      out.2 = writes ++ [(pageIndexRel, env.serializePageIndex out.1)] ++
        nodeWrites env config docId (structureToList flat) ++
          chunkIndexWrites env config out.1.tree variant := by
  simp only [documentOutput] at h
  cases hpath : env.shortenHomePath path with
  | error e => simp [hpath, bind, Except.bind] at h
  | ok sourcePath =>
    cases hattach : attachOutput env (buildFlatStructure content config) config docId variant with
    | error e => simp [hpath, hattach, bind, Except.bind] at h
    | ok r =>
      obtain ⟨flat, writes⟩ := r
      simp only [hpath, hattach, bind, Except.bind, pure, Except.pure, Except.ok.injEq] at h
      subst h
      exact ⟨sourcePath, flat, writes, rfl, rfl, rfl, rfl⟩

theorem config_of_new {settings : Bm25CohesionConfig} {chunker : Bm25CohesionChunker}
    (h : Bm25CohesionChunker.new settings = .ok chunker) : chunker.config = settings := by
  simp only [Bm25CohesionChunker.new] at h
  split at h
  · cases h
    rfl
  · cases h

theorem attachOutput_ok {flat : Structure} {writes : List (Text × Text)}
    (h : attachOutput env (buildFlatStructure content config) config docId variant =
      .ok (flat, writes)) :
    (variant = none ∧ flat = buildFlatStructure content config ∧ writes = []) ∨
      ∃ pipeline paramsHash chunker, variant = some (pipeline, paramsHash) ∧
        chunker.config = config.cohesionConfigForChunking ∧
        flat = attachTree env chunker 0 (buildFlatStructure content config)
          (documentNodes content config) ∧
        writes = chunkWrites env chunker docId pipeline paramsHash 0
          (documentNodes content config) := by
  cases variant with
  | none =>
    simp only [attachOutput, Except.ok.injEq, Prod.mk.injEq] at h
    exact .inl ⟨rfl, h.1.symm, h.2.symm⟩
  | some v =>
    obtain ⟨pipeline, paramsHash⟩ := v
    simp only [attachOutput, structureToList, preorder_buildFlatStructure] at h
    cases hnew : Bm25CohesionChunker.new config.cohesionConfigForChunking with
    | error e => simp [hnew, bind, Except.bind] at h
    | ok chunker =>
      have hconfig := config_of_new hnew
      simp only [hnew, bind, Except.bind, pure, Except.pure, Except.ok.injEq, Prod.mk.injEq] at h
      exact .inr ⟨pipeline, paramsHash, chunker, rfl, hconfig, h.1.symm, h.2.symm⟩

theorem nodeMdRel_notMem_attachOutput {flat : Structure} {writes : List (Text × Text)}
    (h : attachOutput env (buildFlatStructure content config) config docId variant =
      .ok (flat, writes)) (id : ℕ) : nodeMdRel id ∉ writes.map fst := by
  rcases attachOutput_ok env config variant h with
    ⟨-, -, rfl⟩ | ⟨pipeline, paramsHash, chunker, -, -, -, rfl⟩
  · simp
  · rw [keys_chunkWrites]
    intro hmem
    obtain ⟨chunkId, -, heq⟩ := List.mem_map.mp hmem
    exact nodeMdRel_ne_chunkMdRel id pipeline paramsHash chunkId heq.symm

theorem nodeMdRel_notMem_chunkIndexWrites (tree : Structure) (id : ℕ) :
    nodeMdRel id ∉ (chunkIndexWrites env config tree variant).map fst := by
  cases variant with
  | none => simp [chunkIndexWrites]
  | some v => simpa [chunkIndexWrites] using nodeMdRel_ne_chunkIndexRel id v.1 v.2

theorem nodeMdRel_mem_writes (h : documentOutput env path docId content config variant = .ok out)
    (id : ℕ) :
    nodeMdRel id ∈ out.2.map fst ↔ id ∈ (documentNodes content config).map NodeObj.id := by
  obtain ⟨sourcePath, flat, writes, -, hattach, -, hwrites⟩ := documentOutput_ok env config variant h
  have hflat : (structureToList flat).map NodeObj.id =
      (documentNodes content config).map NodeObj.id := by
    rcases attachOutput_ok env config variant hattach with ⟨-, rfl, -⟩ | ⟨_, _, chunker, -, -, rfl, -⟩
    · rw [structureToList, preorder_buildFlatStructure]
    · rw [structureToList, map_attachTree env chunker NodeObj.id (fun _ _ => rfl),
        preorder_buildFlatStructure]
  have hchunks := nodeMdRel_notMem_attachOutput env config variant hattach id
  have hindex := nodeMdRel_notMem_chunkIndexWrites env config variant out.1.tree id
  have hnodes : nodeMdRel id ∈ (nodeWrites env config docId (structureToList flat)).map fst ↔
      id ∈ (structureToList flat).map NodeObj.id := by
    rw [nodeWrites, List.map_map, List.mem_map, List.mem_map]
    constructor
    · rintro ⟨obj, hobj, heq⟩
      exact ⟨obj, hobj, nodeMdRel_injective heq⟩
    · rintro ⟨obj, hobj, rfl⟩
      exact ⟨obj, hobj, rfl⟩
  rw [hwrites, map_append, map_append, map_append, mem_append,
    mem_append, mem_append, hnodes, hflat]
  simp only [hchunks, hindex, nodeMdRel_ne_pageIndexRel id, map_cons, map_nil,
    mem_singleton, false_or, or_false]

/-- The names of the chunk files are numbered from zero. -/
theorem chunkMdRel_mem_writes {pipeline paramsHash : Text}
    (h : documentOutput env path docId content config (some (pipeline, paramsHash)) = .ok out) :
    ∃ chunker : Bm25CohesionChunker, chunker.config = config.cohesionConfigForChunking ∧
      ∀ id, chunkMdRel pipeline paramsHash id ∈ out.2.map fst ↔
        id < chunkCount env chunker (documentNodes content config) := by
  obtain ⟨sourcePath, flat, writes, -, hattach, -, hwrites⟩ := documentOutput_ok env config _ h
  rcases attachOutput_ok env config _ hattach with
    ⟨hnone, -, -⟩ | ⟨pipeline', paramsHash', chunker, hvariant, hconfig, -, rfl⟩
  · cases hnone
  cases hvariant
  refine ⟨chunker, hconfig, ?_⟩
  intro id
  have hnodes : chunkMdRel pipeline paramsHash id ∉
      (nodeWrites env config docId (structureToList flat)).map fst := by
    rw [nodeWrites, List.map_map]
    intro hmem
    obtain ⟨obj, -, heq⟩ := List.mem_map.mp hmem
    exact nodeMdRel_ne_chunkMdRel obj.id pipeline paramsHash id heq
  have hchunks : chunkMdRel pipeline paramsHash id ∈
      (range' 0 (chunkCount env chunker (documentNodes content config))).map
        (chunkMdRel pipeline paramsHash) ↔
      id < chunkCount env chunker (documentNodes content config) := by
    rw [List.mem_map]
    constructor
    · rintro ⟨j, hj, heq⟩
      rw [← chunkMdRel_injective heq]
      simpa using hj
    · intro hlt
      exact ⟨id, by simpa using hlt, rfl⟩
  rw [hwrites, map_append, map_append, map_append, mem_append,
    mem_append, mem_append, keys_chunkWrites, hchunks]
  simp only [chunkIndexWrites, hnodes, chunkMdRel_ne_pageIndexRel,
    chunkMdRel_ne_chunkIndexRel, map_cons, map_nil, mem_singleton, or_false]

end

end ClearYourTools.PageIndex
