import ClearYourTools.PageIndex.Tree

/-!
# Building an index

`pageindex/build.rs`: each skill file in the order of the directory walk becomes a document
of the index, unless its id is taken.
-/

/-! ## Node and chunk files: `pageindex/decompose.rs` -/

namespace ClearYourTools.PageIndex

open Misc Bm25Cohesion

/-- The text that the two `format!` calls write: `doc_id`, the numbered fields, and the body. -/
def decomposedMd (docId : Text) (fields : List (String × ℕ)) (body : Text) : Text :=
  "---\ndoc_id: ".toList ++ docId ++
    (fields.flatMap fun f => '\n' :: f.1.toList ++ ": ".toList ++ Text.ofNat f.2) ++
      "\n---\n" ++ body

def nextChunkId (tree : Structure) : ℕ :=
  let ids := (structureToList tree).flatMap fun obj => obj.chunks.getD []
  if ids = [] then 0 else ids.foldl max 0 + 1

def insertChunksOnNode (tree : Structure) (targetNodeId : ℕ) (chunks : List ℕ) : Structure × Bool :=
  tree.updateFirst (fun obj => obj.id == targetNodeId) fun obj => { obj with chunks := some chunks }

variable (env : Environment)

/-- The chunks of a node's text: those of the chunker, or one with the whole text. -/
def nodeChunks (chunker : Bm25CohesionChunker) (text : Text) : List CohesionChunk :=
  let chunks := chunker.chunk env.cohesion text
  if chunks = [] then [⟨text, 0, utf8Len text, 1⟩] else chunks

/-- The markdown of a chunk file. -/
def chunkMd (docId : Text) (obj : NodeObj) (chunkId : ℕ) (chunk : CohesionChunk) : Text :=
  decomposedMd docId [("node_id", obj.id), ("chunk_id", chunkId), ("line_num", obj.lineNum),
    ("token_count", chunk.tokenCount)] chunk.text

/-- The inner loop of `attach_chunks_to_structure`: a file for each chunk, under ids from
`chunkId` on. -/
def writeChunkFiles (docId pipeline paramsHash : Text) (obj : NodeObj) :
    ℕ → Dict Text Text → List CohesionChunk → Dict Text Text
  | _, files, [] => files
  | chunkId, files, chunk :: rest =>
    writeChunkFiles docId pipeline paramsHash obj (chunkId + 1)
      (files.set (chunkMdRel pipeline paramsHash chunkId) (chunkMd docId obj chunkId chunk)) rest

structure AttachState where
  tree : Structure
  files : Dict Text Text
  nextId : ℕ

/-- The body of the loop of `attach_chunks_to_structure`. -/
def attachNode (chunker : Bm25CohesionChunker) (docId pipeline paramsHash : Text)
    (state : AttachState) (obj : NodeObj) : AttachState :=
  let text := obj.text.getD []
  if text.trim = [] then state
  else
    let chunks := nodeChunks env chunker text
    let chunkRefs := List.range' state.nextId chunks.length
    { tree := (insertChunksOnNode state.tree obj.id chunkRefs).1
      files := writeChunkFiles docId pipeline paramsHash obj state.nextId state.files chunks
      nextId := state.nextId + chunks.length }

def attachChunksToStructure (tree : Structure) (config : PageIndexConfig) (index : SkillsIndex)
    (docId pipeline paramsHash : Text) :
    Except String (Structure × SkillsIndex) := do
  let chunker ← Bm25CohesionChunker.new config.cohesionConfigForChunking
  let state := (structureToList tree).foldl (attachNode env chunker docId pipeline paramsHash)
    ⟨tree, index.files, nextChunkId tree⟩
  return (state.tree,
    { index with
      files := state.files
      chunkPipeline := some pipeline
      chunkParamsHash := some paramsHash })

def nodeBody (obj : NodeObj) : Text :=
  let text := obj.text.getD []
  if obj.isFrontmatterNode || obj.isPreambleNode then text
  else if text = [] then "# " ++ obj.title.getD [] ++ ['\n']
  else text

/-- The markdown of a node file. -/
def nodeMd (config : PageIndexConfig) (docId : Text) (obj : NodeObj) : Text :=
  decomposedMd docId [("node_id", obj.id), ("line_num", obj.lineNum),
    ("token_count", env.count config (nodeBody obj))] (nodeBody obj)

def writeNodeMarkdownFiles (index : SkillsIndex) (doc : SkillDocument) (flatStructure : Structure)
    (config : PageIndexConfig) : SkillsIndex :=
  { index with
    files := (structureToList flatStructure).foldl
      (fun files obj => files.set (nodeMdRel obj.id) (nodeMd env config doc.id obj)) index.files }

def decomposePageIndex (index : SkillsIndex) (doc : SkillDocument) (flatStructure : Structure)
    (config : PageIndexConfig) : SkillsIndex :=
  writeNodeMarkdownFiles env
    { index with files := index.files.set pageIndexRel (env.serializePageIndex doc) }
    doc flatStructure config

def decomposeChunkVariant (index : SkillsIndex) (tree : Structure) (pipeline paramsHash : Text)
    (config : PageIndexConfig) : SkillsIndex :=
  { index with
    files := index.files.set (chunkIndexRel pipeline paramsHash)
      (env.serializeChunkIndex tree pipeline config) }

open Misc

def buildFlatStructure (markdownContent : Text) (config : PageIndexConfig) : Structure :=
  let p := extractSkillPrefix markdownContent
  let (nodeList, markdownLines) := extractNodesFromMarkdown markdownContent
  let nodesWithContent := extractNodeTextContent nodeList markdownLines
  let tree := buildTreeFromNodes nodesWithContent
  finalizeSkillStructure tree p.frontmatter p.frontmatterLineNum p.preamble p.preambleLineNum
    config

/-- The chunk variant that an index is built with, if any: pipeline and parameter hash. -/
abbrev ChunkVariant := Option (Text × Text)

/-- `attach_chunks_to_structure` when chunks are included. -/
def attachVariant (flat : Structure) (config : PageIndexConfig) (index : SkillsIndex) (docId : Text) :
    ChunkVariant → Except String (Structure × SkillsIndex)
  | none => .ok (flat, index)
  | some (pipeline, paramsHash) =>
    attachChunksToStructure env flat config index docId pipeline paramsHash

/-- `decompose_chunk_variant` when chunks are included. -/
def decomposeVariant (index : SkillsIndex) (tree : Structure) (config : PageIndexConfig) :
    ChunkVariant → SkillsIndex
  | none => index
  | some (pipeline, paramsHash) => decomposeChunkVariant env index tree pipeline paramsHash config

def indexSkillMdContent (path docId content : Text) (config : PageIndexConfig)
    (variant : ChunkVariant) (index : SkillsIndex) : Except String SkillsIndex := do
  let p := extractSkillPrefix content
  let sourcePath ← env.shortenHomePath path
  if index.documents.contains docId then return index
  let (flat, index) ←
    attachVariant env (buildFlatStructure content config) config index docId variant
  let doc : SkillDocument :=
    { id := docId
      path := sourcePath
      tree := formatStructureForOutput flat config
      frontmatter := p.frontmatter
      preamble := p.preamble }
  let index := decomposePageIndex env index doc flat config
  let index := decomposeVariant env index doc.tree config variant
  return { index with documents := index.documents.set docId doc }

def buildIndexForContent (path docId content : Text) (config : PageIndexConfig)
    (variant : ChunkVariant) : Except String SkillsIndex :=
  indexSkillMdContent env path docId content config variant .default

/-- A skill file that the directory walk finds, with its path relative to the walked root. -/
structure SkillFile where
  path : Text
  relPath : Text
  content : Text

/-- `doc_id_from_rel_path` of the file. -/
def SkillFile.docId (file : SkillFile) : Text := docIdFromRelPath file.relPath

/-- The body of the loop of `walk_skill_md_files`. -/
def walkSkillFile (config : PageIndexConfig) (variant : ChunkVariant) (index : SkillsIndex)
    (file : SkillFile) : Except String SkillsIndex :=
  if index.documents.contains file.docId then .ok index
  else indexSkillMdContent env file.path file.docId file.content config variant index

/-- The chunk variant of a build. Without names for pipeline and parameters the chunks go
under `bm25` and `default`. -/
def requestedVariant (includeChunks : Bool) (chunkPipeline chunkParamsHash : Option Text) :
    ChunkVariant :=
  if includeChunks then
    some (chunkPipeline.getD "bm25", chunkParamsHash.getD "default")
  else none

/-- `build_skills_index_with_options` on the files of its directories, in the order of the
walk. -/
def buildSkillsIndexWithOptions (files : List SkillFile) (config : PageIndexConfig)
    (includeChunks : Bool) (chunkPipeline chunkParamsHash : Option Text) :
    Except String SkillsIndex :=
  files.foldlM
    (walkSkillFile env config (requestedVariant includeChunks chunkPipeline chunkParamsHash))
    .default

end ClearYourTools.PageIndex
