import ClearYourTools.PageIndex.Build
import ClearYourTools.PageIndex.Retrieve

/-!
# The files of an entry

`pageindex/document_json.rs`, the disk functions of `pageindex/build.rs`, and `skills_io.rs`: the
directory of a skill entry holds the page index of a document, its node files, and for each chunk
variant an index and the chunk files.
-/

namespace ClearYourTools.PageIndex

open Misc

/-- The files of an entry by their paths relative to its directory. -/
abbrev EntryFiles := Dict Text Text

def stripChunksFromStructure (tree : Structure) : Structure :=
  tree.map fun obj => { obj with chunks := none }

/-- What reading an entry calls: `serde_json` on the two index files, which reads what it has
written, and the texts of its errors and those of the file system. -/
structure EntryEnvironment extends Environment where
  readPageIndex : Text → Option SkillDocument
  readChunkIndex : Text → Option Structure
  readError : Text → String
  read_serializePageIndex : ∀ doc, readPageIndex (serializePageIndex doc) =
    some { doc with tree := stripChunksFromStructure doc.tree }
  read_serializeChunkIndex : ∀ tree pipeline config,
    readChunkIndex (serializeChunkIndex tree pipeline config) = some tree

instance : Coe EntryEnvironment Environment := ⟨EntryEnvironment.toEnvironment⟩

/-- `Path::join` with one more part. -/
def joinPath (dir name : Text) : Text :=
  if dir = [] ∨ dir.getLast? = some '/' then dir ++ name else dir ++ '/' :: name

/-- The part of a path behind the last slash. -/
def fileName (path : Text) : Text := (path.reverse.takeWhile (· != '/')).reverse

def skillEntryDir (catalogRoot contentHash : Text) : Text := joinPath catalogRoot contentHash

def nodesDir (entryDir : Text) : Text := joinPath entryDir "nodes"

def entryHashMatches (entryDir contentSha256 : Text) : Bool :=
  contentSha256 == [] || fileName entryDir == contentSha256

variable (env : EntryEnvironment)

/-- `page_index.json` of the entry. -/
def readPage (files : EntryFiles) : Option SkillDocument :=
  (files.get? pageIndexRel).bind env.readPageIndex

def loadMergedDocumentFromEntry (entryDir : Text) (files : EntryFiles) (variant : ChunkVariant) :
    Except String SkillDocument :=
  match readPage env files with
  | none =>
    .error ("page_index.json not readable at " ++ String.ofList (nodesDir entryDir) ++ ": " ++
      env.readError (joinPath (nodesDir entryDir) "page_index.json"))
  | some page =>
    match variant with
    | none => .ok page
    | some (pipeline, paramsHash) =>
      match files.get? (chunkIndexRel pipeline paramsHash) with
      | none => .ok page
      | some raw =>
        match env.readChunkIndex raw with
        | none =>
          .error (env.readError (joinPath entryDir (chunkIndexRel pipeline paramsHash)))
        | some tree => .ok { page with tree := tree }

def pageIndexFilesComplete (files : EntryFiles) (tree : Structure) : Bool :=
  (structureToList tree).all fun obj => obj.nodeId.all fun id => files.contains (nodeMdRel id)

def pageIndexValid (entryDir contentSha256 : Text) (files : EntryFiles) : Bool :=
  entryHashMatches entryDir contentSha256 &&
    (readPage env files).any fun page => pageIndexFilesComplete files page.tree

def chunkVariantFilesComplete (files : EntryFiles) (pipeline paramsHash : Text)
    (tree : Structure) : Bool :=
  files.contains (chunkIndexRel pipeline paramsHash) &&
    (structureToList tree).all fun obj =>
      (obj.chunks.getD []).all fun id => files.contains (chunkMdRel pipeline paramsHash id)

def chunkVariantValid (entryDir : Text) (files : EntryFiles) (pipeline paramsHash docId : Text) :
    Bool :=
  match loadMergedDocumentFromEntry env entryDir files (some (pipeline, paramsHash)) with
  | .error _ => false
  | .ok doc => doc.id == docId && chunkVariantFilesComplete files pipeline paramsHash doc.tree

/-- Whether a file stands in a directory itself. -/
def inDir (dir rel : Text) : Bool := dir.isPrefixOf rel && !(rel.drop dir.length).contains '/'

/-- Whether `load_entry_files_into_index` reads a file: node files, and those of the variant or, if
there is none, of every variant. -/
def loadsFile (variant : ChunkVariant) (rel : Text) : Bool :=
  inDir "nodes/" rel ||
    match variant with
    | some (pipeline, paramsHash) => inDir (chunkVariantRel pipeline paramsHash) rel
    | none => "chunks/".toList.isPrefixOf rel && (rel.drop "chunks/".length).count '/' == 2

/-- `load_skills_index_from_entry_impl`. -/
def loadSkillsIndexFromDisk (entryDir : Text) (files : EntryFiles) (docId : Text)
    (variant : ChunkVariant) : Except String SkillsIndex :=
  match loadMergedDocumentFromEntry env entryDir files variant with
  | .error e => .error e
  | .ok doc =>
    .ok
      { documents := Dict.empty.set docId doc
        files := files.filter fun rel _ => loadsFile variant rel
        chunkPipeline := variant.map Prod.fst
        chunkParamsHash := variant.map Prod.snd }

def writeSelectedFiles (index : SkillsIndex) (files : EntryFiles) (isIncluded : Text → Bool) :
    EntryFiles :=
  files.writeAll (index.files.entries.filter fun file => isIncluded file.1)

/-- `skill document not found`. -/
def documentNotFound (docId : Text) : String := "skill document not found: " ++ String.ofList docId

def writePageIndexEntry (index : SkillsIndex) (docId : Text) (files : EntryFiles) :
    Except String EntryFiles :=
  match index.documents.get? docId with
  | none => .error (documentNotFound docId)
  | some doc =>
    .ok (writeSelectedFiles index (files.set pageIndexRel (env.serializePageIndex doc))
      (Text.startsWith "nodes/"))

def writeChunkVariantFiles (index : SkillsIndex) (files : EntryFiles) (pipeline paramsHash : Text) :
    EntryFiles :=
  writeSelectedFiles index files
    (Text.startsWith ("chunks/" ++ normalizePipeline pipeline ++ '/' :: paramsHash))

/-- `populate_structure_text_from_node_files`. -/
def populateStructureText (indexFiles : EntryFiles) (tree : Structure) : Structure :=
  tree.map fun obj =>
    match obj.nodeId.bind fun id => indexFiles.get? (nodeMdRel id) with
    | none => obj
    | some raw =>
      let text := stripDecomposedFrontmatter raw
      if text = [] then obj else { obj with text := some text }

/-- `build_chunk_variant`, from the page index that it loads. -/
def buildChunkVariant (index : SkillsIndex) (docId pipeline paramsHash : Text)
    (config : PageIndexConfig) : Except String SkillsIndex :=
  match index.documents.get? docId with
  | none => .error (documentNotFound docId)
  | some doc =>
    match attachChunksToStructure env (populateStructureText index.files doc.tree)
      config index docId pipeline paramsHash with
    | .error e => .error e
    | .ok (tree, index) =>
      .ok (decomposeChunkVariant env
        { index with documents := index.documents.set docId { doc with tree := tree } }
        tree pipeline paramsHash config)

/-! ## Repair of missing chunks: `pageindex/skills_repair.rs` -/

open Misc Bm25Cohesion

/-- A JSON value where an id is expected: a number that `as_u64` reads, a string, or another
value. -/
inductive StoredId
  | num (n : ℕ)
  | str (t : Text)
  | other
deriving DecidableEq

/-- An item of `chunks`: an object with the value of its `chunk_id`, if it has one, or another
value. -/
inductive StoredChunk
  | obj (chunkId : Option StoredId)
  | other
deriving DecidableEq

/-- The fields of a stored node that the repair reads. `text` is there if it is a string, and
`chunks` if it is an array. -/
structure StoredNode where
  nodeId : Option StoredId
  lineNum : ℕ
  text : Option Text
  chunks : Option (List StoredChunk)
deriving DecidableEq

abbrev StoredStructure := Forest StoredNode

/-- `u32::try_from(n).ok()`. -/
def asU32 (n : ℕ) : Option ℕ := if n < 4294967296 then some n else none

/-- `node_id_from_value`. -/
def storedNodeId (value : Option StoredId) : ℕ :=
  match value with
  | some (.num n) => (asU32 n).getD 0
  | some (.str s) => (parseU32 s.trim).getD 0
  | _ => 0

def chunkIdFromValue (value : Option StoredId) : ℕ :=
  match value with
  | some (.num n) => (asU32 n).getD 0
  | some (.str s) => (parseU32 s).getD 0
  | _ => 0

namespace StoredNode

def id (node : StoredNode) : ℕ := storedNodeId node.nodeId

/-- The text, which is empty where there is none. -/
def body (node : StoredNode) : Text := node.text.getD []

/-- The chunk ids of the objects among the chunks. -/
def chunkIds (node : StoredNode) : List ℕ :=
  (node.chunks.getD []).filterMap fun chunk =>
    match chunk with
    | .obj value => some (chunkIdFromValue value)
    | .other => none

/-- `map.insert("chunks", ...)`. -/
def withChunks (node : StoredNode) (chunks : List StoredChunk) : StoredNode :=
  { node with chunks := some chunks }

end StoredNode

def storedChunkIds (tree : StoredStructure) : List ℕ := tree.preorder.flatMap StoredNode.chunkIds

/-- `u32::saturating_add(1)`. -/
def saturatingNext (n : ℕ) : ℕ := if n < 4294967295 then n + 1 else 4294967295

def nextStoredChunkId (tree : StoredStructure) : ℕ :=
  if storedChunkIds tree = [] then 0 else saturatingNext ((storedChunkIds tree).foldl max 0)

/-- `insert_chunks_on_node` of a stored structure. -/
def insertStoredChunks (tree : StoredStructure) (targetNodeId : ℕ) (chunks : List StoredChunk) :
    StoredStructure :=
  (tree.updateFirst (fun node => node.id == targetNodeId) fun node => node.withChunks chunks).1

section

variable (env : Environment) (chunker : Bm25CohesionChunker) (docId pipeline paramsHash : Text)

/-- The id that a chunk is looked up by, and whether `chunk_file_exists`. -/
def chunkFileExists (disk : EntryFiles) (chunk : StoredChunk) : Bool :=
  match chunk with
  | .obj (some (.num n)) => decide (n < 4294967296) && disk.contains (chunkMdRel pipeline paramsHash n)
  | _ => false

def allExist (disk : EntryFiles) (node : StoredNode) : Bool :=
  match node.chunks with
  | none => false
  | some chunks => !chunks.isEmpty && chunks.all (chunkFileExists pipeline paramsHash disk)

/-- The chunks of a text, or one with all of it. -/
def repairChunks (text : Text) : List CohesionChunk := nodeChunks env chunker text

/-- The markdown of a chunk file. -/
def repairMd (node : StoredNode) (chunkId : ℕ) (chunk : CohesionChunk) : Text :=
  decomposedMd docId [("node_id", node.id), ("chunk_id", chunkId), ("line_num", node.lineNum),
    ("token_count", chunk.tokenCount)] chunk.text

structure RepairState where
  tree : StoredStructure
  files : Dict Text Text
  disk : EntryFiles
  nextId : ℕ
  changed : Bool

/-- `next_id += 1`. -/
def nextU32 (n : ℕ) : ℕ := (n + 1) % 4294967296

/-- The loop over the chunks of a node: the refs, and the files and their texts. -/
def writeChunks (node : StoredNode) : ℕ → List CohesionChunk → List ℕ × List (Text × Text)
  | _, [] => ([], [])
  | chunkId, chunk :: rest =>
    (chunkId :: (writeChunks node (nextU32 chunkId) rest).1,
      (chunkMdRel pipeline paramsHash chunkId, repairMd docId node chunkId chunk) ::
        (writeChunks node (nextU32 chunkId) rest).2)

/-- `json!({ "chunk_id": chunk_id })`. -/
def chunkRef (chunkId : ℕ) : StoredChunk := .obj (some (.num chunkId))

/-- The body of the loop for a node that is to be chunked. -/
def rechunkNode (state : RepairState) (node : StoredNode) : RepairState :=
  let chunks := repairChunks env chunker node.body
  let written := writeChunks docId pipeline paramsHash node state.nextId chunks
  { tree := insertStoredChunks state.tree node.id (written.1.map chunkRef)
    files := state.files.writeAll written.2
    disk := state.disk.writeAll written.2
    nextId := chunks.foldl (fun nextId _ => nextU32 nextId) state.nextId
    changed := true }

/-- The node has a text and not all of its chunks. -/
def isDamaged (disk : EntryFiles) (node : StoredNode) : Bool :=
  node.body.trim != [] && !allExist pipeline paramsHash disk node

/-- The body of the loop of `attach_missing_chunks_to_structure`. -/
def repairNode (state : RepairState) (node : StoredNode) : RepairState :=
  if isDamaged pipeline paramsHash state.disk node then
    rechunkNode env chunker docId pipeline paramsHash state node
  else state

/-- The loop of `attach_missing_chunks_to_structure`. -/
def repairStructure (tree : StoredStructure) (files : Dict Text Text) (disk : EntryFiles) :
    RepairState :=
  tree.preorder.foldl (repairNode env chunker docId pipeline paramsHash)
    ⟨tree, files, disk, nextStoredChunkId tree, false⟩

end

/-- `attach_missing_chunks_to_structure`, on an entry whose files can be written. -/
def attachMissingChunksToStructure (env : Environment) (tree : StoredStructure)
    (config : PageIndexConfig) (index : SkillsIndex) (disk : EntryFiles)
    (docId pipeline paramsHash : Text) :
    Except String (Bool × StoredStructure × SkillsIndex × EntryFiles) := do
  let chunker ← Bm25CohesionChunker.new config.cohesionConfigForChunking
  let state := repairStructure env chunker docId pipeline paramsHash tree index.files disk
  return (state.changed, state.tree,
    { index with
      files := state.files
      chunkPipeline := some pipeline
      chunkParamsHash := some paramsHash }, state.disk)

end ClearYourTools.PageIndex
