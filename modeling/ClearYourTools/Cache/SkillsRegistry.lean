import Mathlib.Logic.Function.Basic
import ClearYourTools.Misc.Search
import ClearYourTools.PageIndex.EntryFiles

/-!
# The skills registry

`cache/skills_registry.rs`: a call goes through its sources, and gives each of them that is a file
or comes with its content an entry under the catalog root, named by its content hash.
-/

/-! ## Cache policies: `cache/mod.rs`, `cache/manifest.rs` -/

namespace ClearYourTools.Cache

inductive CachePolicy
  | auto
  | forceMemory
  | forceDisk
deriving DecidableEq

inductive CacheStatus
  | hit
  | miss
  | memoryFallback
deriving DecidableEq

/-!
## Skill entries in memory and on disk

What `cache/disk_writer.rs` writes is left out: they are the files that `write_page_index_entry`
writes in the same call.
-/

open Misc PageIndex

/-- The directories of the entries, and the hot caches with the keys that `merged_doc_key` and
`skills_index_key` write with a bar between their parts. -/
structure SkillsCache where
  disk : Text → EntryFiles
  mergedDocuments : Lru (Text × ChunkVariant) SkillDocument
  skillsIndices : Lru (Text × Text × ChunkVariant) SkillsIndex

/-- What a call gives, and the caches after it. -/
abbrev Outcome (α : Type) := Except String α × SkillsCache

/-- The next step of a call, unless there was an error. -/
def Outcome.andThen {α β : Type} (outcome : Outcome α) (next : α → SkillsCache → Outcome β) :
    Outcome β :=
  match outcome with
  | (.error e, cache) => (.error e, cache)
  | (.ok a, cache) => next a cache

namespace SkillsCache

variable (cache : SkillsCache)

/-- Nothing is in the caches. -/
def empty (lruMergedDocuments lruSkillsIndex : ℕ) : SkillsCache :=
  ⟨fun _ => .empty, .new lruMergedDocuments, .new lruSkillsIndex⟩

def resetHotCaches (lruMergedDocuments lruSkillsIndex : ℕ) : SkillsCache :=
  { cache with
    mergedDocuments := .new lruMergedDocuments
    skillsIndices := .new lruSkillsIndex }

def write (entryDir : Text) (files : EntryFiles) : SkillsCache :=
  { cache with disk := Function.update cache.disk entryDir files }

def storeMergedDocument (entryDir : Text) (variant : ChunkVariant) (document : SkillDocument) :
    SkillsCache :=
  { cache with mergedDocuments := cache.mergedDocuments.insert (entryDir, variant) document }

def getMergedDocument (entryDir : Text) (variant : ChunkVariant) :
    Option SkillDocument × SkillsCache :=
  let got := cache.mergedDocuments.get (entryDir, variant)
  (got.1, { cache with mergedDocuments := got.2 })

def storeSkillsIndex (entryDir docId : Text) (variant : ChunkVariant) (index : SkillsIndex) :
    SkillsCache :=
  { cache with skillsIndices := cache.skillsIndices.insert (entryDir, docId, variant) index }

def getSkillsIndex (entryDir docId : Text) (variant : ChunkVariant) :
    Option SkillsIndex × SkillsCache :=
  let got := cache.skillsIndices.get (entryDir, docId, variant)
  (got.1, { cache with skillsIndices := got.2 })

variable (env : EntryEnvironment)

def loadMergedDocumentJson (entryDir : Text) (variant : ChunkVariant) :
    Except String SkillDocument :=
  loadMergedDocumentFromEntry env entryDir (cache.disk entryDir) variant

def loadSkillsIndexFromEntry (entryDir docId : Text) (variant : ChunkVariant) :
    Outcome SkillsIndex :=
  match cache.getSkillsIndex entryDir docId variant with
  | (some cached, cache) => (.ok cached, cache)
  | (none, cache) =>
    match loadSkillsIndexFromDisk env entryDir (cache.disk entryDir) docId variant with
    | .error e => (.error e, cache)
    | .ok index => (.ok index, cache.storeSkillsIndex entryDir docId variant index)

def refreshSkillsIndexCache (entryDir docId : Text) (variant : ChunkVariant) : SkillsCache :=
  match loadSkillsIndexFromDisk env entryDir (cache.disk entryDir) docId variant with
  | .error _ => cache
  | .ok index => cache.storeSkillsIndex entryDir docId variant index

/-- `build_chunk_variant`, with the files that it writes. -/
def buildChunkVariant (entryDir docId pipeline paramsHash : Text) (config : PageIndexConfig) :
    Outcome Unit :=
  (cache.loadSkillsIndexFromEntry env entryDir docId none).andThen fun index cache =>
    match PageIndex.buildChunkVariant env index docId pipeline paramsHash config with
    | .error e => (.error e, cache)
    | .ok index =>
      (.ok (), cache.write entryDir
        (writeChunkVariantFiles index (cache.disk entryDir) pipeline paramsHash))

end SkillsCache

/-! ## Materializing an entry: `cache/materialize.rs`, `cache/skills_registry.rs` -/

/-- What the file system gives of a file: the hash of its bytes, and its text. -/
structure SourceFile where
  hash : Except String Text
  text : Except String Text

/-- What the registry calls: the files, their hash in hexadecimal digits, the home directory, and
lower case beyond ASCII. -/
structure RegistryEnvironment extends EntryEnvironment where
  sourceFile : Text → Option SourceFile
  missingFile : String
  contentHashText : Text → Text
  expandTilde : Text → Text
  toLowercase : Text → Text
  hash_of_text : ∀ path file content, sourceFile path = some file → file.text = .ok content →
    file.hash = .ok (contentHashText content)
  contentHash_digits : ∀ content, contentHashText content ≠ [] ∧
    ∀ c ∈ contentHashText content, c.isAlphanum = true

instance : Coe RegistryEnvironment EntryEnvironment := ⟨RegistryEnvironment.toEntryEnvironment⟩

structure SkillEntryRef where
  entryDir : Text
  docId : Text
  contentSha256 : Text
  bm25ChunkDir : Option Text
  diskBacked : Bool
  cacheStatus : CacheStatus
  sourcePath : Text
  nodesDir : Option Text
  document : Option SkillDocument
  lazyPending : Bool

/-- The parts of a path that `Path::components` goes through. -/
def pathComponents (path : Text) : List Text :=
  (path.splitOn '/').filter fun part => !(part == [] || part == ['.'])

/-- `Path::file_stem`: the last part without what follows its last dot, unless nothing else does. -/
def fileStem (path : Text) : Option Text :=
  match (pathComponents path).getLast? with
  | none => none
  | some name =>
    if name = ".." then none
    else
      match name.reverse.dropWhile (· != '.') with
      | [] => some name
      | _ :: before => some (if before = [] then name else before.reverse)

/-- Whether chunks are asked for. -/
def materializesBm25 (pipeline : Text) : Bool := pipeline.trim.map Char.toLower == "bm25"

/-- The chunk variant of `bm25_chunk_dir`. -/
def bm25Variant (pipeline paramsHash : Text) : ChunkVariant :=
  if materializesBm25 pipeline then some ("bm25", paramsHash) else none

def bm25ChunkDir (entryDir : Text) (variant : ChunkVariant) : Option Text :=
  variant.map fun v => joinPath (joinPath (joinPath entryDir "chunks") "bm25") v.2

def diskOk (policy : CachePolicy) (diskAvailable : Bool) : Bool :=
  policy != .forceMemory && diskAvailable

def extractFrontmatterFromMarkdown (raw : Text) : Option Text :=
  if "---".toList.isPrefixOf raw then
    ((Matcher.literal "\n---").search raw).map fun found => Text.trim (found.1.drop 3)
  else none

/-- The document of `stub_document_from_source`, from the text of the source. -/
def stubDocument (source docId raw : Text) : SkillDocument :=
  ⟨docId, source, .nil, extractFrontmatterFromMarkdown raw, none⟩

namespace RegistryEnvironment

variable (env : RegistryEnvironment)

variable (path : Text)

/-- `doc_id_from_path`, and `doc_id_from_source_path` of `pageindex/build.rs`. -/
def docIdFromPath : Text :=
  env.toLowercase (((fileStem path).getD "skill").flatMap
    fun c => if c = '/' then "__" else [c])

/-- `fs::read_to_string`. -/
def readToString : Except String Text :=
  match env.sourceFile path with
  | none => .error env.missingFile
  | some file => file.text

def fileContentHash : Except String Text :=
  match env.sourceFile path with
  | none => .error env.missingFile
  | some file => file.hash

def buildPageIndexForContent (source content : Text) (config : PageIndexConfig) :
    Except String SkillsIndex :=
  buildIndexForContent env source (env.docIdFromPath source) content config none

end RegistryEnvironment

namespace SkillsCache

variable (cache : SkillsCache) (env : RegistryEnvironment)

def writePageIndexEntry (index : SkillsIndex) (entryDir docId : Text) : Outcome Unit :=
  match PageIndex.writePageIndexEntry env index docId (cache.disk entryDir) with
  | .error e => (.error e, cache)
  | .ok files => (.ok (), cache.write entryDir files)

def chunkVariantValid (entryDir paramsHash docId : Text) : Bool :=
  PageIndex.chunkVariantValid env entryDir (cache.disk entryDir) "bm25"
    paramsHash docId

/-- `ensure_bm25_chunk_variant`, which `materialize_skill_entry` repeats. -/
def ensureBm25ChunkVariant (entryDir docId : Text) (config : PageIndexConfig) :
    ChunkVariant → Outcome Unit
  | none => (.ok (), cache)
  | some (pipeline, paramsHash) =>
    if cache.chunkVariantValid env entryDir paramsHash docId then (.ok (), cache)
    else
      (cache.buildChunkVariant env entryDir docId pipeline paramsHash
        config).andThen fun _ cache =>
          (.ok (), cache.refreshSkillsIndexCache env entryDir docId (some (pipeline, paramsHash)))

end SkillsCache

/-- The arguments of `materialize_skill_entry`, and whether there is a disk. -/
structure MaterializeCall where
  source : Text
  entryDir : Text
  docId : Text
  contentSha256 : Text
  config : PageIndexConfig
  pipeline : Text
  paramsHash : Text
  policy : CachePolicy
  diskAvailable : Bool

namespace MaterializeCall

variable (env : RegistryEnvironment) (call : MaterializeCall)

def variant : ChunkVariant := bm25Variant call.pipeline call.paramsHash

def diskOk : Bool := Cache.diskOk call.policy call.diskAvailable

def materializedRef (document : SkillDocument) (diskBacked : Bool) (status : CacheStatus) :
    SkillEntryRef where
  entryDir := call.entryDir
  docId := call.docId
  contentSha256 := call.contentSha256
  bm25ChunkDir := bm25ChunkDir call.entryDir call.variant
  diskBacked := diskBacked
  cacheStatus := status
  sourcePath := call.source
  nodesDir := if diskBacked then some (nodesDir call.entryDir) else none
  document := some document
  lazyPending := false

/-- The branch of a valid page index. -/
def load (cache : SkillsCache) : Outcome SkillEntryRef :=
  match cache.loadMergedDocumentJson env call.entryDir call.variant with
  | .error e => (.error e, cache)
  | .ok document =>
    let cache := cache.storeMergedDocument call.entryDir call.variant document
    let ref := call.materializedRef document true .hit
    match cache.loadSkillsIndexFromEntry env call.entryDir call.docId call.variant with
    | (.error _, cache) => (.ok ref, cache)
    | (.ok index, cache) =>
      (.ok ref, cache.storeSkillsIndex call.entryDir call.docId call.variant index)

/-- The document after a build: that of the disk, or else the one that was built. -/
def builtDocument (raw : Text) (index : SkillsIndex) (cache : SkillsCache) :
    Except String SkillDocument :=
  if call.diskOk then
    cache.loadMergedDocumentJson env call.entryDir call.variant
  else .ok ((index.documents.get? call.docId).getD (stubDocument call.source call.docId raw))

/-- The branch without a page index, from the text of the source. -/
def build (raw : Text) (cache : SkillsCache) : Outcome SkillEntryRef :=
  match env.buildPageIndexForContent call.source raw call.config with
  | .error e => (.error e, cache)
  | .ok index =>
    (if call.diskOk then cache.writePageIndexEntry env index call.entryDir call.docId
      else (.ok (), cache)).andThen fun _ cache =>
    (cache.ensureBm25ChunkVariant env call.entryDir call.docId call.config call.variant).andThen
      fun _ cache =>
        match call.builtDocument env raw index cache with
        | .error e => (.error e, cache)
        | .ok document =>
          (.ok (call.materializedRef document call.diskOk
            (if call.diskOk then .miss else .memoryFallback)),
            cache.storeMergedDocument call.entryDir call.variant document)

end MaterializeCall

def materializeSkillEntry (env : RegistryEnvironment) (call : MaterializeCall)
    (cache : SkillsCache) : Outcome SkillEntryRef :=
  match cache.getMergedDocument call.entryDir call.variant with
  | (some document, cache) => (.ok (call.materializedRef document true .hit), cache)
  | (none, cache) =>
    if pageIndexValid env call.entryDir call.contentSha256
      (cache.disk call.entryDir) then call.load env cache
    else
      match env.readToString call.source with
      | .error e => (.error e, cache)
      | .ok raw => call.build env raw cache

structure SkillSourceSpec where
  path : Text
  content : Option Text
  contentSha256 : Option Text

/-- The arguments of `ensure_skills_registry_from_specs`, `lazy_registry`, and whether there is a
disk. -/
structure RegistryCall where
  sources : List SkillSourceSpec
  catalogRoot : Text
  config : PageIndexConfig
  pipeline : Text
  paramsHash : Text
  policy : CachePolicy
  diskAvailable : Bool
  lazyRegistry : Bool

/-- The first branch of `content_sha256`. -/
def SkillSourceSpec.givenHash (spec : SkillSourceSpec) : Option Text :=
  spec.contentSha256.filter fun hash => !(hash == [])

namespace RegistryEnvironment

variable (env : RegistryEnvironment)

variable (spec : SkillSourceSpec)

def contentSha256 : Except String Text :=
  match spec.givenHash with
  | some hash => .ok hash
  | none =>
    match spec.content with
    | some content => .ok (env.contentHashText content)
    | none => env.fileContentHash spec.path

/-- The text that an entry is built from. -/
def sourceText : Except String Text :=
  match spec.content with
  | some content => .ok content
  | none => env.readToString spec.path

/-- Whether the loop of `ensure_skills_registry_from_specs` goes on with a source. -/
def isPresent : Bool := spec.content.isSome || (env.sourceFile spec.path).isSome

end RegistryEnvironment

namespace SkillsCache

variable (cache : SkillsCache) (env : RegistryEnvironment)

def loadDocumentCached (entryDir : Text) (variant : ChunkVariant) : Outcome SkillDocument :=
  match cache.getMergedDocument entryDir variant with
  | (some doc, cache) => (.ok doc, cache)
  | (none, cache) =>
    match cache.loadMergedDocumentJson env entryDir variant with
    | .error e => (.error e, cache)
    | .ok document => (.ok document, cache.storeMergedDocument entryDir variant document)

end SkillsCache

namespace RegistryCall

variable (env : RegistryEnvironment) (call : RegistryCall)

def root : Text := env.expandTilde call.catalogRoot

def variant : ChunkVariant := bm25Variant call.pipeline call.paramsHash

def diskOk : Bool := Cache.diskOk call.policy call.diskAvailable

variable (spec : SkillSourceSpec)

/-- The reference at the end of `ensure_one_skill_entry`. -/
def entryRef (contentSha256 : Text) (diskBacked : Bool) (status : CacheStatus)
    (document : Option SkillDocument) (lazyPending : Bool) :
    SkillEntryRef where
  entryDir := skillEntryDir (call.root env) contentSha256
  docId := env.docIdFromPath spec.path
  contentSha256 := contentSha256
  bm25ChunkDir := bm25ChunkDir (skillEntryDir (call.root env) contentSha256) call.variant
  diskBacked := diskBacked
  cacheStatus := status
  sourcePath := spec.path
  nodesDir :=
    if diskBacked then some (nodesDir (skillEntryDir (call.root env) contentSha256)) else none
  document := document
  lazyPending := lazyPending

/-- Whether the chunk variant that a call asks for is not valid. -/
def lacksChunks (cache : SkillsCache) (entryDir docId : Text) : Bool :=
  match call.variant with
  | none => false
  | some (_, paramsHash) => !cache.chunkVariantValid env entryDir paramsHash docId

/-- The branch of `ensure_one_skill_entry` for a valid page index. -/
def hit (contentSha256 : Text) (cache : SkillsCache) : Outcome SkillEntryRef :=
  let entryDir := skillEntryDir (call.root env) contentSha256
  let docId := env.docIdFromPath spec.path
  (cache.loadDocumentCached env entryDir call.variant).andThen fun document cache =>
    if call.lacksChunks env cache entryDir docId then
      (cache.ensureBm25ChunkVariant env entryDir docId call.config call.variant).andThen
        fun _ cache =>
          (.ok (call.entryRef env spec contentSha256 true .miss (some document) false), cache)
    else (.ok (call.entryRef env spec contentSha256 true .hit (some document) false), cache)

/-- The branch of `ensure_one_skill_entry` for a lazy registry. -/
def stub (spec : SkillSourceSpec) (contentSha256 : Text) (cache : SkillsCache) :
    Outcome SkillEntryRef :=
  match env.readToString spec.path with
  | .error e => (.error e, cache)
  | .ok raw =>
    let document := stubDocument spec.path (env.docIdFromPath spec.path) raw
    (.ok (call.entryRef env spec contentSha256 false .memoryFallback (some document) true), cache)

/-- What `ensure_one_skill_entry` does with a built index when there is a disk. -/
def persist (contentSha256 : Text) (index : SkillsIndex) (cache : SkillsCache) :
    Outcome SkillEntryRef :=
  let entryDir := skillEntryDir (call.root env) contentSha256
  let docId := env.docIdFromPath spec.path
  (cache.writePageIndexEntry env index entryDir docId).andThen fun _ cache =>
  ((cache.storeSkillsIndex entryDir docId none index).ensureBm25ChunkVariant env entryDir docId
    call.config call.variant).andThen fun _ cache =>
  (cache.loadDocumentCached env entryDir call.variant).andThen fun document cache =>
    (.ok (call.entryRef env spec contentSha256 true .miss (some document) false), cache)

/-- What `ensure_one_skill_entry` does with a built index when there is no disk. -/
def keep (contentSha256 : Text) (index : SkillsIndex) (cache : SkillsCache) :
    Outcome SkillEntryRef :=
  let entryDir := skillEntryDir (call.root env) contentSha256
  let document := index.documents.get? (env.docIdFromPath spec.path)
  (.ok (call.entryRef env spec contentSha256 false .memoryFallback document false),
    match document with
    | none => cache
    | some doc => cache.storeMergedDocument entryDir call.variant doc)

/-- The branch of `ensure_one_skill_entry` that builds. -/
def build (contentSha256 : Text) (cache : SkillsCache) : Outcome SkillEntryRef :=
  match env.sourceText spec with
  | .error e => (.error e, cache)
  | .ok content =>
    match env.buildPageIndexForContent spec.path content call.config with
    | .error e => (.error e, cache)
    | .ok index =>
      if call.diskOk then call.persist env spec contentSha256 index cache
      else call.keep env spec contentSha256 index cache

def ensureOneSkillEntry (cache : SkillsCache) : Outcome SkillEntryRef :=
  match env.contentSha256 spec with
  | .error e => (.error e, cache)
  | .ok contentSha256 =>
    let entryDir := skillEntryDir (call.root env) contentSha256
    if call.diskOk && pageIndexValid env entryDir contentSha256
      (cache.disk entryDir) then call.hit env spec contentSha256 cache
    else if call.lazyRegistry && spec.content.isNone then call.stub env spec contentSha256 cache
    else call.build env spec contentSha256 cache

/-- The loop of `ensure_skills_registry_from_specs`. -/
def ensureEntries : List SkillSourceSpec → SkillsCache → Outcome (List SkillEntryRef)
  | [], cache => (.ok [], cache)
  | spec :: rest, cache =>
    if env.isPresent spec then
      (call.ensureOneSkillEntry env spec cache).andThen fun ref cache =>
        (ensureEntries rest cache).andThen fun refs cache => (.ok (ref :: refs), cache)
    else ensureEntries rest cache

end RegistryCall

def ensureSkillsRegistry (env : RegistryEnvironment) (call : RegistryCall) (cache : SkillsCache) :
    Outcome (List SkillEntryRef) :=
  call.ensureEntries env call.sources cache

/-- The name of the entry of a source that can be read. -/
def entryHash (env : RegistryEnvironment) (spec : SkillSourceSpec) : Text :=
  (env.contentSha256 spec).toOption.getD []

def RegistryCall.entryDir (env : RegistryEnvironment) (call : RegistryCall)
    (spec : SkillSourceSpec) : Text :=
  skillEntryDir (call.root env) (entryHash env spec)

/-- The caches, and the calls of the registry so far. -/
structure Served where
  cache : SkillsCache
  calls : List RegistryCall

/-- A call of the registry, or new hot caches, as a new process has them. -/
inductive RegistryAction
  | call (call : RegistryCall)
  | reset (lruMergedDocuments lruSkillsIndex : ℕ)

namespace Served

def start (lruMergedDocuments lruSkillsIndex : ℕ) : Served :=
  ⟨.empty lruMergedDocuments lruSkillsIndex, []⟩

def step (env : RegistryEnvironment) (s : Served) : RegistryAction → Option Served
  | .call call => some ⟨(ensureSkillsRegistry env call s.cache).2, s.calls ++ [call]⟩
  | .reset lruMergedDocuments lruSkillsIndex =>
    some { s with cache := s.cache.resetHotCaches lruMergedDocuments lruSkillsIndex }

end Served

/-- What stays the same in the calls for one skill. -/
structure SkillRequest where
  spec : SkillSourceSpec
  catalogRoot : Text
  config : PageIndexConfig
  paramsHash : Text

structure CallMode where
  pipeline : Text
  policy : CachePolicy
  diskAvailable : Bool

/-- A call for the skill, a value that a hot cache gives up for others, or new hot caches. -/
inductive SkillAction
  | ensure (mode : CallMode)
  | materialize (mode : CallMode)
  | evictDocument (key : Text × ChunkVariant)
  | evictIndex (key : Text × Text × ChunkVariant)
  | reset (lruMergedDocuments lruSkillsIndex : ℕ)

namespace SkillRequest

variable (env : RegistryEnvironment) (req : SkillRequest)

/-- The call of the registry, which is not lazy. -/
def registryCall (mode : CallMode) : RegistryCall where
  sources := [req.spec]
  catalogRoot := req.catalogRoot
  config := req.config
  pipeline := mode.pipeline
  paramsHash := req.paramsHash
  policy := mode.policy
  diskAvailable := mode.diskAvailable
  lazyRegistry := false

def entryDir : Text := skillEntryDir (env.expandTilde req.catalogRoot) (entryHash env req.spec)

/-- `materialize_skill_entry` for the reference that the registry gives. -/
def materializeCall (mode : CallMode) : MaterializeCall where
  source := req.spec.path
  entryDir := req.entryDir env
  docId := env.docIdFromPath req.spec.path
  contentSha256 := entryHash env req.spec
  config := req.config
  pipeline := mode.pipeline
  paramsHash := req.paramsHash
  policy := mode.policy
  diskAvailable := mode.diskAvailable

/-- The document that an action gives. -/
def act : SkillAction → SkillsCache → Outcome (Option SkillDocument)
  | .ensure mode, cache =>
    (ensureSkillsRegistry env (req.registryCall mode) cache).andThen fun refs cache =>
      (.ok (refs.head?.bind SkillEntryRef.document), cache)
  | .materialize mode, cache =>
    (materializeSkillEntry env (req.materializeCall env mode) cache).andThen fun ref cache =>
      (.ok ref.document, cache)
  | .evictDocument key, cache =>
    (.ok none, { cache with mergedDocuments := cache.mergedDocuments.remove key })
  | .evictIndex key, cache =>
    (.ok none, { cache with skillsIndices := cache.skillsIndices.remove key })
  | .reset lruMergedDocuments lruSkillsIndex, cache =>
    (.ok none, cache.resetHotCaches lruMergedDocuments lruSkillsIndex)

def step (cache : SkillsCache) (a : SkillAction) : Option SkillsCache :=
  some (req.act env a cache).2

/-- A first call with a disk, and empty caches of the sizes of `MemoryCacheConfig::default`. -/
def firstCall : Outcome (Option SkillDocument) :=
  req.act env (.ensure ⟨"bm25", .auto, true⟩) (.empty 128 64)

end SkillRequest

end ClearYourTools.Cache
