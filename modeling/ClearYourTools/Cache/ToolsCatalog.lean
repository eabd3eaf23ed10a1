import ClearYourTools.Cache.SkillsRegistry
import ClearYourTools.Injection.SessionLog
import ClearYourTools.Misc.Runs

/-!
# The cache of tool catalogs

`cache/tools_catalog.rs` with `cache/disk_writer.rs` and the tool catalogs of `cache/hot.rs`: one
index a tool, kept in memory and in a directory that is named by the hash of the definition of the
tool.
-/

namespace ClearYourTools.Cache

open Misc

variable {φ : Type}

/-- Files by their relative path. -/
abbrev FileMap := Text → Option Text

structure CatalogIndex (φ : Type) where
  tools : List (Json φ)
  files : FileMap

/-- What the cache calls: `serde_json`, the digest, and the crate that decomposes tools, of which
an index lists the tools that it is built from. -/
structure CatalogCrate (φ : Type) where
  sha256 : Text → Text
  toString : Json φ → Text
  toStringPretty : List (Json φ) → Text
  collectEnums : Json φ → List (Json φ)
  buildCatalogIndex : List (Json φ) → List (Json φ) → CatalogIndex φ
  enrichToolSchemaMetadata : FileMap → FileMap
  catalogIndexToCatalogDict : CatalogIndex φ → Json φ
  decomposedPrefix : Text
  jsonExt : Text
  tools_build : ∀ entry enums, (buildCatalogIndex [entry] enums).tools = [entry]

def skipCacheFiles : List Text := ["manifest.json".toList, "tools.json".toList]

/-- `value.get(key)`. -/
def valueGet (value : Json φ) (key : Text) : Option (Json φ) :=
  match value with
  | .obj fields => Json.get? fields key
  | _ => none

def originalDefinitionForEntry (entry : Json φ) : Option (Json φ) :=
  match valueGet entry "full_schema" with
  | some fullSchema => some fullSchema
  | none => if (valueGet entry "name").isSome then some entry else none

def toolIdFromEntry (entry : Json φ) : Text :=
  match (valueGet entry "id").or (valueGet entry "name") with
  | some (.str id) => id
  | _ => []

/-- `strip_prefix` and `trim_end_matches` of the root path: the prefix without its slashes. -/
def trimSlashes (path : Text) : Text := (path.reverse.dropWhile (· == '/')).reverse

namespace CatalogCrate

variable (crate : CatalogCrate φ)

def toolDefinitionContentHash (definition : Json φ) : Text :=
  crate.sha256 ("v1-tool-def\x00" ++
    crate.toString (Injection.SessionLog.sortKeys definition))

/-- The name of the directory of an entry. -/
def entryHash (entry : Json φ) : Option Text :=
  (originalDefinitionForEntry entry).map crate.toolDefinitionContentHash

def enumsForEntry (entry : Json φ) : List (Json φ) :=
  match (valueGet entry "full_schema").bind (valueGet · "inputSchema") with
  | some schema => crate.collectEnums schema
  | none => []

def buildIndexForEntry (entry : Json φ) : CatalogIndex φ :=
  crate.buildCatalogIndex [entry] (crate.enumsForEntry entry)

def decomposedRootPath (toolId : Text) : Text :=
  trimSlashes crate.decomposedPrefix ++ '/' :: toolId ++ crate.jsonExt

end CatalogCrate

def cacheFilesOnly (index : CatalogIndex φ) : FileMap := fun rel =>
  if skipCacheFiles.contains rel then none else index.files rel

def mergeCatalogIndexes (crate : CatalogCrate φ) (parts : List (CatalogIndex φ)) :
    CatalogIndex φ :=
  let tools := parts.flatMap CatalogIndex.tools
  let files : FileMap := parts.foldl (fun files part rel =>
    (cacheFilesOnly part rel).or (files rel)) fun _ => none
  { tools := tools
    files := crate.enrichToolSchemaMetadata
      (Function.update files "tools.json" (some (crate.toStringPretty tools))) }

/-- The directory of an entry: whether it has a directory `schemas`, and its files. -/
structure EntryDir where
  schemas : Bool
  files : FileMap

/-- Names of files that `collect_files` finds again under the same name: no part of them is empty
or hidden, and there is no backslash. -/
def isPlain (rel : Text) : Bool :=
  !rel.contains '\\' && (rel.splitOn '/').all fun part => part != [] && part.head? != some '.'

def collectFiles (dir : EntryDir) : FileMap := fun rel =>
  if skipCacheFiles.contains rel || !isPlain rel then none else dir.files rel

def loadIndexFromEntryDir (dir : EntryDir) (entry : Json φ) : CatalogIndex φ :=
  ⟨[entry], collectFiles dir⟩

def toolCacheValid (crate : CatalogCrate φ) (dir : EntryDir) (toolId : Text) : Bool :=
  dir.schemas && (dir.files (crate.decomposedRootPath toolId)).isSome

/-- One file of `write_catalog_index`. -/
def EntryDir.write (dir : EntryDir) (rel content : Text) : EntryDir where
  schemas := dir.schemas || "schemas/".toList.isPrefixOf rel
  files := Function.update dir.files rel (some content)

/-- The hot cache, the directories by their names, and the jobs of the disk writer. -/
structure CatalogState (φ : Type) where
  hot : Lru Text (CatalogIndex φ)
  disk : Text → EntryDir
  queued : List (Text × CatalogIndex φ)

/-- What happens beside the calls: an eviction, and a file of a job that the writer, or a write
without it, puts on the disk. A job may stop after any of its files. -/
inductive Background
  | evict (contentHash : Text)
  | writeFile (job : ℕ) (rel : Text)

namespace CatalogState

variable (s : CatalogState φ)

def background : Background → CatalogState φ
  | .evict contentHash => { s with hot := s.hot.remove contentHash }
  | .writeFile job rel =>
    match s.queued[job]? with
    | none => s
    | some (contentHash, index) =>
      match cacheFilesOnly index rel with
      | none => s
      | some content =>
        { s with
          disk := Function.update s.disk contentHash ((s.disk contentHash).write rel content) }

def backgrounds (events : List Background) : CatalogState φ := events.foldl background s

def storeToolCatalog (contentHash : Text) (index : CatalogIndex φ) : CatalogState φ :=
  { s with hot := s.hot.insert contentHash index }

/-- `maybe_enqueue_tool_catalog`, in both of its modes. -/
def maybeEnqueueToolCatalog (contentHash : Text) (index : CatalogIndex φ) : CatalogState φ :=
  { s with queued := s.queued ++ [(contentHash, index)] }

end CatalogState

/-- What the disk answers to one entry: `disk_available`, whether the directory can be read and the
build lock is acquired, and what happens while the call waits for the lock. -/
structure DiskIo where
  available : Bool
  readable : Bool
  locked : Bool
  meanwhile : List Background

structure SingleToolCacheOutcome (φ : Type) where
  index : CatalogIndex φ
  diskBacked : Bool
  cacheStatus : CacheStatus

namespace CatalogState

variable (crate : CatalogCrate φ) (policy : CachePolicy) (io : DiskIo) (entry : Json φ)

/-- The part of `ensure_single_tool_cached` after the hot cache. -/
def ensureOnDisk (contentHash : Text) (s : CatalogState φ) :
    SingleToolCacheOutcome φ × CatalogState φ :=
  let toolId := toolIdFromEntry entry
  let tryDisk := policy != .forceMemory && io.available
  if tryDisk && toolCacheValid crate (s.disk contentHash) toolId && io.readable then
    let index := loadIndexFromEntryDir (s.disk contentHash) entry
    (⟨index, true, .hit⟩, s.storeToolCatalog contentHash index)
  else if tryDisk && io.locked then
    let s := s.backgrounds io.meanwhile
    if toolCacheValid crate (s.disk contentHash) toolId && io.readable then
      let index := loadIndexFromEntryDir (s.disk contentHash) entry
      (⟨index, true, .hit⟩, s.storeToolCatalog contentHash index)
    else
      let index := crate.buildIndexForEntry entry
      (⟨index, true, .miss⟩,
        (s.storeToolCatalog contentHash index).maybeEnqueueToolCatalog contentHash index)
  else
    let index := crate.buildIndexForEntry entry
    (⟨index, false, .memoryFallback⟩, s.storeToolCatalog contentHash index)

def ensureSingleToolCached (s : CatalogState φ) :
    Except Text (SingleToolCacheOutcome φ × CatalogState φ) :=
  match originalDefinitionForEntry entry with
  | none => .error "tool entry missing original definition"
  | some definition =>
    let contentHash := crate.toolDefinitionContentHash definition
    match s.hot.get contentHash with
    | (some cached, hot) => .ok (⟨cached, true, .hit⟩, { s with hot := hot })
    | (none, hot) => .ok (ensureOnDisk crate policy io entry contentHash { s with hot := hot })

end CatalogState

/-- An entry of a call, what happens before the call gets to it, and what the disk answers. -/
structure CallItem (φ : Type) where
  before : List Background
  entry : Json φ
  io : DiskIo

/-- What a call returns: `CacheResult<ToolCatalogHandle>`. -/
structure ToolCatalogHandle (φ : Type) where
  catalog : Json φ
  index : CatalogIndex φ
  diskBacked : Bool
  cacheStatus : CacheStatus

namespace CatalogState

variable (crate : CatalogCrate φ) (policy : CachePolicy)

/-- The loop of `ensure_tool_catalog_from_entry_list`, and the state that it leaves. -/
def ensureParts : CatalogState φ → List (CallItem φ) →
    Except Text (List (SingleToolCacheOutcome φ)) × CatalogState φ
  | s, [] => (.ok [], s)
  | s, item :: items =>
    let s := s.backgrounds item.before
    match s.ensureSingleToolCached crate policy item.io item.entry with
    | .error message => (.error message, s)
    | .ok (outcome, s) =>
      let rest := ensureParts s items
      (rest.1.map (outcome :: ·), rest.2)

def ensureToolCatalogFromEntryList (s : CatalogState φ) (items : List (CallItem φ)) :
    Except Text (ToolCatalogHandle φ) × CatalogState φ :=
  let (parts, s) := s.ensureParts crate policy items
  (parts.map fun outcomes =>
    let merged := mergeCatalogIndexes crate (outcomes.map SingleToolCacheOutcome.index)
    let anyDisk := outcomes.any SingleToolCacheOutcome.diskBacked
    let anyFallback := outcomes.any fun outcome => outcome.cacheStatus == .memoryFallback
    let anyMiss := outcomes.any fun outcome => outcome.cacheStatus == .miss
    { catalog := crate.catalogIndexToCatalogDict merged
      index := merged
      diskBacked := anyDisk && !anyFallback
      cacheStatus :=
        bif anyFallback then .memoryFallback
        else bif anyMiss then .miss
        else bif outcomes.isEmpty then .memoryFallback
        else .hit }, s)

/-- An empty disk and a process that has just started. -/
def fresh (capacity : ℕ) : CatalogState φ := ⟨.new capacity, fun _ => ⟨false, fun _ => none⟩, []⟩

/-- What happens to the cache: also a process that stops, with the jobs that it has not done. -/
inductive Action (φ : Type)
  | call (policy : CachePolicy) (items : List (CallItem φ))
  | background (event : Background)
  | restart (capacity : ℕ)

def step (s : CatalogState φ) : Action φ → Option (CatalogState φ)
  | .call policy items => some (s.ensureToolCatalogFromEntryList crate policy items).2
  | .background event => some (s.background event)
  | .restart capacity => some { s with hot := .new capacity, queued := [] }

end CatalogState

end ClearYourTools.Cache
