import ClearYourTools.Bm25Search.Skills
import ClearYourTools.CytClient.Sessions

/-!
# The LLM selector

`pruners/llm.py`: the items of the catalog are written as chunks with ids, the selector answers
bulk by bulk with scores by id, and the catalog lists are rebuilt from the ids.
-/

namespace ClearYourTools.Pruners

open Misc CytClient Bm25Search

variable {φ : Type}

/-- What Python makes of numbers: `int(value)`, `none` where it raises, and `score / 100.0`,
which tells no score from a positive one. -/
structure SelectorFormat (φ : Type) extends Json.PyFormat φ where
  toInt : Json φ → Option ℤ
  hundredth : ℕ → φ
  eq_zero_of_hundredth : ∀ score, hundredth score = hundredth 0 → score = 0

structure ChunkSelection where
  id : ℤ
  score : ℕ
  score_le : score ≤ 100

/-- `normalize_selector_selections`: the id of an empty selection goes. -/
def normalizeSelectorSelections (selections : List ChunkSelection) : List ChunkSelection :=
  selections.filter fun selection => decide (selection.id ≠ -1)

/-- `merged[id] = max(merged.get(id, 0), score)`. -/
def raiseScore (merged : Dict ℤ ℕ) (id : ℤ) (score : ℕ) : Dict ℤ ℕ :=
  merged.set id (max ((merged.get? id).getD 0) score)

def selectionsToScoreMap (selections : List ChunkSelection) : Dict ℤ ℕ :=
  selections.foldl (fun scored selection => raiseScore scored selection.id selection.score)
    Dict.empty

def mergeSelectorScores (merged bulkScores : Dict ℤ ℕ) : Dict ℤ ℕ :=
  bulkScores.entries.foldl (fun merged e => raiseScore merged e.1 e.2) merged

/-- The scores of `_run_llm_selector_bulks`: the answers are merged in the order of the bulks,
whichever of them comes first. -/
def runLlmSelectorBulks (answers : List (Dict ℤ ℕ)) : Dict ℤ ℕ :=
  answers.foldl mergeSelectorScores Dict.empty

/-- `LLM_CATALOG_LIST_KEYS`. -/
inductive ListKey where
  | json
  | md
deriving DecidableEq

namespace ListKey

def name : ListKey → Text
  | json => "json"
  | md => "md"

/-- The tag of the chunks of the list. -/
def tag : ListKey → Text
  | json => "tool"
  | md => "chunk"

end ListKey

/-- The items of a list of the catalog. -/
def listItems (data : Record φ) (key : ListKey) : Option (List (Json φ)) :=
  match Json.get? data key.name with
  | some (.arr items) => some items
  | _ => none

def listKeys (data : Record φ) : List ListKey :=
  [ListKey.json, ListKey.md].filter fun key => (listItems data key).isSome

def scoreKey : Text := "score"
def filePathKey : Text := "file_path"
def tokenCountKey : Text := "token_count"

def llmTrimFields : List Text := [scoreKey, "language", "end_line", "start_line"]

def llmModelExcludedFields : List Text := llmTrimFields ++ ["id".toList, tokenCountKey]

/-- `str(item.get("file_path", ""))`. -/
def filePath (p : Json.PyFormat φ) (item : Record φ) : Text :=
  match Json.get? item filePathKey with
  | some path => Json.toStr p path
  | none => []

/-- The key by which a list is sorted. -/
def sortKey (p : Json.PyFormat φ) : Json φ → Text
  | .obj item => filePath p item
  | _ => []

/-- A list of the catalog as the loop walks it, sorted by path. -/
def sortedItems (p : Json.PyFormat φ) (data : Record φ) (key : ListKey) : List (Json φ) :=
  ((listItems data key).getD []).mergeSort fun a b => textLe (sortKey p a) (sortKey p b)

variable (p : SelectorFormat φ)

def parseCachedTokenCount (item : Record φ) : Option ℕ :=
  match Json.get? item tokenCountKey with
  | none | some .null => none
  | some raw =>
    match p.toInt raw with
    | some count => if 0 < count then some count.toNat else none
    | none => none

def selectorTokensAttr : Option ℕ → Text
  | some (n + 1) => " tokens=" ++ Text.ofNat (n + 1)
  | _ => []

/-- A chunk of the selector with the id that stands in its tag. -/
structure Chunk where
  key : ListKey
  id : ℤ
  tokens : Option ℕ
  body : Text

def Chunk.text (c : Chunk) : Text :=
  '<' :: (c.key.tag ++ " id=" ++ Json.ofInt c.id ++ selectorTokensAttr c.tokens ++
    ['>', '\n'] ++ c.body ++ ['\n', '<', '/'] ++ c.key.tag ++ ['>', '\n'])

structure ToolSelectorTokenRow where
  selectorId : ℤ
  tag : Text
  tokens : Option ℕ
  filePath : Option Text

/-- An entry of `item_metadata_storage`. -/
structure Stored (φ : Type) where
  key : ListKey
  item : Record φ
  metadata : List (Text × Option (Json φ))
  tokenCount : Option ℕ

/-- What the loop of `prepare_catalog_selector_chunks` has built. -/
structure Prepared (φ : Type) where
  chunks : List Chunk
  storage : Dict ℤ (Stored φ)
  chunkTokenCounts : List ℕ
  tokenRows : List ToolSelectorTokenRow
  nextId : ℤ

namespace Prepared

def start : Prepared φ := ⟨[], Dict.empty, [], [], 1⟩

end Prepared

/-- The chunk of an item under an id. -/
def itemChunk (key : ListKey) (item : Record φ) (id : ℤ) : Chunk where
  key := key
  id := id
  tokens := parseCachedTokenCount p item
  body := Json.dumps p.toFloatFormat false
    (.obj (item.filter fun kv => !llmModelExcludedFields.contains kv.1))

/-- What is stored of an item. -/
def stored (key : ListKey) (item : Record φ) : Stored φ where
  key := key
  item := item
  metadata := llmTrimFields.map fun k => (k, Json.get? item k)
  tokenCount := parseCachedTokenCount p item

/-- A tool without a path gets no chunk. -/
def hasChunk (p : Json.PyFormat φ) (key : ListKey) (item : Record φ) : Bool :=
  !(key == .json && (filePath p item).strip == [])

/-- The body of the loop of `prepare_catalog_selector_chunks`. -/
def prepareItem (key : ListKey) (state : Prepared φ) (item : Json φ) : Prepared φ :=
  match item with
  | .obj item =>
    let storage := state.storage.set state.nextId (stored p key item)
    if hasChunk p.toPyFormat key item then
      let chunk := itemChunk p key item state.nextId
      let path := (filePath p.toPyFormat item).strip
      { chunks := state.chunks ++ [chunk]
        storage := storage
        chunkTokenCounts := state.chunkTokenCounts ++ [chunk.tokens.getD 0]
        tokenRows := state.tokenRows ++
          [⟨state.nextId, key.tag, chunk.tokens, if path = [] then none else some path⟩]
        nextId := state.nextId + 1 }
    else { state with storage := storage }
  | _ => state

/-- The loop over one list of the catalog. -/
def prepareList (data : Record φ) (state : Prepared φ) (key : ListKey) : Prepared φ :=
  (sortedItems p.toPyFormat data key).foldl (prepareItem p key) state

/-- `prepare_catalog_selector_chunks`, `none` where it raises. -/
def prepareCatalogSelectorChunks (data : Record φ) : Option (Prepared φ) :=
  if listKeys data = [] then none
  else some ((listKeys data).foldl (prepareList p data) Prepared.start)

def buildFullChunkScoreMap (storage : Dict ℤ (Stored φ)) (scores : Dict ℤ ℕ) : Dict ℤ ℕ :=
  ⟨storage.entries.map fun e => (e.1, (scores.get? e.1).getD 0), by
    rw [List.map_map]
    exact storage.nodup⟩

/-- One turn of the loop that puts the trimmed fields back. -/
def restoreField (item : Record φ) (field : Text × Option (Json φ)) : Record φ :=
  match field.2 with
  | none | some .null => item
  | some v => if field.1 = scoreKey then item else Json.set item field.1 v

def applyLlmChunkScore (item : Record φ) (score : ℕ) : Record φ :=
  Json.set item scoreKey (.float (p.hundredth score))

/-- An item of the storage with its score. -/
def scoreStored (s : Stored φ) (score : ℕ) : Record φ :=
  applyLlmChunkScore p (s.metadata.foldl restoreField s.item) score

/-- The new list of a key: the items of the storage that belong to it. -/
def newDataList (storage : Dict ℤ (Stored φ)) (scores : Dict ℤ ℕ) (key : ListKey) : List (Json φ) :=
  (storage.entries.filter fun e => e.2.key == key).map fun e =>
    .obj (scoreStored p e.2 ((scores.get? e.1).getD 0))

def applySelectorIdsToCatalog (data : Record φ) (storage : Dict ℤ (Stored φ)) (scores : Dict ℤ ℕ)
    (keys : List ListKey) : Record φ :=
  keys.foldl (fun data key => Json.set data key.name (.arr (newDataList p storage scores key)))
    data

/-- The catalog with the scores of the selector. -/
def selectCatalog (data : Record φ) (answers : List (Dict ℤ ℕ)) : Option (Record φ) :=
  (prepareCatalogSelectorChunks p data).map fun prepared =>
    applySelectorIdsToCatalog p data prepared.storage (runLlmSelectorBulks answers) (listKeys data)

end ClearYourTools.Pruners
