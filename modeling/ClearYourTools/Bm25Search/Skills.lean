import ClearYourTools.Misc.Search
import ClearYourTools.PageIndex.Retrieve

/-!
# Skill search

`bm25_search/skills.rs`: the chunks of the indexed skills are scored, the chunks at or above the
threshold are grouped by document, and every group becomes a match with restored markdown. The
files, the scores, the tokenizer and the order in which a hash map is walked are parameters. A
search that gives an error, or does not return, is `none`.
-/

namespace ClearYourTools.Bm25Search

open Misc PageIndex

/-- The fields of `SkillEntryInput` that are read. `frontmatter` is `none` without that key, and
`some none` if its value is no string. -/
structure SkillEntry where
  entryDir : Text
  docId : Text
  sourcePath : Text
  frontmatter : Option (Option Text)
  documentFrontmatter : Option Text
  bm25ChunkDir : Option Text
deriving DecidableEq

namespace SkillEntry

def key (entry : SkillEntry) : Text × Text := (entry.entryDir, entry.docId)

/-- `bm25_chunk_dir`, for which the entry directory stands in. -/
def chunkDir (entry : SkillEntry) : Text := entry.bm25ChunkDir.getD entry.entryDir

end SkillEntry

/-- What the search calls: the loading of an entry's document, if it has one, and of a skills
index from the cache, the chunk files, the scores of texts against the query, and the
tokenizer. -/
structure SkillStore where
  env : Environment
  loadDocument : SkillEntry → Option (Option SkillDocument)
  loadIndex : Text → Text → Option Text → Option SkillsIndex
  readChunkBody : Text → ℕ → Option Text
  chunkScores : Text → List Text → ℕ → PyFloat
  frontmatterScores : Text → List Text → ℕ → PyFloat
  countTokensOrMin : Text → ℕ

/-- The order in which the entries of a hash map are walked. -/
structure HashOrder (α : Type) where
  walk : List α → List α
  perm : ∀ xs, (walk xs).Perm xs

/-- A float in a JSON value: what is not finite is written as `null`, and read as zero. -/
def jsonNumber : PyFloat → PyFloat
  | .num q => .num q
  | _ => .num 0

def f64Max (a b : PyFloat) : PyFloat :=
  if a = .nan then b else if b = .nan then a else if PyFloat.lt a b then b else a

/-- The order of `b.partial_cmp(&a)`, where what does not compare is equal. -/
def descending (a b : PyFloat) : Bool := !PyFloat.lt a b

def stripFrontmatter (content : Text) : Text :=
  if ¬ "---".toList.isPrefixOf content then content
  else
    match Text.afterFirst "\n---" content with
    | some body => body.dropWhile (· == '\n')
    | none => content

/-- The first line of the frontmatter with the given start, without it. -/
def frontmatterLine (start frontmatter : Text) : Option Text :=
  frontmatter.lines.findSome? fun line =>
    if start.isPrefixOf line then some (Text.trim (line.drop start.length)) else none

def skillNameFromFrontmatterText (frontmatter : Option Text) (docId : Text) : Text :=
  (frontmatter.bind (frontmatterLine "name:")).getD docId

def tokenCountFromDecomposedFrontmatter (content : Text) : Option ℕ :=
  if ¬ "---".toList.isPrefixOf content then none
  else
    ((Matcher.literal "\n---").search (content.drop 3)).bind fun r =>
      (frontmatterLine "token_count:" r.1).bind parseU32

/-- A chunk in the catalog. -/
structure SkillRow where
  id : ℕ
  docId : Text
  filePath : Text
  content : Text
  score : PyFloat
  entryDir : Text
  bm25ChunkDir : Text

def SkillRow.key (row : SkillRow) : Text × Text := (row.entryDir, row.docId)

def iterContentChunkIds (tree : Structure) : List ℕ :=
  sortDedup (((structureToList tree).filter fun obj => !obj.isFrontmatterNode).flatMap
    fun obj => obj.chunks.getD [])

/-- `u32::try_from(chunk_id).unwrap_or(u32::MAX)`. -/
def chunkNumber (id : ℕ) : ℕ := if id < 4294967296 then id else 4294967295

/-- `entry.source_path`, or the path of the document if it is empty. -/
def rowPath (entry : SkillEntry) (doc : SkillDocument) : Text :=
  if entry.sourcePath = [] then doc.path else entry.sourcePath

variable (store : SkillStore)

/-- The row of a chunk, unless its file is missing or blank. -/
def chunkRow (entry : SkillEntry) (doc : SkillDocument) (id : ℕ) : Option SkillRow :=
  (store.readChunkBody entry.chunkDir (chunkNumber id)).bind fun content =>
    let body := stripFrontmatter content
    if body.isBlank then none
    else some
      { id := chunkNumber id
        docId := doc.id
        filePath := rowPath entry doc
        content := body
        score := .num 0
        entryDir := entry.entryDir
        bm25ChunkDir := entry.chunkDir }

def entryRows (entry : SkillEntry) : Option (List SkillRow) :=
  (store.loadDocument entry).map fun found =>
    match found with
    | none => []
    | some doc => (iterContentChunkIds doc.tree).filterMap (chunkRow store entry doc)

def buildChunkCorpus (entries : List SkillEntry) : Option (List SkillRow) :=
  (entries.mapM (entryRows store)).map List.flatten

/-- `score_catalog_dict` on the rows of chunks. -/
def scoreCatalogDict (query : Text) (rows : List SkillRow) : List SkillRow :=
  let scores := store.chunkScores query (rows.map SkillRow.content)
  (rows.mapIdx fun i row => { row with score := scores i }).mergeSort
    fun a b => descending a.score b.score

/-- A row of the search trace. The rows that the search writes have no entry directory. -/
structure TraceRow where
  docId : Text
  itemId : ℕ
  score : PyFloat
  passed : Bool
  filePath : Text
  entryDir : Option Text

/-- `score >= threshold`. -/
def meetsThreshold (threshold : PyFloat) (row : SkillRow) : Bool := PyFloat.le threshold row.score

def traceRow (threshold : PyFloat) (row : SkillRow) : TraceRow :=
  { docId := row.docId
    itemId := row.id
    score := jsonNumber row.score
    passed := meetsThreshold threshold row
    filePath := row.filePath
    entryDir := none }

def collectScoredSurvivors (scored : List SkillRow) (threshold : PyFloat) :
    List SkillRow × List TraceRow :=
  (scored.filter (meetsThreshold threshold), scored.map (traceRow threshold))

/-- `by_doc.entry(doc_id).or_default().push(item)`. -/
def pushByDoc (row : SkillRow) : List (Text × List SkillRow) → List (Text × List SkillRow)
  | [] => [(row.docId, [row])]
  | group :: groups =>
    if group.1 = row.docId then (group.1, group.2 ++ [row]) :: groups
    else group :: pushByDoc row groups

def groupSurvivorsByDoc (survivors : List SkillRow) : List (Text × List SkillRow) :=
  survivors.foldl (fun groups row => pushByDoc row groups) []

structure SkillMatch where
  docId : Text
  filePath : Text
  markdown : Text
  name : Text
  score : PyFloat
  tokenCount : ℕ
  entryDir : Text

/-- The markdown that `reconstruct_skill_markdown` restores from the index of an entry. -/
def restore (entryDir docId : Text) (chunkDir : Option Text) (nodeIdSpecs chunkIdSpecs : List Text) :
    Option (SkillsIndex × Text) :=
  (store.loadIndex entryDir docId chunkDir).bind fun index =>
    match reconstructSkillMarkdown store.env index docId [] nodeIdSpecs chunkIdSpecs ⟨false⟩ with
    | some (.ok result) => some (index, result.markdown)
    | _ => none

/-- The fold over the scores of a group. -/
def topScore (scores : List PyFloat) : PyFloat := scores.foldl f64Max (.num 0)

/-- `frontmatter_by_doc`, of which the last entry of a key counts. -/
def frontmatterByDoc (entries : List SkillEntry) (key : Text × Text) : Option Text :=
  (entries.reverse.find? fun entry => entry.key == key).bind fun entry => entry.frontmatter.join

/-- The body of the loop of `rebuild_skill_matches`: the first row of the group says where the
skill is. -/
def rebuildSkillMatch (entries : List SkillEntry) (group : Text × List SkillRow) :
    Option (Option SkillMatch) :=
  let docId := group.1
  let first := group.2.head?
  let entryDir := (first.map SkillRow.entryDir).getD []
  let chunkDir := (first.map SkillRow.bm25ChunkDir).getD entryDir
  let chunkIds := sortDedup (group.2.map SkillRow.id)
  (restore store entryDir docId (some chunkDir) [] (chunkIds.map Text.ofNat)).map fun restored =>
    if restored.2.isBlank then none
    else some
      { docId := docId
        filePath := (first.map SkillRow.filePath).getD []
        markdown := restored.2
        name := skillNameFromFrontmatterText (frontmatterByDoc entries (entryDir, docId)) docId
        score := jsonNumber (topScore (group.2.map SkillRow.score))
        tokenCount := store.countTokensOrMin restored.2
        entryDir := entryDir }

def rebuildSkillMatches (entries : List SkillEntry) (order : HashOrder (Text × List SkillRow))
    (byDoc : List (Text × List SkillRow)) : Option (List SkillMatch) :=
  ((order.walk byDoc).mapM (rebuildSkillMatch store entries)).map fun found =>
    found.filterMap id

def scoredChunks (entries : List SkillEntry) (query : Text) : Option (List SkillRow) :=
  (buildChunkCorpus store entries).map (scoreCatalogDict store query)

/-- `bm25_search_skill_chunks` without excluded entries. -/
def bm25SearchSkillChunks (order : HashOrder (Text × List SkillRow)) (entries : List SkillEntry)
    (query : Text) (threshold : PyFloat) : Option (List SkillMatch × List TraceRow) :=
  (scoredChunks store entries query).bind fun scored =>
    let collected := collectScoredSurvivors scored threshold
    (rebuildSkillMatches store entries order (groupSurvivorsByDoc collected.1)).map
      fun found => (found, collected.2)

/-- The entries that `bm25_frontmatter_gate` excludes, of those with a frontmatter: the score is
not below the limit. -/
def frontmatterExcluded (entries : List SkillEntry) (query : Text) (upperLimit : PyFloat) :
    List (Text × Text) :=
  let texts := entries.filterMap fun entry =>
    let text := (entry.frontmatter.join.getD []).trim
    if text = [] then none else some (entry.key, text)
  let scores := store.frontmatterScores query (texts.map Prod.snd)
  (texts.mapIdx fun i row => (row.1, scores i)).filterMap fun row =>
    if PyFloat.lt row.2 upperLimit then none else some row.1

def agentSkillsIntro : Text :=
  ("Based on the user query added chunks of descriptions of skills (not entire skill). " ++
    "The entire skill could be retrieved with the file path, though in most cases it " ++
    "likely excessive.").toList

/-- The lines of a match: none if its body is empty. -/
def skillLines (found : SkillMatch) : List Text :=
  let body := (stripFrontmatter found.markdown).dropWhile (· == '\n')
  if body = [] then []
  else
    let named := if found.name = [] then [] else "name=\"".toList ++ found.name ++ "\" ".toList
    ["<skill ".toList ++ named ++ "path=\"".toList ++ found.filePath ++ "\">".toList, body,
      "</skill>"]

def formatAgentSkillsInjection (matches' : List SkillMatch) : Text :=
  if matches' = [] then []
  else Text.joinLines ([agentSkillsIntro, [], "<agent-skills>".toList] ++
    matches'.flatMap skillLines ++ ["</agent-skills>".toList])

def wrappedInjectionTokens (matches' : List SkillMatch) : ℕ :=
  let injected := formatAgentSkillsInjection matches'
  if injected = [] then 0 else store.countTokensOrMin injected

/-- A row of the search trace with the data of an entry. -/
structure BudgetRow where
  entryDir : Text
  docId : Text
  itemId : ℕ
  score : PyFloat
  passed : Bool
  filePath : Text
  bm25ChunkDir : Text
  frontmatter : Option Text

def BudgetRow.docKey (row : BudgetRow) : Text × Text := (row.entryDir, row.docId)

def isChunkKind (itemKind : Text) : Bool := itemKind == "chunk"

def sumCachedTokenCountsForSpecs (index : SkillsIndex) (itemKind : Text) (ids : List ℕ) :
    Option ℕ :=
  (ids.mapM fun id =>
    let rel := if isChunkKind itemKind then index.chunkMdRelFor id else some (nodeMdRel id)
    (rel.bind index.files.get?).bind tokenCountFromDecomposedFrontmatter).bind fun counts =>
      if counts = [] then none else some (counts.foldl (fun total n => total + n) 0)

def reconstructGroupMatch (entryDir docId chunkDir itemKind : Text) (ids : List ℕ) (filePath : Text)
    (score : PyFloat) (frontmatter : Option Text) : Option (Option SkillMatch) :=
  let variant := if chunkDir = [] then none else some chunkDir
  let specs := ids.map Text.ofNat
  let restored :=
    if isChunkKind itemKind then restore store entryDir docId variant [] specs
    else restore store entryDir docId variant specs []
  restored.map fun restored =>
    let markdown := restored.2.trim
    if markdown = [] then none
    else some
      { docId := docId
        filePath := filePath
        markdown := markdown
        name := skillNameFromFrontmatterText frontmatter docId
        score := score
        tokenCount := (sumCachedTokenCountsForSpecs restored.1 itemKind ids).getD
          (store.countTokensOrMin markdown)
        entryDir := entryDir }

/-- The first loop of `greedy_select_skill_items`: the best row of each path and item. -/
def keepBest (best : List ((Text × ℕ) × BudgetRow)) (row : BudgetRow) :
    List ((Text × ℕ) × BudgetRow) :=
  if row.passed = false ∨ row.filePath = [] then best
  else
    match best.lookup (row.filePath, row.itemId) with
    | none => Dict.setEntries (row.filePath, row.itemId) row best
    | some kept =>
      if PyFloat.lt kept.score row.score then Dict.setEntries (row.filePath, row.itemId) row best
      else best

/-- `a.cmp(b) != Greater` on strings. -/
def textLe : Text → Text → Bool
  | [], _ => true
  | _ :: _, [] => false
  | a :: s, b :: t => if a = b then textLe s t else a.toNat < b.toNat

/-- The order of the rows in the selection: by score, path and item. -/
def budgetOrder (a b : BudgetRow) : Bool :=
  if PyFloat.lt a.score b.score then false
  else if PyFloat.lt b.score a.score then true
  else if a.filePath ≠ b.filePath then textLe a.filePath b.filePath
  else textLe (Text.ofNat a.itemId) (Text.ofNat b.itemId)

/-- The state of the loop of `greedy_select_skill_items`. -/
structure GreedyState where
  rowsByDoc : List ((Text × Text) × List BudgetRow)
  matchByDoc : List ((Text × Text) × Option SkillMatch)
  bestMatches : List SkillMatch

/-- The rows of a document with one more, and the match that they restore. -/
def trialDocRows (state : GreedyState) (row : BudgetRow) : List BudgetRow :=
  (state.rowsByDoc.lookup row.docKey).getD [] ++ [row]

/-- `i64::try_from(count).unwrap_or(i64::MAX)`. -/
def countAsI64 (count : ℕ) : ℤ :=
  if count ≤ 9223372036854775807 then count else 9223372036854775807

/-- The body of the loop of `greedy_select_skill_items`. -/
def greedyStep (order : HashOrder (Option SkillMatch)) (itemKind : Text) (maxTokens : ℤ)
    (state : GreedyState) (row : BudgetRow) : Option GreedyState :=
  let trialRows := trialDocRows state row
  let ids := sortDedup (trialRows.map BudgetRow.itemId)
  (reconstructGroupMatch store row.entryDir row.docId row.bm25ChunkDir itemKind ids row.filePath
    (topScore (trialRows.map BudgetRow.score)) row.frontmatter).map fun trialMatch =>
      let trialMatchByDoc := Dict.setEntries row.docKey trialMatch state.matchByDoc
      let trialMatches := ((order.walk (trialMatchByDoc.map Prod.snd)).filterMap id).mergeSort
        fun a b => descending a.score b.score
      if countAsI64 (wrappedInjectionTokens store trialMatches) ≤ maxTokens then
        { rowsByDoc := Dict.setEntries row.docKey trialRows state.rowsByDoc
          matchByDoc := trialMatchByDoc
          bestMatches := trialMatches }
      else state

def greedySelectSkillItems (bestOrder : HashOrder BudgetRow)
    (matchOrder : HashOrder (Option SkillMatch)) (survivors : List BudgetRow) (itemKind : Text)
    (maxTokens : ℤ) : Option (List SkillMatch) :=
  let best := survivors.foldl keepBest []
  let ordered := (bestOrder.walk (best.map Prod.snd)).mergeSort budgetOrder
  (ordered.foldlM (greedyStep store matchOrder itemKind maxTokens) ⟨[], [], []⟩).map
    GreedyState.bestMatches

end ClearYourTools.Bm25Search
