import ClearYourTools.PageIndex.Tree

/-!
# Selections and file bodies

`pageindex/retrieve.rs`, `node_id.rs` and `chunk_id.rs`: the parsers of line, node and chunk
selections, and the stripping of the frontmatter in front of a node or chunk file.
-/

namespace ClearYourTools.PageIndex

open Misc

/-- The digits of a number, most significant first. -/
def parseDigits (digits : Text) : Option ℕ :=
  if digits = [] then none
  else digits.foldl (fun acc c => acc.bind fun n =>
    if c.isDigit then some (10 * n + (c.toNat - '0'.toNat)) else none) (some 0)

/-- Rust's `str::parse::<u32>`. -/
def parseU32 (t : Text) : Option ℕ :=
  let digits := match t with
    | '+' :: rest => rest
    | _ => t
  (parseDigits digits).filter fun n => decide (n < 2 ^ 32)

/-- Rust's `str::split_once` on a character. -/
def splitOnce (sep : Char) (t : Text) : Option (Text × Text) :=
  if t.contains sep then some (t.takeWhile (· != sep), (t.dropWhile (· != sep)).tail) else none

/-- A text inside an error message. -/
def quoted (t : Text) : String := "'" ++ String.ofList t ++ "'"

def parseNodeIdToken (token : Text) : Except String ℕ :=
  match parseU32 token.trim with
  | some n => .ok n
  | none => .error ("invalid node_id " ++ quoted token)

def parseChunkIdToken (token : Text) : Except String ℕ :=
  if token.trim = [] then .error "empty chunk_id"
  else
    match parseU32 token.trim with
    | some n => .ok n
    | none => .error ("invalid chunk_id " ++ quoted token)

/-- `sort_unstable` and `dedup`. -/
def sortDedup (ids : List ℕ) : List ℕ := (ids.mergeSort (· ≤ ·)).dedup

/-- `start..=end`. -/
def inclusiveRange (start stop : ℕ) : List ℕ := List.range' start (stop + 1 - start)

/-- One part of a selection between commas: a range, a number, or nothing. -/
def parsePart (rangeStart rangeStop single : Text → Except String ℕ) (reversed : Text → String)
    (part : Text) : Except String (List ℕ) :=
  if part = [] then .ok []
  else
    match splitOnce '-' part with
    | some (start, stop) => do
      let start ← rangeStart start
      let stop ← rangeStop stop
      if stop < start then .error (reversed part) else .ok (inclusiveRange start stop)
    | none => (single part).map fun n => [n]

/-- The loop over the parts of a selection. -/
def parseSpec (parse : Text → Except String (List ℕ)) (spec : Text) : Except String (List ℕ) :=
  (((spec.splitOn ',').map Text.trim).mapM parse).map fun parts => sortDedup parts.flatten

/-- `map_err` of the parses of `parse_line_nums`. -/
def parseLineNum (message : String) (part token : Text) : Except String ℕ :=
  match parseU32 token with
  | some n => .ok n
  | none => .error (message ++ " " ++ quoted part)

variable (spec : Text)

def parseLineNums : Except String (List ℕ) :=
  parseSpec (fun part =>
    parsePart (fun t => parseLineNum "invalid line_num range start in" part t.trim)
      (fun t => parseLineNum "invalid line_num range end in" part t.trim)
      (fun t => parseLineNum "invalid line_num" part t)
      (fun part => "invalid range " ++ quoted part ++ ": start must be <= end") part) spec

def parseNodeIds : Except String (List ℕ) :=
  parseSpec (parsePart (fun t => parseNodeIdToken t.trim) (fun t => parseNodeIdToken t.trim)
    parseNodeIdToken
    fun part => "invalid node_id range " ++ quoted part ++ ": start must be <= end") spec

def parseChunkIds : Except String (List ℕ) :=
  parseSpec (parsePart parseChunkIdToken parseChunkIdToken parseChunkIdToken
    fun part => "invalid chunk_id range " ++ quoted part ++ ": start must be <= end") spec

/-- The merge of several selections. -/
def mergeSpecs (parse : Text → Except String (List ℕ)) (specs : List Text) :
    Except String (List ℕ) :=
  (specs.mapM parse).map fun ids => sortDedup ids.flatten

variable (specs : List Text)

def mergeLineNumSpecs : Except String (List ℕ) := mergeSpecs parseLineNums specs

def mergeNodeIdSpecs : Except String (List ℕ) := mergeSpecs parseNodeIds specs

def mergeChunkIdSpecs : Except String (List ℕ) := mergeSpecs parseChunkIds specs

def stripDecomposedFrontmatter (content : Text) : Text :=
  if Text.startsWith "---" content then
    match Text.afterFirst "\n---" (content.drop 3) with
    | some body => body.trimStart
    | none => content
  else content

variable (index : SkillsIndex)

/-- `find_chunk_rel`: some file of that name. The order of the map decides which. -/
def findChunkRel (chunkId : ℕ) : Option Text :=
  index.files.keys.find? fun rel => (chunkMdFilename chunkId).isSuffixOf rel

/-! ## Reconstructed markdown: `pageindex/reconstruct.rs` -/

structure ReconstructOptions where
  keepAllHeaders : Bool

/-- The fields of `ReconstructResult` that the index decides. -/
structure ReconstructResult where
  markdown : Text
  matchedNodeIds : List ℕ
  matchedChunkIds : List ℕ
  nodeIds : List ℕ

/-- `MatchCriteria`; a set that is empty matches nothing. -/
structure MatchCriteria where
  lineSet : List ℕ
  nodeSet : List ℕ

def parseMatchCriteria (lineNumSpecs nodeIdSpecs : List Text) : Except String MatchCriteria := do
  let lineNums ← mergeLineNumSpecs lineNumSpecs
  let nodeIds ← mergeNodeIdSpecs nodeIdSpecs
  if lineNums = [] ∧ nodeIds = [] then
    .error "content query requires at least one --line_num or --node_id"
  else return ⟨lineNums, nodeIds⟩

/-- `node_line_num`: a line number that does not fit in a `u32` is read as zero. -/
def nodeLineNum (obj : NodeObj) : ℕ := if obj.lineNum < 2 ^ 32 then obj.lineNum else 0

def nodeMatches (criteria : MatchCriteria) (obj : NodeObj) : Bool :=
  criteria.lineSet.contains (nodeLineNum obj) || criteria.nodeSet.contains obj.id

def collectMatchedNodeIds (doc : SkillDocument) (lineNumSpecs nodeIdSpecs : List Text) :
    Except String (List ℕ) := do
  let criteria ← parseMatchCriteria lineNumSpecs nodeIdSpecs
  return ((structureToList doc.tree).filter (nodeMatches criteria)).map NodeObj.id

def nodeHasSelectedChunks (obj : NodeObj) (chunkIds : List ℕ) : Bool :=
  (obj.chunks.getD []).any fun id => chunkIds.contains id

variable (tree : Structure)

def collectMatchedNodeIdsFromChunks (chunkIds : List ℕ) : List ℕ :=
  ((structureToList tree).filter fun obj => nodeHasSelectedChunks obj chunkIds).map NodeObj.id

/-- `walk_parent_map`, which inserts in the order of the walk. -/
def walkParentMap (parentId : Option ℕ) (parents : Dict ℕ ℕ) : Structure → Dict ℕ ℕ
  | .nil => parents
  | .node obj children rest =>
    let parents := match parentId with
      | some parent => parents.set obj.id parent
      | none => parents
    walkParentMap parentId (walkParentMap (some obj.id) parents children) rest

def buildParentMap : Dict ℕ ℕ := walkParentMap none .empty tree

/-- The inner loop of `expand_with_ancestors`: the ids above `current`. It is `none` when
`fuel` steps do not reach the end; a walk of more steps than the map has entries is in a
cycle, and the loop of the source then does not end. -/
def ancestors (parents : Dict ℕ ℕ) : ℕ → ℕ → Option (List ℕ)
  | 0, _ => none
  | fuel + 1, current =>
    match parents.get? current with
    | none => some []
    | some parent =>
      if parent = nodeIdPreamble then some []
      else (ancestors parents fuel parent).map (parent :: ·)

/-- `expand_with_ancestors`; `none` when it does not return. -/
def expandWithAncestors (matched : List ℕ) (parents : Dict ℕ ℕ) : Option (List ℕ) :=
  (matched.mapM (ancestors parents (parents.entries.length + 1))).map fun above =>
    matched ++ above.flatten

def pruneStructure (kept : List ℕ) : Structure := tree.prune fun obj => kept.contains obj.id

def resolveNodeBody (obj : NodeObj) : Text :=
  match obj.text.filter fun text => !text.isEmpty with
  | some text => text
  | none => ((index.files.get? (nodeMdRel obj.id)).map stripDecomposedFrontmatter).getD []

def resolveChunkBody (chunkId : ℕ) : Text :=
  let rel := (index.chunkMdRelFor chunkId).or (findChunkRel index chunkId)
  ((rel.bind index.files.get?).map stripDecomposedFrontmatter).getD []

def resolveNodeBodyChunkAware (obj : NodeObj) (chunkFilter : Option (List ℕ)) : Text :=
  match chunkFilter with
  | none => resolveNodeBody index obj
  | some selected =>
    let selectedForNode := (obj.chunks.getD []).filter fun id => selected.contains id
    if selectedForNode ≠ [] then (selectedForNode.map (resolveChunkBody index)).flatten
    else if obj.isPreambleNode then []
    else resolveNodeBody index obj

def resolveNodeHeader (obj : NodeObj) : Text :=
  let body := resolveNodeBody index obj
  match (body.lines.head?.map Text.trim).filter fun line => !line.isEmpty with
  | some line => line
  | none => (obj.title.map fun title => "# ".toList ++ title).getD []

variable (env : Environment)

def resolveFrontmatter (doc : SkillDocument) : Option Text :=
  match doc.frontmatter with
  | some frontmatter => some frontmatter
  | none => (env.readFile doc.path).bind fun raw => (extractSkillPrefix raw).frontmatter

def resolvePreamble (doc : SkillDocument) : Option Text :=
  match doc.preamble with
  | some preamble => some preamble
  | none => (env.readFile doc.path).bind fun raw => (extractSkillPrefix raw).preamble

/-- The parts that `assemble_markdown` joins. -/
def assembleParts (index : SkillsIndex) (doc : SkillDocument) (tree : Structure) (kept : List ℕ)
    (keepAllHeaders : Bool) (chunkFilter : Option (List ℕ)) : List Text :=
  let frontmatter :=
    if (structureToList tree).any NodeObj.isFrontmatterNode then none
    else resolveFrontmatter env doc
  let preamble :=
    if (structureToList doc.tree).any NodeObj.isPreambleNode then none
    else resolvePreamble env doc
  let contents := (structureToList tree).map fun obj =>
    if keepAllHeaders && !kept.contains obj.id then resolveNodeHeader index obj
    else resolveNodeBodyChunkAware index obj chunkFilter
  frontmatter.toList ++ preamble.toList ++ contents.filter fun content => !content.isEmpty

def assembleMarkdown (index : SkillsIndex) (doc : SkillDocument) (tree : Structure) (kept : List ℕ)
    (keepAllHeaders : Bool) (chunkFilter : Option (List ℕ)) : Text :=
  Text.join "\n\n" (assembleParts env index doc tree kept keepAllHeaders chunkFilter)

/-- What `reconstruct_skill_markdown` selects: the matched and the kept node ids, and the
chunk filter. The outer `none` is a run that does not return. -/
def selectNodes (doc : SkillDocument) (lineNumSpecs nodeIdSpecs chunkIdSpecs : List Text) :
    Option (Except String (List ℕ × List ℕ × Option (List ℕ))) :=
  let selection : Except String (List ℕ × Option (List ℕ)) :=
    if chunkIdSpecs = [] then
      (collectMatchedNodeIds doc lineNumSpecs nodeIdSpecs).map fun matched => (matched, none)
    else
      (mergeChunkIdSpecs chunkIdSpecs).map fun chunks =>
        (collectMatchedNodeIdsFromChunks doc.tree chunks, some chunks)
  match selection with
  | .error e => some (.error e)
  | .ok (matched, chunkFilter) =>
    (expandWithAncestors matched (buildParentMap doc.tree)).map fun kept =>
      .ok (matched, kept, chunkFilter)

/-- `reconstruct_skill_markdown`; `none` when it does not return. -/
def reconstructSkillMarkdown (index : SkillsIndex) (docId : Text)
    (lineNumSpecs nodeIdSpecs chunkIdSpecs : List Text) (opts : ReconstructOptions) :
    Option (Except String ReconstructResult) :=
  match index.documents.get? docId with
  | none => some (.error ("Document " ++ String.ofList docId ++ " not found"))
  | some doc =>
    match selectNodes doc lineNumSpecs nodeIdSpecs chunkIdSpecs with
    | none => none
    | some (.error e) => some (.error e)
    | some (.ok (matched, kept, chunkFilter)) =>
      let tree := if opts.keepAllHeaders then doc.tree else pruneStructure doc.tree kept
      some (.ok
        { markdown := assembleMarkdown env index doc tree kept opts.keepAllHeaders chunkFilter
          matchedNodeIds := sortDedup matched
          matchedChunkIds := chunkFilter.getD []
          nodeIds := sortDedup kept })

end ClearYourTools.PageIndex
