import Mathlib.Algebra.Group.Nat.Defs
import ClearYourTools.Bm25Cohesion.Chunker
import ClearYourTools.Misc.Dict
import ClearYourTools.Misc.Forest

/-!
# The structure of a document

`pageindex/tree.rs` and `config.rs`: headings become a forest by their levels, its nodes are
numbered in preorder, and frontmatter and preamble go in front under ids of their own. A JSON
array of node objects is a forest; an object without a `nodes` field is a node without
children.
-/

/-! ## Markdown sections: `pageindex/parse.rs` -/

namespace ClearYourTools.PageIndex

open Misc

structure HeaderNode where
  title : Text
  lineNum : ℕ
deriving DecidableEq

structure ContentNode where
  title : Text
  lineNum : ℕ
  level : ℕ
  text : Text
deriving DecidableEq

/-- `parse_header`: one to six `#`, a blank, and a title. -/
def parseHeader (stripped : Text) : Option (ℕ × Text) :=
  if stripped.head? ≠ some '#' then none
  else
    let level := (stripped.takeWhile (· == '#')).length
    if level = 0 ∨ 6 < level then none
    else if stripped[level]? ≠ some ' ' then none
    else
      let title := Text.trim (stripped.drop level)
      if title = [] then none else some (level, title)

/-- `stripped.starts_with("```")`. -/
def isFence (stripped : Text) : Bool := Text.startsWith "```" stripped

/-- The loop of `extract_nodes_from_markdown` from line index `idx` on. -/
def extractNodesFrom (inCodeBlock : Bool) (idx : ℕ) : List Text → List HeaderNode
  | [] => []
  | line :: rest =>
    let stripped := line.trim
    if isFence stripped then extractNodesFrom (!inCodeBlock) (idx + 1) rest
    else if stripped.isEmpty || inCodeBlock then extractNodesFrom inCodeBlock (idx + 1) rest
    else
      match parseHeader stripped with
      | some (_, title) => ⟨title, idx + 1⟩ :: extractNodesFrom inCodeBlock (idx + 1) rest
      | none => extractNodesFrom inCodeBlock (idx + 1) rest

def extractNodesFromMarkdown (markdownContent : Text) : List HeaderNode × List Text :=
  let ls := markdownContent.lines
  (extractNodesFrom false 0 ls, ls)

variable (ls : List Text)

/-- `lines.get(start..end)`. -/
def getRange (start stop : ℕ) : Option (List Text) :=
  if start ≤ stop ∧ stop ≤ ls.length then some ((ls.take stop).drop start) else none

/-- The body of the first loop of `extract_node_text_content`. -/
def headingNode (markdownLines : List Text) (node : HeaderNode) : Option ContentNode :=
  match markdownLines[node.lineNum - 1]? with
  | none => none
  | some line =>
    match parseHeader line.trim with
    | none => none
    | some (level, _) => some ⟨node.title, node.lineNum, level, []⟩

/-- The first loop of `extract_node_text_content`: the nodes whose line is a heading. -/
def headingNodes (nodeList : List HeaderNode) (markdownLines : List Text) : List ContentNode :=
  nodeList.filterMap (headingNode markdownLines)

/-- The second loop: each node's text runs to the next node's line, or to the end. -/
def fillTexts (markdownLines : List Text) : List ContentNode → List ContentNode
  | [] => []
  | node :: rest =>
    let stop :=
      match rest with
      | next :: _ => next.lineNum - 1
      | [] => markdownLines.length
    let text := ((getRange markdownLines (node.lineNum - 1) stop).map fun slice =>
      Text.trim (Text.joinLines slice)).getD []
    { node with text := text } :: fillTexts markdownLines rest

def extractNodeTextContent (nodeList : List HeaderNode) (markdownLines : List Text) :
    List ContentNode :=
  fillTexts markdownLines (headingNodes nodeList markdownLines)

structure SkillPrefix where
  frontmatter : Option Text
  frontmatterLineNum : Option ℕ
  preamble : Option Text
  preambleLineNum : Option ℕ
deriving DecidableEq

def SkillPrefix.default : SkillPrefix := ⟨none, none, none, none⟩

/-- `line_num_from_index`: a line number fits in a `u32`. -/
def lineNumFromIndex (index : ℕ) : Option ℕ := if index + 1 < 2 ^ 32 then some (index + 1) else none

/-- The loop of `extract_preamble_from_lines` from line index `idx` on: the lines it pushes
and the number of the first of them with content outside the fence lines. -/
def preambleLoop (inCodeBlock : Bool) (idx : ℕ) : List Text → List Text × Option ℕ
  | [] => ([], none)
  | line :: rest =>
    let stripped := line.trim
    if isFence stripped then
      let r := preambleLoop (!inCodeBlock) (idx + 1) rest
      (line :: r.1, r.2)
    else if !inCodeBlock && (parseHeader stripped).isSome then ([], none)
    else
      let r := preambleLoop inCodeBlock (idx + 1) rest
      (line :: r.1, if stripped.isEmpty then r.2 else (lineNumFromIndex idx).or r.2)

def extractPreambleFromLines (startIdx : ℕ) : Option Text × Option ℕ :=
  let r := preambleLoop false startIdx (ls.drop startIdx)
  let text := Text.trim (Text.joinLines r.1)
  if text = [] then (none, none) else (some text, r.2)

/-- `line.trim() == "---"`. -/
def isDelimiter (line : Text) : Bool := line.trim == "---"

/-- The index of the first line with content, where the prefix scan starts. -/
def prefixStart : ℕ := ls.findIdx fun line => !line.trim.isEmpty

/-- The index of the first delimiter after `startIdx`, or the number of lines. -/
def frontmatterEnd (startIdx : ℕ) : ℕ := startIdx + 1 + (ls.drop (startIdx + 1)).findIdx isDelimiter

/-- `extract_skill_prefix` on the lines of the file. -/
def skillPrefixOfLines : SkillPrefix :=
  let startIdx := prefixStart ls
  if ¬ (ls[startIdx]?.any isDelimiter) then
    let r := extractPreambleFromLines ls 0
    ⟨none, none, r.1, r.2⟩
  else
    let endIdx := frontmatterEnd ls startIdx
    if ls.length ≤ endIdx then .default
    else
      let yaml := Text.joinLines ((ls.take endIdx).drop (startIdx + 1))
      let r := extractPreambleFromLines ls (endIdx + 1)
      ⟨some ("---\n" ++ yaml ++ "\n---"), lineNumFromIndex startIdx, r.1, r.2⟩

def extractSkillPrefix (markdownContent : Text) : SkillPrefix :=
  skillPrefixOfLines markdownContent.lines

open Misc Bm25Cohesion

def nodeIdFrontmatter : ℕ := 0

def nodeIdPreamble : ℕ := 1

def contentNodeIdStart : ℕ := 2

/-- `NODE_KIND_FRONTMATTER` and `NODE_KIND_PREAMBLE`. -/
inductive NodeKind where
  | frontmatter
  | preamble
deriving DecidableEq

/-- The fields of a structure node, of which only `line_num` is always there. A chunk
reference is the chunk id in it. -/
structure NodeObj where
  title : Option Text
  nodeId : Option ℕ
  kind : Option NodeKind
  lineNum : ℕ
  text : Option Text
  chunks : Option (List ℕ)
deriving DecidableEq

abbrev Structure := Forest NodeObj

structure PageIndexConfig where
  ifAddNodeId : Bool
  ifAddNodeText : Bool
  enableBm25Chunking : Bool
  bm25Cohesion : Bm25CohesionConfig

namespace PageIndexConfig

/-- `PageIndexConfig::default`. -/
def default : PageIndexConfig := ⟨true, false, true, Bm25CohesionConfig.defaultForMode .sentence⟩

def bm25SplittingEnabled (config : PageIndexConfig) : Bool :=
  config.enableBm25Chunking && decide (0 < config.bm25Cohesion.chunkSize)

def cohesionConfigForChunking (config : PageIndexConfig) : Bm25CohesionConfig :=
  if config.bm25SplittingEnabled then config.bm25Cohesion
  else { config.bm25Cohesion with chunkSize := 0 }

end PageIndexConfig

/-- `node_id_from_value` on an id that the builder wrote, or on a missing one. -/
def nodeIdFromValue (id : Option ℕ) : ℕ := id.getD 0

namespace NodeObj

variable (obj : NodeObj)

/-- `node_id_from_value(obj.get("node_id"))`. -/
def id : ℕ := nodeIdFromValue obj.nodeId

def isFrontmatterNode : Bool := obj.kind == some .frontmatter

def isPreambleNode : Bool := obj.kind == some .preamble

end NodeObj

structure MutableNode where
  value : NodeObj
  level : ℕ
  children : Structure

/-- The node object of a heading. -/
def headingObj (node : ContentNode) : NodeObj :=
  ⟨some node.title, none, none, node.lineNum, some node.text, none⟩

/-- The body of the `while` loops: the top of the stack becomes a child of the one below, or
a root. -/
def finishTop (finished : MutableNode) : List MutableNode → Structure → List MutableNode × Structure
  | [], roots => ([], roots.push finished.value finished.children)
  | parent :: stack, roots =>
    ({ parent with children := parent.children.push finished.value finished.children } :: stack,
      roots)

/-- The inner loop of `build_tree_from_nodes`: pop every level that `level` closes. -/
def popClosed (level : ℕ) : ℕ → List MutableNode → Structure → List MutableNode × Structure
  | 0, stack, roots => (stack, roots)
  | _ + 1, [], roots => ([], roots)
  | fuel + 1, top :: stack, roots =>
    if level ≤ top.level then
      let r := finishTop top stack roots
      popClosed level fuel r.1 r.2
    else (top :: stack, roots)

/-- The last loop of `build_tree_from_nodes`: pop everything. -/
def popAll : ℕ → List MutableNode → Structure → Structure
  | 0, _, roots => roots
  | _ + 1, [], roots => roots
  | fuel + 1, top :: stack, roots =>
    let r := finishTop top stack roots
    popAll fuel r.1 r.2

/-- The body of the outer loop of `build_tree_from_nodes`. -/
def pushHeading (state : List MutableNode × Structure) (node : ContentNode) :
    List MutableNode × Structure :=
  let r := popClosed node.level state.1.length state.1 state.2
  (⟨headingObj node, node.level, .nil⟩ :: r.1, r.2)

/-- `build_tree_from_nodes`. Each pop shortens the stack, so its length bounds the loops. -/
def buildTreeFromNodes (nodeList : List ContentNode) : Structure :=
  let r := nodeList.foldl pushHeading ([], .nil)
  popAll r.1.length r.1 r.2

/-- `write_node_id`, with the next free id. -/
def writeNodeId : Structure → ℕ → Structure × ℕ
  | .nil, next => (.nil, next)
  | .node obj children rest, next =>
    let c := writeNodeId children (next + 1)
    let r := writeNodeId rest c.2
    (.node { obj with nodeId := some next } c.1 r.1, r.2)

variable (tree : Structure)

def structureToList : List NodeObj := tree.preorder

def prefixNode (kind : NodeKind) (nodeId lineNum : ℕ) (text : Text) : NodeObj :=
  ⟨none, some nodeId, some kind, lineNum, some text, none⟩

def formatStructureForOutput (config : PageIndexConfig) : Structure :=
  if config.ifAddNodeText then tree
  else tree.map fun obj => { obj with text := none }

/-- A prefix node in front of the roots, when its trimmed text is not empty. -/
def insertPrefix (kind : NodeKind) (nodeId : ℕ) (text : Option Text) (lineNum : Option ℕ)
    (roots : Structure) : Structure :=
  match (text.map Text.trim).filter fun t => !t.isEmpty with
  | some t => .node (prefixNode kind nodeId (lineNum.getD 1) t) .nil roots
  | none => roots

def finalizeSkillStructure (frontmatter : Option Text) (frontmatterLineNum : Option ℕ)
    (preamble : Option Text) (preambleLineNum : Option ℕ) (config : PageIndexConfig) : Structure :=
  let tree := if config.ifAddNodeId then (writeNodeId tree contentNodeIdStart).1 else tree
  let merged :=
    insertPrefix .frontmatter nodeIdFrontmatter frontmatter frontmatterLineNum
      (insertPrefix .preamble nodeIdPreamble preamble preambleLineNum tree)
  formatStructureForOutput merged { config with ifAddNodeText := true }

/-! ## Documents, files and their names: `pageindex/types.rs`, `cache_layout.rs` -/

def nodeMdRel (nodeId : ℕ) : Text := "nodes/n" ++ Text.ofNat nodeId ++ ".md"

def pageIndexRel : Text := "nodes/page_index.json"

def normalizePipeline (pipeline : Text) : Text := pipeline.trim.map Char.toLower

/-- The directory of a chunk variant, relative to its entry. -/
def chunkVariantRel (pipeline paramsHash : Text) : Text :=
  "chunks/" ++ normalizePipeline pipeline ++ "/" ++ paramsHash ++ "/"

def chunkIndexRel (pipeline paramsHash : Text) : Text :=
  chunkVariantRel pipeline paramsHash ++ "chunk_index.json"

def chunkMdFilename (chunkId : ℕ) : Text := "c" ++ Text.ofNat chunkId ++ ".md"

def chunkMdRel (pipeline paramsHash : Text) (chunkId : ℕ) : Text :=
  chunkVariantRel pipeline paramsHash ++ chunkMdFilename chunkId

def docIdFromRelPath (relPath : Text) : Text :=
  let normalized := relPath.map fun c => if c = '\\' then '/' else c
  let withoutExt :=
    if ".md".toList.isSuffixOf normalized then normalized.dropLast.dropLast.dropLast
    else normalized
  (withoutExt.flatMap fun c => if c = '/' then "__" else [c]).map Char.toLower

/-- The fields of `SkillDocument` that the index functions read. -/
structure SkillDocument where
  id : Text
  path : Text
  tree : Structure
  frontmatter : Option Text
  preamble : Option Text

structure SkillsIndex where
  documents : Dict Text SkillDocument
  files : Dict Text Text
  chunkPipeline : Option Text
  chunkParamsHash : Option Text

def SkillsIndex.default : SkillsIndex := ⟨.empty, .empty, none, none⟩

def SkillsIndex.chunkMdRelFor (index : SkillsIndex) (chunkId : ℕ) : Option Text :=
  match index.chunkPipeline, index.chunkParamsHash with
  | some pipeline, some hash => some (chunkMdRel pipeline hash chunkId)
  | _, _ => none

/-- What the index functions call outside this package: the chunker's externals, the home
path, the JSON texts of the two index files, and the file system. -/
structure Environment where
  cohesion : Bm25Cohesion.Externals
  shortenHomePath : Text → Except String Text
  serializePageIndex : SkillDocument → Text
  serializeChunkIndex : Structure → Text → PageIndexConfig → Text
  readFile : Text → Option Text

/-- The tokens that `config` counts in a text. -/
def Environment.count (env : Environment) (config : PageIndexConfig) : Text → ℕ :=
  Bm25Cohesion.tokenCounterForKind env.cohesion.tiktoken
    config.cohesionConfigForChunking.tokenCounter

theorem nodeMdRel_injective {a b : ℕ} (h : nodeMdRel a = nodeMdRel b) : a = b := by
  unfold nodeMdRel at h
  rw [List.append_cancel_right_eq, List.append_cancel_left_eq] at h
  exact Text.ofNat_injective h

theorem chunkMdRel_injective {pipeline hash : Text} {a b : ℕ}
    (h : chunkMdRel pipeline hash a = chunkMdRel pipeline hash b) : a = b := by
  unfold chunkMdRel chunkMdFilename at h
  rw [List.append_cancel_left_eq, List.append_cancel_right_eq, List.append_cancel_left_eq] at h
  exact Text.ofNat_injective h

theorem getLast?_md (t : Text) : (t ++ ".md").getLast? = some 'd' := by simp

theorem getLast?_nodeMdRel (id : ℕ) : (nodeMdRel id).getLast? = some 'd' := by
  unfold nodeMdRel
  rw [getLast?_md]

variable (pipeline hash : Text)

theorem getLast?_chunkMdRel (id : ℕ) : (chunkMdRel pipeline hash id).getLast? = some 'd' := by
  unfold chunkMdRel chunkMdFilename
  rw [← List.append_assoc, getLast?_md]

theorem getLast?_pageIndexRel : pageIndexRel.getLast? = some 'n' := by decide

theorem getLast?_chunkIndexRel : (chunkIndexRel pipeline hash).getLast? = some 'n' := by
  have hname : "chunk_index.json".toList.getLast? = some 'n' := by decide
  unfold chunkIndexRel
  rw [List.getLast?_append, hname, Option.some_or]

variable (id : ℕ)

theorem head?_nodeMdRel : (nodeMdRel id).head? = some 'n' := by
  have hname : "nodes/n".toList.head? = some 'n' := by decide
  unfold nodeMdRel
  rw [List.append_assoc, List.head?_append, hname, Option.some_or]

theorem head?_chunkMdRel : (chunkMdRel pipeline hash id).head? = some 'c' := by
  have hname : "chunks/".toList.head? = some 'c' := by decide
  unfold chunkMdRel chunkVariantRel
  simp only [List.append_assoc]
  rw [List.head?_append, hname, Option.some_or]

theorem nodeMdRel_ne_chunkMdRel (pipeline hash : Text) (chunkId : ℕ) :
    nodeMdRel id ≠ chunkMdRel pipeline hash chunkId := by
  intro h
  have hhead := head?_nodeMdRel id
  rw [h, head?_chunkMdRel] at hhead
  revert hhead
  decide

theorem nodeMdRel_ne_pageIndexRel : nodeMdRel id ≠ pageIndexRel := by
  intro h
  have hlast := getLast?_nodeMdRel id
  rw [h, getLast?_pageIndexRel] at hlast
  revert hlast
  decide

theorem nodeMdRel_ne_chunkIndexRel (pipeline hash : Text) :
    nodeMdRel id ≠ chunkIndexRel pipeline hash := by
  intro h
  have hlast := getLast?_nodeMdRel id
  rw [h, getLast?_chunkIndexRel] at hlast
  revert hlast
  decide

theorem chunkMdRel_ne_pageIndexRel : chunkMdRel pipeline hash id ≠ pageIndexRel := by
  intro h
  have hlast := getLast?_chunkMdRel pipeline hash id
  rw [h, getLast?_pageIndexRel] at hlast
  revert hlast
  decide

theorem chunkMdRel_ne_chunkIndexRel (pipeline' hash' : Text) :
    chunkMdRel pipeline hash id ≠ chunkIndexRel pipeline' hash' := by
  intro h
  have hlast := getLast?_chunkMdRel pipeline hash id
  rw [h, getLast?_chunkIndexRel] at hlast
  revert hlast
  decide

end ClearYourTools.PageIndex
