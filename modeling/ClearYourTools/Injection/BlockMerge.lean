import ClearYourTools.Misc.Dict
import ClearYourTools.Misc.Search

/-!
# Merging injection blocks

`injection/block_merge.py`, and `ensure_agent_tools_starts_on_new_line` of `tools/inject.py`: a
turn text has at most one `<agent-skills>` and one `<agent-tools>` block, and a new injection
is merged into the block that is there.
-/

namespace ClearYourTools.Injection

open Misc
open Matcher (element literal)

def skillsOpen : Text := "<agent-skills"
def skillsClose : Text := "</agent-skills>"
def toolsOpen : Text := "<agent-tools"
def toolsClose : Text := "</agent-tools>"
def introStart : Text := "Based on the user query"

/-- `Based on the user query[^\n]*\n\n`. -/
def introLine : Matcher :=
  (literal introStart).andThen fun t =>
    let line := t.takeWhile (· != '\n')
    ((literal ['\n', '\n']) (t.drop line.length)).map fun r => (line ++ r.1, r.2)

/-- `_SKILLS_BLOCK_RE`: a block, with the intro line if it is right before it. -/
def skillsBlock : Matcher := fun t =>
  match (introLine.andThen (element skillsOpen skillsClose)) t with
  | some r => some r
  | none => element skillsOpen skillsClose t

/-- `_TOOLS_BLOCK_RE`: a block, with the line feed if one is right before it. -/
def toolsBlock : Matcher := fun t =>
  match ((literal ['\n']).andThen (element toolsOpen toolsClose)) t with
  | some r => some r
  | none => element toolsOpen toolsClose t

/-- `_SKILL_ITEM_RE`. -/
def skillItem : Matcher := element "<skill" "</skill>"

/-- `_TOOL_ITEM_RE`. -/
def toolItem : Matcher := element "<tool" "</tool>"

def innerSourceTags : List Text :=
  ["mcpc".toList, "executor".toList, "definitions".toList, "cyt_mcp".toList,
    "cloudflare"]

/-- `_INNER_SOURCE_RE[tag]`. -/
def innerSource (tag : Text) : Matcher := element ('<' :: tag) ('<' :: '/' :: (tag ++ ['>']))

/-- `start([^q]*)q` for a quote `q`: the value of the first attribute written so. -/
def attributeValue (start : Text) (quote : Char) (t : Text) : Option Text :=
  (Matcher.search ((literal start).andThen (Matcher.upTo [quote])) t).map fun r =>
    (r.2.1.drop start.length).dropLast

/-- `_extract_block` and `_extract_source_section`. -/
def extract (m : Matcher) (t : Text) : Text :=
  match m.search t with
  | some (_, block, _) => block.strip
  | none => []

def skillItemKey (item : Text) : Text :=
  match attributeValue "name=\"" '"' item with
  | some name => name
  | none =>
    match attributeValue "path=\"" '"' item with
    | some path => path
    | none =>
      match attributeValue "command='" '\'' item with
      | some command => command
      | none => item.strip

def toolItemKey (item : Text) : Text :=
  match attributeValue "name='" '\'' item with
  | some name => name
  | none => item.strip

def ensureAgentToolsStartsOnNewLine (injection after : Text) : Text :=
  let stripped := injection.dropWhile (· == '\n')
  if ¬ toolsOpen.isPrefixOf stripped then injection
  else if after ≠ [] ∧ after.getLast? ≠ some '\n' then '\n' :: stripped
  else if injection.head? = some '\n' then injection
  else '\n' :: stripped

/-- The items of both blocks by key, the later item in the place of the earlier one. -/
def mergedItems (m : Matcher) (key : Text → Text) (priorBlock deltaBlock : Text) : List Text :=
  let items := m.findAll priorBlock ++ m.findAll deltaBlock
  (items.foldl (fun merged item => Dict.setEntries (key item) item merged) []).map Prod.snd

def skillsIntro (block : Text) : Text :=
  match skillsBlock.search block with
  | none => []
  | some (before, _, _) =>
    let start := before.strip
    if introStart.isPrefixOf start then start else []

def mergeAgentSkillsBlocks (prior delta : Text) : Text :=
  let priorBlock := prior.strip
  let deltaBlock := delta.strip
  if priorBlock = [] then deltaBlock
  else if deltaBlock = [] then priorBlock
  else
    let intro := if skillsIntro deltaBlock = [] then skillsIntro priorBlock
      else skillsIntro deltaBlock
    let head := if intro = [] then [] else [intro, []]
    Text.joinLines (head ++ ["<agent-skills>".toList] ++
      mergedItems skillItem skillItemKey priorBlock deltaBlock ++ [skillsClose])

/-- The tag that `pattern.match` finds at the start of the text. -/
def openTagOf (t : Text) : Option Text := (Matcher.openTag toolsOpen t).map Prod.fst

/-- `_merge_inner_source_sections`: the section of every tag, of the delta before the prior. -/
def mergeInnerSourceSections (priorBlock deltaBlock : Text) : Option Text :=
  let tag := ((openTagOf deltaBlock).or (openTagOf priorBlock)).getD "<agent-tools>"
  let section' (name : Text) : Text :=
    if extract (innerSource name) deltaBlock = [] then extract (innerSource name) priorBlock
    else extract (innerSource name) deltaBlock
  let mergedInner := (innerSourceTags.map section').filter fun s => !s.isEmpty
  if mergedInner = [] then none
  else some (Text.joinLines (tag :: (mergedInner ++ [toolsClose])))

/-- The text inside a block: without `^<agent-tools[^>]*>\s*` and `\s*</agent-tools>\s*$`. -/
def blockBody (block : Text) : Text :=
  let inner :=
    match Matcher.openTag toolsOpen block with
    | some r => r.2.lstrip
    | none => block
  if toolsClose.isSuffixOf inner.rstrip then
    Text.rstrip (inner.rstrip.take (inner.rstrip.length - toolsClose.length))
  else inner

def mergeKeyedItemBlocks (priorBlock deltaBlock : Text) : Text :=
  let search (t : Text) : Option Text := ((Matcher.openTag toolsOpen).search t).map fun r => r.2.1
  let tag := ((search deltaBlock).or (search priorBlock)).getD
    (deltaBlock.takeWhile (· != '\n'))
  let lines := mergedItems toolItem toolItemKey priorBlock deltaBlock
  if lines = [] then
    let body := if Text.strip (blockBody deltaBlock) = [] then Text.strip (blockBody priorBlock)
      else Text.strip (blockBody deltaBlock)
    if body = [] then (if deltaBlock = [] then priorBlock else deltaBlock)
    else Text.joinLines [tag, body, toolsClose]
  else Text.joinLines (tag :: (lines ++ [toolsClose]))

def mergeAgentToolsBlocks (prior delta : Text) : Text :=
  let priorBlock := prior.strip
  let deltaBlock := delta.strip
  let merged :=
    if priorBlock = [] then deltaBlock
    else if deltaBlock = [] then priorBlock
    else (mergeInnerSourceSections priorBlock deltaBlock).getD
      (mergeKeyedItemBlocks priorBlock deltaBlock)
  ensureAgentToolsStartsOnNewLine merged []

inductive Domain where
  | skills
  | tools
deriving DecidableEq

/-- `p in text`. -/
def occursIn (p t : Text) : Bool := ((Matcher.literal p).search t).isSome

def injectionDomain (t : Text) : Option Domain :=
  if occursIn skillsOpen t then some .skills
  else if occursIn toolsOpen t then some .tools
  else none

/-- `re.sub(r"\n{3,}", "\n\n", text)`, after `n` line feeds. -/
def collapseLineFeedsFrom : ℕ → Text → Text
  | _, [] => []
  | n, c :: t =>
    if c = '\n' then
      if n < 2 then '\n' :: collapseLineFeedsFrom (n + 1) t else collapseLineFeedsFrom n t
    else c :: collapseLineFeedsFrom 0 t

def stripAgentSkillsBlocks (t : Text) : Text :=
  if t.strip = [] then []
  else Text.strip (collapseLineFeedsFrom 0 (skillsBlock.removeAll t))

/-- `text.replace(old, new, 1)`. -/
def replaceFirst (old new t : Text) : Text :=
  match (literal old).search t with
  | some (before, _, after) => before ++ new ++ after
  | none => t

/-- The end of `merge_injection_into_text`: the delta after the existing text. -/
def appendDelta (existing delta : Text) : Text :=
  if existing.getLast? = some '\n' then existing ++ '\n' :: delta
  else existing ++ '\n' :: '\n' :: ensureAgentToolsStartsOnNewLine delta existing

def mergeInjectionIntoText (existing delta : Text) (sameTurn : Bool) : Text :=
  let delta := delta.strip
  if delta = [] then existing
  else if existing.strip = [] then delta
  else
    match injectionDomain delta with
    | some .skills =>
      if !sameTurn then
        let cleaned := stripAgentSkillsBlocks existing
        if cleaned = [] then delta else cleaned ++ '\n' :: '\n' :: delta
      else
        let deltaBlock := extract skillsBlock delta
        let priorBlock := extract skillsBlock existing
        if deltaBlock ≠ [] ∧ priorBlock ≠ [] then
          replaceFirst priorBlock (mergeAgentSkillsBlocks priorBlock deltaBlock) existing
        else appendDelta existing delta
    | some .tools =>
      let deltaBlock := extract toolsBlock delta
      let priorBlock := extract toolsBlock existing
      if deltaBlock ≠ [] ∧ priorBlock ≠ [] then
        replaceFirst priorBlock (mergeAgentToolsBlocks priorBlock deltaBlock) existing
      else appendDelta existing delta
    | none => appendDelta existing delta

end ClearYourTools.Injection
