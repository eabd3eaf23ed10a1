import ClearYourTools.Bm25Search.Skills

/-!
# Skill search under a budget

`pipeline/skills.rs`: the entries that the frontmatter gate leaves are searched, and if there is
a budget, the rows of the search trace are looked up among the entries and selected from. The
traces that are returned beside the matches are left out.
-/

namespace ClearYourTools.Pipeline

open Misc PageIndex Bm25Search

structure SearchSkillsOptions where
  threshold : PyFloat
  maxTokens : ℤ
  frontmatterUpperLimit : Option PyFloat
  itemKind : Text

def SearchSkillsOptions.default : SearchSkillsOptions := ⟨.num (1 / 2), 0, none, "chunk"⟩

/-- The orders in which the hash maps of a search are walked. -/
structure HashOrders where
  lookup : HashOrder ((Text × Text) × SkillEntry)
  byDoc : HashOrder (Text × List SkillRow)
  best : HashOrder BudgetRow
  matchByDoc : HashOrder (Option SkillMatch)

/-- The body of the loop of `entry_lookup`. -/
def addEntry (lookup : List ((Text × Text) × SkillEntry)) (entry : SkillEntry) :
    List ((Text × Text) × SkillEntry) :=
  if entry.entryDir = [] ∨ entry.docId = [] then lookup
  else Dict.setEntries entry.key entry lookup

def entryLookup (entries : List SkillEntry) : List ((Text × Text) × SkillEntry) :=
  entries.foldl addEntry []

/-- `enrich_survivor`, on a row of the search trace. -/
def enrichSurvivor (row : TraceRow) (entry : SkillEntry) : BudgetRow :=
  { entryDir := row.entryDir.getD entry.entryDir
    docId := row.docId
    itemId := row.itemId
    score := row.score
    passed := row.passed
    filePath := row.filePath
    bm25ChunkDir := entry.chunkDir
    frontmatter := entry.frontmatter.getD entry.documentFrontmatter }

/-- The entry that `apply_budget_selection` finds for a row: without an entry directory, the
first one that has the document's id. -/
def entryOfRow (order : HashOrder ((Text × Text) × SkillEntry))
    (lookup : List ((Text × Text) × SkillEntry)) (row : TraceRow) : Option SkillEntry :=
  let entryDir := row.entryDir.getD []
  if entryDir = [] then
    ((order.walk lookup).find? fun e => e.1.2 == row.docId).map Prod.snd
  else lookup.lookup (entryDir, row.docId)

def applyBudgetSelection (store : SkillStore) (orders : HashOrders)
    (lookup : List ((Text × Text) × SkillEntry)) (traceRows : List TraceRow)
    (matches' : List SkillMatch) (options : SearchSkillsOptions) : Option (List SkillMatch) :=
  let survivors := traceRows.filterMap fun row =>
    (entryOfRow orders.lookup lookup row).map (enrichSurvivor row)
  if survivors = [] then some matches'
  else greedySelectSkillItems store orders.best orders.matchByDoc survivors options.itemKind
    options.maxTokens

/-- `apply_frontmatter_gate`: the entries that are not excluded. -/
def eligibleEntries (store : SkillStore) (entries : List SkillEntry) (query : Text)
    (options : SearchSkillsOptions) : List SkillEntry :=
  match options.frontmatterUpperLimit with
  | none => entries
  | some upper =>
    let excluded := frontmatterExcluded store entries query upper
    entries.filter fun entry => !excluded.contains entry.key

def searchSkillsAndSelect (store : SkillStore) (orders : HashOrders)
    (entries : List SkillEntry) (query : Text) (options : SearchSkillsOptions) :
    Option (List SkillMatch) :=
  if query.isBlank ∨ entries = [] then some []
  else
    (bm25SearchSkillChunks store orders.byDoc (eligibleEntries store entries query options) query
      options.threshold).bind fun found =>
        if 0 < options.maxTokens ∧ found.2 ≠ [] then
          applyBudgetSelection store orders (entryLookup entries) found.2 found.1 options
        else some found.1

end ClearYourTools.Pipeline
