import ClearYourTools.Bm25Search.Skills
import ClearYourTools.Misc.Tally

/-!
# Skill selection under a budget

`bm25_search/skills.rs`, `greedy_select_skill_items` on rows as callers pass them, with ids that are
texts, and with all that it returns. What it calls are parameters. What gives an error is `none`.
-/

namespace ClearYourTools.Bm25Search.SkillBudget

open Misc PageIndex

/-- The fields of a survivor row that are read. `passed` is false without that key, and a text is
empty without its key. A JSON number is finite. -/
structure SurvivorRow where
  passed : Bool
  filePath : Text
  itemId : Text
  score : Option ℚ
  entryDir : Text
  docId : Text
  bm25ChunkDir : Option Text
  frontmatter : Option Text
deriving DecidableEq

namespace SurvivorRow

variable (row : SurvivorRow)

def key : Text × Text := (row.filePath, row.itemId)

def docKey : Text × Text := (row.entryDir, row.docId)

/-- `get("score").and_then(Value::as_f64).unwrap_or(0.0)`. -/
def scoreOrZero : ℚ := row.score.getD 0

/-- `bm25_chunk_dir`, for which the entry directory stands in. -/
def chunkDir : Text := row.bm25ChunkDir.getD row.entryDir

end SurvivorRow

/-- What the selection calls. -/
structure SkillRestorer (ι : Type) where
  loadSkillsIndexFromEntry : Text → Text → Option Text → Option ι
  reconstructSkillMarkdown : ι → Text → List Text → List Text → Option Text
  sumCachedTokenCountsForSpecs : ι → Text → List Text → Option ℕ
  countTokensOrMin : Text → ℕ

variable {ι : Type}

def wrappedInjectionTokens (countTokensOrMin : Text → ℕ) (matches' : List SkillMatch) : ℕ :=
  let injected := formatAgentSkillsInjection matches'
  if injected = [] then 0 else countTokensOrMin injected

variable (r : SkillRestorer ι)

def reconstructGroupMatch (entryDir docId bm25ChunkDir itemKind : Text) (idSpecs : List Text)
    (filePath : Text) (topScore : ℚ) (frontmatter : Option Text) : Option (Option SkillMatch) :=
  let chunkDir := if bm25ChunkDir = [] then none else some bm25ChunkDir
  (r.loadSkillsIndexFromEntry entryDir docId chunkDir).bind fun index =>
    (if isChunkKind itemKind then r.reconstructSkillMarkdown index docId [] idSpecs
      else r.reconstructSkillMarkdown index docId idSpecs []).map fun reconstructed =>
        let markdown := reconstructed.trim
        if markdown = [] then none
        else some
          { docId := docId
            filePath := filePath
            markdown := markdown
            name := skillNameFromFrontmatterText frontmatter docId
            score := .num topScore
            tokenCount := (r.sumCachedTokenCountsForSpecs index itemKind idSpecs).getD
              (r.countTokensOrMin markdown)
            entryDir := entryDir }

/-- `is_none_or(|existing_score| score > existing_score)`. -/
def replaces (existing : Option SurvivorRow) (row : SurvivorRow) : Bool :=
  match existing.bind SurvivorRow.score with
  | none => true
  | some score => decide (score < row.scoreOrZero)

/-- The body of the first loop. -/
def keepBest (best : Dict (Text × Text) SurvivorRow) (row : SurvivorRow) :
    Dict (Text × Text) SurvivorRow :=
  if row.passed = false then best
  else if row.filePath = [] ∨ row.itemId = [] then best
  else if replaces (best.get? row.key) row then best.set row.key row
  else best

/-- The comparison of the first sort: by score from the highest, path and item. -/
def rowLe (a b : SurvivorRow) : Bool :=
  if b.scoreOrZero < a.scoreOrZero then true
  else if a.scoreOrZero < b.scoreOrZero then false
  else if a.filePath ≠ b.filePath then textLe a.filePath b.filePath
  else textLe a.itemId b.itemId

/-- Rust's `str::parse::<i64>`. -/
def parseI64 (t : Text) : Option ℤ :=
  match t with
  | '-' :: digits =>
    ((parseDigits digits).filter fun n => decide (n ≤ 2 ^ 63)).map fun n => -(n : ℤ)
  | '+' :: digits => ((parseDigits digits).filter fun n => decide (n < 2 ^ 63)).map Int.ofNat
  | digits => ((parseDigits digits).filter fun n => decide (n < 2 ^ 63)).map Int.ofNat

def specLe (a b : Text) : Bool := decide ((parseI64 a).getD 0 ≤ (parseI64 b).getD 0)

/-- The ids of the rows of a document, sorted and without repeats next to each other. -/
def idSpecs (rows : List SurvivorRow) : List Text :=
  ((rows.map SurvivorRow.itemId).mergeSort specLe).destutter (· ≠ ·)

/-- `fold(0.0, f64::max)` over the scores. -/
def topScore (rows : List SurvivorRow) : ℚ := (rows.filterMap SurvivorRow.score).foldl max 0

/-- `get("score").and_then(Value::as_f64).unwrap_or(0.0)` of a match. -/
def matchScore (found : SkillMatch) : ℚ :=
  match found.score with
  | .num q => q
  | _ => 0

/-- The comparison of the second sort. -/
def matchLe (a b : SkillMatch) : Bool := decide (matchScore b ≤ matchScore a)

structure BudgetTraceRow where
  filePath : Text
  itemId : Text
  itemKind : Text
  score : ℚ
  tokens : ℤ
  passed : Bool

/-- What the loop keeps. -/
structure BudgetState where
  selected : List SurvivorRow
  bestMatches : List SkillMatch
  rowsByDoc : Dict (Text × Text) (List SurvivorRow)
  matchByDoc : Dict (Text × Text) (Option SkillMatch)
  budgetTrace : List BudgetTraceRow

/-- What is returned. -/
structure SkillSelection where
  matches' : List SkillMatch
  selected : List SurvivorRow
  budgetTrace : List BudgetTraceRow

/-- The order in which the matches are walked when a row is tried. -/
abbrev MatchOrders := SurvivorRow → HashOrder ((Text × Text) × Option SkillMatch)

/-- The values of the map in the order of the walk, sorted. -/
def sortedMatches (order : HashOrder ((Text × Text) × Option SkillMatch))
    (matchByDoc : Dict (Text × Text) (Option SkillMatch)) : List SkillMatch :=
  ((order.walk matchByDoc.entries).filterMap Prod.snd).mergeSort matchLe

def trialDocRows (state : BudgetState) (row : SurvivorRow) : List SurvivorRow :=
  (state.rowsByDoc.get? row.docKey).getD [] ++ [row]

/-- The body of the loop when the trial has restored a match, or none. -/
def tryMatch (countTokensOrMin : Text → ℕ) (orders : MatchOrders) (itemKind : Text)
    (maxTokens : ℤ) (state : BudgetState) (row : SurvivorRow) (trialDocMatch : Option SkillMatch) :
    BudgetState :=
  let trialMatchByDoc := state.matchByDoc.set row.docKey trialDocMatch
  let trialMatches := sortedMatches (orders row) trialMatchByDoc
  let tokens := countAsI64 (wrappedInjectionTokens countTokensOrMin trialMatches)
  let passed := decide (tokens ≤ maxTokens)
  let budgetTrace := state.budgetTrace ++ [⟨row.filePath, row.itemId, itemKind, row.scoreOrZero,
    tokens, passed⟩]
  bif passed then
    { selected := state.selected ++ [row]
      bestMatches := trialMatches
      rowsByDoc := state.rowsByDoc.set row.docKey (trialDocRows state row)
      matchByDoc := trialMatchByDoc
      budgetTrace := budgetTrace }
  else
    { selected := state.selected
      bestMatches := state.bestMatches
      rowsByDoc := state.rowsByDoc
      matchByDoc := state.matchByDoc
      budgetTrace := budgetTrace }

/-- The body of the loop. -/
def greedyStep (orders : MatchOrders) (itemKind : Text) (maxTokens : ℤ) (state : BudgetState)
    (row : SurvivorRow) : Option BudgetState :=
  (reconstructGroupMatch r row.entryDir row.docId row.chunkDir itemKind
    (idSpecs (trialDocRows state row)) row.filePath (topScore (trialDocRows state row))
    row.frontmatter).map (tryMatch r.countTokensOrMin orders itemKind maxTokens state row)

/-- The best row of each key, in the order of the selection. -/
def orderedRows (order : HashOrder SurvivorRow) (survivors : List SurvivorRow) :
    List SurvivorRow :=
  (order.walk (survivors.foldl keepBest .empty).vals).mergeSort rowLe

def greedySelectSkillItems (order : HashOrder SurvivorRow) (orders : MatchOrders)
    (survivors : List SurvivorRow) (itemKind : Text) (maxTokens : ℤ) : Option SkillSelection :=
  ((orderedRows order survivors).foldlM (greedyStep r orders itemKind maxTokens)
    ⟨[], [], .empty, .empty, []⟩).map fun state =>
      ⟨state.bestMatches, state.selected, state.budgetTrace⟩

end ClearYourTools.Bm25Search.SkillBudget
