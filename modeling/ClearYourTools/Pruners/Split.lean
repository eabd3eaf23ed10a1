import Mathlib.Data.List.Sort
import ClearYourTools.Misc.Text

/-!
# Bulks

`pruners/split.py`: a list of items is split into bulks that fit a limit on the tokens, by one
pass in the order of the items, or from the heaviest item on into the lightest bulk.
-/

namespace ClearYourTools.Pruners

open Misc

variable {T : Type}

/-- `count_tokens_batch`: the tokens of each text. -/
structure TokenBatch where
  countTokensBatch : List Text → List ℤ
  length_countTokensBatch : ∀ texts, (countTokensBatch texts).length = texts.length

def resolveItemTokenCounts (tokens : TokenBatch) (texts : List Text)
    (itemTokenCounts : Option (List ℤ)) : List ℤ :=
  if texts.isEmpty then []
  else
    match itemTokenCounts with
    | none => tokens.countTokensBatch texts
    | some counts =>
      if counts.length ≠ texts.length then tokens.countTokensBatch texts
      else
        let missingIndices := (List.range counts.length).filter fun index => counts.getD index 0 ≤ 0
        if missingIndices.isEmpty then counts
        else
          let missingTexts := missingIndices.map fun index => texts.getD index []
          (missingIndices.zip (tokens.countTokensBatch missingTexts)).foldl
            (fun resolved found => resolved.set found.1 found.2) counts

def itemTokens (tokens : TokenBatch) (transformFn : T → Text) (itemTokenCounts : Option (List ℤ))
    (items : List T) : List (T × ℤ) :=
  items.zip (resolveItemTokenCounts tokens (items.map transformFn) itemTokenCounts)

/-- Each item of a bulk stands with its tokens. -/
abbrev Bulk (T : Type) := List (T × ℤ)

def Bulk.items (bulk : Bulk T) : List T := bulk.map Prod.fst

/-- The bulks that are closed, the current one and its tokens. -/
structure SplitState (T : Type) where
  bulks : List (Bulk T)
  currentBulk : Bulk T
  currentTokens : ℤ

/-- A bulk is closed only if it has items. -/
def closeBulk (bulks : List (Bulk T)) (bulk : Bulk T) : List (Bulk T) :=
  if bulk.isEmpty then bulks else bulks ++ [bulk]

def splitItem (baseTokens maxTokens : ℤ) (state : SplitState T) (item : T × ℤ) : SplitState T :=
  if baseTokens + item.2 > maxTokens then state
  else if state.currentTokens + item.2 > maxTokens then
    { bulks := closeBulk state.bulks state.currentBulk
      currentBulk := [item]
      currentTokens := baseTokens + item.2 }
  else
    { state with
      currentBulk := state.currentBulk ++ [item]
      currentTokens := state.currentTokens + item.2 }

def splitItems (baseTokens maxTokens : ℤ) (items : List (T × ℤ)) : List (Bulk T) :=
  let state := items.foldl (splitItem baseTokens maxTokens) ⟨[], [], baseTokens⟩
  closeBulk state.bulks state.currentBulk

def splitIntoBulks (tokens : TokenBatch) (items : List T) (transformFn : T → Text)
    (baseTokens maxTokens : ℤ) (itemTokenCounts : Option (List ℤ)) : List (List T) :=
  if items.isEmpty then []
  else
    (splitItems baseTokens maxTokens (itemTokens tokens transformFn itemTokenCounts items)).map
      Bulk.items

def joinTokens (separatorTokens : ℤ) (bulk : Bulk T) : ℤ :=
  if bulk.isEmpty then 0 else separatorTokens

/-- The tokens of a bulk with the next item. -/
def nextTotal (separatorTokens itemTokens : ℤ) (bulk : Bulk T × ℤ) : ℤ :=
  bulk.2 + joinTokens separatorTokens bulk.1 + itemTokens

/-- The next bulk takes the place of the best one so far if the item fits and it is lighter. -/
def lighterBulk (maxTokens separatorTokens itemTokens : ℤ) (best : Option (ℕ × ℤ))
    (bulk : (Bulk T × ℤ) × ℕ) : Option (ℕ × ℤ) :=
  if nextTotal separatorTokens itemTokens bulk.1 ≤ maxTokens ∧
      best.all (fun found => bulk.1.2 < found.2) then some (bulk.2, bulk.1.2)
  else best

/-- The lightest of the bulks that the item fits into, and its tokens. -/
def bestBulk (maxTokens separatorTokens itemTokens : ℤ) (bulks : List (Bulk T × ℤ)) :
    Option (ℕ × ℤ) :=
  bulks.zipIdx.foldl (lighterBulk maxTokens separatorTokens itemTokens) none

/-- The bulks stand with their totals. -/
def placeItem (baseTokens maxTokens separatorTokens : ℤ) (bulks : List (Bulk T × ℤ))
    (item : T × ℤ) : List (Bulk T × ℤ) :=
  if baseTokens + item.2 > maxTokens then bulks
  else
    match bestBulk maxTokens separatorTokens item.2 bulks with
    | some best =>
      bulks.modify best.1 fun bulk =>
        (bulk.1 ++ [item], nextTotal separatorTokens item.2 bulk)
    | none => bulks ++ [([item], baseTokens + item.2)]

def placeItems (baseTokens maxTokens separatorTokens : ℤ) (items : List (T × ℤ)) :
    List (Bulk T × ℤ) :=
  (items.insertionSort fun item item' => item'.2 ≤ item.2).foldl
    (placeItem baseTokens maxTokens separatorTokens) []

def splitIntoBulksBalanced (tokens : TokenBatch) (items : List T) (transformFn : T → Text)
    (baseTokens maxTokens : ℤ) (itemTokenCounts : Option (List ℤ)) (separatorTokens : ℤ) :
    List (List T) :=
  if items.isEmpty then []
  else
    (placeItems baseTokens maxTokens separatorTokens
      (itemTokens tokens transformFn itemTokenCounts items)).map fun bulk => Bulk.items bulk.1

end ClearYourTools.Pruners
