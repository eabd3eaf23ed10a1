import ClearYourTools.Misc.PyFloat
import ClearYourTools.Misc.Slices

/-!
# The cohesion chunker

`bm25_cohesion/chunker.rs`: units are grouped at the minima of a similarity curve, groups are
packed into chunks of at most `chunk_size` tokens, and the chunks are stretched over the
gaps and merged while they are too small.
-/

/-! ## Cohesion chunker settings: `bm25_cohesion/config.rs`, `types.rs`, `token_counter.rs` -/

namespace ClearYourTools.Bm25Cohesion

open Misc

/-- `f64`, of which the chunker only uses the comparisons. -/
abbrev F64 := PyFloat

inductive WindowMode where
  | sentence
  | word
deriving DecidableEq

inductive IncludeDelimMode where
  | prev
  | next
deriving DecidableEq

inductive TokenCounterKind where
  | tiktoken
  | approximate
  | character
deriving DecidableEq

structure TextUnit where
  text : Text
  startIndex : ℕ
  endIndex : ℕ
  tokenCount : ℕ
deriving DecidableEq

structure CohesionChunk where
  text : Text
  startIndex : ℕ
  endIndex : ℕ
  tokenCount : ℕ
deriving DecidableEq

structure Bm25CohesionConfig where
  windowMode : WindowMode
  threshold : F64
  mergeThreshold : F64
  chunkSize : ℕ
  tokenCounter : TokenCounterKind
  similarityWindow : ℕ
  nextUnitSize : ℕ
  skipWindow : ℕ
  minUnitsPerChunk : ℕ
  minimumWords : ℕ
  minimumSentences : ℕ
  minCharactersPerSentence : ℕ
  minCharactersPerWord : ℕ
  delimiters : List Text
  includeDelim : IncludeDelimMode
  filterWindow : ℕ
  filterPolyorder : ℕ
  filterTolerance : F64

def defaultDelimiters : List Text := [". ".toList, "! ".toList, "? ".toList, "\n".toList]

namespace Bm25CohesionConfig

def applyModeDefaults (config : Bm25CohesionConfig) (mode : WindowMode) : Bm25CohesionConfig :=
  match mode with
  | .sentence =>
    { config with
      windowMode := mode
      similarityWindow := 3
      nextUnitSize := 1
      minUnitsPerChunk := 1 }
  | .word =>
    { config with
      windowMode := mode
      similarityWindow := 500
      nextUnitSize := 5
      minUnitsPerChunk := 3 }

def defaultForMode (mode : WindowMode) : Bm25CohesionConfig :=
  applyModeDefaults
    { windowMode := mode
      threshold := .num (8 / 10)
      mergeThreshold := .num (7 / 10)
      chunkSize := 2048
      tokenCounter := .tiktoken
      similarityWindow := 3
      nextUnitSize := 1
      skipWindow := 0
      minUnitsPerChunk := 1
      minimumWords := 10
      minimumSentences := 1
      minCharactersPerSentence := 24
      minCharactersPerWord := 2
      delimiters := defaultDelimiters
      includeDelim := .prev
      filterWindow := 5
      filterPolyorder := 3
      filterTolerance := .num (2 / 10) } mode

/-- `(0.0..1.0).contains(&x)`. -/
def unitInterval (x : F64) : Bool := PyFloat.le (.num 0) x && PyFloat.lt x (.num 1)

def validate (config : Bm25CohesionConfig) : Except String Unit :=
  if config.chunkSize = 0 then .ok ()
  else if config.similarityWindow = 0 then .error "similarity_window must be positive"
  else if config.minUnitsPerChunk = 0 then .error "min_units_per_chunk must be positive"
  else if !unitInterval config.threshold then .error "threshold must be between 0 and 1"
  else if !unitInterval config.mergeThreshold then
    .error "merge_threshold must be between 0 and 1"
  else if !unitInterval config.filterTolerance then
    .error "filter_tolerance must be between 0 and 1"
  else if config.filterWindow = 0 then .error "filter_window must be positive"
  else if config.filterWindow ≤ config.filterPolyorder then
    .error "filter_polyorder must be less than filter_window"
  else if config.nextUnitSize = 0 then .error "next_unit_size must be positive"
  else .ok ()

theorem validate_defaultForMode (mode : WindowMode) (chunkSize : ℕ) (kind : TokenCounterKind) :
    { defaultForMode mode with chunkSize := chunkSize, tokenCounter := kind }.validate =
      .ok () := by
  have hthreshold : unitInterval (.num (8 / 10)) = true := by decide +kernel
  have hmerge : unitInterval (.num (7 / 10)) = true := by decide +kernel
  have htolerance : unitInterval (.num (2 / 10)) = true := by decide +kernel
  cases mode <;>
    simp [validate, defaultForMode, applyModeDefaults, hthreshold, hmerge, htolerance]

end Bm25CohesionConfig

variable (text : Text)

/-- `approximate_token_count`: one for each ASCII character and two for each other, halved. -/
def approximateTokenCount : ℕ := (text.map fun c => if c.toNat < 128 then 1 else 2).sum / 2 + 1

def characterTokenCount : ℕ := max text.length 1

/-- `token_counter_for_kind`, given `tiktoken::count_tokens_or_min`. -/
def tokenCounterForKind (tiktoken : Text → ℕ) : TokenCounterKind → Text → ℕ
  | .tiktoken => tiktoken
  | .approximate => approximateTokenCount
  | .character => characterTokenCount

/-!
## Units of a text

`bm25_cohesion/segment.rs`. The `chunk` crate, which finds the sentence boundaries and the split and
merge points, is a parameter.
-/

/-- What `find_local_minima_interpolated` and `filter_split_indices` return. -/
structure Minima where
  indices : List ℕ
  values : List F64

/-- The functions of the `chunk` crate that the chunker calls. -/
structure ChunkCrate where
  splitAtPatterns : Text → List Text → IncludeDelimMode → ℕ → List (ℕ × ℕ)
  findLocalMinimaInterpolated : List F64 → ℕ → ℕ → F64 → Option Minima
  filterSplitIndices : List ℕ → List F64 → F64 → ℕ → Minima
  findMergeIndices : List ℕ → ℕ → List ℕ

/-- What the chunker relies on: the spans partition the text into consecutive parts, the
split indices increase, and the merge indices increase up to the end of the group. -/
structure ChunkCrate.Lawful (crate : ChunkCrate) : Prop where
  splitAtPatterns_partition : ∀ text patterns includeDelim minChars, text ≠ [] →
    ∃ parts : List Text, (∀ part ∈ parts, part ≠ []) ∧ parts.flatten = text ∧
      crate.splitAtPatterns text patterns includeDelim minChars =
        (placed 0 0 parts).map fun x => (x.1, x.1 + utf8Len x.2)
  filterSplitIndices_increasing : ∀ similarities window polyorder tolerance minima threshold
    minUnits, crate.findLocalMinimaInterpolated similarities window polyorder tolerance =
      some minima →
    (crate.filterSplitIndices minima.indices minima.values threshold minUnits).indices.Pairwise
      (· < ·)
  findMergeIndices_increasing : ∀ counts size, (crate.findMergeIndices counts size).Pairwise (· < ·)
  findMergeIndices_last : ∀ counts size, counts ≠ [] →
    (crate.findMergeIndices counts size).getLast? = some counts.length

/-- `u8::is_ascii_whitespace` on the bytes of a character. -/
def isAsciiWhitespace (c : Char) : Bool :=
  c == ' ' || c == '\t' || c == '\n' || c.toNat == 0xC || c == '\r'

/-- The span of a word that the inner loop of `simple_word_spans` has read, if long enough. -/
def wordSpan (minChars i : ℕ) : Option ℕ → List (ℕ × ℕ)
  | none => []
  | some start => if minChars ≤ i - start then [(start, i)] else []

/-- The loops of `simple_word_spans` at byte `i`, inside the word that starts at `start`. -/
def wordSpansFrom (minChars : ℕ) (start : Option ℕ) (i : ℕ) : Text → List (ℕ × ℕ)
  | [] => wordSpan minChars i start
  | c :: rest =>
    if isAsciiWhitespace c then
      wordSpan minChars i start ++ wordSpansFrom minChars none (i + c.utf8Size) rest
    else wordSpansFrom minChars (start.or (some i)) (i + c.utf8Size) rest

def simpleWordSpans (minChars : ℕ) : List (ℕ × ℕ) := wordSpansFrom minChars none 0 text

/-- The unit on the span `r`. -/
def unitOfSpan (count : Text → ℕ) (text : Text) (r : ℕ × ℕ) : TextUnit :=
  ⟨byteSlice text r.1 r.2, r.1, r.2, count (byteSlice text r.1 r.2)⟩

def segmentSentences (crate : ChunkCrate) (count : Text → ℕ) (text : Text)
    (config : Bm25CohesionConfig) : List TextUnit :=
  if text.trim = [] then []
  else
    let offsets := crate.splitAtPatterns text config.delimiters config.includeDelim
      config.minCharactersPerSentence
    let units := (offsets.filter fun r =>
      !(byteSlice text r.1 r.2).trim.isEmpty).map (unitOfSpan count text)
    if units = [] then [⟨text, 0, utf8Len text, count text⟩] else units

def segmentWords (count : Text → ℕ) (text : Text) (config : Bm25CohesionConfig) :
    List TextUnit :=
  if text.trim = [] then []
  else (simpleWordSpans text config.minCharactersPerWord).map (unitOfSpan count text)

def segmentUnits (crate : ChunkCrate) (count : Text → ℕ) (text : Text)
    (config : Bm25CohesionConfig) : List TextUnit :=
  match config.windowMode with
  | .sentence => segmentSentences crate count text config
  | .word => segmentWords count text config

/-- What the chunker calls outside this module: the `chunk` crate, the tokenizer and the BM25
scores. A score or curve that could not be computed is `none`. -/
structure Externals where
  crate : ChunkCrate
  tiktoken : Text → ℕ
  similarityCurve : List TextUnit → Bm25CohesionConfig → Option (List F64)
  corpusScorer : List Text → Option (Text → Text → List Text → Option F64)

/-- `Bm25CohesionChunker`, which `new` builds from a configuration that passes the check. -/
structure Bm25CohesionChunker where
  config : Bm25CohesionConfig
  valid : config.validate = .ok ()

variable (ext : Externals) (chunker : Bm25CohesionChunker)

namespace Bm25CohesionChunker

def new (config : Bm25CohesionConfig) : Except String Bm25CohesionChunker :=
  match h : config.validate with
  | .ok () => .ok ⟨config, h⟩
  | .error e => .error e

/-- `self.token_counter.count`. -/
def count : Text → ℕ := tokenCounterForKind ext.tiktoken chunker.config.tokenCounter

variable (text : Text)

def needsChunking : Bool :=
  decide (0 < chunker.config.chunkSize) &&
    decide (chunker.config.chunkSize < chunker.count ext text)

variable (source : Text)

/-- A chunk on a span of the source, with its text and its token count. -/
def sourceChunk (start stop : ℕ) : CohesionChunk :=
  ⟨byteSlice source start stop, start, stop, chunker.count ext (byteSlice source start stop)⟩

def singleChunk (start stop : ℕ) : CohesionChunk := ⟨text, start, stop, chunker.count ext text⟩

def extendLastChunkCoverage (source : Text) : List CohesionChunk → List CohesionChunk
  | [] => []
  | [last] =>
    if last.endIndex < utf8Len source then
      [chunker.sourceChunk ext source last.startIndex (utf8Len source)]
    else [last]
  | chunk :: rest => chunk :: extendLastChunkCoverage source rest

/-- `text.split_whitespace().count()`. -/
def wordCount : ℕ := (text.splitOnP isWhitespace).countP fun word => !word.isEmpty

def sentenceCount : ℕ := (segmentUnits ext.crate (chunker.count ext) text chunker.config).length

def isUndersized : Bool :=
  (decide (0 < chunker.config.minimumWords) &&
      decide (wordCount text < chunker.config.minimumWords)) ||
    (decide (0 < chunker.config.minimumSentences) &&
      decide (chunker.sentenceCount ext text < chunker.config.minimumSentences))

/-- `merge_undersized_chunks` at the last chunk: while it is too small it joins the chunk
before it. `done` holds the chunks before it, the nearest first. -/
def mergeBack (source : Text) : List CohesionChunk → CohesionChunk → List CohesionChunk
  | [], last => [last]
  | prev :: done, last =>
    if chunker.isUndersized ext last.text then
      mergeBack source done (chunker.sourceChunk ext source prev.startIndex last.endIndex)
    else (last :: prev :: done).reverse

/-- `merge_undersized_chunks` at `chunks[i]` with the chunks after it: one that is too small
joins the next. -/
def mergeForward (source : Text) :
    List CohesionChunk → CohesionChunk → List CohesionChunk → List CohesionChunk
  | done, chunk, [] => chunker.mergeBack ext source done chunk
  | done, chunk, next :: rest =>
    if chunker.isUndersized ext chunk.text then
      mergeForward source done (chunker.sourceChunk ext source chunk.startIndex next.endIndex) rest
    else mergeForward source (chunk :: done) next rest

def mergeUndersizedChunks : List CohesionChunk → List CohesionChunk
  | [] => []
  | chunk :: rest => chunker.mergeForward ext source [] chunk rest

def fillInterChunkGaps (source : Text) : List CohesionChunk → List CohesionChunk
  | chunk :: next :: rest =>
    (if chunk.endIndex < next.startIndex then
        chunker.sourceChunk ext source chunk.startIndex next.startIndex
      else chunk) :: fillInterChunkGaps source (next :: rest)
  | chunks => chunks

def unitsToChunk (units : List TextUnit) : CohesionChunk :=
  let start := (units.head?.map TextUnit.startIndex).getD 0
  let stop := (units.getLast?.map TextUnit.endIndex).getD (utf8Len source)
  ⟨byteSlice source start stop, start, stop, (units.map TextUnit.tokenCount).sum⟩

def splitIndices (similarities : List F64) (unitCount : ℕ) : List ℕ :=
  if similarities = [] ∨ similarities.length < chunker.config.filterWindow then []
  else
    match ext.crate.findLocalMinimaInterpolated similarities chunker.config.filterWindow
        chunker.config.filterPolyorder chunker.config.filterTolerance with
    | none => []
    | some minima =>
      if minima.indices = [] then []
      else
        let filtered := ext.crate.filterSplitIndices minima.indices minima.values
          chunker.config.threshold chunker.config.minUnitsPerChunk
        if filtered.indices = [] then []
        else
          0 :: (filtered.indices.map (· + chunker.config.similarityWindow)) ++ [unitCount]

end Bm25CohesionChunker

/-- The loop of `group_units` over the windows of two split indices. -/
def windowGroups (units : List TextUnit) : List ℕ → List (List TextUnit)
  | start :: stop :: rest =>
    if start < stop ∧ stop ≤ units.length then
      (units.take stop).drop start :: windowGroups units (stop :: rest)
    else windowGroups units (stop :: rest)
  | _ => []

def groupUnits (units : List TextUnit) (splitIndices : List ℕ) : List (List TextUnit) :=
  if splitIndices = [] then [units]
  else
    let groups := windowGroups units splitIndices
    if groups = [] ∧ units ≠ [] then [units] else groups

def groupText (group : List TextUnit) : Text := (group.map TextUnit.text).flatten

/-- The inner loop of `skip_and_merge`: the index of the best group to merge up to. -/
def bestMerge (threshold : F64) (score : Text → F64) (bestScore : F64) (bestIdx : Option ℕ)
    (j : ℕ) : List (List TextUnit) → Option ℕ
  | [] => bestIdx
  | group :: rest =>
    let s := score (groupText group)
    if PyFloat.le threshold s && PyFloat.lt bestScore s then
      bestMerge threshold score s (some j) (j + 1) rest
    else bestMerge threshold score bestScore bestIdx (j + 1) rest

/-- The outer loop of `skip_and_merge` on the groups from `i` on. -/
def skipAndMergeFrom (threshold : F64) (skipWindow : ℕ) (score : Text → Text → F64) :
    List (List TextUnit) → List (List TextUnit)
  | [] => []
  | [last] => [last]
  | group :: next :: rest =>
    match bestMerge threshold (score (groupText group)) (.num (-1)) none 0
        ((next :: rest).take (skipWindow + 1)) with
    | some j =>
      (group ++ ((next :: rest).take (j + 1)).flatten) ::
        skipAndMergeFrom threshold skipWindow score ((next :: rest).drop (j + 1))
    | none => group :: skipAndMergeFrom threshold skipWindow score (next :: rest)
termination_by groups => groups.length
decreasing_by all_goals (simp only [List.length_drop, List.length_cons]; omega)

def skipAndMerge (groups : List (List TextUnit)) (config : Bm25CohesionConfig) :
    List (List TextUnit) :=
  if groups.length ≤ 1 ∨ config.skipWindow = 0 then groups
  else
    let refs := groups.map groupText
    let scorer := ext.corpusScorer refs
    let score := fun query doc => (scorer.bind fun s => s query doc refs).getD (.num 0)
    skipAndMergeFrom config.mergeThreshold config.skipWindow score groups

/-- The units of `group` between consecutive merge indices, from `startUnit` on. -/
def packUnits (group : List TextUnit) (startUnit : ℕ) : List ℕ → List (List TextUnit)
  | [] => []
  | endUnit :: rest =>
    let stop := min endUnit group.length
    if startUnit < stop then (group.take stop).drop startUnit :: packUnits group stop rest
    else packUnits group stop rest

namespace Bm25CohesionChunker

/-- The unit lists that `groups_to_chunks` makes chunks of, for one group. -/
def packGroup (group : List TextUnit) : List (List TextUnit) :=
  if group = [] then []
  else if (group.map TextUnit.tokenCount).sum ≤ chunker.config.chunkSize then [group]
  else
    packUnits group 0
      (ext.crate.findMergeIndices (group.map TextUnit.tokenCount) chunker.config.chunkSize)

def groupsToChunks (source : Text) (groups : List (List TextUnit)) : List CohesionChunk :=
  let chunks := (groups.flatMap (chunker.packGroup ext)).map (unitsToChunk source)
  if chunks = [] then [chunker.singleChunk ext source 0 (utf8Len source)] else chunks

/-- The part of `chunk` behind the early returns. -/
def chunkUnits (text : Text) (units : List TextUnit) : List CohesionChunk :=
  let config := chunker.config
  let similarities := (ext.similarityCurve units config).getD []
  let groups := groupUnits units (chunker.splitIndices ext similarities units.length)
  let groups := if 0 < config.skipWindow ∧ 1 < groups.length then
    skipAndMerge ext groups config else groups
  let chunks := chunker.groupsToChunks ext text groups
  let chunks := if 1 < chunks.length then chunker.fillInterChunkGaps ext text chunks else chunks
  let chunks := chunker.extendLastChunkCoverage ext text chunks
  if 1 < chunks.length then chunker.mergeUndersizedChunks ext text chunks else chunks

def chunk (text : Text) : List CohesionChunk :=
  if text.trim = [] then []
  else if chunker.config.chunkSize = 0 then
    [chunker.singleChunk ext text 0 (utf8Len text)]
  else if chunker.count ext text ≤ chunker.config.chunkSize then
    [chunker.singleChunk ext text 0 (utf8Len text)]
  else
    let units := segmentUnits ext.crate (chunker.count ext) text chunker.config
    if units = [] then [chunker.singleChunk ext text 0 (utf8Len text)]
    else if units.length ≤ chunker.config.similarityWindow then [unitsToChunk text units]
    else chunker.chunkUnits ext text units

end Bm25CohesionChunker

end ClearYourTools.Bm25Cohesion
