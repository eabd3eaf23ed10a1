import ClearYourTools.Bm25Cohesion.Chunker

/-!
# Coverage of the source by its chunks

Behind the early returns no stage loses a byte between the first chunk's start and the text's
end. Nothing extends the first chunk to the start of the text, and the early return for few
units extends neither end.
-/

namespace ClearYourTools.Bm25Cohesion

open Misc List Bm25CohesionChunker
open Bm25CohesionChunker (unitsToChunk needsChunking fillInterChunkGaps packGroup mergeBack)

/-- The stretches of a text that can become units. -/
def unitPieces (crate : ChunkCrate) (config : Bm25CohesionConfig) (text : Text) : List Text :=
  match config.windowMode with
  | .sentence =>
    (crate.splitAtPatterns text config.delimiters config.includeDelim
      config.minCharactersPerSentence).map fun r => byteSlice text r.1 r.2
  | .word => text.splitOnP isAsciiWhitespace

def keepsWord (minChars : ℕ) (piece : Text) : Bool :=
  !piece.isEmpty && decide (minChars ≤ utf8Len piece)

/-- The pieces that become units. -/
def keepsPiece (config : Bm25CohesionConfig) (piece : Text) : Bool :=
  match config.windowMode with
  | .sentence => !piece.trim.isEmpty
  | .word => keepsWord config.minCharactersPerWord piece

/-- The unit of a piece at its offset. -/
def unitAt (count : Text → ℕ) (x : ℕ × Text) : TextUnit := ⟨x.2, x.1, x.1 + utf8Len x.2, count x.2⟩

/-- Units are slices of the text, one after the other. -/
structure UnitsOf (text : Text) (units : List TextUnit) : Prop where
  slices : ∀ u ∈ units, IsSlice text u.startIndex u.endIndex u.text
  ordered : units.Pairwise fun u v => u.endIndex ≤ v.startIndex

theorem utf8Size_of_isAsciiWhitespace {c : Char} (h : isAsciiWhitespace c = true) :
    c.utf8Size = 1 := by
  have hval : c.toNat ≤ 0x20 := by
    simp only [isAsciiWhitespace, Bool.or_eq_true, beq_iff_eq] at h
    rcases h with (((rfl | rfl) | rfl) | h) | rfl
    · decide
    · decide
    · decide
    · omega
    · decide
  rw [Char.utf8Size_eq_one_iff]
  exact UInt32.le_iff_toNat_le.mpr (by simp; omega)

/-- The scan, with the piece `word` of a word already read, is the pieces between whitespace. -/
theorem wordSpansFrom_eq (minChars : ℕ) (text word : Text) (start : ℕ) :
    wordSpansFrom minChars (if word = [] then none else some start) (start + utf8Len word) text =
      ((placed 1 start ((text.splitOnP isAsciiWhitespace).modifyHead (word ++ ·))).filter
        fun x => keepsWord minChars x.2).map fun x => (x.1, x.1 + utf8Len x.2) := by
  have hword : ∀ (word : Text) (start : ℕ),
      wordSpan minChars (start + utf8Len word) (if word = [] then none else some start) =
        ([(start, word)].filter fun x => keepsWord minChars x.2).map
          fun x => (x.1, x.1 + utf8Len x.2) := by
    intro word start
    by_cases hw : word = []
    · simp [hw, wordSpan, keepsWord]
    · by_cases hlong : minChars ≤ utf8Len word
      · simp [hw, wordSpan, keepsWord, hlong]
      · simp [hw, wordSpan, keepsWord, hlong]
  induction text generalizing word start with
  | nil => simpa [wordSpansFrom, placed] using hword word start
  | cons c text ih =>
    rw [wordSpansFrom, splitOnP_cons_eq_if_modifyHead]
    by_cases hc : isAsciiWhitespace c = true
    · have hrest := ih [] (start + utf8Len word + 1)
      have hid : (text.splitOnP isAsciiWhitespace).modifyHead (fun x : Text => [] ++ x) =
          text.splitOnP isAsciiWhitespace := by
        cases text.splitOnP isAsciiWhitespace <;> rfl
      rw [hid, if_pos rfl, utf8Len_nil, Nat.add_zero] at hrest
      rw [if_pos hc, if_pos hc, utf8Size_of_isAsciiWhitespace hc, hrest, hword,
        modifyHead_cons, List.append_nil, placed, ← map_append, ← filter_append]
      rfl
    · have hrest := ih (word ++ [c]) start
      have hcomp : ((text.splitOnP isAsciiWhitespace).modifyHead (List.cons c)).modifyHead
          (word ++ ·) = (text.splitOnP isAsciiWhitespace).modifyHead (word ++ [c] ++ ·) := by
        cases text.splitOnP isAsciiWhitespace <;> simp
      have hstart : (if word = [] then none else some start).or (some (start + utf8Len word)) =
          some start := by
        split
        · rename_i hnil
          simp [hnil]
        · rfl
      have hne : word ++ [c] ≠ [] := by simp
      rw [if_neg hne, utf8Len_append, utf8Len_cons, utf8Len_nil, Nat.add_zero,
        ← Nat.add_assoc] at hrest
      rw [if_neg hc, if_neg hc, hstart, hcomp, hrest]

theorem simpleWordSpans_eq (text : Text) (minChars : ℕ) :
    simpleWordSpans text minChars = ((placed 1 0 (text.splitOnP isAsciiWhitespace)).filter
        fun x => keepsWord minChars x.2).map fun x => (x.1, x.1 + utf8Len x.2) := by
  have h := wordSpansFrom_eq minChars text [] 0
  have hid : (text.splitOnP isAsciiWhitespace).modifyHead (fun x : Text => [] ++ x) =
      text.splitOnP isAsciiWhitespace := by
    cases text.splitOnP isAsciiWhitespace <;> rfl
  rwa [hid, if_pos rfl, utf8Len_nil, Nat.add_zero] at h

/-- How a text is laid out in the pieces that can become units. -/
structure UnitLayout (crate : ChunkCrate) (config : Bm25CohesionConfig) (text : Text)
    (gap : ℕ) : Prop where
  spaced : SpacedBy gap (unitPieces crate config text) text
  positive : ∀ piece ∈ unitPieces crate config text, 0 < utf8Len piece + gap
  units : ∀ count, segmentUnits crate count text config =
    ((placed gap 0 (unitPieces crate config text)).filter
      fun x => keepsPiece config x.2).map (unitAt count)

variable {text : Text}

theorem unitOfSpan_placed {gap : ℕ} {pieces : List Text} (h : SpacedBy gap pieces text)
    (count : Text → ℕ) {x : ℕ × Text} (hx : x ∈ placed gap 0 pieces) :
    unitOfSpan count text (x.1, x.1 + utf8Len x.2) = unitAt count x := by
  have hslice := byteSlice_of_isSlice (isSlice_of_mem_placed h [] hx)
  rw [nil_append] at hslice
  rw [unitOfSpan, unitAt]
  simp only [hslice]

variable {crate : ChunkCrate}

theorem unitLayout_words {config : Bm25CohesionConfig} (hmode : config.windowMode = .word)
    (htext : text.trim ≠ []) : UnitLayout crate config text 1 := by
  have hpieces : unitPieces crate config text = text.splitOnP isAsciiWhitespace := by
    simp only [unitPieces, hmode]
  have hspaced : SpacedBy 1 (text.splitOnP isAsciiWhitespace) text :=
    spacedBy_splitOnP (fun c hc => utf8Size_of_isAsciiWhitespace hc) text
  refine ⟨?_, ?_, ?_⟩
  · rw [hpieces]
    exact hspaced
  · intro piece _
    omega
  · intro count
    have hkeep : keepsPiece config = keepsWord config.minCharactersPerWord := by
      funext piece
      simp only [keepsPiece, hmode]
    simp only [segmentUnits, hmode, segmentWords]
    rw [if_neg htext, simpleWordSpans_eq, hpieces, hkeep, List.map_map]
    apply map_congr_left
    intro x hx
    exact unitOfSpan_placed hspaced count (mem_filter.mp hx).1

theorem exists_part_of_content {parts : List Text} (h : Text.trim parts.flatten ≠ []) :
    ∃ part ∈ parts, Text.trim part ≠ [] := by
  by_contra hnone
  apply h
  rw [Text.trim_eq_nil_iff]
  intro c hc
  obtain ⟨part, hpart, hcpart⟩ := mem_flatten.mp hc
  by_contra hcontent
  exact hnone ⟨part, hpart, fun hblank => hcontent (Text.trim_eq_nil_iff.mp hblank c hcpart)⟩

theorem unitLayout_sentences (hcrate : crate.Lawful) {config : Bm25CohesionConfig}
    (hmode : config.windowMode = .sentence) (htext : text.trim ≠ []) :
    UnitLayout crate config text 0 := by
  have hne : text ≠ [] := by
    rintro rfl
    exact htext rfl
  obtain ⟨parts, hparts, hflatten, hspans⟩ := hcrate.splitAtPatterns_partition text
    config.delimiters config.includeDelim config.minCharactersPerSentence hne
  have hspaced : SpacedBy 0 parts text := by
    have hnil : parts ≠ [] := by
      rintro rfl
      exact hne hflatten.symm
    rw [← hflatten]
    exact spacedBy_flatten hnil
  have hslice : ∀ x ∈ placed 0 0 parts, byteSlice text x.1 (x.1 + utf8Len x.2) = x.2 :=
    fun x hx => byteSlice_of_isSlice (isSlice_of_mem_placed hspaced [] hx)
  have hpieces : unitPieces crate config text = parts := by
    simp only [unitPieces, hmode]
    rw [hspans, List.map_map]
    have hmap : (placed 0 0 parts).map ((fun r : ℕ × ℕ => byteSlice text r.1 r.2) ∘
        fun x => (x.1, x.1 + utf8Len x.2)) = (placed 0 0 parts).map Prod.snd :=
      map_congr_left hslice
    rw [hmap, placed_map_snd]
  refine ⟨?_, ?_, ?_⟩
  · rw [hpieces]
    exact hspaced
  · intro piece hpiece
    rw [hpieces] at hpiece
    exact utf8Len_pos (hparts piece hpiece)
  · intro count
    have hkeep : ∀ piece, keepsPiece config piece = !piece.trim.isEmpty := by
      intro piece
      simp only [keepsPiece, hmode]
    have hunits : (((placed 0 0 parts).map fun x => (x.1, x.1 + utf8Len x.2)).filter
        fun r => !(byteSlice text r.1 r.2).trim.isEmpty).map (unitOfSpan count text) =
          ((placed 0 0 parts).filter fun x => keepsPiece config x.2).map (unitAt count) := by
      rw [filter_map, List.map_map]
      have hfilter : (placed 0 0 parts).filter ((fun r : ℕ × ℕ =>
          !(byteSlice text r.1 r.2).trim.isEmpty) ∘ fun x => (x.1, x.1 + utf8Len x.2)) =
            (placed 0 0 parts).filter fun x => keepsPiece config x.2 := by
        apply filter_congr
        intro x hx
        rw [Function.comp_apply, hslice x hx, hkeep]
      rw [hfilter]
      apply map_congr_left
      intro x hx
      exact unitOfSpan_placed hspaced count (mem_filter.mp hx).1
    have hsome : ((placed 0 0 parts).filter fun x => keepsPiece config x.2).map (unitAt count) ≠
        [] := by
      -- the fallback of the segmenter is not taken: some part has content
      rw [← hflatten] at htext
      obtain ⟨part, hpart, hcontent⟩ := exists_part_of_content htext
      rw [← placed_map_snd 0 0 parts] at hpart
      obtain ⟨x, hx, rfl⟩ := mem_map.mp hpart
      have hkept : x ∈ (placed 0 0 parts).filter fun x => keepsPiece config x.2 := by
        refine mem_filter.mpr ⟨hx, ?_⟩
        simpa [hkeep] using hcontent
      exact ne_nil_of_mem (mem_map_of_mem hkept)
    simp only [segmentUnits, hmode, segmentSentences]
    rw [if_neg htext, hspans, hunits, if_neg hsome, hpieces]

theorem exists_unitLayout (hcrate : crate.Lawful) (config : Bm25CohesionConfig)
    (htext : text.trim ≠ []) : ∃ gap, UnitLayout crate config text gap := by
  cases hmode : config.windowMode with
  | sentence => exact ⟨0, unitLayout_sentences hcrate hmode htext⟩
  | word => exact ⟨1, unitLayout_words hmode htext⟩

section

variable {crate : ChunkCrate} {config : Bm25CohesionConfig} {text : Text} {gap : ℕ}
  (h : UnitLayout crate config text gap) (count : Text → ℕ)

include h

theorem UnitLayout.unitsOf : UnitsOf text (segmentUnits crate count text config) := by
  rw [h.units]
  constructor
  · intro u hu
    obtain ⟨x, hx, rfl⟩ := mem_map.mp hu
    exact isSlice_of_mem_placed h.spaced [] (mem_filter.mp hx).1
  · rw [pairwise_map]
    exact (placed_pairwise gap 0 _).filter _

theorem UnitLayout.length_units : (segmentUnits crate count text config).length =
    ((unitPieces crate config text).filter (keepsPiece config)).length := by
  have hmap : ((placed gap 0 (unitPieces crate config text)).filter
      (keepsPiece config ∘ Prod.snd)).map Prod.snd =
        (unitPieces crate config text).filter (keepsPiece config) := by
    rw [← filter_map, placed_map_snd]
  rw [h.units, length_map, ← hmap, length_map]
  rfl

theorem UnitLayout.head_iff {u : TextUnit}
    (hu : (segmentUnits crate count text config).head? = some u) :
    u.startIndex = 0 ↔ (unitPieces crate config text).head?.any (keepsPiece config) = true := by
  rw [h.units, head?_map] at hu
  obtain ⟨x, hx, rfl⟩ := Option.map_eq_some_iff.mp hu
  exact head_kept_iff (keepsPiece config) h.positive hx

theorem UnitLayout.getLast_iff {u : TextUnit}
    (hu : (segmentUnits crate count text config).getLast? = some u) :
    u.endIndex = utf8Len text ↔
      (unitPieces crate config text).getLast?.any (keepsPiece config) = true := by
  rw [h.units, getLast?_map] at hu
  obtain ⟨x, hx, rfl⟩ := Option.map_eq_some_iff.mp hu
  have hiff := getLast_kept_iff (keepsPiece config) h.spaced h.positive hx
  rwa [Nat.zero_add] at hiff

end

theorem take_drop_append_drop (units : List TextUnit) {a b : ℕ} (h : a ≤ b) :
    (units.take b).drop a ++ units.drop b = units.drop a := by
  have hdrop : units.drop a = ((units.take b) ++ units.drop b).drop a := by
    rw [take_append_drop]
  rw [hdrop]
  by_cases hb : b ≤ units.length
  · rw [drop_append_of_le_length]
    rw [length_take]
    omega
  · have hnil : units.drop b = [] := drop_eq_nil_of_le (by omega)
    rw [hnil, List.append_nil, List.append_nil]

variable {units : List TextUnit}

theorem windowGroups_ne_nil {splits : List ℕ} :
    ∀ group ∈ windowGroups units splits, group ≠ [] := by
  fun_induction windowGroups units splits with
  | case1 start stop rest h ih =>
    intro group hgroup
    rcases mem_cons.mp hgroup with rfl | hgroup
    · intro hnil
      have hlen := congrArg List.length hnil
      simp only [length_drop, length_take, length_nil] at hlen
      omega
    · exact ih group hgroup
  | case2 start stop rest h ih => exact ih
  | case3 splits hsplits => simp

variable {start : ℕ}

theorem flatten_windowGroups (units : List TextUnit) {mids : List ℕ}
    (hsorted : (start :: mids).Pairwise (· ≤ ·)) :
    (windowGroups units (start :: (mids ++ [units.length]))).flatten <+: units.drop start := by
  induction mids generalizing start with
  | nil =>
    simp only [nil_append, windowGroups]
    split
    · simp
    · simp
  | cons mid mids ih =>
    rw [pairwise_cons] at hsorted
    have hle : start ≤ mid := hsorted.1 mid mem_cons_self
    have hrest := ih hsorted.2
    rw [List.cons_append, windowGroups]
    split
    · rename_i hlt
      rw [flatten_cons, ← take_drop_append_drop units hlt.1.le]
      exact (prefix_append_right_inj _).mpr hrest
    rename_i hnot
    rcases Nat.lt_or_ge units.length mid with hlong | hshort
    · rw [drop_eq_nil_of_le hlong.le, prefix_nil] at hrest
      rw [hrest]
      exact nil_prefix
    · obtain rfl : start = mid := by omega
      exact hrest

/-- Groups that hold a stretch of the units from the first on. -/
structure GroupsOf (units : List TextUnit) (groups : List (List TextUnit)) : Prop where
  nonempty : ∀ group ∈ groups, group ≠ []
  stretch : groups.flatten <+: units
  first : groups.flatten.head? = units.head?

theorem head?_of_prefix {xs ys : List TextUnit} (h : xs <+: ys) (hne : xs ≠ []) :
    xs.head? = ys.head? := by
  obtain ⟨zs, rfl⟩ := h
  rw [head?_append_of_ne_nil xs hne]

theorem groupsOf_singleton (h : units ≠ []) : GroupsOf units [units] := by
  constructor
  · simpa using h
  · simp
  · simp

variable {ext : Externals} (hext : ext.crate.Lawful) (chunker : Bm25CohesionChunker)

include hext in
theorem groupsOf_groupUnits (h : units ≠ []) (similarities : List F64) :
    GroupsOf units (groupUnits units (chunker.splitIndices ext similarities units.length)) := by
  have hgroups : ∀ mids : List ℕ, (0 :: mids).Pairwise (· ≤ ·) →
      GroupsOf units (groupUnits units (0 :: (mids ++ [units.length]))) := by
    intro mids hsorted
    have hstretch := flatten_windowGroups units hsorted
    rw [drop_zero] at hstretch
    rw [groupUnits, if_neg (by simp)]
    simp only
    split
    · exact groupsOf_singleton h
    rename_i hsome
    have hne : windowGroups units (0 :: (mids ++ [units.length])) ≠ [] := fun hnil =>
      hsome ⟨hnil, h⟩
    have hflatten : (windowGroups units (0 :: (mids ++ [units.length]))).flatten ≠ [] := by
      intro hnil
      obtain ⟨group, hgroup⟩ := exists_mem_of_ne_nil _ hne
      exact windowGroups_ne_nil group hgroup (flatten_eq_nil_iff.mp hnil group hgroup)
    exact ⟨windowGroups_ne_nil, hstretch, head?_of_prefix hstretch hflatten⟩
  rw [splitIndices]
  split
  · exact groupsOf_singleton h
  split
  · exact groupsOf_singleton h
  rename_i minima hminima
  split
  · exact groupsOf_singleton h
  simp only
  split
  · exact groupsOf_singleton h
  rw [List.cons_append]
  apply hgroups
  have hincreasing := hext.filterSplitIndices_increasing _ _ _ _ _
    chunker.config.threshold chunker.config.minUnitsPerChunk hminima
  refine pairwise_cons.mpr ⟨fun _ _ => Nat.zero_le _, ?_⟩
  rw [pairwise_map]
  exact hincreasing.imp fun hlt => by omega

theorem skipAndMergeFrom_spec (threshold : F64) (skipWindow : ℕ) (score : Text → Text → F64)
    (groups : List (List TextUnit)) :
    (skipAndMergeFrom threshold skipWindow score groups).flatten = groups.flatten ∧
      ((∀ group ∈ groups, group ≠ []) →
        ∀ group ∈ skipAndMergeFrom threshold skipWindow score groups, group ≠ []) := by
  fun_induction skipAndMergeFrom threshold skipWindow score groups with
  | case1 => simp
  | case2 last => simp
  | case3 group next rest j hj ih =>
    obtain ⟨hflatten, hne⟩ := ih
    constructor
    · have hsplit := congrArg List.flatten (take_append_drop (j + 1) (next :: rest))
      rw [flatten_append] at hsplit
      rw [flatten_cons, hflatten, flatten_cons, List.append_assoc, hsplit]
    · intro hall g hg
      rcases mem_cons.mp hg with rfl | hg
      · have hgroup := hall group mem_cons_self
        simp [hgroup]
      · refine hne (fun g hg => hall g ?_) g hg
        exact mem_cons_of_mem _ (mem_of_mem_drop hg)
  | case4 group next rest hnone ih =>
    obtain ⟨hflatten, hne⟩ := ih
    constructor
    · simp only [flatten_cons] at hflatten ⊢
      rw [hflatten]
    · intro hall g hg
      rcases mem_cons.mp hg with rfl | hg
      · exact hall g mem_cons_self
      · exact hne (fun g hg => hall g (mem_cons_of_mem _ hg)) g hg

variable {groups : List (List TextUnit)}

theorem groupsOf_skipAndMerge (h : GroupsOf units groups)
    (config : Bm25CohesionConfig) : GroupsOf units (skipAndMerge ext groups config) := by
  rw [skipAndMerge]
  split
  · exact h
  · obtain ⟨hflatten, hne⟩ := skipAndMergeFrom_spec config.mergeThreshold config.skipWindow
      (fun query doc => ((ext.corpusScorer (groups.map groupText)).bind fun s =>
        s query doc (groups.map groupText)).getD (.num 0)) groups
    exact ⟨hne h.nonempty, hflatten ▸ h.stretch, hflatten ▸ h.first⟩

theorem packUnits_ne_nil {group : List TextUnit} {ends : List ℕ} :
    ∀ block ∈ packUnits group start ends, block ≠ [] := by
  fun_induction packUnits group start ends with
  | case1 start => simp
  | case2 start stop rest m hlt ih =>
    intro block hblock
    rcases mem_cons.mp hblock with rfl | hblock
    · intro hnil
      have hlen := congrArg List.length hnil
      simp only [length_drop, length_take, length_nil] at hlen
      omega
    · exact ih block hblock
  | case3 start stop rest m hlt ih => exact ih

theorem flatten_packUnits (group : List TextUnit) {ends : List ℕ} (hsorted : ends.Pairwise (· < ·))
    (hstart : ∀ e ∈ ends, start ≤ e) (hlast : ends.getLast? = some group.length) :
    (packUnits group start ends).flatten = group.drop start := by
  induction ends generalizing start with
  | nil => simp at hlast
  | cons stop rest ih =>
    rw [pairwise_cons] at hsorted
    have hle : start ≤ stop := hstart stop mem_cons_self
    have hmem : group.length ∈ stop :: rest := mem_of_getLast? hlast
    have hbound : stop ≤ group.length := by
      rcases mem_cons.mp hmem with heq | hmem
      · exact heq.ge
      · exact (hsorted.1 _ hmem).le
    have hrest : (packUnits group stop rest).flatten = group.drop stop := by
      cases rest with
      | nil =>
        have hstop : stop = group.length := by simpa using hlast
        rw [packUnits, hstop, drop_length]
        rfl
      | cons e es =>
        apply ih hsorted.2 fun e he => (hsorted.1 e he).le
        rw [getLast?_cons_of_ne_nil (cons_ne_nil _ _)] at hlast
        exact hlast
    simp only [packUnits, min_eq_left hbound]
    split
    · rw [flatten_cons, hrest, take_drop_append_drop group hle]
    · obtain rfl : start = stop := by omega
      exact hrest

include hext in
theorem packGroup_spec (group : List TextUnit) :
    (chunker.packGroup ext group).flatten = group ∧
      ∀ block ∈ chunker.packGroup ext group, block ≠ [] := by
  rw [packGroup]
  split
  · rename_i hnil
    simp [hnil]
  rename_i hne
  split
  · simpa using hne
  refine ⟨?_, packUnits_ne_nil⟩
  have hlast := hext.findMergeIndices_last (group.map TextUnit.tokenCount)
    chunker.config.chunkSize (by simpa using hne)
  rw [length_map] at hlast
  rw [flatten_packUnits group (hext.findMergeIndices_increasing _ _)
    (fun _ _ => Nat.zero_le _) hlast, drop_zero]

include hext in
theorem groupsOf_packGroup (h : GroupsOf units groups) :
    GroupsOf units (groups.flatMap (chunker.packGroup ext)) := by
  have hflatten : (groups.flatMap (chunker.packGroup ext)).flatten = groups.flatten := by
    clear h
    induction groups with
    | nil => rfl
    | cons group rest ih =>
      rw [flatMap_cons, flatten_append, ih, (packGroup_spec hext chunker group).1, flatten_cons]
  refine ⟨?_, hflatten ▸ h.stretch, hflatten ▸ h.first⟩
  intro block hblock
  obtain ⟨group, -, hblock⟩ := mem_flatMap.mp hblock
  exact (packGroup_spec hext chunker group).2 block hblock

/-- The chunks cover the text: contiguous spans from its start to its end, each with its own
slice of the text, which together are the text. -/
structure Covers (text : Text) (chunks : List CohesionChunk) : Prop where
  nonempty : chunks ≠ []
  first : chunks.head?.map CohesionChunk.startIndex = some 0
  last : chunks.getLast?.map CohesionChunk.endIndex = some (utf8Len text)
  contiguous : chunks.IsChain fun c d => c.endIndex = d.startIndex
  slices : ∀ c ∈ chunks, IsSlice text c.startIndex c.endIndex c.text
  joined : (chunks.map CohesionChunk.text).flatten = text

/-- The chunks are slices that follow each other without a gap from `start` to `stop`. -/
def Tiles (source : Text) : ℕ → ℕ → List CohesionChunk → Prop
  | start, stop, [] => start = stop
  | start, stop, c :: rest =>
    c.startIndex = start ∧ IsSlice source c.startIndex c.endIndex c.text ∧
      Tiles source c.endIndex stop rest

variable {source : Text} {start stop : ℕ}

theorem tiles_append {xs ys : List CohesionChunk} :
    Tiles source start stop (xs ++ ys) ↔
      ∃ mid, Tiles source start mid xs ∧ Tiles source mid stop ys := by
  induction xs generalizing start with
  | nil => simp [Tiles]
  | cons c xs ih =>
    rw [List.cons_append, Tiles, ih]
    constructor
    · rintro ⟨hstart, hslice, mid, hxs, hys⟩
      exact ⟨mid, ⟨hstart, hslice, hxs⟩, hys⟩
    · rintro ⟨mid, ⟨hstart, hslice, hxs⟩, hys⟩
      exact ⟨hstart, hslice, mid, hxs, hys⟩

variable {chunks : List CohesionChunk}

section

variable (h : Tiles source start stop chunks)
include h

theorem Tiles.slices : ∀ c ∈ chunks, IsSlice source c.startIndex c.endIndex c.text := by
  induction chunks generalizing start with
  | nil => simp
  | cons c rest ih =>
    obtain ⟨-, hslice, hrest⟩ := h
    exact forall_mem_cons.mpr ⟨hslice, ih hrest⟩

theorem Tiles.contiguous : chunks.IsChain fun c d => c.endIndex = d.startIndex := by
  induction chunks generalizing start with
  | nil => exact List.IsChain.nil
  | cons c rest ih =>
    obtain ⟨-, -, hrest⟩ := h
    cases rest with
    | nil => exact List.IsChain.singleton c
    | cons d rest => exact isChain_cons_cons.mpr ⟨hrest.1.symm, ih hrest⟩

theorem Tiles.getLast? (hne : chunks ≠ []) :
    chunks.getLast?.map CohesionChunk.endIndex = some stop := by
  induction chunks generalizing start with
  | nil => exact absurd rfl hne
  | cons c rest ih =>
    obtain ⟨-, -, hrest⟩ := h
    cases rest with
    | nil => simpa [Tiles] using hrest
    | cons d rest =>
      rw [getLast?_cons_of_ne_nil (cons_ne_nil _ _)]
      exact ih hrest (cons_ne_nil _ _)

theorem Tiles.joined (hne : chunks ≠ []) :
    IsSlice source start stop (chunks.map CohesionChunk.text).flatten := by
  induction chunks generalizing start with
  | nil => exact absurd rfl hne
  | cons c rest ih =>
    obtain ⟨rfl, hslice, hrest⟩ := h
    cases rest with
    | nil =>
      obtain rfl : c.endIndex = stop := hrest
      simpa using hslice
    | cons d rest =>
      rw [map_cons, flatten_cons]
      exact hslice.append (ih hrest (cons_ne_nil _ _))

end

variable {text : Text}

theorem Tiles.covers_iff (h : Tiles text start stop chunks) (hne : chunks ≠ []) :
    Covers text chunks ↔ start = 0 ∧ stop = utf8Len text := by
  have hhead : chunks.head?.map CohesionChunk.startIndex = some start := by
    cases chunks with
    | nil => exact absurd rfl hne
    | cons c rest => simpa [Tiles] using h.1
  have hlast := h.getLast? hne
  constructor
  · intro hcovers
    have hfirst := hcovers.first
    have hend := hcovers.last
    rw [hhead] at hfirst
    rw [hlast] at hend
    exact ⟨Option.some.inj hfirst, Option.some.inj hend⟩
  · rintro ⟨rfl, rfl⟩
    exact ⟨hne, hhead, hlast, h.contiguous, h.slices, eq_of_isSlice_self (h.joined hne)⟩

theorem unitsToChunk_spec {units : List TextUnit} (h : UnitsOf text units) {first last : TextUnit}
    (hfirst : units.head? = some first) (hlast : units.getLast? = some last) :
    let chunk := unitsToChunk text units
    chunk.startIndex = first.startIndex ∧ chunk.endIndex = last.endIndex ∧
      IsSlice text chunk.startIndex chunk.endIndex chunk.text := by
  have hslice := h.slices first (mem_of_head? hfirst)
  have hslice' := h.slices last (mem_of_getLast? hlast)
  have hle : first.startIndex ≤ last.endIndex := by
    cases units with
    | nil => simp at hfirst
    | cons u rest =>
      obtain rfl : u = first := by simpa using hfirst
      rcases mem_cons.mp (mem_of_getLast? hlast) with rfl | hmem
      · exact hslice.start_le
      · have hbefore := (pairwise_cons.mp h.ordered).1 last hmem
        exact (hslice.start_le.trans hbefore).trans hslice'.start_le
  simp only [unitsToChunk, hfirst, hlast, Option.map_some, Option.getD_some, true_and]
  exact hslice.hull hslice' hle

/-- Chunks are slices of the text, one after the other. -/
structure ChunksOf (text : Text) (chunks : List CohesionChunk) : Prop where
  slices : ∀ c ∈ chunks, IsSlice text c.startIndex c.endIndex c.text
  ordered : chunks.Pairwise fun c d => c.endIndex ≤ d.startIndex

theorem chunksOf_blocks {blocks : List (List TextUnit)} (hne : ∀ block ∈ blocks, block ≠ [])
    (h : UnitsOf text blocks.flatten) :
    ChunksOf text (blocks.map (unitsToChunk text)) ∧
      (blocks.map (unitsToChunk text)).head?.map CohesionChunk.startIndex =
        blocks.flatten.head?.map TextUnit.startIndex := by
  have hblock : ∀ block ∈ blocks, ∃ first last, block.head? = some first ∧
      block.getLast? = some last ∧ UnitsOf text block := by
    intro block hmem
    have hb := hne block hmem
    refine ⟨block.head hb, block.getLast hb, head?_eq_some_head hb,
      getLast?_eq_some_getLast hb, ?_, ?_⟩
    · intro u hu
      exact h.slices u (mem_flatten_of_mem hmem hu)
    · exact (pairwise_flatten.mp h.ordered).1 block hmem
  refine ⟨⟨?_, ?_⟩, ?_⟩
  · intro c hc
    obtain ⟨block, hmem, rfl⟩ := mem_map.mp hc
    obtain ⟨first, last, hfirst, hlast, hunits⟩ := hblock block hmem
    exact (unitsToChunk_spec hunits hfirst hlast).2.2
  · rw [pairwise_map]
    refine (pairwise_flatten.mp h.ordered).2.imp_of_mem ?_
    intro block block' hmem hmem' hbefore
    obtain ⟨first, last, hfirst, hlast, hunits⟩ := hblock block hmem
    obtain ⟨first', last', hfirst', hlast', hunits'⟩ := hblock block' hmem'
    rw [(unitsToChunk_spec hunits hfirst hlast).2.1, (unitsToChunk_spec hunits' hfirst' hlast').1]
    exact hbefore last (mem_of_getLast? hlast) first' (mem_of_head? hfirst')
  · cases blocks with
    | nil => rfl
    | cons block rest =>
      obtain ⟨first, last, hfirst, hlast, hunits⟩ := hblock block mem_cons_self
      have hb := hne block mem_cons_self
      rw [flatten_cons, head?_append_of_ne_nil block hb, hfirst]
      simp only [map_cons, head?_cons, Option.map_some, (unitsToChunk_spec hunits hfirst hlast).1]

variable {ext : Externals} (chunker : Bm25CohesionChunker)

theorem isSlice_sourceChunk {s s' : Text} {a b c : ℕ} (h : IsSlice source a b s)
    (h' : IsSlice source b c s') :
    IsSlice source a c (chunker.sourceChunk ext source a c).text := by
  have hjoined := h.append h'
  rw [sourceChunk]
  simp only [byteSlice_of_isSlice hjoined]
  exact hjoined

theorem tiles_fillInterChunkGaps {first last : CohesionChunk} (h : ChunksOf source chunks)
    (hfirst : chunks.head? = some first) (hlast : chunks.getLast? = some last) :
    Tiles source first.startIndex last.endIndex (chunker.fillInterChunkGaps ext source chunks) := by
  induction chunks generalizing first with
  | nil => simp at hfirst
  | cons c rest ih =>
    obtain rfl : c = first := by simpa using hfirst
    have hslice := h.slices c mem_cons_self
    cases rest with
    | nil =>
      obtain rfl : c = last := by simpa using hlast
      exact ⟨rfl, hslice, rfl⟩
    | cons next rest =>
      have hordered := pairwise_cons.mp h.ordered
      have hrest : ChunksOf source (next :: rest) :=
        ⟨fun d hd => h.slices d (mem_cons_of_mem _ hd), hordered.2⟩
      rw [getLast?_cons_of_ne_nil (cons_ne_nil _ _)] at hlast
      have hhead : (next :: rest).head? = some next := rfl
      have htail := ih hrest hhead hlast
      have hle : c.endIndex ≤ next.startIndex := hordered.1 next mem_cons_self
      have hnext := (hrest.slices next mem_cons_self).start_boundary
      rw [fillInterChunkGaps]
      split
      · exact ⟨rfl, hslice.hull hnext (hslice.start_le.trans hle), htail⟩
      · rename_i hgap
        have heq : c.endIndex = next.startIndex := by omega
        exact ⟨rfl, hslice, heq ▸ htail⟩

theorem tiles_extendLastChunkCoverage {source : Text} {start stop : ℕ}
    {chunks : List CohesionChunk} (h : Tiles source start stop chunks) (hne : chunks ≠ []) :
    Tiles source start (utf8Len source) (chunker.extendLastChunkCoverage ext source chunks) ∧
      chunker.extendLastChunkCoverage ext source chunks ≠ [] := by
  fun_induction extendLastChunkCoverage ext chunker source chunks
    generalizing start with
  | case1 => exact absurd rfl hne
  | case2 last hlt =>
    obtain ⟨rfl, hslice, -⟩ := h
    refine ⟨⟨rfl, ?_, rfl⟩, cons_ne_nil _ _⟩
    exact hslice.hull (isSlice_end source) (hslice.start_le.trans hslice.stop_le)
  | case3 last hnot =>
    obtain ⟨hstart, hslice, -⟩ := h
    have hend : last.endIndex = utf8Len source := Nat.le_antisymm hslice.stop_le (not_lt.mp hnot)
    exact ⟨⟨hstart, hslice, hend⟩, cons_ne_nil _ _⟩
  | case4 chunk rest hrest ih =>
    obtain ⟨hstart, hslice, htail⟩ := h
    obtain ⟨htiles, -⟩ := ih htail hrest
    exact ⟨⟨hstart, hslice, htiles⟩, cons_ne_nil _ _⟩

theorem tiles_mergeBack {mid : ℕ} {done : List CohesionChunk} {last : CohesionChunk}
    (hdone : Tiles source start mid done.reverse) (hlast : Tiles source mid stop [last]) :
    Tiles source start stop (chunker.mergeBack ext source done last) ∧
      chunker.mergeBack ext source done last ≠ [] := by
  induction done generalizing mid last with
  | nil =>
    obtain rfl : start = mid := hdone
    exact ⟨hlast, cons_ne_nil _ _⟩
  | cons prev done ih =>
    rw [mergeBack]
    split
    · rw [reverse_cons] at hdone
      obtain ⟨k, hbefore, rfl, hprev, rfl⟩ := tiles_append.mp hdone
      obtain ⟨hstart, hslice, rfl⟩ := hlast
      rw [hstart] at hslice
      exact ih hbefore ⟨rfl, isSlice_sourceChunk chunker hprev hslice, rfl⟩
    · rw [reverse_cons]
      exact ⟨tiles_append.mpr ⟨mid, hdone, hlast⟩, by simp⟩

theorem tiles_mergeForward {mid : ℕ} {done rest : List CohesionChunk} {chunk : CohesionChunk}
    (hdone : Tiles source start mid done.reverse) (hrest : Tiles source mid stop (chunk :: rest)) :
    Tiles source start stop (chunker.mergeForward ext source done chunk rest) ∧
      chunker.mergeForward ext source done chunk rest ≠ [] := by
  induction rest generalizing mid done chunk with
  | nil => exact tiles_mergeBack chunker hdone hrest
  | cons next rest ih =>
    obtain ⟨rfl, hslice, hnext, hslice', htail⟩ := hrest
    rw [mergeForward]
    split
    · rw [hnext] at hslice'
      exact ih hdone ⟨rfl, isSlice_sourceChunk chunker hslice hslice', htail⟩
    · have hlater : Tiles source chunk.endIndex stop (next :: rest) := ⟨hnext, hslice', htail⟩
      refine ih ?_ hlater
      rw [reverse_cons]
      exact tiles_append.mpr ⟨_, hdone, rfl, hslice, rfl⟩

theorem tiles_mergeUndersizedChunks (h : Tiles source start stop chunks) (hne : chunks ≠ []) :
    Tiles source start stop (chunker.mergeUndersizedChunks ext source chunks) ∧
      chunker.mergeUndersizedChunks ext source chunks ≠ [] := by
  cases chunks with
  | nil => exact absurd rfl hne
  | cons chunk rest =>
    have hnone : Tiles source start start [].reverse := rfl
    exact tiles_mergeForward chunker hnone h

/-- Behind the early returns the chunks tile the text from the first unit on. -/
theorem tiles_chunkUnits (hext : ext.crate.Lawful) {units : List TextUnit}
    (hunits : UnitsOf text units) {first : TextUnit} (hfirst : units.head? = some first) :
    Tiles text first.startIndex (utf8Len text) (chunker.chunkUnits ext text units) ∧
      chunker.chunkUnits ext text units ≠ [] := by
  have hne : units ≠ [] := by
    rintro rfl
    cases hfirst
  simp only [chunkUnits]
  generalize hgroups : groupUnits units _ = groups
  have hgrouped : GroupsOf units groups := hgroups ▸ groupsOf_groupUnits hext chunker hne _
  generalize hmerged : (if 0 < chunker.config.skipWindow ∧ 1 < groups.length then
    skipAndMerge ext groups chunker.config else groups) = merged
  have hskipped : GroupsOf units merged := by
    rw [← hmerged]
    split
    · exact groupsOf_skipAndMerge hgrouped chunker.config
    · exact hgrouped
  have hblocks := groupsOf_packGroup hext chunker hskipped
  rw [groupsToChunks]
  generalize merged.flatMap (chunker.packGroup ext) = blocks at hblocks ⊢
  have hstretch : UnitsOf text blocks.flatten :=
    ⟨fun u hu => hunits.slices u (hblocks.stretch.subset hu),
      hunits.ordered.sublist hblocks.stretch.sublist⟩
  obtain ⟨hchunks, hhead⟩ := chunksOf_blocks hblocks.nonempty hstretch
  rw [hblocks.first, hfirst, Option.map_some] at hhead
  generalize blocks.map (unitsToChunk text) = chunks at hchunks hhead ⊢
  obtain ⟨c, hc, hstart⟩ := Option.map_eq_some_iff.mp hhead
  have hsome : chunks ≠ [] := by
    rintro rfl
    cases hc
  rw [if_neg hsome]
  have hlast := getLast?_eq_some_getLast hsome
  -- one chunk has no gap to fill
  have hfilled : Tiles text first.startIndex (chunks.getLast hsome).endIndex
      (if 1 < chunks.length then chunker.fillInterChunkGaps ext text chunks else chunks) ∧
        (if 1 < chunks.length then chunker.fillInterChunkGaps ext text chunks else chunks) ≠
          [] := by
    rw [← hstart]
    cases chunks with
    | nil => exact absurd rfl hsome
    | cons d rest =>
      obtain rfl : d = c := by simpa using hc
      cases rest with
      | nil => exact ⟨⟨rfl, hchunks.slices d mem_cons_self, rfl⟩, hsome⟩
      | cons next rest =>
        rw [if_pos (by simp)]
        refine ⟨tiles_fillInterChunkGaps chunker hchunks hc hlast, ?_⟩
        rw [fillInterChunkGaps]
        exact cons_ne_nil _ _
  generalize (if 1 < chunks.length then chunker.fillInterChunkGaps ext text chunks
    else chunks) = filled at hfilled ⊢
  obtain ⟨htiles, hcons⟩ :=
    @tiles_extendLastChunkCoverage ext chunker text _ _ filled hfilled.1 hfilled.2
  split
  · exact tiles_mergeUndersizedChunks chunker htiles hcons
  · exact ⟨htiles, hcons⟩

/-- Nothing of the text stands before its first unit, and nothing behind its last unit unless
the gap filling and the extension of the last chunk run; or the text is one chunk. -/
def EndsKept (ext : Externals) (chunker : Bm25CohesionChunker) (text : Text) : Prop :=
  let pieces := unitPieces ext.crate chunker.config text
  let keeps := keepsPiece chunker.config
  chunker.needsChunking ext text = false ∨ pieces.filter keeps = [] ∨
    (pieces.head?.any keeps = true ∧
      (chunker.config.similarityWindow < (pieces.filter keeps).length ∨
        pieces.getLast?.any keeps = true))

/-- The chunks of a text with content tile a stretch of it, which is the whole text exactly
when the pieces at its ends are kept. -/
theorem exists_tiles_chunk (hext : ext.crate.Lawful) (htext : text.trim ≠ []) :
    ∃ start stop, Tiles text start stop (chunker.chunk ext text) ∧ chunker.chunk ext text ≠ [] ∧
      ((start = 0 ∧ stop = utf8Len text) ↔ EndsKept ext chunker text) := by
  obtain ⟨gap, hlayout⟩ := exists_unitLayout hext chunker.config htext
  have hunits := hlayout.unitsOf (chunker.count ext)
  have hlength := hlayout.length_units (chunker.count ext)
  have hhead := fun u => hlayout.head_iff (chunker.count ext) (u := u)
  have hlast := fun u => hlayout.getLast_iff (chunker.count ext) (u := u)
  have hsingle : Tiles text 0 (utf8Len text) [chunker.singleChunk ext text 0 (utf8Len text)] :=
    ⟨rfl, isSlice_self text, rfl⟩
  rw [Bm25CohesionChunker.chunk, if_neg htext, EndsKept, ← length_eq_zero_iff, ← hlength]
  generalize segmentUnits ext.crate (chunker.count ext) text chunker.config = units at *
  by_cases hneeds : chunker.needsChunking ext text = true
  · have hsizes := hneeds
    simp only [needsChunking, Bool.and_eq_true, decide_eq_true_eq] at hsizes
    rw [if_neg (by omega), if_neg (by omega)]
    simp only [hneeds, Bool.true_eq_false, false_or]
    cases units with
    | nil => exact ⟨0, utf8Len text, hsingle, cons_ne_nil _ _, by simp⟩
    | cons first rest =>
      have hfirstunit : (first :: rest).head? = some first := rfl
      have hfirst := hhead first hfirstunit
      rw [if_neg (cons_ne_nil _ _)]
      simp only [length_cons, Nat.add_eq_zero_iff, Nat.one_ne_zero, and_false, false_or]
      rw [← hfirst]
      split
      · rename_i hfew
        -- the early return covers what lies between the first and the last unit
        obtain ⟨last, hlastunit⟩ : ∃ last, (first :: rest).getLast? = some last :=
          ⟨_, getLast?_eq_some_getLast (cons_ne_nil _ _)⟩
        obtain ⟨hstart, hstop, hslice⟩ := unitsToChunk_spec hunits hfirstunit hlastunit
        refine ⟨first.startIndex, last.endIndex, ⟨hstart, hslice, hstop⟩, cons_ne_nil _ _, ?_⟩
        rw [hlast last hlastunit]
        simp only [not_lt.mpr hfew, false_or]
      · rename_i hmany
        obtain ⟨htiles, hcons⟩ := tiles_chunkUnits chunker hext hunits hfirstunit
        refine ⟨first.startIndex, utf8Len text, htiles, hcons, ?_⟩
        simp [not_le.mp hmany]
  · have hsizes := hneeds
    simp only [needsChunking, Bool.and_eq_true, decide_eq_true_eq] at hsizes
    have hone : (if chunker.config.chunkSize = 0 then
        [chunker.singleChunk ext text 0 (utf8Len text)]
        else if chunker.count ext text ≤ chunker.config.chunkSize then
          [chunker.singleChunk ext text 0 (utf8Len text)]
        else if units = [] then [chunker.singleChunk ext text 0 (utf8Len text)]
        else if units.length ≤ chunker.config.similarityWindow then
          [unitsToChunk text units]
        else chunker.chunkUnits ext text units) =
          [chunker.singleChunk ext text 0 (utf8Len text)] := by
      split
      · rfl
      · rw [if_pos (by omega)]
    rw [hone]
    exact ⟨0, utf8Len text, hsingle, cons_ne_nil _ _, by simp [hneeds]⟩

/-- The chunks of a text with content cover it exactly when the pieces at its two ends are
kept as far as later stages do not make up for them. -/
theorem chunk_covers_iff (hext : ext.crate.Lawful) {text : Text} (htext : text.trim ≠ []) :
    Covers text (chunker.chunk ext text) ↔ EndsKept ext chunker text := by
  obtain ⟨start, stop, htiles, hne, hends⟩ := exists_tiles_chunk chunker hext htext
  rw [htiles.covers_iff hne, hends]

/-- A `chunk` crate for texts without delimiters and groups of one chunk. -/
def plainCrate : ChunkCrate where
  splitAtPatterns text _ _ _ := if text = [] then [] else [(0, utf8Len text)]
  findLocalMinimaInterpolated _ _ _ _ := none
  filterSplitIndices _ _ _ _ := ⟨[], []⟩
  findMergeIndices counts _ := [counts.length]

theorem plainCrate_lawful : plainCrate.Lawful where
  splitAtPatterns_partition := by
    intro text _ _ _ hne
    refine ⟨[text], by simpa using hne, by simp, ?_⟩
    simp [plainCrate, placed, hne]
  filterSplitIndices_increasing := by
    intro _ _ _ _ _ _ _ _
    exact List.Pairwise.nil
  findMergeIndices_increasing := by
    intro counts size
    exact pairwise_singleton _ _
  findMergeIndices_last := by
    intro counts size _
    rfl

def plainExternals : Externals where
  crate := plainCrate
  tiktoken := characterTokenCount
  similarityCurve _ _ := none
  corpusScorer _ := none

/-- The defaults of word mode, with chunks of at most `chunkSize` characters. -/
def wordChunker (chunkSize : ℕ) : Bm25CohesionChunker where
  config := { Bm25CohesionConfig.defaultForMode .word with
    chunkSize := chunkSize, tokenCounter := .character }
  valid := Bm25CohesionConfig.validate_defaultForMode .word chunkSize .character

theorem chunk_covers_iff_few_words :
    plainExternals.crate.Lawful ∧ Text.trim "few words" ≠ [] ∧
      (Covers "few words" ((wordChunker 4).chunk plainExternals "few words") ↔
        EndsKept plainExternals (wordChunker 4) "few words") :=
  ⟨plainCrate_lawful, by decide, chunk_covers_iff (wordChunker 4) plainCrate_lawful (by decide)⟩

/-- An indented text of few words loses its indentation. -/
theorem indentation_not_covered :
    ¬ ∀ (ext : Externals) (chunker : Bm25CohesionChunker) (text : Text), ext.crate.Lawful →
      0 < chunker.config.chunkSize → text.trim ≠ [] → Covers text (chunker.chunk ext text) := by
  intro h
  have hcovers := h plainExternals (wordChunker 4) " few words" plainCrate_lawful
    (by decide) (by decide)
  have hfirst := hcovers.first
  revert hfirst
  decide

end ClearYourTools.Bm25Cohesion
