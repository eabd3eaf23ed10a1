import ClearYourTools.Misc.Mapped
import ClearYourTools.PageIndex.Tree

/-!
# Frontmatter, preamble and heading sections

The lines that each part of a parsed skill file takes, and when they partition the source:
every line with content in exactly one part. The heading scan reads the YAML too, where a comment
can open a section and a fence can shift the toggle of the body; and a delimiter that is never
closed drops everything before the first heading.
-/

namespace ClearYourTools.PageIndex

open Misc List
open HeaderNode (lineNum)
open Text (trim joinLines)

def isFenceLine (line : Text) : Bool := isFence line.trim

/-- A line that `parse_header` reads as a heading. -/
def isHeadingLine (line : Text) : Bool := (parseHeader line.trim).isSome

/-- Whether a scan that starts outside a code block is inside one after `ls`. -/
def insideFence (ls : List Text) : Bool := ls.countP isFenceLine % 2 == 1

theorem insideFence_cons (line : Text) (ls : List Text) :
    insideFence (line :: ls) = (isFenceLine line ^^ insideFence ls) := by
  simp only [insideFence, countP_cons]
  cases isFenceLine line with
  | false => simp
  | true =>
    have hparity : ls.countP isFenceLine % 2 = 0 ∨ ls.countP isFenceLine % 2 = 1 := by omega
    rcases hparity with h | h
    · have hsucc : (ls.countP isFenceLine + 1) % 2 = 1 := by omega
      simp [h, hsucc]
    · have hsucc : (ls.countP isFenceLine + 1) % 2 = 0 := by omega
      simp [h, hsucc]

theorem isHeadingLine_of_isFenceLine {line : Text} (h : isFenceLine line = true) :
    isHeadingLine line = false := by
  simp only [isFenceLine, isFence, Text.startsWith] at h
  cases hs : trim line with
  | nil => simp [isHeadingLine, parseHeader, hs]
  | cons c rest =>
    rw [hs] at h
    have hc : c ≠ '#' := by
      rintro rfl
      simp [List.isPrefixOf] at h
    simp [isHeadingLine, parseHeader, hs, hc]

theorem trim_ne_nil_of_isHeadingLine {line : Text} (h : isHeadingLine line = true) :
    trim line ≠ [] := by
  intro hnil
  simp [isHeadingLine, parseHeader, hnil] at h

theorem extractNodesFrom_cons (c : Bool) (idx : ℕ) (line : Text) (rest : List Text) :
    (extractNodesFrom c idx (line :: rest)).map lineNum = if isHeadingLine line && !c then
        (idx + 1) :: (extractNodesFrom c (idx + 1) rest).map lineNum
      else (extractNodesFrom (isFenceLine line ^^ c) (idx + 1) rest).map lineNum := by
  by_cases hf : isFenceLine line = true
  · have hh := isHeadingLine_of_isFenceLine hf
    have hf' := hf
    simp only [isFenceLine] at hf'
    simp [extractNodesFrom, hf, hf', hh]
  · have hf' := hf
    simp only [isFenceLine] at hf'
    cases hp : parseHeader line.trim with
    | none =>
      have hh : isHeadingLine line = false := by simp [isHeadingLine, hp]
      simp only [extractNodesFrom, hf', hh, hp, hf]
      by_cases hskip : (line.trim.isEmpty || c) = true
      · simp [hskip]
      · simp [hskip]
    | some r =>
      have hh : isHeadingLine line = true := by simp [isHeadingLine, hp]
      have hne : line.trim.isEmpty = false := by
        simpa using trim_ne_nil_of_isHeadingLine hh
      cases c with
      | false => simp [extractNodesFrom, hf', hh, hp, hne]
      | true => simp [extractNodesFrom, hf', hf, hh, hne]

theorem preambleLoop_cons (c : Bool) (idx : ℕ) (line : Text) (rest : List Text) :
    (preambleLoop c idx (line :: rest)).1 = if isHeadingLine line && !c then []
      else line :: (preambleLoop (isFenceLine line ^^ c) (idx + 1) rest).1 := by
  by_cases hf : isFenceLine line = true
  · have hh := isHeadingLine_of_isFenceLine hf
    have hf' := hf
    simp only [isFenceLine] at hf'
    simp [preambleLoop, hf, hf', hh]
  · have hf' := hf
    simp only [isFenceLine] at hf'
    cases hh : isHeadingLine line with
    | false =>
      have hp : (parseHeader line.trim).isSome = false := hh
      simp [preambleLoop, hf, hf', hp]
    | true =>
      have hp : (parseHeader line.trim).isSome = true := hh
      cases c with
      | false => simp [preambleLoop, hf', hp]
      | true => simp [preambleLoop, hf, hf', hp]

/-- The length of the preamble scan does not depend on where it counts from. -/
def preambleLength (c : Bool) : List Text → ℕ
  | [] => 0
  | line :: rest =>
    if isHeadingLine line && !c then 0 else preambleLength (isFenceLine line ^^ c) rest + 1

theorem preambleLoop_eq_take (c : Bool) (idx : ℕ) (ls : List Text) :
    (preambleLoop c idx ls).1 = ls.take (preambleLength c ls) := by
  induction ls generalizing c idx with
  | nil => rfl
  | cons line rest ih =>
    rw [preambleLoop_cons, preambleLength]
    split
    · rfl
    · rw [take_succ_cons, ih]

theorem preambleLength_le (c : Bool) (ls : List Text) : preambleLength c ls ≤ ls.length := by
  induction ls generalizing c with
  | nil => exact Nat.le_refl 0
  | cons line rest ih =>
    rw [preambleLength, length_cons]
    split
    · omega
    · have h := ih (isFenceLine line ^^ c)
      omega

theorem length_preambleLoop (c : Bool) (idx : ℕ) (ls : List Text) :
    (preambleLoop c idx ls).1.length = preambleLength c ls := by
  rw [preambleLoop_eq_take, length_take, min_eq_left (preambleLength_le c ls)]

theorem head?_extractNodesFrom (c : Bool) (idx : ℕ) (ls : List Text) :
    ((extractNodesFrom c idx ls).map fun n => n.lineNum - 1).head?.getD (idx + ls.length) =
      idx + preambleLength c ls := by
  have hmap : ∀ l : List HeaderNode, (l.map fun n => n.lineNum - 1) =
      (l.map lineNum).map (· - 1) := by
    intro l
    rw [List.map_map]
    rfl
  induction ls generalizing c idx with
  | nil => rfl
  | cons line rest ih =>
    rw [hmap, extractNodesFrom_cons, preambleLength]
    split
    · simp
    · have h := ih (isFenceLine line ^^ c) (idx + 1)
      rw [hmap] at h
      rw [length_cons, ← Nat.add_assoc, Nat.add_right_comm idx, h]
      omega

variable {c : Bool} {ls : List Text}

theorem mem_extractNodesFrom {idx : ℕ} {n : ℕ} (h : n ∈ (extractNodesFrom c idx ls).map lineNum) :
    ∃ i line, n = idx + i + 1 ∧ ls[i]? = some line ∧ isHeadingLine line = true := by
  induction ls generalizing c idx with
  | nil => simp [extractNodesFrom] at h
  | cons line rest ih =>
    rw [extractNodesFrom_cons] at h
    have hlater : ∀ c', n ∈ (extractNodesFrom c' (idx + 1) rest).map lineNum →
        ∃ i line', n = idx + i + 1 ∧ (line :: rest)[i]? = some line' ∧
          isHeadingLine line' = true := by
      intro c' h'
      obtain ⟨i, line', hn, hget, hhead⟩ := ih h'
      exact ⟨i + 1, line', by omega, by simpa using hget, hhead⟩
    split at h
    · rename_i hhead
      rcases mem_cons.mp h with rfl | h
      · exact ⟨0, line, rfl, rfl, by simpa using (Bool.and_eq_true_iff.mp hhead).1⟩
      · exact hlater _ h
    · exact hlater _ h

theorem sorted_extractNodesFrom (c : Bool) (idx : ℕ) (ls : List Text) :
    ((extractNodesFrom c idx ls).map lineNum).Pairwise (· < ·) := by
  induction ls generalizing c idx with
  | nil => exact List.Pairwise.nil
  | cons line rest ih =>
    rw [extractNodesFrom_cons]
    split
    · refine pairwise_cons.mpr ⟨?_, ih c (idx + 1)⟩
      intro n hn
      obtain ⟨i, -, hi, -, -⟩ := mem_extractNodesFrom hn
      omega
    · exact ih _ _

/-- The scan stops nowhere exactly when every heading line is inside a fence. -/
theorem preambleLength_eq_length_iff (c : Bool) (ls : List Text) :
    preambleLength c ls = ls.length ↔
      ∀ i line, ls[i]? = some line → isHeadingLine line = true →
        (insideFence (ls.take i) ^^ c) = true := by
  induction ls generalizing c with
  | nil => simp [preambleLength]
  | cons line rest ih =>
    have hzero : insideFence [] = false := rfl
    rw [preambleLength, length_cons]
    split
    · rename_i hhead
      obtain ⟨hh, hc⟩ := Bool.and_eq_true_iff.mp hhead
      constructor
      · intro h
        omega
      · intro h
        have hin := h 0 line rfl hh
        rw [take_zero, hzero, Bool.false_xor] at hin
        rw [hin] at hc
        cases hc
    · rename_i hhead
      rw [Nat.add_right_cancel_iff, ih]
      constructor
      · intro h i line' hget hh
        cases i with
        | zero =>
          cases hget
          rw [take_zero, hzero, Bool.false_xor]
          simpa [hh] using hhead
        | succ i =>
          rw [take_succ_cons, insideFence_cons]
          have hin := h i line' hget hh
          rwa [← Bool.xor_assoc, Bool.xor_comm (insideFence (rest.take i))] at hin
      · intro h i line' hget hh
        have hin := h (i + 1) line' hget hh
        rw [take_succ_cons, insideFence_cons] at hin
        rwa [← Bool.xor_assoc, Bool.xor_comm (insideFence (rest.take i))]

theorem preambleLength_append {xs : List Text} (ys : List Text)
    (h : preambleLength c xs = xs.length) :
    preambleLength c (xs ++ ys) = xs.length + preambleLength (insideFence xs ^^ c) ys := by
  induction xs generalizing c with
  | nil => simp [insideFence]
  | cons line rest ih =>
    rw [preambleLength, length_cons] at h
    rw [List.cons_append, preambleLength, length_cons, insideFence_cons]
    split
    · rename_i hhead
      rw [if_pos hhead] at h
      omega
    · rename_i hhead
      rw [if_neg hhead, Nat.add_right_cancel_iff] at h
      rw [ih h, ← Bool.xor_assoc, Bool.xor_comm (insideFence rest)]
      omega

theorem preambleLength_append_of_lt {xs : List Text} (ys : List Text)
    (h : preambleLength c xs < xs.length) : preambleLength c (xs ++ ys) = preambleLength c xs := by
  induction xs generalizing c with
  | nil => simp at h
  | cons line rest ih =>
    rw [preambleLength, length_cons] at h
    rw [List.cons_append, preambleLength, preambleLength]
    split
    · rfl
    · rename_i hhead
      rw [if_neg hhead] at h
      rw [ih (by omega)]

theorem le_preambleLength (c : Bool) {n : ℕ} (hn : n ≤ ls.length)
    (h : ∀ i line, i < n → ls[i]? = some line → isHeadingLine line = false) :
    n ≤ preambleLength c ls := by
  induction ls generalizing c n with
  | nil =>
    rw [length_nil] at hn
    omega
  | cons line rest ih =>
    cases n with
    | zero => exact Nat.zero_le _
    | succ n =>
      have hfirst : isHeadingLine line = false := h 0 line (Nat.zero_lt_succ n) rfl
      have hrest := ih (isFenceLine line ^^ c) (n := n) (by simpa using hn)
        fun i line' hi hget => h (i + 1) line' (by omega) (by simpa using hget)
      rw [preambleLength, hfirst]
      simpa using hrest

theorem preambleLength_eq_iff (c : Bool) (ls : List Text) :
    preambleLength c ls = preambleLength (!c) ls ↔ ∀ line ∈ ls, isHeadingLine line = false := by
  induction ls generalizing c with
  | nil => simp [preambleLength]
  | cons line rest ih =>
    rw [preambleLength, preambleLength, forall_mem_cons]
    cases hh : isHeadingLine line with
    | true => cases c <;> simp
    | false =>
      have hxor : (isFenceLine line ^^ !c) = !(isFenceLine line ^^ c) := by
        cases isFenceLine line <;> cases c <;> rfl
      rw [hxor]
      simpa using ih (isFenceLine line ^^ c)

theorem isHeadingLine_at_preambleLength (h : preambleLength c ls < ls.length) :
    ∃ line, ls[preambleLength c ls]? = some line ∧ isHeadingLine line = true := by
  induction ls generalizing c with
  | nil => simp at h
  | cons line rest ih =>
    rw [preambleLength] at h ⊢
    split
    · rename_i hhead
      exact ⟨line, rfl, (Bool.and_eq_true_iff.mp hhead).1⟩
    · rename_i hhead
      rw [if_neg hhead, length_cons] at h
      obtain ⟨line', hget, hh⟩ := ih (c := isFenceLine line ^^ c) (by omega)
      exact ⟨line', by simpa using hget, hh⟩

/-- `lines[start..stop]`. -/
def slice (ls : List Text) (r : ℕ × ℕ) : List Text := (ls.take r.2).drop r.1

/-- The lines of the heading sections: from each heading line to the next. -/
def sectionRanges (ls : List Text) : List (ℕ × ℕ) :=
  spansFrom ls.length ((extractNodesFrom false 0 ls).map fun n => n.lineNum - 1)

/-- The lines of a preamble scanned from `startIdx`, when it has content. -/
def preambleRange (ls : List Text) (startIdx : ℕ) : Option (ℕ × ℕ) :=
  if (extractPreambleFromLines ls startIdx).1.isSome then
    some (startIdx, startIdx + (preambleLoop false startIdx (ls.drop startIdx)).1.length)
  else none

def opensFrontmatter (ls : List Text) : Bool := ls[prefixStart ls]?.any isDelimiter

/-- The lines of the frontmatter, delimiters included. -/
def frontmatterRange (ls : List Text) : Option (ℕ × ℕ) :=
  if opensFrontmatter ls ∧ frontmatterEnd ls (prefixStart ls) < ls.length then
    some (prefixStart ls, frontmatterEnd ls (prefixStart ls) + 1)
  else none

/-- The lines of the preamble that `extract_skill_prefix` returns. -/
def prefixPreambleRange (ls : List Text) : Option (ℕ × ℕ) :=
  if opensFrontmatter ls then
    if frontmatterEnd ls (prefixStart ls) < ls.length then
      preambleRange ls (frontmatterEnd ls (prefixStart ls) + 1)
    else none
  else preambleRange ls 0

def partRanges (ls : List Text) : List (ℕ × ℕ) :=
  (frontmatterRange ls).toList ++ (prefixPreambleRange ls).toList ++ sectionRanges ls

/-- Every line with content belongs to exactly one part. -/
def SectionPartition (ls : List Text) : Prop :=
  ∀ i line, ls[i]? = some line → trim line ≠ [] → (partRanges ls).countP (covers i) = 1

/-- The texts that the parser returns are the texts of these ranges. -/
structure PartsHaveRanges (markdown : Text) : Prop where
  frontmatter : (extractSkillPrefix markdown).frontmatter =
    (frontmatterRange markdown.lines).map fun r =>
      "---\n" ++ joinLines (slice markdown.lines (r.1 + 1, r.2 - 1)) ++
        "\n---"
  preamble : (extractSkillPrefix markdown).preamble =
    (prefixPreambleRange markdown.lines).map fun r =>
      trim (joinLines (slice markdown.lines r))
  sections : (extractNodeTextContent (extractNodesFromMarkdown markdown).1
      (extractNodesFromMarkdown markdown).2).map ContentNode.text =
    (sectionRanges markdown.lines).map fun r =>
      trim (joinLines (slice markdown.lines r))

theorem preamble_eq_slice (ls : List Text) (startIdx : ℕ) :
    (extractPreambleFromLines ls startIdx).1 =
      (preambleRange ls startIdx).map fun r => trim (joinLines (slice ls r)) := by
  have hslice : slice ls (startIdx,
      startIdx + (preambleLoop false startIdx (ls.drop startIdx)).1.length) =
        (preambleLoop false startIdx (ls.drop startIdx)).1 := by
    rw [length_preambleLoop, preambleLoop_eq_take, slice, drop_take]
    congr 1
    omega
  simp only [preambleRange, extractPreambleFromLines]
  split
  · rfl
  · simp only [Option.isSome_some, if_true, Option.map_some, hslice]

theorem getRange_eq_slice (ls : List Text) {start stop : ℕ} (h : start ≤ stop)
    (hstop : stop ≤ ls.length) : getRange ls start stop = some (slice ls (start, stop)) := by
  rw [getRange, if_pos ⟨h, hstop⟩, slice]

theorem headingNodes_lineNum (ls : List Text) (nodes : List HeaderNode)
    (h : ∀ node ∈ nodes, ∃ i line, node.lineNum = i + 1 ∧ ls[i]? = some line ∧
      isHeadingLine line = true) :
    (headingNodes nodes ls).map ContentNode.lineNum = nodes.map lineNum := by
  induction nodes with
  | nil => rfl
  | cons node nodes ih =>
    obtain ⟨i, line, hnum, hget, hhead⟩ := h node mem_cons_self
    obtain ⟨r, hr⟩ := Option.isSome_iff_exists.mp hhead
    have hrest := ih fun n hn => h n (mem_cons_of_mem _ hn)
    have hindex : ls[node.lineNum - 1]? = some line := by
      rw [hnum]
      exact hget
    have hkept : headingNode ls node = some ⟨node.title, node.lineNum, r.1, []⟩ := by
      simp only [headingNode, hindex, hr]
    rw [headingNodes, filterMap_cons_some hkept, map_cons, map_cons]
    exact congrArg (node.lineNum :: ·) hrest

theorem fillTexts_text (ls : List Text) (nodes : List ContentNode)
    (hsorted : (nodes.map ContentNode.lineNum).Pairwise (· < ·))
    (hbound : ∀ n ∈ nodes.map ContentNode.lineNum, n ≤ ls.length) :
    (fillTexts ls nodes).map ContentNode.text =
      (spansFrom ls.length (nodes.map fun n => n.lineNum - 1)).map fun r =>
        trim (joinLines (slice ls r)) := by
  induction nodes with
  | nil => rfl
  | cons node rest ih =>
    rw [map_cons, pairwise_cons] at hsorted
    have hrest := ih hsorted.2 fun n hn => hbound n (mem_cons_of_mem _ hn)
    have hnode : node.lineNum ≤ ls.length := hbound node.lineNum (by simp)
    cases rest with
    | nil =>
      have hrange : getRange ls (node.lineNum - 1) ls.length = _ :=
        getRange_eq_slice ls (by omega) (Nat.le_refl _)
      simp [fillTexts, spansFrom, hrange]
    | cons next rest =>
      have hlt : node.lineNum < next.lineNum := hsorted.1 next.lineNum (by simp)
      have hnext : next.lineNum ≤ ls.length := hbound next.lineNum (by simp)
      have hrange : getRange ls (node.lineNum - 1) (next.lineNum - 1) = _ :=
        getRange_eq_slice ls (by omega) (by omega)
      have hfill : fillTexts ls (node :: next :: rest) =
          { node with text := ((getRange ls (node.lineNum - 1) (next.lineNum - 1)).map fun r =>
            trim (joinLines r)).getD [] } :: fillTexts ls (next :: rest) := rfl
      have hspans : spansFrom ls.length ((node :: next :: rest).map fun n => n.lineNum - 1) =
          (node.lineNum - 1, next.lineNum - 1) ::
            spansFrom ls.length ((next :: rest).map fun n => n.lineNum - 1) := rfl
      rw [hfill, hspans, map_cons, map_cons, hrest, hrange]
      rfl

theorem sections_eq_slices (ls : List Text) :
    (extractNodeTextContent (extractNodesFrom false 0 ls) ls).map ContentNode.text =
      (sectionRanges ls).map fun r => trim (joinLines (slice ls r)) := by
  have hmem : ∀ node ∈ extractNodesFrom false 0 ls, ∃ i line, node.lineNum = i + 1 ∧
      ls[i]? = some line ∧ isHeadingLine line = true := by
    intro node hnode
    obtain ⟨i, line, hi, hget, hhead⟩ :=
      mem_extractNodesFrom (mem_map_of_mem (f := lineNum) hnode)
    exact ⟨i, line, by omega, hget, hhead⟩
  have hnums := headingNodes_lineNum ls _ hmem
  have hsorted := sorted_extractNodesFrom false 0 ls
  rw [extractNodeTextContent, fillTexts_text]
  · have hshift : ((headingNodes (extractNodesFrom false 0 ls) ls).map fun n => n.lineNum - 1) =
        (extractNodesFrom false 0 ls).map fun n => n.lineNum - 1 := by
      have h := congrArg (List.map (· - 1)) hnums
      rw [List.map_map, List.map_map] at h
      exact h
    rw [hshift, sectionRanges]
  · rw [hnums]
    exact hsorted
  · rw [hnums]
    intro n hn
    obtain ⟨i, line, hi, hget, -⟩ := mem_extractNodesFrom hn
    have hlt := (List.getElem?_eq_some_iff.mp hget).1
    omega

theorem partsHaveRanges (markdown : Text) : PartsHaveRanges markdown where
  frontmatter := by
    simp only [extractSkillPrefix, skillPrefixOfLines, frontmatterRange, opensFrontmatter]
    by_cases hopen : (markdown.lines[prefixStart markdown.lines]?.any isDelimiter) = true
    · by_cases hend : frontmatterEnd markdown.lines (prefixStart markdown.lines) <
          markdown.lines.length
      · have hnot := not_le.mpr hend
        simp [hopen, hend, hnot, slice]
      · have hle := not_lt.mp hend
        simp [hopen, hend, hle, SkillPrefix.default]
    · simp [hopen]
  preamble := by
    simp only [extractSkillPrefix, skillPrefixOfLines, prefixPreambleRange, opensFrontmatter]
    by_cases hopen : (markdown.lines[prefixStart markdown.lines]?.any isDelimiter) = true
    · by_cases hend : frontmatterEnd markdown.lines (prefixStart markdown.lines) <
          markdown.lines.length
      · have hnot := not_le.mpr hend
        simp only [hopen, hend, hnot, not_true_eq_false, if_false, if_true]
        exact preamble_eq_slice _ _
      · have hle := not_lt.mp hend
        simp [hopen, hend, hle, SkillPrefix.default]
    · simp only [hopen, not_false_eq_true, if_true, if_false, Bool.false_eq_true]
      exact preamble_eq_slice _ _
  sections := sections_eq_slices markdown.lines

theorem sectionStarts_spec (ls : List Text) :
    ((extractNodesFrom false 0 ls).map fun n => n.lineNum - 1).Pairwise (· < ·) ∧
      ∀ a ∈ (extractNodesFrom false 0 ls).map fun n => n.lineNum - 1, a < ls.length := by
  have hnums := sorted_extractNodesFrom false 0 ls
  constructor
  · rw [pairwise_map] at hnums ⊢
    refine hnums.imp_of_mem ?_
    intro a b ha hb hlt
    obtain ⟨j, -, hj, -, -⟩ :=
      mem_extractNodesFrom (mem_map_of_mem (f := lineNum) ha)
    omega
  · intro a ha
    obtain ⟨node, hnode, rfl⟩ := mem_map.mp ha
    obtain ⟨j, line, hj, hget, -⟩ :=
      mem_extractNodesFrom (mem_map_of_mem (f := lineNum) hnode)
    have hlt := (List.getElem?_eq_some_iff.mp hget).1
    omega

theorem countP_sectionRanges (ls : List Text) (i : ℕ) :
    (sectionRanges ls).countP (covers i) =
      if preambleLength false ls ≤ i ∧ i < ls.length then 1 else 0 := by
  have hhead := head?_extractNodesFrom false 0 ls
  rw [Nat.zero_add, Nat.zero_add] at hhead
  obtain ⟨hsorted, hstop⟩ := sectionStarts_spec ls
  rw [sectionRanges, countP_covers_spansFrom i hsorted hstop, hhead]

theorem preamble_isSome_iff (ls : List Text) (startIdx : ℕ) :
    (extractPreambleFromLines ls startIdx).1.isSome ↔
      ∃ line ∈ (ls.drop startIdx).take (preambleLength false (ls.drop startIdx)),
        trim line ≠ [] := by
  have hblank := @Text.trim_joinLines_eq_nil_iff (preambleLoop false startIdx (ls.drop startIdx)).1
  rw [preambleLoop_eq_take] at hblank
  simp only [extractPreambleFromLines, preambleLoop_eq_take]
  split
  · rename_i h
    have hall := hblank.mp h
    simp only [Option.isSome_none, Bool.false_eq_true, false_iff, not_exists, not_and, not_not]
    exact hall
  · rename_i h
    have hsome := mt hblank.mpr h
    simp only [Option.isSome_some, true_iff]
    by_contra hnone
    apply hsome
    intro line hline
    by_contra hne
    exact hnone ⟨line, hline, hne⟩

variable {ls : List Text} {line : Text}

theorem countP_preambleRange (startIdx : ℕ) {i : ℕ} (hget : ls[i]? = some line)
    (hcontent : trim line ≠ []) :
    (preambleRange ls startIdx).toList.countP (covers i) =
      if startIdx ≤ i ∧ i < startIdx + preambleLength false (ls.drop startIdx) then 1
      else 0 := by
  simp only [preambleRange, length_preambleLoop]
  by_cases hsome : (extractPreambleFromLines ls startIdx).1.isSome = true
  · simp [hsome, covers]
  have hnot : ¬ (startIdx ≤ i ∧ i < startIdx + preambleLength false (ls.drop startIdx)) := by
    rintro ⟨hle, hlt⟩
    refine hsome ((preamble_isSome_iff ls startIdx).mpr ⟨line, ?_, hcontent⟩)
    have hindex : (ls.drop startIdx)[i - startIdx]? = some line := by
      rw [getElem?_drop, Nat.add_sub_cancel' hle]
      exact hget
    apply mem_of_getElem? (i := i - startIdx)
    rw [getElem?_take_of_lt (by omega)]
    exact hindex
  simp [hsome, hnot]

theorem trim_eq_of_isDelimiter (h : isDelimiter line = true) : trim line = "---" := by
  simpa [isDelimiter] using h

theorem isDelimiter_plain (h : isDelimiter line = true) :
    trim line ≠ [] ∧ isFenceLine line = false ∧ isHeadingLine line = false := by
  have htrim := trim_eq_of_isDelimiter h
  refine ⟨by rw [htrim]; decide, ?_, ?_⟩
  · rw [isFenceLine, htrim]
    decide
  · rw [isHeadingLine, htrim]
    decide

theorem isHeadingLine_of_blank (h : trim line = []) : isHeadingLine line = false := by
  cases hh : isHeadingLine line with
  | false => rfl
  | true => exact absurd h (trim_ne_nil_of_isHeadingLine hh)

theorem blank_before_prefixStart {i : ℕ} (hi : i < prefixStart ls) (hget : ls[i]? = some line) :
    trim line = [] := by
  obtain ⟨hlt, rfl⟩ := List.getElem?_eq_some_iff.mp hget
  have hnot := not_of_lt_findIdx hi
  simpa using hnot

theorem opensFrontmatter_spec (h : opensFrontmatter ls = true) :
    ∃ line, ls[prefixStart ls]? = some line ∧ isDelimiter line = true := by
  simp only [opensFrontmatter] at h
  cases hget : ls[prefixStart ls]? with
  | none => simp [hget] at h
  | some line => exact ⟨line, rfl, by simpa [hget] using h⟩

theorem frontmatterEnd_spec {startIdx : ℕ} (h : frontmatterEnd ls startIdx < ls.length) :
    ∃ line, ls[frontmatterEnd ls startIdx]? = some line ∧ isDelimiter line = true := by
  have hlt : (ls.drop (startIdx + 1)).findIdx isDelimiter < (ls.drop (startIdx + 1)).length := by
    rw [frontmatterEnd] at h
    rw [length_drop]
    omega
  refine ⟨_, ?_, findIdx_getElem (w := hlt)⟩
  rw [frontmatterEnd, ← getElem?_drop]
  exact getElem?_eq_getElem hlt

/-- The two scans of the file read the same boundary: no frontmatter, or a closed one whose
heading-like lines all stand inside fences of its own, with its fences paired up unless the
body has no heading-like line. -/
def PartsSeparate (ls : List Text) : Prop :=
  let stop := frontmatterEnd ls (prefixStart ls)
  opensFrontmatter ls = false ∨
    (stop < ls.length ∧
      (∀ i line, i < stop → ls[i]? = some line → isHeadingLine line = true →
        insideFence (ls.take i) = true) ∧
      (insideFence (ls.take stop) = false ∨
        ∀ line ∈ ls.drop (stop + 1), isHeadingLine line = false))

theorem prefixStart_lt_frontmatterEnd (ls : List Text) :
    prefixStart ls < frontmatterEnd ls (prefixStart ls) := by
  rw [frontmatterEnd]
  omega

theorem sectionPartition_of_no_frontmatter (hopen : opensFrontmatter ls = false) :
    SectionPartition ls := by
  intro i line hget hcontent
  have hlt := (List.getElem?_eq_some_iff.mp hget).1
  have hpre := countP_preambleRange 0 hget hcontent
  rw [drop_zero, Nat.zero_add] at hpre
  simp only [partRanges, frontmatterRange, prefixPreambleRange, hopen, Bool.false_eq_true,
    false_and, if_false, Option.toList_none, nil_append, countP_append]
  rw [hpre, countP_sectionRanges]
  by_cases hi : i < preambleLength false ls
  · have hnot : ¬ preambleLength false ls ≤ i := not_le.mpr hi
    simp [hi, hnot]
  · simp [hi, not_lt.mp hi, hlt]

theorem not_sectionPartition_of_unclosed (hopen : opensFrontmatter ls = true)
    (hend : ¬ frontmatterEnd ls (prefixStart ls) < ls.length) : ¬ SectionPartition ls := by
  intro hpart
  obtain ⟨line, hget, hdelim⟩ := opensFrontmatter_spec hopen
  obtain ⟨hcontent, -, hnohead⟩ := isDelimiter_plain hdelim
  have hlt := (List.getElem?_eq_some_iff.mp hget).1
  have hlate : prefixStart ls + 1 ≤ preambleLength false ls := by
    apply le_preambleLength false hlt
    intro i line' hi hget'
    rcases Nat.lt_succ_iff_lt_or_eq.mp hi with hi | rfl
    · exact isHeadingLine_of_blank (blank_before_prefixStart hi hget')
    · rw [hget] at hget'
      cases hget'
      exact hnohead
  have hone := hpart _ line hget hcontent
  simp only [partRanges, frontmatterRange, prefixPreambleRange, hopen, hend, and_false, if_true,
    if_false, Option.toList_none, nil_append] at hone
  rw [countP_sectionRanges, if_neg (by omega)] at hone
  cases hone

theorem countP_partRanges_of_closed {ls : List Text} (hopen : opensFrontmatter ls = true)
    (hend : frontmatterEnd ls (prefixStart ls) < ls.length) {i : ℕ} {line : Text}
    (hget : ls[i]? = some line) (hcontent : trim line ≠ []) :
    (partRanges ls).countP (covers i) = let body := frontmatterEnd ls (prefixStart ls) + 1
      (if i < body then 1 else 0) +
        (if body ≤ i ∧ i < body + preambleLength false (ls.drop body) then 1 else 0) +
        (if preambleLength false ls ≤ i then 1 else 0) := by
  have hlt := (List.getElem?_eq_some_iff.mp hget).1
  have hstart : prefixStart ls ≤ i := by
    by_contra hbefore
    exact hcontent (blank_before_prefixStart (not_le.mp hbefore) hget)
  have hpre := countP_preambleRange (frontmatterEnd ls (prefixStart ls) + 1) hget hcontent
  simp only [partRanges, frontmatterRange, prefixPreambleRange, hopen, hend, and_self, if_true,
    countP_append]
  rw [hpre, countP_sectionRanges]
  simp [covers, hstart, hlt]

/-- With closed frontmatter the parts partition the source exactly when the first section
starts where the preamble scan of the body stops. -/
theorem sectionPartition_iff_of_closed (hopen : opensFrontmatter ls = true)
    (hend : frontmatterEnd ls (prefixStart ls) < ls.length) :
    SectionPartition ls ↔ preambleLength false ls = frontmatterEnd ls (prefixStart ls) + 1 +
        preambleLength false (ls.drop (frontmatterEnd ls (prefixStart ls) + 1)) := by
  have hcount := @countP_partRanges_of_closed ls hopen hend
  have hclosed : frontmatterEnd ls (prefixStart ls) + 1 ≤ ls.length := hend
  generalize frontmatterEnd ls (prefixStart ls) + 1 = body at hcount hclosed ⊢
  simp only at hcount
  have hbody := preambleLength_le false (ls.drop body)
  have hfile := preambleLength_le false ls
  rw [length_drop] at hbody
  constructor
  · intro hpart
    rcases lt_trichotomy (preambleLength false ls)
      (body + preambleLength false (ls.drop body)) with hearly | heq | hlate
    · -- the first section starts inside the frontmatter or the preamble
      have hinside : preambleLength false ls < ls.length := by
        by_contra hall
        omega
      obtain ⟨line, hget, hhead⟩ := isHeadingLine_at_preambleLength hinside
      have hcontent := trim_ne_nil_of_isHeadingLine hhead
      have hone := hpart _ line hget hcontent
      rw [hcount hget hcontent] at hone
      by_cases hfm : preambleLength false ls < body
      · simp [hfm] at hone
      · simp [hfm, not_lt.mp hfm, hearly] at hone
    · exact heq
    · -- the heading that ends the preamble starts no section
      have hinside : preambleLength false (ls.drop body) < (ls.drop body).length := by
        rw [length_drop]
        omega
      obtain ⟨line, hget, hhead⟩ := isHeadingLine_at_preambleLength hinside
      rw [getElem?_drop] at hget
      have hcontent := trim_ne_nil_of_isHeadingLine hhead
      have hone := hpart _ line hget hcontent
      rw [hcount hget hcontent] at hone
      have hnot := not_le.mpr hlate
      simp [hnot] at hone
  · intro heq i line hget hcontent
    rw [hcount hget hcontent, heq]
    split <;> split <;> split <;> omega

/-- The two scans stop together exactly under the condition on the YAML lines. -/
theorem preambleLength_eq_body_iff (hend : frontmatterEnd ls (prefixStart ls) < ls.length) :
    preambleLength false ls = frontmatterEnd ls (prefixStart ls) + 1 +
        preambleLength false (ls.drop (frontmatterEnd ls (prefixStart ls) + 1)) ↔
      (∀ i line, i < frontmatterEnd ls (prefixStart ls) → ls[i]? = some line →
        isHeadingLine line = true → insideFence (ls.take i) = true) ∧
      (insideFence (ls.take (frontmatterEnd ls (prefixStart ls))) = false ∨
        ∀ line ∈ ls.drop (frontmatterEnd ls (prefixStart ls) + 1), isHeadingLine line = false) := by
  obtain ⟨close, hclose, hdelim⟩ := frontmatterEnd_spec hend
  obtain ⟨-, hnofence, hnohead⟩ := isDelimiter_plain hdelim
  generalize frontmatterEnd ls (prefixStart ls) = stop at hend hclose ⊢
  have hlen : (ls.take (stop + 1)).length = stop + 1 := by
    rw [length_take]
    omega
  -- the closing delimiter is no heading and leaves the toggle alone
  have hyaml : (∀ i line, i < stop → ls[i]? = some line → isHeadingLine line = true →
      insideFence (ls.take i) = true) ↔
        preambleLength false (ls.take (stop + 1)) = (ls.take (stop + 1)).length := by
    rw [preambleLength_eq_length_iff]
    constructor
    · intro h i line hget hhead
      have hi : i < stop + 1 := by
        have hlt := (List.getElem?_eq_some_iff.mp hget).1
        omega
      rw [getElem?_take_of_lt hi] at hget
      rw [Bool.xor_false, take_take, min_eq_left (by omega)]
      rcases Nat.lt_succ_iff_lt_or_eq.mp hi with hi | rfl
      · exact h i line hi hget hhead
      · rw [hclose] at hget
        cases hget
        rw [hnohead] at hhead
        cases hhead
    · intro h i line hi hget hhead
      have hin := h i line (by rw [getElem?_take_of_lt (by omega)]; exact hget) hhead
      rwa [Bool.xor_false, take_take, min_eq_left (by omega)] at hin
  have hparity : insideFence (ls.take (stop + 1)) = insideFence (ls.take stop) := by
    rw [take_add_one, hclose, insideFence, insideFence, countP_append]
    simp [hnofence]
  rw [hyaml]
  by_cases hall : preambleLength false (ls.take (stop + 1)) = (ls.take (stop + 1)).length
  · have happ := preambleLength_append (ls.drop (stop + 1)) hall
    rw [take_append_drop, hlen, hparity, Bool.xor_false] at happ
    rw [happ, Nat.add_left_cancel_iff]
    cases hin : insideFence (ls.take stop) with
    | false => simp [hall]
    | true =>
      have hiff := preambleLength_eq_iff true (ls.drop (stop + 1))
      rw [Bool.not_true] at hiff
      simp [hall, hiff]
  · have hlt := lt_of_le_of_ne (preambleLength_le false _) hall
    have happ := preambleLength_append_of_lt (ls.drop (stop + 1)) hlt
    rw [take_append_drop] at happ
    constructor
    · intro heq
      omega
    · rintro ⟨h, -⟩
      exact absurd h hall

/-- The parser returns the texts of its line ranges, and these partition the lines with
content exactly when the heading scan and the prefix scan agree on their boundary. -/
theorem section_partition_iff (markdown : Text) :
    PartsHaveRanges markdown ∧
      (SectionPartition markdown.lines ↔ PartsSeparate markdown.lines) := by
  refine ⟨partsHaveRanges markdown, ?_⟩
  rw [PartsSeparate]
  cases hopen : opensFrontmatter markdown.lines with
  | false => simp [sectionPartition_of_no_frontmatter hopen]
  | true =>
    by_cases hend : frontmatterEnd markdown.lines (prefixStart markdown.lines) <
        markdown.lines.length
    · rw [sectionPartition_iff_of_closed hopen hend, preambleLength_eq_body_iff hend]
      simp [hend]
    · have hnot := not_sectionPartition_of_unclosed hopen hend
      simp [hend, hnot]

/-- A YAML comment opens a section, and the text of that section repeats the frontmatter. -/
theorem yaml_comment_in_two_parts : ¬ ∀ markdown : Text, SectionPartition markdown.lines := by
  intro h
  have hone := h "---\n# note\n---\nbody" 1 "# note" (by decide) (by decide)
  revert hone
  decide

end ClearYourTools.PageIndex
