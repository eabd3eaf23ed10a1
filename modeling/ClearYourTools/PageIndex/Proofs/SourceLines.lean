import ClearYourTools.PageIndex.Proofs.DocumentFiles
import ClearYourTools.PageIndex.Retrieve

/-!
# The lines of the parts

The lines with content of frontmatter, preamble and sections, compared with those of the
source.
-/

namespace ClearYourTools.PageIndex

open Misc Text List Option

theorem contentOf_flatMap {α : Type} (f : α → List Text) (as : List α) :
    contentOf (as.flatMap f) = as.flatMap fun a => contentOf (f a) := by
  induction as with
  | nil => rfl
  | cons a as ih => rw [flatMap_cons, contentOf_append, ih, flatMap_cons]

variable {ls : List Text}

theorem mem_of_mem_slice {r : ℕ × ℕ} {l : Text} (h : l ∈ slice ls r) : l ∈ ls :=
  mem_of_mem_take (mem_of_mem_drop h)

theorem slice_append_drop (ls : List Text) {a b : ℕ} (hab : a ≤ b) (hb : b ≤ ls.length) :
    slice ls (a, b) ++ ls.drop b = ls.drop a := by
  have htake : a ≤ (ls.take b).length := by
    rw [length_take]
    omega
  rw [slice, ← drop_append_of_le_length htake, take_append_drop]

theorem flatMap_slice_spansFrom {starts : List ℕ} (hsorted : starts.Pairwise (· < ·))
    (hstop : ∀ a ∈ starts, a < ls.length) :
    (spansFrom ls.length starts).flatMap (slice ls) = ls.drop (starts.head?.getD ls.length) := by
  induction starts with
  | nil => simp [spansFrom]
  | cons a rest ih =>
    rw [pairwise_cons] at hsorted
    rw [forall_mem_cons] at hstop
    have hnext : a ≤ rest.head?.getD ls.length ∧ rest.head?.getD ls.length ≤ ls.length := by
      cases rest with
      | nil => exact ⟨hstop.1.le, Nat.le_refl _⟩
      | cons b rest =>
        exact ⟨(hsorted.1 b mem_cons_self).le, (hstop.2 b mem_cons_self).le⟩
    rw [spansFrom, flatMap_cons, ih hsorted.2 hstop.2, slice_append_drop ls hnext.1 hnext.2]
    rfl

theorem contentLines_sections (content : Text) :
    ((sections content).map ContentNode.text).flatMap contentLines =
      contentOf (content.lines.drop (preambleLength false content.lines)) := by
  have hsections := (partsHaveRanges content).sections
  rw [← sections] at hsections
  have hlines : ∀ l ∈ content.lines, '\n' ∉ l := fun l hl => newline_notMem_lines hl
  rw [hsections]
  generalize content.lines = ls at hlines
  have hhead := head?_extractNodesFrom false 0 ls
  rw [Nat.zero_add, Nat.zero_add] at hhead
  have hslices : ∀ r ∈ sectionRanges ls,
      contentLines (Text.trim (Text.joinLines (slice ls r))) = contentOf (slice ls r) := by
    intro r _
    rw [contentLines_trim, contentLines_joinLines fun l hl => hlines l (mem_of_mem_slice hl)]
  obtain ⟨hsorted, hstop⟩ := sectionStarts_spec ls
  rw [flatMap_map, flatMap_congr hslices, ← contentOf_flatMap, sectionRanges,
    flatMap_slice_spansFrom hsorted hstop, hhead]

theorem contentLines_preamble (hlines : ∀ l ∈ ls, '\n' ∉ l) (startIdx : ℕ) :
    (extractPreambleFromLines ls startIdx).1.toList.flatMap contentLines =
      contentOf ((ls.drop startIdx).take (preambleLength false (ls.drop startIdx))) := by
  have htext : contentLines (Text.trim (Text.joinLines
      ((ls.drop startIdx).take (preambleLength false (ls.drop startIdx))))) =
        contentOf ((ls.drop startIdx).take (preambleLength false (ls.drop startIdx))) := by
    rw [contentLines_trim, contentLines_joinLines]
    exact fun l hl => hlines l (mem_of_mem_drop (mem_of_mem_take hl))
  simp only [extractPreambleFromLines, preambleLoop_eq_take]
  split
  · rename_i hnil
    rw [hnil] at htext
    rw [← htext]
    rfl
  · simpa using htext

theorem contentLines_frontmatter (hlines : ∀ l ∈ ls, '\n' ∉ l) (hopen : opensFrontmatter ls = true)
    (hend : frontmatterEnd ls (prefixStart ls) < ls.length) :
    contentLines ("---\n" ++ Text.joinLines
        (slice ls (prefixStart ls + 1, frontmatterEnd ls (prefixStart ls))) ++ "\n---") =
      contentOf (slice ls (prefixStart ls, frontmatterEnd ls (prefixStart ls) + 1)) := by
  obtain ⟨first, hfirst, hfirstdelim⟩ := opensFrontmatter_spec hopen
  obtain ⟨last, hlast, hlastdelim⟩ := frontmatterEnd_spec hend
  have hlt := prefixStart_lt_frontmatterEnd ls
  generalize frontmatterEnd ls (prefixStart ls) = stop at *
  generalize prefixStart ls = start at *
  have hslice : slice ls (start, stop + 1) = first :: slice ls (start + 1, stop) ++ [last] := by
    rw [slice, take_add_one, hlast, toList_some, slice,
      drop_append_of_le_length (by rw [length_take]; omega)]
    have hget : (ls.take stop)[start]? = some first := by
      rw [getElem?_take_of_lt hlt]
      exact hfirst
    rw [drop_eq_getElem?_toList_append, hget]
    rfl
  have hopening : "---\n".toList = "---".toList ++ '\n' :: [] := by decide
  have hclosing : "\n---" = '\n' :: "---" := by decide
  have hdelim : contentLines "---".toList = ["---".toList] := by decide
  have hof : ∀ l, isDelimiter l = true → contentOf [l] = ["---".toList] := by
    intro l hl
    rw [contentOf, map_singleton, trim_eq_of_isDelimiter hl]
    decide
  rw [hopening, hclosing, List.append_assoc, List.append_assoc, List.cons_append,
    contentLines_append_newline, nil_append, contentLines_append_newline, hdelim,
    contentLines_joinLines fun l hl => hlines l (mem_of_mem_slice hl), hslice,
    contentOf_append, contentOf_cons, hof first hfirstdelim, hof last hlastdelim]
  simp

/-- No line of the frontmatter, if there is one, looks like a heading. -/
def PlainFrontmatter (ls : List Text) : Prop :=
  ∀ r ∈ frontmatterRange ls, ∀ line ∈ slice ls r, isHeadingLine line = false

/-- The file has no frontmatter, or one that is closed, with its fences paired up unless the
body has no heading-like line. -/
def ScansAgree (ls : List Text) : Prop :=
  let stop := frontmatterEnd ls (prefixStart ls)
  opensFrontmatter ls = false ∨
    (stop < ls.length ∧
      (insideFence (ls.take stop) = false ∨
        ∀ line ∈ ls.drop (stop + 1), isHeadingLine line = false))

/-- Two stretches of lines, up to `k` and from `m` on, have the lines with content exactly
when they meet, if a line with content stands where each of them ends or starts. -/
theorem contentOf_take_drop_iff {k m : ℕ} (hk : k ≤ ls.length) (hm : m ≤ ls.length)
    (hkline : k < ls.length → ∃ l, ls[k]? = some l ∧ Text.trim l ≠ [])
    (hmline : m < ls.length → ∃ l, ls[m]? = some l ∧ Text.trim l ≠ []) :
    contentOf (ls.take k) ++ contentOf (ls.drop m) = contentOf ls ↔ k = m := by
  -- a stretch that starts with such a line is not empty
  have hpos : ∀ i j, i < j → j ≤ ls.length → (∃ l, ls[i]? = some l ∧ Text.trim l ≠ []) →
      0 < (contentOf (slice ls (i, j))).length := by
    rintro i j hij hj ⟨l, hget, hcontent⟩
    rw [length_pos_iff, ne_eq, contentOf_eq_nil_iff]
    intro hall
    apply hcontent
    apply hall
    apply mem_of_getElem? (i := 0)
    rw [slice, getElem?_drop, Nat.add_zero, getElem?_take_of_lt hij]
    exact hget
  constructor
  · intro h
    have hlength := congrArg List.length h
    rw [length_append] at hlength
    rcases lt_trichotomy k m with hlt | heq | hlt
    · have hgap := hpos k m hlt hm (hkline (by omega))
      have hall : ls.take k ++ (slice ls (k, m) ++ ls.drop m) = ls := by
        rw [slice_append_drop ls hlt.le hm, take_append_drop]
      have htotal := congrArg (fun xs => (contentOf xs).length) hall
      simp only [contentOf_append, length_append] at htotal
      omega
    · exact heq
    · have hgap := hpos m k hlt hk (hmline (by omega))
      have hall : ls.take k ++ ls.drop k = ls := take_append_drop k ls
      have htwice := slice_append_drop ls hlt.le hk
      have htotal := congrArg (fun xs => (contentOf xs).length) hall
      have hdrop := congrArg (fun xs => (contentOf xs).length) htwice
      simp only [contentOf_append, length_append] at htotal hdrop
      omega
  · rintro rfl
    rw [← contentOf_append, take_append_drop]

theorem skillPrefix_of_no_frontmatter (hopen : opensFrontmatter ls = false) :
    (skillPrefixOfLines ls).frontmatter = none ∧
      (skillPrefixOfLines ls).preamble = (extractPreambleFromLines ls 0).1 := by
  rw [opensFrontmatter] at hopen
  simp [skillPrefixOfLines, hopen]

section

variable (hopen : opensFrontmatter ls = true)
include hopen

theorem skillPrefix_of_unclosed (hend : ¬ frontmatterEnd ls (prefixStart ls) < ls.length) :
    (skillPrefixOfLines ls).frontmatter = none ∧ (skillPrefixOfLines ls).preamble = none := by
  rw [opensFrontmatter] at hopen
  simp [skillPrefixOfLines, hopen, not_lt.mp hend, SkillPrefix.default]

theorem skillPrefix_of_closed
    (hend : frontmatterEnd ls (prefixStart ls) < ls.length) :
    (skillPrefixOfLines ls).frontmatter =
        some ("---\n" ++ Text.joinLines
          (slice ls (prefixStart ls + 1, frontmatterEnd ls (prefixStart ls))) ++
            "\n---") ∧
      (skillPrefixOfLines ls).preamble =
        (extractPreambleFromLines ls (frontmatterEnd ls (prefixStart ls) + 1)).1 := by
  rw [opensFrontmatter] at hopen
  have hnot := not_le.mpr hend
  simp [skillPrefixOfLines, hopen, hnot, slice]

theorem not_contentOf_drop_of_unclosed (hlate : prefixStart ls < preambleLength false ls) :
    contentOf (ls.drop (preambleLength false ls)) ≠ contentOf ls := by
  obtain ⟨line, hget, hdelim⟩ := opensFrontmatter_spec hopen
  intro h
  have hall := congrArg (fun xs => (contentOf xs).length)
    (take_append_drop (preambleLength false ls) ls)
  simp only [contentOf_append, length_append, h] at hall
  have hnil : contentOf (ls.take (preambleLength false ls)) = [] := length_eq_zero_iff.mp (by omega)
  rw [contentOf_eq_nil_iff] at hnil
  apply (isDelimiter_plain hdelim).1
  apply hnil
  apply mem_of_getElem? (i := prefixStart ls)
  rw [getElem?_take_of_lt hlate]
  exact hget

theorem prefixStart_lt_preambleLength : prefixStart ls < preambleLength false ls := by
  obtain ⟨line, hget, hdelim⟩ := opensFrontmatter_spec hopen
  have hlt := (List.getElem?_eq_some_iff.mp hget).1
  apply le_preambleLength false hlt
  intro i line' hi hget'
  rcases Nat.lt_succ_iff_lt_or_eq.mp hi with hi | rfl
  · exact isHeadingLine_of_blank (blank_before_prefixStart hi hget')
  · rw [hget] at hget'
    cases hget'
    exact (isDelimiter_plain hdelim).2.2

end

theorem plain_before_body {ls : List Text} (hplain : PlainFrontmatter ls)
    (hopen : opensFrontmatter ls = true) (hend : frontmatterEnd ls (prefixStart ls) < ls.length)
    {i : ℕ} {line : Text} (hi : i < frontmatterEnd ls (prefixStart ls) + 1)
    (hget : ls[i]? = some line) : isHeadingLine line = false := by
  by_cases hbefore : i < prefixStart ls
  · exact isHeadingLine_of_blank (blank_before_prefixStart hbefore hget)
  apply hplain (prefixStart ls, frontmatterEnd ls (prefixStart ls) + 1)
  · rw [frontmatterRange, if_pos ⟨hopen, hend⟩]
    rfl
  · apply mem_of_getElem? (i := i - prefixStart ls)
    rw [slice, getElem?_drop, Nat.add_sub_cancel' (not_lt.mp hbefore), getElem?_take_of_lt hi]
    exact hget

theorem contentOf_of_closed (hend : frontmatterEnd ls (prefixStart ls) < ls.length) :
    contentOf ls = contentOf (slice ls (prefixStart ls, frontmatterEnd ls (prefixStart ls) + 1)) ++
      contentOf (ls.drop (frontmatterEnd ls (prefixStart ls) + 1)) := by
  have hlt := prefixStart_lt_frontmatterEnd ls
  have hblank : contentOf (ls.take (prefixStart ls)) = [] := by
    rw [contentOf_eq_nil_iff]
    intro l hl
    obtain ⟨i, hi, hget⟩ := mem_take_iff_getElem.mp hl
    exact blank_before_prefixStart (by omega) (List.getElem?_eq_some_iff.mpr ⟨by omega, hget⟩)
  rw [← contentOf_append, slice_append_drop ls (by omega) hend]
  have hall := congrArg contentOf (take_append_drop (prefixStart ls) ls)
  rw [contentOf_append, hblank, nil_append] at hall
  exact hall.symm

theorem content_at_preambleLength (ls : List Text) (h : preambleLength false ls < ls.length) :
    ∃ l, ls[preambleLength false ls]? = some l ∧ Text.trim l ≠ [] := by
  obtain ⟨l, hget, hhead⟩ := isHeadingLine_at_preambleLength h
  exact ⟨l, hget, trim_ne_nil_of_isHeadingLine hhead⟩

variable {content : Text}

/-- The parts have the lines of the source exactly when the scans agree. -/
theorem contentLines_partTexts_iff (hplain : PlainFrontmatter content.lines) :
    (partTexts content).flatMap contentLines = contentLines content ↔ ScansAgree content.lines := by
  have hlines : ∀ l ∈ content.lines, '\n' ∉ l := fun l hl => newline_notMem_lines hl
  rw [partTexts, flatMap_append, flatMap_append, contentLines_sections, contentLines,
    extractSkillPrefix, ScansAgree]
  generalize content.lines = ls at hplain hlines
  cases hopen : opensFrontmatter ls with
  | false =>
    obtain ⟨hfm, hpre⟩ := skillPrefix_of_no_frontmatter hopen
    rw [hfm, hpre, contentLines_preamble hlines, drop_zero, ← contentOf_append, take_append_drop]
    simp
  | true =>
    by_cases hend : frontmatterEnd ls (prefixStart ls) < ls.length
    · obtain ⟨hfm, hpre⟩ := skillPrefix_of_closed hopen hend
      have hplainline := fun i line => @plain_before_body ls hplain hopen hend i line
      have hscans := preambleLength_eq_body_iff hend
      rw [hfm, hpre, contentLines_preamble hlines, toList_some, flatMap_singleton,
        contentLines_frontmatter hlines hopen hend, contentOf_of_closed hend, append_cancel_left_eq]
      have hlate : frontmatterEnd ls (prefixStart ls) + 1 ≤ preambleLength false ls :=
        le_preambleLength false hend fun i line hi hget => hplainline i line hi hget
      have hfile := preambleLength_le false ls
      have hbody := preambleLength_le false (ls.drop (frontmatterEnd ls (prefixStart ls) + 1))
      have hyaml : ∀ i line, i < frontmatterEnd ls (prefixStart ls) → ls[i]? = some line →
          isHeadingLine line = true → insideFence (ls.take i) = true := by
        intro i line hi hget hhead
        rw [hplainline i line (by omega) hget] at hhead
        cases hhead
      have hdrop : ls.drop (preambleLength false ls) =
          (ls.drop (frontmatterEnd ls (prefixStart ls) + 1)).drop
            (preambleLength false ls - (frontmatterEnd ls (prefixStart ls) + 1)) := by
        rw [drop_drop, Nat.add_sub_cancel' hlate]
      rw [hdrop, contentOf_take_drop_iff hbody (by rw [length_drop]; omega)
        (content_at_preambleLength _)]
      · simp only [Bool.true_eq_false, hend, true_and, false_or]
        rw [eq_tsub_iff_add_eq_of_le hlate, Nat.add_comm, eq_comm, hscans]
        exact and_iff_right hyaml
      · intro hlt
        rw [length_drop] at hlt
        rw [getElem?_drop, Nat.add_sub_cancel' hlate]
        exact content_at_preambleLength ls (by omega)
    · obtain ⟨hfm, hpre⟩ := skillPrefix_of_unclosed hopen hend
      have hlost := not_contentOf_drop_of_unclosed hopen (prefixStart_lt_preambleLength hopen)
      rw [hfm, hpre]
      simp [hlost, hend]

open Misc

/-- Every child has a greater id than its parent. -/
def IdsIncrease : Option ℕ → Forest ℕ → Prop
  | _, .nil => True
  | parent, .node id children rest =>
    (∀ p ∈ parent, p < id) ∧ IdsIncrease (some id) children ∧ IdsIncrease parent rest

variable {parents : Dict ℕ ℕ} {tree : Structure}

theorem forall_walkParentMap {parent : Option ℕ}
    (hparents : parents.Forall fun child p => p < child)
    (hids : IdsIncrease parent (tree.map NodeObj.id)) :
    (walkParentMap parent parents tree).Forall fun child p => p < child := by
  induction tree generalizing parent parents with
  | nil => exact hparents
  | node obj children rest ihc ihr =>
    obtain ⟨hparent, hchildren, hrest⟩ := hids
    simp only [walkParentMap]
    cases parent with
    | none => exact ihr (ihc hparents hchildren) hrest
    | some p => exact ihr (ihc (hparents.set (hparent p rfl)) hchildren) hrest

/-- The walk ends when every step goes to a smaller id: each step uses up an entry. -/
theorem ancestors_isSome (hparents : parents.Forall fun child p => p < child) {fuel current : ℕ}
    (hfuel : (parents.entries.filter fun e => decide (e.1 ≤ current)).length < fuel) :
    (ancestors parents fuel current).isSome = true := by
  induction fuel generalizing current with
  | zero => omega
  | succ fuel ih =>
    rw [ancestors]
    cases hget : parents.get? current with
    | none => rfl
    | some parent =>
      simp only
      split
      · rfl
      rw [isSome_map]
      apply ih
      have hlt : parent < current := hparents.get? hget
      -- the entry of `current` itself is not below its parent
      have hmem := Dict.mem_entries_of_get? hget
      have hfewer : (parents.entries.filter fun e => decide (e.1 ≤ parent)).length <
          (parents.entries.filter fun e => decide (e.1 ≤ current)).length := by
        rw [← countP_eq_length_filter, ← countP_eq_length_filter]
        obtain ⟨before, after, hsplit⟩ := append_of_mem hmem
        have hle : ∀ es : List (ℕ × ℕ), es.countP (fun e => decide (e.1 ≤ parent)) ≤
            es.countP fun e => decide (e.1 ≤ current) := by
          intro es
          apply countP_mono_left
          intro e _ he
          rw [decide_eq_true_eq] at he ⊢
          omega
        have hbefore := hle before
        have hafter := hle after
        have hnot : ¬ current ≤ parent := not_le.mpr hlt
        rw [hsplit, countP_append, countP_append, countP_cons, countP_cons]
        simp only [hnot, decide_false, Bool.false_eq_true, if_false, Nat.le_refl, decide_true,
          if_true]
        omega
      omega

theorem expandWithAncestors_isSome (hparents : parents.Forall fun child p => p < child)
    (matched : List ℕ) :
    ∃ kept, expandWithAncestors matched parents = some kept ∧ ∀ id ∈ matched, id ∈ kept := by
  have hwalk : ∀ id ∈ matched,
      (ancestors parents (parents.entries.length + 1) id).isSome = true := by
    intro id _
    apply ancestors_isSome hparents
    have hle := length_filter_le (fun e : ℕ × ℕ => decide (e.1 ≤ id)) parents.entries
    omega
  have hall : ∃ above, matched.mapM (ancestors parents (parents.entries.length + 1)) =
      some above := by
    generalize parents.entries.length + 1 = fuel at hwalk
    induction matched with
    | nil => exact ⟨[], rfl⟩
    | cons id rest ih =>
      rw [forall_mem_cons] at hwalk
      obtain ⟨up, hup⟩ := isSome_iff_exists.mp hwalk.1
      obtain ⟨above, habove⟩ := ih hwalk.2
      exact ⟨up :: above, by simp [hup, habove]⟩
  obtain ⟨above, habove⟩ := hall
  refine ⟨matched ++ above.flatten, ?_, fun id hid => mem_append_left _ hid⟩
  rw [expandWithAncestors, habove, map_some]

theorem idsIncrease_writeNodeId (tree : Structure) {parent : Option ℕ} {next : ℕ}
    (hnext : ∀ p ∈ parent, p < next) :
    IdsIncrease parent ((writeNodeId tree next).1.map NodeObj.id) ∧
      next ≤ (writeNodeId tree next).2 := by
  induction tree generalizing parent next with
  | nil => exact ⟨trivial, Nat.le_refl _⟩
  | node obj children rest ihc ihr =>
    obtain ⟨hchildren, hmid⟩ := @ihc (some next) (next + 1) (by simp)
    have hparent : ∀ p ∈ parent, p < (writeNodeId children (next + 1)).2 := by
      intro p hp
      have hlt := hnext p hp
      omega
    obtain ⟨hrest, hlast⟩ := ihr hparent
    refine ⟨⟨?_, hchildren, hrest⟩, ?_⟩
    · exact hnext
    · simp only [writeNodeId]
      omega

theorem walkParentMap_of_isFlat (hflat : tree.isFlat = true) (parents : Dict ℕ ℕ) :
    walkParentMap none parents tree = parents := by
  induction tree generalizing parents with
  | nil => rfl
  | node obj children rest _ ihr =>
    cases children with
    | nil => exact ihr hflat parents
    | node _ _ _ => cases hflat

section

/-- All ids are zero, the id that a node without one is read as. -/
def AllZero (tree : Structure) : Prop := ∀ obj ∈ tree.preorder, obj.id = 0

theorem allZero_node {obj : NodeObj} {children rest : Structure} :
    AllZero (.node obj children rest) ↔ obj.id = 0 ∧ AllZero children ∧ AllZero rest := by
  simp only [AllZero, Forest.preorder_node, forall_mem_cons, forall_mem_append]

variable {parents : Dict ℕ ℕ}

theorem get?_walkParentMap_some {tree : Structure} (hzero : AllZero tree)
    (h : tree ≠ .nil ∨ parents.get? 0 = some 0) :
    (walkParentMap (some 0) parents tree).get? 0 = some 0 := by
  induction tree generalizing parents with
  | nil => exact h.resolve_left fun hne => hne rfl
  | node obj children rest ihc ihr =>
    obtain ⟨hobj, hchildren, hrest⟩ := allZero_node.mp hzero
    simp only [walkParentMap, hobj]
    exact ihr hrest (.inr (ihc hchildren (.inr (Dict.get?_set_self _ _ _))))

theorem get?_walkParentMap_none {tree : Structure} (hzero : AllZero tree)
    (h : tree.isFlat = false ∨ parents.get? 0 = some 0) :
    (walkParentMap none parents tree).get? 0 = some 0 := by
  induction tree generalizing parents with
  | nil => exact h.resolve_left (by simp [Forest.isFlat])
  | node obj children rest _ ihr =>
    obtain ⟨hobj, hchildren, hrest⟩ := allZero_node.mp hzero
    simp only [walkParentMap, hobj]
    apply ihr hrest
    cases children with
    | nil =>
      rcases h with hflat | hget
      · exact .inl hflat
      · exact .inr hget
    | node _ _ _ => exact .inr (get?_walkParentMap_some hchildren (.inl (by simp)))

theorem ancestors_zero (h : parents.get? 0 = some 0) (fuel : ℕ) :
    ancestors parents fuel 0 = none := by
  induction fuel with
  | zero => rfl
  | succ fuel ih => simp [ancestors, h, ih, nodeIdPreamble]

theorem expandWithAncestors_zero (h : parents.get? 0 = some 0) {matched : List ℕ}
    (hmem : 0 ∈ matched) : expandWithAncestors matched parents = none := by
  have hall : matched.mapM (ancestors parents (parents.entries.length + 1)) = none := by
    generalize parents.entries.length + 1 = fuel
    induction matched with
    | nil => cases hmem
    | cons id rest ih =>
      rcases mem_cons.mp hmem with rfl | hmem
      · simp [ancestors_zero h]
      · simp [ih hmem]
  rw [expandWithAncestors, hall, map_none]

end

/-- Some heading already stands below another one, or will. -/
def Nested (state : List MutableNode × Structure) : Prop :=
  state.2.isFlat = false ∨ 2 ≤ state.1.length ∨ ∃ m ∈ state.1, m.children ≠ .nil

variable {roots : Structure}

theorem nested_finishTop {top : MutableNode} {stack : List MutableNode}
    (h : Nested (top :: stack, roots)) : Nested (finishTop top stack roots) := by
  cases stack with
  | nil =>
    rcases h with hroots | hlength | ⟨m, hm, hchildren⟩
    · left
      cases hc : top.children <;>
        simp only [finishTop, hc, Forest.isFlat_push_nil, Forest.isFlat_push_node]
      exact hroots
    · simp at hlength
    · obtain rfl := mem_singleton.mp hm
      left
      cases hc : m.children with
      | nil => exact absurd hc hchildren
      | node _ _ _ => simp only [finishTop, hc, Forest.isFlat_push_node]
  | cons parent stack =>
    exact .inr (.inr ⟨_, mem_cons_self, Forest.push_ne_nil _ _ _⟩)

theorem nested_popClosed {level fuel : ℕ} {stack : List MutableNode} {roots : Structure}
    (h : Nested (stack, roots)) : Nested (popClosed level fuel stack roots) := by
  induction fuel generalizing stack roots with
  | zero => exact h
  | succ fuel ih =>
    cases stack with
    | nil => exact h
    | cons top stack =>
      rw [popClosed]
      split
      · exact ih (nested_finishTop h)
      · exact h

variable {state : List MutableNode × Structure}

theorem nested_pushHeading (h : Nested state)
    (node : ContentNode) : Nested (pushHeading state node) := by
  rcases @nested_popClosed node.level state.1.length _ _ h with hroots | hlength | ⟨m, hm, hchildren⟩
  · exact .inl hroots
  · refine .inr (.inl ?_)
    simp only [pushHeading, length_cons]
    omega
  · exact .inr (.inr ⟨m, mem_cons_of_mem _ hm, hchildren⟩)

theorem isFlat_popAll_of_nested {fuel : ℕ} {stack : List MutableNode} (hfuel : stack.length ≤ fuel)
    (h : Nested (stack, roots)) : (popAll fuel stack roots).isFlat = false := by
  induction fuel generalizing stack roots with
  | zero =>
    obtain rfl : stack = [] := length_eq_zero_iff.mp (by omega)
    simpa [Nested, popAll] using h
  | succ fuel ih =>
    cases stack with
    | nil => simpa [Nested, popAll] using h
    | cons top stack =>
      have hlength := (finishTop_spec top stack roots).2
      rw [length_cons] at hfuel
      rw [popAll]
      exact ih (by omega) (nested_finishTop h)

theorem isFlat_of_nested (h : Nested state) (nodes : List ContentNode) :
    (popAll (nodes.foldl pushHeading state).1.length (nodes.foldl pushHeading state).1
      (nodes.foldl pushHeading state).2).isFlat = false := by
  induction nodes generalizing state with
  | nil => exact isFlat_popAll_of_nested (Nat.le_refl _) h
  | cons node rest ih => exact ih (nested_pushHeading h node)

theorem isFlat_of_single (obj : NodeObj) (level : ℕ) (hroots : roots.isFlat = true)
    (nodes : List ContentNode) :
    (popAll (nodes.foldl pushHeading ([⟨obj, level, .nil⟩], roots)).1.length
      (nodes.foldl pushHeading ([⟨obj, level, .nil⟩], roots)).1
      (nodes.foldl pushHeading ([⟨obj, level, .nil⟩], roots)).2).isFlat = true ↔
      (level :: nodes.map ContentNode.level).IsChain fun a b => b ≤ a := by
  induction nodes generalizing obj level roots with
  | nil => simp [popAll, finishTop, Forest.isFlat_push_nil, hroots]
  | cons node rest ih =>
    simp only [foldl_cons, map_cons, isChain_cons_cons]
    by_cases hle : node.level ≤ level
    · have hpush : pushHeading ([⟨obj, level, .nil⟩], roots) node =
          ([⟨headingObj node, node.level, .nil⟩], roots.push obj .nil) := by
        simp [pushHeading, popClosed, finishTop, hle]
      have hflat : (roots.push obj .nil).isFlat = true := by
        rw [Forest.isFlat_push_nil, hroots]
      rw [hpush, ih _ _ hflat]
      simp [hle]
    · have hpush : pushHeading ([⟨obj, level, .nil⟩], roots) node =
          ([⟨headingObj node, node.level, .nil⟩, ⟨obj, level, .nil⟩], roots) := by
        simp [pushHeading, popClosed, hle]
      have hnested : Nested (pushHeading ([⟨obj, level, .nil⟩], roots) node) := by
        rw [hpush]
        exact .inr (.inl (Nat.le_refl 2))
      rw [isFlat_of_nested hnested]
      simp [hle]

theorem isFlat_buildTreeFromNodes (nodes : List ContentNode) :
    (buildTreeFromNodes nodes).isFlat = true ↔
      (nodes.map ContentNode.level).IsChain fun a b => b ≤ a := by
  cases nodes with
  | nil => simp [buildTreeFromNodes, popAll, Forest.isFlat]
  | cons node rest =>
    have hflat : (Forest.nil : Structure).isFlat = true := rfl
    exact isFlat_of_single (headingObj node) node.level hflat rest

theorem walkParentMap_congr {tree' : Structure} (h : tree.map NodeObj.id = tree'.map NodeObj.id)
    (parent : Option ℕ) (parents : Dict ℕ ℕ) :
    walkParentMap parent parents tree = walkParentMap parent parents tree' := by
  induction tree generalizing tree' parent parents with
  | nil =>
    cases tree' with
    | nil => rfl
    | node _ _ _ => cases h
  | node obj children rest ihc ihr =>
    cases tree' with
    | nil => cases h
    | node obj' children' rest' =>
      obtain ⟨hobj, hchildren, hrest⟩ := Forest.node.inj h
      simp only [walkParentMap, hobj, ihc hchildren, ihr hrest]

/-- The numbered headings of a text as a tree. -/
def headingTree (content : Text) (config : PageIndexConfig) : Structure :=
  if config.ifAddNodeId then
    (writeNodeId (buildTreeFromNodes (sections content)) contentNodeIdStart).1
  else buildTreeFromNodes (sections content)

theorem buildParentMap_buildFlatStructure (content : Text) (config : PageIndexConfig) :
    buildParentMap (buildFlatStructure content config) =
      walkParentMap none .empty (headingTree content config) := by
  have hpre : ∀ (kind : NodeKind) (id : ℕ) (text : Option Text) (lineNum : Option ℕ)
      (roots : Structure), walkParentMap none .empty (insertPrefix kind id text lineNum roots) =
        walkParentMap none .empty roots := by
    intro kind id text lineNum roots
    rw [insertPrefix]
    split <;> rfl
  simp only [buildParentMap, buildFlatStructure, finalizeSkillStructure,
    formatStructureForOutput, if_true]
  rw [hpre, hpre]
  rfl

/-- Headings have ids of their own, or none of them is deeper than the one before. -/
def Unnested (content : Text) (config : PageIndexConfig) : Prop :=
  config.ifAddNodeId = true ∨ ((sections content).map ContentNode.level).IsChain fun a b => b ≤ a

variable {config : PageIndexConfig}

theorem expandWithAncestors_of_unnested (h : Unnested content config) (matched : List ℕ) :
    ∃ kept, expandWithAncestors matched
        (buildParentMap (buildFlatStructure content config)) = some kept ∧
      ∀ id ∈ matched, id ∈ kept := by
  rw [buildParentMap_buildFlatStructure, headingTree]
  apply expandWithAncestors_isSome
  have hempty := Dict.forall_empty (fun child p : ℕ => p < child)
  split
  · apply forall_walkParentMap hempty
    exact (idsIncrease_writeNodeId _ (by simp)).1
  · rename_i hid
    have hflat := (isFlat_buildTreeFromNodes (sections content)).mpr (h.resolve_left hid)
    rw [walkParentMap_of_isFlat hflat]
    exact hempty

theorem expandWithAncestors_of_nested (h : ¬ Unnested content config) :
    expandWithAncestors ((documentNodes content config).map NodeObj.id)
      (buildParentMap (buildFlatStructure content config)) = none := by
  rw [Unnested, not_or, Bool.not_eq_true, ← isFlat_buildTreeFromNodes, Bool.not_eq_true] at h
  obtain ⟨hid, hnested⟩ := h
  rw [buildParentMap_buildFlatStructure, headingTree, hid, if_neg (by simp)]
  have hzero : AllZero (buildTreeFromNodes (sections content)) := by
    intro obj hobj
    rw [preorder_buildTreeFromNodes] at hobj
    obtain ⟨node, -, rfl⟩ := List.mem_map.mp hobj
    rfl
  have hmem : 0 ∈ (documentNodes content config).map NodeObj.id := by
    rw [map_id_documentNodes, hid]
    cases hsections : sections content with
    | nil =>
      rw [hsections] at hnested
      cases hnested
    | cons node rest => simp [replicate_succ]
  exact expandWithAncestors_zero (get?_walkParentMap_none hzero (.inl hnested)) hmem

end ClearYourTools.PageIndex
