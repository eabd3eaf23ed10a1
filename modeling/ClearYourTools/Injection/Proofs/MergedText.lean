import ClearYourTools.Injection.Formats
import ClearYourTools.Injection.Proofs.AppendedText

/-!
# What a merge keeps

Where `merge_injection_into_text` merges, it puts one block in the place of another one, and of the
two blocks only what the patterns read is left, of each key the last one.
-/

namespace ClearYourTools.Injection

open Misc List Option Matcher
open Matcher (element mem_places upTo_isLocal infix_of_mem_findAll)
open Text (infix_joinLines infix_strip joinLines)
open List (mem_map mem_map_of_mem)

theorem skillsElement_isLocal : (element skillsOpen skillsClose).IsLocal := element_isLocal _ _

theorem toolsElement_isLocal : (element toolsOpen toolsClose).IsLocal := element_isLocal _ _

variable {opening closing x : Text} {c : Char}

theorem stripped_between {d : Char} (hc : isSpace c = false) (hd : isSpace d = false)
    (hopening : opening.head? = some c) (hclosing : closing.getLast? = some d)
    (h : ∃ y, x = opening ++ (y ++ closing)) : Text.Stripped x := by
  obtain ⟨y, rfl⟩ := h
  have hopeningNe : opening ≠ [] := by
    rintro rfl
    cases hopening
  have hclosingNe : closing ≠ [] := by
    rintro rfl
    cases hclosing
  refine Text.stripped_append hopeningNe (fun e he => ?_)
    (append_ne_nil_of_right_ne_nil y hclosingNe) fun e he => ?_
  · rw [hopening] at he
    rw [← Option.some.inj he]
    exact hc
  · rw [getLast?_append_of_ne_nil _ hclosingNe, hclosing] at he
    rw [← Option.some.inj he]
    exact hd

variable {t r : Text}

theorem skillsElement_stripped (h : element skillsOpen skillsClose t = some (x, r)) :
    Text.Stripped x :=
  stripped_between (c := '<') (d := '>') rfl rfl rfl rfl (element_eq_some h)

theorem toolsElement_stripped (h : element toolsOpen toolsClose t = some (x, r)) :
    Text.Stripped x :=
  stripped_between (c := '<') (d := '>') rfl rfl rfl rfl (element_eq_some h)

theorem prefix_of_element (h : element opening closing t = some (x, r)) : opening <+: x := by
  obtain ⟨y, rfl⟩ := element_eq_some h
  exact prefix_append _ _

theorem anyBlock_splits : Matcher.Splits anyBlock := by
  intro t x r h
  unfold anyBlock at h
  rcases or_eq_some_iff.mp h with h | ⟨-, h⟩
  · exact skillsElement_isLocal.splits t x r h
  · exact toolsElement_isLocal.splits t x r h

theorem writtenSkill_splits : Matcher.Splits writtenSkill :=
  (andThen_isLocal (literal_isLocal _) (upTo_isLocal _)).splits

theorem writtenUnit_splits : Matcher.Splits writtenUnit := by
  intro t x r h
  unfold writtenUnit at h
  rcases or_eq_some_iff.mp h with h | ⟨-, h⟩
  · obtain ⟨source, -, hsection⟩ := exists_of_findSome?_eq_some h
    exact (andThen_isLocal (literal_isLocal _) (upTo_isLocal _)).splits t x r hsection
  · exact (andThen_isLocal (literal_isLocal _)
      (upTo_isLocal _)).splits t x r h

variable {p : Text × Text × Text}

theorem strip_ne_nil_of_block (hp : p ∈ blocks t)
    (hopen : skillsOpen <+: p.2.1 ∨ toolsOpen <+: p.2.1) : t.strip ≠ [] := by
  intro hblank
  rw [Text.strip_eq_nil_iff] at hblank
  have hmem : '<' ∈ p.2.1 := by
    rcases hopen with h | h
    · exact h.subset mem_cons_self
    · exact h.subset mem_cons_self
  have hspace := hblank '<' (by
    rw [(mem_places anyBlock_splits hp).1]
    exact mem_append_right _ (mem_append_left _ hmem))
  exact absurd hspace (by decide)

/-- The first element of a text, empty if there is none. -/
def firstElement (opening closing t : Text) : Text :=
  match (element opening closing).search t with
  | some (_, block, _) => block
  | none => []

variable {m : Matcher}

theorem extract_cons_of_none (h : m (c :: t) = none) : extract m (c :: t) = extract m t := by
  rw [extract, extract, search, h]
  cases m.search t with
  | none => rfl
  | some r => rfl

theorem extract_of_here (h : m t = some (x, r)) : extract m t = x.strip := by
  rw [extract, search_of_here h]

theorem firstElement_cons_of_none (h : element opening closing (c :: t) = none) :
    firstElement opening closing (c :: t) = firstElement opening closing t := by
  rw [firstElement, firstElement, search, h]
  cases (element opening closing).search t with
  | none => rfl
  | some r => rfl

theorem firstElement_of_here (h : element opening closing t = some (x, r)) :
    firstElement opening closing t = x := by
  rw [firstElement, search_of_here h]

theorem toolsBlock_lineFeed (t : Text) : toolsBlock ('\n' :: t) =
    (element toolsOpen toolsClose t).map fun s => ('\n' :: s.1, s.2) := by
  have helement : element toolsOpen toolsClose ('\n' :: t) = none := rfl
  have hfirst : (literal ['\n']).andThen (element toolsOpen toolsClose)
      ('\n' :: t) =
      (element toolsOpen toolsClose t).map fun s => ('\n' :: s.1, s.2) := rfl
  rw [toolsBlock, hfirst, helement]
  cases element toolsOpen toolsClose t with
  | none => rfl
  | some r => rfl

theorem toolsBlock_cons (hc : c ≠ '\n') (t : Text) :
    toolsBlock (c :: t) = element toolsOpen toolsClose (c :: t) := by
  have hliteral : literal ['\n'] (c :: t) = none := by
    rw [literal_eq_none_iff, cons_prefix_cons]
    exact fun h => hc h.1.symm
  rw [toolsBlock, andThen, hliteral]
  rfl

theorem extract_toolsBlock (t : Text) :
    extract toolsBlock t = firstElement toolsOpen toolsClose t := by
  induction t with
  | nil => rfl
  | cons c t ih =>
    by_cases hc : c = '\n'
    · subst hc
      have hnone : element toolsOpen toolsClose ('\n' :: t) = none := rfl
      rw [firstElement_cons_of_none hnone]
      cases helement : element toolsOpen toolsClose t with
      | none =>
        have hblock : toolsBlock ('\n' :: t) = none := by
          rw [toolsBlock_lineFeed, helement, map_none]
        rw [extract_cons_of_none hblock, ih]
      | some r =>
        obtain ⟨x, a⟩ := r
        have hblock : toolsBlock ('\n' :: t) = some ('\n' :: x, a) := by
          rw [toolsBlock_lineFeed, helement, map_some]
        rw [extract_of_here hblock, firstElement_of_here helement]
        exact (toolsElement_stripped helement).strip
    · cases helement : element toolsOpen toolsClose (c :: t) with
      | none =>
        have hblock : toolsBlock (c :: t) = none := by rw [toolsBlock_cons hc, helement]
        rw [extract_cons_of_none hblock, firstElement_cons_of_none helement, ih]
      | some r =>
        obtain ⟨x, a⟩ := r
        have hblock : toolsBlock (c :: t) = some (x, a) := by rw [toolsBlock_cons hc, helement]
        rw [extract_of_here hblock, firstElement_of_here helement]
        exact (toolsElement_stripped helement).strip

theorem extract_skillsBlock (h : skillsOpen <+: extract skillsBlock t) :
    extract skillsBlock t = firstElement skillsOpen skillsClose t := by
  induction t with
  | nil => rfl
  | cons c t ih =>
    cases hblock : skillsBlock (c :: t) with
    | none =>
      have helement : element skillsOpen skillsClose (c :: t) = none := by
        unfold skillsBlock at hblock
        split at hblock
        · cases hblock
        · exact hblock
      rw [extract_cons_of_none hblock] at h ⊢
      rw [firstElement_cons_of_none helement, ih h]
    | some r =>
      obtain ⟨x, a⟩ := r
      rw [extract_of_here hblock] at h ⊢
      unfold skillsBlock at hblock
      split at hblock
      · rename_i r hintro
        obtain rfl := Option.some.inj hblock
        obtain ⟨line, z, u, rfl, hline, -⟩ := andThen_eq_some hintro
        obtain ⟨y, w, v, rfl, hstart, -⟩ := andThen_eq_some hline
        obtain ⟨rfl, -⟩ := literal_eq_some hstart
        have hhead : ∃ s : Text, introStart ++ w ++ z = [] ++ 'B' :: s := ⟨_, rfl⟩
        obtain ⟨s, hs⟩ := hhead
        rw [hs, Text.strip_of_first (by simp) rfl] at h
        exact absurd (cons_prefix_cons.mp h).1 (by decide)
      · rw [firstElement_of_here hblock]
        exact (skillsElement_stripped hblock).strip

theorem strip_extract (m : Matcher) (t : Text) : (extract m t).strip = extract m t := by
  rw [extract]
  split
  · exact Text.strip_strip _
  · rfl

theorem replaceFirst_of_search (hm : m.IsLocal) {b a : Text} (h : m.search t = some (b, x, a))
    (new : Text) : replaceFirst x new t = b ++ new ++ a := by
  rw [replaceFirst, search_literal_of_search hm h]

/-- The last of the items with its key. -/
def LastOfKey (key : Text → Text) (items : List Text) (y : Text) : Prop :=
  ∃ before after, items = before ++ y :: after ∧ ∀ z ∈ after, key z ≠ key y

variable {y : Text}

theorem LastOfKey.append {key : Text → Text} {items : List Text} (h : LastOfKey key items y)
    (others : List Text) : LastOfKey key (others ++ items) y := by
  obtain ⟨before, after, rfl, hafter⟩ := h
  exact ⟨others ++ before, after, (List.append_assoc _ _ _).symm, hafter⟩

variable {prior delta : Text}

theorem mem_mergedItems {key : Text → Text}
    (h : LastOfKey key (m.findAll prior ++ m.findAll delta) y) :
    y ∈ mergedItems m key prior delta := by
  obtain ⟨before, after, hitems, hafter⟩ := h
  have hstay : ∀ (items : List Text) (merged : List (Text × Text)),
      (∀ z ∈ items, key z ≠ key y) → (key y, y) ∈ merged →
      (key y, y) ∈ items.foldl (fun merged item => Dict.setEntries (key item) item merged)
        merged := by
    intro items
    induction items with
    | nil => exact fun _ _ hmem => hmem
    | cons z items ih =>
      intro merged hne hmem
      rw [foldl_cons]
      refine ih _ (fun w hw => hne w (mem_cons_of_mem z hw)) ?_
      exact Dict.mem_setEntries_of_ne hmem (hne z mem_cons_self).symm
  rw [mergedItems, hitems, foldl_append, foldl_cons]
  exact mem_map.mpr ⟨(key y, y), hstay after _ hafter Dict.mem_setEntries_self, rfl⟩

variable {u : Text}

theorem infix_mergeAgentSkillsBlocks (hprior : prior.strip = prior) (hdelta : delta.strip = delta)
    (hpriorNe : prior ≠ []) (hdeltaNe : delta ≠ [])
    (hlast : LastOfKey skillItemKey (skillItem.findAll prior ++ skillItem.findAll delta) y)
    (hu : u <:+: y) : u <:+: mergeAgentSkillsBlocks prior delta := by
  unfold mergeAgentSkillsBlocks
  simp only [hprior, hdelta, if_neg hpriorNe, if_neg hdeltaNe]
  refine hu.trans (infix_joinLines ?_)
  exact mem_append_left _ (mem_append_right _ (mem_mergedItems hlast))

theorem infix_ensure (hu : ∀ c ∈ u.head?, isSpace c = false) (h : u <:+: t) (after : Text) :
    u <:+: ensureAgentToolsStartsOnNewLine t after := by
  have hdrop : u <:+: t.dropWhile (· == '\n') := by
    obtain ⟨x, y, rfl⟩ := h
    cases u with
    | nil => exact nil_infix
    | cons c u =>
      have hc : (c == '\n') = false := by
        rw [beq_eq_false_iff_ne]
        rintro rfl
        exact absurd (hu '\n' rfl) (by decide)
      rw [List.append_assoc, List.cons_append,
        Text.dropWhile_append_stop (p := fun d => d == '\n') hc,
        ← List.cons_append, ← List.append_assoc]
      exact infix_append _ _ _
  unfold ensureAgentToolsStartsOnNewLine
  dsimp only
  split
  · exact h
  · split
    · exact infix_cons hdrop
    · split
      · exact h
      · exact infix_cons hdrop

/-- The section that a merge takes for a tag: that of the injection before that of the turn. -/
def mergedSection (tag prior delta : Text) : Text :=
  if extract (innerSource tag) delta = [] then extract (innerSource tag) prior
  else extract (innerSource tag) delta

/-- A block has a section that the merge knows. -/
def SectionFound (block : Text) : Prop :=
  ∃ tag ∈ innerSourceTags, extract (innerSource tag) block ≠ []

theorem mergeInnerSourceSections_none (hprior : ¬ SectionFound prior)
    (hdelta : ¬ SectionFound delta) : mergeInnerSourceSections prior delta = none := by
  have hnil : (innerSourceTags.map fun tag => mergedSection tag prior delta).filter
      (fun s => !s.isEmpty) = [] := by
    rw [filter_eq_nil_iff]
    intro s hs
    obtain ⟨tag, htag, rfl⟩ := mem_map.mp hs
    have hdeltaNil : extract (innerSource tag) delta = [] := by
      by_contra hne
      exact hdelta ⟨tag, htag, hne⟩
    have hpriorNil : extract (innerSource tag) prior = [] := by
      by_contra hne
      exact hprior ⟨tag, htag, hne⟩
    rw [mergedSection, if_pos hdeltaNil, hpriorNil]
    simp
  exact if_pos hnil

theorem mergeInnerSourceSections_some {tag : Text} (htag : tag ∈ innerSourceTags)
    (hne : mergedSection tag prior delta ≠ []) :
    ∃ merged, mergeInnerSourceSections prior delta = some merged ∧
      mergedSection tag prior delta <:+: merged := by
  have hmem : mergedSection tag prior delta ∈
      (innerSourceTags.map fun tag => mergedSection tag prior delta).filter
        fun s => !s.isEmpty := by
    rw [mem_filter]
    refine ⟨mem_map_of_mem htag, ?_⟩
    rw [Bool.not_eq_true', isEmpty_eq_false_iff]
    exact hne
  have hinner := ne_nil_of_mem hmem
  refine ⟨_, if_neg hinner, infix_joinLines ?_⟩
  exact mem_cons_of_mem _ (mem_append_left _ hmem)

theorem infix_mergeAgentToolsBlocks_section {tag : Text} (hprior : prior.strip = prior)
    (hdelta : delta.strip = delta) (hpriorNe : prior ≠ []) (hdeltaNe : delta ≠ [])
    (hspace : ∀ c ∈ u.head?, isSpace c = false) (htag : tag ∈ innerSourceTags)
    (hu : u <:+: mergedSection tag prior delta) : u <:+: mergeAgentToolsBlocks prior delta := by
  cases u with
  | nil => exact nil_infix
  | cons c u =>
    have hne : mergedSection tag prior delta ≠ [] := by
      intro hnil
      rw [hnil] at hu
      cases infix_nil.mp hu
    obtain ⟨merged, hmerged, hsection⟩ := mergeInnerSourceSections_some htag hne
    unfold mergeAgentToolsBlocks
    simp only [hprior, hdelta, if_neg hpriorNe, if_neg hdeltaNe, hmerged, getD_some]
    exact infix_ensure hspace (hu.trans hsection) []

theorem infix_mergeAgentToolsBlocks_item (hprior : prior.strip = prior)
    (hdelta : delta.strip = delta) (hpriorNe : prior ≠ []) (hdeltaNe : delta ≠ [])
    (hspace : ∀ c ∈ u.head?, isSpace c = false) (hpriorSection : ¬ SectionFound prior)
    (hdeltaSection : ¬ SectionFound delta)
    (hlast : LastOfKey toolItemKey (toolItem.findAll prior ++ toolItem.findAll delta) y)
    (hu : u <:+: y) : u <:+: mergeAgentToolsBlocks prior delta := by
  have hmem := mem_mergedItems hlast
  have hkeyed : u <:+: mergeKeyedItemBlocks prior delta := by
    unfold mergeKeyedItemBlocks
    simp only [if_neg (ne_nil_of_mem hmem)]
    exact hu.trans (infix_joinLines (mem_cons_of_mem _ (mem_append_left _ hmem)))
  unfold mergeAgentToolsBlocks
  simp only [hprior, hdelta, if_neg hpriorNe, if_neg hdeltaNe,
    mergeInnerSourceSections_none hpriorSection hdeltaSection, getD_none]
  exact infix_ensure hspace hkeyed []

/-- A text that is not empty and has no space at its ends. -/
structure Solid (u : Text) : Prop where
  stripped : Text.Stripped u
  ne_nil : u ≠ []

theorem Solid.strip_ne_nil (hu : Solid u) (h : u <:+: t) : t.strip ≠ [] := by
  intro hnil
  have hstrip := infix_strip hu.stripped h
  rw [hnil] at hstrip
  exact hu.ne_nil (infix_nil.mp hstrip)

theorem exists_joinLines (first last : Text) (mid : List Text) :
    ∃ y, joinLines (first :: (mid ++ [last])) = first ++ (y ++ last) := by
  induction mid generalizing first with
  | nil =>
    refine ⟨['\n'], ?_⟩
    rw [nil_append, Text.joinLines_cons_cons, joinLines, Text.join,
      intercalate_singleton, singleton_append]
  | cons line mid ih =>
    obtain ⟨y, hy⟩ := ih line
    refine ⟨'\n' :: (line ++ y), ?_⟩
    rw [List.cons_append, Text.joinLines_cons_cons, hy, List.cons_append, List.append_assoc]

theorem solid_joinLines {first last : Text} (mid : List Text) (hfirst : first.head? = some '<')
    (hlast : last.getLast? = some '>') : Solid (joinLines (first :: (mid ++ [last]))) := by
  refine ⟨stripped_between (c := '<') (d := '>') rfl rfl hfirst hlast
    (exists_joinLines first last mid), ?_⟩
  obtain ⟨y, hy⟩ := exists_joinLines first last mid
  rw [hy]
  apply append_ne_nil_of_left_ne_nil
  rintro rfl
  cases hfirst

theorem head?_skillOpenTag (path name command : Text) :
    (skillOpenTag path name command).head? = some '<' := by
  unfold skillOpenTag
  split
  · split
    · rfl
    · rfl
  · rfl

theorem solid_formatSkillItem {skill : InjectedSkill} (h : formatSkillItem skill ≠ []) :
    Solid (formatSkillItem skill) := by
  unfold formatSkillItem at h ⊢
  dsimp only at h ⊢
  split
  · rename_i hbody
    rw [if_pos hbody] at h
    exact absurd rfl h
  · exact solid_joinLines [_] (head?_skillOpenTag _ _ _) rfl

theorem solid_formatToolItem {tool : InjectedTool} (h : formatToolItem tool ≠ []) :
    Solid (formatToolItem tool) := by
  unfold formatToolItem at h ⊢
  split
  · rename_i hname
    rw [if_pos hname] at h
    exact absurd rfl h
  · exact solid_joinLines _ rfl rfl

theorem infix_formatGroupedByTier {items : List (Tiers.Tier × Text)} {e : Tiers.Tier × Text}
    (he : e ∈ items) (hne : e.2 ≠ []) : e.2 <:+: formatGroupedByTier items := by
  have hbucket : e.2 ∈ tierBucket items e.1 := by
    refine mem_map_of_mem (mem_filter.mpr ⟨he, ?_⟩)
    simpa using hne
  have htier : e.1 ∈ tierGroupOrder := by
    cases e.1 <;> decide
  have hgroup : e.2 <:+: formatTierGroup e.1 (tierBucket items e.1) := by
    refine (infix_joinLines hbucket).trans (infix_joinLines ?_)
    exact mem_cons_of_mem _ mem_cons_self
  refine hgroup.trans (infix_joinLines (mem_map_of_mem (mem_filter.mpr ⟨htier, ?_⟩)))
  rw [Bool.not_eq_true', isEmpty_eq_false_iff]
  exact ne_nil_of_mem hbucket

theorem infix_finalize {line : Text} (hu : Solid u) {lines : List Text}
    (hline : line ∈ lines.tail.dropLast) (h : u <:+: line) :
    u <:+: finalizeAgentToolsBlock lines := by
  have hmem : line ∈ lines := mem_of_mem_tail (mem_of_mem_dropLast hline)
  have hblock := infix_ensure hu.stripped.1 (h.trans (infix_joinLines hmem)) []
  unfold finalizeAgentToolsBlock
  split
  · exact hblock
  · split
    · rename_i hblank
      exact absurd hblank (hu.strip_ne_nil (h.trans (infix_joinLines hline)))
    · exact hblock

theorem mem_dropLast_append_pair (lines : List Text) (line last : Text) :
    line ∈ (lines ++ [line, last]).dropLast := by
  have hconcat : lines ++ [line, last] = (lines ++ [line]) ++ [last] := by
    rw [List.append_assoc, singleton_append]
  rw [hconcat, dropLast_concat]
  exact mem_append_right _ (mem_singleton_self line)

theorem infix_combineInjectionParts {part : Text} (hu : Solid u) {parts : List Text}
    (hpart : part ∈ parts) (h : u <:+: part) : u <:+: combineInjectionParts parts := by
  have hkeep : ∀ (parts kept : List Text),
      (∃ part ∈ kept, u <:+: part) ∨ (∃ part ∈ parts, u <:+: part) →
        ∃ part ∈ parts.foldl keepPart kept, u <:+: part := by
    intro parts
    induction parts with
    | nil =>
      rintro kept (hkept | ⟨part, hpart, -⟩)
      · exact hkept
      · cases hpart
    | cons next parts ih =>
      intro kept hsome
      rw [foldl_cons]
      apply ih
      rcases hsome with ⟨part, hpart, h⟩ | ⟨part, hpart, h⟩
      · refine .inl ⟨part, ?_, h⟩
        unfold keepPart
        split
        · exact hpart
        · exact mem_append_left _ hpart
      · rcases mem_cons.mp hpart with rfl | hpart
        · left
          unfold keepPart
          rw [if_neg (hu.strip_ne_nil h)]
          refine ⟨_, mem_append_right _ (mem_singleton_self _), ?_⟩
          split
          · exact infix_ensure hu.stripped.1 h _
          · exact h
        · exact .inr ⟨part, hpart, h⟩
  obtain ⟨kept, hmem, hinfix⟩ := hkeep parts [] (.inr ⟨part, hpart, h⟩)
  exact hinfix.trans (Text.infix_join hmem)

namespace Delta

variable {d : Delta} {u : Text}

section

variable (h : u ∈ d.skillItems)
include h

theorem solid_skillItem : Solid u := by
  obtain ⟨hmap, hne⟩ := mem_filter.mp h
  obtain ⟨skill, -, rfl⟩ := mem_map.mp hmap
  refine solid_formatSkillItem ?_
  rintro hnil
  rw [hnil] at hne
  cases hne

theorem skillItem_infix_block :
    u <:+: formatAgentSkills d.skills d.skillsIntro d.skillsLegend ∧
      skillsOpen <:+: formatAgentSkills d.skills d.skillsIntro d.skillsLegend := by
  have hsolid := solid_skillItem h
  obtain ⟨skill, hskill, rfl⟩ := mem_map.mp (mem_filter.mp h).1
  have hbody := infix_formatGroupedByTier
    (mem_map_of_mem (f := fun skill => (skill.tier, formatSkillItem skill)) hskill)
    hsolid.ne_nil
  unfold formatAgentSkills
  simp only [if_neg (hsolid.strip_ne_nil hbody)]
  constructor
  · refine hbody.trans (infix_joinLines ?_)
    exact mem_append_right _ (mem_cons_of_mem _ (mem_append_right _ mem_cons_self))
  · have hopen : skillsOpen <:+: "<agent-skills>" := ⟨[], ['>'], rfl⟩
    exact hopen.trans (infix_joinLines (mem_append_right _ mem_cons_self))

theorem skillItem_infix_text : u <:+: d.text :=
  infix_combineInjectionParts (solid_skillItem h) mem_cons_self (skillItem_infix_block h).1

theorem injectionDomain_of_skillItem : injectionDomain d.text = some .skills := by
  have hsolid : Solid skillsOpen := by
    refine ⟨⟨fun c hc => ?_, fun c hc => ?_⟩, by decide⟩
    · rw [← Option.some.inj hc]
      rfl
    · rw [← Option.some.inj hc]
      rfl
  have hfirst : formatAgentSkills d.skills d.skillsIntro d.skillsLegend ∈
      [formatAgentSkills d.skills d.skillsIntro d.skillsLegend, d.toolsText] :=
    mem_cons_self
  have hopen := infix_combineInjectionParts hsolid hfirst (skillItem_infix_block h).2
  exact if_pos ((occursIn_iff hsolid.ne_nil _).mpr hopen)

end

theorem solid_toolItem (h : u ∈ d.toolItems) : Solid u := by
  unfold toolItems at h
  split at h
  · obtain ⟨hmap, hne⟩ := mem_filter.mp h
    obtain ⟨tool, -, rfl⟩ := mem_map.mp hmap
    refine solid_formatToolItem ?_
    rintro hnil
    rw [hnil] at hne
    cases hne
  · cases h

theorem toolItem_infix_text (h : u ∈ d.toolItems) : u <:+: d.text := by
  have hsolid := solid_toolItem h
  refine infix_combineInjectionParts hsolid (mem_cons_of_mem _ mem_cons_self) ?_
  unfold toolItems at h
  unfold toolsText
  split at h
  · rename_i tools _
    obtain ⟨tool, htool, rfl⟩ := mem_map.mp (mem_filter.mp h).1
    have hbody := infix_formatGroupedByTier
      (mem_map_of_mem (f := fun tool => (tool.tier, formatToolItem tool)) htool)
      hsolid.ne_nil
    unfold formatAgentTools
    simp only [if_neg (hsolid.strip_ne_nil hbody)]
    exact infix_finalize hsolid (mem_dropLast_append_pair _ _ _) hbody
  · cases h

theorem sourceSection_stripped (d : Delta) (source : Source) :
    Text.Stripped (d.sourceSection source) := by
  have hnil : Text.Stripped [] := Text.stripped_strip []
  unfold sourceSection
  split
  · exact hnil
  · exact Text.stripped_strip _

theorem sourceSection_infix_text (d : Delta) (source : Source) :
    d.sourceSection source <:+: d.text := by
  by_cases hnil : d.sourceSection source = []
  · rw [hnil]
    exact nil_infix
  have hsolid : Solid (d.sourceSection source) := ⟨sourceSection_stripped d source, hnil⟩
  refine infix_combineInjectionParts hsolid (mem_cons_of_mem _ mem_cons_self) ?_
  unfold sourceSection at hsolid ⊢
  unfold toolsText
  split at hsolid
  · exact absurd rfl hsolid.ne_nil
  rename_i sections _
  have horder : source ∈ Source.order := by
    cases source <;> decide
  have hinner : (sections source).strip <:+: joinLines
      ((Source.order.map fun source => (sections source).strip).filter
        fun part => !part.isEmpty) := by
    refine infix_joinLines (mem_filter.mpr ⟨mem_map_of_mem horder, ?_⟩)
    rw [Bool.not_eq_true', isEmpty_eq_false_iff]
    exact hsolid.ne_nil
  unfold formatMultiSourceAgentTools
  simp only [if_neg (hsolid.strip_ne_nil hinner)]
  exact infix_finalize hsolid (mem_dropLast_append_pair _ _ _) hinner

end Delta

theorem infix_replaced {o : Text} (hplace : t = p.1 ++ (p.2.1 ++ p.2.2)) (ht : t = x ++ (o ++ y))
    (hapart : x.length + o.length ≤ p.1.length ∨ p.1.length + p.2.1.length ≤ x.length) (new : Text) :
    o <:+: p.1 ++ new ++ p.2.2 := by
  rcases hapart with hbefore | hbehind
  · have hpiece : x ++ o <+: t := by
      rw [ht, ← List.append_assoc]
      exact prefix_append _ _
    have hstart : p.1 <+: t := by
      rw [hplace]
      exact prefix_append _ _
    have hpre := prefix_of_prefix_length_le hpiece hstart (by simpa using hbefore)
    refine (suffix_append x o).isInfix.trans (hpre.isInfix.trans ?_)
    rw [List.append_assoc]
    exact (prefix_append _ _).isInfix
  · have hpiece : p.1 ++ p.2.1 <+: t := by
      rw [hplace, ← List.append_assoc]
      exact prefix_append _ _
    have hstart : x <+: t := by
      rw [ht]
      exact prefix_append _ _
    obtain ⟨z, rfl⟩ := prefix_of_prefix_length_le hpiece hstart (by simpa using hbehind)
    have hrest : p.2.2 = z ++ (o ++ y) := by
      rw [hplace] at ht
      simpa only [List.append_assoc, append_cancel_left_eq] using ht
    rw [hrest, ← List.append_assoc, ← List.append_assoc]
    exact infix_append _ _ _

variable {existing : Text} {d : Delta}

theorem lossless_of_infix {merged : Text} (hexisting : existing <:+: merged)
    (hdelta : d.text.strip <:+: merged) : Lossless existing d merged where
  outside x o y ht _ _ := by
    refine List.IsInfix.trans ?_ hexisting
    rw [ht, ← List.append_assoc]
    exact infix_append _ _ _
  skillItems u hu :=
    (infix_strip (Delta.solid_skillItem hu).stripped (Delta.skillItem_infix_text hu)).trans hdelta
  toolItems u hu :=
    (infix_strip (Delta.solid_toolItem hu).stripped (Delta.toolItem_infix_text hu)).trans hdelta
  sections source :=
    (infix_strip (Delta.sourceSection_stripped d source)
      (Delta.sourceSection_infix_text d source)).trans hdelta
  priorSkills p hp _ u hu _ := by
    refine (infix_of_mem_findAll writtenSkill_splits hu).trans (List.IsInfix.trans ?_ hexisting)
    rw [(mem_places anyBlock_splits hp).1, ← List.append_assoc]
    exact infix_append _ _ _
  priorUnits p hp _ u hu _ := by
    refine (infix_of_mem_findAll writtenUnit_splits hu).trans (List.IsInfix.trans ?_ hexisting)
    rw [(mem_places anyBlock_splits hp).1, ← List.append_assoc]
    exact infix_append _ _ _

theorem lossless_of_blank (hblank : existing.strip = []) : Lossless existing d d.text.strip where
  outside x o y ht _ ho := by
    rw [Text.strip_eq_nil_iff] at hblank
    refine absurd (Text.strip_eq_nil_iff.mpr fun c hc => hblank c ?_) ho
    rw [ht]
    exact mem_append_right x (mem_append_left y hc)
  skillItems u hu :=
    infix_strip (Delta.solid_skillItem hu).stripped (Delta.skillItem_infix_text hu)
  toolItems u hu :=
    infix_strip (Delta.solid_toolItem hu).stripped (Delta.toolItem_infix_text hu)
  sections source :=
    infix_strip (Delta.sourceSection_stripped d source) (Delta.sourceSection_infix_text d source)
  priorSkills p hp hopen _ _ _ := absurd hblank (strip_ne_nil_of_block hp (.inl hopen))
  priorUnits p hp hopen _ _ _ := absurd hblank (strip_ne_nil_of_block hp (.inr hopen))

theorem lossless_of_replaced {new : Text} (hp : p ∈ blocks existing)
    (hskillItems : ∀ u ∈ d.skillItems, u <:+: new) (htoolItems : ∀ u ∈ d.toolItems, u <:+: new)
    (hsections : ∀ source, d.sourceSection source <:+: new)
    (hpriorSkills : skillsOpen <+: p.2.1 → ∀ u ∈ writtenSkill.findAll p.2.1,
      skillItemKey u ∉ d.skillItems.map skillItemKey → u <:+: new)
    (hpriorUnits : toolsOpen <+: p.2.1 → ∀ u ∈ writtenUnit.findAll p.2.1,
      ¬ d.Redefines u → u <:+: new) : Lossless existing d (p.1 ++ new ++ p.2.2) := by
  have hplace := (mem_places anyBlock_splits hp).1
  have hnew : new <:+: p.1 ++ new ++ p.2.2 := infix_append _ _ _
  -- another block stays
  have hother : ∀ q ∈ blocks existing, q = p ∨ q.2.1 <:+: p.1 ++ new ++ p.2.2 := by
    intro q hq
    rcases places_apart anyBlock_splits hq hp with heq | hapart
    · exact .inl heq
    · exact .inr (infix_replaced hplace (mem_places anyBlock_splits hq).1 hapart new)
  exact {
    outside := fun x o y ht hapart _ => infix_replaced hplace ht (hapart p hp) new
    skillItems := fun u hu => (hskillItems u hu).trans hnew
    toolItems := fun u hu => (htoolItems u hu).trans hnew
    sections := fun source => (hsections source).trans hnew
    priorSkills := by
      intro q hq hopen u hu hkey
      rcases hother q hq with rfl | hstays
      · exact (hpriorSkills hopen u hu hkey).trans hnew
      · exact (infix_of_mem_findAll writtenSkill_splits hu).trans hstays
    priorUnits := by
      intro q hq hopen u hu hredefines
      rcases hother q hq with rfl | hstays
      · exact (hpriorUnits hopen u hu hredefines).trans hnew
      · exact (infix_of_mem_findAll writtenUnit_splits hu).trans hstays }

/-- The first element of a text is a block of it: it does not begin inside another block. -/
def FirstIsBlock (opening closing t : Text) : Prop :=
  ∃ p ∈ blocks t, (element opening closing).search t = some p

/-- What a merge of the skills blocks does not drop: there is no intro line at the block of the
turn and there are no tools in the injection, and the skill items are read, each in the last one
of its key. -/
structure SkillsKept (existing priorBlock deltaBlock : Text) (d : Delta) : Prop where
  firstIsBlock : FirstIsBlock skillsOpen skillsClose existing
  noIntro : skillsOpen <+: priorBlock
  noToolItems : d.toolItems = []
  noSections : ∀ source, d.sourceSection source = []
  delta : ∀ u ∈ d.skillItems,
    ∃ y, LastOfKey skillItemKey (skillItem.findAll deltaBlock) y ∧ u <:+: y
  prior : ∀ u ∈ writtenSkill.findAll priorBlock, skillItemKey u ∉ d.skillItems.map skillItemKey →
    ∃ y, LastOfKey skillItemKey
      (skillItem.findAll priorBlock ++ skillItem.findAll deltaBlock) y ∧ u <:+: y

/-- What a merge of source sections does not drop: there are no flat items and no `<cyt-mcp>`
section, and each section is read by the pattern of its source. -/
structure SectionsKept (priorBlock deltaBlock : Text) (d : Delta) : Prop where
  noToolItems : d.toolItems = []
  delta : ∀ source, d.sourceSection source ≠ [] →
    source ≠ .cytMcp ∧ d.sourceSection source <:+: extract (innerSource source.tag) deltaBlock
  prior : ∀ u ∈ writtenUnit.findAll priorBlock, ¬ d.Redefines u →
    ∃ source : Source, source ≠ .cytMcp ∧ extract (innerSource source.tag) deltaBlock = [] ∧
      u <:+: extract (innerSource source.tag) priorBlock

/-- What a merge of flat tool items does not drop: there are no source sections, and the items
are read, each in the last one of its key. -/
structure ItemsKept (priorBlock deltaBlock : Text) (d : Delta) : Prop where
  noSections : ∀ source, d.sourceSection source = []
  delta : ∀ u ∈ d.toolItems, ∃ y, LastOfKey toolItemKey (toolItem.findAll deltaBlock) y ∧ u <:+: y
  prior : ∀ u ∈ writtenUnit.findAll priorBlock, ¬ d.Redefines u → sourceOf u = none ∧
    ∃ y, LastOfKey toolItemKey
      (toolItem.findAll priorBlock ++ toolItem.findAll deltaBlock) y ∧ u <:+: y

/-- What a merge of the tools blocks does not drop. -/
structure ToolsKept (existing priorBlock deltaBlock : Text) (d : Delta) : Prop where
  firstIsBlock : FirstIsBlock toolsOpen toolsClose existing
  sections : SectionFound priorBlock ∨ SectionFound deltaBlock → SectionsKept priorBlock deltaBlock d
  items : ¬ (SectionFound priorBlock ∨ SectionFound deltaBlock) → ItemsKept priorBlock deltaBlock d

/-- The merge does not reach what drops text: there are no two blocks of the kind of the
injection, or the patterns read all of them that is to be kept. -/
structure NothingDropped (existing : Text) (d : Delta) : Prop where
  skills : injectionDomain d.text = some .skills →
    extract skillsBlock d.text.strip = [] ∨ extract skillsBlock existing = [] ∨
      SkillsKept existing (extract skillsBlock existing) (extract skillsBlock d.text.strip) d
  tools : injectionDomain d.text = some .tools →
    extract toolsBlock d.text.strip = [] ∨ extract toolsBlock existing = [] ∨
      ToolsKept existing (extract toolsBlock existing) (extract toolsBlock d.text.strip) d

variable {existing : Text} {d : Delta}

theorem lossless_of_skillsKept {delta : Text} (hdelta : delta.strip = delta) (hdeltaNe : delta ≠ [])
    (hpriorNe : extract skillsBlock existing ≠ [])
    (h : SkillsKept existing (extract skillsBlock existing) delta d) :
    Lossless existing d (replaceFirst (extract skillsBlock existing)
      (mergeAgentSkillsBlocks (extract skillsBlock existing) delta) existing) := by
  obtain ⟨p, hp, hsearch⟩ := h.firstIsBlock
  have hprior : extract skillsBlock existing = p.2.1 := by
    rw [extract_skillsBlock h.noIntro, firstElement, hsearch]
  have hkept : ∀ u y, LastOfKey skillItemKey
      (skillItem.findAll (extract skillsBlock existing) ++ skillItem.findAll delta) y →
      u <:+: y → u <:+: mergeAgentSkillsBlocks (extract skillsBlock existing) delta :=
    fun u y => infix_mergeAgentSkillsBlocks (strip_extract _ _) hdelta hpriorNe hdeltaNe
  have hreplaced := replaceFirst_of_search skillsElement_isLocal hsearch
    (mergeAgentSkillsBlocks (extract skillsBlock existing) delta)
  rw [← hprior] at hreplaced
  rw [hreplaced]
  refine lossless_of_replaced hp ?_ ?_ ?_ ?_ ?_
  · intro u hu
    obtain ⟨y, hlast, hinfix⟩ := h.delta u hu
    exact hkept u y (hlast.append _) hinfix
  · rw [h.noToolItems]
    exact fun u hu => absurd hu not_mem_nil
  · intro source
    rw [h.noSections source]
    exact nil_infix
  · rw [← hprior]
    intro _ u hu hkey
    obtain ⟨y, hlast, hinfix⟩ := h.prior u hu hkey
    exact hkept u y hlast hinfix
  · rw [← hprior]
    intro htools
    exact absurd ( prefix_or_prefix_of_prefix h.noIntro htools) (by decide)

theorem head?_of_mem_writtenUnit {t u : Text} (h : u ∈ writtenUnit.findAll t) :
    ∀ c ∈ u.head?, isSpace c = false := by
  rw [findAll_eq_places] at h
  obtain ⟨p, hp, rfl⟩ := mem_map.mp h
  have hhead : p.2.1.head? = some '<' := by
    have hmatch := (mem_places writtenUnit_splits hp).2
    unfold writtenUnit at hmatch
    rcases or_eq_some_iff.mp hmatch with hmatch | ⟨-, hmatch⟩
    · obtain ⟨source, -, hsection⟩ := exists_of_findSome?_eq_some hmatch
      obtain ⟨y, hy⟩ := literal_upTo_eq_some hsection
      rw [hy]
      rfl
    · obtain ⟨y, hy⟩ := literal_upTo_eq_some hmatch
      rw [hy]
      rfl
  intro c hc
  rw [hhead] at hc
  rw [← Option.some.inj hc]
  rfl

theorem tag_mem_innerSourceTags {source : Source} (h : source ≠ .cytMcp) :
    source.tag ∈ innerSourceTags := by
  cases source with
  | cytMcp => exact absurd rfl h
  | mcpc => decide
  | cloudflare => decide
  | executor => decide
  | definitions => decide

theorem lossless_of_toolsKept {delta : Text} (hdelta : delta.strip = delta) (hdeltaNe : delta ≠ [])
    (hpriorNe : extract toolsBlock existing ≠ []) (hskills : d.skillItems = [])
    (h : ToolsKept existing (extract toolsBlock existing) delta d) :
    Lossless existing d (replaceFirst (extract toolsBlock existing)
      (mergeAgentToolsBlocks (extract toolsBlock existing) delta) existing) := by
  obtain ⟨p, hp, hsearch⟩ := h.firstIsBlock
  have hprior : extract toolsBlock existing = p.2.1 := by
    rw [extract_toolsBlock, firstElement, hsearch]
  have hreplaced := replaceFirst_of_search toolsElement_isLocal hsearch
    (mergeAgentToolsBlocks (extract toolsBlock existing) delta)
  rw [← hprior] at hreplaced
  rw [hreplaced]
  have hopen : toolsOpen <+: extract toolsBlock existing := by
    obtain ⟨-, hmatch, -⟩ :=
      (search_eq_some_iff toolsElement_isLocal.splits).mp hsearch
    rw [hprior]
    exact prefix_of_element hmatch
  have hstrip := strip_extract toolsBlock existing
  generalize extract toolsBlock existing = prior at h hprior hstrip hopen hpriorNe ⊢
  have hnoSkills : ∀ u ∈ d.skillItems, u <:+: mergeAgentToolsBlocks prior delta := by
    rw [hskills]
    exact fun u hu => absurd hu not_mem_nil
  have hnoPriorSkills : skillsOpen <+: p.2.1 → ∀ u ∈ writtenSkill.findAll p.2.1,
      skillItemKey u ∉ d.skillItems.map skillItemKey →
        u <:+: mergeAgentToolsBlocks prior delta := by
    rw [← hprior]
    intro hskillsOpen
    exact absurd ( prefix_or_prefix_of_prefix hskillsOpen hopen) (by decide)
  by_cases hfound : SectionFound prior ∨ SectionFound delta
  · have hkept := h.sections hfound
    refine lossless_of_replaced hp hnoSkills ?_ ?_ hnoPriorSkills ?_
    · rw [hkept.noToolItems]
      exact fun u hu => absurd hu not_mem_nil
    · intro source
      by_cases hnil : d.sourceSection source = []
      · rw [hnil]
        exact nil_infix
      obtain ⟨hsource, hinfix⟩ := hkept.delta source hnil
      refine infix_mergeAgentToolsBlocks_section hstrip hdelta hpriorNe hdeltaNe
        (Delta.sourceSection_stripped d source).1 (tag_mem_innerSourceTags hsource) ?_
      have hne : extract (innerSource source.tag) delta ≠ [] := by
        intro hempty
        rw [hempty] at hinfix
        exact hnil (infix_nil.mp hinfix)
      rw [mergedSection, if_neg hne]
      exact hinfix
    · rw [← hprior]
      intro _ u hu hredefines
      obtain ⟨source, hsource, hempty, hinfix⟩ := hkept.prior u hu hredefines
      refine infix_mergeAgentToolsBlocks_section hstrip hdelta hpriorNe hdeltaNe
        (head?_of_mem_writtenUnit hu) (tag_mem_innerSourceTags hsource) ?_
      rw [mergedSection, if_pos hempty]
      exact hinfix
  · have hkept := h.items hfound
    rw [not_or] at hfound
    refine lossless_of_replaced hp hnoSkills ?_ ?_ hnoPriorSkills ?_
    · intro u hu
      obtain ⟨y, hlast, hinfix⟩ := hkept.delta u hu
      exact infix_mergeAgentToolsBlocks_item hstrip hdelta hpriorNe hdeltaNe
        (Delta.solid_toolItem hu).stripped.1 hfound.1 hfound.2 (hlast.append _) hinfix
    · intro source
      rw [hkept.noSections source]
      exact nil_infix
    · rw [← hprior]
      intro _ u hu hredefines
      obtain ⟨-, y, hlast, hinfix⟩ := hkept.prior u hu hredefines
      exact infix_mergeAgentToolsBlocks_item hstrip hdelta hpriorNe hdeltaNe
        (head?_of_mem_writtenUnit hu) hfound.1 hfound.2 hlast hinfix

theorem lossless_appendDelta (hne : existing ≠ []) :
    Lossless existing d (appendDelta existing d.text.strip) := by
  rw [appendDelta_eq (Text.stripped_strip d.text) hne]
  refine lossless_of_infix ?_ (suffix_append _ _).isInfix
  rw [List.append_assoc]
  exact (prefix_append _ _).isInfix

/-- Within a turn a merge that does not reach what drops text loses nothing. -/
theorem mergeInjectionIntoText_lossless {existing : Text} {d : Delta}
    (h : NothingDropped existing d) :
    Lossless existing d (mergeInjectionIntoText existing d.text true) := by
  unfold mergeInjectionIntoText
  dsimp only
  split
  · rename_i hblank
    refine lossless_of_infix infix_rfl ?_
    rw [hblank]
    exact nil_infix
  · split
    · rename_i hblank
      exact lossless_of_blank hblank
    rename_i hexisting
    have hne : existing ≠ [] := by
      rintro rfl
      exact hexisting rfl
    rw [injectionDomain_strip]
    split
    · rename_i hdomain
      rw [if_neg (by simp)]
      split
      · rename_i hblocks
        obtain hnil | hnil | hkept := h.skills hdomain
        · exact absurd hnil hblocks.1
        · exact absurd hnil hblocks.2
        · exact lossless_of_skillsKept (strip_extract _ _) hblocks.1 hblocks.2 hkept
      · exact lossless_appendDelta hne
    · rename_i hdomain
      split
      · rename_i hblocks
        have hskills : d.skillItems = [] := by
          rw [eq_nil_iff_forall_not_mem]
          intro u hu
          rw [Delta.injectionDomain_of_skillItem hu] at hdomain
          cases hdomain
        obtain hnil | hnil | hkept := h.tools hdomain
        · exact absurd hnil hblocks.1
        · exact absurd hnil hblocks.2
        · exact lossless_of_toolsKept (strip_extract _ _) hblocks.1 hblocks.2 hskills hkept
      · exact lossless_appendDelta hne
    · exact lossless_appendDelta hne

/-- An item of a tool without a description or schema. -/
def namedTool (name : Text) : InjectedTool := ⟨.hot, name, [], []⟩

/-- The tools of one source, in a session that has seen the headings. -/
def sourceDelta (source : Source) (text : Text) : Delta where
  skills := []
  skillsIntro := none
  skillsLegend := none
  tools := .sources fun other => if other = source then text else []
  toolsHeader := ⟨none, [], false⟩

/-- A turn text with the section of one source. -/
def mcpcTurn : Text := "hi\n\n<agent-tools>\n<mcpc>\nx\n</mcpc>\n</agent-tools>"

def executorDelta : Delta := sourceDelta .executor
  (joinSection [] "executor" (formatGroupedByTier [(.hot, formatToolItem (namedTool ['y']))]))

theorem executorDelta_nothingDropped : NothingDropped mcpcTurn executorDelta := by
  have hdomain : injectionDomain executorDelta.text = some .tools := by decide
  have hunits : writtenUnit.findAll (extract toolsBlock mcpcTurn) =
      ["<mcpc>\nx\n</mcpc>".toList] := by decide
  refine ⟨fun hskills => ?_, fun _ => .inr (.inr ⟨⟨("hi\n\n",
    extract toolsBlock mcpcTurn, []), by decide, by decide⟩, fun _ => ⟨rfl, ?_, ?_⟩,
    fun hnot => ?_⟩)⟩
  · rw [hdomain] at hskills
    cases hskills
  · intro source hne
    cases source with
    | executor => exact ⟨by decide, by decide⟩
    | cytMcp => exact absurd rfl hne
    | mcpc => exact absurd rfl hne
    | cloudflare => exact absurd rfl hne
    | definitions => exact absurd rfl hne
  · rw [hunits]
    intro u hu _
    rw [mem_singleton.mp hu]
    exact ⟨.mcpc, by decide, by decide, by decide⟩
  · exact absurd (.inl ⟨"mcpc", by decide, by decide⟩) hnot

theorem executorDelta_lossless : Lossless mcpcTurn executorDelta
    (mergeInjectionIntoText mcpcTurn executorDelta.text true) :=
  mergeInjectionIntoText_lossless executorDelta_nothingDropped

def cytMcpDelta : Delta := sourceDelta .cytMcp (formatCytMcpSourceSection [] [namedTool ['y']] [])

/-- The merge knows the section as `<cyt_mcp>`, the formatter writes it as `<cyt-mcp>`. -/
theorem cytMcpDelta_lost : ¬ Lossless mcpcTurn cytMcpDelta
    (mergeInjectionIntoText mcpcTurn cytMcpDelta.text true) := by
  intro h
  have hsection := h.sections .cytMcp
  revert hsection
  decide +kernel

end ClearYourTools.Injection
