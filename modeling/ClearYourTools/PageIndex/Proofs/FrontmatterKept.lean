import ClearYourTools.PageIndex.Proofs.RetrieveClosure

/-!
# The frontmatter of a reconstruction

A reconstruction starts with the frontmatter: with the node of the frontmatter, or with the text of
the document when the node is cut away, which it never is with all headers kept.
-/

namespace ClearYourTools.PageIndex

open Misc List Option
open Text (contentLines trim)

/-- The heading line of a section: its first line with content. -/
def sectionHeading (s : ContentNode) : Text := (contentLines s.text).head?.getD []

def sectionNodes (tree : Structure) : List NodeObj :=
  (structureToList tree).filter fun obj => obj.kind.isNone

/-- What `assemble_markdown` takes of a node. -/
def nodeContent (index : SkillsIndex) (kept : List ℕ) (keepAllHeaders : Bool)
    (chunkFilter : Option (List ℕ)) (obj : NodeObj) : Text :=
  if keepAllHeaders && !kept.contains obj.id then resolveNodeHeader index obj
  else resolveNodeBodyChunkAware index obj chunkFilter

def assembledTree (opts : ReconstructOptions) (doc : SkillDocument) (kept : List ℕ) : Structure :=
  if opts.keepAllHeaders then doc.tree else pruneStructure doc.tree kept

/-- The preamble of a document without a preamble node. -/
def nodelessPreamble (env : Environment) (doc : SkillDocument) : Option Text :=
  if (structureToList doc.tree).any NodeObj.isPreambleNode then none else resolvePreamble env doc

def otherParts (env : Environment) (index : SkillsIndex) (doc : SkillDocument) (tree : Structure)
    (kept : List ℕ) (keepAllHeaders : Bool) (chunkFilter : Option (List ℕ)) : List Text :=
  (nodelessPreamble env doc).toList ++
    (((structureToList tree).filter fun obj => !obj.isFrontmatterNode).map
      (nodeContent index kept keepAllHeaders chunkFilter)).filter fun content => !content.isEmpty

/-- The parts of a reconstruction are the frontmatter and then the others, and with all headers kept
every section's part has its heading line. -/
structure KeepsHeaders (env : Environment) (index : SkillsIndex) (doc : SkillDocument)
    (content frontmatter : Text) (kept : List ℕ) (chunkFilter : Option (List ℕ))
    (opts : ReconstructOptions) : Prop where
  frontmatter : assembleParts env index doc (assembledTree opts doc kept) kept opts.keepAllHeaders
    chunkFilter = frontmatter :: otherParts env index doc (assembledTree opts doc kept) kept
      opts.keepAllHeaders chunkFilter
  headings : opts.keepAllHeaders = true → List.Forall₂ (fun obj s => sectionHeading s ∈
      contentLines (nodeContent index kept true chunkFilter obj))
      (sectionNodes doc.tree) (sections content)

/-- The reconstruction returns a markdown text that keeps the headers: it starts with the
frontmatter, and with all headers kept it has the heading line of every section. -/
def ReconstructsHeaders (env : Environment) (index : SkillsIndex) (docId : Text)
    (doc : SkillDocument) (content frontmatter : Text)
    (lineNumSpecs nodeIdSpecs chunkIdSpecs : List Text) (opts : ReconstructOptions) : Prop :=
  ∃ matched kept chunkFilter result,
    selectNodes doc lineNumSpecs nodeIdSpecs chunkIdSpecs =
      some (.ok (matched, kept, chunkFilter)) ∧
    reconstructSkillMarkdown env index docId lineNumSpecs nodeIdSpecs chunkIdSpecs opts =
      some (.ok result) ∧
    KeepsHeaders env index doc content frontmatter kept chunkFilter opts ∧
    frontmatter <+: result.markdown ∧
    (opts.keepAllHeaders = true →
      ∀ s ∈ sections content, sectionHeading s ∈ contentLines result.markdown)

theorem trim_stripCr (l : Text) : (Text.stripCr l).trim = l.trim := by
  rw [Text.stripCr]
  split
  · rename_i hlast
    obtain ⟨s, rfl⟩ := getLast?_eq_some_iff.mp hlast
    rw [dropLast_concat, Text.trim_append_blank (Text.forall_of_all rfl)]
  · rfl

theorem mem_of_mem_trim {t : Text} {c : Char} (h : c ∈ t.trim) : c ∈ t := by
  obtain ⟨before, after, ht, -, -⟩ := Text.exists_blanks t
  rw [ht]
  exact mem_append_left _ (mem_append_right _ h)

theorem Tidy.head?_lines {t : Text} (h : Tidy t) :
    ∃ line, t.lines.head?.map trim = some line ∧ line ≠ [] ∧
      (contentLines t).head? = some line := by
  have hfirst : ∃ l, t.lines.head? = some l ∧ l.trim ≠ [] := by
    obtain ⟨c, rest, rfl⟩ := exists_cons_of_ne_nil h.1
    have hc : isWhitespace c = false := by
      have hstart := h.trimStart
      rw [Text.trimStart] at hstart
      by_contra hblank
      rw [dropWhile_cons_of_pos (by simpa using hblank)] at hstart
      have hlength := congrArg List.length hstart
      have hle := (dropWhile_suffix (l := rest) isWhitespace).length_le
      rw [length_cons] at hlength
      omega
    have hcontent : ∀ l : Text, trim (c :: l) ≠ [] := by
      intro l hnil
      rw [Text.trim_eq_nil_iff] at hnil
      rw [hnil c mem_cons_self] at hc
      cases hc
    by_cases hnl : '\n' ∈ c :: rest
    · obtain ⟨l, after, heq, hl⟩ := eq_append_cons_of_mem hnl
      have hlines : (Text.lines (c :: rest)).head? = some (Text.stripCr l) := by
        have hne := splitOn_ne_nil '\n' after
        rw [Text.lines, heq, splitOn_append_cons_self, splitOn_eq_singleton hl,
          singleton_append, dropLast_cons_of_ne_nil hne]
        rfl
      refine ⟨_, hlines, ?_⟩
      rw [trim_stripCr]
      cases l with
      | nil =>
        rw [nil_append, List.cons.injEq] at heq
        rw [heq.1] at hc
        cases hc
      | cons d l =>
        rw [List.cons_append, List.cons.injEq] at heq
        rw [← heq.1]
        exact hcontent l
    · refine ⟨c :: rest, ?_, hcontent rest⟩
      rw [Text.lines, splitOn_eq_singleton hnl]
      rfl
  obtain ⟨l, hl, hcontent⟩ := hfirst
  refine ⟨l.trim, by rw [hl, map_some], hcontent, ?_⟩
  obtain ⟨ls, hls⟩ := head?_eq_some_iff.mp hl
  rw [contentLines, hls, Text.contentOf, map_cons, filter_cons_of_pos (by simpa using hcontent)]
  rfl

section

variable {env : Environment} {config : PageIndexConfig} {path docId content frontmatter : Text}
  {variant : ChunkVariant} {index index' : SkillsIndex} {doc : SkillDocument}

/-- What an indexed document has of its text. -/
structure DocumentOf (config : PageIndexConfig) (content : Text) (doc : SkillDocument) : Prop where
  frontmatter : doc.frontmatter = (extractSkillPrefix content).frontmatter
  ids : doc.tree.map NodeObj.id = (buildFlatStructure content config).map NodeObj.id
  kinds : (structureToList doc.tree).map NodeObj.kind =
    (documentNodes content config).map NodeObj.kind

theorem documentOf_indexed (hfree : index.documents.contains docId = false)
    (hbuild : indexSkillMdContent env path docId content config variant index = .ok index')
    (hdoc : index'.documents.get? docId = some doc) : DocumentOf config content doc := by
  have hids := map_id_indexed hfree hbuild hdoc
  obtain ⟨out, hout, rfl⟩ := exists_output_of_indexed env hfree hbuild
  obtain ⟨sourcePath, flat, writes, -, hattach, hout', -⟩ :=
    documentOutput_ok env config variant hout
  rw [SkillsIndex.addDocument, Dict.get?_set_self, some.injEq] at hdoc
  rw [hout'] at hdoc
  refine ⟨by rw [← hdoc], hids, ?_⟩
  have hkinds := congrArg Forest.preorder
    ((@map_formatStructureForOutput config _ NodeObj.kind (fun _ => rfl) flat).trans
      (map_of_attachOutput hattach NodeObj.kind fun _ _ => rfl))
  rw [Forest.preorder_map, Forest.preorder_map, preorder_buildFlatStructure] at hkinds
  rw [← hdoc]
  exact hkinds

theorem kinds_documentNodes (content : Text) (config : PageIndexConfig) :
    (documentNodes content config).map NodeObj.kind =
      (extractSkillPrefix content).frontmatter.toList.map (fun _ => some NodeKind.frontmatter) ++
        ((extractSkillPrefix content).preamble.toList.map (fun _ => some NodeKind.preamble) ++
          (sections content).map fun _ => none) := by
  have hheadings : (headingObjs content config).map NodeObj.kind =
      (sections content).map fun _ => none := by
    have hlength := congrArg List.length (map_text_headingObjs content config)
    rw [length_map, length_map, length_map] at hlength
    rw [map_const', ← hlength, eq_replicate_iff, length_map]
    refine ⟨rfl, fun kind hkind => ?_⟩
    obtain ⟨obj, hobj, rfl⟩ := List.mem_map.mp hkind
    exact kind_of_mem_headingObjs hobj
  rw [documentNodes, map_append, map_append, hheadings,
    map_prefixNodes _ fun t ht => tidy_frontmatter ht,
    map_prefixNodes _ fun t ht => tidy_preamble ht]
  rfl

theorem DocumentOf.length_sectionNodes (h : DocumentOf config content doc) :
    (sectionNodes doc.tree).length = (sections content).length := by
  have hkinds : (structureToList doc.tree).countP (fun obj => obj.kind.isNone) =
      ((structureToList doc.tree).map NodeObj.kind).countP Option.isNone := by
    rw [countP_map]
    rfl
  rw [sectionNodes, ← countP_eq_length_filter, hkinds, h.kinds, kinds_documentNodes,
    countP_append, countP_append]
  cases (extractSkillPrefix content).frontmatter <;>
    cases (extractSkillPrefix content).preamble <;> simp [map_const', countP_replicate]

theorem DocumentOf.exists_frontmatterNode (h : DocumentOf config content doc)
    (hfront : (extractSkillPrefix content).frontmatter = some frontmatter) :
    ∃ obj rest, doc.tree = .node obj .nil rest ∧ obj.id = nodeIdFrontmatter ∧
      obj.isFrontmatterNode = true ∧ ∀ other ∈ rest.preorder, other.isFrontmatterNode = false := by
  have hids := h.ids
  have hkinds := h.kinds
  rw [kinds_documentNodes, hfront] at hkinds
  obtain ⟨hne, htrim⟩ := tidy_frontmatter hfront
  have hfilter : ((some frontmatter).map trim).filter (fun t => !t.isEmpty) = some frontmatter := by
    rw [map_some, htrim, filter_some, if_pos (by simpa using hne)]
  rw [buildFlatStructure_eq, hfront, insertPrefix, hfilter] at hids
  cases htree : doc.tree with
  | nil =>
    rw [htree] at hids
    cases hids
  | node obj children rest =>
    rw [htree] at hids hkinds
    obtain ⟨hid, hchildren, -⟩ := Forest.node.inj hids
    cases children with
    | node child below others => cases hchildren
    | nil =>
      rw [structureToList, Forest.preorder, Forest.preorder, nil_append, map_cons] at hkinds
      obtain ⟨hkind, hrest⟩ := List.cons.inj hkinds
      refine ⟨obj, rest, rfl, hid, by rw [NodeObj.isFrontmatterNode, hkind]; rfl, ?_⟩
      intro other hother
      have hmem := List.mem_map_of_mem (f := NodeObj.kind) hother
      rw [hrest] at hmem
      have hother' : other.kind ≠ some .frontmatter := by
        rintro heq
        rw [heq] at hmem
        cases hpre : (extractSkillPrefix content).preamble <;> rw [hpre] at hmem <;>
          simp at hmem
      rw [NodeObj.isFrontmatterNode]
      exact beq_false_of_ne hother'

theorem assembleParts_eq_parts (env : Environment) (index : SkillsIndex) (doc : SkillDocument)
    (tree : Structure) (kept : List ℕ) (keepAllHeaders : Bool) (chunkFilter : Option (List ℕ)) :
    assembleParts env index doc tree kept keepAllHeaders chunkFilter =
      (if (structureToList tree).any NodeObj.isFrontmatterNode then none
        else resolveFrontmatter env doc).toList ++ (nodelessPreamble env doc).toList ++
        ((structureToList tree).map (nodeContent index kept keepAllHeaders chunkFilter)).filter
          fun content => !content.isEmpty := rfl

theorem mem_preorder_of_mem_prune {α : Type} {p : α → Bool} {f : Forest α} {a : α}
    (h : a ∈ (f.prune p).preorder) : a ∈ f.preorder := by
  induction f with
  | nil => exact h
  | node b children rest ihc ihr =>
    rw [Forest.preorder]
    rw [Forest.prune] at h
    split at h
    · rw [Forest.preorder, mem_cons, mem_append] at h
      rw [mem_cons, mem_append]
      exact h.imp_right (Or.imp ihc ihr)
    · exact mem_cons_of_mem _ (mem_append_right _ (ihr h))

theorem resolveNodeHeader_ne_frontmatter (index : SkillsIndex) (obj : NodeObj)
    (hfront : (extractSkillPrefix content).frontmatter = some frontmatter) :
    resolveNodeHeader index obj ≠ frontmatter := by
  rw [(partsHaveRanges content).frontmatter] at hfront
  obtain ⟨r, -, rfl⟩ := map_eq_some_iff.mp hfront
  have hopen : "---\n" = ['-', '-', '-', '\n'] := by decide
  rw [hopen]
  intro heq
  unfold resolveNodeHeader at heq
  dsimp only at heq
  split at heq
  · rename_i line hline
    obtain ⟨hmap, -⟩ := filter_eq_some_iff.mp hline
    obtain ⟨l, hl, rfl⟩ := map_eq_some_iff.mp hmap
    have hmem : '\n' ∈ trim l := by
      rw [heq]
      simp
    exact Text.newline_notMem_lines (mem_of_head? hl) (mem_of_mem_trim hmem)
  · cases htitle : obj.title with
    | none =>
      rw [htitle] at heq
      cases heq
    | some title =>
      rw [htitle] at heq
      have hsharp : "# " = ['#', ' '] := by decide
      rw [map_some, getD_some, hsharp] at heq
      cases heq

/-- With the frontmatter as the first node, what comes before it and what its node is rendered by
decide. -/
theorem nonempty_parts_eq_iff {preamble : Option Text} {first : Text} {others : List Text}
    (hne : frontmatter ≠ []) :
    preamble.toList ++ (first :: others).filter (fun content => !content.isEmpty) =
        frontmatter :: (preamble.toList ++ others.filter fun content => !content.isEmpty) ↔
      (∀ t ∈ preamble, t = frontmatter) ∧ first = frontmatter := by
  have hnode : (first :: others).filter (fun content => !content.isEmpty) =
      frontmatter :: others.filter (fun content => !content.isEmpty) ↔ first = frontmatter := by
    constructor
    · intro heq
      cases first with
      | nil =>
        have hlength := congrArg List.length heq
        rw [filter_cons_of_neg (by simp), length_cons] at hlength
        omega
      | cons c first =>
        rw [filter_cons_of_pos (by simp)] at heq
        exact (List.cons.inj heq).1
    · rintro rfl
      exact filter_cons_of_pos (by simpa using hne)
  cases preamble with
  | none => simpa using hnode
  | some t =>
    rw [toList_some, singleton_append, singleton_append, List.cons.injEq]
    constructor
    · rintro ⟨rfl, hrest⟩
      refine ⟨fun t ht => (mem_some_iff.mp ht).symm, hnode.mp hrest⟩
    · rintro ⟨hpre, hfirst⟩
      have ht := hpre t rfl
      rw [ht, hnode.mpr hfirst]
      exact ⟨rfl, rfl⟩

/-- The frontmatter comes first exactly when its node is cut away, or is kept and comes first with
the text of the frontmatter. -/
theorem DocumentOf.frontmatter_first_iff (h : DocumentOf config content doc)
    (hfront : (extractSkillPrefix content).frontmatter = some frontmatter) (env : Environment)
    (index : SkillsIndex) (kept : List ℕ) (chunkFilter : Option (List ℕ))
    (opts : ReconstructOptions) :
    assembleParts env index doc (assembledTree opts doc kept) kept opts.keepAllHeaders chunkFilter =
        frontmatter :: otherParts env index doc (assembledTree opts doc kept) kept
          opts.keepAllHeaders chunkFilter ↔
      (opts.keepAllHeaders = true → nodeIdFrontmatter ∈ kept) ∧
      (nodeIdFrontmatter ∈ kept → (∀ t ∈ nodelessPreamble env doc, t = frontmatter) ∧
        ∀ obj ∈ structureToList doc.tree, obj.isFrontmatterNode = true →
          resolveNodeBodyChunkAware index obj chunkFilter = frontmatter) := by
  obtain ⟨obj, rest, htree, hid, hobj, hrest⟩ := h.exists_frontmatterNode hfront
  have hne := (tidy_frontmatter hfront).1
  have hresolve : resolveFrontmatter env doc = some frontmatter := by
    rw [resolveFrontmatter, h.frontmatter, hfront]
  have honly : (∀ other ∈ structureToList doc.tree, other.isFrontmatterNode = true →
      resolveNodeBodyChunkAware index other chunkFilter = frontmatter) ↔
        resolveNodeBodyChunkAware index obj chunkFilter = frontmatter := by
    have hlist : structureToList doc.tree = obj :: rest.preorder := by rw [htree]; rfl
    rw [hlist, forall_mem_cons]
    refine ⟨fun hall => hall.1 hobj, fun hbody => ⟨fun _ => hbody, fun other hother hkind => ?_⟩⟩
    rw [hrest other hother] at hkind
    cases hkind
  -- the assembled nodes behind the frontmatter
  have hshape : ∃ others : Structure, (∀ other ∈ others.preorder, other.isFrontmatterNode = false) ∧
      assembledTree opts doc kept =
        if opts.keepAllHeaders = true ∨ nodeIdFrontmatter ∈ kept then .node obj .nil others
        else others := by
    unfold assembledTree
    cases hkeep : opts.keepAllHeaders with
    | true => exact ⟨rest, hrest, by rw [htree]; simp⟩
    | false =>
      refine ⟨rest.prune fun obj => kept.contains obj.id,
        fun other hother => hrest other (mem_preorder_of_mem_prune hother), ?_⟩
      rw [htree, pruneStructure, Forest.prune, hid]
      simp [Forest.prune]
  obtain ⟨others, hothers, hassembled⟩ := hshape
  have hkeepOthers : (others.preorder.filter fun obj => !obj.isFrontmatterNode) = others.preorder :=
    filter_eq_self.mpr fun other hother => by rw [hothers other hother]; rfl
  have hnone : others.preorder.any NodeObj.isFrontmatterNode = false := by
    rw [List.any_eq_false]
    intro other hother
    rw [hothers other hother]
    exact Bool.false_ne_true
  rw [assembleParts_eq_parts, otherParts, honly]
  by_cases hin : opts.keepAllHeaders = true ∨ nodeIdFrontmatter ∈ kept
  · rw [if_pos hin] at hassembled
    have hlist : structureToList (assembledTree opts doc kept) = obj :: others.preorder := by
      rw [hassembled]
      rfl
    rw [hlist, any_cons, hobj, Bool.true_or, if_pos rfl, toList_none, nil_append,
      filter_cons_of_neg (by rw [hobj]; exact Bool.false_ne_true), hkeepOthers, map_cons,
      nonempty_parts_eq_iff hne]
    unfold nodeContent
    rw [hid]
    by_cases hkept : nodeIdFrontmatter ∈ kept
    · rw [contains_iff_mem.mpr hkept, Bool.not_true, Bool.and_false, if_neg Bool.false_ne_true]
      exact ⟨fun hboth => ⟨fun _ => hkept, fun _ => hboth⟩, fun hboth => hboth.2 hkept⟩
    have hkeep := hin.resolve_right hkept
    have hcontains : kept.contains nodeIdFrontmatter = false := by
      rw [Bool.eq_false_iff]
      exact fun hmem => hkept (contains_iff_mem.mp hmem)
    rw [hcontains, hkeep, Bool.not_false, Bool.and_true, if_pos rfl]
    refine iff_of_false (fun hboth => ?_) fun hboth => hkept (hboth.1 rfl)
    exact resolveNodeHeader_ne_frontmatter index obj hfront hboth.2
  · rw [if_neg hin] at hassembled
    obtain ⟨hkeep, hkept⟩ := not_or.mp hin
    have hlist : structureToList (assembledTree opts doc kept) = others.preorder := by
      rw [hassembled]
      rfl
    rw [hlist, hnone, if_neg Bool.false_ne_true, hresolve, hkeepOthers]
    exact iff_of_true rfl ⟨fun heq => absurd heq hkeep, fun hmem => absurd hmem hkept⟩

/-- Chunks of the node are selected. -/
def hasSelectedChunks (chunkFilter : Option (List ℕ)) (obj : NodeObj) : Bool :=
  chunkFilter.any fun chunkIds => nodeHasSelectedChunks obj chunkIds

variable {chunkFilter : Option (List ℕ)}

theorem resolveNodeBodyChunkAware_of_unselected (index : SkillsIndex) {obj : NodeObj}
    (hkind : obj.kind = none) (hchunks : hasSelectedChunks chunkFilter obj = false) :
    resolveNodeBodyChunkAware index obj chunkFilter = resolveNodeBody index obj := by
  cases chunkFilter with
  | none => rfl
  | some chunkIds =>
    have hnil : (obj.chunks.getD []).filter (fun id => chunkIds.contains id) = [] := by
      rw [filter_eq_nil_iff]
      intro id hid hmem
      rw [hasSelectedChunks, any_some, nodeHasSelectedChunks, List.any_eq_false] at hchunks
      exact hchunks id hid hmem
    have hpre : obj.isPreambleNode = false := by
      rw [NodeObj.isPreambleNode, hkind]
      rfl
    unfold resolveNodeBodyChunkAware
    dsimp only
    rw [hnil, hpre, if_neg (not_not_intro rfl), if_neg Bool.false_ne_true]

theorem sectionHeading_mem_nodeContent {s : ContentNode} {obj : NodeObj} (hs : s ∈ sections content)
    (hkind : obj.kind = none) (hchunks : hasSelectedChunks chunkFilter obj = false)
    (hbody : resolveNodeBody index obj = s.text) (kept : List ℕ) :
    sectionHeading s ∈ contentLines (nodeContent index kept true chunkFilter obj) := by
  have htidy : Tidy s.text := tidy_section (List.mem_map_of_mem hs)
  obtain ⟨line, hfirst, hline, hhead⟩ := htidy.head?_lines
  have hheading : sectionHeading s = line := by rw [sectionHeading, hhead, getD_some]
  unfold nodeContent
  split
  · have hheader : resolveNodeHeader index obj = line := by
      unfold resolveNodeHeader
      dsimp only
      rw [hbody, hfirst, filter_some, if_pos (by simpa using hline)]
    obtain ⟨l, hl, rfl⟩ := map_eq_some_iff.mp hfirst
    have hnl : '\n' ∉ l.trim := fun hmem =>
      Text.newline_notMem_lines (mem_of_head? hl) (mem_of_mem_trim hmem)
    rw [hheader, hheading, Text.contentLines_of_notMem hnl, Text.contentOf, map_singleton,
      Text.trim_trim, filter_cons_of_pos (by simpa using hline)]
    exact mem_cons_self
  · rw [resolveNodeBodyChunkAware_of_unselected index hkind hchunks, hbody, hheading]
    exact mem_of_head? hhead

theorem DocumentOf.headings_iff (h : DocumentOf config content doc) (index : SkillsIndex)
    (kept : List ℕ) (chunkFilter : Option (List ℕ)) :
    List.Forall₂ (fun obj s => sectionHeading s ∈
        contentLines (nodeContent index kept true chunkFilter obj))
        (sectionNodes doc.tree) (sections content) ↔
      ∀ e ∈ (sectionNodes doc.tree).zip (sections content),
        hasSelectedChunks chunkFilter e.1 = true ∨ resolveNodeBody index e.1 ≠ e.2.text →
          sectionHeading e.2 ∈ contentLines (nodeContent index kept true chunkFilter e.1) := by
  rw [forall₂_iff_zip]
  constructor
  · rintro ⟨-, hall⟩ ⟨obj, s⟩ he -
    exact hall he
  · intro hall
    refine ⟨h.length_sectionNodes, fun {obj s} he => ?_⟩
    by_cases hother : hasSelectedChunks chunkFilter obj = true ∨ resolveNodeBody index obj ≠ s.text
    · exact hall (obj, s) he hother
    · obtain ⟨hchunks, hbody⟩ := not_or.mp hother
      have hobj := (mem_filter.mp (of_mem_zip he).1).2
      exact sectionHeading_mem_nodeContent (of_mem_zip he).2 (isNone_iff_eq_none.mp hobj)
        (Bool.eq_false_iff.mpr hchunks) (not_not.mp hbody) kept

/-- What comes first in the markdown, and the lines that it has. -/
theorem KeepsHeaders.markdown {kept : List ℕ} {opts : ReconstructOptions}
    (h : KeepsHeaders env index doc content frontmatter kept chunkFilter opts) :
    frontmatter <+: assembleMarkdown env index doc (assembledTree opts doc kept) kept
        opts.keepAllHeaders chunkFilter ∧
      (opts.keepAllHeaders = true → ∀ s ∈ sections content, sectionHeading s ∈
        contentLines (assembleMarkdown env index doc (assembledTree opts doc kept) kept
          opts.keepAllHeaders chunkFilter)) := by
  constructor
  · rw [assembleMarkdown, h.frontmatter, Text.join]
    generalize otherParts env index doc (assembledTree opts doc kept) kept opts.keepAllHeaders
      chunkFilter = others
    cases others with
    | nil => exact ⟨[], by simp⟩
    | cons other others =>
      rw [intercalate_cons_cons, List.append_assoc]
      exact prefix_append _ _
  · intro hkeep s hs
    obtain ⟨obj, hobj⟩ : ∃ obj, (obj, s) ∈ (sectionNodes doc.tree).zip (sections content) := by
      obtain ⟨n, hn, rfl⟩ := getElem_of_mem hs
      have hlength := (h.headings hkeep).length_eq
      have hbound : n < (sectionNodes doc.tree).length := by omega
      refine ⟨(sectionNodes doc.tree)[n], ?_⟩
      rw [mem_iff_getElem]
      exact ⟨n, by rw [length_zip]; omega, getElem_zip⟩
    have hheading := (forall₂_iff_zip.mp (h.headings hkeep)).2 hobj
    have hnode := (mem_filter.mp (of_mem_zip hobj).1).1
    rw [assembleMarkdown, Text.contentLines_join, mem_flatMap]
    refine ⟨_, ?_, hheading⟩
    have hne : nodeContent index kept true chunkFilter obj ≠ [] := by
      intro hnil
      rw [hnil] at hheading
      cases hheading
    rw [assembleParts_eq_parts, hkeep, assembledTree, if_pos hkeep]
    exact mem_append_right _ (mem_filter.mpr ⟨List.mem_map_of_mem hnode, by simpa using hne⟩)

theorem exists_reconstruct_eq (env : Environment)
    {lineNumSpecs nodeIdSpecs chunkIdSpecs : List Text} {matched kept : List ℕ}
    (hdoc : index.documents.get? docId = some doc)
    (hselect : selectNodes doc lineNumSpecs nodeIdSpecs chunkIdSpecs =
      some (.ok (matched, kept, chunkFilter))) (opts : ReconstructOptions) :
    ∃ result, reconstructSkillMarkdown env index docId lineNumSpecs nodeIdSpecs chunkIdSpecs opts =
        some (.ok result) ∧
      result.markdown = assembleMarkdown env index doc (assembledTree opts doc kept) kept
        opts.keepAllHeaders chunkFilter := by
  unfold reconstructSkillMarkdown
  rw [hdoc]
  dsimp only
  rw [hselect]
  exact ⟨_, rfl, rfl⟩

/-- A reconstruction keeps the headers exactly when the walk to the ancestors ends, the frontmatter
is selected wherever all headers are kept, and what the index holds of the selected frontmatter, and
of the sections that it holds otherwise, has them. -/
theorem reconstructsHeaders_iff {env' : Environment} {index'' : SkillsIndex}
    {lineNumSpecs nodeIdSpecs chunkIdSpecs : List Text} {p : NodeObj → Bool}
    (hfree : index.documents.contains docId = false)
    (hbuild : indexSkillMdContent env path docId content config variant index = .ok index')
    (hdoc : index'.documents.get? docId = some doc)
    (hfront : (extractSkillPrefix content).frontmatter = some frontmatter)
    (hp : selects lineNumSpecs nodeIdSpecs chunkIdSpecs = .ok p)
    (hholds : index''.documents.get? docId = some doc) (opts : ReconstructOptions) :
    ReconstructsHeaders env' index'' docId doc content frontmatter lineNumSpecs nodeIdSpecs
        chunkIdSpecs opts ↔
      ∃ kept, expandWithAncestors (matchedIds p doc.tree) (buildParentMap doc.tree) = some kept ∧
        (opts.keepAllHeaders = true → nodeIdFrontmatter ∈ kept) ∧
        (nodeIdFrontmatter ∈ kept → (∀ t ∈ nodelessPreamble env' doc, t = frontmatter) ∧
          ∀ obj ∈ structureToList doc.tree, obj.isFrontmatterNode = true →
            resolveNodeBodyChunkAware index'' obj (chunkFilterOf chunkIdSpecs) = frontmatter) ∧
        (opts.keepAllHeaders = true → ∀ e ∈ (sectionNodes doc.tree).zip (sections content),
          hasSelectedChunks (chunkFilterOf chunkIdSpecs) e.1 = true ∨
              resolveNodeBody index'' e.1 ≠ e.2.text →
            sectionHeading e.2 ∈ contentLines
              (nodeContent index'' kept true (chunkFilterOf chunkIdSpecs) e.1)) := by
  have hof := documentOf_indexed hfree hbuild hdoc
  have hselect := selectNodes_eq hp doc
  constructor
  · rintro ⟨matched, kept, chunkFilter, result, hsome, -, hkeeps, -, -⟩
    rw [hselect] at hsome
    obtain ⟨kept', hexpand, heq⟩ := map_eq_some_iff.mp hsome
    cases heq
    obtain ⟨hall, hnode⟩ :=
      (hof.frontmatter_first_iff hfront env' index'' kept _ opts).mp hkeeps.frontmatter
    exact ⟨kept, hexpand, hall, hnode, fun hkeep =>
      (hof.headings_iff index'' kept _).mp (hkeeps.headings hkeep)⟩
  · rintro ⟨kept, hexpand, hall, hnode, hsections⟩
    rw [hexpand, map_some] at hselect
    have hkeeps : KeepsHeaders env' index'' doc content frontmatter kept
        (chunkFilterOf chunkIdSpecs) opts :=
      ⟨(hof.frontmatter_first_iff hfront env' index'' kept _ opts).mpr ⟨hall, hnode⟩,
        fun hkeep => (hof.headings_iff index'' kept _).mpr (hsections hkeep)⟩
    obtain ⟨result, hresult, hmarkdown⟩ := exists_reconstruct_eq env' hholds hselect opts
    have htext := hkeeps.markdown
    rw [← hmarkdown] at htext
    exact ⟨_, kept, _, result, hselect, hresult, hkeeps, htext⟩

end

/-- A frontmatter before a section. -/
def frontmatterFile : Text := "---\nname: x\n---\n# A"

def frontmatterDocument : SkillDocument where
  id := "s"
  path := "s.md"
  tree := .node ⟨none, some 0, some .frontmatter, 1, none, none⟩ .nil
    (.node ⟨some "A", some 2, none, 4, none, none⟩ .nil .nil)
  frontmatter := some "---\nname: x\n---"
  preamble := none

theorem exists_frontmatterIndex :
    ∃ index, indexSkillMdContent plainEnvironment "s.md" "s" frontmatterFile .default
        none .default = .ok index ∧
      index.documents.get? "s" = some frontmatterDocument := ⟨_, rfl, rfl⟩

theorem selects_two : selects [] ["2".toList] [] = .ok (nodeMatches ⟨[], [2]⟩) := by
  rw [selects, if_pos rfl, parseMatchCriteria, mergeLineNumSpecs_nil, mergeNodeIdSpecs_two]
  rfl

theorem reconstructsHeaders_iff_section :
    ∃ index, index.documents.get? "s" = some frontmatterDocument ∧
      (ReconstructsHeaders plainEnvironment index "s" frontmatterDocument frontmatterFile
          "---\nname: x\n---".toList [] ["2".toList] [] ⟨false⟩ ↔
        ∃ kept, expandWithAncestors (matchedIds (nodeMatches ⟨[], [2]⟩) frontmatterDocument.tree)
            (buildParentMap frontmatterDocument.tree) = some kept ∧
          (false = true → nodeIdFrontmatter ∈ kept) ∧
          (nodeIdFrontmatter ∈ kept →
            (∀ t ∈ nodelessPreamble plainEnvironment frontmatterDocument,
              t = "---\nname: x\n---") ∧
            ∀ obj ∈ structureToList frontmatterDocument.tree, obj.isFrontmatterNode = true →
              resolveNodeBodyChunkAware index obj (chunkFilterOf []) =
                "---\nname: x\n---") ∧
          (false = true → ∀ e ∈ (sectionNodes frontmatterDocument.tree).zip
              (sections frontmatterFile),
            hasSelectedChunks (chunkFilterOf []) e.1 = true ∨ resolveNodeBody index e.1 ≠ e.2.text →
              sectionHeading e.2 ∈ contentLines
                (nodeContent index kept true (chunkFilterOf []) e.1))) := by
  obtain ⟨index, hindex, hdoc⟩ := exists_frontmatterIndex
  exact ⟨index, hdoc, reconstructsHeaders_iff rfl hindex hdoc rfl selects_two hdoc ⟨false⟩⟩

/-- With all headers kept, the frontmatter that a selection does not match is cut to its first
line. -/
theorem unmatched_frontmatter_cut :
    ∃ index result, indexSkillMdContent plainEnvironment "s.md".toList "s".toList frontmatterFile
        .default none .default = .ok index ∧
      reconstructSkillMarkdown plainEnvironment index "s".toList [] ["2".toList] [] ⟨true⟩ =
        some (.ok result) ∧
      (extractSkillPrefix frontmatterFile).frontmatter = some "---\nname: x\n---".toList ∧
      result.markdown = "---\n\n# A".toList ∧
      ¬"---\nname: x\n---".toList <+: result.markdown := by
  obtain ⟨index, hindex, hdoc⟩ : ∃ index, indexSkillMdContent plainEnvironment "s.md".toList
      "s".toList frontmatterFile .default none .default = .ok index ∧
    (index.documents.get? "s".toList = some frontmatterDocument ∧
      assembleMarkdown plainEnvironment index frontmatterDocument frontmatterDocument.tree [2] true
        none = "---\n\n# A".toList) := ⟨_, rfl, rfl, rfl⟩
  have hselect := selectNodes_eq selects_two frontmatterDocument
  have hexpand : expandWithAncestors (matchedIds (nodeMatches ⟨[], [2]⟩) frontmatterDocument.tree)
      (buildParentMap frontmatterDocument.tree) = some [2] := rfl
  rw [hexpand, map_some] at hselect
  obtain ⟨result, hresult, hmarkdown⟩ :=
    exists_reconstruct_eq plainEnvironment hdoc.1 hselect ⟨true⟩
  have htext : result.markdown = "---\n\n# A".toList := hmarkdown.trans hdoc.2
  refine ⟨index, result, hindex, hresult, rfl, htext, ?_⟩
  rw [htext]
  decide

end ClearYourTools.PageIndex
