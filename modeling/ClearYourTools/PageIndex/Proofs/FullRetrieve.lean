import ClearYourTools.PageIndex.Proofs.ChunkRetrieval
import ClearYourTools.PageIndex.Proofs.SourceLines

/-!
# Retrieving all nodes

A retrieval of all nodes of a document gives frontmatter, preamble and sections back in their
order, unless no id is selected, headings without ids share a node file or nest into a cycle, a
live file supplies a part that the source does not have, or the two scans of the source disagree.
-/

namespace ClearYourTools.PageIndex

open Misc Bm25Cohesion List Option
open Forest (preorder_map preorder)

/-- The retrieval joins the parts of the source, each once and in order, by blank lines, and
so returns the lines of the source. -/
def RoundTrip (env : Environment) (index : SkillsIndex) (docId content : Text)
    (specs : List Text) (opts : ReconstructOptions) : Prop :=
  ∃ doc matched kept result, index.documents.get? docId = some doc ∧
    selectNodes doc [] specs [] = some (.ok (matched, kept, none)) ∧ assembleParts env index doc
      (if opts.keepAllHeaders then doc.tree else pruneStructure doc.tree kept) kept
      opts.keepAllHeaders none = partTexts content ∧
    reconstructSkillMarkdown env index docId [] specs [] opts = some (.ok result) ∧
    result.markdown = Text.join "\n\n" (partTexts content) ∧
    Text.contentLines result.markdown = Text.contentLines content

section

variable (env : Environment) (config : PageIndexConfig)

/-- What the index of a single document holds of it. -/
structure BuiltDocument (path docId content : Text) (index : SkillsIndex) (doc : SkillDocument) :
    Prop where
  document : index.documents.get? docId = some doc
  path : env.shortenHomePath path = .ok doc.path
  frontmatter : doc.frontmatter = (extractSkillPrefix content).frontmatter
  preamble : doc.preamble = (extractSkillPrefix content).preamble
  ids : doc.tree.map NodeObj.id = (buildFlatStructure content config).map NodeObj.id
  kinds : (structureToList doc.tree).map NodeObj.kind =
    (documentNodes content config).map NodeObj.kind
  texts : (structureToList doc.tree).map NodeObj.text =
    if config.ifAddNodeText then (documentNodes content config).map NodeObj.text
    else (documentNodes content config).map fun _ => none
  files : ∀ id, index.files.get? (nodeMdRel id) =
    ((documentNodes content config).filter fun obj => decide (obj.id = id)).getLast?.map
      (nodeMd env config docId)

variable {env config} {path docId content : Text} {variant : ChunkVariant} {index : SkillsIndex}

theorem map_of_attachOutput {flat : Structure} {writes : List (Text × Text)}
    (h : attachOutput env (buildFlatStructure content config) config docId variant =
      .ok (flat, writes)) {β : Type} (g : NodeObj → β)
    (hg : ∀ (obj : NodeObj) (refs : List ℕ), g { obj with chunks := some refs } = g obj) :
    flat.map g = (buildFlatStructure content config).map g := by
  rcases attachOutput_ok env config variant h with ⟨-, rfl, -⟩ | ⟨_, _, chunker, -, -, rfl, -⟩
  · rfl
  generalize buildFlatStructure content config = tree
  generalize documentNodes content config = nodes
  generalize 0 = start
  induction nodes generalizing start tree with
  | nil => rfl
  | cons obj rest ih =>
    rw [attachTree]
    split
    · exact ih tree start
    · simp only
      rw [ih, insertChunksOnNode, Forest.map_updateFirst g fun obj => hg obj _]

theorem map_formatStructureForOutput {β : Type} (g : NodeObj → β)
    (hg : ∀ obj : NodeObj, g { obj with text := none } = g obj) (tree : Structure) :
    (formatStructureForOutput tree config).map g = tree.map g := by
  rw [formatStructureForOutput]
  split
  · rfl
  · rw [Forest.map_map]
    congr 1
    funext obj
    exact hg obj

theorem exists_builtDocument
    (h : buildIndexForContent env path docId content config variant = .ok index) :
    ∃ doc, BuiltDocument env config path docId content index doc := by
  obtain ⟨out, hout, rfl⟩ := exists_output_of_indexed env rfl h
  obtain ⟨sourcePath, flat, writes, hpath, hattach, hdoc, hwrites⟩ :=
    documentOutput_ok env config variant hout
  have hflat : ∀ {β : Type} (g : NodeObj → β),
      (∀ (obj : NodeObj) (refs : List ℕ), g { obj with chunks := some refs } = g obj) →
        (structureToList flat).map g = (documentNodes content config).map g := by
    intro β g hg
    have hmap := congrArg preorder (map_of_attachOutput hattach g hg)
    rwa [preorder_map, preorder_map, preorder_buildFlatStructure] at hmap
  refine ⟨out.1, ?_, ?_, ?_, ?_, ?_, ?_, ?_, ?_⟩
  · rw [SkillsIndex.addDocument, Dict.get?_set_self]
  · rw [hdoc, hpath]
  · rw [hdoc]
  · rw [hdoc]
  · rw [hdoc, map_formatStructureForOutput _ fun _ => rfl,
      map_of_attachOutput hattach _ fun _ _ => rfl]
  · have hkinds := congrArg preorder
      (@map_formatStructureForOutput config _ NodeObj.kind (fun _ => rfl) flat)
    rw [preorder_map, preorder_map] at hkinds
    rw [hdoc, structureToList, hkinds]
    exact hflat NodeObj.kind fun _ _ => rfl
  · rw [hdoc, formatStructureForOutput]
    cases config.ifAddNodeText with
    | true => exact hflat NodeObj.text fun _ _ => rfl
    | false =>
      simp only [Bool.false_eq_true, if_false]
      rw [structureToList, preorder_map, List.map_map]
      exact hflat (fun _ => none) fun _ _ => rfl
  · intro id
    have hnodes : nodeWrites env config docId (structureToList flat) =
        nodeWrites env config docId (documentNodes content config) :=
      hflat (fun obj => (nodeMdRel obj.id, nodeMd env config docId obj)) fun _ _ => rfl
    have hname : ∀ obj : NodeObj, decide (nodeMdRel obj.id = nodeMdRel id) =
        decide (obj.id = id) := by
      intro obj
      rw [decide_eq_decide]
      exact ⟨nodeMdRel_injective, congrArg nodeMdRel⟩
    have hpage : nodeMdRel id ∉ [(pageIndexRel, env.serializePageIndex out.1)].map Prod.fst := by
      simpa using nodeMdRel_ne_pageIndexRel id
    have hfiles : (SkillsIndex.default.addDocument docId variant out).files =
        Dict.empty.writeAll out.2 := rfl
    rw [hfiles, hwrites, hnodes, Dict.writeAll_append, Dict.writeAll_append,
      Dict.writeAll_append, Dict.get?_writeAll_of_notMem _
        (nodeMdRel_notMem_chunkIndexWrites env config variant _ id),
      Dict.get?_writeAll, Dict.get?_writeAll_of_notMem _ hpage, Dict.get?_writeAll_of_notMem _
        (nodeMdRel_notMem_attachOutput env config variant hattach id), Dict.get?_empty,
      or_none, nodeWrites, List.filter_map, getLast?_map, Option.map_map]
    simp only [Function.comp_def, hname]

theorem exists_last_of_id {nodes : List NodeObj} {id : ℕ} (h : id ∈ nodes.map NodeObj.id) :
    ∃ last ∈ nodes, last.id = id ∧
      (nodes.filter fun obj => decide (obj.id = id)).getLast? = some last := by
  obtain ⟨obj, hobj, rfl⟩ := List.mem_map.mp h
  have hne : nodes.filter (fun other => decide (other.id = obj.id)) ≠ [] :=
    ne_nil_of_mem (mem_filter.mpr ⟨hobj, by simp⟩)
  have hmem := mem_filter.mp (getLast_mem hne)
  exact ⟨_, hmem.1, of_decide_eq_true hmem.2, getLast?_eq_some_getLast hne⟩

variable {obj : NodeObj}

theorem nodeBody_documentNodes (h : obj ∈ documentNodes content config) :
    nodeBody obj = obj.text.getD [] := by
  obtain ⟨t, htext, htidy⟩ := tidy_of_mem_documentNodes h
  simp only [nodeBody, htext, getD_some, if_neg htidy.1, ite_self]

theorem strip_nodeMd (h : obj ∈ documentNodes content config) :
    (CleanDocId docId →
      stripDecomposedFrontmatter (nodeMd env config docId obj) = obj.text.getD []) ∧
    (¬ CleanDocId docId → (obj.text.getD []).length <
      (stripDecomposedFrontmatter (nodeMd env config docId obj)).length) := by
  obtain ⟨t, htext, htidy⟩ := tidy_of_mem_documentNodes h
  rw [nodeMd, nodeBody_documentNodes h, htext, getD_some]
  constructor
  · intro hclean
    rw [strip_decomposedMd hclean, htidy.trimStart]
    intro f hf
    apply plainKey_fields
    simp only [mem_cons, not_mem_nil, or_false] at hf ⊢
    rcases hf with rfl | rfl | rfl <;> simp
  · exact fun hdirty => length_strip_decomposedMd hdirty _ t

/-- The body that is read from the node file of `id`. -/
def fileBody (index : SkillsIndex) (id : ℕ) : Text :=
  ((index.files.get? (nodeMdRel id)).map stripDecomposedFrontmatter).getD []

variable {doc : SkillDocument}

section

variable (h : BuiltDocument env config path docId content index doc)
include h

theorem BuiltDocument.fileBody_eq
    {id : ℕ} (hid : id ∈ (documentNodes content config).map NodeObj.id) :
    ∃ last ∈ documentNodes content config, last.id = id ∧
      fileBody index id = stripDecomposedFrontmatter (nodeMd env config docId last) := by
  obtain ⟨last, hlast, hlastid, hget⟩ := exists_last_of_id hid
  refine ⟨last, hlast, hlastid, ?_⟩
  rw [fileBody, h.files, hget, map_some, map_some, getD_some]

theorem BuiltDocument.fileBody_ne_nil {id : ℕ}
    (hid : id ∈ (documentNodes content config).map NodeObj.id) : fileBody index id ≠ [] := by
  obtain ⟨last, hlast, -, hbody⟩ := h.fileBody_eq hid
  obtain ⟨hclean, hdirty⟩ := @strip_nodeMd env config docId content last hlast
  obtain ⟨t, htext, htidy⟩ := tidy_of_mem_documentNodes hlast
  rw [htext, getD_some] at hclean hdirty
  rw [hbody]
  intro hnil
  rw [hnil] at hclean hdirty
  by_cases hdoc : CleanDocId docId
  · exact htidy.1 (hclean hdoc).symm
  · have hlt := hdirty hdoc
    simp at hlt

end

/-- Nodes that share an id share their text. -/
def SameTexts (nodes : List NodeObj) : Prop :=
  ∀ a ∈ nodes, ∀ b ∈ nodes, a.id = b.id → a.text = b.text

section

variable (h : BuiltDocument env config path docId content index doc)
include h

theorem BuiltDocument.fileBodies_iff :
    (∀ obj ∈ documentNodes content config, fileBody index obj.id = obj.text.getD []) ↔
      (hasNodes content = true → CleanDocId docId) ∧ SameTexts (documentNodes content config) := by
  constructor
  · intro hbodies
    constructor
    · intro hnodes
      obtain ⟨obj, hobj⟩ := exists_mem_of_ne_nil _ ((hasNodes_iff config content).mp hnodes)
      obtain ⟨last, hlast, hid, hbody⟩ := h.fileBody_eq (List.mem_map_of_mem hobj)
      by_contra hdirty
      have hlong := (@strip_nodeMd env config docId content last hlast).2 hdirty
      rw [← hbody, ← hid, hbodies last hlast] at hlong
      omega
    · intro a ha b hb hid
      obtain ⟨s, hs, -⟩ := tidy_of_mem_documentNodes ha
      obtain ⟨t, ht, -⟩ := tidy_of_mem_documentNodes hb
      have hsame := hbodies a ha
      rw [hid, hbodies b hb, hs, ht] at hsame
      simp only [getD_some] at hsame
      rw [hs, ht, hsame]
  · rintro ⟨hclean, hsame⟩ obj hobj
    obtain ⟨last, hlast, hid, hbody⟩ := h.fileBody_eq (List.mem_map_of_mem hobj)
    have hnodes := (hasNodes_iff config content).mpr (ne_nil_of_mem hobj)
    rw [hbody, (strip_nodeMd hlast).1 (hclean hnodes), hsame last hlast obj hobj hid]

theorem BuiltDocument.bodies_eq :
    (structureToList doc.tree).map (resolveNodeBody index) =
      if config.ifAddNodeText then partTexts content
      else (documentNodes content config).map fun obj => fileBody index obj.id := by
  have htexts := h.texts
  have hids := congrArg preorder h.ids
  rw [preorder_map, preorder_map, preorder_buildFlatStructure] at hids
  cases hinline : config.ifAddNodeText with
  | true =>
    rw [hinline, if_pos rfl, map_text_documentNodes] at htexts
    have hbody : ∀ obj ∈ structureToList doc.tree,
        resolveNodeBody index obj = obj.text.getD [] := by
      intro obj hobj
      have hmem := List.mem_map_of_mem (f := NodeObj.text) hobj
      rw [htexts] at hmem
      obtain ⟨t, ht, htext⟩ := List.mem_map.mp hmem
      have hne : t ≠ [] := (tidy_partTexts ht).1
      have hfilter : (some t).filter (fun text => !text.isEmpty) = some t := by
        simp [Option.filter, hne]
      rw [resolveNodeBody, ← htext, hfilter]
      rfl
    have hmap := congrArg (List.map fun t => t.getD []) htexts
    rw [List.map_map, List.map_map] at hmap
    rw [if_pos rfl, map_congr_left hbody]
    simpa [Function.comp_def] using hmap
  | false =>
    rw [hinline, if_neg (by simp)] at htexts
    have hbody : ∀ obj ∈ structureToList doc.tree,
        resolveNodeBody index obj = fileBody index obj.id := by
      intro obj hobj
      have hmem := List.mem_map_of_mem (f := NodeObj.text) hobj
      rw [htexts] at hmem
      obtain ⟨_, -, hnone⟩ := List.mem_map.mp hmem
      rw [resolveNodeBody, ← hnone]
      rfl
    have hmap := congrArg (List.map (fileBody index)) hids
    rw [List.map_map, List.map_map] at hmap
    rw [if_neg (by simp), map_congr_left hbody]
    exact hmap

end

theorem mergeLineNumSpecs_nil : mergeLineNumSpecs [] = .ok [] := by
  simp only [mergeLineNumSpecs, mergeSpecs, sortDedup, Except.map, pure, Except.pure,
    mapM_nil, flatten_nil, mergeSort_nil]
  rfl

theorem selectNodes_of_nodeIds {specs : List Text} {ids : List ℕ}
    (hspecs : mergeNodeIdSpecs specs = .ok ids)
    (hcover : ∀ obj ∈ structureToList doc.tree, obj.id ∈ ids) :
    (ids = [] → ∃ e, selectNodes doc [] specs [] = some (.error e)) ∧
      (ids ≠ [] → selectNodes doc [] specs [] =
        (expandWithAncestors ((structureToList doc.tree).map NodeObj.id)
          (buildParentMap doc.tree)).map fun kept =>
            .ok ((structureToList doc.tree).map NodeObj.id, kept, none)) := by
  have hparse : ∀ {r}, parseMatchCriteria [] specs = r →
      r = if ids = [] then .error "content query requires at least one --line_num or --node_id"
        else .ok ⟨[], ids⟩ := by
    rintro r rfl
    simp only [parseMatchCriteria, mergeLineNumSpecs_nil, hspecs, bind, Except.bind, true_and]
    rfl
  have hcriteria := hparse rfl
  constructor
  · intro hids
    refine ⟨"content query requires at least one --line_num or --node_id", ?_⟩
    rw [if_pos hids] at hcriteria
    simp only [selectNodes, collectMatchedNodeIds, hcriteria, if_true, bind, Except.bind,
      Except.map]
  · intro hids
    rw [if_neg hids] at hcriteria
    have hall : (structureToList doc.tree).filter (nodeMatches ⟨[], ids⟩) =
        structureToList doc.tree := by
      rw [filter_eq_self]
      intro obj hobj
      simp [nodeMatches, hcover obj hobj]
    simp only [selectNodes, collectMatchedNodeIds, hcriteria, if_true, bind, Except.bind,
      Except.map, pure, Except.pure, hall]

/-- A part that the live file supplies when the document has none of its own. -/
def liveParts (env : Environment) (content source : Text) : List Text :=
  (if hasFrontmatter content then none
    else (env.readFile source).bind fun raw => (extractSkillPrefix raw).frontmatter).toList ++
  (if hasPreamble content then none
    else (env.readFile source).bind fun raw => (extractSkillPrefix raw).preamble).toList

theorem kind_of_mem_headingObjs (h : obj ∈ headingObjs content config) : obj.kind = none := by
  have hnumbered : ∀ (objs : List NodeObj) (start : ℕ),
      (numbered start objs).map NodeObj.kind = objs.map NodeObj.kind := by
    intro objs
    induction objs with
    | nil => exact fun _ => rfl
    | cons first rest ih =>
      intro start
      rw [numbered, map_cons, ih, map_cons]
  have hkinds : (headingObjs content config).map NodeObj.kind =
      ((sections content).map headingObj).map NodeObj.kind := by
    rw [headingObjs]
    split
    · rw [hnumbered]
    · rfl
  have hmem := List.mem_map_of_mem (f := NodeObj.kind) h
  rw [hkinds, List.map_map] at hmem
  obtain ⟨_, -, hnone⟩ := List.mem_map.mp hmem
  exact hnone.symm

variable (h : BuiltDocument env config path docId content index doc)

include h

/-- The prefix nodes stand in the tree when the source has their texts. -/
theorem BuiltDocument.any_kind :
    (structureToList doc.tree).any NodeObj.isFrontmatterNode = hasFrontmatter content ∧
      (structureToList doc.tree).any NodeObj.isPreambleNode = hasPreamble content := by
  have hkinds : (structureToList doc.tree).map NodeObj.kind =
      (extractSkillPrefix content).frontmatter.toList.map (fun _ => some NodeKind.frontmatter) ++
        ((extractSkillPrefix content).preamble.toList.map (fun _ => some NodeKind.preamble) ++
          (headingObjs content config).map NodeObj.kind) := by
    rw [h.kinds, documentNodes, map_append, map_append,
      map_prefixNodes _ fun t ht => tidy_frontmatter ht,
      map_prefixNodes _ fun t ht => tidy_preamble ht]
    rfl
  have hheadings : ∀ k ∈ (headingObjs content config).map NodeObj.kind, k = none := by
    intro k hk
    obtain ⟨obj, hobj, rfl⟩ := List.mem_map.mp hk
    exact kind_of_mem_headingObjs hobj
  have hany : ∀ p : Option NodeKind → Bool,
      (structureToList doc.tree).any (p ∘ NodeObj.kind) =
        ((structureToList doc.tree).map NodeObj.kind).any p := by
    intro p
    rw [List.any_map]
  have hnone : ∀ k : NodeKind, ((headingObjs content config).map NodeObj.kind).any
      (fun kind => kind == some k) = false := by
    intro k
    rw [List.any_eq_false]
    intro kind hkind
    rw [hheadings kind hkind]
    simp
  constructor
  · have hfront : NodeObj.isFrontmatterNode = (· == some NodeKind.frontmatter) ∘ NodeObj.kind := rfl
    rw [hfront, hany, hkinds, any_append, any_append, hnone, hasFrontmatter]
    cases (extractSkillPrefix content).frontmatter <;>
      cases (extractSkillPrefix content).preamble <;> rfl
  · have hpre : NodeObj.isPreambleNode = (· == some NodeKind.preamble) ∘ NodeObj.kind := rfl
    rw [hpre, hany, hkinds, any_append, any_append, hnone, hasPreamble]
    cases (extractSkillPrefix content).frontmatter <;>
      cases (extractSkillPrefix content).preamble <;> rfl

theorem BuiltDocument.body_ne_nil {body : Text}
    (hbody : body ∈ (structureToList doc.tree).map (resolveNodeBody index)) : body ≠ [] := by
  rw [h.bodies_eq] at hbody
  split at hbody
  · exact (tidy_partTexts hbody).1
  · obtain ⟨obj, hobj, rfl⟩ := List.mem_map.mp hbody
    exact h.fileBody_ne_nil (List.mem_map_of_mem hobj)

theorem BuiltDocument.assembleParts_eq
 {kept : List ℕ}
    (hkept : ∀ id ∈ (structureToList doc.tree).map NodeObj.id, id ∈ kept)
    (keepAllHeaders : Bool) :
    assembleParts env index doc (if keepAllHeaders then doc.tree else pruneStructure doc.tree kept)
        kept keepAllHeaders none =
      liveParts env content doc.path ++ (structureToList doc.tree).map (resolveNodeBody index) := by
  have hmem : ∀ obj ∈ structureToList doc.tree, kept.contains obj.id = true := by
    intro obj hobj
    rw [contains_iff_mem]
    exact hkept _ (List.mem_map_of_mem hobj)
  have htree : (if keepAllHeaders then doc.tree else pruneStructure doc.tree kept) = doc.tree := by
    rw [pruneStructure, Forest.prune_eq_self hmem, ite_self]
  have hcontents : ((structureToList doc.tree).map fun obj =>
      if keepAllHeaders && !kept.contains obj.id then resolveNodeHeader index obj
      else resolveNodeBodyChunkAware index obj none) =
        (structureToList doc.tree).map (resolveNodeBody index) := by
    apply map_congr_left
    intro obj hobj
    rw [hmem obj hobj, Bool.not_true, Bool.and_false, if_neg (by simp)]
    rfl
  have hfilter : ((structureToList doc.tree).map (resolveNodeBody index)).filter
      (fun content => !content.isEmpty) =
        (structureToList doc.tree).map (resolveNodeBody index) := by
    rw [filter_eq_self]
    intro body hbody
    simpa using h.body_ne_nil hbody
  have hfront : (if hasFrontmatter content then none else resolveFrontmatter env doc) =
      if hasFrontmatter content then none
      else (env.readFile doc.path).bind fun raw => (extractSkillPrefix raw).frontmatter := by
    cases hhas : hasFrontmatter content with
    | true => rfl
    | false =>
      have hnone : doc.frontmatter = none := by
        rw [h.frontmatter, ← not_isSome_iff_eq_none]
        simpa [hasFrontmatter] using hhas
      simp [resolveFrontmatter, hnone]
  have hpre : (if hasPreamble content then none else resolvePreamble env doc) =
      if hasPreamble content then none
      else (env.readFile doc.path).bind fun raw => (extractSkillPrefix raw).preamble := by
    cases hhas : hasPreamble content with
    | true => rfl
    | false =>
      have hnone : doc.preamble = none := by
        rw [h.preamble, ← not_isSome_iff_eq_none]
        simpa [hasPreamble] using hhas
      simp [resolvePreamble, hnone]
  rw [htree]
  simp only [assembleParts]
  rw [hcontents, hfilter, h.any_kind.1, h.any_kind.2, hfront, hpre, liveParts]

/-- The parts are those of the source exactly when the live file supplies none and the node
files give every node its text. -/
theorem BuiltDocument.parts_iff :
    liveParts env content doc.path ++ (structureToList doc.tree).map (resolveNodeBody index) =
        partTexts content ↔
      liveParts env content doc.path = [] ∧ (config.ifAddNodeText = true ∨
        ((hasNodes content = true → CleanDocId docId) ∧
          SameTexts (documentNodes content config))) := by
  have hlength : ((structureToList doc.tree).map (resolveNodeBody index)).length =
      (partTexts content).length := by
    have htexts := congrArg List.length (texts_documentNodes content config)
    rw [length_map] at htexts
    rw [h.bodies_eq]
    split
    · rfl
    · rw [length_map, htexts]
  have hlive : liveParts env content doc.path ++
      (structureToList doc.tree).map (resolveNodeBody index) = partTexts content ↔
        liveParts env content doc.path = [] ∧
          (structureToList doc.tree).map (resolveNodeBody index) = partTexts content := by
    constructor
    · intro hparts
      have hsum := congrArg List.length hparts
      rw [length_append, hlength] at hsum
      have hnil : liveParts env content doc.path = [] := length_eq_zero_iff.mp (by omega)
      rw [hnil] at hparts
      exact ⟨hnil, hparts⟩
    · rintro ⟨hnil, hbodies⟩
      rw [hnil, hbodies, nil_append]
  rw [hlive, h.bodies_eq]
  cases hinline : config.ifAddNodeText with
  | true => simp
  | false =>
    rw [if_neg (by simp), ← texts_documentNodes content config, map_inj_left, h.fileBodies_iff]
    simp

end

/-- The texts of the nodes that share the id zero when headings have no ids. -/
def unnumberedTexts (content : Text) : List Text :=
  (extractSkillPrefix content).frontmatter.toList ++ (sections content).map ContentNode.text

/-- The selection has an id, headings without ids do not nest, no live file supplies a part
that the source does not have, the node files give every node its text, and the two scans of
the source agree. -/
structure Retrievable (env : Environment) (config : PageIndexConfig) (path docId content : Text)
    (ids : List ℕ) : Prop where
  selected : ids ≠ []
  unnested : Unnested content config
  live : ∀ source raw, env.shortenHomePath path = .ok source → env.readFile source = some raw →
    (hasFrontmatter raw = true → hasFrontmatter content = true) ∧
      (hasPreamble raw = true → hasPreamble content = true)
  bodies : config.ifAddNodeText = true ∨
    ((hasNodes content = true → CleanDocId docId) ∧
      (config.ifAddNodeId = true ∨
        ∀ s ∈ unnumberedTexts content, ∀ t ∈ unnumberedTexts content, s = t))
  scans : ScansAgree content.lines

section

variable {content : Text} {config : PageIndexConfig}

theorem map_id_text_documentNodes (hid : config.ifAddNodeId = false) :
    (documentNodes content config).map (fun obj => (obj.id, obj.text)) =
      (extractSkillPrefix content).frontmatter.toList.map (fun t => (0, some t)) ++
        ((extractSkillPrefix content).preamble.toList.map (fun t => (1, some t)) ++
          (sections content).map fun node => (0, some node.text)) := by
  simp only [documentNodes, headingObjs, hid, Bool.false_eq_true, if_false, map_append]
  rw [map_prefixNodes _ fun t ht => tidy_frontmatter ht,
    map_prefixNodes _ fun t ht => tidy_preamble ht, List.map_map]
  rfl

/-- Nodes that share an id share their text when ids are given out, or when the texts of all
nodes of id zero are the same. -/
theorem sameTexts_iff :
    SameTexts (documentNodes content config) ↔ (config.ifAddNodeId = true ∨
      ∀ s ∈ unnumberedTexts content, ∀ t ∈ unnumberedTexts content, s = t) := by
  cases hid : config.ifAddNodeId with
  | true =>
    simp only [true_or, iff_true]
    intro a ha b hb hab
    have hnodup := (nodup_ids_iff content config).mpr (.inl hid)
    rw [inj_on_of_nodup_map hnodup ha hb hab]
  | false =>
    have hpairs := @map_id_text_documentNodes content config hid
    have hsame : SameTexts (documentNodes content config) ↔
        ∀ x ∈ (documentNodes content config).map (fun obj => (obj.id, obj.text)),
          ∀ y ∈ (documentNodes content config).map (fun obj => (obj.id, obj.text)),
            x.1 = y.1 → x.2 = y.2 := by
      simp only [SameTexts, List.forall_mem_map]
    rw [hsame, hpairs]
    simp only [Bool.false_eq_true, false_or, unnumberedTexts, mem_append, List.mem_map]
    generalize (extractSkillPrefix content).frontmatter.toList = fm
    generalize hpre : (extractSkillPrefix content).preamble = pre
    constructor
    · intro h s hs t ht
      have hzero : ∀ u, u ∈ fm ∨ (∃ node ∈ sections content, node.text = u) →
          (∃ a ∈ fm, ((0 : ℕ), some a) = (0, some u)) ∨
            (∃ a ∈ pre.toList, (1, some a) = (0, some u)) ∨
              ∃ node ∈ sections content, ((0 : ℕ), some node.text) = (0, some u) := by
        rintro u (hu | ⟨node, hnode, rfl⟩)
        · exact .inl ⟨u, hu, rfl⟩
        · exact .inr (.inr ⟨node, hnode, rfl⟩)
      exact Option.some.inj (h _ (hzero s hs) _ (hzero t ht) rfl)
    · intro h x hx y hy hxy
      rcases hx with ⟨s, hs, rfl⟩ | ⟨s, hs, rfl⟩ | ⟨s, hs, rfl⟩ <;>
        rcases hy with ⟨t, ht, rfl⟩ | ⟨t, ht, rfl⟩ | ⟨t, ht, rfl⟩
      · simp [h s (.inl hs) t (.inl ht)]
      · cases hxy
      · simp [h s (.inl hs) t.text (.inr ⟨t, ht, rfl⟩)]
      · cases hxy
      · rw [mem_toList] at hs ht
        rw [hs] at ht
        exact ht
      · cases hxy
      · simp [h s.text (.inr ⟨s, hs, rfl⟩) t (.inl ht)]
      · cases hxy
      · simp [h s.text (.inr ⟨s, hs, rfl⟩) t.text (.inr ⟨t, ht, rfl⟩)]

end

theorem liveParts_eq_nil_iff {env : Environment} {content source : Text} :
    liveParts env content source = [] ↔ ∀ raw, env.readFile source = some raw →
      (hasFrontmatter raw = true → hasFrontmatter content = true) ∧
        (hasPreamble raw = true → hasPreamble content = true) := by
  have hpart : ∀ (has : Bool) (part : Text → Option Text),
      ((if has then none else (env.readFile source).bind part).toList = [] ↔
        ∀ raw, env.readFile source = some raw → ((part raw).isSome = true → has = true)) := by
    intro has part
    cases has with
    | true => simp
    | false =>
      cases env.readFile source with
      | none => simp
      | some raw => simp
  rw [liveParts, append_eq_nil_iff, hpart, hpart]
  exact forall_and.symm.trans (forall_congr' fun raw => forall_and.symm)

/-- A retrieval of all nodes of a document without headings in its frontmatter returns the
parts of the source, and all its lines, exactly when the document is retrievable. -/
theorem roundTrip_iff {env : Environment} {config : PageIndexConfig} {path docId content : Text}
    {variant : ChunkVariant} {index : SkillsIndex} {specs : List Text} {ids : List ℕ}
    (opts : ReconstructOptions)
    (hbuild : buildIndexForContent env path docId content config variant = .ok index)
    (hplain : PlainFrontmatter content.lines) (hspecs : mergeNodeIdSpecs specs = .ok ids)
    (hcover : ∀ doc, index.documents.get? docId = some doc →
      ∀ obj ∈ structureToList doc.tree, obj.id ∈ ids) :
    RoundTrip env index docId content specs opts ↔
      Retrievable env config path docId content ids := by
  obtain ⟨doc, hdoc⟩ := exists_builtDocument hbuild
  obtain ⟨hnone, hsome⟩ := selectNodes_of_nodeIds hspecs (hcover doc hdoc.document)
  have hmatched : (structureToList doc.tree).map NodeObj.id =
      (documentNodes content config).map NodeObj.id := by
    have hids := congrArg preorder hdoc.ids
    rwa [preorder_map, preorder_map, preorder_buildFlatStructure] at hids
  have hparents : buildParentMap doc.tree = buildParentMap (buildFlatStructure content config) :=
    walkParentMap_congr hdoc.ids none .empty
  have hlines : Text.contentLines (Text.join "\n\n" (partTexts content)) =
      Text.contentLines content ↔ ScansAgree content.lines := by
    rw [Text.contentLines_join, contentLines_partTexts_iff hplain]
  constructor
  · rintro ⟨doc', matched, kept, result, hget, hselect, hparts, -, hmarkdown, hall⟩
    rw [hdoc.document, some.injEq] at hget
    subst hget
    have hselected : ids ≠ [] := by
      intro hids
      obtain ⟨e, herror⟩ := hnone hids
      rw [herror] at hselect
      cases hselect
    rw [hsome hselected, hparents, hmatched] at hselect
    have hunnested : Unnested content config := by
      by_contra hnested
      rw [expandWithAncestors_of_nested hnested] at hselect
      cases hselect
    obtain ⟨kept', hexpand, hkept⟩ := expandWithAncestors_of_unnested hunnested
      ((documentNodes content config).map NodeObj.id)
    rw [hexpand, map_some] at hselect
    cases hselect
    rw [hdoc.assembleParts_eq (by rwa [hmatched]), hdoc.parts_iff] at hparts
    obtain ⟨hlive, hbodies⟩ := hparts
    refine ⟨hselected, hunnested, ?_, ?_, ?_⟩
    · intro source raw hsource hread
      rw [hdoc.path] at hsource
      cases hsource
      exact liveParts_eq_nil_iff.mp hlive raw hread
    · rwa [sameTexts_iff] at hbodies
    · rw [hmarkdown] at hall
      exact hlines.mp hall
  · rintro ⟨hselected, hunnested, hlive, hbodies, hscans⟩
    obtain ⟨kept, hexpand, hkept⟩ := expandWithAncestors_of_unnested hunnested
      ((documentNodes content config).map NodeObj.id)
    have hselect := hsome hselected
    rw [hparents, hmatched, hexpand, map_some] at hselect
    have hparts : assembleParts env index doc
        (if opts.keepAllHeaders then doc.tree else pruneStructure doc.tree kept) kept
          opts.keepAllHeaders none = partTexts content := by
      rw [hdoc.assembleParts_eq (by rwa [hmatched]), hdoc.parts_iff, sameTexts_iff]
      exact ⟨liveParts_eq_nil_iff.mpr fun raw hread => hlive _ raw hdoc.path hread, hbodies⟩
    have hresult : ∃ result,
        reconstructSkillMarkdown env index docId [] specs [] opts = some (.ok result) ∧
          result.markdown = Text.join "\n\n" (partTexts content) := by
      simp only [reconstructSkillMarkdown, hdoc.document, hselect, assembleMarkdown, hparts]
      exact ⟨_, rfl, rfl⟩
    obtain ⟨result, hreconstruct, hmarkdown⟩ := hresult
    refine ⟨doc, _, kept, result, hdoc.document, hselect, hparts, hreconstruct, hmarkdown, ?_⟩
    rw [hmarkdown]
    exact hlines.mpr hscans

theorem mergeNodeIdSpecs_single {spec : Text} {n : ℕ}
    (hparts : ((spec.splitOn ',').map Text.trim).mapM
      (parsePart (fun t => parseNodeIdToken t.trim) (fun t => parseNodeIdToken t.trim)
        parseNodeIdToken
        fun part => "invalid node_id range " ++ quoted part ++ ": start must be <= end") =
      .ok [[n]]) : mergeNodeIdSpecs [spec] = .ok [n] := by
  have hsort : sortDedup [n] = [n] := by
    rw [sortDedup, mergeSort_singleton]
    rfl
  have hparse : parseNodeIds spec = .ok [n] := by
    rw [parseNodeIds, parseSpec, hparts]
    exact congrArg Except.ok hsort
  rw [mergeNodeIdSpecs, mergeSpecs, mapM_cons, hparse]
  exact congrArg Except.ok hsort

theorem mergeNodeIdSpecs_two : mergeNodeIdSpecs ["2".toList] = .ok [2] :=
  mergeNodeIdSpecs_single rfl

theorem exists_headingIndex {content : Text}
    (hnodes : ∃ obj, documentNodes content .default = [obj] ∧ obj.id = 2) :
    ∃ index, buildIndexForContent plainEnvironment "s.md" "s" content .default none =
        .ok index ∧
      ∀ doc, index.documents.get? "s" = some doc →
        ∀ obj ∈ structureToList doc.tree, obj.id ∈ [2] := by
  have hbuild : ∃ index, buildIndexForContent plainEnvironment "s.md" "s" content
      .default none = .ok index := ⟨_, rfl⟩
  obtain ⟨index, hindex⟩ := hbuild
  obtain ⟨built, hbuilt⟩ := exists_builtDocument hindex
  refine ⟨index, hindex, ?_⟩
  intro doc hdoc obj hobj
  rw [hbuilt.document, some.injEq] at hdoc
  subst hdoc
  have hids := congrArg preorder hbuilt.ids
  rw [preorder_map, preorder_map, preorder_buildFlatStructure] at hids
  obtain ⟨only, hnodes, hid⟩ := hnodes
  rw [hnodes, map_singleton, hid] at hids
  rw [← hids]
  exact List.mem_map_of_mem hobj

theorem roundTrip_iff_heading :
    ∃ index, buildIndexForContent plainEnvironment "s.md" "s" "# A" .default none = .ok index ∧
      (RoundTrip plainEnvironment index "s".toList "# A".toList ["2".toList] ⟨false⟩ ↔
        Retrievable plainEnvironment .default "s.md" "s" "# A" [2]) := by
  obtain ⟨index, hindex, hcover⟩ := @exists_headingIndex "# A" ⟨_, rfl, rfl⟩
  refine ⟨index, hindex, roundTrip_iff ⟨false⟩ hindex ?_ mergeNodeIdSpecs_two hcover⟩
  have hrange : frontmatterRange (Text.lines "# A") = none := by decide
  intro r hr
  rw [hrange] at hr
  cases hr

def unclosedFile : Text := "---\nbody\n# A"

/-- An opening delimiter that is never closed: the body before the first heading is lost. -/
theorem body_behind_unclosed_delimiter_lost :
    ¬ ∀ (env : Environment) (config : PageIndexConfig) (path docId content : Text)
      (index : SkillsIndex) (specs : List Text) (ids : List ℕ) (opts : ReconstructOptions),
      buildIndexForContent env path docId content config none = .ok index →
      PlainFrontmatter content.lines → mergeNodeIdSpecs specs = .ok ids → ids ≠ [] →
      (∀ doc, index.documents.get? docId = some doc →
        ∀ obj ∈ structureToList doc.tree, obj.id ∈ ids) →
      RoundTrip env index docId content specs opts := by
  intro h
  obtain ⟨index, hindex, hcover⟩ := @exists_headingIndex unclosedFile ⟨_, rfl, rfl⟩
  have hrange : frontmatterRange unclosedFile.lines = none := by decide
  have hplain : PlainFrontmatter unclosedFile.lines := by
    intro r hr
    rw [hrange] at hr
    cases hr
  obtain ⟨_, _, _, result, -, -, -, -, hmarkdown, hlines⟩ :=
    h plainEnvironment .default _ _ _ index _ [2] ⟨false⟩ hindex hplain mergeNodeIdSpecs_two
      (by simp) hcover
  rw [hmarkdown, Text.contentLines_join, contentLines_partTexts_iff hplain] at hlines
  have hopen : opensFrontmatter unclosedFile.lines = true := by decide
  have hend : ¬ frontmatterEnd unclosedFile.lines
      (prefixStart unclosedFile.lines) < unclosedFile.lines.length := by
    decide
  rcases hlines with hnot | ⟨hclosed, -⟩
  · rw [hopen] at hnot
    cases hnot
  · exact hend hclosed

end ClearYourTools.PageIndex
