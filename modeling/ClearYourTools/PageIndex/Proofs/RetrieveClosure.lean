import Mathlib.Data.List.Dedup
import ClearYourTools.PageIndex.Proofs.FullRetrieve

/-!
# What a retrieval keeps

The matched nodes of a document and all nodes above them: the walk up the parent map follows the
paths of the tree as long as the nodes have ids of their own.
-/

namespace ClearYourTools.PageIndex

open Misc List Option Forest

theorem walkParentMap_node (parent : Option ℕ) (parents : Dict ℕ ℕ) (obj : NodeObj)
    (children rest : Structure) :
    walkParentMap parent parents (.node obj children rest) =
      walkParentMap parent (walkParentMap (some obj.id)
        (parent.elim parents (parents.set obj.id)) children) rest := by
  cases parent <;> rfl

variable {tree : Structure}

theorem get?_walkParentMap_of_notMem {id : ℕ} (h : id ∉ tree.preorder.map NodeObj.id)
    (parent : Option ℕ) (parents : Dict ℕ ℕ) :
    (walkParentMap parent parents tree).get? id = parents.get? id := by
  induction tree generalizing parent parents with
  | nil => rfl
  | node obj children rest ihc ihr =>
    simp only [preorder_node, map_cons, map_append, mem_cons, mem_append, not_or] at h
    rw [walkParentMap_node, ihr h.2.2, ihc h.2.1]
    cases parent with
    | none => rfl
    | some p => exact Dict.get?_set_of_ne _ p h.1

theorem get?_walkParentMap (hnodup : (tree.preorder.map NodeObj.id).Nodup) {path up : List NodeObj}
    {obj : NodeObj} (h : (obj, up) ∈ tree.pathsFrom path) (parents : Dict ℕ ℕ) :
    (walkParentMap (path.head?.map NodeObj.id) parents tree).get? obj.id =
      (up.head?.map NodeObj.id).or (parents.get? obj.id) := by
  induction tree generalizing path parents with
  | nil => cases h
  | node a children rest ihc ihr =>
    rw [preorder_node, map_cons, map_append, nodup_cons, nodup_append, mem_append, not_or] at hnodup
    obtain ⟨ha, hchildren, hrest, hapart⟩ := hnodup
    have hmem : ∀ {f : Structure} {above : List NodeObj}, (obj, up) ∈ f.pathsFrom above →
        obj.id ∈ f.preorder.map NodeObj.id := by
      intro f above hin
      rw [← map_fst_pathsFrom above]
      exact List.mem_map_of_mem (List.mem_map_of_mem hin)
    have hset : ∀ id ≠ a.id, ((path.head?.map NodeObj.id).elim parents (parents.set a.id)).get? id =
        parents.get? id := by
      intro id hne
      cases path with
      | nil => rfl
      | cons p path => exact Dict.get?_set_of_ne _ p.id hne
    rw [walkParentMap_node]
    simp only [pathsFrom, mem_cons, mem_append, Prod.mk.injEq] at h
    rcases h with ⟨rfl, rfl⟩ | h | h
    · rw [get?_walkParentMap_of_notMem ha.2, get?_walkParentMap_of_notMem ha.1]
      cases up with
      | nil => rfl
      | cons p path => exact Dict.get?_set_self _ _ _
    · have hid := hmem h
      have hne : obj.id ≠ a.id := fun heq => ha.1 (heq ▸ hid)
      have hout : obj.id ∉ rest.preorder.map NodeObj.id := fun hr => hapart _ hid _ hr rfl
      rw [get?_walkParentMap_of_notMem hout, ← hset _ hne]
      exact ihc hchildren h _
    · have hid := hmem h
      have hne : obj.id ≠ a.id := fun heq => ha.2 (heq ▸ hid)
      have hout : obj.id ∉ children.preorder.map NodeObj.id := fun hc => hapart _ hc _ hid rfl
      rw [ihr hrest h, get?_walkParentMap_of_notMem hout, hset _ hne]

/-- No node above another one has the id where the walk stops. -/
def NoPreambleAbove (tree : Structure) : Prop :=
  ∀ e ∈ tree.pathsFrom [], ∀ above ∈ e.2, above.id ≠ nodeIdPreamble

variable {ids : List ℕ}

theorem ancestors_eq_path (hnodup : (tree.preorder.map NodeObj.id).Nodup)
    (hstop : NoPreambleAbove tree) {fuel : ℕ} {obj : NodeObj} {up : List NodeObj}
    (hpath : (obj, up) ∈ tree.pathsFrom [])
    (h : ancestors (buildParentMap tree) fuel obj.id = some ids) : ids = up.map NodeObj.id := by
  induction fuel generalizing obj up ids with
  | zero => cases h
  | succ fuel ih =>
    have hget : (buildParentMap tree).get? obj.id = up.head?.map NodeObj.id := by
      have hwalk := get?_walkParentMap hnodup hpath .empty
      rwa [Dict.get?_empty, or_none] at hwalk
    rw [ancestors, hget] at h
    cases up with
    | nil =>
      cases h
      rfl
    | cons above up =>
      have hne := hstop _ hpath above mem_cons_self
      have htail : (above, up) ∈ tree.pathsFrom [] := (path_tail hpath).resolve_right (by simp)
      simp only [head?_cons, map_some, if_neg hne] at h
      obtain ⟨rest, hrest, rfl⟩ := map_eq_some_iff.mp h
      rw [ih htail hrest, map_cons]

variable {kept : List ℕ}

theorem mem_expandWithAncestors {matched : List ℕ} {parents : Dict ℕ ℕ}
    (h : expandWithAncestors matched parents = some kept) (id : ℕ) :
    id ∈ kept ↔ id ∈ matched ∨ ∃ m ∈ matched, ∃ ids,
      ancestors parents (parents.entries.length + 1) m = some ids ∧ id ∈ ids := by
  obtain ⟨above, habove, rfl⟩ := map_eq_some_iff.mp h
  have hall := forall₂_of_mapM habove
  rw [mem_append, mem_flatten]
  constructor
  · rintro (hid | ⟨ids, hids, hid⟩)
    · exact .inl hid
    · obtain ⟨m, hm, hwalk⟩ := mem_of_mapM habove hids
      exact .inr ⟨m, hm, ids, hwalk, hid⟩
  · rintro (hid | ⟨m, hm, ids, hwalk, hid⟩)
    · exact .inl hid
    · obtain ⟨ids', hids', hwalk'⟩ := exists_of_forall₂_left hall hm
      rw [hwalk, some.injEq] at hwalk'
      subst hwalk'
      exact .inr ⟨ids, hids', hid⟩

/-- What a selection asks of a node. -/
def selects (lineNumSpecs nodeIdSpecs chunkIdSpecs : List Text) : Except String (NodeObj → Bool) :=
  if chunkIdSpecs = [] then (parseMatchCriteria lineNumSpecs nodeIdSpecs).map nodeMatches
  else (mergeChunkIdSpecs chunkIdSpecs).map fun chunks obj => nodeHasSelectedChunks obj chunks

/-- The ids that `p` matches in a structure. -/
def matchedIds (p : NodeObj → Bool) (tree : Structure) : List ℕ :=
  ((structureToList tree).filter p).map NodeObj.id

/-- The kept ids are those of the matched nodes and of the nodes above them, and cutting the
structure keeps these nodes: all nodes of the kept ids, in their order. -/
structure KeepsClosure (tree : Structure) (p : NodeObj → Bool) (kept : List ℕ) : Prop where
  ids : ∀ id, id ∈ kept ↔ ∃ obj ∈ tree.closure p, obj.id = id
  nodes : structureToList (pruneStructure tree kept) = tree.closure p
  sublist : structureToList (pruneStructure tree kept) =
    (structureToList tree).filter fun obj => kept.contains obj.id

variable {p : NodeObj → Bool}

theorem KeepsClosure.congr (h : KeepsClosure tree p kept) (hsame : ∀ id, id ∈ ids ↔ id ∈ kept) :
    KeepsClosure tree p ids := by
  have hcontains : ∀ obj : NodeObj, ids.contains obj.id = kept.contains obj.id := by
    intro obj
    rw [Bool.eq_iff_iff, contains_iff_mem, contains_iff_mem, hsame]
  obtain ⟨hids, hnodes, hsublist⟩ := h
  simp only [pruneStructure] at hnodes hsublist
  refine ⟨fun id => (hsame id).trans (hids id), ?_, ?_⟩ <;>
    simp only [pruneStructure, hcontains]
  · exact hnodes
  · exact hsublist

/-- In every index that holds the document, a selection that parses returns these ids. -/
def ReturnsNodeIds (doc : SkillDocument) (lineNumSpecs nodeIdSpecs chunkIdSpecs : List Text)
    (kept : List ℕ) : Prop :=
  ∀ (env : Environment) (index : SkillsIndex) (docId : Text) (opts : ReconstructOptions),
    index.documents.get? docId = some doc →
      ∃ result, reconstructSkillMarkdown env index docId lineNumSpecs nodeIdSpecs chunkIdSpecs
          opts = some (.ok result) ∧
        ∀ id, id ∈ result.nodeIds ↔ id ∈ kept

/-- A selection that parses returns ids, and they are kept so. -/
def RetrievesClosure (doc : SkillDocument) (lineNumSpecs nodeIdSpecs chunkIdSpecs : List Text) :
    Prop :=
  ∀ p, selects lineNumSpecs nodeIdSpecs chunkIdSpecs = .ok p →
    ∃ kept, ReturnsNodeIds doc lineNumSpecs nodeIdSpecs chunkIdSpecs kept ∧
      KeepsClosure doc.tree p kept

def chunkFilterOf (chunkIdSpecs : List Text) : Option (List ℕ) :=
  if chunkIdSpecs = [] then none else (mergeChunkIdSpecs chunkIdSpecs).toOption

variable {lineNumSpecs nodeIdSpecs chunkIdSpecs : List Text}

theorem selectNodes_eq
    (hp : selects lineNumSpecs nodeIdSpecs chunkIdSpecs = .ok p) (doc : SkillDocument) :
    selectNodes doc lineNumSpecs nodeIdSpecs chunkIdSpecs =
      (expandWithAncestors (matchedIds p doc.tree) (buildParentMap doc.tree)).map fun kept =>
        .ok (matchedIds p doc.tree, kept, chunkFilterOf chunkIdSpecs) := by
  unfold selects at hp
  unfold selectNodes chunkFilterOf
  split at hp
  · rename_i hnil
    cases hcriteria : parseMatchCriteria lineNumSpecs nodeIdSpecs with
    | error e =>
      rw [hcriteria] at hp
      cases hp
    | ok criteria =>
      rw [hcriteria] at hp
      cases hp
      simp only [hnil, if_true, collectMatchedNodeIds, hcriteria]
      rfl
  · rename_i hne
    cases hchunks : mergeChunkIdSpecs chunkIdSpecs with
    | error e =>
      rw [hchunks] at hp
      cases hp
    | ok chunks =>
      rw [hchunks] at hp
      cases hp
      simp only [hne, if_false]
      rfl

theorem mem_sortDedup {id : ℕ} : id ∈ sortDedup ids ↔ id ∈ ids := by
  rw [sortDedup, mem_dedup, mem_mergeSort]

theorem returnsNodeIds_iff (hp : selects lineNumSpecs nodeIdSpecs chunkIdSpecs = .ok p)
    (doc : SkillDocument) (kept : List ℕ) :
    ReturnsNodeIds doc lineNumSpecs nodeIdSpecs chunkIdSpecs kept ↔
      ∃ ids, expandWithAncestors (matchedIds p doc.tree) (buildParentMap doc.tree) = some ids ∧
        ∀ id, id ∈ ids ↔ id ∈ kept := by
  have hselect := selectNodes_eq hp doc
  constructor
  · intro h
    obtain ⟨result, hresult, hids⟩ :=
      h plainEnvironment ⟨Dict.empty.set [] doc, .empty, none, none⟩ [] ⟨false⟩
        (Dict.get?_set_self _ _ _)
    cases hexpand : expandWithAncestors (matchedIds p doc.tree) (buildParentMap doc.tree) with
    | none =>
      rw [hexpand, map_none] at hselect
      simp only [reconstructSkillMarkdown, Dict.get?_set_self, hselect] at hresult
      cases hresult
    | some ids =>
      rw [hexpand, map_some] at hselect
      simp only [reconstructSkillMarkdown, Dict.get?_set_self, hselect] at hresult
      cases hresult
      exact ⟨ids, rfl, fun id => mem_sortDedup.symm.trans (hids id)⟩
  · rintro ⟨ids, hexpand, hids⟩ env index docId opts hget
    rw [hexpand, map_some] at hselect
    simp only [reconstructSkillMarkdown, hget, hselect]
    exact ⟨_, rfl, fun id => mem_sortDedup.trans (hids id)⟩

theorem keepsClosure_of_closes (hcloses : tree.Closes (fun obj => decide (obj.id ∈ kept)) p)
    (hin : ∀ id ∈ kept, id ∈ tree.preorder.map NodeObj.id) : KeepsClosure tree p kept := by
  have hcontains : (fun obj : NodeObj => kept.contains obj.id) =
      fun obj => decide (obj.id ∈ kept) := by
    funext obj
    rw [contains_eq_mem]
  have hprune := hcloses.preorder_prune
  have hfilter := hcloses.filter_preorder
  refine ⟨fun id => ?_, ?_, ?_⟩
  · rw [← hfilter]
    constructor
    · intro hid
      obtain ⟨obj, hobj, rfl⟩ := List.mem_map.mp (hin id hid)
      exact ⟨obj, mem_filter.mpr ⟨hobj, decide_eq_true hid⟩, rfl⟩
    · rintro ⟨obj, hobj, rfl⟩
      exact of_decide_eq_true (mem_filter.mp hobj).2
  · rw [structureToList, pruneStructure, hcontains, hprune]
  · rw [structureToList, pruneStructure, structureToList, hcontains, hprune, hfilter]

/-- Where the ids are distinct, a walk that ends keeps the closure. -/
theorem keepsClosure_of_nodup (hnodup : (tree.preorder.map NodeObj.id).Nodup)
    (hstop : NoPreambleAbove tree)
    (h : expandWithAncestors (matchedIds p tree) (buildParentMap tree) = some kept) :
    KeepsClosure tree p kept := by
  have hwith : ∀ id, id ∈ kept ↔ id ∈ (tree.withAncestors p []).map NodeObj.id := by
    intro id
    rw [mem_expandWithAncestors h]
    have hmatched : ∀ m, m ∈ matchedIds p tree ↔ ∃ e ∈ tree.pathsFrom [], p e.1 = true ∧
        e.1.id = m := by
      intro m
      simp only [matchedIds, structureToList, List.mem_map, mem_filter]
      constructor
      · rintro ⟨obj, ⟨hobj, hp⟩, rfl⟩
        obtain ⟨up, hup⟩ := exists_path hobj []
        exact ⟨(obj, up), hup, hp, rfl⟩
      · rintro ⟨e, he, hp, rfl⟩
        refine ⟨e.1, ⟨?_, hp⟩, rfl⟩
        rw [← map_fst_pathsFrom []]
        exact List.mem_map_of_mem he
    constructor
    · rintro (hid | ⟨m, hm, ids, hwalk, hid⟩)
      · obtain ⟨e, he, hp, rfl⟩ := (hmatched id).mp hid
        exact List.mem_map_of_mem (mem_withAncestors.mpr ⟨e, he, hp, .inl rfl⟩)
      · obtain ⟨⟨obj, up⟩, he, hp, rfl⟩ := (hmatched m).mp hm
        rw [ancestors_eq_path hnodup hstop he hwalk] at hid
        obtain ⟨above, habove, rfl⟩ := List.mem_map.mp hid
        exact List.mem_map_of_mem (mem_withAncestors.mpr ⟨_, he, hp, .inr habove⟩)
    · intro hid
      obtain ⟨x, hx, rfl⟩ := List.mem_map.mp hid
      obtain ⟨⟨obj, up⟩, he, hp, hor⟩ := mem_withAncestors.mp hx
      have hm := (hmatched obj.id).mpr ⟨_, he, hp, rfl⟩
      rcases hor with rfl | hup
      · exact .inl hm
      · obtain ⟨above, habove, -⟩ := map_eq_some_iff.mp h
        obtain ⟨ids, -, hwalk⟩ := exists_of_forall₂_left (forall₂_of_mapM habove) hm
        refine .inr ⟨obj.id, hm, ids, hwalk, ?_⟩
        rw [ancestors_eq_path hnodup hstop he hwalk]
        exact List.mem_map_of_mem hup
  refine keepsClosure_of_closes ?_ fun id hid => ?_
  · exact closes_of_withAncestors NodeObj.id hnodup (by simp) fun id _ => hwith id
  · obtain ⟨x, hx, rfl⟩ := List.mem_map.mp ((hwith id).mp hid)
    exact List.mem_map_of_mem ((mem_or_of_mem_withAncestors hx).resolve_right (by simp))

section

variable {env : Environment} {config : PageIndexConfig} {path docId content : Text}
  {variant : ChunkVariant} {index index' : SkillsIndex} {doc : SkillDocument}

theorem map_id_indexed (hfree : index.documents.contains docId = false)
    (hbuild : indexSkillMdContent env path docId content config variant index = .ok index')
    (hdoc : index'.documents.get? docId = some doc) :
    doc.tree.map NodeObj.id = (buildFlatStructure content config).map NodeObj.id := by
  obtain ⟨out, hout, rfl⟩ := exists_output_of_indexed env hfree hbuild
  obtain ⟨sourcePath, flat, writes, -, hattach, hout', -⟩ :=
    documentOutput_ok env config variant hout
  rw [SkillsIndex.addDocument, Dict.get?_set_self, some.injEq] at hdoc
  rw [← hdoc, hout', map_formatStructureForOutput _ fun _ => rfl,
    map_of_attachOutput hattach _ fun _ _ => rfl]

theorem buildFlatStructure_eq (content : Text) (config : PageIndexConfig) :
    buildFlatStructure content config =
      insertPrefix .frontmatter nodeIdFrontmatter (extractSkillPrefix content).frontmatter
        (extractSkillPrefix content).frontmatterLineNum
        (insertPrefix .preamble nodeIdPreamble (extractSkillPrefix content).preamble
          (extractSkillPrefix content).preambleLineNum (headingTree content config)) := by
  simp only [buildFlatStructure, finalizeSkillStructure, formatStructureForOutput, if_true]
  rfl

theorem insertPrefix_eq (kind : NodeKind) (nodeId : ℕ) (text : Option Text)
    (lineNum : Option ℕ) (roots : Structure) :
    insertPrefix kind nodeId text lineNum roots = roots ∨
      ∃ obj, insertPrefix kind nodeId text lineNum roots = .node obj .nil roots := by
  rw [insertPrefix]
  split
  · exact .inr ⟨_, rfl⟩
  · exact .inl rfl

/-- What a leaf in front does not change is the same for the headings alone. -/
theorem buildFlatStructure_congr {β : Type} (f : Structure → β)
    (hleaf : ∀ obj roots, f (.node obj .nil roots) = f roots) (content : Text)
    (config : PageIndexConfig) :
    f (buildFlatStructure content config) = f (headingTree content config) := by
  have hpre : ∀ (kind : NodeKind) (id : ℕ) (text : Option Text) (lineNum : Option ℕ)
      (roots : Structure), f (insertPrefix kind id text lineNum roots) = f roots := by
    intro kind id text lineNum roots
    rcases insertPrefix_eq kind id text lineNum roots with h | ⟨obj, h⟩ <;> rw [h]
    exact hleaf obj roots
  rw [buildFlatStructure_eq, hpre, hpre]

theorem inner_buildFlatStructure (content : Text) (config : PageIndexConfig) :
    (buildFlatStructure content config).inner = (headingTree content config).inner :=
  buildFlatStructure_congr Forest.inner (fun _ _ => rfl) content config

theorem isFlat_buildFlatStructure (content : Text) (config : PageIndexConfig) :
    (buildFlatStructure content config).isFlat = (headingTree content config).isFlat :=
  buildFlatStructure_congr isFlat (fun _ _ => rfl) content config

theorem mem_path_buildFlatStructure {e : NodeObj × List NodeObj}
    (he : e ∈ (buildFlatStructure content config).pathsFrom []) {above : NodeObj}
    (habove : above ∈ e.2) : above ∈ (headingTree content config).preorder := by
  have hleaf : ∀ (obj : NodeObj) (roots : Structure),
      (e ∈ pathsFrom [] (.node obj .nil roots)) = (e ∈ roots.pathsFrom []) := by
    intro obj roots
    refine propext ⟨fun h => ?_, mem_cons_of_mem _⟩
    rcases mem_cons.mp h with rfl | h
    · cases habove
    · exact h
  have hmem : (e.1, e.2) ∈ (headingTree content config).pathsFrom [] :=
    (buildFlatStructure_congr (fun roots => e ∈ roots.pathsFrom []) hleaf content config).mp he
  exact (mem_of_mem_path hmem habove).resolve_right (by simp)

theorem preorder_headingTree (content : Text) (config : PageIndexConfig) :
    (headingTree content config).preorder = headingObjs content config := by
  rw [headingTree, headingObjs]
  split
  · rw [(writeNodeId_spec _ _).1, preorder_buildTreeFromNodes]
  · rw [preorder_buildTreeFromNodes]

theorem id_of_mem_headingTree {obj : NodeObj} (h : obj ∈ (headingTree content config).preorder) :
    obj.id ≠ nodeIdPreamble ∧ (config.ifAddNodeId = false → obj.id = 0) := by
  rw [preorder_headingTree] at h
  have hid := List.mem_map_of_mem (f := NodeObj.id) h
  rw [map_id_headingObjs] at hid
  cases hadd : config.ifAddNodeId with
  | true =>
    rw [hadd, if_pos rfl, mem_range'_1, contentNodeIdStart] at hid
    exact ⟨by rw [nodeIdPreamble]; omega, fun hfalse => by cases hfalse⟩
  | false =>
    rw [hadd, if_neg (by simp), mem_replicate] at hid
    exact ⟨by rw [hid.2, nodeIdPreamble]; omega, fun _ => hid.2⟩

section

variable (hids : doc.tree.map NodeObj.id = (buildFlatStructure content config).map NodeObj.id)
include hids

theorem noPreambleAbove_of_map_id : NoPreambleAbove doc.tree := by
  intro e he above habove
  have hpaths := pathsFrom_map NodeObj.id [] doc.tree
  rw [hids, pathsFrom_map NodeObj.id []] at hpaths
  have hmem := List.mem_map_of_mem (f := Prod.map NodeObj.id (List.map NodeObj.id)) he
  rw [← hpaths] at hmem
  obtain ⟨e', he', heq⟩ := List.mem_map.mp hmem
  have hup : e'.2.map NodeObj.id = e.2.map NodeObj.id := congrArg Prod.snd heq
  have hid := List.mem_map_of_mem (f := NodeObj.id) habove
  rw [← hup] at hid
  obtain ⟨above', habove', hsame⟩ := List.mem_map.mp hid
  rw [← hsame]
  exact (id_of_mem_headingTree (mem_path_buildFlatStructure he' habove')).1

theorem map_id_preorder :
    doc.tree.preorder.map NodeObj.id = (documentNodes content config).map NodeObj.id := by
  have h := congrArg preorder hids
  rwa [preorder_map, preorder_map, preorder_buildFlatStructure] at h

end

theorem keepsClosure_of_ids (hadd : config.ifAddNodeId = true)
    (hids : doc.tree.map NodeObj.id = (buildFlatStructure content config).map NodeObj.id)
    (p : NodeObj → Bool) :
    ∃ kept, expandWithAncestors (matchedIds p doc.tree) (buildParentMap doc.tree) = some kept ∧
      KeepsClosure doc.tree p kept := by
  have hparents : buildParentMap doc.tree = buildParentMap (buildFlatStructure content config) :=
    walkParentMap_congr hids none .empty
  obtain ⟨kept, hexpand, -⟩ :=
    expandWithAncestors_of_unnested (.inl hadd) (matchedIds p doc.tree)
  rw [← hparents] at hexpand
  have hnodup : (doc.tree.preorder.map NodeObj.id).Nodup := by
    rw [map_id_preorder hids, nodup_ids_iff]
    exact .inl hadd
  exact ⟨kept, hexpand, keepsClosure_of_nodup hnodup (noPreambleAbove_of_map_id hids) hexpand⟩

theorem eq_of_count_map_le_one {α : Type} {f : α → ℕ} {xs : List α} {y : ℕ}
    (h : (xs.map f).count y ≤ 1) {a b : α} (ha : a ∈ xs) (hb : b ∈ xs) (hfa : f a = y)
    (hfb : f b = y) : a = b := by
  have hlength : (xs.filter fun x => f x == y).length ≤ 1 := by
    rwa [← countP_eq_length_filter, ← Function.comp_def (· == y) f, ← countP_map]
  have hina : a ∈ xs.filter fun x => f x == y := mem_filter.mpr ⟨ha, by simpa using hfa⟩
  have hinb : b ∈ xs.filter fun x => f x == y := mem_filter.mpr ⟨hb, by simpa using hfb⟩
  rcases hfilter : xs.filter fun x => f x == y with _ | ⟨c, _ | ⟨d, rest⟩⟩
  · rw [hfilter] at hina
    cases hina
  · rw [hfilter, mem_singleton] at hina hinb
    rw [hina, hinb]
  · rw [hfilter] at hlength
    simp at hlength

theorem expandWithAncestors_of_roots {matched : List ℕ} {parents : Dict ℕ ℕ}
    (h : ∀ id ∈ matched, parents.get? id = none) :
    expandWithAncestors matched parents = some matched := by
  have hall : matched.mapM (ancestors parents (parents.entries.length + 1)) =
      some (matched.map fun _ => []) := by
    rw [mapM_eq_some_map_iff]
    intro id hid
    rw [ancestors, h id hid]
  rw [expandWithAncestors, hall, map_some, some.injEq]
  simp

/-- What a document without node ids has: the headings share the id of the frontmatter. -/
structure Unnumbered (content : Text) (tree : Structure) : Prop where
  ids : ∀ obj ∈ tree.preorder, obj.id = 0 ∨ obj.id = nodeIdPreamble
  preamble : ∀ a ∈ tree.preorder, ∀ b ∈ tree.preorder, a.id = nodeIdPreamble →
    b.id = nodeIdPreamble → a = b
  inner : ∀ obj ∈ tree.inner, obj.id = 0
  root : (buildParentMap tree).get? nodeIdPreamble = none
  flat : tree.isFlat = true → (buildParentMap tree).get? 0 = none
  nested : tree.isFlat = false → (buildParentMap tree).get? 0 = some 0
  levels : tree.isFlat = true ↔ ((sections content).map ContentNode.level).IsChain fun a b => b ≤ a

theorem unnumbered_of_map_id (hadd : config.ifAddNodeId = false)
    (hids : doc.tree.map NodeObj.id = (buildFlatStructure content config).map NodeObj.id) :
    Unnumbered content doc.tree := by
  have hpreorder := map_id_preorder hids
  have hparents : buildParentMap doc.tree = walkParentMap none .empty (headingTree content config) :=
    (walkParentMap_congr hids none .empty).trans (buildParentMap_buildFlatStructure content config)
  have hflat : doc.tree.isFlat = (headingTree content config).isFlat := by
    have hmap := congrArg isFlat hids
    rwa [isFlat_map, isFlat_map, isFlat_buildFlatStructure] at hmap
  have hzero : AllZero (headingTree content config) := fun obj hobj =>
    (id_of_mem_headingTree hobj).2 hadd
  rw [map_id_documentNodes, hadd, if_neg (by simp)] at hpreorder
  refine ⟨?_, ?_, ?_, ?_, ?_, ?_, ?_⟩
  · intro obj hobj
    have hid := List.mem_map_of_mem (f := NodeObj.id) hobj
    rw [hpreorder] at hid
    simp only [mem_append, List.mem_map, mem_replicate] at hid
    rcases hid with ⟨-, -, hid⟩ | ⟨-, -, hid⟩ | ⟨-, hid⟩
    · exact .inl hid.symm
    · exact .inr hid.symm
    · exact .inl hid
  · intro a ha b hb haid hbid
    refine eq_of_count_map_le_one ?_ ha hb haid hbid
    rw [hpreorder]
    cases (extractSkillPrefix content).frontmatter <;>
      cases (extractSkillPrefix content).preamble <;>
        simp [count_replicate, nodeIdFrontmatter, nodeIdPreamble]
  · intro obj hobj
    have hmap := inner_map NodeObj.id doc.tree
    rw [hids, inner_map, inner_buildFlatStructure] at hmap
    have hid := List.mem_map_of_mem (f := NodeObj.id) hobj
    rw [← hmap] at hid
    obtain ⟨heading, hheading, hsame⟩ := List.mem_map.mp hid
    rw [← hsame]
    exact hzero heading (mem_preorder_of_mem_inner hheading)
  · rw [hparents, get?_walkParentMap_of_notMem]
    · exact Dict.get?_empty
    · intro hmem
      obtain ⟨obj, hobj, hid⟩ := List.mem_map.mp hmem
      exact (id_of_mem_headingTree hobj).1 hid
  · intro hf
    rw [hflat] at hf
    rw [hparents, walkParentMap_of_isFlat hf]
    exact Dict.get?_empty
  · intro hf
    rw [hflat] at hf
    rw [hparents]
    exact get?_walkParentMap_none hzero (.inl hf)
  · rw [hflat, headingTree, if_neg (by simp [hadd]), isFlat_buildTreeFromNodes]

/-- Without node ids a selection keeps the closure when it matches no heading and no
frontmatter, or when it matches them all and they do not nest. -/
theorem Unnumbered.keepsClosure_iff {tree : Structure} (h : Unnumbered content tree)
    (p : NodeObj → Bool) :
    (∃ kept, expandWithAncestors (matchedIds p tree) (buildParentMap tree) = some kept ∧
      KeepsClosure tree p kept) ↔
      (∀ obj ∈ structureToList tree, p obj = true → obj.id ≠ 0) ∨
        tree.isFlat = true ∧ ∀ obj ∈ structureToList tree, obj.id = 0 → p obj = true := by
  have hmatched : ∀ id, id ∈ matchedIds p tree ↔
      ∃ obj ∈ tree.preorder, p obj = true ∧ obj.id = id := by
    intro id
    simp only [matchedIds, structureToList, List.mem_map, mem_filter, and_assoc]
  have hin : ∀ id ∈ matchedIds p tree, id ∈ tree.preorder.map NodeObj.id := by
    intro id hid
    obtain ⟨obj, hobj, -, rfl⟩ := (hmatched id).mp hid
    exact List.mem_map_of_mem hobj
  -- only the preamble has its id, so its id says whether it is matched
  have hsame : (∀ obj ∈ tree.preorder, obj.id = 0 → (0 ∈ matchedIds p tree ↔ p obj = true)) →
      ∀ obj ∈ tree.preorder, decide (obj.id ∈ matchedIds p tree) = p obj := by
    intro hzero obj hobj
    rw [Bool.eq_iff_iff, decide_eq_true_eq]
    rcases h.ids obj hobj with hid | hid
    · rw [hid]
      exact hzero obj hobj hid
    · rw [hid, hmatched]
      constructor
      · rintro ⟨other, hother, hp, hotherId⟩
        rwa [h.preamble obj hobj other hother hid hotherId]
      · exact fun hp => ⟨obj, hobj, hp, hid⟩
  constructor
  · rintro ⟨kept, hexpand, hkeeps⟩
    by_cases hnone : ∀ obj ∈ structureToList tree, p obj = true → obj.id ≠ 0
    · exact .inl hnone
    right
    obtain ⟨obj, hobj, hp, hid⟩ : ∃ obj ∈ tree.preorder, p obj = true ∧ obj.id = 0 := by
      simpa [structureToList] using hnone
    have hmem : 0 ∈ matchedIds p tree := (hmatched 0).mpr ⟨obj, hobj, hp, hid⟩
    have hflat : tree.isFlat = true := by
      by_contra hnested
      rw [expandWithAncestors_zero (h.nested (by simpa using hnested)) hmem] at hexpand
      cases hexpand
    refine ⟨hflat, fun other hother hotherId => ?_⟩
    have hkept : other.id ∈ kept := (mem_expandWithAncestors hexpand _).mpr (.inl (hotherId ▸ hmem))
    have hclosed : other ∈ tree.closure p := by
      rw [← hkeeps.nodes, hkeeps.sublist, mem_filter]
      exact ⟨hother, by simpa using hkept⟩
    exact of_mem_closure hflat hclosed
  · rintro (hnone | ⟨hflat, hall⟩)
    · refine ⟨_, expandWithAncestors_of_roots fun id hid => ?_, keepsClosure_of_closes ?_ hin⟩
      · obtain ⟨obj, hobj, hp, rfl⟩ := (hmatched id).mp hid
        rw [(h.ids obj hobj).resolve_left (hnone obj hobj hp)]
        exact h.root
      · have hfalse : ∀ obj ∈ tree.preorder, obj.id = 0 → p obj = false := fun obj hobj hid =>
          Bool.eq_false_iff.mpr fun hp => hnone obj hobj hp hid
        refine closes_of_inner (hsame fun obj hobj hid => ?_) fun obj hobj =>
          hfalse obj (mem_preorder_of_mem_inner hobj) (h.inner obj hobj)
        rw [hfalse obj hobj hid, hmatched]
        constructor
        · rintro ⟨other, hother, hp, hotherId⟩
          exact absurd hotherId (hnone other hother hp)
        · intro hp
          cases hp
    · refine ⟨_, expandWithAncestors_of_roots fun id hid => ?_, keepsClosure_of_closes ?_ hin⟩
      · obtain ⟨obj, hobj, -, rfl⟩ := (hmatched id).mp hid
        rcases h.ids obj hobj with hid | hid <;> rw [hid]
        · exact h.flat hflat
        · exact h.root
      · refine closes_of_inner (hsame fun obj hobj hid => ?_) ?_
        · exact ⟨fun _ => hall obj hobj hid, fun hp => (hmatched 0).mpr ⟨obj, hobj, hp, hid⟩⟩
        · rw [inner_of_isFlat hflat]
          simp

/-- A retrieval from a document of an index keeps the closure of what it matches exactly when
the document has node ids, or the selection matches no heading and no frontmatter, or all of
them and they do not nest. -/
theorem retrievesClosure_iff (hfree : index.documents.contains docId = false)
    (hbuild : indexSkillMdContent env path docId content config variant index = .ok index')
    (hdoc : index'.documents.get? docId = some doc)
    (lineNumSpecs nodeIdSpecs chunkIdSpecs : List Text) :
    RetrievesClosure doc lineNumSpecs nodeIdSpecs chunkIdSpecs ↔
      config.ifAddNodeId = true ∨
        ∀ p, selects lineNumSpecs nodeIdSpecs chunkIdSpecs = .ok p →
          (∀ obj ∈ structureToList doc.tree, p obj = true → obj.id ≠ 0) ∨
            (((sections content).map ContentNode.level).IsChain fun a b => b ≤ a) ∧
              ∀ obj ∈ structureToList doc.tree, obj.id = 0 → p obj = true := by
  have hids := map_id_indexed hfree hbuild hdoc
  cases hadd : config.ifAddNodeId with
  | true =>
    refine iff_of_true (fun p hp => ?_) (.inl rfl)
    obtain ⟨kept, hexpand, hkeeps⟩ := keepsClosure_of_ids hadd hids p
    exact ⟨kept, (returnsNodeIds_iff hp doc kept).mpr ⟨kept, hexpand, fun _ => Iff.rfl⟩, hkeeps⟩
  | false =>
    have hbare := unnumbered_of_map_id hadd hids
    simp only [Bool.false_eq_true, false_or]
    refine forall_congr' fun p => forall_congr' fun hp => ?_
    rw [← hbare.levels, ← hbare.keepsClosure_iff p]
    constructor
    · rintro ⟨kept, hreturns, hkeeps⟩
      obtain ⟨ids, hexpand, hsame⟩ := (returnsNodeIds_iff hp doc kept).mp hreturns
      exact ⟨ids, hexpand, hkeeps.congr hsame⟩
    · rintro ⟨kept, hexpand, hkeeps⟩
      exact ⟨kept, (returnsNodeIds_iff hp doc kept).mpr ⟨kept, hexpand, fun _ => Iff.rfl⟩, hkeeps⟩

end

theorem retrievesClosure_iff_heading :
    ∃ index doc, indexSkillMdContent plainEnvironment "s.md" "s" "# A"
        .default none .default = .ok index ∧ index.documents.get? "s" = some doc ∧
      (RetrievesClosure doc [] ["2".toList] [] ↔
        PageIndexConfig.default.ifAddNodeId = true ∨
          ∀ p, selects [] ["2".toList] [] = .ok p →
            (∀ obj ∈ structureToList doc.tree, p obj = true → obj.id ≠ 0) ∨
              (((sections "# A").map ContentNode.level).IsChain fun a b => b ≤ a) ∧
                ∀ obj ∈ structureToList doc.tree, obj.id = 0 → p obj = true) := by
  obtain ⟨index, hindex⟩ : ∃ index, indexSkillMdContent plainEnvironment "s.md"
      "s" "# A" .default none .default = .ok index := ⟨_, rfl⟩
  obtain ⟨doc, hdoc⟩ := exists_builtDocument hindex
  exact ⟨index, doc, hindex, hdoc.document,
    retrievesClosure_iff rfl hindex hdoc.document [] ["2".toList] []⟩

/-- A heading below another one, and no node ids. -/
def nestedFile : Text := "# A\n## B"

def unnumberedConfig : PageIndexConfig := { PageIndexConfig.default with ifAddNodeId := false }

/-- The walk up from the common id of nested headings comes back to it. -/
theorem nested_headings_without_ids_loop :
    ¬ ∀ (env : Environment) (config : PageIndexConfig) (path docId content : Text)
      (variant : ChunkVariant) (index index' : SkillsIndex) (doc : SkillDocument)
      (lineNumSpecs nodeIdSpecs chunkIdSpecs : List Text),
      index.documents.contains docId = false →
      indexSkillMdContent env path docId content config variant index = .ok index' →
      index'.documents.get? docId = some doc →
      RetrievesClosure doc lineNumSpecs nodeIdSpecs chunkIdSpecs := by
  intro h
  obtain ⟨index, hindex⟩ : ∃ index, indexSkillMdContent plainEnvironment "s.md"
      "s" nestedFile unnumberedConfig none .default = .ok index := ⟨_, rfl⟩
  obtain ⟨doc, hdoc⟩ := exists_builtDocument hindex
  have hselects : selects [] ["0".toList] [] = .ok (nodeMatches ⟨[], [0]⟩) := by
    rw [selects, if_pos rfl, parseMatchCriteria, mergeLineNumSpecs_nil,
      @mergeNodeIdSpecs_single "0" 0 rfl]
    rfl
  obtain ⟨kept, hreturns, -⟩ := h plainEnvironment unnumberedConfig _ _ _ none .default index doc
    [] ["0".toList] [] rfl hindex hdoc.document _ hselects
  obtain ⟨ids, hexpand, -⟩ := (returnsNodeIds_iff hselects doc kept).mp hreturns
  have hbare := unnumbered_of_map_id rfl hdoc.ids
  have hnested : doc.tree.isFlat = false := by
    rw [Bool.eq_false_iff, Ne, hbare.levels]
    decide
  have hzero : 0 ∈ matchedIds (nodeMatches ⟨[], [0]⟩) doc.tree := by
    have hpreorder := map_id_preorder hdoc.ids
    have hmem : 0 ∈ doc.tree.preorder.map NodeObj.id := by
      rw [hpreorder]
      decide
    obtain ⟨obj, hobj, hid⟩ := List.mem_map.mp hmem
    refine List.mem_map.mpr ⟨obj, mem_filter.mpr ⟨hobj, ?_⟩, hid⟩
    simp [nodeMatches, hid]
  rw [expandWithAncestors_zero (hbare.nested hnested) hzero] at hexpand
  cases hexpand

end ClearYourTools.PageIndex
