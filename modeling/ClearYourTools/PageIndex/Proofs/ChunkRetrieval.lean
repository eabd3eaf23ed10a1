import Mathlib.Data.List.SplitBy
import ClearYourTools.PageIndex.Proofs.Isolation

/-!
# Retrieval through chunks

Each chunk of a node goes into a file behind a frontmatter of its own, and the retrieval
strips these and joins the bodies. The stripper trims the start of every body.
-/

namespace ClearYourTools.PageIndex

open Misc List
open Text (ofNat afterFirst trimStart)
open Option (map_some getD_some)
open List (range')
open Prod (fst)

/-- The end of a frontmatter, as the stripper searches for it. -/
def closingDelimiter : Text := ['\n', '-', '-', '-']

/-- A document id without a line that would close the frontmatter. -/
def CleanDocId (docId : Text) : Prop := ¬ closingDelimiter <:+: docId

/-- A field name of the frontmatter. -/
def PlainKey (key : String) : Prop :=
  '\n' ∉ key.toList ∧ key.toList ≠ [] ∧ key.toList.head? ≠ some '-'

theorem plainKey_fields : ∀ key ∈ ["node_id", "chunk_id", "line_num", "token_count"],
    PlainKey key := by
  unfold PlainKey
  decide

theorem closingDelimiter_eq : "\n---" = closingDelimiter := by decide

theorem afterFirst_field {key : String} (hkey : PlainKey key) (n : ℕ) (t : Text) :
    afterFirst closingDelimiter ('\n' :: key.toList ++ ": " ++ ofNat n ++ t) =
      afterFirst closingDelimiter t := by
  obtain ⟨hnl, hne, hdash⟩ := hkey
  have hpiece : '\n' ∉ key.toList ++ ": ".toList ++ ofNat n := by
    have hsep : '\n' ∉ ": ".toList := by decide
    simp only [mem_append, hnl, hsep, Text.newline_notMem_ofNat, or_self, not_false_eq_true]
  generalize hk : key.toList = k at *
  cases k with
  | nil => exact absurd rfl hne
  | cons c k =>
    have hc : c ≠ '-' := by simpa using hdash
    have hnot : closingDelimiter.isPrefixOf ('\n' :: (c :: k ++ ": " ++ ofNat n ++ t)) = false := by
      simp [closingDelimiter, List.isPrefixOf, hc.symm]
    have hcons : '\n' :: (c :: k) ++ ": " ++ ofNat n ++ t =
        '\n' :: (c :: k ++ ": " ++ ofNat n ++ t) := rfl
    rw [hcons, afterFirst, hnot, if_neg (by simp)]
    exact Text.afterFirst_append_of_notMem hpiece t

theorem afterFirst_fields {fields : List (String × ℕ)} (h : ∀ f ∈ fields, PlainKey f.1) (t : Text) :
    afterFirst closingDelimiter
        ((fields.flatMap fun f => '\n' :: f.1.toList ++ ": ".toList ++ ofNat f.2) ++ t) =
      afterFirst closingDelimiter t := by
  induction fields with
  | nil => rfl
  | cons f rest ih =>
    rw [flatMap_cons, List.append_assoc, afterFirst_field (h f mem_cons_self),
      ih fun g hg => h g (mem_cons_of_mem _ hg)]

theorem exists_newline_fields (fields : List (String × ℕ)) (t : Text) :
    ∃ r, (fields.flatMap fun f => '\n' :: f.1.toList ++ ": ".toList ++ ofNat f.2) ++
      '\n' :: t = '\n' :: r := by
  cases fields with
  | nil => exact ⟨t, rfl⟩
  | cons f rest => exact ⟨_, rfl⟩

theorem stripDecomposedFrontmatter_eq (docId : Text) (fields : List (String × ℕ)) (body : Text) :
    stripDecomposedFrontmatter (decomposedMd docId fields body) =
      ((afterFirst closingDelimiter (docId ++
        ((fields.flatMap fun f => '\n' :: f.1.toList ++ ": ".toList ++ ofNat f.2) ++
          (closingDelimiter ++ '\n' :: body)))).map trimStart).getD
            (decomposedMd docId fields body) := by
  have hopen : "---\ndoc_id: " = ['-', '-', '-'] ++ '\n' :: "doc_id: " := by decide
  have hclose : "\n---\n" = closingDelimiter ++ ['\n'] := by decide
  have hdashes : "---" = ['-', '-', '-'] := by decide
  have hname : '\n' ∉ "doc_id: ".toList := by decide
  have hmd : decomposedMd docId fields body = ['-', '-', '-'] ++ '\n' :: ("doc_id: ".toList ++
      (docId ++ ((fields.flatMap fun f => '\n' :: f.1.toList ++ ": ".toList ++ ofNat f.2) ++
        (closingDelimiter ++ '\n' :: body)))) := by
    unfold decomposedMd
    rw [hopen, hclose]
    simp only [List.append_assoc, List.cons_append, nil_append]
  generalize docId ++ ((fields.flatMap fun f => '\n' :: f.1.toList ++ ": ".toList ++
    ofNat f.2) ++ (closingDelimiter ++ '\n' :: body)) = rest at hmd ⊢
  have hstart : Text.startsWith ['-', '-', '-'] (decomposedMd docId fields body) = true := by
    rw [hmd]
    rfl
  have hdrop : (decomposedMd docId fields body).drop 3 = '\n' :: ("doc_id: " ++ rest) := by
    rw [hmd]
    rfl
  have hnot : closingDelimiter.isPrefixOf ('\n' :: ("doc_id: " ++ rest)) = false := by
    have hd : "doc_id: " = 'd' :: "oc_id: " := by decide
    rw [hd]
    rfl
  rw [stripDecomposedFrontmatter, closingDelimiter_eq, hdashes, hstart, if_pos rfl, hdrop,
    afterFirst, hnot, if_neg (by simp)]
  unfold closingDelimiter
  rw [Text.afterFirst_append_of_notMem hname]
  cases afterFirst ['\n', '-', '-', '-'] rest <;> rfl

theorem strip_decomposedMd {docId : Text} (hclean : CleanDocId docId)
    {fields : List (String × ℕ)} (hfields : ∀ f ∈ fields, PlainKey f.1) (body : Text) :
    stripDecomposedFrontmatter (decomposedMd docId fields body) = body.trimStart := by
  have hafter : afterFirst closingDelimiter (docId ++
      ((fields.flatMap fun f => '\n' :: f.1.toList ++ ": ".toList ++ ofNat f.2) ++
        (closingDelimiter ++ '\n' :: body))) = some ('\n' :: body) := by
    obtain ⟨r, hr⟩ := exists_newline_fields fields ('-' :: '-' :: '-' :: '\n' :: body)
    have hfound := afterFirst_fields hfields (closingDelimiter ++ '\n' :: body)
    rw [Text.afterFirst_self (by simp [closingDelimiter])] at hfound
    have hsame : closingDelimiter ++ '\n' :: body = '\n' :: '-' :: '-' :: '-' :: '\n' :: body := rfl
    rw [hsame, hr] at hfound ⊢
    rw [← hfound]
    exact Text.afterFirst_append_of_not_infix (by decide) hclean r
  rw [stripDecomposedFrontmatter_eq, hafter, map_some, getD_some, trimStart,
    dropWhile_cons_of_pos (by decide)]
  rfl

theorem length_strip_decomposedMd {docId : Text} (hdirty : ¬ CleanDocId docId)
    (fields : List (String × ℕ)) (body : Text) :
    body.length < (stripDecomposedFrontmatter (decomposedMd docId fields body)).length := by
  have hin : closingDelimiter <:+: docId := not_not.mp hdirty
  generalize hrest : (fields.flatMap fun f => '\n' :: f.1.toList ++ ": ".toList ++
    ofNat f.2) ++ (closingDelimiter ++ '\n' :: body) = rest
  obtain ⟨y, hy⟩ := Text.afterFirst_append_of_infix (by simp [closingDelimiter]) hin rest
  rw [stripDecomposedFrontmatter_eq, hrest, hy]
  -- the last dash of the real delimiter is kept
  have hsplit : ∃ x, y ++ rest = x ++ '-' :: '\n' :: body := by
    refine ⟨y ++ (fields.flatMap fun f => '\n' :: f.1.toList ++ ": ".toList ++
      ofNat f.2) ++ ['\n', '-', '-'], ?_⟩
    rw [← hrest]
    simp only [closingDelimiter, List.append_assoc, List.cons_append, nil_append]
  obtain ⟨x, hx⟩ := hsplit
  obtain ⟨z, hz⟩ := Text.trimStart_append_cons x (c := '-') (by decide) ('\n' :: body)
  rw [hx, map_some, getD_some, hz]
  simp only [length_append, length_cons]
  omega

open Misc Bm25Cohesion

/-- The node's body, retrieved with all of its chunk ids and no others, is `text`. -/
def Restores (index : SkillsIndex) (obj : NodeObj) (text : Text) : Prop :=
  obj.chunks.getD [] ≠ [] ∧ resolveNodeBodyChunkAware index obj obj.chunks = text

/-- Every node of the indexed document gives the text of the node back. -/
def ChunksRestore (index : SkillsIndex) (docId content : Text) (config : PageIndexConfig) : Prop :=
  ∃ doc, index.documents.get? docId = some doc ∧
    List.Forall₂ (fun obj node => Restores index obj (node.text.getD []))
      (structureToList doc.tree) (structureToList (buildFlatStructure content config))

/-- The chunks of the text cover it, and none of them starts with a blank. -/
structure RestorableText (ext : Externals) (chunker : Bm25CohesionChunker) (text : Text) :
    Prop where
  ends : EndsKept ext chunker text
  starts : ∀ chunk ∈ chunker.chunk ext text, ∀ c ∈ chunk.text.head?, isWhitespace c = false

theorem length_flatten_trimStart (ts : List Text) :
    (ts.map trimStart).flatten.length ≤ ts.flatten.length ∧
      (ts.flatten.length ≤ (ts.map trimStart).flatten.length → ∀ t ∈ ts, t.trimStart = t) := by
  induction ts with
  | nil => simp
  | cons t rest ih =>
    have ht := Text.length_trimStart_le t
    simp only [map_cons, flatten_cons, length_append, forall_mem_cons]
    refine ⟨by omega, ?_⟩
    intro hle
    exact ⟨Text.trimStart_eq_self_of_length (by omega), ih.2 (by omega)⟩

theorem isSlice_of_length_le {text s : Text} {start stop : ℕ} (h : IsSlice text start stop s)
    (hlen : text.length ≤ s.length) : s = text ∧ start = 0 ∧ stop = utf8Len text := by
  obtain ⟨before, after, rfl, rfl, rfl⟩ := h
  simp only [length_append] at hlen
  obtain rfl : before = [] := length_eq_zero_iff.mp (by omega)
  obtain rfl : after = [] := length_eq_zero_iff.mp (by omega)
  simp

section

variable {ext : Externals} (chunker : Bm25CohesionChunker)

theorem length_chunks_le (hext : ext.crate.Lawful) {t : Text} (ht : t.trim ≠ []) :
    ((chunker.chunk ext t).map CohesionChunk.text).flatten.length ≤ t.length ∧
      (t.length ≤ ((chunker.chunk ext t).map CohesionChunk.text).flatten.length ↔
        EndsKept ext chunker t) ∧
      (EndsKept ext chunker t → ((chunker.chunk ext t).map CohesionChunk.text).flatten = t) := by
  obtain ⟨start, stop, htiles, hne, hends⟩ := exists_tiles_chunk chunker hext ht
  have hslice := htiles.joined hne
  generalize ((chunker.chunk ext t).map CohesionChunk.text).flatten = joined at hslice ⊢
  have hall : EndsKept ext chunker t → joined = t := by
    intro hkept
    obtain ⟨rfl, rfl⟩ := hends.mpr hkept
    exact eq_of_isSlice_self hslice
  refine ⟨?_, ⟨?_, ?_⟩, hall⟩
  · obtain ⟨before, after, rfl, -, -⟩ := hslice
    simp only [length_append]
    omega
  · intro hle
    exact hends.mp (isSlice_of_length_le hslice hle).2
  · intro hkept
    rw [hall hkept]

theorem flatten_trimStart_chunks_iff (hext : ext.crate.Lawful) {t : Text} (ht : t.trim ≠ []) :
    (((chunker.chunk ext t).map CohesionChunk.text).map trimStart).flatten = t ↔
      RestorableText ext chunker t := by
  obtain ⟨hle, hkept, hjoined⟩ := length_chunks_le chunker hext ht
  obtain ⟨htrim, hsame⟩ :=
    length_flatten_trimStart ((chunker.chunk ext t).map CohesionChunk.text)
  constructor
  · intro h
    rw [h] at htrim hsame
    refine ⟨hkept.mp htrim, ?_⟩
    intro chunk hchunk c hc
    have hself := hsame hle chunk.text (mem_map_of_mem hchunk)
    rw [← hself] at hc
    exact Text.head?_trimStart chunk.text c hc
  · rintro ⟨hends, hstarts⟩
    have hid : ((chunker.chunk ext t).map CohesionChunk.text).map trimStart =
        (chunker.chunk ext t).map CohesionChunk.text := by
      rw [List.map_map, map_inj_left]
      intro chunk hchunk
      exact Text.trimStart_eq_self (hstarts chunk hchunk)
    rw [hid, hjoined hends]

end

section

variable (env : Environment) (chunker : Bm25CohesionChunker)

/-- The number of chunks of a node's text. -/
def chunksOfNode (obj : NodeObj) : ℕ := (nodeChunks env chunker (obj.text.getD [])).length

/-- The nodes with the references of their chunks, numbered from `start` on. -/
def withChunks : ℕ → List NodeObj → List NodeObj
  | _, [] => []
  | start, obj :: rest =>
    { obj with chunks := some (List.range' start (chunksOfNode env chunker obj)) } ::
      withChunks (start + chunksOfNode env chunker obj) rest

variable {start : ℕ}
variable {tree : Structure}

theorem attachTree_cons {obj : NodeObj} {rest : List NodeObj} (h : (obj.text.getD []).trim ≠ []) :
    attachTree env chunker start tree (obj :: rest) =
      attachTree env chunker (start + chunksOfNode env chunker obj)
        (insertChunksOnNode tree obj.id (range' start (chunksOfNode env chunker obj))).1 rest := by
  rw [attachTree, if_neg h]
  rfl

/-- Where ids are distinct, every node gets the references of its own chunks. -/
theorem preorder_attachTree {done rest : List NodeObj}
    (htree : tree.preorder = done ++ rest) (hids : ((done ++ rest).map NodeObj.id).Nodup)
    (hcontent : ∀ obj ∈ rest, (obj.text.getD []).trim ≠ []) :
    (attachTree env chunker start tree rest).preorder =
      done ++ withChunks env chunker start rest := by
  induction rest generalizing start tree done with
  | nil => rw [attachTree, htree, withChunks]
  | cons obj rest ih =>
    have hnew : ∀ other ∈ done, other.id ≠ obj.id := by
      rw [map_append, nodup_append] at hids
      intro other hother
      exact hids.2.2 _ (mem_map_of_mem hother) _ (mem_map_of_mem mem_cons_self)
    have hnone : done.any (fun other => other.id == obj.id) = false := by
      rw [any_eq_false]
      intro other hother
      simpa using hnew other hother
    rw [attachTree_cons env chunker (hcontent obj mem_cons_self), withChunks]
    have hinsert : (insertChunksOnNode tree obj.id
        (range' start (chunksOfNode env chunker obj))).1.preorder =
          (done ++ [{ obj with
            chunks := some (range' start (chunksOfNode env chunker obj)) }]) ++ rest := by
      rw [insertChunksOnNode, (Forest.updateFirst_spec _ _ tree).1, htree,
        Forest.updateFirstIn_append, hnone, if_neg (by simp), Forest.updateFirstIn,
        if_pos (by simp), List.append_assoc, singleton_append]
    rw [ih hinsert ?_ fun other hother => hcontent other (mem_cons_of_mem _ hother)]
    · rw [List.append_assoc, singleton_append]
    · rw [List.append_assoc, map_append]
      rw [map_append] at hids
      exact hids

/-- A node behind another one of its id never gets references. -/
theorem mem_attachTree_of_repeated {nodes : List NodeObj}
    {before after : List NodeObj} {obj : NodeObj} (htree : tree.preorder = before ++ obj :: after)
    (hid : obj.id ∈ before.map NodeObj.id) :
    obj ∈ (attachTree env chunker start tree nodes).preorder := by
  induction nodes generalizing start tree before after with
  | nil =>
    rw [attachTree, htree]
    simp
  | cons node rest ih =>
    rw [attachTree]
    split
    · exact ih htree hid
    simp only
    generalize range' start _ = refs
    have hinsert : (insertChunksOnNode tree node.id refs).1.preorder =
        Forest.updateFirstIn (fun other => other.id == node.id)
          (fun other => { other with chunks := some refs }) (before ++ obj :: after) := by
      rw [insertChunksOnNode, (Forest.updateFirst_spec _ _ tree).1, htree]
    rw [Forest.updateFirstIn_append] at hinsert
    split at hinsert
    · -- an earlier node takes the references
      refine ih hinsert ?_
      have hsame : ∀ other : NodeObj,
          NodeObj.id { other with chunks := some refs } = other.id := fun _ => rfl
      rwa [Forest.map_updateFirstIn NodeObj.id hsame]
    · rename_i hnone
      have hother : (obj.id == node.id) = false := by
        obtain ⟨earlier, hearlier, heq⟩ := mem_map.mp hid
        have hne := any_eq_false.mp (Bool.not_eq_true _ ▸ hnone) earlier hearlier
        rwa [heq, Bool.not_eq_true] at hne
      rw [Forest.updateFirstIn, hother, if_neg (by simp)] at hinsert
      exact ih hinsert hid

end

/-- What the retrieval reads of the chunk files of a node, under ids from `start` on. -/
def chunkBodies (docId : Text) (obj : NodeObj) (start : ℕ) (chunks : List CohesionChunk) :
    List Text :=
  (chunks.zipIdx start).map fun c => stripDecomposedFrontmatter (chunkMd docId obj c.2 c.1)

theorem restores_iff (index : SkillsIndex) (obj : NodeObj) (text : Text) :
    Restores index obj text ↔ obj.chunks.getD [] ≠ [] ∧
      ((obj.chunks.getD []).map (resolveChunkBody index)).flatten = text := by
  rw [Restores]
  refine and_congr_right ?_
  intro hne
  cases hchunks : obj.chunks with
  | none => simp [hchunks] at hne
  | some refs =>
    have hall : refs.filter (fun id => refs.contains id) = refs := by
      rw [filter_eq_self]
      intro id hid
      simpa using hid
    rw [hchunks] at hne
    simp only [getD_some] at hne ⊢
    simp only [resolveNodeBodyChunkAware, hchunks, getD_some, hall]
    rw [if_pos hne]

theorem forall₂_restores_format (index : SkillsIndex) (config : PageIndexConfig)
    (tree : Structure) (texts : List NodeObj) :
    List.Forall₂ (fun obj node => Restores index obj (node.text.getD []))
        (structureToList (formatStructureForOutput tree config)) texts ↔
      List.Forall₂ (fun obj node => Restores index obj (node.text.getD [])) tree.preorder texts := by
  rw [formatStructureForOutput]
  split
  · rfl
  · rw [structureToList, Forest.preorder_map, forall₂_map_left_iff]
    simp only [restores_iff]

section

variable (env : Environment) (chunker : Bm25CohesionChunker)

/-- The index has the document with its chunks as indexing it left them. -/
structure HoldsChunks (docId content pipeline paramsHash : Text) (config : PageIndexConfig)
    (index : SkillsIndex) : Prop where
  document : ∃ doc, index.documents.get? docId = some doc ∧
    doc.tree = formatStructureForOutput (attachTree env chunker 0
      (buildFlatStructure content config) (documentNodes content config)) config
  chunkPipeline : index.chunkPipeline = some pipeline
  chunkParamsHash : index.chunkParamsHash = some paramsHash
  files : ∀ w ∈ chunkWrites env chunker docId pipeline paramsHash 0
    (documentNodes content config), index.files.get? w.1 = some w.2

variable {docId pipeline paramsHash : Text} {index : SkillsIndex}
variable (hpipeline : index.chunkPipeline = some pipeline)
include hpipeline

variable (hhash : index.chunkParamsHash = some paramsHash)
include hhash

theorem map_resolveChunkBody {obj : NodeObj} {start : ℕ} {chunks : List CohesionChunk}
    (hfiles : ∀ w ∈ chunkWritesOf docId pipeline paramsHash obj start chunks,
      index.files.get? w.1 = some w.2) :
    (range' start chunks.length).map (resolveChunkBody index) =
      chunkBodies docId obj start chunks := by
  rw [chunkBodies, ← zipIdx_map_snd, List.map_map, map_inj_left]
  intro c hc
  have hfile := hfiles _ (mem_map_of_mem hc)
  simp only at hfile
  simp only [Function.comp_apply, resolveChunkBody, SkillsIndex.chunkMdRelFor, hpipeline, hhash,
    Option.some_or, Option.bind_some, hfile, map_some, getD_some]

theorem forall₂_withChunks {nodes : List NodeObj} {start : ℕ}
    (hcontent : ∀ obj ∈ nodes, (obj.text.getD []).trim ≠ [])
    (hfiles : ∀ w ∈ chunkWrites env chunker docId pipeline paramsHash start nodes,
      index.files.get? w.1 = some w.2) :
    List.Forall₂ (fun obj node => (node.text.getD []).trim ≠ [] ∧ ∃ k, ∀ t,
        Restores index obj t ↔
          (chunkBodies docId node k (nodeChunks env chunker (node.text.getD []))).flatten = t)
      (withChunks env chunker start nodes) nodes := by
  induction nodes generalizing start with
  | nil => exact List.Forall₂.nil
  | cons obj rest ih =>
    have hobj := hcontent obj mem_cons_self
    rw [chunkWrites, if_neg hobj] at hfiles
    simp only [mem_append, or_imp, forall_and] at hfiles
    rw [withChunks]
    refine List.Forall₂.cons ⟨hobj, start, ?_⟩
      (ih (fun other hother => hcontent other (mem_cons_of_mem _ hother)) hfiles.2)
    intro t
    have hread := map_resolveChunkBody hpipeline hhash hfiles.1
    have hne : range' start (chunksOfNode env chunker obj) ≠ [] := by
      have hpos : 0 < chunksOfNode env chunker obj := by
        rw [chunksOfNode, nodeChunks]
        split
        · exact Nat.one_pos
        · exact length_pos_iff.mpr ‹_›
      rw [ne_eq, range'_eq_nil_iff]
      omega
    rw [restores_iff]
    simp only [getD_some]
    rw [chunksOfNode] at hne ⊢
    rw [hread]
    simp only [hne, ne_eq, not_false_eq_true, true_and]

end

/-- The files of a later walk that become documents, given the ids that are taken. -/
def addedFiles (taken : List Text) : List SkillFile → List SkillFile
  | [] => []
  | file :: rest =>
    if taken.contains file.docId then addedFiles taken rest
    else file :: addedFiles (file.docId :: taken) rest

section

variable {env : Environment} {chunker : Bm25CohesionChunker} {config : PageIndexConfig}
variable {path docId content pipeline paramsHash : Text} {index index' : SkillsIndex}

theorem holdsChunks_index (hfree : index.documents.contains docId = false)
    (hindex : indexSkillMdContent env path docId content config (some (pipeline, paramsHash))
      index = .ok index')
    (hnew : Bm25CohesionChunker.new config.cohesionConfigForChunking = .ok chunker) :
    HoldsChunks env chunker docId content pipeline paramsHash config index' := by
  obtain ⟨out, hout, rfl⟩ := exists_output_of_indexed env hfree hindex
  obtain ⟨sourcePath, flat, writes, -, hattach, hdoc, hwrites⟩ :=
    documentOutput_ok env config _ hout
  rcases attachOutput_ok env config _ hattach with
    ⟨hnone, -, -⟩ | ⟨pipeline', paramsHash', chunker', hvariant, hconfig, rfl, rfl⟩
  · cases hnone
  cases hvariant
  obtain rfl : chunker' = chunker := by
    have hsame := config_of_new hnew
    cases chunker
    cases chunker'
    simp only at hsame hconfig
    subst hsame hconfig
    rfl
  refine ⟨⟨out.1, ?_, ?_⟩, rfl, rfl, ?_⟩
  · rw [SkillsIndex.addDocument, Dict.get?_set_self]
  · rw [hdoc]
  · intro w hw
    have hkeys := keys_chunkWrites 0 env chunker' docId pipeline paramsHash
      (documentNodes content config)
    have hnodup : ((chunkWrites env chunker' docId pipeline paramsHash 0
        (documentNodes content config)).map fst).Nodup := by
      rw [hkeys]
      exact List.Nodup.map (fun _ _ => chunkMdRel_injective) nodup_range'
    obtain ⟨id, -, hid⟩ : ∃ id, _ ∧ chunkMdRel pipeline paramsHash id = w.1 := by
      have hmem := mem_map_of_mem (f := fst) hw
      rw [hkeys] at hmem
      exact mem_map.mp hmem
    -- the later writes of the document are to other names
    have hindexfile : w.1 ∉ (chunkIndexWrites env config out.1.tree
        (some (pipeline, paramsHash))).map fst := by
      rw [← hid]
      simpa [chunkIndexWrites] using
        chunkMdRel_ne_chunkIndexRel pipeline paramsHash id pipeline paramsHash
    have hnodes : ∀ nodes, w.1 ∉ (nodeWrites env config docId nodes).map fst := by
      intro nodes hmem
      rw [nodeWrites, List.map_map, ← hid] at hmem
      obtain ⟨obj, -, heq⟩ := mem_map.mp hmem
      exact nodeMdRel_ne_chunkMdRel obj.id pipeline paramsHash id heq
    have hpage : w.1 ∉ [(pageIndexRel, env.serializePageIndex out.1)].map fst := by
      rw [← hid]
      simpa using chunkMdRel_ne_pageIndexRel pipeline paramsHash id
    simp only [SkillsIndex.addDocument]
    rw [hwrites, Dict.writeAll_append, Dict.writeAll_append, Dict.writeAll_append,
      Dict.get?_writeAll_of_notMem _ hindexfile, Dict.get?_writeAll_of_notMem _ (hnodes _),
      Dict.get?_writeAll_of_notMem _ hpage, Dict.get?_writeAll_of_mem _ hnodup hw]

theorem HoldsChunks.walkSkillFile
    (h : HoldsChunks env chunker docId content pipeline paramsHash config index) {file : SkillFile}
    (hstep : walkSkillFile env config (some (pipeline, paramsHash)) index file = .ok index')
    (hfile : hasNodes content = true → index.documents.contains file.docId = false →
      hasNodes file.content = false) :
    HoldsChunks env chunker docId content pipeline paramsHash config index' := by
  rw [PageIndex.walkSkillFile] at hstep
  cases hfree : index.documents.contains file.docId with
  | true =>
    rw [hfree, if_pos rfl] at hstep
    cases hstep
    exact h
  | false =>
    rw [hfree, if_neg (by simp)] at hstep
    obtain ⟨out, hout, rfl⟩ := exists_output_of_indexed env hfree hstep
    obtain ⟨doc, hdoc, htree⟩ := h.document
    refine ⟨⟨doc, ?_, htree⟩, rfl, rfl, ?_⟩
    · have hne : docId ≠ file.docId := by
        rintro rfl
        rw [Dict.contains, hdoc] at hfree
        cases hfree
      rw [SkillsIndex.addDocument, Dict.get?_set_of_ne _ _ hne, hdoc]
    · intro w hw
      have hmem := mem_map_of_mem (f := fst) hw
      rw [keys_chunkWrites] at hmem
      obtain ⟨id, hlt, hid⟩ := mem_map.mp hmem
      have hnodes : hasNodes content = true := by
        rw [← chunkCount_pos_iff env config chunker]
        rw [mem_range'_1] at hlt
        omega
      obtain ⟨chunker', -, hkeys⟩ := chunkMdRel_mem_writes env config hout
      have hcount : chunkCount env chunker' (documentNodes file.content config) = 0 := by
        have hpos := chunkCount_pos_iff env config chunker' file.content
        rw [hfile hnodes hfree] at hpos
        simpa using hpos
      have hnot : w.1 ∉ out.2.map fst := by
        rw [← hid, hkeys, hcount]
        omega
      rw [SkillsIndex.addDocument, Dict.get?_writeAll_of_notMem _ hnot, h.files w hw]

theorem contains_of_walkSkillFile {variant : ChunkVariant} {file : SkillFile}
    (hstep : PageIndex.walkSkillFile env config variant index file = .ok index') (id : Text) :
    index'.documents.contains id = true ↔ id = file.docId ∨ index.documents.contains id = true := by
  rw [PageIndex.walkSkillFile] at hstep
  cases hfree : index.documents.contains file.docId with
  | true =>
    rw [hfree, if_pos rfl] at hstep
    cases hstep
    constructor
    · exact .inr
    · rintro (rfl | h)
      · exact hfree
      · exact h
  | false =>
    rw [hfree, if_neg (by simp)] at hstep
    obtain ⟨out, hout, rfl⟩ := exists_output_of_indexed env hfree hstep
    exact contains_addDocument variant index file.docId out id

theorem HoldsChunks.foldlM
    (h : HoldsChunks env chunker docId content pipeline paramsHash config index) {taken : List Text}
    (htaken : ∀ id, index.documents.contains id = true ↔ id ∈ taken) {later : List SkillFile}
    (hrun : later.foldlM (PageIndex.walkSkillFile env config (some (pipeline, paramsHash)))
      index = .ok index')
    (hlater : hasNodes content = true → ∀ g ∈ addedFiles taken later, hasNodes g.content = false) :
    HoldsChunks env chunker docId content pipeline paramsHash config index' := by
  induction later generalizing index taken with
  | nil =>
    cases hrun
    exact h
  | cons file rest ih =>
    rw [foldlM_cons] at hrun
    cases hstep : PageIndex.walkSkillFile env config (some (pipeline, paramsHash)) index file with
    | error e =>
      rw [hstep] at hrun
      cases hrun
    | ok next =>
      rw [hstep] at hrun
      have hsame : taken.contains file.docId = index.documents.contains file.docId := by
        rw [Bool.eq_iff_iff, contains_iff_mem, htaken]
      rw [addedFiles, hsame] at hlater
      have hnext := h.walkSkillFile hstep
      cases hfree : index.documents.contains file.docId with
      | true =>
        rw [PageIndex.walkSkillFile, hfree, if_pos rfl] at hstep
        cases hstep
        rw [if_pos hfree] at hlater
        exact ih h htaken hrun hlater
      | false =>
        rw [hfree, if_neg (by simp)] at hlater
        have htaken' : ∀ id, next.documents.contains id = true ↔ id ∈ file.docId :: taken := by
          intro id
          rw [contains_of_walkSkillFile hstep, htaken, mem_cons]
        exact ih (hnext fun hnodes _ => hlater hnodes file mem_cons_self) htaken' hrun
          fun hnodes g hg => hlater hnodes g (mem_cons_of_mem _ hg)

end

theorem exists_repeated {nodes : List NodeObj} (h : ¬ (nodes.map NodeObj.id).Nodup) :
    ∃ before obj after, nodes = before ++ obj :: after ∧ obj.id ∈ before.map NodeObj.id := by
  induction nodes with
  | nil => exact absurd nodup_nil h
  | cons node rest ih =>
    rw [map_cons, nodup_cons, not_and_or, not_not] at h
    rcases h with hmem | hrest
    · obtain ⟨obj, hobj, hid⟩ := mem_map.mp hmem
      obtain ⟨before, after, rfl⟩ := append_of_mem hobj
      exact ⟨node :: before, obj, after, rfl, by simp [hid]⟩
    · obtain ⟨before, obj, after, rfl, hid⟩ := ih hrest
      exact ⟨node :: before, obj, after, rfl, mem_cons_of_mem _ hid⟩

/-- The document id does not close the frontmatter of an entry file, node ids are distinct, no
document of a later walk overwrites the chunk files, and the chunks of every text cover it
without a blank at the start of one of them. -/
structure Restorable (env : Environment) (chunker : Bm25CohesionChunker) (docId content : Text)
    (config : PageIndexConfig) (added : List SkillFile) : Prop where
  docId : hasNodes content = true → CleanDocId docId
  ids : DistinctIds content config
  later : hasNodes content = true → ∀ g ∈ added, hasNodes g.content = false
  texts : ∀ t ∈ partTexts content, RestorableText env.cohesion chunker t

section

variable {env : Environment} {chunker : Bm25CohesionChunker} {config : PageIndexConfig}
variable {docId content pipeline paramsHash : Text} {index : SkillsIndex}

theorem chunkBodies_eq (hclean : CleanDocId docId) (obj : NodeObj) (start : ℕ)
    (chunks : List CohesionChunk) :
    chunkBodies docId obj start chunks = (chunks.map CohesionChunk.text).map trimStart := by
  have hstrip : ∀ c ∈ chunks.zipIdx start,
      stripDecomposedFrontmatter (chunkMd docId obj c.2 c.1) = c.1.text.trimStart := by
    intro c _
    rw [chunkMd]
    refine strip_decomposedMd hclean ?_ _
    intro f hf
    apply plainKey_fields
    simp only [mem_cons, not_mem_nil, or_false] at hf ⊢
    rcases hf with rfl | rfl | rfl | rfl <;> simp
  rw [chunkBodies, map_congr_left hstrip]
  have hcomp : (chunks.zipIdx start).map (fun c => c.1.text.trimStart) =
      (((chunks.zipIdx start).map fst).map CohesionChunk.text).map trimStart := by
    simp only [List.map_map]
    rfl
  rw [hcomp, zipIdx_map_fst]

theorem length_chunkBodies (hdirty : ¬ CleanDocId docId) (obj : NodeObj) (start : ℕ)
    (chunks : List CohesionChunk) :
    (chunks.map CohesionChunk.text).flatten.length + chunks.length ≤
      (chunkBodies docId obj start chunks).flatten.length := by
  induction chunks generalizing start with
  | nil => simp
  | cons c rest ih =>
    have hbody := length_strip_decomposedMd hdirty
      [("node_id", obj.id), ("chunk_id", start), ("line_num", obj.lineNum),
        ("token_count", c.tokenCount)] c.text
    have hrest := ih (start + 1)
    simp only [chunkBodies, zipIdx_cons, map_cons, flatten_cons,
      length_append, length_cons, chunkMd] at hrest ⊢
    omega

theorem nodeChunks_eq (hext : env.cohesion.crate.Lawful) {t : Text} (ht : t.trim ≠ []) :
    nodeChunks env chunker t = chunker.chunk env.cohesion t := by
  obtain ⟨_, _, -, hne, -⟩ := exists_tiles_chunk chunker hext ht
  simp only [nodeChunks, if_neg hne]

theorem forall₂_of_forall_right {α β : Type} {P R : α → β → Prop} {Q : β → Prop} {as : List α}
    {bs : List β} (h : List.Forall₂ P as bs) (hQ : ∀ b ∈ bs, Q b)
    (hR : ∀ a b, P a b → Q b → R a b) : List.Forall₂ R as bs := by
  induction h with
  | nil => exact List.Forall₂.nil
  | cons hab _ ih =>
    rw [forall_mem_cons] at hQ
    exact List.Forall₂.cons (hR _ _ hab hQ.1) (ih hQ.2)

theorem forall_right_of_forall₂ {α β : Type} {P R : α → β → Prop} {Q : β → Prop} {as : List α}
    {bs : List β} (h : List.Forall₂ P as bs) (h' : List.Forall₂ R as bs)
    (hQ : ∀ a b, P a b → R a b → Q b) : ∀ b ∈ bs, Q b := by
  induction h with
  | nil => simp
  | cons hab _ ih =>
    rw [forall₂_cons] at h'
    exact forall_mem_cons.mpr ⟨hQ _ _ hab h'.1, ih h'.2⟩

section

variable (h : HoldsChunks env chunker docId content pipeline paramsHash config index)
include h

theorem HoldsChunks.chunksRestore_iff_forall₂ :
    ChunksRestore index docId content config ↔
      List.Forall₂ (fun obj node => Restores index obj (node.text.getD []))
        (attachTree env chunker 0 (buildFlatStructure content config)
          (documentNodes content config)).preorder (documentNodes content config) := by
  obtain ⟨doc, hdoc, htree⟩ := h.document
  rw [ChunksRestore, hdoc]
  simp only [Option.some.injEq, exists_eq_left', htree]
  rw [forall₂_restores_format, structureToList, preorder_buildFlatStructure]

theorem HoldsChunks.distinctIds (hrestore : ChunksRestore index docId content config) :
    DistinctIds content config := by
  rw [h.chunksRestore_iff_forall₂] at hrestore
  rw [← nodup_ids_iff]
  by_contra hids
  obtain ⟨before, obj, after, hnodes, hid⟩ := exists_repeated hids
  have hmem : obj ∈ (attachTree env chunker 0 (buildFlatStructure content config)
      (documentNodes content config)).preorder := by
    have hflat := preorder_buildFlatStructure content config
    rw [hnodes] at hflat
    exact mem_attachTree_of_repeated env chunker hflat hid
  have hchunks := ((forall₂_and_left _ _).mp hrestore).1 obj hmem
  rw [chunks_of_mem_documentNodes (hnodes ▸ mem_append_right before mem_cons_self :
    obj ∈ documentNodes content config)] at hchunks
  exact hchunks rfl

theorem HoldsChunks.forall₂_bodies (hids : DistinctIds content config) :
    List.Forall₂ (fun obj node => (node.text.getD []).trim ≠ [] ∧ ∃ k, ∀ t,
        Restores index obj t ↔
          (chunkBodies docId node k (nodeChunks env chunker (node.text.getD []))).flatten = t)
      (attachTree env chunker 0 (buildFlatStructure content config)
        (documentNodes content config)).preorder (documentNodes content config) := by
  have hcontent : ∀ obj ∈ documentNodes content config, (obj.text.getD []).trim ≠ [] :=
    fun obj hobj => content_documentNodes hobj
  have hflat : (buildFlatStructure content config).preorder =
      [] ++ documentNodes content config := preorder_buildFlatStructure content config
  have htree := @preorder_attachTree env chunker 0 _ _ _ hflat
    ((nodup_ids_iff content config).mpr hids) hcontent
  rw [htree]
  exact forall₂_withChunks env chunker h.chunkPipeline h.chunkParamsHash hcontent h.files

theorem HoldsChunks.chunksRestore (hext : env.cohesion.crate.Lawful) (hclean : CleanDocId docId)
    (hids : DistinctIds content config)
    (htexts : ∀ t ∈ partTexts content, RestorableText env.cohesion chunker t) :
    ChunksRestore index docId content config := by
  rw [h.chunksRestore_iff_forall₂]
  rw [← texts_documentNodes content config, forall_mem_map] at htexts
  refine forall₂_of_forall_right (h.forall₂_bodies hids) htexts ?_
  rintro obj node ⟨hnode, k, hk⟩ htext
  rw [hk, chunkBodies_eq hclean, nodeChunks_eq hext hnode,
    flatten_trimStart_chunks_iff chunker hext hnode]
  exact htext

theorem HoldsChunks.texts_of_chunksRestore (hext : env.cohesion.crate.Lawful)
    (hrestore : ChunksRestore index docId content config) :
    ∀ t ∈ partTexts content, (CleanDocId docId → RestorableText env.cohesion chunker t) ∧
      (¬ CleanDocId docId → ¬ EndsKept env.cohesion chunker t) := by
  have hbodies := h.forall₂_bodies (h.distinctIds hrestore)
  rw [h.chunksRestore_iff_forall₂] at hrestore
  rw [← texts_documentNodes content config, forall_mem_map]
  refine forall_right_of_forall₂ hbodies hrestore ?_
  rintro obj node ⟨hnode, k, hk⟩ hrestores
  rw [hk, nodeChunks_eq hext hnode] at hrestores
  constructor
  · intro hclean
    rw [chunkBodies_eq hclean, flatten_trimStart_chunks_iff chunker hext hnode] at hrestores
    exact hrestores
  · intro hdirty hends
    -- the bodies are longer than the chunks, which are the text already
    obtain ⟨-, hkept, -⟩ := length_chunks_le chunker hext hnode
    obtain ⟨_, _, -, hne, -⟩ := exists_tiles_chunk chunker hext hnode
    have hlong := length_chunkBodies hdirty node k (chunker.chunk env.cohesion (node.text.getD []))
    have hpos := length_pos_iff.mpr hne
    have htext := hkept.mpr hends
    rw [hrestores] at hlong
    omega

end

theorem mem_keys_iff_contains (d : Dict Text SkillDocument) (id : Text) :
    d.contains id = true ↔ id ∈ d.keys := by
  rw [Dict.mem_keys_iff, Dict.contains, Option.isSome_iff_exists]

variable {path : Text} {index' final : SkillsIndex} {later : List SkillFile}

/-- All nodes of an indexed document come back from their chunks when the document is
restorable. Otherwise they do not, but for two coincidences: a later document that writes the
same chunks, and a document id that leaves exactly the text in front of a body which the
chunker has cut off. -/
theorem chunksRestore_when (hext : env.cohesion.crate.Lawful)
    (hnew : Bm25CohesionChunker.new config.cohesionConfigForChunking = .ok chunker)
    (hfree : index.documents.contains docId = false)
    (hindex : indexSkillMdContent env path docId content config (some (pipeline, paramsHash))
      index = .ok index')
    (hlater : later.foldlM (walkSkillFile env config (some (pipeline, paramsHash))) index' =
      .ok final) :
    let added := addedFiles index'.documents.keys later
    (Restorable env chunker docId content config added → ChunksRestore final docId content config) ∧
    (ChunksRestore final docId content config →
      Restorable env chunker docId content config added ∨
        (∃ g ∈ added, hasNodes g.content = true) ∨
        (¬ CleanDocId docId ∧ ∀ t ∈ partTexts content, ¬ EndsKept env.cohesion chunker t)) := by
  have hfirst := holdsChunks_index hfree hindex hnew
  have hheld := hfirst.foldlM (mem_keys_iff_contains index'.documents) hlater
  constructor
  · rintro ⟨hclean, hids, hadded, htexts⟩
    have hfinal := hheld hadded
    cases hnodes : hasNodes content with
    | true => exact hfinal.chunksRestore hext (hclean hnodes) hids htexts
    | false =>
      have hnil : documentNodes content config = [] := by
        by_contra hne
        rw [(hasNodes_iff config content).mpr hne] at hnodes
        cases hnodes
      rw [hfinal.chunksRestore_iff_forall₂, hnil, attachTree, preorder_buildFlatStructure, hnil]
      exact List.Forall₂.nil
  · intro hrestore
    by_cases hadded : ∀ g ∈ addedFiles index'.documents.keys later, hasNodes g.content = false
    · have hfinal := hheld fun _ => hadded
      have htexts := hfinal.texts_of_chunksRestore hext hrestore
      by_cases hclean : CleanDocId docId
      · exact .inl ⟨fun _ => hclean, hfinal.distinctIds hrestore, fun _ => hadded,
          fun t ht => (htexts t ht).1 hclean⟩
      · exact .inr (.inr ⟨hclean, fun t ht => (htexts t ht).2 hclean⟩)
    · simp only [not_forall, Bool.not_eq_false, exists_prop] at hadded
      exact .inr (.inl hadded)

end

/-- A `chunk` crate that cuts before every line break, and makes a chunk of every unit. -/
def newlineCrate : ChunkCrate where
  splitAtPatterns text _ _ _ :=
    (placed 0 0 (text.splitBy fun _ c => c != '\n')).map fun x => (x.1, x.1 + utf8Len x.2)
  findLocalMinimaInterpolated _ _ _ _ := none
  filterSplitIndices _ _ _ _ := ⟨[], []⟩
  findMergeIndices counts _ := List.range' 1 counts.length

theorem newlineCrate_lawful : newlineCrate.Lawful where
  splitAtPatterns_partition := by
    intro text _ _ _ _
    exact ⟨text.splitBy fun _ c => c != '\n', fun _ hpart => ne_nil_of_mem_splitBy hpart,
      flatten_splitBy _ _, rfl⟩
  filterSplitIndices_increasing := by
    intro _ _ _ _ _ _ _ _
    exact List.Pairwise.nil
  findMergeIndices_increasing := by
    intro counts size
    exact pairwise_lt_range'
  findMergeIndices_last := by
    intro counts size hne
    have hpos := length_pos_iff.mpr hne
    simp only [newlineCrate, getLast?_range']
    rw [if_neg (by omega)]
    congr 1
    omega

def newlineEnvironment : Environment :=
  { plainEnvironment with cohesion := { plainExternals with crate := newlineCrate } }

/-- Sentences that start with the delimiter, which is the line break. -/
def lineChunker : Bm25CohesionChunker where
  config := { Bm25CohesionConfig.defaultForMode .sentence with
    chunkSize := 1, tokenCounter := .character, similarityWindow := 1, minimumWords := 0,
    minCharactersPerSentence := 1, delimiters := ["\n".toList], includeDelim := .next }
  valid := by decide +kernel

def lineConfig : PageIndexConfig :=
  { PageIndexConfig.default with bm25Cohesion := lineChunker.config }

theorem new_lineConfig :
    Bm25CohesionChunker.new lineConfig.cohesionConfigForChunking = .ok lineChunker := by
  have hconfig : lineConfig.cohesionConfigForChunking = lineChunker.config := rfl
  rw [hconfig, Bm25CohesionChunker.new]
  split
  · rfl
  · rename_i e herror
    rw [lineChunker.valid] at herror
    cases herror

theorem cleanDocId_a : CleanDocId "a" := by
  unfold CleanDocId
  decide

theorem exists_lineIndex (content : Text) :
    ∃ index, indexSkillMdContent newlineEnvironment "a" "a" content lineConfig
      (some ("bm25", "default")) .default = .ok index := by
  rw [indexSkillMdContent_eq newlineEnvironment _ _ _ _ _ rfl, documentOutput, attachOutput,
    new_lineConfig]
  exact ⟨_, rfl⟩

theorem chunksRestore_when_heading :
    ∃ index, indexSkillMdContent newlineEnvironment "a".toList "a".toList "# A".toList lineConfig
        (some ("bm25".toList, "default".toList)) .default = .ok index ∧
      ChunksRestore index "a".toList "# A".toList lineConfig := by
  obtain ⟨index, hindex⟩ := exists_lineIndex "# A".toList
  have hparts : partTexts "# A".toList = ["# A".toList] := by decide
  have hlater : ([] : List SkillFile).foldlM (walkSkillFile newlineEnvironment lineConfig
      (some ("bm25".toList, "default".toList))) index = .ok index := rfl
  refine ⟨index, hindex,
    (chunksRestore_when newlineCrate_lawful new_lineConfig rfl hindex hlater).1 ?_⟩
  constructor
  · intro _
    exact cleanDocId_a
  · exact .inl rfl
  · intro _ g hg
    cases hg
  · rw [hparts, forall_mem_singleton]
    refine ⟨.inr (.inr ⟨by decide, .inr (by decide)⟩), ?_⟩
    have hchunks : lineChunker.chunk newlineEnvironment.cohesion "# A".toList =
        [⟨"# A".toList, 0, 3, 3⟩] := by decide
    rw [hchunks, forall_mem_singleton]
    intro c hc
    obtain rfl : '#' = c := by simpa using hc
    decide

/-- The line break at the start of the second chunk is trimmed away, and the body line joins
the heading. -/
theorem line_break_between_chunks_lost :
    ¬ ∀ (env : Environment) (path docId content pipeline paramsHash : Text)
      (config : PageIndexConfig) (index index' : SkillsIndex), env.cohesion.crate.Lawful →
      index.documents.contains docId = false →
      indexSkillMdContent env path docId content config (some (pipeline, paramsHash)) index =
        .ok index' →
      ChunksRestore index' docId content config := by
  intro h
  obtain ⟨index, hindex⟩ := exists_lineIndex "# A\nb"
  have hrestore := h newlineEnvironment _ _ _ _ _ _ _ _ newlineCrate_lawful rfl hindex
  have hheld := holdsChunks_index rfl hindex new_lineConfig
  have hmem : "# A\nb".toList ∈ partTexts "# A\nb".toList := by decide
  have htext := (hheld.texts_of_chunksRestore newlineCrate_lawful hrestore _ hmem).1 cleanDocId_a
  have hchunk : ⟨"\nb", 3, 5, 2⟩ ∈
      lineChunker.chunk newlineEnvironment.cohesion "# A\nb" := by decide
  have hblank := htext.starts _ hchunk '\n' rfl
  revert hblank
  decide

end ClearYourTools.PageIndex
