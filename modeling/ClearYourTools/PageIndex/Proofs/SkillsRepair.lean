import ClearYourTools.PageIndex.EntryFiles
import ClearYourTools.PageIndex.Proofs.Isolation

/-!
# When the repair is complete and conservative

The repair writes the files of the damaged nodes under new ids above all ids of the structure, and
inserts the refs of a node at the first node with its node id.
-/

namespace ClearYourTools.PageIndex

open Misc Bm25Cohesion List
open StoredNode (chunkIds)
open Prod (fst)

section

variable (env : Environment) (chunker : Bm25CohesionChunker) (docId pipeline paramsHash : Text)

/-- The new files of a node, with their chunk ids, from an id on. -/
def plannedFiles (node : StoredNode) : ℕ → List CohesionChunk → List (ℕ × Text)
  | _, [] => []
  | id, chunk :: rest => (id, repairMd docId node id chunk) :: plannedFiles node (id + 1) rest

def nodeFiles (node : StoredNode) (id : ℕ) : List (ℕ × Text) :=
  plannedFiles docId node id (repairChunks env chunker node.body)

/-- The new files of some nodes, from an id on. -/
def plannedRepair : ℕ → List StoredNode → List (StoredNode × List (ℕ × Text))
  | _, [] => []
  | id, node :: rest =>
    (node, nodeFiles env chunker docId node id) ::
      plannedRepair (id + (nodeFiles env chunker docId node id).length) rest

def filesOf (plan : List (StoredNode × List (ℕ × Text))) : List (ℕ × Text) := plan.flatMap Prod.snd

/-- The refs to some files. -/
def refsTo (files : List (ℕ × Text)) : List StoredChunk := files.map fun file => chunkRef file.1

def atPath (file : ℕ × Text) : Text × Text := (chunkMdRel pipeline paramsHash file.1, file.2)

/-- The nodes that the repair chunks again. -/
def damagedNodes (tree : StoredStructure) (disk : EntryFiles) : List StoredNode :=
  tree.preorder.filter (isDamaged pipeline paramsHash disk)

def newFiles (tree : StoredStructure) (disk : EntryFiles) : List (ℕ × Text) :=
  filesOf (plannedRepair env chunker docId (nextStoredChunkId tree)
    (damagedNodes pipeline paramsHash tree disk))

/-- The ids are below the highest one of their type, those that are there and the new ones. -/
structure FitsU32 (tree : StoredStructure) (disk : EntryFiles) : Prop where
  stored : ∀ id ∈ storedChunkIds tree, id < 4294967295
  fresh : nextStoredChunkId tree +
    (newFiles env chunker docId pipeline paramsHash tree disk).length < 4294967296

variable {env chunker docId pipeline paramsHash}

theorem map_fst_plannedFiles (node : StoredNode) (id : ℕ) (chunks : List CohesionChunk) :
    (plannedFiles docId node id chunks).map fst = List.range' id chunks.length := by
  induction chunks generalizing id with
  | nil => rfl
  | cons chunk rest ih =>
    rw [plannedFiles, map_cons, ih, length_cons, range'_succ]

theorem length_plannedFiles (node : StoredNode) (id : ℕ) (chunks : List CohesionChunk) :
    (plannedFiles docId node id chunks).length = chunks.length := by
  have h := congrArg List.length (@map_fst_plannedFiles docId node id chunks)
  rwa [length_map, length_range'] at h

theorem repairChunks_ne_nil (text : Text) : repairChunks env chunker text ≠ [] := by
  unfold repairChunks nodeChunks
  dsimp only
  split
  · exact cons_ne_nil _ _
  · assumption

theorem map_fst_filesOf (id : ℕ) (nodes : List StoredNode) :
    (filesOf (plannedRepair env chunker docId id nodes)).map fst =
      List.range' id (filesOf (plannedRepair env chunker docId id nodes)).length := by
  induction nodes generalizing id with
  | nil => rfl
  | cons node rest ih =>
    have hcons : filesOf (plannedRepair env chunker docId id (node :: rest)) =
        nodeFiles env chunker docId node id ++ filesOf (plannedRepair env chunker docId
          (id + (nodeFiles env chunker docId node id).length) rest) := rfl
    have hfirst : (nodeFiles env chunker docId node id).map fst =
        List.range' id (nodeFiles env chunker docId node id).length := by
      unfold nodeFiles
      rw [map_fst_plannedFiles, length_plannedFiles]
    rw [hcons, map_append, length_append, ih, hfirst, range'_append_1]

variable {id : ℕ}

theorem writeChunks_eq (node : StoredNode) {chunks : List CohesionChunk}
    (h : id + chunks.length < 4294967296) :
    writeChunks docId pipeline paramsHash node id chunks =
      ((plannedFiles docId node id chunks).map fst,
        (plannedFiles docId node id chunks).map (atPath pipeline paramsHash)) := by
  induction chunks generalizing id with
  | nil => rfl
  | cons chunk rest ih =>
    rw [length_cons] at h
    have hnext : nextU32 id = id + 1 := Nat.mod_eq_of_lt (by omega)
    rw [writeChunks, hnext, ih (by omega), plannedFiles, map_cons, map_cons]
    rfl

theorem foldl_nextU32 {chunks : List CohesionChunk} (h : id + chunks.length < 4294967296) :
    chunks.foldl (fun nextId _ => nextU32 nextId) id = id + chunks.length := by
  induction chunks generalizing id with
  | nil => rfl
  | cons chunk rest ih =>
    rw [length_cons] at h
    have hnext : nextU32 id = id + 1 := Nat.mod_eq_of_lt (by omega)
    rw [foldl_cons, hnext, ih (by omega), length_cons]
    omega

/-- The refs of a plan, inserted one node after the other. -/
def insertPlan (tree : StoredStructure) (plan : List (StoredNode × List (ℕ × Text))) :
    StoredStructure :=
  plan.foldl (fun tree step => insertStoredChunks tree step.1.id (refsTo step.2)) tree

variable {node : StoredNode}

theorem rechunkNode_eq {state : RepairState}
    (h : state.nextId + (nodeFiles env chunker docId node state.nextId).length < 4294967296) :
    rechunkNode env chunker docId pipeline paramsHash state node =
      { tree := insertStoredChunks state.tree node.id
          (refsTo (nodeFiles env chunker docId node state.nextId))
        files := state.files.writeAll
          ((nodeFiles env chunker docId node state.nextId).map (atPath pipeline paramsHash))
        disk := state.disk.writeAll
          ((nodeFiles env chunker docId node state.nextId).map (atPath pipeline paramsHash))
        nextId := state.nextId + (nodeFiles env chunker docId node state.nextId).length
        changed := true } := by
  unfold nodeFiles at h ⊢
  rw [length_plannedFiles] at h ⊢
  unfold rechunkNode refsTo
  dsimp only
  rw [writeChunks_eq node h, foldl_nextU32 h, List.map_map]
  rfl

/-- Two disks have the same chunk files below an id. -/
def AgreeBelow (pipeline paramsHash : Text) (id : ℕ) (disk disk' : EntryFiles) : Prop :=
  ∀ n < id, disk'.get? (chunkMdRel pipeline paramsHash n) =
    disk.get? (chunkMdRel pipeline paramsHash n)

variable {disk : EntryFiles}

theorem agreeBelow_writeAll {files : List (ℕ × Text)} (h : ∀ file ∈ files, id ≤ file.1) :
    AgreeBelow pipeline paramsHash id disk
      (disk.writeAll (files.map (atPath pipeline paramsHash))) := by
  intro n hn
  refine Dict.get?_writeAll_of_notMem _ fun hmem => ?_
  rw [List.map_map, mem_map] at hmem
  obtain ⟨file, hfile, heq⟩ := hmem
  have hle := h file hfile
  rw [chunkMdRel_injective heq] at hle
  omega

variable {disk' : EntryFiles}

theorem AgreeBelow.trans {disk'' : EntryFiles} (h : AgreeBelow pipeline paramsHash id disk disk')
    (h' : AgreeBelow pipeline paramsHash id disk' disk'') :
    AgreeBelow pipeline paramsHash id disk disk'' :=
  fun n hn => (h' n hn).trans (h n hn)

theorem allExist_congr (hids : ∀ n ∈ node.chunkIds, n < id)
    (h : AgreeBelow pipeline paramsHash id disk disk') :
    allExist pipeline paramsHash disk' node = allExist pipeline paramsHash disk node := by
  unfold allExist
  unfold chunkIds at hids
  cases hchunks : node.chunks with
  | none => rfl
  | some chunks =>
    rw [hchunks, Option.getD_some] at hids
    have hone : ∀ chunk ∈ chunks, chunkFileExists pipeline paramsHash disk' chunk =
        chunkFileExists pipeline paramsHash disk chunk := by
      intro chunk hchunk
      unfold chunkFileExists
      split
      · rename_i n
        by_cases hn : n < 4294967296
        · have hid : chunkIdFromValue (some (.num n)) = n := by
            unfold chunkIdFromValue asU32
            dsimp only
            rw [if_pos hn, Option.getD_some]
          have hlt := hids n (mem_filterMap.mpr ⟨_, hchunk, congrArg some hid⟩)
          unfold Dict.contains
          rw [h n hlt]
        · rw [decide_eq_false hn, Bool.false_and, Bool.false_and]
      · rfl
    have hall : chunks.all (chunkFileExists pipeline paramsHash disk') =
        chunks.all (chunkFileExists pipeline paramsHash disk) := by
      rw [Bool.eq_iff_iff, all_eq_true, all_eq_true]
      exact forall₂_congr fun chunk hchunk => by rw [hone chunk hchunk]
    dsimp only
    rw [hall]

theorem isDamaged_congr (hids : ∀ n ∈ node.chunkIds, n < id)
    (h : AgreeBelow pipeline paramsHash id disk disk') :
    isDamaged pipeline paramsHash disk' node = isDamaged pipeline paramsHash disk node := by
  unfold isDamaged
  rw [allExist_congr hids h]

theorem filesOf_cons (id : ℕ) (node : StoredNode) (rest : List StoredNode) :
    filesOf (plannedRepair env chunker docId id (node :: rest)) =
      nodeFiles env chunker docId node id ++ filesOf (plannedRepair env chunker docId
        (id + (nodeFiles env chunker docId node id).length) rest) := rfl

/-- The loop does what is planned for the nodes that are damaged at its start: the new files are
above all refs of the structure. -/
theorem foldl_repairNode {start : ℕ} {nodes : List StoredNode} {state : RepairState}
    (hids : ∀ node ∈ nodes, ∀ n ∈ node.chunkIds, n < start)
    (hagree : AgreeBelow pipeline paramsHash start disk state.disk) (hstart : start ≤ state.nextId)
    (hfit : state.nextId + (filesOf (plannedRepair env chunker docId state.nextId
      (nodes.filter (isDamaged pipeline paramsHash disk)))).length < 4294967296) :
    (nodes.foldl (repairNode env chunker docId pipeline paramsHash) state).tree =
        insertPlan state.tree (plannedRepair env chunker docId state.nextId
          (nodes.filter (isDamaged pipeline paramsHash disk))) ∧
      (nodes.foldl (repairNode env chunker docId pipeline paramsHash) state).disk =
        state.disk.writeAll ((filesOf (plannedRepair env chunker docId state.nextId
          (nodes.filter (isDamaged pipeline paramsHash disk)))).map
            (atPath pipeline paramsHash)) := by
  induction nodes generalizing state with
  | nil => exact ⟨rfl, rfl⟩
  | cons node rest ih =>
    have hrest := fun other hother => hids other (mem_cons_of_mem node hother)
    have hsame := isDamaged_congr (hids node mem_cons_self) hagree
    rw [foldl_cons]
    unfold repairNode
    rw [filter_cons] at hfit ⊢
    rw [hsame]
    cases hdamaged : isDamaged pipeline paramsHash disk node with
    | false =>
      rw [hdamaged, if_neg Bool.false_ne_true] at hfit
      rw [if_neg Bool.false_ne_true, if_neg Bool.false_ne_true]
      exact ih hrest hagree hstart hfit
    | true =>
      rw [hdamaged, if_pos rfl, filesOf_cons, length_append, ← add_assoc] at hfit
      rw [if_pos rfl, if_pos rfl, rechunkNode_eq (by omega), filesOf_cons, map_append,
        Dict.writeAll_append]
      refine ih hrest (hagree.trans (agreeBelow_writeAll fun file hfile => ?_)) (by dsimp only; omega)
        hfit
      have hmem := mem_map_of_mem (f := fst) hfile
      unfold nodeFiles at hmem
      rw [map_fst_plannedFiles, mem_range'_1] at hmem
      omega

/-- One node gets its refs at the first node with its id. -/
def insertRefs (nodes : List StoredNode) (step : StoredNode × List (ℕ × Text)) : List StoredNode :=
  Forest.updateFirstIn (fun node => node.id == step.1.id)
    (fun node => node.withChunks (refsTo step.2)) nodes

theorem preorder_insertPlan (tree : StoredStructure) (plan : List (StoredNode × List (ℕ × Text))) :
    (insertPlan tree plan).preorder = plan.foldl insertRefs tree.preorder := by
  unfold insertPlan
  induction plan generalizing tree with
  | nil => rfl
  | cons step plan ih =>
    rw [foldl_cons, foldl_cons, ih]
    unfold insertStoredChunks
    rw [(Forest.updateFirst_spec _ _ tree).1]
    rfl

theorem foldl_insertRefs_shadowed {before after : List StoredNode}
    (hshadowed : node.id ∈ before.map StoredNode.id) (plan : List (StoredNode × List (ℕ × Text))) :
    ∃ before' after', plan.foldl insertRefs (before ++ node :: after) = before' ++ node :: after' := by
  induction plan generalizing before after with
  | nil => exact ⟨before, after, rfl⟩
  | cons step plan ih =>
    rw [foldl_cons, insertRefs, Forest.updateFirstIn_append]
    split
    · refine ih ?_
      have hids := Forest.map_updateFirstIn StoredNode.id
        (g := fun node => node.withChunks (refsTo step.2)) (fun _ => rfl)
        (fun node => node.id == step.1.id) before
      rw [hids]
      exact hshadowed
    · rename_i hnone
      have hnode : (node.id == step.1.id) = false := by
        rw [Bool.eq_false_iff]
        intro heq
        obtain ⟨other, hother, hid⟩ := mem_map.mp hshadowed
        refine hnone (any_eq_true.mpr ⟨other, hother, ?_⟩)
        rw [hid]
        exact heq
      rw [Forest.updateFirstIn, hnode, if_neg Bool.false_ne_true]
      exact ih hshadowed

/-- The nodes with new refs, from an id on. -/
def repairedNodes (env : Environment) (chunker : Bm25CohesionChunker)
    (docId pipeline paramsHash : Text) (disk : EntryFiles) : ℕ → List StoredNode → List StoredNode
  | _, [] => []
  | id, node :: rest =>
    if isDamaged pipeline paramsHash disk node then
      node.withChunks (refsTo (nodeFiles env chunker docId node id)) ::
        repairedNodes env chunker docId pipeline paramsHash disk
          (id + (nodeFiles env chunker docId node id).length) rest
    else node :: repairedNodes env chunker docId pipeline paramsHash disk id rest

/-- Every damaged node is the first one with its node id. -/
def DamagedFirst (pipeline paramsHash : Text) (disk : EntryFiles) (nodes : List StoredNode) : Prop :=
  ∀ before node after, nodes = before ++ node :: after →
    isDamaged pipeline paramsHash disk node = true → node.id ∉ before.map StoredNode.id

theorem foldl_insertRefs {disk : EntryFiles} {done rest : List StoredNode} (id : ℕ)
    (hfirst : ∀ before node after, rest = before ++ node :: after →
      isDamaged pipeline paramsHash disk node = true →
        node.id ∉ (done ++ before).map StoredNode.id) :
    (plannedRepair env chunker docId id (rest.filter (isDamaged pipeline paramsHash disk))).foldl
        insertRefs (done ++ rest) =
      done ++ repairedNodes env chunker docId pipeline paramsHash disk id rest := by
  induction rest generalizing done id with
  | nil => rfl
  | cons node rest ih =>
    rw [filter_cons, repairedNodes]
    cases hdamaged : isDamaged pipeline paramsHash disk node with
    | false =>
      rw [if_neg Bool.false_ne_true, if_neg Bool.false_ne_true, List.append_cons done node rest,
        List.append_cons done node (repairedNodes _ _ _ _ _ _ _ _)]
      refine ih id fun before other after hsplit hother => ?_
      rw [← List.append_cons]
      exact hfirst (node :: before) other after (by rw [hsplit]; rfl) hother
    | true =>
      rw [if_pos rfl, if_pos rfl, plannedRepair, foldl_cons]
      have hnew := hfirst [] node rest rfl hdamaged
      rw [List.append_nil] at hnew
      have hinsert : insertRefs (done ++ node :: rest)
          (node, nodeFiles env chunker docId node id) =
            (done ++ [node.withChunks (refsTo (nodeFiles env chunker docId node id))]) ++ rest := by
        have hnone : ¬done.any (fun other => other.id == node.id) = true := by
          rw [any_eq_true]
          rintro ⟨other, hother, heq⟩
          exact hnew (mem_map.mpr ⟨other, hother, beq_iff_eq.mp heq⟩)
        rw [insertRefs, Forest.updateFirstIn_append, if_neg hnone, Forest.updateFirstIn,
          if_pos (beq_self_eq_true _), List.append_assoc]
        rfl
      rw [hinsert, ih, List.append_assoc]
      · rfl
      · intro before other after hsplit hother
        have hids : (done ++ [node.withChunks (refsTo (nodeFiles env chunker docId node id))] ++
            before).map StoredNode.id = (done ++ node :: before).map StoredNode.id := by
          simp only [map_append, map_cons, map_nil, List.append_assoc]
          rfl
        rw [hids]
        exact hfirst (node :: before) other after (by rw [hsplit]; rfl) hother

/-- All nodes but for their chunks, and the nodes that are not damaged. -/
structure KeepsNode (pipeline paramsHash : Text) (disk disk' : EntryFiles)
    (node node' : StoredNode) : Prop where
  nodeId : node'.nodeId = node.nodeId
  lineNum : node'.lineNum = node.lineNum
  text : node'.text = node.text
  refs : allExist pipeline paramsHash disk node = true → node' = node
  files : allExist pipeline paramsHash disk node = true → ∀ id ∈ node.chunkIds,
    disk'.get? (chunkMdRel pipeline paramsHash id) = disk.get? (chunkMdRel pipeline paramsHash id)

/-- What the repair of a structure is to do. -/
structure Repairs (pipeline paramsHash : Text) (tree tree' : StoredStructure)
    (disk disk' : EntryFiles) : Prop where
  complete : ∀ node ∈ tree'.preorder, node.body.trim ≠ [] →
    allExist pipeline paramsHash disk' node = true
  conservative : List.Forall₂ (KeepsNode pipeline paramsHash disk disk') tree.preorder
    tree'.preorder
  unique : (storedChunkIds tree).Nodup → (storedChunkIds tree').Nodup
  preserved : ∀ id content, disk.get? (chunkMdRel pipeline paramsHash id) = some content →
    disk'.get? (chunkMdRel pipeline paramsHash id) = some content

section

variable {disk disk' : EntryFiles} {start : ℕ}

variable {nodes : List StoredNode}

theorem forall₂_repairedNodes (id : ℕ) (hids : ∀ node ∈ nodes, ∀ n ∈ node.chunkIds, n < start)
    (hagree : AgreeBelow pipeline paramsHash start disk disk') :
    List.Forall₂ (KeepsNode pipeline paramsHash disk disk') nodes
      (repairedNodes env chunker docId pipeline paramsHash disk id nodes) := by
  induction nodes generalizing id with
  | nil => exact .nil
  | cons node rest ih =>
    have hrest := fun other hother => hids other (mem_cons_of_mem node hother)
    have hfiles : ∀ n ∈ node.chunkIds, disk'.get? (chunkMdRel pipeline paramsHash n) =
        disk.get? (chunkMdRel pipeline paramsHash n) :=
      fun n hn => hagree n (hids node mem_cons_self n hn)
    rw [repairedNodes]
    split
    · rename_i hdamaged
      have hnot : ¬allExist pipeline paramsHash disk node = true := by
        intro hexist
        unfold isDamaged at hdamaged
        rw [hexist, Bool.not_true, Bool.and_false] at hdamaged
        cases hdamaged
      exact .cons ⟨rfl, rfl, rfl, fun h => absurd h hnot, fun h => absurd h hnot⟩ (ih _ hrest)
    · exact .cons ⟨rfl, rfl, rfl, fun _ => rfl, fun _ => hfiles⟩ (ih _ hrest)

theorem chunkIds_withChunks (node : StoredNode) (files : List (ℕ × Text))
    (h : ∀ file ∈ files, file.1 < 4294967296) :
    (node.withChunks (refsTo files)).chunkIds = files.map fst := by
  unfold chunkIds StoredNode.withChunks refsTo
  rw [Option.getD_some]
  induction files with
  | nil => rfl
  | cons file files ih =>
    have hid : chunkIdFromValue (some (.num file.1)) = file.1 := by
      unfold chunkIdFromValue asU32
      dsimp only
      rw [if_pos (h file mem_cons_self), Option.getD_some]
    rw [map_cons, filterMap_cons, ih fun f hf => h f (mem_cons_of_mem _ hf)]
    unfold chunkRef
    dsimp only
    rw [hid, map_cons]

variable {id : ℕ}

theorem mem_nodeFiles {node : StoredNode} {n : ℕ} :
    n ∈ (nodeFiles env chunker docId node id).map fst ↔
      id ≤ n ∧ n < id + (nodeFiles env chunker docId node id).length := by
  unfold nodeFiles
  rw [map_fst_plannedFiles, length_plannedFiles, mem_range'_1]

theorem nodup_nodeFiles (node : StoredNode) (id : ℕ) :
    ((nodeFiles env chunker docId node id).map fst).Nodup := by
  unfold nodeFiles
  rw [map_fst_plannedFiles]
  exact nodup_range'

variable (hids : ∀ node ∈ nodes, ∀ n ∈ node.chunkIds, n < start)
include hids

theorem chunkIds_repairedNodes
    (hstart : start ≤ id) (hfit : id + (filesOf (plannedRepair env chunker docId id
      (nodes.filter (isDamaged pipeline paramsHash disk)))).length < 4294967296)
    (hnodup : (nodes.flatMap chunkIds).Nodup) :
    ((repairedNodes env chunker docId pipeline paramsHash disk id nodes).flatMap chunkIds).Nodup ∧
      ∀ n ∈ (repairedNodes env chunker docId pipeline paramsHash disk id nodes).flatMap
        chunkIds, n ∈ nodes.flatMap chunkIds ∨ id ≤ n := by
  induction nodes generalizing id with
  | nil => exact ⟨nodup_nil, nofun⟩
  | cons node rest ih =>
    have hrest := fun other hother => hids other (mem_cons_of_mem node hother)
    rw [flatMap_cons] at hnodup
    obtain ⟨hnode, htail, hdisjoint⟩ := nodup_append'.mp hnodup
    rw [filter_cons] at hfit
    rw [repairedNodes]
    cases hdamaged : isDamaged pipeline paramsHash disk node with
    | false =>
      rw [hdamaged, if_neg Bool.false_ne_true] at hfit
      obtain ⟨hdone, hmem⟩ := ih hrest hstart hfit htail
      rw [if_neg Bool.false_ne_true, flatMap_cons, flatMap_cons]
      refine ⟨nodup_append'.mpr ⟨hnode, hdone, fun n hn hn' => ?_⟩, fun n hn => ?_⟩
      · rcases hmem n hn' with hold | hnew
        · exact hdisjoint hn hold
        · have hlt := hids node mem_cons_self n hn
          omega
      · rcases mem_append.mp hn with hn | hn
        · exact .inl (mem_append_left _ hn)
        · exact (hmem n hn).imp_left (mem_append_right _)
    | true =>
      rw [hdamaged, if_pos rfl, filesOf_cons, length_append, ← add_assoc] at hfit
      obtain ⟨hdone, hmem⟩ := ih hrest (by omega) hfit htail
      have hchunks : (node.withChunks (refsTo (nodeFiles env chunker docId node id))).chunkIds =
          (nodeFiles env chunker docId node id).map fst := by
        refine chunkIds_withChunks node _ fun file hfile => ?_
        have hrange := mem_nodeFiles.mp (mem_map_of_mem (f := fst) hfile)
        omega
      rw [if_pos rfl, flatMap_cons, flatMap_cons, hchunks]
      refine ⟨nodup_append'.mpr ⟨nodup_nodeFiles node id, hdone, fun n hn hn' => ?_⟩,
        fun n hn => ?_⟩
      · have hrange := mem_nodeFiles.mp hn
        rcases hmem n hn' with hold | hnew
        · obtain ⟨other, hother, hid⟩ := mem_flatMap.mp hold
          have hlt := hrest other hother n hid
          omega
        · omega
      · rcases mem_append.mp hn with hn | hn
        · exact .inr (mem_nodeFiles.mp hn).1
        · rcases hmem n hn with hold | hnew
          · exact .inl (mem_append_right _ hold)
          · exact .inr (by omega)

theorem complete_repairedNodes (hagree : AgreeBelow pipeline paramsHash start disk disk')
    (hfit : id + (filesOf (plannedRepair env chunker docId id
      (nodes.filter (isDamaged pipeline paramsHash disk)))).length < 4294967296)
    (hwritten : ∀ file ∈ filesOf (plannedRepair env chunker docId id
      (nodes.filter (isDamaged pipeline paramsHash disk))),
        disk'.contains (chunkMdRel pipeline paramsHash file.1) = true) :
    ∀ node ∈ repairedNodes env chunker docId pipeline paramsHash disk id nodes,
      node.body.trim ≠ [] → allExist pipeline paramsHash disk' node = true := by
  induction nodes generalizing id with
  | nil => exact nofun
  | cons node rest ih =>
    have hrest := fun other hother => hids other (mem_cons_of_mem node hother)
    rw [filter_cons] at hfit hwritten
    rw [repairedNodes]
    cases hdamaged : isDamaged pipeline paramsHash disk node with
    | false =>
      rw [hdamaged, if_neg Bool.false_ne_true] at hfit hwritten
      rw [if_neg Bool.false_ne_true]
      refine forall_mem_cons.mpr ⟨fun hbody => ?_, ih hrest hfit hwritten⟩
      rw [allExist_congr (hids node mem_cons_self) hagree]
      unfold isDamaged at hdamaged
      rw [bne_iff_ne.mpr hbody, Bool.true_and, Bool.not_eq_false'] at hdamaged
      exact hdamaged
    | true =>
      rw [hdamaged, if_pos rfl, filesOf_cons] at hfit hwritten
      rw [length_append, ← add_assoc] at hfit
      rw [if_pos rfl]
      refine forall_mem_cons.mpr ⟨fun _ => ?_, ih hrest hfit fun file hfile =>
        hwritten file (mem_append_right _ hfile)⟩
      have hne : refsTo (nodeFiles env chunker docId node id) ≠ [] := by
        have hlength := @length_plannedFiles docId node id (repairChunks env chunker node.body)
        have hpos := length_pos_iff.mpr (@repairChunks_ne_nil env chunker node.body)
        unfold refsTo nodeFiles
        intro hnil
        rw [map_eq_nil_iff.mp hnil, length_nil] at hlength
        omega
      have hall : (refsTo (nodeFiles env chunker docId node id)).all
          (chunkFileExists pipeline paramsHash disk') = true := by
        refine all_eq_true.mpr fun chunk hchunk => ?_
        obtain ⟨file, hfile, rfl⟩ := mem_map.mp hchunk
        have hrange := mem_nodeFiles.mp (mem_map_of_mem (f := fst) hfile)
        have hlt : file.1 < 4294967296 := by omega
        unfold chunkRef chunkFileExists
        dsimp only
        rw [hwritten file (mem_append_left _ hfile), decide_eq_true hlt]
        rfl
      unfold allExist StoredNode.withChunks
      dsimp only
      rw [hall, Bool.and_true, Bool.not_eq_true', isEmpty_eq_false_iff]
      exact hne

end

/-- The damaged nodes are the first ones with their ids, and no other file stands where a new one
is written. -/
structure CanRepair (env : Environment) (chunker : Bm25CohesionChunker)
    (docId pipeline paramsHash : Text) (tree : StoredStructure) (disk : EntryFiles) : Prop where
  first : DamagedFirst pipeline paramsHash disk tree.preorder
  free : ∀ file ∈ newFiles env chunker docId pipeline paramsHash tree disk, ∀ content,
    disk.get? (chunkMdRel pipeline paramsHash file.1) = some content → content = file.2

section

variable {tree : StoredStructure} {disk : EntryFiles} {files : Dict Text Text}

theorem lt_saturatingNext {ids : List ℕ} (h : ∀ id ∈ ids, id < 4294967295) :
    ∀ id ∈ ids, id < saturatingNext (ids.foldl max 0) := by
  have hmax : ∀ (ids : List ℕ) (start : ℕ), start ≤ ids.foldl max start ∧
      ∀ id ∈ ids, id ≤ ids.foldl max start := by
    intro ids
    induction ids with
    | nil => exact fun _ => ⟨le_refl _, nofun⟩
    | cons id ids ih =>
      intro start
      obtain ⟨hstart, hids⟩ := ih (max start id)
      rw [foldl_cons]
      exact ⟨(le_max_left _ _).trans hstart,
        forall_mem_cons.mpr ⟨(le_max_right _ _).trans hstart, hids⟩⟩
  intro id hid
  have hle := (hmax ids 0).2 id hid
  have hlt := h id hid
  unfold saturatingNext
  split <;> omega

theorem lt_nextStoredChunkId (h : ∀ id ∈ storedChunkIds tree, id < 4294967295) :
    ∀ node ∈ tree.preorder, ∀ id ∈ node.chunkIds, id < nextStoredChunkId tree := by
  intro node hnode id hid
  have hmem : id ∈ storedChunkIds tree := mem_flatMap.mpr ⟨node, hnode, hid⟩
  unfold nextStoredChunkId
  rw [if_neg (ne_nil_of_mem hmem)]
  exact lt_saturatingNext h id hmem

theorem repairStructure_spec (hfit : FitsU32 env chunker docId pipeline paramsHash tree disk) :
    (repairStructure env chunker docId pipeline paramsHash tree files disk).tree =
        insertPlan tree (plannedRepair env chunker docId (nextStoredChunkId tree)
          (damagedNodes pipeline paramsHash tree disk)) ∧
      (repairStructure env chunker docId pipeline paramsHash tree files disk).disk =
        disk.writeAll ((newFiles env chunker docId pipeline paramsHash tree disk).map
          (atPath pipeline paramsHash)) :=
  foldl_repairNode (lt_nextStoredChunkId hfit.stored) (fun _ _ => rfl) (le_refl _) hfit.fresh

theorem nodup_newFiles : ((newFiles env chunker docId pipeline paramsHash tree disk).map
    (atPath pipeline paramsHash) |>.map fst).Nodup := by
  have hids : ((newFiles env chunker docId pipeline paramsHash tree disk).map fst).Nodup := by
    unfold newFiles
    rw [map_fst_filesOf]
    exact nodup_range'
  have hpaths := hids.map (f := chunkMdRel pipeline paramsHash) fun _ _ => chunkMdRel_injective
  rw [List.map_map] at hpaths ⊢
  exact hpaths

theorem agreeBelow_newFiles : AgreeBelow pipeline paramsHash (nextStoredChunkId tree) disk
    (disk.writeAll ((newFiles env chunker docId pipeline paramsHash tree disk).map
      (atPath pipeline paramsHash))) := by
  refine agreeBelow_writeAll fun file hfile => ?_
  have hmem := mem_map_of_mem (f := fst) hfile
  unfold newFiles at hmem
  rw [map_fst_filesOf, mem_range'_1] at hmem
  exact hmem.1

variable {tree' : StoredStructure}
variable (hfit : FitsU32 env chunker docId pipeline paramsHash tree disk)
include hfit

theorem repairs_of_canRepair (h : CanRepair env chunker docId pipeline paramsHash tree disk)
    (htree : tree' = insertPlan tree (plannedRepair env chunker docId (nextStoredChunkId tree)
      (damagedNodes pipeline paramsHash tree disk))) :
    Repairs pipeline paramsHash tree tree' disk
      (disk.writeAll ((newFiles env chunker docId pipeline paramsHash tree disk).map
        (atPath pipeline paramsHash))) := by
  have hids := lt_nextStoredChunkId hfit.stored
  have hnodes : tree'.preorder = repairedNodes env chunker docId pipeline paramsHash disk
      (nextStoredChunkId tree) tree.preorder := by
    rw [htree, preorder_insertPlan]
    exact @foldl_insertRefs env chunker docId pipeline paramsHash disk [] _ (nextStoredChunkId tree) h.first
  refine ⟨?_, ?_, fun hnodup => ?_, fun id content hget => ?_⟩
  · rw [hnodes]
    refine complete_repairedNodes hids agreeBelow_newFiles hfit.fresh fun file hfile => ?_
    refine Dict.contains_writeAll_of_mem disk ?_
    rw [List.map_map]
    exact mem_map.mpr ⟨file, hfile, rfl⟩
  · rw [hnodes]
    exact forall₂_repairedNodes _ hids agreeBelow_newFiles
  · unfold storedChunkIds
    rw [hnodes]
    exact (chunkIds_repairedNodes hids (le_refl _) hfit.fresh hnodup).1
  · by_cases hmem : chunkMdRel pipeline paramsHash id ∈ ((newFiles env chunker docId pipeline
        paramsHash tree disk).map (atPath pipeline paramsHash)).map fst
    · rw [List.map_map, mem_map] at hmem
      obtain ⟨file, hfile, heq⟩ := hmem
      obtain rfl := chunkMdRel_injective heq
      have hread := Dict.get?_writeAll_of_mem disk nodup_newFiles
        (mem_map_of_mem (f := atPath pipeline paramsHash) hfile)
      rw [h.free file hfile content hget]
      exact hread
    · rw [Dict.get?_writeAll_of_notMem _ hmem]
      exact hget

theorem canRepair_of_repairs
    (htree : tree' = insertPlan tree (plannedRepair env chunker docId (nextStoredChunkId tree)
      (damagedNodes pipeline paramsHash tree disk)))
    (h : Repairs pipeline paramsHash tree tree' disk
      (disk.writeAll ((newFiles env chunker docId pipeline paramsHash tree disk).map
        (atPath pipeline paramsHash)))) :
    CanRepair env chunker docId pipeline paramsHash tree disk := by
  refine ⟨fun before node after hsplit hdamaged hshadowed => ?_, fun file hfile content hget => ?_⟩
  · -- a node behind another one with its id is left as it is
    have hmem : node ∈ tree'.preorder := by
      rw [htree, preorder_insertPlan, hsplit]
      obtain ⟨before', after', heq⟩ := foldl_insertRefs_shadowed hshadowed
        (plannedRepair env chunker docId (nextStoredChunkId tree)
          (damagedNodes pipeline paramsHash tree disk))
      rw [heq]
      exact mem_append_right _ mem_cons_self
    have hids := lt_nextStoredChunkId hfit.stored node (hsplit ▸ mem_append_right _ mem_cons_self)
    unfold isDamaged at hdamaged
    rw [Bool.and_eq_true, bne_iff_ne, Bool.not_eq_true'] at hdamaged
    have hexist := h.complete node hmem hdamaged.1
    rw [allExist_congr hids agreeBelow_newFiles, hdamaged.2] at hexist
    cases hexist
  · have hread := Dict.get?_writeAll_of_mem disk nodup_newFiles
      (mem_map_of_mem (f := atPath pipeline paramsHash) hfile)
    exact Option.some.inj ((h.preserved file.1 content hget).symm.trans hread)

end

/-- With ids that fit, the repair is complete and conservative if and only if the damaged nodes are
the first ones with their ids and no other file stands where a new one is written. -/
theorem attachMissingChunks_iff (env : Environment) (tree : StoredStructure)
    (config : PageIndexConfig) (index : SkillsIndex) (disk : EntryFiles)
    (docId pipeline paramsHash : Text) {chunker : Bm25CohesionChunker}
    (hchunker : Bm25CohesionChunker.new config.cohesionConfigForChunking = .ok chunker)
    (hfit : FitsU32 env chunker docId pipeline paramsHash tree disk) :
    ∃ changed tree' index' disk', attachMissingChunksToStructure env tree config index disk docId
        pipeline paramsHash = .ok (changed, tree', index', disk') ∧
      (Repairs pipeline paramsHash tree tree' disk disk' ↔
        CanRepair env chunker docId pipeline paramsHash tree disk) := by
  obtain ⟨htree, hdisk⟩ := @repairStructure_spec env chunker docId pipeline paramsHash tree disk
    index.files hfit
  have hrun : ∃ changed index', attachMissingChunksToStructure env tree config index disk docId
      pipeline paramsHash = .ok (changed,
        (repairStructure env chunker docId pipeline paramsHash tree index.files disk).tree, index',
        (repairStructure env chunker docId pipeline paramsHash tree index.files disk).disk) := by
    unfold attachMissingChunksToStructure
    rw [hchunker]
    exact ⟨_, _, rfl⟩
  obtain ⟨changed, index', hrun⟩ := hrun
  refine ⟨changed, _, index', _, hrun, ?_⟩
  rw [hdisk]
  exact ⟨canRepair_of_repairs hfit htree, fun h => repairs_of_canRepair hfit h htree⟩

end

def storedNode (nodeId : Option StoredId) (text : Text) : StoredNode := ⟨nodeId, 1, some text, none⟩

/-- A chunk for each text. -/
def wholeConfig : PageIndexConfig :=
  { PageIndexConfig.default with enableBm25Chunking := false }

def wholeChunker : Bm25CohesionChunker := ⟨wholeConfig.cohesionConfigForChunking, rfl⟩

/-- One node, of which no chunk file is there. -/
def oneStoredNode : StoredStructure := .node (storedNode (some (.num 2)) "a") .nil .nil

theorem attachMissingChunks_iff_oneNode :
    ∃ changed tree' index' disk', attachMissingChunksToStructure plainEnvironment oneStoredNode
        wholeConfig .default .empty "d" "bm25" "default" =
          .ok (changed, tree', index', disk') ∧
      (Repairs "bm25" "default" oneStoredNode tree' .empty disk' ↔
        CanRepair plainEnvironment wholeChunker "d" "bm25" "default" oneStoredNode .empty) :=
  attachMissingChunks_iff plainEnvironment oneStoredNode wholeConfig .default .empty "d"
    "bm25" "default" rfl ⟨nofun, by decide +kernel⟩

/-- Two nodes without ids. -/
def unnumberedNodes : StoredStructure :=
  .node (storedNode none "a") .nil (.node (storedNode none "b") .nil .nil)

/-- The first node gets the chunks of both, one after the other, and the second stays without. -/
theorem unnumbered_node_stays_damaged :
    ∃ changed tree' index' disk', attachMissingChunksToStructure plainEnvironment unnumberedNodes
        wholeConfig .default .empty "d" "bm25" "default" =
          .ok (changed, tree', index', disk') ∧
      ¬Repairs "bm25" "default" unnumberedNodes tree' .empty disk' := by
  have hrun : attachMissingChunksToStructure plainEnvironment unnumberedNodes wholeConfig
      .default .empty "d" "bm25" "default" = .ok _ := rfl
  refine ⟨_, _, _, _, hrun, fun h => ?_⟩
  have hmem : storedNode none "b" ∈ (repairStructure plainEnvironment wholeChunker "d"
      "bm25" "default" unnumberedNodes .empty .empty).tree.preorder := by decide +kernel
  have hexist := h.complete _ hmem (by decide)
  cases hexist

end ClearYourTools.PageIndex
