import ClearYourTools.PageIndex.Proofs.DocumentFiles

/-!
# The shape of the heading forest

The stack of `build_tree_from_nodes` computes the forest that the levels of the headings describe.
-/

namespace ClearYourTools.PageIndex

open Misc List

/-- The forest of some headings by their levels. -/
def headingForest (nodes : List ContentNode) : Structure :=
  (Forest.ofLevels ContentNode.level nodes).map headingObj

/-- The headings in front that are below `level`. -/
def headingsBelow (level : ℕ) (nodes : List ContentNode) : List ContentNode :=
  nodes.takeWhile fun n => level < n.level

/-- The headings from the first one on that `level` does not have below it. -/
def headingsAfter (level : ℕ) (nodes : List ContentNode) : List ContentNode :=
  nodes.dropWhile fun n => level < n.level

@[simp] theorem headingForest_nil : headingForest [] = .nil := by
  rw [headingForest, Forest.ofLevels_nil]; rfl

theorem headingForest_cons (node : ContentNode) (rest : List ContentNode) :
    headingForest (node :: rest) =
      .node (headingObj node) (headingForest (headingsBelow node.level rest))
        (headingForest (headingsAfter node.level rest)) := by
  rw [headingForest, Forest.ofLevels_cons]; rfl

variable {level : ℕ} {node : ContentNode}

theorem headingsBelow_of_le (h : node.level ≤ level) (rest : List ContentNode) :
    headingsBelow level (node :: rest) = [] :=
  takeWhile_cons_of_neg (by simpa using h)

theorem headingsAfter_of_le (h : node.level ≤ level) (rest : List ContentNode) :
    headingsAfter level (node :: rest) = node :: rest :=
  dropWhile_cons_of_neg (by simpa using h)

theorem headingsBelow_of_lt (h : level < node.level) (rest : List ContentNode) :
    headingsBelow level (node :: rest) = node :: headingsBelow level rest :=
  takeWhile_cons_of_pos (by simpa using h)

theorem headingsAfter_of_lt (h : level < node.level) (rest : List ContentNode) :
    headingsAfter level (node :: rest) = headingsAfter level rest :=
  dropWhile_cons_of_pos (by simpa using h)

variable {l m : ℕ}

theorem headingsBelow_headingsBelow (h : l ≤ m) (nodes : List ContentNode) :
    headingsBelow m (headingsBelow l nodes) = headingsBelow m nodes := by
  rw [headingsBelow, headingsBelow, takeWhile_takeWhile, headingsBelow]
  congr 1
  funext n
  simp only [decide_eq_true_eq, decide_eq_decide]
  omega

theorem headingsAfter_headingsBelow (h : l ≤ m) (nodes : List ContentNode) :
    headingsAfter m (headingsBelow l nodes) = headingsBelow l (headingsAfter m nodes) := by
  induction nodes with
  | nil => rfl
  | cons node rest ih =>
    by_cases hm : m < node.level
    · rw [headingsBelow_of_lt (Nat.lt_of_le_of_lt h hm), headingsAfter_of_lt hm,
        headingsAfter_of_lt hm, ih]
    · rw [headingsAfter_of_le (Nat.not_lt.mp hm)]
      by_cases hl : l < node.level
      · rw [headingsBelow_of_lt hl, headingsAfter_of_le (Nat.not_lt.mp hm)]
      · rw [headingsBelow_of_le (Nat.not_lt.mp hl)]; rfl

theorem headingsAfter_headingsAfter (h : l ≤ m) (nodes : List ContentNode) :
    headingsAfter l (headingsAfter m nodes) = headingsAfter l nodes := by
  induction nodes with
  | nil => rfl
  | cons node rest ih =>
    by_cases hm : m < node.level
    · rw [headingsAfter_of_lt hm, headingsAfter_of_lt (Nat.lt_of_le_of_lt h hm), ih]
    · rw [headingsAfter_of_le (Nat.not_lt.mp hm)]

/-- What the stack and the roots become when the headings `rest` are read by their levels;
`pending` is already below the top of the stack. -/
def readOn (roots : Structure) : List MutableNode → Structure → List ContentNode → Structure
  | [], pending, rest => roots.append (pending.append (headingForest rest))
  | top :: stack, pending, rest =>
    readOn roots stack
      (.node top.value
        (top.children.append (pending.append (headingForest (headingsBelow top.level rest)))) .nil)
      (headingsAfter top.level rest)

theorem readOn_finishTop (top : MutableNode) (stack : List MutableNode) (roots : Structure)
    (rest : List ContentNode) :
    readOn (finishTop top stack roots).2 (finishTop top stack roots).1 .nil rest =
      readOn roots stack (.node top.value top.children .nil) rest := by
  cases stack with
  | nil => rw [finishTop, readOn, readOn, Forest.push, Forest.append_assoc]; rfl
  | cons parent stack =>
    rw [finishTop, readOn, readOn, Forest.push, Forest.append_assoc]; rfl

theorem readOn_of_le {top : MutableNode} (h : node.level ≤ top.level) (stack : List MutableNode)
    (roots : Structure) (rest : List ContentNode) :
    readOn roots (top :: stack) .nil (node :: rest) =
      readOn roots stack (.node top.value top.children .nil) (node :: rest) := by
  rw [readOn, headingsBelow_of_le h, headingsAfter_of_le h, headingForest_nil, Forest.append_nil,
    Forest.append_nil]

theorem readOn_popClosed (node : ContentNode) (rest : List ContentNode) (fuel : ℕ)
    (stack : List MutableNode) (roots : Structure) :
    readOn (popClosed node.level fuel stack roots).2 (popClosed node.level fuel stack roots).1 .nil
        (node :: rest) = readOn roots stack .nil (node :: rest) := by
  induction fuel generalizing stack roots with
  | zero => rfl
  | succ fuel ih =>
    cases stack with
    | nil => rfl
    | cons top stack =>
      rw [popClosed]
      split
      · rename_i hle
        rw [ih, readOn_finishTop, readOn_of_le hle]
      · rfl

variable {stack : List MutableNode}

theorem top_popClosed (level : ℕ) {fuel : ℕ} (h : stack.length ≤ fuel) (roots : Structure) :
    ∀ top ∈ (popClosed level fuel stack roots).1.head?, top.level < level := by
  induction fuel generalizing stack roots with
  | zero =>
    rw [length_eq_zero_iff.mp (Nat.le_zero.mp h)]
    simp [popClosed]
  | succ fuel ih =>
    cases stack with
    | nil => simp [popClosed]
    | cons top stack =>
      rw [popClosed]
      split
      · refine ih ?_ _
        rw [(finishTop_spec top stack roots).2]
        exact Nat.le_of_succ_le_succ h
      · rename_i hlt
        simpa using hlt

theorem readOn_push (h : ∀ top ∈ stack.head?, top.level < node.level) (roots : Structure)
    (rest : List ContentNode) :
    readOn roots (⟨headingObj node, node.level, .nil⟩ :: stack) .nil rest =
      readOn roots stack .nil (node :: rest) := by
  rw [readOn]
  cases stack with
  | nil => rw [readOn, readOn, headingForest_cons]; rfl
  | cons top stack =>
    have hlt : top.level < node.level := h top rfl
    rw [readOn, readOn, headingsBelow_of_lt hlt, headingsAfter_of_lt hlt, headingForest_cons,
      headingsBelow_headingsBelow hlt.le, headingsAfter_headingsBelow hlt.le,
      headingsAfter_headingsAfter hlt.le]
    rfl

theorem readOn_pushHeading (state : List MutableNode × Structure) (node : ContentNode)
    (rest : List ContentNode) :
    readOn (pushHeading state node).2 (pushHeading state node).1 .nil rest =
      readOn state.2 state.1 .nil (node :: rest) := by
  rw [pushHeading, readOn_push (top_popClosed node.level (Nat.le_refl _) state.2), readOn_popClosed]

theorem popAll_eq_readOn {fuel : ℕ} (h : stack.length ≤ fuel) (roots : Structure) :
    popAll fuel stack roots = readOn roots stack .nil [] := by
  induction fuel generalizing stack roots with
  | zero =>
    rw [length_eq_zero_iff.mp (Nat.le_zero.mp h)]
    simp [popAll, readOn, Forest.append]
  | succ fuel ih =>
    cases stack with
    | nil => simp [popAll, readOn, Forest.append]
    | cons top stack =>
      have hlength := (finishTop_spec top stack roots).2
      rw [length_cons] at h
      rw [popAll, ih (by omega), readOn_finishTop, readOn, headingsBelow, headingsAfter,
        takeWhile_nil, dropWhile_nil, headingForest_nil, Forest.append_nil, Forest.append_nil]

variable (nodeList : List ContentNode)

theorem buildTreeFromNodes_eq : buildTreeFromNodes nodeList = headingForest nodeList := by
  have hfold : ∀ state : List MutableNode × Structure,
      readOn (nodeList.foldl pushHeading state).2 (nodeList.foldl pushHeading state).1 .nil [] =
        readOn state.2 state.1 .nil nodeList := by
    induction nodeList with
    | nil => exact fun _ => rfl
    | cons node rest ih => exact fun state => by rw [foldl_cons, ih, readOn_pushHeading]
  rw [buildTreeFromNodes, popAll_eq_readOn (Nat.le_refl _), hfold]
  rfl

theorem parents_buildTreeFromNodes {j : ℕ} (hj : j < nodeList.length) :
    ∃ o, NearestOpen ContentNode.level nodeList j o ∧
      (buildTreeFromNodes nodeList).parents[j]? = some o := by
  obtain ⟨o, hnearest, hget⟩ :=
    @Forest.parentsFrom_ofLevels _ ContentNode.level nodeList none 0 j hj
  refine ⟨o, hnearest, ?_⟩
  rw [buildTreeFromNodes_eq, headingForest, Forest.parents_map, Forest.parents, hget]
  cases o with
  | none => rfl
  | some i => simp

theorem parents_eq_iff {j : ℕ} (hj : j < nodeList.length) (o : Option ℕ) :
    (buildTreeFromNodes nodeList).parents[j]? = some o ↔
      NearestOpen ContentNode.level nodeList j o := by
  obtain ⟨o', hnearest, hget⟩ := parents_buildTreeFromNodes nodeList hj
  rw [hget]
  constructor
  · rintro ⟨⟩
    exact hnearest
  · exact fun h => congrArg some (hnearest.unique h)

theorem length_parents_buildTreeFromNodes :
    (buildTreeFromNodes nodeList).parents.length = nodeList.length := by
  rw [Forest.parents, Forest.length_parentsFrom, preorder_buildTreeFromNodes, length_map]

theorem parentsFrom_writeNodeId (tree : Structure) (start : ℕ) (parent : Option ℕ) (pos : ℕ) :
    (writeNodeId tree start).1.parentsFrom parent pos = tree.parentsFrom parent pos := by
  induction tree generalizing start parent pos with
  | nil => rfl
  | node obj children rest ihc ihr =>
    have hlength : (writeNodeId children (start + 1)).1.preorder.length =
        children.preorder.length := by
      rw [← Forest.length_parentsFrom none 0, ihc, Forest.length_parentsFrom]
    simp only [writeNodeId, Forest.parentsFrom, ihc, ihr, hlength]

theorem map_nodeId_numbered (start : ℕ) (objs : List NodeObj) :
    (numbered start objs).map NodeObj.nodeId = (List.range' start objs.length).map some := by
  induction objs generalizing start with
  | nil => rfl
  | cons obj rest ih =>
    rw [numbered, map_cons, ih, length_cons, range'_succ, map_cons]

theorem map_lineNum_numbered (start : ℕ) (objs : List NodeObj) :
    (numbered start objs).map NodeObj.lineNum = objs.map NodeObj.lineNum := by
  induction objs generalizing start with
  | nil => rfl
  | cons obj rest ih => rw [numbered, map_cons, ih, map_cons]

theorem numbered_by_line {objs : List NodeObj} (h : (objs.map NodeObj.lineNum).Pairwise (· < ·))
    (start : ℕ) : ∀ x ∈ numbered start objs, ∀ y ∈ numbered start objs,
      x.lineNum < y.lineNum → x.id < y.id := by
  have hlines : (numbered start objs).Pairwise fun x y => x.lineNum < y.lineNum := by
    rw [← pairwise_map, map_lineNum_numbered]
    exact h
  have hids : (numbered start objs).Pairwise fun x y => x.id < y.id := by
    rw [← pairwise_map, map_id_numbered]
    exact pairwise_lt_range'
  intro x hx y hy hlt
  obtain ⟨i, hi, rfl⟩ := getElem_of_mem hx
  obtain ⟨j, hj, rfl⟩ := getElem_of_mem hy
  rcases Nat.lt_trichotomy i j with hij | rfl | hji
  · exact pairwise_iff_getElem.mp hids i j hi hj hij
  · exact absurd hlt (Nat.lt_irrefl _)
  · have := pairwise_iff_getElem.mp hlines j i hj hi hji
    omega

theorem map_lineNum_fillTexts (ls : List Text) (nodes : List ContentNode) :
    (fillTexts ls nodes).map ContentNode.lineNum = nodes.map ContentNode.lineNum := by
  induction nodes with
  | nil => rfl
  | cons node rest ih => exact congrArg (node.lineNum :: ·) ih

theorem sorted_sections (content : Text) :
    ((sections content).map ContentNode.lineNum).Pairwise (· < ·) := by
  rw [sections, extractNodesFromMarkdown, extractNodeTextContent, map_lineNum_fillTexts,
    headingNodes_lineNum]
  · exact sorted_extractNodesFrom false 0 _
  · intro node hnode
    obtain ⟨i, line, hi, hget, hhead⟩ :=
      mem_extractNodesFrom (mem_map_of_mem (f := HeaderNode.lineNum) hnode)
    exact ⟨i, line, by omega, hget, hhead⟩

/-- What holds of the forest `tree` of a list of headings and of its numbering `next` from
`start` on. -/
structure HeadingTree (nodeList : List ContentNode) (start : ℕ) (tree : Structure)
    (next : Structure × ℕ) : Prop where
  order : structureToList tree = nodeList.map headingObj
  positions : tree.parents.length = nodeList.length
  below : ∀ i j, tree.parents[j]? = some (some i) → Smaller ContentNode.level nodeList i j
  parent : ∀ j < nodeList.length, ∀ o,
    tree.parents[j]? = some o ↔ NearestOpen ContentNode.level nodeList j o
  shape : next.1.parents = tree.parents
  numbering : structureToList next.1 = numbered start (structureToList tree)
  nodeIds : (structureToList next.1).map NodeObj.nodeId =
    (List.range' start nodeList.length).map some
  free : next.2 = start + nodeList.length
  unique : ((structureToList next.1).map NodeObj.id).Nodup
  lines : (nodeList.map ContentNode.lineNum).Pairwise (· < ·) →
    ∀ x ∈ structureToList next.1, ∀ y ∈ structureToList next.1, x.lineNum < y.lineNum → x.id < y.id

/-- The heading tree of every list of headings, and the order of the lists that the parser
gives. -/
theorem headingTree_buildTreeFromNodes :
    (∀ (nodeList : List ContentNode) (start : ℕ), HeadingTree nodeList start
      (buildTreeFromNodes nodeList) (writeNodeId (buildTreeFromNodes nodeList) start)) ∧
      ∀ content : Text, ((sections content).map ContentNode.lineNum).Pairwise (· < ·) := by
  refine ⟨fun nodeList start => ?_, sorted_sections⟩
  have horder := preorder_buildTreeFromNodes nodeList
  obtain ⟨hnumbered, hfree⟩ := writeNodeId_spec (buildTreeFromNodes nodeList) start
  rw [horder] at hnumbered hfree
  rw [length_map] at hfree
  have hlength : (nodeList.map headingObj).length = nodeList.length := length_map _
  have hlast : ∀ j, j < (buildTreeFromNodes nodeList).parents.length → j < nodeList.length := by
    rw [length_parents_buildTreeFromNodes]
    exact fun _ h => h
  refine ⟨horder, length_parents_buildTreeFromNodes nodeList, fun i j hget => ?_,
    fun j hj => parents_eq_iff nodeList hj, parentsFrom_writeNodeId _ start none 0, ?_, ?_, hfree,
    ?_, fun hlines => ?_⟩
  · have hj := hlast j (List.getElem?_eq_some_iff.mp hget).1
    exact ((parents_eq_iff nodeList hj (some i)).mp hget).1.smaller
  · rw [structureToList, structureToList, horder, hnumbered]
  · rw [structureToList, hnumbered, map_nodeId_numbered, hlength]
  · rw [structureToList, hnumbered, map_id_numbered]
    exact nodup_range'
  · rw [structureToList, hnumbered]
    refine numbered_by_line ?_ start
    rw [List.map_map]
    exact hlines

end ClearYourTools.PageIndex
