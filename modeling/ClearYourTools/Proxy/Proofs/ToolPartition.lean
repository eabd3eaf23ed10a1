import Mathlib.Data.List.Forall2
import ClearYourTools.Proxy.OpenaiRequest

/-!
# The rebuilt tools are a partition

The entries of a `tools[]` array are its unnamed tools, its functions and the tools of its
namespaces. One pass keeps the system entries, by the qualified name of a namespace's tool; the
other makes the stubs, by the name of the namespace.
-/

namespace ClearYourTools.Proxy

open Misc List Option
open Json (get? PyFormat noFloats)

variable {φ : Type}

/-- An entry of the array, with the name of its namespace. -/
@[ext]
structure Entry (φ : Type) where
  ns : Option Text
  tool : Fields φ

section

variable (p : PyFormat φ) (isMcp : Text → Bool)

/-- The entries of one tool of the array. -/
def entriesOf (tool : Fields φ) : List (Entry φ) :=
  if openaiToolPassThrough p tool then [⟨none, tool⟩]
  else if isNamespace tool then
    (namespaceTools p tool).map fun child => ⟨some (toolName p tool), child⟩
  else [⟨none, tool⟩]

def entries (tools : List (Fields φ)) : List (Entry φ) := tools.flatMap (entriesOf p)

/-- The name under which an entry is pruned and called. -/
def Entry.qualifiedName (entry : Entry φ) : Text :=
  match entry.ns with
  | none => toolName p entry.tool
  | some ns => openaiNamespaceToolName ns (toolName p entry.tool)

def Entry.isMcpTool (entry : Entry φ) : Bool :=
  !openaiToolPassThrough p entry.tool && isMcp (entry.qualifiedName p)

/-- A pruned tool, and the place of the entry that it was pruned from. -/
structure Pruned (φ : Type) where
  origin : ℕ
  tool : Fields φ

/-- The entry at a place stays as it is, or takes over what was pruned from it. -/
def KeptAs (pruned : List (Pruned φ)) (place : ℕ) (entry kept : Entry φ) : Prop :=
  kept = entry ∨ openaiToolPassThrough p entry.tool = false ∧
    ∃ t ∈ pruned, t.origin = place ∧
      kept = { entry with tool := mergeApiToolOntoOriginal entry.tool t.tool }

/-- A stub of an entry: the same name in the same namespace, with the minimal schema. -/
structure StubOf (entry stub : Entry φ) : Prop where
  ns : stub.ns = entry.ns
  name : toolName p stub.tool = toolName p entry.tool
  schema : get? stub.tool parametersKey = some minimalObjectSchema

/-- The final tools have every entry of the original ones once: the unnamed and the system ones in
their order, and a stub for each MCP one. -/
def Partitions (original : List (Fields φ)) (pruned : List (Pruned φ)) (final : List (Fields φ)) :
    Prop :=
  ∃ kept stubs, entries p final = kept ++ stubs ∧
    List.Forall₂ (fun (e : Entry φ × ℕ) entry => KeptAs p pruned e.2 e.1 entry)
      ((entries p original).zipIdx.filter fun e => !e.1.isMcpTool p isMcp) kept ∧
    List.Forall₂ (StubOf p) ((entries p original).filter fun entry => entry.isMcpTool p isMcp) stubs

/-- A named tool of a namespace is an MCP tool exactly when the namespace is one, and what is looked
up for a system entry under its name was pruned from it, or overlays nothing else. -/
structure RebuildsCleanly (original : List (Fields φ)) (pruned : List (Pruned φ)) : Prop where
  sameClass : ∀ entry ∈ entries p original, openaiToolPassThrough p entry.tool = false →
    ∀ ns, entry.ns = some ns → isMcp ns = isMcp (entry.qualifiedName p)
  ownPruning : ∀ e ∈ (entries p original).zipIdx, openaiToolPassThrough p e.1.tool = false →
    isMcp (e.1.qualifiedName p) = false →
      ∀ found, prunedByName p isMcp (pruned.map Pruned.tool) (e.1.qualifiedName p) = some found →
        mergeApiToolOntoOriginal e.1.tool found = e.1.tool ∨ ∃ t ∈ pruned, t.origin = e.2 ∧
          mergeApiToolOntoOriginal e.1.tool found = mergeApiToolOntoOriginal e.1.tool t.tool

variable (prunedNamed : List (Fields φ))

/-- A kept entry, with what is looked up under its name. -/
def Entry.kept (entry : Entry φ) : Entry φ :=
  if openaiToolPassThrough p entry.tool then entry
  else
    match prunedByName p isMcp prunedNamed (entry.qualifiedName p) with
    | some found => { entry with tool := mergeApiToolOntoOriginal entry.tool found }
    | none => entry

/-- The stub pass looks at the name of the namespace. -/
def Entry.stubbed (entry : Entry φ) : Bool :=
  !openaiToolPassThrough p entry.tool && isMcp (entry.ns.getD (toolName p entry.tool))

def Entry.stub (entry : Entry φ) : Entry φ :=
  match entry.ns with
  | none => { entry with tool := openaiMcpFlatFunctionStub p entry.tool }
  | some _ => { entry with tool := openaiMcpFunctionChildStub p entry.tool }

variable {p} {isMcp}

variable {tool : Fields φ}

theorem toolName_ne_nil (h : openaiToolPassThrough p tool = false) : toolName p tool ≠ [] := by
  intro hnil
  rw [openaiToolPassThrough, hnil] at h
  cases h

theorem openaiNamespaceToolName_ne_nil {ns name : Text} (h : name ≠ []) :
    openaiNamespaceToolName ns name ≠ [] := by
  rw [openaiNamespaceToolName]
  split
  · exact append_ne_nil_of_right_ne_nil _ (cons_ne_nil _ _)
  · exact h

variable {entry : Entry φ}

theorem qualifiedName_ne_nil (h : openaiToolPassThrough p entry.tool = false) :
    entry.qualifiedName p ≠ [] := by
  rw [Entry.qualifiedName]
  split
  · exact toolName_ne_nil h
  · exact openaiNamespaceToolName_ne_nil (toolName_ne_nil h)

theorem get?_overlaySchema {original apiTool out : Fields φ} {schemaKey key : Text}
    (h : key ≠ schemaKey) :
    get? (overlaySchema original apiTool out schemaKey) key = get? out key := by
  rw [overlaySchema]
  split
  · rfl
  · rfl
  · rfl
  · exact Json.get?_set_of_ne h _

theorem get?_mergeApiToolOntoOriginal {original apiTool : Fields φ} {key : Text}
    (hdescription : key ≠ descriptionKey) (hschema : key ∉ toolSchemaKeys) :
    get? (mergeApiToolOntoOriginal original apiTool) key = get? original key := by
  rw [mergeApiToolOntoOriginal]
  have hfold : ∀ (keys : List Text) (out : Fields φ), key ∉ keys →
      get? (keys.foldl (overlaySchema original apiTool) out) key = get? out key := by
    intro keys
    induction keys with
    | nil => exact fun out _ => rfl
    | cons schemaKey keys ih =>
      intro out hkey
      rw [mem_cons, not_or] at hkey
      rw [foldl_cons, ih _ hkey.2, get?_overlaySchema hkey.1]
  rw [hfold _ _ hschema]
  split
  · exact Json.get?_set_of_ne hdescription _
  · rfl

variable (original apiTool : Fields φ)

theorem toolName_mergeApiToolOntoOriginal :
    toolName p (mergeApiToolOntoOriginal original apiTool) = toolName p original := by
  rw [toolName, get?_mergeApiToolOntoOriginal (by decide) (by decide), toolName]

theorem isNamespace_mergeApiToolOntoOriginal :
    isNamespace (mergeApiToolOntoOriginal original apiTool) = isNamespace original := by
  rw [isNamespace, fieldIs, get?_mergeApiToolOntoOriginal (by decide) (by decide), isNamespace,
    fieldIs]

theorem entries_filterMap (f : Fields φ → Option (Fields φ)) (tools : List (Fields φ)) :
    entries p (tools.filterMap f) = tools.flatMap fun tool => (f tool).toList.flatMap (entriesOf p) := by
  induction tools with
  | nil => rfl
  | cons tool tools ih =>
    rw [flatMap_cons, ← ih]
    cases hf : f tool with
    | none =>
      rw [filterMap_cons_none hf]
      rfl
    | some tool' =>
      rw [filterMap_cons_some hf, entries, flatMap_cons, toList_some, flatMap_singleton]
      rfl

theorem namespaceTools_of_objects {children : List (Fields φ)}
    (h : get? tool toolsKey = some (.arr (children.map .obj))) :
    namespaceTools p tool = children := by
  rw [namespaceTools, h, Json.orElse]
  cases children with
  | nil => rfl
  | cons child children =>
    refine Eq.trans (filterMap_map) ?_
    exact filterMap_some

theorem keepSystemEntry_eq (prunedNamed : List (Fields φ)) (entry : Entry φ)
    (hnamed : openaiToolPassThrough p entry.tool = false) :
    keepSystemEntry p isMcp prunedNamed (entry.qualifiedName p) entry.tool =
      if entry.isMcpTool p isMcp then none else some (entry.kept p isMcp prunedNamed).tool := by
  have hname : (entry.qualifiedName p).isEmpty = false := by
    rw [isEmpty_eq_false_iff]
    exact qualifiedName_ne_nil hnamed
  rw [keepSystemEntry, isSystemNamedTool, Entry.isMcpTool, hname, hnamed, Entry.kept, hnamed]
  cases isMcp (entry.qualifiedName p) with
  | true => rfl
  | false =>
    cases prunedByName p isMcp prunedNamed (entry.qualifiedName p) with
    | none => rfl
    | some found => rfl

theorem entriesOf_passThrough (h : openaiToolPassThrough p tool = true) :
    entriesOf p tool = [⟨none, tool⟩] := by
  rw [entriesOf, if_pos h]

theorem entriesOf_namespace (h : openaiToolPassThrough p tool = false)
    (hns : isNamespace tool = true) : entriesOf p tool =
      (namespaceTools p tool).map fun child => ⟨some (toolName p tool), child⟩ := by
  rw [entriesOf, h, if_neg Bool.false_ne_true, if_pos hns]

theorem entriesOf_flat (h : openaiToolPassThrough p tool = false) (hns : isNamespace tool = false) :
    entriesOf p tool = [⟨none, tool⟩] := by
  rw [entriesOf, h, if_neg Bool.false_ne_true, hns, if_neg Bool.false_ne_true]

theorem kept_ns (entry : Entry φ) : (entry.kept p isMcp prunedNamed).ns = entry.ns := by
  rw [Entry.kept]
  split
  · rfl
  · split
    · rfl
    · rfl

theorem kept_toolName (entry : Entry φ) :
    toolName p (entry.kept p isMcp prunedNamed).tool = toolName p entry.tool := by
  rw [Entry.kept]
  split
  · rfl
  · split
    · exact toolName_mergeApiToolOntoOriginal _ _
    · rfl

theorem kept_isNamespace (entry : Entry φ) :
    isNamespace (entry.kept p isMcp prunedNamed).tool = isNamespace entry.tool := by
  rw [Entry.kept]
  split
  · rfl
  · split
    · exact isNamespace_mergeApiToolOntoOriginal _ _
    · rfl

theorem isMcpTool_of_passThrough (h : openaiToolPassThrough p entry.tool = true) :
    entry.isMcpTool p isMcp = false := by
  rw [Entry.isMcpTool, h]
  rfl

theorem kept_of_passThrough (h : openaiToolPassThrough p entry.tool = true) :
    entry.kept p isMcp prunedNamed = entry := by
  rw [Entry.kept, if_pos h]

def keptEntries (p : PyFormat φ) (isMcp : Text → Bool) (prunedNamed : List (Fields φ))
    (es : List (Entry φ)) : List (Entry φ) :=
  (es.filter fun entry => !entry.isMcpTool p isMcp).map (Entry.kept p isMcp prunedNamed)

theorem mergeSystemOnlyNamespaceChildren_eq (ns : Text) (children : List (Fields φ)) :
    (mergeSystemOnlyNamespaceChildren p isMcp prunedNamed ns children).map
        (fun child => (⟨some ns, child⟩ : Entry φ)) =
      keptEntries p isMcp prunedNamed (children.map fun child => ⟨some ns, child⟩) := by
  induction children with
  | nil => rfl
  | cons child children ih =>
    rw [mergeSystemOnlyNamespaceChildren] at ih
    rw [mergeSystemOnlyNamespaceChildren, keptEntries, map_cons, filter_cons]
    rw [keptEntries] at ih
    cases hpass : openaiToolPassThrough p child with
    | true =>
      have hmcp : (⟨some ns, child⟩ : Entry φ).isMcpTool p isMcp = false :=
        isMcpTool_of_passThrough hpass
      rw [filterMap_cons_some (by rw [if_pos hpass]), hmcp, Bool.not_false, if_pos rfl,
        map_cons, map_cons, ih, kept_of_passThrough prunedNamed hpass]
    | false =>
      have hkeep := @keepSystemEntry_eq _ p isMcp prunedNamed ⟨some ns, child⟩ hpass
      cases hmcp : (⟨some ns, child⟩ : Entry φ).isMcpTool p isMcp with
      | true =>
        rw [hmcp, if_pos rfl] at hkeep
        rw [filterMap_cons_none (by rw [hpass, if_neg Bool.false_ne_true]; exact hkeep),
          Bool.not_true, if_neg Bool.false_ne_true, ih]
      | false =>
        rw [hmcp, if_neg Bool.false_ne_true] at hkeep
        rw [filterMap_cons_some (by rw [hpass, if_neg Bool.false_ne_true]; exact hkeep),
          Bool.not_false, if_pos rfl, map_cons, map_cons, ih]
        congr 1
        exact Entry.ext (kept_ns prunedNamed ⟨some ns, child⟩).symm rfl

theorem keepSystemOnly_entriesOf (tool : Fields φ) :
    (if openaiToolPassThrough p tool then some tool
      else if isNamespace tool then mergeSystemOnlyNamespaceTool p isMcp prunedNamed tool
      else keepSystemEntry p isMcp prunedNamed (toolName p tool) tool).toList.flatMap
        (entriesOf p) = keptEntries p isMcp prunedNamed (entriesOf p tool) := by
  cases hpass : openaiToolPassThrough p tool with
  | true =>
    have hmcp : (⟨none, tool⟩ : Entry φ).isMcpTool p isMcp = false := isMcpTool_of_passThrough hpass
    rw [if_pos rfl, toList_some, flatMap_singleton, entriesOf_passThrough hpass,
      keptEntries, filter_cons, hmcp, Bool.not_false, if_pos rfl, filter_nil,
      map_cons, map_nil, kept_of_passThrough prunedNamed hpass]
  | false =>
    rw [if_neg Bool.false_ne_true]
    cases hns : isNamespace tool with
    | true =>
      rw [if_pos rfl, entriesOf_namespace hpass hns, ← mergeSystemOnlyNamespaceChildren_eq,
        mergeSystemOnlyNamespaceTool]
      split
      · rename_i hnil
        rw [hnil]
        rfl
      have hname : ∀ v, toolName p (Json.set tool toolsKey v) = toolName p tool := by
        intro v
        rw [toolName, Json.get?_set_of_ne (by decide), toolName]
      rw [toList_some, flatMap_singleton, entriesOf_namespace,
        namespaceTools_of_objects (Json.get?_set_self _ _ _), hname]
      · rw [openaiToolPassThrough, hname]
        exact hpass
      · rw [isNamespace, fieldIs, Json.get?_set_of_ne (by decide)]
        exact hns
    | false =>
      have hkeep := @keepSystemEntry_eq _ p isMcp prunedNamed ⟨none, tool⟩ hpass
      rw [if_neg Bool.false_ne_true, entriesOf_flat hpass hns, keptEntries, filter_cons]
      cases hmcp : (⟨none, tool⟩ : Entry φ).isMcpTool p isMcp with
      | true =>
        rw [hmcp, if_pos rfl] at hkeep
        have hgone : keepSystemEntry p isMcp prunedNamed (toolName p tool) tool = none := hkeep
        rw [hgone]
        rfl
      | false =>
        rw [hmcp, if_neg Bool.false_ne_true] at hkeep
        have hkept : keepSystemEntry p isMcp prunedNamed (toolName p tool) tool =
            some ((⟨none, tool⟩ : Entry φ).kept p isMcp prunedNamed).tool := hkeep
        rw [hkept, toList_some, flatMap_singleton, Bool.not_false, if_pos rfl,
          filter_nil, map_cons, map_nil, entriesOf_flat]
        · congr 1
          exact Entry.ext (kept_ns prunedNamed ⟨none, tool⟩).symm rfl
        · rw [openaiToolPassThrough, kept_toolName]
          exact hpass
        · rw [kept_isNamespace]
          exact hns

theorem entries_openaiToolsKeepSystemOnly (prunedNamed original : List (Fields φ)) :
    entries p (openaiToolsKeepSystemOnly p isMcp original prunedNamed) =
      keptEntries p isMcp prunedNamed (entries p original) := by
  rw [openaiToolsKeepSystemOnly, entries_filterMap, keptEntries, entries, filter_flatMap,
    map_flatMap]
  congr 1
  funext tool
  exact keepSystemOnly_entriesOf prunedNamed tool

variable (type : Json φ)

theorem get?_name_functionStub (tool : Fields φ) :
    get? (functionStub p type tool) nameKey = some (.str (toolName p tool)) := rfl

theorem get?_type_functionStub (tool : Fields φ) :
    get? (functionStub p type tool) typeKey = some type := rfl

theorem get?_parameters_functionStub (tool : Fields φ) :
    get? (functionStub p type tool) parametersKey = some minimalObjectSchema := rfl

theorem toolName_functionStub (tool : Fields φ) :
    toolName p (functionStub p type tool) = toolName p tool := by
  rw [toolName, get?_name_functionStub]
  rfl

theorem stubOf_stub (entry : Entry φ) : StubOf p entry (entry.stub p) := by
  rw [Entry.stub]
  split
  · exact ⟨rfl, toolName_functionStub _ _, get?_parameters_functionStub _ _⟩
  · exact ⟨rfl, toolName_functionStub _ _, get?_parameters_functionStub _ _⟩

def stubEntries (p : PyFormat φ) (isMcp : Text → Bool) (es : List (Entry φ)) :
    List (Entry φ) :=
  (es.filter fun entry => entry.stubbed p isMcp).map (Entry.stub p)

theorem stubs_entriesOf (tool : Fields φ) :
    (if openaiToolPassThrough p tool then none
      else if isNamespace tool then
        if isMcp (toolName p tool) then some (openaiMcpNamespaceStub p tool) else none
      else if isMcp (toolName p tool) then some (openaiMcpFlatFunctionStub p tool)
      else none).toList.flatMap (entriesOf p) = stubEntries p isMcp (entriesOf p tool) := by
  cases hpass : openaiToolPassThrough p tool with
  | true =>
    have hstubbed : (⟨none, tool⟩ : Entry φ).stubbed p isMcp = false := by
      rw [Entry.stubbed, hpass]
      rfl
    rw [if_pos rfl, entriesOf_passThrough hpass, stubEntries, filter_cons, hstubbed]
    rfl
  | false =>
    rw [if_neg Bool.false_ne_true]
    cases hns : isNamespace tool with
    | true =>
      rw [if_pos rfl, entriesOf_namespace hpass hns, stubEntries, List.filter_map, List.map_map]
      have hstubbed : ∀ child : Fields φ, ((fun entry : Entry φ => entry.stubbed p isMcp) ∘
          fun child => (⟨some (toolName p tool), child⟩ : Entry φ)) child =
            (!openaiToolPassThrough p child && isMcp (toolName p tool)) := fun _ => rfl
      cases hmcp : isMcp (toolName p tool) with
      | true =>
        have hfilter : (namespaceTools p tool).filter ((fun entry : Entry φ =>
            entry.stubbed p isMcp) ∘ fun child => (⟨some (toolName p tool), child⟩ : Entry φ)) =
              (namespaceTools p tool).filter fun child => !openaiToolPassThrough p child := by
          congr 1
          funext child
          rw [hstubbed, hmcp, Bool.and_true]
        have hname : toolName p (openaiMcpNamespaceStub p tool) = toolName p tool := rfl
        have htools : namespaceTools p (openaiMcpNamespaceStub p tool) =
            ((namespaceTools p tool).filter fun child => !openaiToolPassThrough p child).map
              (openaiMcpFunctionChildStub p) := by
          apply namespaceTools_of_objects
          rw [List.map_map]
          rfl
        rw [if_pos rfl, toList_some, flatMap_singleton, hfilter, entriesOf_namespace,
          hname, htools, List.map_map]
        · rfl
        · rw [openaiToolPassThrough, hname]
          exact hpass
        · rfl
      | false =>
        have hfilter : (namespaceTools p tool).filter ((fun entry : Entry φ =>
            entry.stubbed p isMcp) ∘ fun child => (⟨some (toolName p tool), child⟩ : Entry φ)) =
              [] := by
          rw [filter_eq_nil_iff]
          intro child _
          rw [hstubbed, hmcp, Bool.and_false]
          exact Bool.false_ne_true
        rw [if_neg Bool.false_ne_true, hfilter]
        rfl
    | false =>
      have hstubbed : (⟨none, tool⟩ : Entry φ).stubbed p isMcp = isMcp (toolName p tool) := by
        rw [Entry.stubbed, hpass]
        rfl
      rw [if_neg Bool.false_ne_true, entriesOf_flat hpass hns, stubEntries, filter_cons, hstubbed]
      cases isMcp (toolName p tool) with
      | true =>
        rw [if_pos rfl, if_pos rfl, toList_some, flatMap_singleton, filter_nil, entriesOf_flat]
        · rfl
        · rw [openaiToolPassThrough, openaiMcpFlatFunctionStub, toolName_functionStub]
          exact hpass
        · rw [isNamespace, fieldIs, openaiMcpFlatFunctionStub, get?_type_functionStub]
          rw [isNamespace, fieldIs] at hns
          cases htype : get? tool typeKey with
          | none => rfl
          | some type =>
            rw [htype] at hns
            exact hns
      | false => rfl

theorem entries_openaiMcpToolStubs (original : List (Fields φ)) :
    entries p (openaiMcpToolStubs p isMcp original) = stubEntries p isMcp (entries p original) := by
  rw [openaiMcpToolStubs, entries_filterMap, stubEntries, entries, filter_flatMap, map_flatMap]
  congr 1
  funext tool
  exact stubs_entriesOf tool

theorem entries_openaiSplitForUserInject (original prunedNamed : List (Fields φ)) :
    entries p (openaiSplitForUserInject p isMcp original (some prunedNamed)).1 =
      keptEntries p isMcp prunedNamed (entries p original) ++
        stubEntries p isMcp (entries p original) := by
  rw [← entries_openaiToolsKeepSystemOnly, ← entries_openaiMcpToolStubs]
  exact flatMap_append

theorem keptEntries_eq (es : List (Entry φ)) :
    keptEntries p isMcp prunedNamed es =
      (es.zipIdx.filter fun e => !e.1.isMcpTool p isMcp).map fun e =>
        e.1.kept p isMcp prunedNamed := by
  have hzip : es = es.zipIdx.map Prod.fst := (zipIdx_map_fst 0 es).symm
  rw [keptEntries]
  conv_lhs => rw [hzip, List.filter_map, List.map_map]
  rfl

/-- Every system entry is kept as itself or with what was pruned from it. -/
theorem keptAs_iff (pruned : List (Pruned φ)) (e : Entry φ × ℕ)
    (hsystem : e.1.isMcpTool p isMcp = false) :
    KeptAs p pruned e.2 e.1 (e.1.kept p isMcp (pruned.map Pruned.tool)) ↔
      (openaiToolPassThrough p e.1.tool = false → isMcp (e.1.qualifiedName p) = false →
        ∀ found, prunedByName p isMcp (pruned.map Pruned.tool) (e.1.qualifiedName p) = some found →
          mergeApiToolOntoOriginal e.1.tool found = e.1.tool ∨ ∃ t ∈ pruned, t.origin = e.2 ∧
            mergeApiToolOntoOriginal e.1.tool found = mergeApiToolOntoOriginal e.1.tool t.tool) := by
  cases hpass : openaiToolPassThrough p e.1.tool with
  | true =>
    refine ⟨fun _ hnamed => (by cases hnamed), fun _ => .inl ?_⟩
    exact kept_of_passThrough _ hpass
  | false =>
    have hmcp : isMcp (e.1.qualifiedName p) = false := by
      rw [Entry.isMcpTool, hpass] at hsystem
      exact hsystem
    rw [KeptAs, Entry.kept, hpass, if_neg Bool.false_ne_true]
    cases hfound : prunedByName p isMcp (pruned.map Pruned.tool) (e.1.qualifiedName p) with
    | none =>
      refine ⟨fun _ _ _ found h => ?_, fun _ => .inl rfl⟩
      cases h
    | some found =>
      dsimp only
      constructor
      · intro hkept _ _ found' hfound'
        rw [← Option.some.inj hfound']
        rcases hkept with heq | ⟨-, t, ht, horigin, heq⟩
        · exact .inl (congrArg Entry.tool heq)
        · exact .inr ⟨t, ht, horigin, congrArg Entry.tool heq⟩
      · intro hown
        rcases hown rfl hmcp found rfl with heq | ⟨t, ht, horigin, heq⟩
        · left
          rw [heq]
        · right
          exact ⟨rfl, t, ht, horigin, by rw [heq]⟩

theorem isMcpTool_eq_stubbed
    (h : openaiToolPassThrough p entry.tool = false → ∀ ns, entry.ns = some ns →
      isMcp ns = isMcp (entry.qualifiedName p)) :
    entry.isMcpTool p isMcp = entry.stubbed p isMcp := by
  rw [Entry.isMcpTool, Entry.stubbed]
  cases hpass : openaiToolPassThrough p entry.tool with
  | true => rfl
  | false =>
    cases hns : entry.ns with
    | none => rw [Entry.qualifiedName, hns, getD_none]
    | some ns => rw [getD_some, h hpass ns hns]

theorem forall₂_stubOf_keys {es stubs : List (Entry φ)} (h : List.Forall₂ (StubOf p) es stubs) :
    stubs.map (fun stub => (stub.ns, toolName p stub.tool)) =
      es.map fun entry => (entry.ns, toolName p entry.tool) := by
  induction h with
  | nil => rfl
  | cons hstub _ ih => rw [map_cons, map_cons, ih, hstub.ns, hstub.name]

theorem qualifiedName_congr {other : Entry φ} (hns : entry.ns = other.ns)
    (hname : toolName p entry.tool = toolName p other.tool) :
    entry.qualifiedName p = other.qualifiedName p := by
  rw [Entry.qualifiedName, Entry.qualifiedName, hns, hname]

theorem forall₂_stubOf_iff (es : List (Entry φ)) :
    List.Forall₂ (StubOf p) (es.filter fun entry => entry.isMcpTool p isMcp)
        (stubEntries p isMcp es) ↔
      ∀ entry ∈ es, openaiToolPassThrough p entry.tool = false →
        ∀ ns, entry.ns = some ns → isMcp ns = isMcp (entry.qualifiedName p) := by
  constructor
  · intro hstubs
    have hkeys := forall₂_stubOf_keys hstubs
    have hsame : (es.filter fun entry => entry.stubbed p isMcp).map
        (fun entry => (entry.ns, toolName p entry.tool)) =
          (es.filter fun entry => entry.isMcpTool p isMcp).map
            fun entry => (entry.ns, toolName p entry.tool) := by
      rw [← hkeys, stubEntries, List.map_map]
      congr 1
      funext entry
      exact Prod.ext (stubOf_stub entry).ns.symm (stubOf_stub entry).name.symm
    intro entry hentry hnamed ns hns
    rw [Bool.eq_iff_iff]
    constructor
    · intro hmcp
      have hmem : (entry.ns, toolName p entry.tool) ∈
          (es.filter fun entry => entry.stubbed p isMcp).map
            fun entry => (entry.ns, toolName p entry.tool) := by
        refine List.mem_map_of_mem (f := fun entry : Entry φ =>
          (entry.ns, toolName p entry.tool)) (mem_filter.mpr ⟨hentry, ?_⟩)
        rw [Entry.stubbed, hnamed, hns]
        exact hmcp
      rw [hsame] at hmem
      obtain ⟨other, hother, hkey⟩ := List.mem_map.mp hmem
      have hclass := (mem_filter.mp hother).2
      rw [Entry.isMcpTool, Bool.and_eq_true] at hclass
      rw [← qualifiedName_congr (congrArg Prod.fst hkey) (congrArg Prod.snd hkey)]
      exact hclass.2
    · intro hmcp
      have hmem : (entry.ns, toolName p entry.tool) ∈
          (es.filter fun entry => entry.isMcpTool p isMcp).map
            fun entry => (entry.ns, toolName p entry.tool) := by
        refine List.mem_map_of_mem (f := fun entry : Entry φ =>
          (entry.ns, toolName p entry.tool)) (mem_filter.mpr ⟨hentry, ?_⟩)
        rw [Entry.isMcpTool, hnamed]
        exact hmcp
      rw [← hsame] at hmem
      obtain ⟨other, hother, hkey⟩ := List.mem_map.mp hmem
      have hclass := (mem_filter.mp hother).2
      have hns' : other.ns = some ns := (congrArg Prod.fst hkey).trans hns
      rw [Entry.stubbed, Bool.and_eq_true, hns'] at hclass
      exact hclass.2
  · intro hclass
    have hfilter : (es.filter fun entry => entry.isMcpTool p isMcp) =
        es.filter fun entry => entry.stubbed p isMcp :=
      filter_congr fun entry hentry => isMcpTool_eq_stubbed (hclass entry hentry)
    rw [hfilter, stubEntries, forall₂_map_right_iff, forall₂_same]
    exact fun entry _ => stubOf_stub entry

end

/-- The final tools have every entry of the original ones exactly once exactly when both passes tell
the same entries to be MCP tools, and no system entry takes over what was pruned from another. -/
theorem openaiSplitForUserInject_partitions_iff (p : PyFormat φ) (isMcp : Text → Bool)
    (original : List (Fields φ)) (pruned : List (Pruned φ)) :
    Partitions p isMcp original pruned
        (openaiSplitForUserInject p isMcp original (some (pruned.map Pruned.tool))).1 ↔
      RebuildsCleanly p isMcp original pruned := by
  have hkeptLength : ∀ kept, List.Forall₂ (fun (e : Entry φ × ℕ) entry =>
      KeptAs p pruned e.2 e.1 entry)
        ((entries p original).zipIdx.filter fun e => !e.1.isMcpTool p isMcp) kept →
      kept.length = (keptEntries p isMcp (pruned.map Pruned.tool) (entries p original)).length := by
    intro kept hkept
    rw [keptEntries_eq, length_map, hkept.length_eq]
  have hkeptAll : List.Forall₂ (fun (e : Entry φ × ℕ) entry => KeptAs p pruned e.2 e.1 entry)
      ((entries p original).zipIdx.filter fun e => !e.1.isMcpTool p isMcp)
      (keptEntries p isMcp (pruned.map Pruned.tool) (entries p original)) ↔
        ∀ e ∈ (entries p original).zipIdx, openaiToolPassThrough p e.1.tool = false →
          isMcp (e.1.qualifiedName p) = false → ∀ found,
            prunedByName p isMcp (pruned.map Pruned.tool) (e.1.qualifiedName p) = some found →
            mergeApiToolOntoOriginal e.1.tool found = e.1.tool ∨ ∃ t ∈ pruned, t.origin = e.2 ∧
              mergeApiToolOntoOriginal e.1.tool found =
                mergeApiToolOntoOriginal e.1.tool t.tool := by
    rw [keptEntries_eq, forall₂_map_right_iff, forall₂_same]
    constructor
    · intro h e he hnamed hmcp
      have hsystem : e.1.isMcpTool p isMcp = false := by
        rw [Entry.isMcpTool, hnamed, hmcp]
        rfl
      refine (keptAs_iff pruned e hsystem).mp (h e (mem_filter.mpr ⟨he, ?_⟩)) hnamed hmcp
      rw [hsystem]
      rfl
    · intro h e he
      obtain ⟨hmem, hsystem⟩ := mem_filter.mp he
      rw [Bool.not_eq_true'] at hsystem
      exact (keptAs_iff pruned e hsystem).mpr (h e hmem)
  rw [Partitions, entries_openaiSplitForUserInject]
  constructor
  · rintro ⟨kept, stubs, heq, hkept, hstubs⟩
    obtain ⟨hsame, hsame'⟩ := append_inj heq (hkeptLength kept hkept).symm
    rw [← hsame, hkeptAll] at hkept
    rw [← hsame', forall₂_stubOf_iff] at hstubs
    exact ⟨hstubs, hkept⟩
  · intro hclean
    exact ⟨_, _, rfl, hkeptAll.mpr hclean.ownPruning, (forall₂_stubOf_iff _).mpr hclean.sameClass⟩

/-- Names that start with `mcp__`. -/
def startsWithMcp (name : Text) : Bool := "mcp__".toList.isPrefixOf name

/-- A function `open` with one parameter. -/
def openTool (parameter : Text) : Fields Empty :=
  [(typeKey, .str "function"), (nameKey, .str "open"),
    (parametersKey, .obj [("properties", .obj [(parameter, .obj [])])])]

def firstParameter (tool : Fields Empty) : Option Text :=
  match get? tool parametersKey with
  | some (.obj schema) =>
    match get? schema "properties" with
    | some (.obj ((name, _) :: _)) => some name
    | _ => none
  | _ => none

/-- A browser that opens a `url`, and files that are opened by a `path`. -/
def browserAndFiles : List (Fields Empty) :=
  [[(typeKey, .str "namespace"), (nameKey, .str "browser"),
      (toolsKey, .arr [.obj (openTool "url")])],
    [(typeKey, .str "namespace"), (nameKey, .str "files"),
      (toolsKey, .arr [.obj (openTool "path")])]]

/-- The browser's tool gets the schema of the other. -/
theorem browserAndFiles_mixed :
    ¬ Partitions noFloats startsWithMcp browserAndFiles
      [⟨0, openTool "url"⟩, ⟨1, openTool "path"⟩]
      (openaiSplitForUserInject noFloats startsWithMcp browserAndFiles
        (some ([⟨0, openTool "url"⟩, ⟨1, openTool "path"⟩].map Pruned.tool))).1 := by
  rintro ⟨kept, stubs, heq, hkept, -⟩
  have hentries : ((entries noFloats browserAndFiles).zipIdx.filter fun e =>
      !e.1.isMcpTool noFloats startsWithMcp) =
        [(⟨some "browser", openTool "url"⟩, 0), (⟨some "files", openTool "path"⟩, 1)] := rfl
  have hfirst : ((entries noFloats (openaiSplitForUserInject noFloats startsWithMcp
      browserAndFiles (some ([⟨0, openTool "url"⟩,
        ⟨1, openTool "path"⟩].map Pruned.tool))).1).head?.bind
          fun entry => firstParameter entry.tool) = some "path" := by
    decide +kernel
  rw [hentries] at hkept
  rw [heq] at hfirst
  cases hkept with
  | cons hbrowser _ =>
    rw [List.cons_append, head?_cons, bind_some] at hfirst
    rcases hbrowser with rfl | ⟨-, t, ht, horigin, rfl⟩
    · exact absurd hfirst (by decide +kernel)
    · rcases mem_cons.mp ht with rfl | ht
      · exact absurd hfirst (by decide +kernel)
      · rw [mem_singleton.mp ht] at horigin
        cases horigin

end ClearYourTools.Proxy
