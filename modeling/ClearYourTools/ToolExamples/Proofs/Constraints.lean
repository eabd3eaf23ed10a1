import ClearYourTools.ToolExamples.Proofs.Retention

/-!
# The constraints of the example store

What `tool_examples/store.py` declares of its tables holds in every run of the calls that open it.
-/

namespace ClearYourTools.ToolExamples

open Misc List

variable {φ : Type} (env : ExamplesEnv φ)

def CaptureRow.columns (row : CaptureRow) : ℕ × Text × Text × Text × Text :=
  (row.projectId, row.mcpServer, row.toolName, row.schemaHash, row.inputHash)

def ExampleRow.columns (row : ExampleRow) : ℕ × Text × Text := (row.schemaId, row.jsonPath, row.value)

/-- Examples of captures with the given ids, no two in the same `UNIQUE` columns. -/
structure ExamplesOf (ids : List ℕ) (rows : List ExampleRow) : Prop where
  unique : (rows.map ExampleRow.columns).Nodup
  references : rows.map ExampleRow.schemaId ⊆ ids

/-- The keys, `UNIQUE` columns and references of the three tables. -/
structure Store.Constrained (store : Store) : Prop where
  projects : Table.Keyed ProjectRow.projectId ProjectRow.rootPath store.lastProjectId store.projects
  captures : Table.Keyed CaptureRow.schemaId CaptureRow.columns store.lastSchemaId store.captures
  references : store.captures.map CaptureRow.projectId ⊆ store.projects.map ProjectRow.projectId
  examples : ExamplesOf (store.captures.map CaptureRow.schemaId) store.examples

def Store.cleanupOrphanExamplePaths (store : Store) : Store :=
  { store with
    examples := store.examples.filter fun row => store.captures.all fun capture =>
      capture.schemaId != row.schemaId ||
        match Json.loads env.toFloatFormat capture.schemaJson, Json.loads env capture.inputJson with
        | some (.obj schema), some (.obj args) =>
          (validPathsForCapture env schema args).contains row.jsonPath
        | _, _ => true }

/-- A use of the store: by a reader, the enrichment, a recorded call, or the maintenance. -/
inductive StoreUse (φ : Type) where
  | read
  | enrich (rootPath : Text) (nowMs : ℕ)
  | record (call : CaptureCall φ) (args : ToolArgs φ)
  | maintain (orders : RowOrders) (config : RetentionConfig) (nowMs : ℤ)

/-- The store after a use. -/
def Store.use (isDefaultUserDb : Bool) (store : Store) : StoreUse φ → Store
  | .read => store.opened env isDefaultUserDb
  | .enrich rootPath nowMs =>
    ((store.opened env isDefaultUserDb).getOrCreateProject env rootPath nowMs).2
  | .record call args => recordToolExamplesCapture env call args store
  | .maintain orders config nowMs =>
    let retained := (runRetention orders config nowMs (store.opened env isDefaultUserDb)).retained.1
    let cleaned := retained.cleanupOrphanExamplePaths env
    let serverKeys := cleaned.serverKeysForIdentityPurge env
    (if serverKeys = [] then cleaned
      else cleaned.purgeMisparsedIdentitySchemas env serverKeys).purgeOrphanExamples

theorem ExamplesOf.sublist {ids : List ℕ} {rows rows' : List ExampleRow} (h : ExamplesOf ids rows)
    (hsub : rows' <+ rows) : ExamplesOf ids rows' :=
  ⟨h.unique.sublist (hsub.map _), fun _ hid => h.references ((hsub.map _).subset hid)⟩

theorem ExamplesOf.foldl_upsertExample {ids : List ℕ} {schemaId nowMs : ℕ} (hid : schemaId ∈ ids)
    (items : List FlattenedExample) {rows : List ExampleRow} (h : ExamplesOf ids rows) :
    ExamplesOf ids (items.foldl (Store.upsertExample schemaId nowMs) rows) := by
  refine foldlRecOn items _ h fun rows h item _ => ?_
  unfold Store.upsertExample
  dsimp only
  split
  · constructor <;> rw [Table.map_touch]
    exacts [h.unique, fun _ => rfl, h.references, fun _ => rfl]
  · rename_i hnew
    refine ⟨Table.nodup_insert h.unique fun hmem => hnew ?_, ?_⟩
    · obtain ⟨row, hrow, heq⟩ := mem_map.mp hmem
      exact any_eq_true.mpr ⟨row, hrow, by simpa [ExampleRow.columns, and_assoc] using heq⟩
    · rw [map_append]
      exact append_subset.mpr ⟨h.references, by simpa using hid⟩

namespace Store.Constrained

variable {store : Store} (h : store.Constrained)

include h

theorem sweep {examples : List ExampleRow} (hsub : examples <+ store.examples) :
    Constrained { store with examples := examples } :=
  { h with examples := h.examples.sublist hsub }

theorem keepCaptures (keep : CaptureRow → Bool) : (store.keepCaptures keep).Constrained where
  projects := h.projects
  captures := h.captures.sublist filter_sublist
  references _ hid := h.references ((filter_sublist.map _).subset hid)
  examples := ⟨h.examples.unique.sublist (filter_sublist.map _),
    Table.references_filter h.examples.references keep⟩

variable (isDefaultUserDb : Bool)

theorem opened : (store.opened env isDefaultUserDb).Constrained := by
  unfold Store.opened
  split
  · have hprojects : store.purgeEphemeralProjects.Constrained :=
      { h.keepCaptures _ with
        projects := h.projects.sublist filter_sublist
        references := by
          unfold Store.purgeEphemeralProjects Store.keepCaptures
          simpa using Table.references_filter h.references fun row =>
            !isEphemeralWorkspacePath row.rootPath }
    refine sweep ?_ filter_sublist
    split
    exacts [hprojects.keepCaptures _, (hprojects.keepCaptures _).keepCaptures _]
  · exact h

theorem getOrCreateProject (rootPath : Text) (nowMs : ℕ) :
    let project := store.getOrCreateProject env rootPath nowMs
    project.2.Constrained ∧ project.1 ∈ project.2.projects.map ProjectRow.projectId := by
  unfold Store.getOrCreateProject
  dsimp only
  split
  · rename_i found hfound
    have hids : (store.projects.map fun row => if row.projectId = found.projectId then
        { row with lastSeenMs := nowMs } else row).map ProjectRow.projectId = _ :=
      Table.map_touch fun _ => rfl
    exact ⟨{ h with
      projects := h.projects.touch (fun _ => rfl) fun _ => rfl
      references := hids.symm ▸ h.references },
      hids.symm ▸ mem_map_of_mem (mem_of_find?_eq_some hfound)⟩
  · rename_i hnone
    refine ⟨{ h with projects := h.projects.insert rfl fun hmem => ?_, references := ?_ }, by simp⟩
    · obtain ⟨row, hrow, heq⟩ := mem_map.mp hmem
      simpa [heq] using find?_eq_none.mp hnone row hrow
    · rw [map_append]
      exact subset_append_of_subset_left _ h.references

theorem upsertCapture {projectId : ℕ} (hid : projectId ∈ store.projects.map ProjectRow.projectId)
    (mcpServer toolName : Text) (schema args : List (Text × Json φ))
    (flattened : List FlattenedExample) (nowMs : ℕ) :
    (store.upsertCapture env projectId mcpServer toolName schema args flattened nowMs).Constrained := by
  unfold Store.upsertCapture
  dsimp only
  split
  · rename_i found hfound
    refine { h with
      captures := h.captures.touch (fun _ => rfl) fun _ => rfl
      references := ?_
      examples := ?_ } <;> dsimp only <;> rw [Table.map_touch]
    exacts [h.references, fun _ => rfl, h.examples.foldl_upsertExample
      (mem_map_of_mem (mem_of_find?_eq_some hfound)) _, fun _ => rfl]
  · rename_i hnone
    refine { h with
      captures := h.captures.insert rfl fun hmem => ?_
      references := ?_
      examples := ?_ }
    · obtain ⟨row, hrow, heq⟩ := mem_map.mp hmem
      refine find?_eq_none.mp hnone row hrow ?_
      simpa [CaptureRow.columns, sameCapture, and_assoc] using heq.symm
    · rw [map_append]
      exact append_subset.mpr ⟨h.references, by simpa [captureRow] using hid⟩
    · rw [map_append]
      exact ExamplesOf.foldl_upsertExample (by simp [captureRow]) _
        ⟨h.examples.unique, subset_append_of_subset_left _ h.examples.references⟩

theorem retained (orders : RowOrders) (config : RetentionConfig) (nowMs : ℤ) :
    (runRetention orders config nowMs store).retained.1.Constrained := by
  unfold runRetention Store.enforceCaptureRetention
  refine foldlRecOn (motive := fun state : Store × ℕ => state.1.Constrained) _ _ ?_
    fun _ hstate _ _ => Constrained.keepCaptures hstate _
  exact sweep (h.sweep (Table.sweep_sublist _)) (Table.sweep_sublist _)

theorem use (storeUse : StoreUse φ) :
    (store.use env isDefaultUserDb storeUse).Constrained := by
  have hopened := h.opened env
  cases storeUse with
  | read => exact hopened _
  | enrich => exact ((hopened _).getOrCreateProject env _ _).1
  | record call args =>
    change (recordToolExamplesCapture env call args store).Constrained
    unfold recordToolExamplesCapture
    split
    · exact h
    · have hproject := (hopened call.cfg.isDefaultUserDb).getOrCreateProject env
      exact (hproject _ _).1.upsertCapture env (hproject _ _).2 _ _ _ _ _ _
  | maintain orders config nowMs =>
    have hcleaned : Constrained (Store.cleanupOrphanExamplePaths env _) :=
      sweep ((hopened isDefaultUserDb).retained orders config nowMs) filter_sublist
    refine sweep ?_ filter_sublist
    split
    exacts [hcleaned, hcleaned.keepCaptures _]

end Store.Constrained

/-- Every store that its uses leave satisfies the constraints of its tables. -/
theorem constrained_of_uses (isDefaultUserDb : Bool) (uses : List (StoreUse φ)) :
    let store := uses.foldl (Store.use env isDefaultUserDb) .empty
    store.Constrained ∧ store.Valid := by
  have h : (uses.foldl (Store.use env isDefaultUserDb) .empty).Constrained :=
    foldlRecOn uses _ ⟨⟨nofun, .nil, .nil⟩, ⟨nofun, .nil, .nil⟩, nofun, ⟨.nil, nofun⟩⟩
      fun _ h storeUse _ => h.use env isDefaultUserDb storeUse
  exact ⟨h, h.captures.primaryKey, h.examples.unique⟩

end ClearYourTools.ToolExamples
