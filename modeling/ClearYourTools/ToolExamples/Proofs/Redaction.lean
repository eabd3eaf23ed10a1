import ClearYourTools.Misc.JsonRoundTrip
import ClearYourTools.ToolExamples.Store

/-!
# Redaction of recorded calls

Two calls that agree outside of redacted keys leave the same example rows, but each leaves its
arguments as they are in the row of its capture, from which later prompts take them.
-/

namespace ClearYourTools.ToolExamples

open Misc CytClient Injection.SessionLog List

variable {φ : Type}

section

variable (redacted : Text → Bool)

mutual

/-- Two values differ only in what stands under redacted keys, at any depth. -/
def Agree : Json φ → Json φ → Prop
  | .arr items, .arr items' => AgreeItems items items'
  | .obj fields, .obj fields' => AgreeFields fields fields'
  | v, v' => v = v'

def AgreeItems : List (Json φ) → List (Json φ) → Prop
  | [], [] => True
  | v :: items, v' :: items' => Agree v v' ∧ AgreeItems items items'
  | _, _ => False

def AgreeFields : List (Text × Json φ) → List (Text × Json φ) → Prop
  | [], [] => True
  | (key, v) :: fields, (key', v') :: fields' =>
    key = key' ∧ (redacted key = true ∨ Agree v v') ∧ AgreeFields fields fields'
  | _, _ => False

end

mutual

/-- A value without what stands under redacted keys, at any depth. -/
def erase : Json φ → Json φ
  | .arr items => .arr (eraseItems items)
  | .obj fields => .obj (eraseFields fields)
  | v => v

def eraseItems : List (Json φ) → List (Json φ)
  | [] => []
  | v :: items => erase v :: eraseItems items

def eraseFields : List (Text × Json φ) → List (Text × Json φ)
  | [] => []
  | (key, v) :: fields =>
    if redacted key then eraseFields fields else (key, erase v) :: eraseFields fields

end

end

section

variable {f : Json.FloatFormat φ} {patterns : List (Text → Bool)}
variable (fields : List (Text × Json φ))
variable (path : Text)

theorem walkValue_obj :
    walkValue f patterns (.obj fields) path = walkObject f patterns fields path := by
  cases fields <;> rfl

variable (items : List (Json φ))

theorem walkValue_arr :
    walkValue f patterns (.arr items) path = walkItems f patterns items path := by
  cases items <;> rfl

/-- The rows of an item of an array. -/
def walkItem (f : Json.FloatFormat φ) (patterns : List (Text → Bool)) (v : Json φ) (path : Text) :
    List FlattenedExample :=
  walkItems f patterns [v] path

theorem walkItem_obj :
    walkItem f patterns (.obj fields) path =
      walkObject f patterns fields (path ++ ".items[].properties") := by
  rw [walkItem, walkItems, walkItems, List.append_nil]

theorem walkItem_arr : walkItem f patterns (.arr items) path = [] := by
  cases items <;> rfl

theorem walkItems_cons (v : Json φ) (items : List (Json φ)) (path : Text) :
    walkItems f patterns (v :: items) path =
      walkItem f patterns v path ++ walkItems f patterns items path := by
  unfold walkItem
  cases v <;> simp [walkItems]

variable {items : List (Json φ)} {v : Json φ}
variable {redacted : Text → Bool}

theorem agree_arr (h : Agree redacted (.arr items) v) :
    ∃ items', v = .arr items' ∧ AgreeItems redacted items items' := by
  cases v with
  | arr items' => exact ⟨items', rfl, h⟩
  | _ => cases h

variable {fields : List (Text × Json φ)}

theorem agree_obj (h : Agree redacted (.obj fields) v) :
    ∃ fields', v = .obj fields' ∧ AgreeFields redacted fields fields' := by
  cases v with
  | obj fields' => exact ⟨fields', rfl, h⟩
  | _ => cases h

/-- Two values on which the walk gives the same rows. -/
def SameWalk (f : Json.FloatFormat φ) (patterns : List (Text → Bool)) (v v' : Json φ) : Prop :=
  ∀ path, walkValue f patterns v path = walkValue f patterns v' path

theorem SameWalk.walkItem {v' : Json φ} (h : SameWalk f patterns v v')
    (hagree : Agree (keyRedacted patterns) v v') (path : Text) :
    walkItem f patterns v path = walkItem f patterns v' path := by
  cases v with
  | arr items =>
    obtain ⟨items', rfl, -⟩ := agree_arr hagree
    rw [walkItem_arr, walkItem_arr]
  | obj fields =>
    obtain ⟨fields', rfl, -⟩ := agree_obj hagree
    rw [walkItem_obj, walkItem_obj, ← walkValue_obj, ← walkValue_obj, h]
  | null =>
    cases v' <;> first | rfl | cases hagree
  | _ =>
    unfold Agree at hagree
    rw [hagree]

theorem walkItems_of_agree {items' : List (Json φ)}
    (hsame : ∀ v ∈ items, ∀ v', Agree (keyRedacted patterns) v v' → SameWalk f patterns v v')
    (h : AgreeItems (keyRedacted patterns) items items') (path : Text) :
    walkItems f patterns items path = walkItems f patterns items' path := by
  induction items generalizing items' with
  | nil =>
    cases items' with
    | nil => rfl
    | cons v' items' => cases h
  | cons v items ih =>
    cases items' with
    | nil => cases h
    | cons v' items' =>
      obtain ⟨hhead, htail⟩ := h
      rw [walkItems_cons, walkItems_cons, (hsame v mem_cons_self v' hhead).walkItem hhead,
        ih (fun w hw => hsame w (mem_cons_of_mem _ hw)) htail]

theorem walkObject_of_agree {fields' : List (Text × Json φ)}
    (hsame : ∀ kv ∈ fields, ∀ v', Agree (keyRedacted patterns) kv.2 v' →
      SameWalk f patterns kv.2 v') (h : AgreeFields (keyRedacted patterns) fields fields')
    (start : Text) : walkObject f patterns fields start = walkObject f patterns fields' start := by
  induction fields generalizing fields' with
  | nil =>
    cases fields' with
    | nil => rfl
    | cons kv' fields' => cases h
  | cons kv fields ih =>
    cases fields' with
    | nil => cases h
    | cons kv' fields' =>
      obtain ⟨key, v⟩ := kv
      obtain ⟨key', v'⟩ := kv'
      obtain ⟨rfl, hhead, htail⟩ := h
      have hrest := ih (fun w hw => hsame w (mem_cons_of_mem _ hw)) htail
      rw [walkObject, walkObject, hrest]
      by_cases hredacted : keyRedacted patterns key = true
      · rw [if_pos hredacted, if_pos hredacted]
      · rw [if_neg hredacted, if_neg hredacted]
        have hagree := hhead.resolve_left hredacted
        rw [hsame _ mem_cons_self v' hagree]

theorem sameWalk_of_agree {v' : Json φ} (h : Agree (keyRedacted patterns) v v') :
    SameWalk f patterns v v' := by
  intro path
  induction v generalizing v' path with
  | arr items ih =>
    obtain ⟨items', rfl, hitems⟩ := agree_arr h
    rw [walkValue_arr, walkValue_arr]
    exact walkItems_of_agree (fun v hv v' hagree path => ih v hv hagree path) hitems path
  | obj fields ih =>
    obtain ⟨fields', rfl, hfields⟩ := agree_obj h
    rw [walkValue_obj, walkValue_obj]
    exact walkObject_of_agree (fun kv hkv v' hagree path => ih kv hkv hagree path) hfields path
  | null => cases v' <;> first | rfl | cases h
  | _ =>
    unfold Agree at h
    rw [h]

/-- The redacted walk leaves rows out and adds none. -/
def Fewer (f : Json.FloatFormat φ) (patterns : List (Text → Bool)) (v : Json φ) : Prop :=
  ∀ path, (walkValue f patterns v path).Sublist (walkValue f [] v path)

theorem walkObject_sublist (h : ∀ kv ∈ fields, Fewer f patterns kv.2) (start : Text) :
    (walkObject f patterns fields start).Sublist (walkObject f [] fields start) := by
  induction fields with
  | nil => exact List.Sublist.refl _
  | cons kv fields ih =>
    obtain ⟨key, v⟩ := kv
    have hrest := ih fun w hw => h w (mem_cons_of_mem _ hw)
    rw [walkObject, walkObject, if_neg (show ¬ keyRedacted [] key = true from Bool.false_ne_true)]
    split
    · exact hrest.trans (sublist_append_right _ _)
    · exact (h _ mem_cons_self _).append hrest

theorem walkItems_sublist (h : ∀ v ∈ items, Fewer f patterns v) (path : Text) :
    (walkItems f patterns items path).Sublist (walkItems f [] items path) := by
  induction items with
  | nil => exact List.Sublist.refl _
  | cons v items ih =>
    have hrest := ih fun w hw => h w (mem_cons_of_mem _ hw)
    have hhead : (walkItem f patterns v path).Sublist (walkItem f [] v path) := by
      cases v with
      | obj fields =>
        rw [walkItem_obj, walkItem_obj, ← walkValue_obj, ← walkValue_obj]
        exact h _ mem_cons_self _
      | _ => exact List.Sublist.refl _
    rw [walkItems_cons, walkItems_cons]
    exact hhead.append hrest

theorem fewer (v : Json φ) : Fewer f patterns v := by
  induction v with
  | arr items ih =>
    intro path
    rw [walkValue_arr, walkValue_arr]
    exact walkItems_sublist ih path
  | obj fields ih =>
    intro path
    rw [walkValue_obj, walkValue_obj]
    exact walkObject_sublist ih path
  | _ => exact fun _ => List.Sublist.refl _

theorem recordedExamples_eq (schema args : List (Text × Json φ)) :
    recordedExamples f patterns schema args = flattenArgs f patterns args := by
  unfold recordedExamples
  rw [filter_eq_self]
  intro item hitem
  have hfewer : ∀ kv ∈ args, Fewer f patterns kv.2 := fun kv _ => fewer kv.2
  have hsub := walkObject_sublist hfewer pathPrefix
  rw [contains_iff_mem]
  exact mem_append_left _ (mem_map_of_mem (hsub.subset hitem))

theorem recordedExamples_of_agree {args args' : List (Text × Json φ)}
    (h : AgreeFields (keyRedacted patterns) args args') (schema : List (Text × Json φ)) :
    recordedExamples f patterns schema args = recordedExamples f patterns schema args' := by
  rw [recordedExamples_eq, recordedExamples_eq]
  exact walkObject_of_agree (fun _ _ _ hagree => sameWalk_of_agree hagree) h pathPrefix

end

variable {f : Json.FloatFormat φ} {patterns : List (Text → Bool)} in
theorem walkValue_erase (v : Json φ) (path : Text) :
    walkValue f [] (erase (keyRedacted patterns) v) path = walkValue f patterns v path := by
  induction v generalizing path with
  | arr items ih =>
    rw [erase, walkValue_arr, walkValue_arr]
    induction items with
    | nil => rfl
    | cons v items ihitems =>
      rw [eraseItems, walkItems_cons, walkItems_cons, ihitems fun w hw => ih w (mem_cons_of_mem _ hw)]
      congr 1
      cases v with
      | obj fields =>
        have hv := ih _ mem_cons_self (path ++ ".items[].properties")
        rw [erase, walkValue_obj, walkValue_obj] at hv
        rw [erase, walkItem_obj, walkItem_obj, hv]
      | arr items => rw [erase, walkItem_arr, walkItem_arr]
      | _ => rfl
  | obj fields ih =>
    rw [erase, walkValue_obj, walkValue_obj]
    induction fields with
    | nil => rfl
    | cons kv fields ihfields =>
      obtain ⟨key, v⟩ := kv
      have hrest := ihfields fun w hw => ih w (mem_cons_of_mem _ hw)
      rw [eraseFields, walkObject]
      split
      · exact hrest
      · rw [walkObject, if_neg (show ¬ keyRedacted [] key = true from Bool.false_ne_true), hrest,
          ih _ mem_cons_self]
  | _ => rfl

/-- The example rows of a call are those of the call without its redacted keys. -/
theorem recordedExamples_erase (f : Json.FloatFormat φ) (patterns : List (Text → Bool))
    (schema args : List (Text × Json φ)) :
    recordedExamples f patterns schema args =
      flattenArgs f [] (eraseFields (keyRedacted patterns) args) := by
  have h := @walkValue_erase _ f patterns (.obj args) pathPrefix
  rw [erase, walkValue_obj, walkValue_obj] at h
  rw [recordedExamples_eq]
  exact h.symm

variable {env : ExamplesEnv φ} {call : CaptureCall φ}

theorem opened_empty (isDefaultUserDb : Bool) :
    Store.empty.opened env isDefaultUserDb = Store.empty := by
  unfold Store.opened
  dsimp only
  split
  · split <;> rfl
  · rfl

theorem captures_record_empty (hrecorded : call.recordedRoot env ≠ none) (args : ToolArgs φ) :
    (recordToolExamplesCapture env call args Store.empty).captures.map CaptureRow.inputJson =
      [Json.dumps env false (.obj args.fields)] := by
  obtain ⟨root, hroot⟩ := Option.ne_none_iff_exists'.mp hrecorded
  unfold recordToolExamplesCapture
  rw [hroot, opened_empty]
  rfl

theorem args_eq_of_dumps {a b : ToolArgs φ}
    (h : Json.dumps env false (.obj a.fields) = Json.dumps env false (.obj b.fields)) : a = b := by
  have ha := Json.loads_dumps env.lawful false a.valid
  rw [h, Json.loads_dumps env.lawful false b.valid] at ha
  exact ToolArgs.ext (Json.obj.inj (Option.some.inj ha)).symm

/-- Recording either of two calls leaves the same rows, and the same tools in later prompts. -/
structure Indistinguishable (env : EnrichEnv φ) (call : CaptureCall φ) (a b : ToolArgs φ) :
    Prop where
  rows : ∀ store, recordToolExamplesCapture env call a store =
    recordToolExamplesCapture env call b store
  injected : ∀ (prompt : EnrichCall φ) (store : Store),
    enrichToolsWithExamples env prompt (recordToolExamplesCapture env call a store) =
      enrichToolsWithExamples env prompt (recordToolExamplesCapture env call b store)

/-- For two calls that agree outside of redacted keys, the recorded example rows are the same; but
the stores and the later prompts are the same exactly if nothing is recorded or the calls are the
same. -/
theorem indistinguishable_iff {env : EnrichEnv φ} {call : CaptureCall φ} {a b : ToolArgs φ}
    (hagree : AgreeFields (keyRedacted call.cfg.redactKeyPatterns) a.fields b.fields) :
    recordedExamples env call.cfg.redactKeyPatterns call.inputSchema a.fields =
        recordedExamples env call.cfg.redactKeyPatterns call.inputSchema b.fields ∧
      (Indistinguishable env call a b ↔ call.recordedRoot env.toExamplesEnv = none ∨ a = b) := by
  refine ⟨recordedExamples_of_agree hagree call.inputSchema, ?_⟩
  constructor
  · intro h
    by_cases hrecorded : call.recordedRoot env.toExamplesEnv = none
    · exact .inl hrecorded
    · have ha := captures_record_empty hrecorded a
      rw [h.rows, captures_record_empty hrecorded b] at ha
      exact .inr (args_eq_of_dumps (singleton_inj.mp ha).symm)
  · rintro (hnone | rfl)
    · have hleft : ∀ (args : ToolArgs φ) (store : Store),
          recordToolExamplesCapture env call args store = store := by
        intro args store
        unfold recordToolExamplesCapture
        rw [hnone]
      constructor
      · intro store
        rw [hleft, hleft]
      · intro prompt store
        rw [hleft, hleft]
    · exact ⟨fun _ => rfl, fun _ _ => rfl⟩

/-- A configuration in which names are taken as they are. -/
def plainExamplesEnv : EnrichEnv Empty where
  toPyFormat := Json.noFloats
  sha256 _ := []
  resolvePath path := path
  casefold name := name
  knownServerKeys _ := []
  configuredServerKeys := []
  lawful := Json.noFloats_lawful
  resolveMcpServerAndTool _ := (['s'], ['t'])
  fusedOrder _ rows := rows.map Prod.fst
  validateJsonSchema _ _ := true

def passwordKey : Text := "password"

def passwordConfig (enabled : Bool) : ToolExamplesConfig where
  enabled := enabled
  isDefaultUserDb := false
  redactKeyPatterns := [fun key => key == passwordKey]
  fullCallExamples := true
  maxFullCallExamples := 2
  crossSchemaFallback := false
  maxCapturesPerTool := 50
  maxValueChars := 120

/-- The schema of a tool that takes a password. -/
def passwordSchema : Record Empty := [("properties", .obj [(passwordKey, .obj [])])]

def passwordCall (enabled : Bool) : CaptureCall Empty where
  cfg := passwordConfig enabled
  projectRoot := some "/p"
  mcpServer := ['s']
  toolName := ['t']
  inputSchema := passwordSchema
  projectMs := 1
  captureMs := 1

def passwordArgs (password : Text) : ToolArgs Empty where
  fields := [(passwordKey, .str password)]
  valid := ⟨List.nodup_singleton _, trivial, trivial⟩

theorem passwordArgs_agree (enabled : Bool) (password password' : Text) :
    AgreeFields (keyRedacted (passwordCall enabled).cfg.redactKeyPatterns)
      (passwordArgs password).fields (passwordArgs password').fields :=
  ⟨rfl, .inl rfl, trivial⟩

/-- With the examples switched off nothing tells two passwords apart. -/
theorem passwords_indistinguishable :
    Indistinguishable plainExamplesEnv (passwordCall false) (passwordArgs ['x'])
      (passwordArgs ['y']) :=
  (indistinguishable_iff (passwordArgs_agree false ['x'] ['y'])).2.mpr (.inl rfl)

/-- A later prompt with the tool. -/
def passwordPrompt : EnrichCall Empty where
  cfg := passwordConfig true
  projectRoot := some "/p"
  projectMs := 2
  query := ['q']
  tools := [[("name", .str ['t']), ("input_schema", .obj passwordSchema)]]

/-- The texts of the tools that a prompt is enriched to after a password was recorded. -/
def enrichedTexts (password : Text) : Option (List Text) :=
  (enrichToolsWithExamples plainExamplesEnv passwordPrompt
    (recordToolExamplesCapture plainExamplesEnv (passwordCall true)
      (passwordArgs password) Store.empty)).map fun tools =>
        tools.map fun tool => Json.dumps plainExamplesEnv false (.obj tool)

/-- Two passwords under a redacted key leave different rows and are injected. -/
theorem passwords_distinguished :
    AgreeFields (keyRedacted (passwordCall true).cfg.redactKeyPatterns) (passwordArgs ['x']).fields
        (passwordArgs ['y']).fields ∧
      ¬ Indistinguishable plainExamplesEnv (passwordCall true) (passwordArgs ['x'])
        (passwordArgs ['y']) ∧
      enrichedTexts ['x'] ≠ enrichedTexts ['y'] := by
  have htexts : enrichedTexts ['x'] ≠ enrichedTexts ['y'] := by
    decide +kernel
  refine ⟨passwordArgs_agree true ['x'] ['y'], ?_, htexts⟩
  intro h
  refine htexts ?_
  unfold enrichedTexts
  rw [h.injected]

end ClearYourTools.ToolExamples
