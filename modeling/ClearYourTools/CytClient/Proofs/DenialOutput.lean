import ClearYourTools.CytClient.PreToolHook

/-!
# Denials on their way out

A denial of the gate is what the hook prints unless the entry of its exposure cannot be built: a
record of the `cyt_mcp` catalog must have a server and a name of its own.
-/

namespace ClearYourTools.CytClient

open Misc List
open Injection.SessionLog (nameKey descriptionKey isMetaTool)

variable {φ : Type} (env : HookEnv φ)

theorem replaceFirst_ne_nil {old new t : Text} (hnew : new ≠ []) (ht : t ≠ []) :
    Injection.replaceFirst old new t ≠ [] := by
  unfold Injection.replaceFirst
  split
  · simp [hnew]
  · exact ht

theorem withDefinition_ne_nil {base : Text} (h : base ≠ []) (tool : Record φ)
    (catalog toolName : Text) (mcpcSession : Option Text) (omitDefinition : Bool) :
    withDefinition env base tool catalog toolName mcpcSession omitDefinition ≠ [] := by
  unfold withDefinition
  cases omitDefinition with
  | true => exact h
  | false => exact append_ne_nil_of_left_ne_nil (append_ne_nil_of_left_ne_nil h _) _

variable (toolName : Text)

theorem toolDenyHeader_ne_nil (requested : Option Text) :
    toolDenyHeader env toolName requested ≠ [] := by
  unfold toolDenyHeader
  dsimp only
  by_cases hsame : (if Text.strip (requested.getD []) = [] then toolName
      else Text.strip (requested.getD [])) = toolName
  · rw [if_pos hsame]
    exact cons_ne_nil _ _
  · rw [if_neg hsame]
    exact cons_ne_nil _ _

theorem denyUnknownCytMcp_ne_nil (toolName reason : Text) (catalogs : Catalogs φ)
    (omitHint : Bool) : denyUnknownCytMcp env toolName reason catalogs omitHint ≠ [] := by
  unfold denyUnknownCytMcp
  cases omitHint <;> exact cons_ne_nil _ _

theorem denyMessageCytMcp_ne_nil (tool : Record φ) (schemaError : Text)
    (catalogs : Catalogs φ) (requested : Option Text) (omitHint omitDefinition : Bool) :
    denyMessageCytMcp env toolName tool schemaError catalogs requested omitHint omitDefinition ≠
      [] := by
  have hheader : toolDenyHeader env toolName requested ≠ [] := toolDenyHeader_ne_nil env _ _
  unfold denyMessageCytMcp
  dsimp only
  split
  · refine replaceFirst_ne_nil ?_ (denyUnknownCytMcp_ne_nil env _ _ _ _)
    exact append_ne_nil_of_left_ne_nil (append_ne_nil_of_left_ne_nil hheader _) _
  · refine withDefinition_ne_nil env ?_ _ _ _ _ _
    exact append_ne_nil_of_left_ne_nil (append_ne_nil_of_left_ne_nil hheader _) _

theorem denyMessageMcpc_ne_nil (session toolName : Text) (tool : Record φ) (schemaError : Text)
    (catalogs : Catalogs φ) (omitDefinition : Bool) :
    denyMessageMcpc env session toolName tool schemaError catalogs omitDefinition ≠ [] := by
  unfold denyMessageMcpc
  dsimp only
  split
  · exact cons_ne_nil _ _
  · exact withDefinition_ne_nil env (cons_ne_nil _ _) _ _ _ _ _

theorem denyMessageDefinitions_ne_nil (tool : Record φ) (schemaError : Text)
    (catalogs : Catalogs φ) (omitDefinition : Bool) :
    denyMessageDefinitions env toolName tool schemaError catalogs omitDefinition ≠ [] := by
  unfold denyMessageDefinitions
  dsimp only
  split
  · exact cons_ne_nil _ _
  · exact withDefinition_ne_nil env (cons_ne_nil _ _) _ _ _ _ _

theorem schemaMismatchText_ne_nil (payload args : Record φ) (log : Option Text)
    (catalog toolName reason : Text) (tool : Record φ) (mcpcSession : Option Text)
    (hallucinationOn : Bool) :
    schemaMismatchText env payload args log catalog toolName reason tool mcpcSession
      hallucinationOn ≠ [] := by
  unfold schemaMismatchText
  dsimp only
  split
  · exact denyMessageMcpc_ne_nil env _ _ _ _ _ _
  · split
    · exact denyMessageCytMcp_ne_nil env _ _ _ _ _ _ _
    · exact denyMessageDefinitions_ne_nil env _ _ _ _ _

theorem reasonText_ne_nil (context : GateContext φ) (payload args : Record φ)
    (log : Option Text) (exposure : Option (PreToolDenyExposure φ)) (reason : DenyReason) :
    reasonText env context payload args log exposure reason ≠ [] := by
  cases reason with
  | toolNameRequired => exact cons_ne_nil _ _
  | unknownTool catalog toolName =>
    unfold reasonText
    dsimp only
    split
    · exact denyMessageCytMcp_ne_nil env _ _ _ _ _ _ _
    · exact denyMessageDefinitions_ne_nil env _ _ _ _ _
  | unknownMcpcTool session toolName =>
    unfold reasonText
    exact denyMessageMcpc_ne_nil env _ _ _ _ _ _
  | schemaMismatch catalog toolName reason =>
    unfold reasonText
    exact schemaMismatchText_ne_nil env _ _ _ _ _ _ _ _ _

/-- A record of a backend tool without a server or a name of its own. -/
def LacksIdentity (env : HookEnv φ) (record : Record φ) : Prop :=
  isMetaTool (strippedText env record nameKey) = false ∧
    (recordServerKey env record = [] ∨ recordToolName env record = [])

theorem buildType1ToolEntry_spec (record : Record φ) (catalog : Text) (mcpcSession : Option Text)
    (full : Bool) :
    (catalog = cytMcpCatalog ∧ LacksIdentity env record ∧
      buildType1ToolEntryFromCatalogRecord env record catalog mcpcSession full =
        .error (.valueError (missingIdentityMessage env (strippedText env record nameKey)))) ∨
    (¬ (catalog = cytMcpCatalog ∧ LacksIdentity env record) ∧ ∃ entry,
      buildType1ToolEntryFromCatalogRecord env record catalog mcpcSession full = .ok entry) := by
  unfold buildType1ToolEntryFromCatalogRecord
  dsimp only
  split
  · rename_i hmcpc
    refine .inr ⟨?_, _, rfl⟩
    rintro ⟨hcyt, -⟩
    rw [hmcpc] at hcyt
    revert hcyt
    decide
  · split
    · rename_i hcyt
      split
      · rename_i hlacks
        exact .inl ⟨hcyt.1, ⟨hcyt.2, hlacks⟩, rfl⟩
      · rename_i hhas
        exact .inr ⟨fun h => hhas h.2.2, _, rfl⟩
    · rename_i hother
      exact .inr ⟨fun h => hother ⟨h.1, h.2.1⟩, _, rfl⟩

variable (catalogs : Catalogs φ)

theorem isMetaTool_getToolDefinitionsRecord :
    isMetaTool (strippedText env (getToolDefinitionsRecord env catalogs) nameKey) = true := by
  have hmeta : isMetaTool getToolDefinitionsTool = true := by decide
  have hname : strippedText env (getToolDefinitionsRecord env catalogs) nameKey =
      getToolDefinitionsTool := by
    unfold getToolDefinitionsRecord
    split
    · have hstrip : getToolDefinitionsTool.strip = getToolDefinitionsTool := by decide
      exact hstrip
    rename_i record hfound
    have hfields := find?_some hfound
    have hrecord : strippedText env record nameKey = getToolDefinitionsTool :=
      beq_iff_eq.mp (Bool.and_eq_true_iff.mp hfields).1
    split
    · exact hrecord
    · exact hrecord
    · rw [← hrecord]
      unfold strippedText fieldText Json.strOr
      rw [Json.get?_set_of_ne (by decide)]
  rw [hname, hmeta]

theorem buildGetToolDefinitionsType1Entry_ok (full : Bool) :
    ∃ entry, buildGetToolDefinitionsType1Entry env catalogs full = .ok entry := by
  obtain ⟨-, hlacks, -⟩ | ⟨-, hentry⟩ := buildType1ToolEntry_spec env
    (getToolDefinitionsRecord env catalogs) cytMcpCatalog none full
  · rw [LacksIdentity, isMetaTool_getToolDefinitionsRecord] at hlacks
    cases hlacks.1
  · exact hentry

def HookOutput.IsDenial (output : HookOutput φ) : Prop :=
  output.exitCode = 2 ∧ ∃ reason, output.document = formatCursorDeny reason ∨
    output.document = formatCodexDeny reason ∨ output.document = formatClaudeDeny reason

namespace HookCall

variable (call : HookCall φ)

/-- The exposure is of a record of the `cyt_mcp` catalog that lacks an identity and whose definition
the session does not show yet. -/
def ExposesUnidentified (env : HookEnv φ) (call : HookCall φ)
    (exposure : Option (PreToolDenyExposure φ)) : Prop :=
  ∃ exposed record, exposure = some exposed ∧ exposed.persist = .catalogTool ∧
    exposed.catalog = cytMcpCatalog ∧ call.log.hasPath = true ∧ call.log.readable = true ∧
    toolRecordFromSessionCatalog env exposed
      (readLatestToolCatalogs env call.log.text) = some record ∧
    LacksIdentity env record ∧
    isToolDefinitionPreExposedForDeny env call.payload call.log.text exposed.catalog record
      exposed.mcpcSession = false

theorem isDenial_denyOutput (reason : Text) : (call.denyOutput reason).IsDenial := by
  unfold denyOutput
  split
  · exact ⟨rfl, reason, .inl rfl⟩
  · split
    · exact ⟨rfl, reason, .inr (.inl rfl)⟩
    · exact ⟨rfl, reason, .inr (.inr rfl)⟩

theorem appendDenyEntry_cases (log : SessionLogFile) (agent : Option Text) (entry : Record φ) :
    (∃ appended, appendDenyEntry env log agent entry = .ok appended) ∨
      appendDenyEntry env log agent entry = .error .osError := by
  unfold appendDenyEntry
  dsimp only
  split
  · exact .inl ⟨_, rfl⟩
  · split
    · exact .inl ⟨_, rfl⟩
    · exact .inr rfl

variable {exposure : Option (PreToolDenyExposure φ)}

theorem persistExposure_of_built {entry : Record φ}
    (h : persistPreToolDenyExposure env call.payload call.log call.agent exposure =
      appendDenyEntry env call.log call.agent entry) :
    call.persistExposure env exposure = .ok () := by
  unfold persistExposure
  rw [h]
  obtain ⟨appended, hok⟩ | herror := appendDenyEntry_cases env call.log call.agent entry
  · rw [hok]
  · rw [herror]

theorem persistExposure_of_ok {result : Bool × Option Text}
    (h : persistPreToolDenyExposure env call.payload call.log call.agent exposure = .ok result) :
    call.persistExposure env exposure = .ok () := by
  unfold persistExposure
  rw [h]

theorem persistExposure_catalogTool {exposed : PreToolDenyExposure φ}
    (hpath : call.log.hasPath = true) (hreadable : call.log.readable = true)
    (hpersist : exposed.persist = .catalogTool) :
    (call.ExposesUnidentified env (some exposed) ∧
      ∃ e, call.persistExposure env (some exposed) = .error e) ∨
    (¬ call.ExposesUnidentified env (some exposed) ∧
      call.persistExposure env (some exposed) = .ok ()) := by
  obtain ⟨result, hresult⟩ : ∃ result, persistPreToolDenyExposure env call.payload call.log
    call.agent (some exposed) = result := ⟨_, rfl⟩
  have hwritten := hresult
  unfold persistPreToolDenyExposure at hwritten
  rw [hpath, hreadable] at hwritten
  simp only [Bool.true_eq_false, if_false, hpersist] at hwritten
  split at hwritten
  · rename_i hrecord
    rw [← hwritten] at hresult
    refine .inr ⟨?_, persistExposure_of_ok env call hresult⟩
    rintro ⟨exposed', record, hsome, -, -, -, -, hfound, -⟩
    cases hsome
    rw [hrecord] at hfound
    cases hfound
  rename_i record hrecord
  have honly : call.ExposesUnidentified env (some exposed) ↔
      exposed.catalog = cytMcpCatalog ∧ LacksIdentity env record ∧
        isToolDefinitionPreExposedForDeny env call.payload call.log.text exposed.catalog record
          exposed.mcpcSession = false := by
    constructor
    · rintro ⟨exposed', record', hsome, -, hcatalog, -, -, hfound, hlacks, hhidden⟩
      cases hsome
      rw [hrecord] at hfound
      cases hfound
      exact ⟨hcatalog, hlacks, hhidden⟩
    · rintro ⟨hcatalog, hlacks, hhidden⟩
      exact ⟨exposed, record, rfl, hpersist, hcatalog, hpath, hreadable, hrecord, hlacks, hhidden⟩
  rw [honly]
  split at hwritten
  · rename_i hshown
    rw [← hwritten] at hresult
    refine .inr ⟨?_, persistExposure_of_ok env call hresult⟩
    rintro ⟨-, -, hhidden⟩
    rw [hshown] at hhidden
    cases hhidden
  · rename_i hshown
    obtain ⟨hcatalog, hlacks, herror⟩ | ⟨hhas, entry, hentry⟩ := buildType1ToolEntry_spec
      env record exposed.catalog exposed.mcpcSession true
    · rw [herror] at hwritten
      refine .inl ⟨⟨hcatalog, hlacks, Bool.of_not_eq_true hshown⟩,
        .valueError (missingIdentityMessage env (strippedText env record nameKey)), ?_⟩
      unfold persistExposure
      rw [hresult, ← hwritten]
      rfl
    · rw [hentry] at hwritten
      exact .inr ⟨fun h => hhas ⟨h.1, h.2.1⟩,
        persistExposure_of_built env call (hresult.trans hwritten.symm)⟩

theorem persistExposure_spec (exposure : Option (PreToolDenyExposure φ)) :
    (call.ExposesUnidentified env exposure ∧ ∃ e, call.persistExposure env exposure = .error e) ∨
    (¬ call.ExposesUnidentified env exposure ∧ call.persistExposure env exposure = .ok ()) := by
  cases exposure with
  | none =>
    refine .inr ⟨?_, persistExposure_of_ok env call rfl⟩
    rintro ⟨exposed, record, hsome, -⟩
    cases hsome
  | some exposed =>
    cases hpath : call.log.hasPath with
    | false =>
      refine .inr ⟨?_, ?_⟩
      · rintro ⟨exposed', record, -, -, -, hhas, -⟩
        rw [hpath] at hhas
        cases hhas
      · have hskipped : persistPreToolDenyExposure env call.payload call.log call.agent
            (some exposed) = .ok (false, call.log.text) := by
          unfold persistPreToolDenyExposure
          dsimp only
          rw [if_pos hpath]
        exact persistExposure_of_ok env call hskipped
    | true =>
      cases hreadable : call.log.readable with
      | false =>
        refine .inr ⟨?_, ?_⟩
        · rintro ⟨exposed', record, -, -, -, -, hreads, -⟩
          rw [hreadable] at hreads
          cases hreads
        · unfold persistExposure persistPreToolDenyExposure
          simp only [hpath, hreadable, Bool.true_eq_false, if_false, if_true]
      | true =>
        cases hpersist : exposed.persist with
        | getToolDefinitions =>
          obtain ⟨entry, hentry⟩ := buildGetToolDefinitionsType1Entry_ok env
            (readLatestToolCatalogs env call.log.text) true
          have hbuilt : persistPreToolDenyExposure env call.payload call.log call.agent
              (some exposed) = appendDenyEntry env call.log call.agent entry := by
            unfold persistPreToolDenyExposure
            simp only [hpath, hreadable, Bool.true_eq_false, if_false, hpersist, hentry]
            rfl
          refine .inr ⟨?_, persistExposure_of_built env call hbuilt⟩
          rintro ⟨exposed', record, hsome, hcatalogTool, -⟩
          cases hsome
          rw [hpersist] at hcatalogTool
          cases hcatalogTool
        | catalogTool => exact persistExposure_catalogTool env call hpath hreadable hpersist

theorem main_spec (hintercepted : call.intercepted = none) {reason : DenyReason}
    (hdenied : call.validation env = .deny reason exposure) :
    (call.ExposesUnidentified env exposure ∧ call.main env = ⟨formatPreToolAllow, 0⟩) ∨
      (¬ call.ExposesUnidentified env exposure ∧ (call.main env).IsDenial) := by
  unfold main handlePreTool
  rw [hintercepted]
  dsimp only
  rw [hdenied]
  dsimp only
  obtain ⟨hexposes, e, herror⟩ | ⟨hexposes, hok⟩ := persistExposure_spec env call exposure
  · rw [herror]
    exact .inl ⟨hexposes, rfl⟩
  · rw [hok]
    have hlines := Text.splitLines_ne_nil (reasonText_ne_nil env
      (loadGateContext env call.log.text call.configOn) call.payload
      (call.checkedArgs env) call.log.text exposure reason)
    dsimp only
    obtain ⟨line, lines, hcons⟩ := exists_cons_of_ne_nil hlines
    rw [hcons]
    exact .inr ⟨hexposes, isDenial_denyOutput call _⟩

/-- A denial comes out as one exactly if its exposure is not of a record without an identity. -/
theorem isDenial_main_iff (hintercepted : call.intercepted = none) {reason : DenyReason}
    {exposure : Option (PreToolDenyExposure φ)}
    (hdenied : call.validation env = .deny reason exposure) :
    (call.main env).IsDenial ↔ ¬ call.ExposesUnidentified env exposure := by
  obtain ⟨hexposes, hallowed⟩ | ⟨hexposes, hdenial⟩ := main_spec env call hintercepted hdenied
  · rw [hallowed]
    refine iff_of_false ?_ (not_not_intro hexposes)
    rintro ⟨hcode, -⟩
    cases hcode
  · exact iff_of_true hdenial hexposes

end HookCall

/-- A hook without examples and transcripts, whose validator wants a path. -/
def pathHookEnv : HookEnv Empty where
  toPyFormat := Json.noFloats
  usesMcpcToolCatalog := false
  sha256 := fun t => '#' :: (t ++ ['#'])
  toolDetails _ := []
  examplesBlock _ := []
  mcpcSchemaBody _ := .obj []
  cliExample _ _ _ := []
  minimizeJsonSingleQuotes _ := []
  pickFullestInputSchema _ := []
  skillFragment _ := []
  resourceFragment _ := []
  lawful := Json.noFloats_lawful
  sha256_strip := Text.strip_marked
  sha256_ne_nil := Text.marked_ne_nil
  validate := fun args _ => ((Json.get? args "path").isSome,
    "missing required: path")
  isAlnum := Char.isAlphanum
  hookTranscriptText _ := []
  textRepr := fun t => '\'' :: (t ++ ['\''])
  textsRepr _ := []
  pathName := id

/-- A call of `fs_read` without arguments. -/
def bareReadCall (log : Text) : HookCall Empty where
  payload := [("hook_event_name", .str "preToolUse"),
    ("tool_name", .str "fs_read"), ("tool_input", .obj [])]
  log := ⟨true, some log, true, true⟩
  agent := some "cursor"
  launchAgent := []
  configOn := false
  cursorOutput := true
  intercepted := none

/-- A catalog that has `fs_read` with its server. -/
def identifiedLog : Text :=
  ("\x7b\"kind\":\"tool_catalog\",\"catalog\":\"cyt_mcp\",\"tools\":[\x7b\"name\":\"fs_read\"," ++
    "\"server_key\":\"fs\",\"tool_name\":\"read\"\x7d]\x7d").toList

/-- A catalog that has `fs_read` by its name only. -/
def unidentifiedLog : Text :=
  "\x7b\"kind\":\"tool_catalog\",\"catalog\":\"cyt_mcp\",\"tools\":[\x7b\"name\":\"fs_read\"\x7d]\x7d"

def identifiedRead : Record Empty :=
  [("name", .str "fs_read"), ("server_key", .str "fs"),
    ("tool_name", .str "read")]

def unidentifiedRead : Record Empty := [("name", .str "fs_read")]

set_option maxRecDepth 1500 in
/-- The denial of a tool with a server comes out. -/
theorem identifiedRead_denied : ((bareReadCall identifiedLog).main pathHookEnv).IsDenial := by
  have hdenied : (bareReadCall identifiedLog).validation pathHookEnv =
      .deny (.schemaMismatch cytMcpCatalog "fs_read" "missing required: path")
        (some (schemaMismatchExposure cytMcpCatalog "fs_read" identifiedRead none)) := rfl
  refine (HookCall.isDenial_main_iff pathHookEnv (bareReadCall identifiedLog) rfl hdenied).mpr ?_
  rintro ⟨exposed, record, hsome, -, -, -, -, hfound, hlacks, -⟩
  cases hsome
  cases hfound
  revert hlacks
  rw [LacksIdentity]
  decide

/-- The denial of a tool without one comes out as an allow. -/
theorem unidentifiedRead_allowed :
    ((bareReadCall unidentifiedLog).validation pathHookEnv).allowed = false ∧
      ((bareReadCall unidentifiedLog).main pathHookEnv).document = formatPreToolAllow ∧
      ¬ ((bareReadCall unidentifiedLog).main pathHookEnv).IsDenial := by
  have hdenied : (bareReadCall unidentifiedLog).validation pathHookEnv =
      .deny (.schemaMismatch cytMcpCatalog "fs_read" "missing required: path")
        (some (schemaMismatchExposure cytMcpCatalog "fs_read" unidentifiedRead none)) := rfl
  have hlacks : LacksIdentity pathHookEnv unidentifiedRead := ⟨by decide, .inl (by decide)⟩
  have hhidden : isToolDefinitionPreExposedForDeny pathHookEnv
      (bareReadCall unidentifiedLog).payload (some unidentifiedLog) cytMcpCatalog
      unidentifiedRead none = false := by decide +kernel
  obtain ⟨-, hallowed⟩ | ⟨hexposes, -⟩ := HookCall.main_spec pathHookEnv
    (bareReadCall unidentifiedLog) rfl hdenied
  · refine ⟨by rw [hdenied]; rfl, congrArg HookOutput.document hallowed, ?_⟩
    rw [hallowed]
    rintro ⟨hcode, -⟩
    cases hcode
  · exact absurd ⟨_, _, rfl, rfl, rfl, rfl, rfl, rfl, hlacks, hhidden⟩ hexposes

end ClearYourTools.CytClient
