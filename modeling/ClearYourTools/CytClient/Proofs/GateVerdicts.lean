import ClearYourTools.CytClient.ToolGate

/-!
# Verdicts on calls through the cyt-mcp server

What the gate looks up for each spelling, what it decides about a name that it looks up, and when
the two together are what the catalog says about the tool that was called.
-/

namespace ClearYourTools.CytClient

open Misc List Option
open Json (get? PyFormat noFloats)

variable {φ : Type}

/-- A wire name without a prefix of a harness, other than that of the meta tool. -/
structure WireName (w : Text) (agent : Option Text) : Prop where
  ne_nil : w ≠ []
  stripped : w.strip = w
  no_user_prefix : ∀ start ∈ userPrefixes, start.isPrefixOf w = false
  no_colon_prefix : hasMcpColon w = false
  no_mcp_prefix : "mcp__".toList.isPrefixOf w = false
  not_meta : isCytMcpGetToolDefinitionsTool w agent = false

inductive Spelling where
  | server (name : Text)
  | userPrefix
  | dynamic

def serverSpelling (server w : Text) : Text := "mcp__" ++ server ++ "__" ++ w

def userSpelling (w : Text) : Text := "user-cyt-mcp-" ++ w

/-- A dynamic call of `w` with the given arguments. -/
structure DynamicCall (p : PyFormat φ) (wrapper : Record φ) (w : Text) (args : Record φ) :
    Prop where
  routed : dynamicNamespaces.contains
    (lower (fieldText p wrapper "namespace").strip) = true
  named : ∃ name : Text, name.strip = w ∧ Json.orElse p (get? wrapper "toolName")
    (get? wrapper "tool_name") = some (.str name)
  arguments : get? wrapper "arguments" = some (.obj args)

/-- The payload is a call of `w` with the given arguments in the given spelling. -/
def Spelled (p : PyFormat φ) (payload : Record φ) (w : Text) (args : Record φ) :
    Spelling → Prop
  | .server name => cytMcpServerNames.contains name = true ∧
      firstStr payload toolNameKeys = some (serverSpelling name w) ∧
      extractToolArgs p payload = some args
  | .userPrefix => firstStr payload toolNameKeys = some (userSpelling w) ∧
      extractToolArgs p payload = some args
  | .dynamic => ∃ name wrapper, firstStr payload toolNameKeys = some name ∧
      dynamicCallNames.contains ((lower name.strip).filter (· != '-')) = true ∧
      extractToolArgs p payload = some wrapper ∧ DynamicCall p wrapper w args

section

variable (p : PyFormat φ) (validate : SchemaValidator φ)

def RecordAccepts (tool args : Record φ) : Prop := (validate args (inputSchema tool)).1 = true

/-- The catalog has a record named `w`, and it accepts the arguments. -/
def Accepts (catalogs : Catalogs φ) (w : Text) (args : Record φ) : Prop :=
  ∃ tool, findToolInCatalog p catalogs cytMcpCatalog w none = some tool ∧
    RecordAccepts validate tool args

/-- The record that the gate finds for a name accepts the arguments. -/
def ListedAccepts (catalogs : Catalogs φ) (name : Text) (args : Record φ) : Prop :=
  match findToolInCatalog p catalogs cytMcpCatalog name none with
  | some tool => RecordAccepts validate tool args
  | none =>
    ∃ tool, findToolInCatalog p catalogs definitionsCatalog name none = some tool ∧
      RecordAccepts validate tool args

/-- The verdict of the shell gate, if the name is a shell's and the command has an mcpc call. -/
def shellVerdict (isAlnum : Char → Bool) (context : GateContext φ) (payload : Record φ)
    (name : Text) : Option (PreToolValidation φ) :=
  (extractShellCommand p payload).bind fun command =>
    if shellToolNames.contains name then
      validateMcpcShellPreToolCall p validate isAlnum context.catalogs context.gateActive command
    else none

/-- The arguments that the gate takes from a dynamic call: empty arguments count as missing. -/
def dynamicArgs (wrapper : Record φ) : Record φ :=
  match Json.orElse p (get? wrapper "arguments")
      (get? wrapper "args") with
  | some (.obj innerArgs) => innerArgs
  | _ => wrapper

/-- When the gate looks up `w` itself, with arguments that may not be those of the call: the
record of `w` decides the same about both; if there is none, a record of the definitions refuses
or the name has the prefix of a server of the catalog; a shell verdict agrees. -/
def BareSound (isAlnum : Char → Bool) (context : GateContext φ) (payload : Record φ) (w : Text)
    (found args : Record φ) : Prop :=
  match shellVerdict p validate isAlnum context payload w with
  | some verdict => verdict.allowed = true ↔ Accepts p validate context.catalogs w args
  | none =>
    match findToolInCatalog p context.catalogs cytMcpCatalog w none,
        findToolInCatalog p context.catalogs definitionsCatalog w none with
    | some tool, _ => RecordAccepts validate tool found ↔ RecordAccepts validate tool args
    | none, some tool => ¬ RecordAccepts validate tool found
    | none, none => sharesCytMcpProxyPrefix p w context.catalogs = true

/-- When the gate looks up another name: what decides about that name decides about `w`. -/
def JoinedSound (agent : Option Text) (context : GateContext φ) (name w : Text)
    (args : Record φ) : Prop :=
  if context.hallucinationOn = false ∧ isCytMcpGetToolDefinitionsTool name agent then
    namesATool p (some args) = true ↔ Accepts p validate context.catalogs w args
  else
    ListedAccepts p validate context.catalogs name args ↔ Accepts p validate context.catalogs w args

/-- The condition under which the verdict on a call is the catalog's. -/
def Sound (isAlnum : Char → Bool) (agent : Option Text) (context : GateContext φ)
    (payload : Record φ) (w : Text) (args : Record φ) : Spelling → Prop
  | .server name => JoinedSound p validate agent context
      (normalizeMcpToolName (serverSpelling name w) agent) w args
  | .userPrefix => BareSound p validate isAlnum context payload w args args
  | .dynamic => BareSound p validate isAlnum context payload w
      (dynamicArgs p ((extractToolArgs p payload).getD [])) args

end

variable {w : Text}

theorem stripped_append {start : Text} (hstart : start ≠ [] ∧ Text.Stripped start) (hne : w ≠ [])
    (hw : w.strip = w) : Text.strip (start ++ w) = start ++ w := by
  have hws := Text.stripped_iff.mpr hw
  apply Text.Stripped.strip
  refine ⟨?_, ?_⟩
  · intro c hc
    rw [head?_append_of_ne_nil _ hstart.1] at hc
    exact hstart.2.1 c hc
  · intro c hc
    rw [getLast?_append_of_ne_nil _ hne] at hc
    exact hws.2 c hc

variable {agent : Option Text}

theorem normalizeMcpUnderscoreToolName_of_not_prefix (h : "mcp__".toList.isPrefixOf w = false) :
    normalizeMcpUnderscoreToolName w agent = none := by
  rw [normalizeMcpUnderscoreToolName, h, if_pos (by simp)]

theorem find?_userPrefixes (h : ∀ start ∈ userPrefixes, start.isPrefixOf w = false) :
    (userPrefixes.find? fun start => start.isPrefixOf w) = none :=
  find?_eq_none.mpr fun start hstart => by rw [h start hstart]; exact Bool.false_ne_true

section

variable (h : WireName w agent)
include h

theorem WireName.ne_plain : w ≠ "get-tool-definitions" := by
  rintro rfl
  exact absurd h.not_meta (by simp [isCytMcpGetToolDefinitionsTool]; rfl)

theorem normalize_rest : (let name := if hasMcpColon w then Text.strip (w.drop 4) else w
     match normalizeMcpUnderscoreToolName name agent with
     | some normalized => normalized
     | none => if name = "get-tool-definitions" then getToolDefinitionsTool else name) =
      w := by
  simp only [h.no_colon_prefix, Bool.false_eq_true, if_false,
    normalizeMcpUnderscoreToolName_of_not_prefix h.no_mcp_prefix, if_neg h.ne_plain]

theorem normalizeMcpToolName_wireName : normalizeMcpToolName w agent = w := by
  have hstrip : stripCytMcpUserPrefix w = w := by
    rw [stripCytMcpUserPrefix, find?_userPrefixes h.no_user_prefix]
  rw [normalizeMcpToolName, h.stripped, if_neg h.ne_nil, hstrip]
  exact normalize_rest h

theorem normalizeMcpToolName_userSpelling : normalizeMcpToolName (userSpelling w) agent = w := by
  have hstart : "user-cyt-mcp-".toList ≠ [] ∧ Text.Stripped "user-cyt-mcp-".toList := by
    refine ⟨by decide, Text.stripped_iff.mpr (by decide)⟩
  have hstrip : stripCytMcpUserPrefix (userSpelling w) = w := by
    have hpre : List.isPrefixOf "user-cyt-mcp-" (userSpelling w) = true :=
      isPrefixOf_iff_prefix.mpr (prefix_append _ w)
    rw [stripCytMcpUserPrefix, userPrefixes, find?_cons, hpre]
    exact drop_left
  have hne : userSpelling w ≠ [] := append_ne_nil_of_left_ne_nil (by decide) w
  rw [normalizeMcpToolName, show Text.strip (userSpelling w) = userSpelling w from
    stripped_append hstart h.ne_nil h.stripped, if_neg hne, hstrip]
  exact normalize_rest h

end

theorem prefix_lower_of_literalIgnoreCase {p t : Text} (hs : 's' ∉ p) {r : Text × Text}
    (h : Matcher.literalIgnoreCase p t = some r) : p <+: lower t := by
  induction p generalizing t r with
  | nil => exact nil_prefix
  | cons l p ih =>
    rw [mem_cons, not_or] at hs
    cases t with
    | nil => cases h
    | cons c t =>
      rw [Matcher.literalIgnoreCase] at h
      split at h
      · rename_i hc
        obtain ⟨r', hr', -⟩ := map_eq_some_iff.mp h
        have hlow : c.toLower = l := hc.resolve_right fun h => hs.1 h.1.symm
        rw [lower, map_cons, hlow]
        exact cons_prefix_cons.mpr ⟨rfl, ih hs.2 hr'⟩
      · cases h

variable {server : Text}

theorem nameParts_serverSpelling (h : cytMcpServerNames.contains server = true) (w : Text) :
    nameParts (serverSpelling server w) = mcpWord :: server :: nameParts w := by
  have hmem : server ∈ cytMcpServerNames := contains_iff_mem.mp h
  simp only [cytMcpServerNames, mem_cons, not_mem_nil, or_false] at hmem
  rcases hmem with rfl | rfl | rfl | rfl | rfl <;> rfl

theorem server_head (h : cytMcpServerNames.contains server = true) : server.head? = some 'c' := by
  have hmem : server ∈ cytMcpServerNames := contains_iff_mem.mp h
  simp only [cytMcpServerNames, mem_cons, not_mem_nil, or_false] at hmem
  rcases hmem with rfl | rfl | rfl | rfl | rfl <;> rfl

theorem strip_serverSpelling (h : WireName w agent) :
    Text.strip (serverSpelling server w) = serverSpelling server w := by
  have hstart : "mcp__".toList ++ server ++ "__".toList ≠ [] ∧
      Text.Stripped ("mcp__" ++ server ++ "__") := by
    refine ⟨by simp, ?_, ?_⟩
    · intro c hc
      obtain rfl := Option.some.inj hc
      rfl
    · intro c hc
      rw [getLast?_append_of_ne_nil _ (by decide)] at hc
      obtain rfl := Option.some.inj hc
      rfl
  exact stripped_append hstart h.ne_nil h.stripped

theorem head?_normalizeMcpToolName_serverSpelling
    (hserver : cytMcpServerNames.contains server = true) (h : WireName w agent) :
    (normalizeMcpToolName (serverSpelling server w) agent).head? = some 'c' := by
  have hhead := server_head hserver
  have hne : server ≠ [] := by
    rintro rfl
    cases hhead
  have huser : stripCytMcpUserPrefix (serverSpelling server w) = serverSpelling server w := rfl
  have hcolon : hasMcpColon (serverSpelling server w) = false := rfl
  have hmcp : List.isPrefixOf "mcp__" (serverSpelling server w) = true := rfl
  obtain ⟨normalized, hnormalized, hnormalizedHead⟩ : ∃ normalized,
      normalizeMcpDoubleUnderscoreName (serverSpelling server w) = some normalized ∧
        normalized.head? = some 'c' := by
    unfold normalizeMcpDoubleUnderscoreName
    rw [nameParts_serverSpelling hserver]
    cases nameParts w with
    | nil => exact ⟨server, rfl, hhead⟩
    | cons part parts =>
      refine ⟨_, rfl, ?_⟩
      rw [joinName, head?_append_of_ne_nil _ hne, hhead]
  have hrest : ∃ name, normalizeMcpUnderscoreToolName (serverSpelling server w) agent = some name ∧
      name.head? = some 'c' := by
    unfold normalizeMcpUnderscoreToolName
    simp only [hmcp, not_true_eq_false, if_false, hnormalized]
    split
    · exact ⟨getToolDefinitionsTool, rfl, rfl⟩
    · exact ⟨normalized, rfl, hnormalizedHead⟩
  obtain ⟨name, hname, hnameHead⟩ := hrest
  have hspell : serverSpelling server w ≠ [] := by
    intro hnil
    have := congrArg List.head? hnil
    cases this
  rw [normalizeMcpToolName, strip_serverSpelling h, if_neg hspell]
  simp only [huser, hcolon, Bool.false_eq_true, if_false, hname]
  exact hnameHead

theorem rawRoutes_serverSpelling (hserver : cytMcpServerNames.contains server = true)
    (h : WireName w agent) : rawRoutesThroughCytMcpServer (serverSpelling server w) = true := by
  have hmcp : List.isPrefixOf "mcp__" (serverSpelling server w) = true := rfl
  unfold rawRoutesThroughCytMcpServer
  simp only [strip_serverSpelling h, hmcp, nameParts_serverSpelling hserver, hserver,
    Bool.true_and, Bool.true_or]

theorem rawRoutes_userSpelling (h : WireName w agent) :
    rawRoutesThroughCytMcpServer (userSpelling w) = false := by
  have hstart : "user-cyt-mcp-".toList ≠ [] ∧ Text.Stripped "user-cyt-mcp-".toList :=
    ⟨by decide, Text.stripped_iff.mpr (by decide)⟩
  have hstrip : Text.strip (userSpelling w) = userSpelling w :=
    stripped_append hstart h.ne_nil h.stripped
  have hmcp : List.isPrefixOf "mcp__" (userSpelling w) = false := rfl
  have hcolon : hasMcpColon (userSpelling w) = false := rfl
  unfold rawRoutesThroughCytMcpServer
  simp only [hstrip, hmcp, hcolon, Bool.false_and, Bool.or_self]

theorem not_mem_of_dynamicName {name : Text}
    (h : dynamicCallNames.contains ((lower name.strip).filter (· != '-')) = true) {c : Char}
    (hcall : c ∉ "calldynamictool".toList) (hmcp : c ∉ "mcpcalldynamictool".toList)
    (hdash : c ≠ '-') : c ∉ lower name.strip := by
  have hmem := contains_iff_mem.mp h
  intro hin
  have hin' : c ∈ (lower name.strip).filter (· != '-') := mem_filter.mpr ⟨hin, bne_iff_ne.mpr hdash⟩
  simp only [dynamicCallNames, mem_cons, not_mem_nil, or_false] at hmem
  rcases hmem with heq | heq
  · rw [heq] at hin'
    exact hcall hin'
  · rw [heq] at hin'
    exact hmcp hin'

theorem rawRoutes_dynamic {name : Text}
    (h : dynamicCallNames.contains ((lower name.strip).filter (· != '-')) = true) :
    rawRoutesThroughCytMcpServer name = false := by
  have hmcp : List.isPrefixOf "mcp__" name.strip = false := by
    rw [← Bool.not_eq_true, isPrefixOf_iff_prefix]
    intro hpre
    have hin : '_' ∈ name.strip := hpre.subset (by decide)
    exact not_mem_of_dynamicName h (c := '_') (by decide) (by decide) (by decide)
      (List.mem_map.mpr ⟨'_', hin, rfl⟩)
  have hcolon : hasMcpColon name.strip = false := by
    rw [← Bool.not_eq_true]
    intro hsome
    obtain ⟨r, hr⟩ := isSome_iff_exists.mp hsome
    have hpre := prefix_lower_of_literalIgnoreCase (by decide) hr
    exact not_mem_of_dynamicName h (c := ':') (by decide) (by decide) (by decide)
      (hpre.subset (by decide))
  unfold rawRoutesThroughCytMcpServer
  simp only [hmcp, hcolon, Bool.false_and, Bool.or_self]

section

variable (p : PyFormat φ)

/-- The name that the gate looks up for a spelling of `w`. -/
def lookedUpName (agent : Option Text) (w : Text) : Spelling → Text
  | .server name => normalizeMcpToolName (serverSpelling name w) agent
  | .userPrefix => w
  | .dynamic => w

/-- The arguments that the gate validates for a spelling. -/
def lookedUpArgs (payload args : Record φ) : Spelling → Record φ
  | .server _ => args
  | .userPrefix => args
  | .dynamic => dynamicArgs p ((extractToolArgs p payload).getD [])

variable {payload : Record φ} {name : Text}

theorem rawToolName_of_firstStr (h : firstStr payload toolNameKeys = some name) :
    rawToolName p payload = some name := by
  rw [rawToolName, h]

variable {args : Record φ} {agent : Option Text}

theorem extractDynamicMcpToolCall_of_mem {c : Char} (hin : c ∈ lower name.strip)
    (hcall : c ∉ "calldynamictool".toList) (hmcp : c ∉ "mcpcalldynamictool".toList)
    (hdash : c ≠ '-') : extractDynamicMcpToolCall p name (some args) agent = none := by
  have hnot : ¬ dynamicCallNames.contains ((lower name.strip).filter (· != '-')) = true :=
    fun h => not_mem_of_dynamicName h hcall hmcp hdash hin
  unfold extractDynamicMcpToolCall
  simp only [if_pos hnot, ite_self]

theorem extractToolCall_of_plain (hname : firstStr payload toolNameKeys = some name)
    (hargs : extractToolArgs p payload = some args)
    (hdynamic : extractDynamicMcpToolCall p name (some args) agent = none)
    (hne : normalizeMcpToolName name agent ≠ []) :
    extractToolCall p payload agent = (some (normalizeMcpToolName name agent), some args) := by
  unfold extractToolCall
  simp only [rawToolName_of_firstStr p hname, hargs, hdynamic, if_neg hne]

variable {w : Text}

theorem extractToolCall_server {server : Text} (h : WireName w agent)
    (hspelled : Spelled p payload w args (.server server)) :
    extractToolCall p payload agent =
      (some (normalizeMcpToolName (serverSpelling server w) agent), some args) := by
  obtain ⟨hserver, hname, hargs⟩ := hspelled
  have hin : '_' ∈ lower (Text.strip (serverSpelling server w)) := by
    rw [strip_serverSpelling h]
    have hmcp : '_' ∈ "mcp__".toList := by decide
    exact List.mem_map.mpr ⟨'_', mem_append_left w (mem_append_left "__"
      (mem_append_left server hmcp)), rfl⟩
  have hne : normalizeMcpToolName (serverSpelling server w) agent ≠ [] := by
    intro hnil
    have hhead := head?_normalizeMcpToolName_serverSpelling hserver h
    rw [hnil] at hhead
    cases hhead
  exact extractToolCall_of_plain p hname hargs
    (extractDynamicMcpToolCall_of_mem p hin (by decide) (by decide) (by decide)) hne

theorem extractToolCall_userPrefix (h : WireName w agent)
    (hspelled : Spelled p payload w args .userPrefix) :
    extractToolCall p payload agent = (some w, some args) := by
  obtain ⟨hname, hargs⟩ := hspelled
  have hstart : "user-cyt-mcp-".toList ≠ [] ∧ Text.Stripped "user-cyt-mcp-".toList :=
    ⟨by decide, Text.stripped_iff.mpr (by decide)⟩
  have hin : 's' ∈ lower (Text.strip (userSpelling w)) := by
    rw [show Text.strip (userSpelling w) = userSpelling w from
      stripped_append hstart h.ne_nil h.stripped]
    refine List.mem_map.mpr ⟨'s', ?_, rfl⟩
    exact mem_append_left _ (by decide)
  have hnormal := normalizeMcpToolName_userSpelling h
  have hcall := extractToolCall_of_plain p hname hargs
    (extractDynamicMcpToolCall_of_mem p hin (by decide) (by decide) (by decide))
    (by rw [hnormal]; exact h.ne_nil)
  rw [hcall, hnormal]

theorem extractToolCall_dynamic (h : WireName w agent)
    (hspelled : Spelled p payload w args .dynamic) :
    extractToolCall p payload agent =
      (some w, some (dynamicArgs p ((extractToolArgs p payload).getD []))) := by
  obtain ⟨name, wrapper, hname, hcall, hwrapper, hdynamic⟩ := hspelled
  obtain ⟨inner, hinner, hinnerName⟩ := hdynamic.named
  have hnameNe : name ≠ [] := by
    rintro rfl
    exact absurd hcall (by decide)
  have hcase : extractDynamicMcpToolCall p name (some wrapper) agent =
      some (w, dynamicArgs p wrapper) := by
    unfold extractDynamicMcpToolCall dynamicArgs
    simp only [if_neg hnameNe, hcall, hdynamic.routed, hinnerName, hinner, if_neg h.ne_nil,
      normalizeMcpToolName_wireName h, not_true_eq_false, if_false]
    generalize Json.orElse p (get? wrapper "arguments") (get? wrapper "args") = found
    cases found with
    | none => rfl
    | some value => cases value <;> rfl
  unfold extractToolCall
  simp only [rawToolName_of_firstStr p hname, hwrapper, hcase, getD_some]

theorem extractToolCall_spelled {s : Spelling} (h : WireName w agent)
    (hspelled : Spelled p payload w args s) :
    extractToolCall p payload agent =
      (some (lookedUpName agent w s), some (lookedUpArgs p payload args s)) := by
  cases s with
  | server name => exact extractToolCall_server p h hspelled
  | userPrefix => exact extractToolCall_userPrefix p h hspelled
  | dynamic => exact extractToolCall_dynamic p h hspelled

end

section

variable (p : PyFormat φ) (validate : SchemaValidator φ)

/-- The name is listed nowhere, and nothing else shows that the call goes through the server. -/
def PassedOver (catalogs : Catalogs φ) (payload : Record φ) (name : Text) : Prop :=
  findToolInCatalog p catalogs cytMcpCatalog name none = none ∧
    findToolInCatalog p catalogs definitionsCatalog name none = none ∧
    rawRoutesThroughCytMcpServer ((firstStr payload toolNameKeys).getD name) = false ∧
    sharesCytMcpProxyPrefix p name catalogs = false

theorem resolveCatalogForMcpTool_cases (name : Text) (catalogs : Catalogs φ) :
    resolveCatalogForMcpTool p name catalogs =
      if (findToolInCatalog p catalogs cytMcpCatalog name none).isSome then some cytMcpCatalog
      else if (findToolInCatalog p catalogs definitionsCatalog name none).isSome then
        some definitionsCatalog
      else none := by
  rw [resolveCatalogForMcpTool, find?_cons]
  cases (findToolInCatalog p catalogs cytMcpCatalog name none).isSome with
  | true => rfl
  | false =>
    rw [find?_cons]
    cases (findToolInCatalog p catalogs definitionsCatalog name none).isSome with
    | true => rfl
    | false => rfl

variable {name : Text} {args : Record φ} {catalogs : Catalogs φ}

theorem validateGatedCatalogTool_allowed_iff {catalog : Text} {tool : Record φ}
    {given : Option (Record φ)} (h : findToolInCatalog p catalogs catalog name none = some tool) :
    (validateGatedCatalogTool p validate catalog name given catalogs).allowed = true ↔
      RecordAccepts validate tool (given.getD []) := by
  unfold validateGatedCatalogTool RecordAccepts
  simp only [h]
  split
  · rename_i hvalid
    exact iff_of_true rfl hvalid
  · rename_i hvalid
    exact iff_of_false Bool.false_ne_true hvalid

variable {payload : Record φ}

section

variable (hentry : (catalogEntry catalogs cytMcpCatalog).isSome = true)
include hentry

theorem validateUnlistedMcpTool_allowed_iff :
    (validateUnlistedMcpTool p payload name catalogs).allowed = true ↔
      rawRoutesThroughCytMcpServer ((firstStr payload toolNameKeys).getD name) = false ∧
        sharesCytMcpProxyPrefix p name catalogs = false := by
  have hnone : ¬ (catalogEntry catalogs cytMcpCatalog).isNone = true := by
    rw [isNone_iff_eq_none]
    intro hnone
    rw [hnone] at hentry
    cases hentry
  unfold validateUnlistedMcpTool
  rw [if_neg hnone, ← Bool.or_eq_false_iff]
  cases rawRoutesThroughCytMcpServer ((firstStr payload toolNameKeys).getD name) ||
      sharesCytMcpProxyPrefix p name catalogs with
  | true => exact iff_of_false Bool.false_ne_true (by simp)
  | false => exact iff_of_true rfl rfl

theorem validateCatalogToolPreToolCall_allowed_iff :
    (validateCatalogToolPreToolCall p validate payload catalogs true name
        (some args)).allowed = true ↔
      ListedAccepts p validate catalogs name args ∨ PassedOver p catalogs payload name := by
  unfold validateCatalogToolPreToolCall ListedAccepts PassedOver
  rw [if_neg (by simp), resolveCatalogForMcpTool_cases]
  cases hcyt : findToolInCatalog p catalogs cytMcpCatalog name none with
  | some tool =>
    simp only [isSome_some, if_true, validateGatedCatalogTool_allowed_iff p validate hcyt,
      getD_some, reduceCtorEq, false_and, or_false]
  | none =>
    cases hdefinitions : findToolInCatalog p catalogs definitionsCatalog name none with
    | some tool =>
      simp only [isSome_none, isSome_some, Bool.false_eq_true, if_false, if_true,
        validateGatedCatalogTool_allowed_iff p validate hdefinitions, getD_some, some.injEq,
        exists_eq_left', reduceCtorEq, false_and, and_false, or_false]
    | none =>
      simp only [isSome_none, Bool.false_eq_true, if_false,
        validateUnlistedMcpTool_allowed_iff p hentry, reduceCtorEq, false_and, exists_false,
        false_or, true_and]

end

theorem validateInContext_allowed {isAlnum : Char → Bool} {agent : Option Text}
    {context : GateContext φ} {given : Option (Record φ)} (hactive : context.gateActive = true)
    (hon : ¬ (context.injectEnabled = some false ∧ context.hallucinationOn = false))
    (hcall : extractToolCall p payload agent = (some name, given)) :
    (validateInContext p validate isAlnum agent context payload).allowed =
      match shellVerdict p validate isAlnum context payload name with
      | some verdict => verdict.allowed
      | none =>
        if context.hallucinationOn = false ∧ isCytMcpGetToolDefinitionsTool name agent then
          namesATool p given
        else (validateCatalogToolPreToolCall p validate payload context.catalogs true name
          given).allowed := by
  unfold validateInContext shellVerdict
  rw [if_neg hon]
  simp only [hcall, hactive]
  cases extractShellCommand p payload with
  | none =>
    simp only [bind_none, Bool.true_eq_false, if_false]
    split
    · cases namesATool p given <;> rfl
    · rfl
  | some command =>
    simp only [bind_some, Bool.true_eq_false, if_false]
    generalize (if shellToolNames.contains name = true then
      validateMcpcShellPreToolCall p validate isAlnum context.catalogs true command
      else none) = verdict
    cases verdict with
    | some verdict => rfl
    | none =>
      simp only
      split
      · cases namesATool p given <;> rfl
      · rfl

theorem on_of_gateActive {log : Option Text} {configOn : Bool}
    (h : (loadGateContext p log configOn).gateActive = true) :
    ¬ ((loadGateContext p log configOn).injectEnabled = some false ∧
      (loadGateContext p log configOn).hallucinationOn = false) := by
  rintro ⟨hinject, hhallucination⟩
  have hand := (Bool.and_eq_true _ _ ▸ h : _ ∧ _).2
  change (((loadGateContext p log configOn).injectEnabled != some false) ||
    (loadGateContext p log configOn).hallucinationOn) = true at hand
  rw [hinject, hhallucination] at hand
  cases hand

end

section

variable (p : PyFormat φ) (validate : SchemaValidator φ)

variable {isAlnum : Char → Bool} {agent : Option Text} {context : GateContext φ}
  {payload : Record φ} {w : Text}

theorem shellVerdict_server {server : Text} (h : WireName w agent)
    (hserver : cytMcpServerNames.contains server = true) :
    shellVerdict p validate isAlnum context payload
      (normalizeMcpToolName (serverSpelling server w) agent) = none := by
  have hhead := head?_normalizeMcpToolName_serverSpelling hserver h
  have hshell : shellToolNames.contains
      (normalizeMcpToolName (serverSpelling server w) agent) = false := by
    rw [← Bool.not_eq_true]
    intro hcontains
    have hmem := contains_iff_mem.mp hcontains
    generalize normalizeMcpToolName (serverSpelling server w) agent = name at hhead hmem
    simp only [shellToolNames, mem_cons, not_mem_nil, or_false] at hmem
    rcases hmem with rfl | rfl | rfl | rfl <;> exact absurd hhead (by decide)
  unfold shellVerdict
  simp only [hshell, Bool.false_eq_true, if_false]
  cases extractShellCommand p payload <;> rfl

variable {args : Record φ}

theorem server_sound_iff {server : Text} (hactive : context.gateActive = true)
    (hon : ¬ (context.injectEnabled = some false ∧ context.hallucinationOn = false))
    (hentry : (catalogEntry context.catalogs cytMcpCatalog).isSome = true) (h : WireName w agent)
    (hspelled : Spelled p payload w args (.server server)) :
    ((validateInContext p validate isAlnum agent context payload).allowed = true ↔
        Accepts p validate context.catalogs w args) ↔
      JoinedSound p validate agent context
        (normalizeMcpToolName (serverSpelling server w) agent) w args := by
  have hcall := extractToolCall_server p h hspelled
  obtain ⟨hserver, hname, -⟩ := hspelled
  rw [validateInContext_allowed p validate hactive hon hcall,
    shellVerdict_server p validate h hserver]
  unfold JoinedSound
  simp only
  split
  · exact Iff.rfl
  have hroutes : ¬ PassedOver p context.catalogs payload
      (normalizeMcpToolName (serverSpelling server w) agent) := by
    rintro ⟨-, -, hraw, -⟩
    rw [hname, getD_some, rawRoutes_serverSpelling hserver h] at hraw
    cases hraw
  rw [validateCatalogToolPreToolCall_allowed_iff p validate hentry, or_iff_left hroutes]

theorem bare_sound_iff {found : Record φ} (hactive : context.gateActive = true)
    (hon : ¬ (context.injectEnabled = some false ∧ context.hallucinationOn = false))
    (hentry : (catalogEntry context.catalogs cytMcpCatalog).isSome = true) (h : WireName w agent)
    (hcall : extractToolCall p payload agent = (some w, some found))
    (hraw : rawRoutesThroughCytMcpServer ((firstStr payload toolNameKeys).getD w) = false) :
    ((validateInContext p validate isAlnum agent context payload).allowed = true ↔
        Accepts p validate context.catalogs w args) ↔
      BareSound p validate isAlnum context payload w found args := by
  rw [validateInContext_allowed p validate hactive hon hcall]
  unfold BareSound
  cases shellVerdict p validate isAlnum context payload w with
  | some verdict => exact Iff.rfl
  | none =>
    have hmeta : ¬ (context.hallucinationOn = false ∧
        isCytMcpGetToolDefinitionsTool w agent = true) := by
      rintro ⟨-, hmeta⟩
      rw [h.not_meta] at hmeta
      cases hmeta
    simp only [if_neg hmeta, validateCatalogToolPreToolCall_allowed_iff p validate hentry,
      ListedAccepts, PassedOver, Accepts, hraw]
    cases findToolInCatalog p context.catalogs cytMcpCatalog w none with
    | some tool => simp
    | none =>
      cases findToolInCatalog p context.catalogs definitionsCatalog w none with
      | some tool => simp
      | none => simp

theorem verdict_iff_sound {s : Spelling} (hactive : context.gateActive = true)
    (hon : ¬ (context.injectEnabled = some false ∧ context.hallucinationOn = false))
    (hentry : (catalogEntry context.catalogs cytMcpCatalog).isSome = true) (h : WireName w agent)
    (hspelled : Spelled p payload w args s) :
    ((validateInContext p validate isAlnum agent context payload).allowed = true ↔
        Accepts p validate context.catalogs w args) ↔
      Sound p validate isAlnum agent context payload w args s := by
  have hcall := extractToolCall_spelled p h hspelled
  cases s with
  | server name => exact server_sound_iff p validate hactive hon hentry h hspelled
  | userPrefix =>
    have hraw : rawRoutesThroughCytMcpServer ((firstStr payload toolNameKeys).getD w) = false := by
      rw [hspelled.1]
      exact rawRoutes_userSpelling h
    exact bare_sound_iff p validate hactive hon hentry h hcall hraw
  | dynamic =>
    have hraw : rawRoutesThroughCytMcpServer ((firstStr payload toolNameKeys).getD w) = false := by
      obtain ⟨name, wrapper, hname, hdynamic, -⟩ := hspelled
      rw [hname]
      exact rawRoutes_dynamic hdynamic
    exact bare_sound_iff p validate hactive hon hentry h hcall hraw

/-- Two calls of `w` with the same arguments, in any spellings, under an active gate with a
`cyt_mcp` catalog: both verdicts are the catalog's, and so the same, exactly when the condition
of each spelling holds. -/
theorem validatePreToolCall_by_catalog_iff (isAlnum : Char → Bool) (configOn : Bool)
    (log : Option Text) {agent₁ agent₂ : Option Text} {payload₁ payload₂ args : Record φ}
    {w : Text} {s₁ s₂ : Spelling}
    (hactive : (loadGateContext p log configOn).gateActive = true)
    (hentry : (catalogEntry (loadGateContext p log configOn).catalogs cytMcpCatalog).isSome = true)
    (h₁ : WireName w agent₁) (h₂ : WireName w agent₂)
    (hspelled₁ : Spelled p payload₁ w args s₁) (hspelled₂ : Spelled p payload₂ w args s₂) :
    (((validatePreToolCall p validate isAlnum agent₁ configOn log payload₁).allowed = true ↔
          Accepts p validate (loadGateContext p log configOn).catalogs w args) ∧
        (validatePreToolCall p validate isAlnum agent₁ configOn log payload₁).allowed =
          (validatePreToolCall p validate isAlnum agent₂ configOn log payload₂).allowed) ↔
      Sound p validate isAlnum agent₁ (loadGateContext p log configOn) payload₁ w args s₁ ∧
        Sound p validate isAlnum agent₂ (loadGateContext p log configOn) payload₂ w args s₂ := by
  have hon := on_of_gateActive p hactive
  rw [← verdict_iff_sound p validate hactive hon hentry h₁ hspelled₁,
    ← verdict_iff_sound p validate hactive hon hentry h₂ hspelled₂]
  unfold validatePreToolCall
  constructor
  · rintro ⟨hfirst, hsame⟩
    exact ⟨hfirst, by rw [← hsame]; exact hfirst⟩
  · rintro ⟨hfirst, hsecond⟩
    exact ⟨hfirst, Bool.eq_iff_iff.mpr (hfirst.trans hsecond.symm)⟩

end

section

/-- `{"kind": "tool_catalog", "catalog": "cyt_mcp", "tools": [{"name": "t"}]}`. -/
def oneToolLog : Text :=
  "\x7b\"kind\": \"tool_catalog\", \"catalog\": \"cyt_mcp\", \"tools\": [\x7b\"name\": \"t\"\x7d]\x7d"

/-- The verdict of the validator on the empty schema. -/
def acceptAll : SchemaValidator Empty := fun _ _ => (true, [])

def toolArgs : Record Empty := [("a", .int 1)]

def namedCall (name : Text) (args : Record Empty) : Record Empty :=
  [("tool_name", .str name), ("tool_input", .obj args)]

/-- The arguments of the dynamic call of `t`. -/
def dynamicWrapper : Record Empty :=
  [("namespace", .str "cyt-mcp"), ("toolName", .str "t"),
    ("arguments", .obj toolArgs)]

theorem wireName_t : WireName "t" none := by
  refine ⟨by decide, by decide, by decide, by decide, by decide, by decide⟩

theorem wireName_x : WireName "x" none := by
  refine ⟨by decide, by decide, by decide, by decide, by decide, by decide⟩

theorem oneTool_active : (loadGateContext noFloats (some oneToolLog) false).gateActive = true := rfl

theorem oneTool_listed : (catalogEntry
    (loadGateContext noFloats (some oneToolLog) false).catalogs cytMcpCatalog).isSome = true :=
  rfl

theorem userPrefix_spelled : Spelled noFloats
    (namedCall "user-cyt-mcp-t" toolArgs) "t" toolArgs .userPrefix :=
  ⟨rfl, rfl⟩

theorem dynamic_spelled : Spelled noFloats
    (namedCall "CallDynamicTool" dynamicWrapper) "t" toolArgs .dynamic :=
  ⟨"CallDynamicTool", dynamicWrapper, rfl, by decide, rfl,
    ⟨by decide, ⟨"t", by decide, rfl⟩, rfl⟩⟩

/-- The user prefix and the dynamic call of the listed tool: both verdicts are the catalog's. -/
theorem twoSpellings_by_catalog :
    ((validatePreToolCall noFloats acceptAll (fun _ => false) none false (some oneToolLog)
          (namedCall "user-cyt-mcp-t" toolArgs)).allowed = true ↔
        Accepts noFloats acceptAll
          (loadGateContext noFloats (some oneToolLog) false).catalogs "t" toolArgs) ∧
      (validatePreToolCall noFloats acceptAll (fun _ => false) none false (some oneToolLog)
          (namedCall "user-cyt-mcp-t" toolArgs)).allowed =
        (validatePreToolCall noFloats acceptAll (fun _ => false) none false (some oneToolLog)
          (namedCall "CallDynamicTool" dynamicWrapper)).allowed :=
  (validatePreToolCall_by_catalog_iff noFloats acceptAll (fun _ => false) false
    (some oneToolLog) oneTool_active oneTool_listed wireName_t wireName_t userPrefix_spelled
    dynamic_spelled).mpr ⟨Iff.rfl, Iff.rfl⟩

/-- The server's spelling of the listed tool is denied, and the user prefix lets a tool through
that is not listed. -/
theorem serverCall_denied :
    ((loadGateContext noFloats (some oneToolLog) false).gateActive = true ∧
        (catalogEntry (loadGateContext noFloats (some oneToolLog) false).catalogs
          cytMcpCatalog).isSome = true) ∧
      (WireName "t" none ∧
        Spelled noFloats (namedCall "mcp__cyt-mcp__t" []) "t" [] (.server "cyt-mcp") ∧
        Accepts noFloats acceptAll
          (loadGateContext noFloats (some oneToolLog) false).catalogs "t" [] ∧
        (validatePreToolCall noFloats acceptAll (fun _ => false) none false (some oneToolLog)
          (namedCall "mcp__cyt-mcp__t" [])).allowed = false) ∧
      (WireName "x" none ∧
        Spelled noFloats (namedCall "user-cyt-mcp-x" []) "x" [] .userPrefix ∧
        ¬ Accepts noFloats acceptAll
          (loadGateContext noFloats (some oneToolLog) false).catalogs "x" [] ∧
        (validatePreToolCall noFloats acceptAll (fun _ => false) none false (some oneToolLog)
          (namedCall "user-cyt-mcp-x" [])).allowed = true) := by
  refine ⟨⟨oneTool_active, oneTool_listed⟩,
    ⟨wireName_t, ⟨by decide, rfl, rfl⟩, ⟨_, rfl, rfl⟩, rfl⟩, wireName_x, ⟨rfl, rfl⟩, ?_, rfl⟩
  rintro ⟨tool, hfound, -⟩
  cases hfound

end

end ClearYourTools.CytClient
