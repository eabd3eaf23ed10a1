import ClearYourTools.Permissions.Effective
import ClearYourTools.Permissions.Proofs.Aliases

/-!
# Enabling and denial

The editor compares spellings, the matchers parse, trim and fold case, so an edit can leave a rule
that still denies what was enabled.
-/

namespace ClearYourTools.Permissions

open Misc List

namespace Fields

theorem get?_cons (key : Text) (value : Value) (rest : Fields) (k : Text) :
    (cons key value rest).get? k = if key = k then some value else rest.get? k := by
  cases value <;> rfl

theorem consInduction {P : Fields → Prop} (nil : P nil)
    (cons : ∀ key value rest, P rest → P (cons key value rest)) (f : Fields) : P f := by
  induction f with
  | nil => exact nil
  | dict key value rest _ ih => exact cons key (.dict value) rest ih
  | leaf key value rest ih => exact cons key (.leaf value) rest ih

theorem get?_append (f g : Fields) (k : Text) : (f.append g).get? k = (f.get? k).or (g.get? k) := by
  induction f using consInduction with
  | nil => rfl
  | cons key value rest ih =>
    have hentry : (cons key value rest).append g = cons key value (rest.append g) := by
      cases value <;> rfl
    rw [hentry, get?_cons, get?_cons, ih]
    split <;> rfl

variable (base overlay : Fields)

theorem get?_added (k : Text) :
    (added base overlay).get? k = if (base.get? k).isSome then none else overlay.get? k := by
  induction overlay using consInduction with
  | nil => simp [added, get?]
  | cons key value rest ih =>
    have hentry : added base (cons key value rest) =
        if (base.get? key).isSome then added base rest else cons key value (added base rest) := by
      cases value <;> rfl
    rw [hentry, get?_cons]
    split
    · rename_i hbase
      rw [ih]
      split
      · rfl
      · rename_i hk
        rw [if_neg]
        rintro rfl
        exact hk hbase
    · rename_i hbase
      rw [get?_cons]
      split
      · rename_i hk
        rw [hk] at hbase
        rw [if_neg hbase]
      · exact ih

/-- What a merge makes of a value under a key of the base. -/
def mergedValue : Value → Option Value → Value
  | .dict base, some (.dict overlay) => .dict (base.deepMerge overlay)
  | _, some value => value
  | value, none => value

theorem get?_overridden (k : Text) :
    (overridden base overlay).get? k =
      (base.get? k).map fun value => mergedValue value (overlay.get? k) := by
  induction base using consInduction with
  | nil => rfl
  | cons key value rest ih =>
    have hentry : overridden (cons key value rest) overlay =
        cons key (mergedValue value (overlay.get? key)) (overridden rest overlay) := by
      cases value <;>
        · rw [cons, overridden]
          cases overlay.get? key with
          | none => rfl
          | some found => cases found <;> rfl
    rw [hentry, get?_cons, get?_cons]
    split
    · rename_i hk
      rw [hk]
      rfl
    · exact ih

theorem get?_deepMerge (k : Text) :
    (base.deepMerge overlay).get? k =
      match base.get? k with
      | some value => some (mergedValue value (overlay.get? k))
      | none => overlay.get? k := by
  rw [deepMerge, get?_append, get?_overridden, get?_added]
  cases base.get? k <;> simp

end Fields

open Fields

theorem descend_nestedOverlay (permissions : Fields) (keys : List Text) :
    descend (nestedOverlay permissions keys) keys = some permissions := by
  induction keys with
  | nil => rfl
  | cons key keys ih => simpa [descend, nestedOverlay, get?] using ih

/-- Two paths that part at some key. -/
def Diverge : List Text → List Text → Prop
  | a :: keys, b :: keys' => a ≠ b ∨ (a = b ∧ Diverge keys keys')
  | _, _ => False

theorem descend_nestedOverlay_of_diverge (permissions : Fields) {keys keys' : List Text}
    (h : Diverge keys keys') : descend (nestedOverlay permissions keys) keys' = none := by
  induction keys generalizing keys' with
  | nil => cases h
  | cons a keys ih =>
    cases keys' with
    | nil => cases h
    | cons b keys' =>
      rcases h with hne | ⟨rfl, h⟩
      · simp [descend, nestedOverlay, get?, hne]
      · simpa [descend, nestedOverlay, get?] using ih h

variable (config permissions : Fields)

theorem descend_deepMerge_of_diverge {keys keys' : List Text} (h : Diverge keys keys') :
    descend (config.deepMerge (nestedOverlay permissions keys)) keys' = descend config keys' := by
  induction keys generalizing config keys' with
  | nil => cases h
  | cons a keys ih =>
    cases keys' with
    | nil => cases h
    | cons b keys' =>
      simp only [descend, nestedOverlay, get?_deepMerge, get?]
      rcases h with hne | ⟨rfl, h⟩
      · rw [if_neg hne]
        cases config.get? b with
        | none => rfl
        | some value => cases value <;> rfl
      · rw [if_pos rfl]
        cases config.get? a with
        | none => exact descend_nestedOverlay_of_diverge permissions h
        | some value =>
          cases value with
          | dict block => exact ih block h
          | leaf value => exact descend_nestedOverlay_of_diverge permissions h

theorem descend_deepMerge (keys : List Text) :
    ∃ merged, descend (config.deepMerge (nestedOverlay permissions keys)) keys = some merged ∧
      ∀ k items, permissions.get? k = some (.leaf (.list items)) →
        merged.get? k = some (.leaf (.list items)) := by
  induction keys generalizing config with
  | nil =>
    refine ⟨_, rfl, ?_⟩
    intro k items hget
    rw [nestedOverlay, get?_deepMerge, hget]
    cases config.get? k with
    | none => rfl
    | some value => cases value <;> rfl
  | cons key keys ih =>
    have hself : ∃ merged, descend (nestedOverlay permissions keys) keys = some merged ∧
        ∀ k items, permissions.get? k = some (.leaf (.list items)) →
          merged.get? k = some (.leaf (.list items)) :=
      ⟨permissions, descend_nestedOverlay permissions keys, fun _ _ hget => hget⟩
    simp only [descend, nestedOverlay, get?_deepMerge, get?, if_true]
    cases config.get? key with
    | none => exact hself
    | some value =>
      cases value with
      | dict block => exact ih block
      | leaf value => exact hself

/-- The items of a list as they are loaded. -/
def Clean (items : List Text) : Prop := ∀ item ∈ items, item.strip = item ∧ item ≠ []

theorem clean_nil : Clean [] := fun _ hitem => by cases hitem

theorem clean_strippedItems (value : Option Value) : Clean (strippedItems value) := by
  unfold strippedItems
  split
  · intro item hitem
    obtain ⟨hmem, hne⟩ := mem_filter.mp hitem
    obtain ⟨raw, -, rfl⟩ := mem_map.mp hmem
    exact ⟨Text.strip_strip raw, by simpa using hne⟩
  · exact clean_nil

theorem strippedItems_of_clean {items : List Text} (h : Clean items) :
    strippedItems (some (.leaf (.list items))) = items := by
  have hmap : items.map Text.strip = items := by
    conv_rhs => rw [← map_id items]
    exact map_congr_left fun item hitem => (h item hitem).1
  rw [strippedItems, hmap, filter_eq_self]
  intro item hitem
  simpa using (h item hitem).2

variable (config : Fields)

theorem clean_permissionsLists (keys : List Text) :
    Clean (permissionsLists config keys).1 ∧ Clean (permissionsLists config keys).2 := by
  rw [permissionsLists]
  split
  · exact ⟨clean_nil, clean_nil⟩
  · exact ⟨clean_strippedItems _, clean_strippedItems _⟩

variable (kind : PermissionKind)
variable (agentTarget : PermissionAgentTarget)

theorem clean_loadPermissionsLists :
    Clean (loadPermissionsLists config kind agentTarget).1 ∧
      Clean (loadPermissionsLists config kind agentTarget).2 := by
  simp only [loadPermissionsLists]
  split
  · exact clean_permissionsLists _ _
  · split
    · exact clean_permissionsLists _ _
    · exact clean_permissionsLists _ _

/-- The lists of the legacy path, which are loaded when the path has none. -/
def legacyLists (kind : PermissionKind) (agentTarget : PermissionAgentTarget) :
    List Text × List Text :=
  match legacyOverlayPath kind agentTarget with
  | some legacy => permissionsLists config legacy
  | none => ([], [])

theorem diverge_legacyOverlayPath {kind : PermissionKind} {agentTarget : PermissionAgentTarget}
    {legacy : List Text} (h : legacyOverlayPath kind agentTarget = some legacy) :
    Diverge (overlayPath kind agentTarget) legacy := by
  have hne : "tools".toList ≠ "mcp".toList := by decide
  cases kind with
  | skills => cases h
  | mcp =>
    cases agentTarget with
    | all =>
      cases h
      exact .inl hne
    | cursor =>
      cases h
      exact .inr ⟨rfl, .inr ⟨rfl, .inl hne⟩⟩
    | claude =>
      cases h
      exact .inr ⟨rfl, .inr ⟨rfl, .inl hne⟩⟩
    | codex =>
      cases h
      exact .inr ⟨rfl, .inr ⟨rfl, .inl hne⟩⟩

theorem loadPermissionsLists_saveLists
    {deny allow : List Text} (hdeny : Clean deny) (hallow : Clean allow) :
    loadPermissionsLists (saveLists config kind agentTarget deny allow) kind agentTarget =
      if deny = [] ∧ allow = [] then legacyLists config kind agentTarget else (deny, allow) := by
  have hlists : permissionsLists (saveLists config kind agentTarget deny allow)
      (overlayPath kind agentTarget) = (deny, allow) := by
    obtain ⟨merged, hmerged, hget⟩ := descend_deepMerge config
      (.leaf "deny" (.list deny) (.leaf "allow" (.list allow) .nil))
      (overlayPath kind agentTarget)
    rw [permissionsLists, saveLists, buildOverlay, hmerged]
    simp only
    rw [hget "deny" deny (by simp [get?]),
      hget "allow" allow (by simp [get?]),
      strippedItems_of_clean hdeny, strippedItems_of_clean hallow]
  simp only [loadPermissionsLists, hlists]
  by_cases hnil : deny = [] ∧ allow = []
  · rw [if_pos hnil, if_neg (by simp [hnil.1, hnil.2]), legacyLists]
    cases hlegacy : legacyOverlayPath kind agentTarget with
    | none => simp [hnil.1, hnil.2]
    | some legacy =>
      simp only
      rw [permissionsLists, permissionsLists, saveLists, buildOverlay,
        descend_deepMerge_of_diverge _ _ (diverge_legacyOverlayPath hlegacy)]
  · rw [if_neg hnil, if_pos]
    rwa [← not_and_or]

/-- The deny rules of a file, as the editor loads them. -/
def denyRules (kind : PermissionKind) (agentTarget : PermissionAgentTarget) : List Text :=
  (loadPermissionsLists config kind agentTarget).1

def allowRules (kind : PermissionKind) (agentTarget : PermissionAgentTarget) : List Text :=
  (loadPermissionsLists config kind agentTarget).2

theorem denyRules_editDeny (keep : Text → Bool) (config : Fields)
    (agentTarget : PermissionAgentTarget) :
    denyRules (editDeny kind (List.filter keep) config agentTarget) kind agentTarget =
      if (denyRules config kind agentTarget).filter keep = [] ∧
          allowRules config kind agentTarget = [] then
        (legacyLists config kind agentTarget).1
      else (denyRules config kind agentTarget).filter keep := by
  obtain ⟨hdeny, hallow⟩ := clean_loadPermissionsLists config kind agentTarget
  have hkept : Clean ((loadPermissionsLists config kind agentTarget).1.filter keep) :=
    fun item hitem => hdeny item (mem_of_mem_filter hitem)
  simp only [denyRules, allowRules, editDeny]
  rw [loadPermissionsLists_saveLists config kind agentTarget hkept hallow]
  exact apply_ite Prod.fst _ _ _

/-- None of the rules after an edit is `bad`, and those not `about` its subject are the same
as before. -/
structure Undone (bad about : Text → Bool) (before after : List Text) : Prop where
  gone : ∀ entry ∈ after, bad entry = false
  others : (after.filter fun entry => !about entry) = before.filter fun entry => !about entry

/-- When the removal of rules does so, given the allow list and the legacy rules. -/
structure Removable (bad about removed : Text → Bool) (before allow legacy : List Text) :
    Prop where
  removes : ∀ entry ∈ before, bad entry = true → removed entry = true
  spares : ¬ (allow = [] ∧ ∀ entry ∈ before, removed entry = true) →
    ∀ entry ∈ before, removed entry = true → about entry = true
  legacy : allow = [] → (∀ entry ∈ before, removed entry = true) → Undone bad about before legacy

variable {bad about removed : Text → Bool}

theorem undone_iff (kind : PermissionKind) (config : Fields) (agentTarget : PermissionAgentTarget) :
    Undone bad about (denyRules config kind agentTarget)
        (denyRules (editDeny kind (List.filter fun entry => !removed entry) config agentTarget)
          kind agentTarget) ↔
      Removable bad about removed (denyRules config kind agentTarget)
        (allowRules config kind agentTarget) (legacyLists config kind agentTarget).1 := by
  rw [denyRules_editDeny]
  generalize denyRules config kind agentTarget = before
  generalize allowRules config kind agentTarget = allow
  generalize (legacyLists config kind agentTarget).1 = legacy
  have hall : (before.filter fun entry => !removed entry) = [] ↔
      ∀ entry ∈ before, removed entry = true := by
    simp [filter_eq_nil_iff]
  by_cases hempty : (before.filter fun entry => !removed entry) = [] ∧ allow = []
  · rw [if_pos hempty]
    rw [hall] at hempty
    constructor
    · exact fun h => ⟨fun entry hentry _ => hempty.1 entry hentry,
        fun hnot => absurd hempty.symm hnot, fun _ _ => h⟩
    · exact fun h => h.legacy hempty.2 hempty.1
  · rw [if_neg hempty]
    rw [hall] at hempty
    have hnot : ¬ (allow = [] ∧ ∀ entry ∈ before, removed entry = true) :=
      fun h => hempty h.symm
    constructor
    · rintro ⟨hgone, hothers⟩
      refine ⟨?_, ?_, fun hallow hremoved => absurd ⟨hallow, hremoved⟩ hnot⟩
      · intro entry hentry hbad
        by_contra hkept
        have hafter := hgone entry (mem_filter.mpr ⟨hentry, by simpa using hkept⟩)
        rw [hbad] at hafter
        cases hafter
      · intro _ entry hentry hremoved
        by_contra hother
        have hmem : entry ∈ before.filter fun entry => !about entry :=
          mem_filter.mpr ⟨hentry, by simpa using hother⟩
        rw [← hothers] at hmem
        have hkept := (mem_filter.mp (mem_of_mem_filter hmem)).2
        rw [hremoved] at hkept
        cases hkept
    · rintro ⟨hremoves, hspares, -⟩
      constructor
      · intro entry hentry
        obtain ⟨hmem, hkept⟩ := mem_filter.mp hentry
        by_contra hbad
        rw [hremoves entry hmem (by simpa using hbad)] at hkept
        cases hkept
      · rw [filter_filter]
        apply filter_congr
        intro entry hentry
        cases hremoved : removed entry with
        | true => simp [hspares hnot entry hentry hremoved]
        | false => simp

/-- The entry is a rule about one tool. -/
def isToolRule (entry : Text) : Bool := (parseMcpDenyEntry entry).any fun rule => rule.kind == .tool

/-- The entry is a tool rule that denies the tool. -/
def deniesTool (server tool entry : Text) : Bool :=
  isToolRule entry && isMcpToolDenied server tool [entry]

/-- The entry is a key that is declared to refer to the tool. -/
def isToolKey (server tool entry : Text) : Bool :=
  (equivalentMcpToolDenyEntries server tool).contains entry.strip

def aboutTool (server tool entry : Text) : Bool :=
  isToolKey server tool entry || deniesTool server tool entry

def deniesServer (server entry : Text) : Bool := isMcpServerDenied server [entry]

/-- The entry is about the server or one of its tools. -/
def aboutServer (server entry : Text) : Bool :=
  (parseMcpDenyEntry entry).any fun rule => rule.server == server.strip

section

variable (casefold : Text → Text)

variable (skillName entry : Text)

def deniesSkill : Bool := isSkillNameDenied casefold skillName [entry]

/-- The entry is the name of the skill, as the editor compares names. -/
def isSkillEntry : Bool :=
  (parseSkillPermissionEntry entry).any fun rule =>
    rule.kind == .name && rule.value == skillName.strip

def aboutSkill : Bool := isSkillEntry skillName entry || deniesSkill casefold skillName entry

end

variable (server : Text)

theorem isMcpServerDenied_eq_false_iff (entries : List Text) :
    isMcpServerDenied server entries = false ↔
      ∀ entry ∈ entries, deniesServer server entry = false := by
  simp only [deniesServer, ← Bool.not_eq_true, isMcpServerDenied_iff, parseMcpDenyRules,
    mem_filterMap, mem_singleton]
  constructor
  · rintro h entry hentry ⟨hserver, rule, ⟨_, rfl, hparse⟩, hrule⟩
    exact h ⟨hserver, rule, ⟨_, hentry, hparse⟩, hrule⟩
  · rintro h ⟨hserver, rule, ⟨entry, hentry, hparse⟩, hrule⟩
    exact h entry hentry ⟨hserver, rule, ⟨_, rfl, hparse⟩, hrule⟩

variable (casefold : Text → Text)

theorem isSkillNameDenied_iff (skillName : Text) (entries : List Text) :
    isSkillNameDenied casefold skillName entries = true ↔
      normalizeSkillName casefold skillName ≠ [] ∧
        ∃ entry ∈ entries, ∃ rule, parseSkillPermissionEntry entry = some rule ∧
          rule.kind = .name ∧ normalizeSkillName casefold rule.value =
            normalizeSkillName casefold skillName := by
  simp only [isSkillNameDenied]
  split
  · rename_i hnil
    simp [hnil]
  rename_i hne
  simp only [skillNameEntries, any_map, any_filter, any_filterMap,
    any_eq_true, hne, ne_eq, not_false_eq_true, true_and]
  constructor
  · rintro ⟨entry, hentry, hrule⟩
    cases hparse : parseSkillPermissionEntry entry with
    | none =>
      rw [hparse] at hrule
      cases hrule
    | some rule =>
      rw [hparse] at hrule
      simp only [Function.comp_apply, Bool.and_eq_true, beq_iff_eq] at hrule
      exact ⟨entry, hentry, rule, hparse, hrule⟩
  · rintro ⟨entry, hentry, rule, hparse, hkind, hname⟩
    refine ⟨entry, hentry, ?_⟩
    rw [hparse]
    simp [hkind, hname]

theorem isSkillNameDenied_eq_false_iff (skillName : Text) (entries : List Text) :
    isSkillNameDenied casefold skillName entries = false ↔
      ∀ entry ∈ entries, deniesSkill casefold skillName entry = false := by
  simp only [deniesSkill, ← Bool.not_eq_true, isSkillNameDenied_iff, mem_singleton]
  constructor
  · rintro h entry hentry ⟨hne, _, rfl, hrule⟩
    exact h ⟨hne, _, hentry, hrule⟩
  · rintro h ⟨hne, entry, hentry, hrule⟩
    exact h entry hentry ⟨hne, _, rfl, hrule⟩

/-- No tool rule that is left denies the tool, and the rules that are not about it stay. -/
def ToolEnabled (server tool : Text) (before after : List Text) : Prop :=
  (∀ entry ∈ after, isToolRule entry = true → isMcpToolDenied server tool [entry] = false) ∧
    (after.filter fun entry => !aboutTool server tool entry) =
      before.filter fun entry => !aboutTool server tool entry

/-- The server is not denied, and the rules about other servers stay. -/
def ServerEnabled (before after : List Text) : Prop :=
  isMcpServerDenied server after = false ∧
    (after.filter fun entry => !aboutServer server entry) =
      before.filter fun entry => !aboutServer server entry

/-- The skill is not denied, and the rules about other skills stay. -/
def SkillEnabled (casefold : Text → Text) (skillName : Text) (before after : List Text) : Prop :=
  isSkillNameDenied casefold skillName after = false ∧
    (after.filter fun entry => !aboutSkill casefold skillName entry) =
      before.filter fun entry => !aboutSkill casefold skillName entry

/-- Every rule that denies is one of those removed. When they are all there is, and nothing is
allowed, the legacy rules come back, so these are about the same thing and do not deny it. -/
structure Spelled (bad about removed : Text → Bool) (before allow legacy : List Text) : Prop where
  removes : ∀ entry ∈ before, bad entry = true → removed entry = true
  legacy : allow = [] → (∀ entry ∈ before, removed entry = true) →
    ∀ entry ∈ legacy, about entry = true ∧ bad entry = false

theorem removable_iff_spelled {before allow legacy : List Text}
    (h : ∀ entry, removed entry = true → about entry = true) :
    Removable bad about removed before allow legacy ↔
      Spelled bad about removed before allow legacy := by
  have hlegacy : (∀ entry ∈ before, removed entry = true) →
      (Undone bad about before legacy ↔
        ∀ entry ∈ legacy, about entry = true ∧ bad entry = false) := by
    intro hall
    have hnil : (before.filter fun entry => !about entry) = [] := by
      rw [filter_eq_nil_iff]
      intro entry hentry
      simp [h entry (hall entry hentry)]
    constructor
    · rintro ⟨hgone, hothers⟩ entry hentry
      refine ⟨?_, hgone entry hentry⟩
      rw [hnil, filter_eq_nil_iff] at hothers
      simpa using hothers entry hentry
    · intro hboth
      refine ⟨fun entry hentry => (hboth entry hentry).2, ?_⟩
      rw [hnil, filter_eq_nil_iff]
      intro entry hentry
      simp [(hboth entry hentry).1]
  constructor
  · rintro ⟨hremoves, -, hback⟩
    exact ⟨hremoves, fun hallow hall => (hlegacy hall).mp (hback hallow hall)⟩
  · rintro ⟨hremoves, hback⟩
    exact ⟨hremoves, fun _ entry _ hremoved => h entry hremoved,
      fun hallow hall => (hlegacy hall).mpr (hback hallow hall)⟩

theorem toolEnabled_iff (server tool : Text) (before after : List Text) :
    ToolEnabled server tool before after ↔
      Undone (deniesTool server tool) (aboutTool server tool) before after := by
  have hgone : (∀ entry ∈ after, isToolRule entry = true →
      isMcpToolDenied server tool [entry] = false) ↔
        ∀ entry ∈ after, deniesTool server tool entry = false := by
    apply forall_congr'
    intro entry
    apply imp_congr_right
    intro _
    simp only [deniesTool]
    cases isToolRule entry <;> simp
  rw [ToolEnabled, hgone]
  exact ⟨fun h => ⟨h.1, h.2⟩, fun h => ⟨h.gone, h.others⟩⟩

theorem removeServerDenyEntries_eq :
    (fun deny => removeServerDenyEntries deny server) =
      List.filter fun entry => !aboutServer server entry := by
  funext deny
  rw [removeServerDenyEntries]
  congr 1
  funext entry
  simp only [aboutServer]
  cases parseMcpDenyEntry entry <;> rfl

/-- Enabling a server removes the rules about its tools too. -/
theorem tool_rules_stay_iff (config : Fields) (agentTarget : PermissionAgentTarget)
    (hrest : ¬ (allowRules config .mcp agentTarget = [] ∧
      ∀ entry ∈ denyRules config .mcp agentTarget, aboutServer server entry = true)) :
    ((denyRules (enableMcpServer server config agentTarget) .mcp agentTarget).filter fun entry =>
        !deniesServer server entry) =
      ((denyRules config .mcp agentTarget).filter fun entry => !deniesServer server entry) ↔
    ∀ entry ∈ denyRules config .mcp agentTarget, aboutServer server entry = true →
      deniesServer server entry = true := by
  rw [enableMcpServer, removeServerDenyEntries_eq, denyRules_editDeny]
  generalize denyRules config .mcp agentTarget = before at *
  have hkept : ¬ ((before.filter fun entry => !aboutServer server entry) = [] ∧
      allowRules config .mcp agentTarget = []) := by
    rintro ⟨hnil, hallow⟩
    apply hrest
    refine ⟨hallow, ?_⟩
    simpa [filter_eq_nil_iff] using hnil
  rw [if_neg hkept, filter_filter]
  constructor
  · intro hsame entry hentry habout
    by_contra hdenies
    have hmem : entry ∈ before.filter fun entry => !deniesServer server entry :=
      mem_filter.mpr ⟨hentry, by simpa using hdenies⟩
    rw [← hsame] at hmem
    have hboth := (mem_filter.mp hmem).2
    rw [habout, Bool.not_true, Bool.and_false] at hboth
    cases hboth
  · intro hall
    apply filter_congr
    intro entry hentry
    cases habout : aboutServer server entry with
    | true => simp [hall entry hentry habout]
    | false => simp

/-- For every file, server, tool and skill: an edit enables what it is about exactly when the
rules that deny it are spelled as the editor compares them, and no legacy rule comes back. The
rules about the tools of an enabled server stay only when there are none. -/
theorem enabled_iff (casefold : Text → Text) (config : Fields)
    (agentTarget : PermissionAgentTarget) (server tool skillName : Text) :
    (ToolEnabled server tool (denyRules config .mcp agentTarget)
        (denyRules (enableMcpTool server tool config agentTarget) .mcp agentTarget) ↔
      Spelled (deniesTool server tool) (aboutTool server tool) (isToolKey server tool)
        (denyRules config .mcp agentTarget) (allowRules config .mcp agentTarget)
        (legacyLists config .mcp agentTarget).1) ∧
    (ServerEnabled server (denyRules config .mcp agentTarget)
        (denyRules (enableMcpServer server config agentTarget) .mcp agentTarget) ↔
      Spelled (deniesServer server) (aboutServer server) (aboutServer server)
        (denyRules config .mcp agentTarget) (allowRules config .mcp agentTarget)
        (legacyLists config .mcp agentTarget).1) ∧
    (¬ (allowRules config .mcp agentTarget = [] ∧
        ∀ entry ∈ denyRules config .mcp agentTarget, aboutServer server entry = true) →
      (((denyRules (enableMcpServer server config agentTarget) .mcp agentTarget).filter fun entry =>
          !deniesServer server entry) =
        ((denyRules config .mcp agentTarget).filter fun entry => !deniesServer server entry) ↔
      ∀ entry ∈ denyRules config .mcp agentTarget, aboutServer server entry = true →
        deniesServer server entry = true)) ∧
    (SkillEnabled casefold skillName (denyRules config .skills agentTarget)
        (denyRules (enableSkill skillName config agentTarget) .skills agentTarget) ↔
      ∀ entry ∈ denyRules config .skills agentTarget,
        deniesSkill casefold skillName entry = true → isSkillEntry skillName entry = true) := by
  refine ⟨?_, ?_, tool_rules_stay_iff server config agentTarget, ?_⟩
  · have habout : ∀ entry, isToolKey server tool entry = true →
        aboutTool server tool entry = true := by
      intro entry hkey
      rw [aboutTool, hkey, Bool.true_or]
    rw [toolEnabled_iff, ← removable_iff_spelled habout]
    exact undone_iff .mcp config agentTarget
  · have hundone := @undone_iff (deniesServer server) (aboutServer server) (aboutServer server)
      .mcp config agentTarget
    rw [removable_iff_spelled fun _ h => h] at hundone
    rw [ServerEnabled, isMcpServerDenied_eq_false_iff, enableMcpServer,
      removeServerDenyEntries_eq, ← hundone]
    exact ⟨fun h => ⟨h.1, h.2⟩, fun h => ⟨h.gone, h.others⟩⟩
  · have hkeep : (fun deny => removeSkillNameDenyEntry deny skillName) =
        List.filter fun entry => !isSkillEntry skillName entry := by
      funext deny
      rw [removeSkillNameDenyEntry]
      congr 1
      funext entry
      simp only [isSkillEntry]
      cases parseSkillPermissionEntry entry <;> rfl
    have hundone := @undone_iff (deniesSkill casefold skillName) (aboutSkill casefold skillName)
      (isSkillEntry skillName) .skills config agentTarget
    have habout : ∀ entry, isSkillEntry skillName entry = true →
        aboutSkill casefold skillName entry = true := by
      intro entry hentry
      rw [aboutSkill, hentry, Bool.true_or]
    rw [removable_iff_spelled habout] at hundone
    rw [SkillEnabled, isSkillNameDenied_eq_false_iff, enableSkill, hkeep]
    have hnolegacy : (legacyLists config .skills agentTarget).1 = [] := rfl
    constructor
    · exact fun h => (hundone.mp ⟨h.1, h.2⟩).removes
    · intro hspelled
      have h := hundone.mpr ⟨hspelled, fun _ _ entry hentry => by
        rw [hnolegacy] at hentry
        cases hentry⟩
      exact ⟨h.gone, h.others⟩

/-- `deny: ["hedl / batch"]` under `tools.permissions`. -/
def spacedConfig : Fields :=
  .dict "tools" (.dict "permissions"
    (.leaf "deny".toList (.list ["hedl / batch".toList]) .nil) .nil) .nil

/-- The rule still denies the tool after it is enabled. -/
theorem spaced_rule_stays :
    ¬ ∀ (casefold : Text → Text) (config : Fields) (agentTarget : PermissionAgentTarget)
      (server tool skillName : Text),
      ToolEnabled server tool (denyRules config .mcp agentTarget)
        (denyRules (enableMcpTool server tool config agentTarget) .mcp agentTarget) ∧
      ServerEnabled server (denyRules config .mcp agentTarget)
        (denyRules (enableMcpServer server config agentTarget) .mcp agentTarget) ∧
      SkillEnabled casefold skillName (denyRules config .skills agentTarget)
        (denyRules (enableSkill skillName config agentTarget) .skills agentTarget) := by
  intro h
  obtain ⟨⟨hgone, -⟩, -⟩ := h id spacedConfig .all "hedl" "batch" []
  have hmem : "hedl / batch".toList ∈ denyRules
      (enableMcpTool "hedl" "batch" spacedConfig .all) .mcp .all := by decide
  have hdenied := hgone _ hmem (by decide)
  revert hdenied
  decide

end ClearYourTools.Permissions
