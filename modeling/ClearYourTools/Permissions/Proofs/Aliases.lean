import ClearYourTools.CytMcp.ToolIdentity
import ClearYourTools.Permissions.Match

/-!
# Equivalent deny entries

The keys that are declared to refer to one catalog tool, and which of them the matcher takes
for a rule about that tool.
-/

namespace ClearYourTools.Permissions

open Misc CytMcp List

/-- A rule of the list is about the server itself. -/
def RulesServer (server : Text) (rule : ParsedMcpDenyRule) : Prop :=
  rule.kind ≠ .tool ∧ rule.server = server

/-- A rule of the list is about the tool: about its server, or about the tool on it. -/
def RulesTool (server tool : Text) (rule : ParsedMcpDenyRule) : Prop :=
  rule.server = server ∧
    (rule.kind ≠ .tool ∨ ∃ r ∈ rule.tool, mcpToolDenyRuleMatches server tool r = true)

theorem isMcpServerDenied_iff (server : Text) (entries : List Text) :
    isMcpServerDenied server entries = true ↔
      server.strip ≠ [] ∧ ∃ rule ∈ parseMcpDenyRules entries, RulesServer server.strip rule := by
  have hkind : ∀ kind : McpRuleKind,
      (kind == .server || kind == .serverWildcard) = true ↔ kind ≠ .tool := by
    intro kind
    cases kind <;> decide
  simp only [isMcpServerDenied]
  split
  · rename_i hnil
    simp [hnil]
  · rename_i hne
    simp only [any_eq_true, Bool.and_eq_true, hkind, beq_iff_eq, RulesServer]
    exact (and_iff_right hne).symm

variable (server tool : Text)
variable (entries : List Text)

theorem isMcpToolDenied_iff :
    isMcpToolDenied server tool entries = true ↔
      server.strip ≠ [] ∧ tool.strip ≠ [] ∧
        ∃ rule ∈ parseMcpDenyRules entries, RulesTool server.strip tool.strip rule := by
  simp only [isMcpToolDenied]
  split
  · rename_i hnil
    rcases hnil with hnil | hnil <;> simp [hnil]
  rename_i hne
  rw [not_or] at hne
  have hserver := isMcpServerDenied_iff server.strip entries
  rw [Text.strip_strip, and_iff_right hne.1] at hserver
  rw [and_iff_right hne.1, and_iff_right hne.2]
  split
  · rename_i hdenied
    obtain ⟨rule, hrule, hkind, heq⟩ := hserver.mp hdenied
    exact ⟨fun _ => ⟨rule, hrule, heq, .inl hkind⟩, fun _ => rfl⟩
  rename_i hfree
  rw [hserver] at hfree
  simp only [any_eq_true, Bool.and_eq_true, beq_iff_eq, Option.any_eq_true]
  constructor
  · rintro ⟨rule, hrule, ⟨-, heq⟩, r, hr, hmatch⟩
    exact ⟨rule, hrule, heq, .inr ⟨r, hr, hmatch⟩⟩
  · rintro ⟨rule, hrule, heq, hkind | ⟨r, hr, hmatch⟩⟩
    · exact absurd ⟨rule, hrule, hkind, heq⟩ hfree
    · refine ⟨rule, hrule, ⟨?_, heq⟩, r, hr, hmatch⟩
      by_contra hkind
      exact hfree ⟨rule, hrule, hkind, heq⟩

theorem not_isSpace_underscore : isSpace '_' = false := by decide

theorem splitCatalogToolName_append {p : Text} (hp : '_' ∉ p) (y : Text) :
    splitCatalogToolName (p ++ '_' :: y) =
      if p.lstrip = [] ∨ y.rstrip = [] then none else some (p.lstrip, y.rstrip) := by
  have hlstrip : '_' ∉ p.lstrip := fun hmem => hp ((dropWhile_sublist _).subset hmem)
  simp only [splitCatalogToolName, Text.strip_append_cons p not_isSpace_underscore,
    Text.partition_append_cons hlstrip]
  rw [if_neg (by simp)]

theorem splitCatalogToolName_strip (name : Text) :
    splitCatalogToolName name.strip = splitCatalogToolName name := by
  simp only [splitCatalogToolName, Text.strip_strip]

theorem isMcpToolDenied_congr {server server' tool tool' : Text}
    (hserver : server.strip = server'.strip) (htool : tool.strip = tool'.strip)
    (entries : List Text) :
    isMcpToolDenied server tool entries = isMcpToolDenied server' tool' entries := by
  simp only [isMcpToolDenied, hserver, htool]

theorem lstrip_eq_nil_iff_strip {t : Text} : t.lstrip = [] ↔ t.strip = [] := by
  rw [Text.lstrip_eq_nil_iff, Text.strip_eq_nil_iff]

theorem rstrip_eq_nil_iff_strip {t : Text} : t.rstrip = [] ↔ t.strip = [] := by
  rw [Text.rstrip_eq_nil_iff, Text.strip_eq_nil_iff]

/-- A wire name is denied when the tool that its first underscore splits off is, or, when it
has no other underscore, when the tool is under its agent-visible name. -/
theorem isCatalogToolDenied_append {p : Text} (hp : '_' ∉ p) (y : Text) (entries : List Text) :
    isCatalogToolDenied (p ++ '_' :: y) entries = true ↔
      isMcpToolDenied p y entries = true ∨
        (p.strip ≠ [] ∧ y.strip ≠ [] ∧ '_' ∉ y ∧
          isMcpToolDenied p (p ++ '_' :: y) entries = true) := by
  have hname : (p ++ '_' :: y).strip = p.lstrip ++ '_' :: y.rstrip :=
    Text.strip_append_cons p not_isSpace_underscore y
  have hlstrip : '_' ∉ p.lstrip := fun hmem => hp ((dropWhile_sublist _).subset hmem)
  simp only [isCatalogToolDenied, splitCatalogToolName_strip]
  rw [if_neg (by rw [hname]; simp), splitCatalogToolName_append hp]
  by_cases hnil : p.lstrip = [] ∨ y.rstrip = []
  · rw [if_pos hnil]
    rw [lstrip_eq_nil_iff_strip, rstrip_eq_nil_iff_strip] at hnil
    rw [isMcpToolDenied_iff]
    rcases hnil with hnil | hnil <;> simp [hnil]
  · rw [if_neg hnil]
    simp only
    rw [not_or] at hnil
    have htool : isMcpToolDenied p.lstrip y.rstrip entries = isMcpToolDenied p y entries :=
      isMcpToolDenied_congr (Text.strip_lstrip p) (Text.strip_rstrip y) entries
    rw [htool]
    have hcount : (p ++ '_' :: y).strip.count '_' = 1 ↔ '_' ∉ y := by
      rw [hname, count_append, count_eq_zero_of_not_mem hlstrip, count_cons_self, Nat.zero_add,
        Nat.add_eq_right, count_eq_zero, Text.mem_rstrip not_isSpace_underscore]
    cases hdenied : isMcpToolDenied p y entries with
    | true => simp
    | false =>
      simp only [Bool.false_eq_true, if_false, false_or]
      split
      · rename_i hone
        have hagent : ¬ (p.lstrip.lstrip = [] ∨ (p ++ '_' :: y).strip.rstrip = []) := by
          rw [Text.lstrip_lstrip, (Text.stripped_strip _).rstrip, hname, not_or]
          exact ⟨hnil.1, by simp⟩
        have hvisible : isMcpToolDenied p.lstrip.lstrip (p ++ '_' :: y).strip.rstrip entries =
            isMcpToolDenied p (p ++ '_' :: y) entries := by
          apply isMcpToolDenied_congr
          · rw [Text.strip_lstrip, Text.strip_lstrip]
          · rw [Text.strip_rstrip, Text.strip_strip]
        rw [splitCatalogToolName_append hlstrip, if_neg hagent]
        simp only
        rw [hvisible, ← hcount]
        rw [lstrip_eq_nil_iff_strip, rstrip_eq_nil_iff_strip] at hnil
        simp only [ne_eq, hnil, not_false_eq_true, hone, true_and]
      · rename_i hmany
        rw [hcount] at hmany
        simp [hmany]

/-- Some rule of the list is about the server, or about the tool on it. -/
def Ruled (server tool : Text) (entries : List Text) : Prop :=
  server.strip ≠ [] ∧ ∃ rule ∈ parseMcpDenyRules entries,
    RulesServer server.strip rule ∨ (tool.strip ≠ [] ∧ RulesTool server.strip tool.strip rule)

theorem ruled_iff :
    Ruled server tool entries ↔
      (isMcpServerDenied server entries = true ∨ isMcpToolDenied server tool entries = true) := by
  rw [isMcpServerDenied_iff, isMcpToolDenied_iff, Ruled]
  constructor
  · rintro ⟨hserver, rule, hrule, hrules | ⟨htool, hrules⟩⟩
    · exact .inl ⟨hserver, rule, hrule, hrules⟩
    · exact .inr ⟨hserver, htool, rule, hrule, hrules⟩
  · rintro (⟨hserver, rule, hrule, hrules⟩ | ⟨hserver, htool, rule, hrule, hrules⟩)
    · exact ⟨hserver, rule, hrule, .inl hrules⟩
    · exact ⟨hserver, rule, hrule, .inr ⟨htool, hrules⟩⟩

/-- Some rule of the list is about the pair that the first underscore of the server key splits
the wire name into. -/
def RuledAtUnderscore (server tool : Text) (entries : List Text) : Prop :=
  ∃ p q, server = p ++ '_' :: q ∧ '_' ∉ p ∧ Ruled p (q ++ '_' :: tool) entries

/-- For every server key, tool name and deny list: a denied tool is denied under its wire name
exactly when no rule is about it, or its key has no underscore and its name is not blank, or
a rule is about the pair that the first underscore gives. -/
theorem wire_name_denied_iff (server tool : Text) (entries : List Text) :
    ((isMcpServerDenied server entries = true ∨ isMcpToolDenied server tool entries = true) →
      isCatalogToolDenied (wireNameFor server tool) entries = true) ↔
    (¬ Ruled server tool entries ∨ ('_' ∉ server ∧ tool.strip ≠ []) ∨
      RuledAtUnderscore server tool entries) := by
  rw [← ruled_iff, wireNameFor]
  -- of the tools with a blank name only the server can be ruled on
  have hruled : ∀ p y, y.strip ≠ [] → (Ruled p y entries ↔ isMcpToolDenied p y entries = true) := by
    intro p y hy
    rw [ruled_iff, isMcpServerDenied_iff, isMcpToolDenied_iff, or_iff_right_iff_imp]
    rintro ⟨hp, rule, hrule, hkind, heq⟩
    exact ⟨hp, hy, rule, hrule, heq, .inl hkind⟩
  by_cases hunderscore : '_' ∈ server
  · obtain ⟨p, q, rfl, hp⟩ := eq_append_cons_of_mem hunderscore
    have htool : Text.strip (q ++ '_' :: tool) ≠ [] := by
      rw [Text.strip_append_cons q not_isSpace_underscore]
      simp
    have hcatalog : isCatalogToolDenied (p ++ '_' :: q ++ '_' :: tool) entries = true ↔
        Ruled p (q ++ '_' :: tool) entries := by
      rw [List.append_assoc, List.cons_append, isCatalogToolDenied_append hp, hruled _ _ htool]
      simp
    have hpair : RuledAtUnderscore (p ++ '_' :: q) tool entries ↔
        Ruled p (q ++ '_' :: tool) entries := by
      constructor
      · rintro ⟨p', q', heq, hp', hrules⟩
        have hsplit := Text.partition_append_cons hp q
        rw [heq, Text.partition_append_cons hp', Prod.mk.injEq] at hsplit
        rwa [← hsplit.1, ← hsplit.2]
      · exact fun hrules => ⟨p, q, rfl, hp, hrules⟩
    rw [hcatalog, hpair]
    have hnot : ¬ ('_' ∉ p ++ '_' :: q ∧ tool.strip ≠ []) := fun h => h.1 hunderscore
    rw [or_iff_right hnot, imp_iff_not_or]
  · have hnot : ¬ RuledAtUnderscore server tool entries := by
      rintro ⟨p, q, rfl, -, -⟩
      exact hunderscore (by simp)
    rw [isCatalogToolDenied_append hunderscore, or_iff_left hnot, and_iff_right hunderscore]
    by_cases htool : tool.strip = []
    · have hdenied : ¬ isMcpToolDenied server tool entries = true := by
        rw [isMcpToolDenied_iff]
        exact fun h => h.2.1 htool
      simp [htool, hdenied]
    · rw [hruled _ _ htool]
      exact ⟨fun _ => .inr htool, fun _ hdenied => .inl hdenied⟩

theorem underscore_server_not_denied :
    ¬ ∀ (server tool : Text) (entries : List Text),
      (isMcpServerDenied server entries = true ∨ isMcpToolDenied server tool entries = true) →
        isCatalogToolDenied (wireNameFor server tool) entries = true := by
  intro h
  have hdenied := h "my_server".toList "x".toList ["my_server".toList] (.inl (by decide))
  revert hdenied
  decide

open Misc

/-- The tool name is agent-visible for a shorter one: it starts with its server. -/
def AgentVisible (server tool bare : Text) : Prop :=
  tool = server ++ '_' :: bare ∧ bare ≠ [] ∧ '_' ∉ server ∧ '_' ∉ bare

theorem count_underscore_eq_one {x y : Text} :
    (x ++ '_' :: y).count '_' = 1 ↔ '_' ∉ x ∧ '_' ∉ y := by
  rw [count_append, count_cons_self, ← count_eq_zero, ← count_eq_zero]
  omega

section

variable {server tool : Text} (hserver : Text.Stripped server) (htool : Text.Stripped tool)
  (hserverne : server ≠ []) (htoolne : tool ≠ [])

include hserver hserverne in
theorem splitCatalogToolName_of_count {y : Text} (hy : y.rstrip = y) (hyne : y ≠ [])
    (hcount : (server ++ '_' :: y).count '_' = 1) :
    splitCatalogToolName (server ++ '_' :: y) = some (server, y) := by
  rw [count_underscore_eq_one] at hcount
  rw [splitCatalogToolName_append hcount.1, hserver.lstrip, hy, if_neg]
  rw [not_or]
  exact ⟨hserverne, hyne⟩

theorem rstrip_of_append {x y : Text} {c : Char} (h : Text.Stripped (x ++ c :: y))
    (hc : isSpace c = false) : y.rstrip = y := by
  have hend := h.rstrip
  rw [Text.rstrip_append_cons _ hc, append_cancel_left_eq, List.cons.injEq] at hend
  exact hend.2

include hserver htool hserverne htoolne in
theorem mem_equivalentMcpToolDenyEntries {e : Text} :
    e ∈ equivalentMcpToolDenyEntries server tool ↔ e = toolKey server tool ∨ ('_' ∉ server ∧
      '_' ∉ tool ∧ e = toolKey server (server ++ '_' :: tool)) ∨ ∃ bare,
      AgentVisible server tool bare ∧ e = toolKey server bare := by
  have halias : (splitCatalogToolName (server ++ '_' :: tool) = some (server, tool) ∧
      (server ++ '_' :: tool).count '_' = 1) ↔ '_' ∉ server ∧ '_' ∉ tool := by
    rw [← count_underscore_eq_one]
    exact and_iff_right_of_imp
      (splitCatalogToolName_of_count hserver hserverne htool.rstrip htoolne)
  have hreverse : ((server ++ ['_']).isPrefixOf tool = true ∧
      tool.drop (server ++ ['_']).length ≠ [] ∧
      (server ++ '_' :: tool.drop (server ++ ['_']).length).count '_' = 1 ∧
      splitCatalogToolName (server ++ '_' :: tool.drop (server ++ ['_']).length) =
        some (server, tool.drop (server ++ ['_']).length) ∧
      tool.drop (server ++ ['_']).length ≠ tool) ↔
        AgentVisible server tool (tool.drop (server ++ ['_']).length) := by
    constructor
    · rintro ⟨hstart, hne, hcount, -, -⟩
      rw [ isPrefixOf_iff_prefix] at hstart
      obtain ⟨bare, rfl⟩ := hstart
      rw [count_underscore_eq_one] at hcount
      refine ⟨?_, hne, hcount⟩
      simp
    · rintro ⟨hsplit, hne, hunderscore⟩
      have hcount := count_underscore_eq_one.mpr hunderscore
      refine ⟨?_, hne, hcount, ?_, ?_⟩
      · rw [ isPrefixOf_iff_prefix]
        exact ⟨tool.drop (server ++ ['_']).length, by rw [List.append_assoc]; exact hsplit.symm⟩
      · refine splitCatalogToolName_of_count hserver hserverne ?_ hne hcount
        rw [hsplit] at htool
        exact rstrip_of_append htool not_isSpace_underscore
      · intro hsame
        have hlength := congrArg List.length hsplit
        rw [hsame, length_append, length_cons] at hlength
        omega
  have hbare : ∀ bare, AgentVisible server tool bare →
      bare = tool.drop (server ++ ['_']).length := by
    rintro bare ⟨rfl, -⟩
    simp
  unfold equivalentMcpToolDenyEntries
  rw [hserver.strip, htool.strip, if_neg (not_or.mpr ⟨hserverne, htoolne⟩)]
  simp only [mem_cons, mem_append]
  constructor
  · rintro (rfl | hkey | hkey)
    · exact .inl rfl
    · split at hkey
      · rename_i hunderscore
        rw [halias] at hunderscore
        exact .inr (.inl ⟨hunderscore.1, hunderscore.2, mem_singleton.mp hkey⟩)
      · cases hkey
    · split at hkey
      · rename_i hvisible
        rcases mem_cons.mp hkey with rfl | hsame
        · exact .inr (.inr ⟨_, hreverse.mp hvisible, rfl⟩)
        · exact .inl (mem_singleton.mp hsame)
      · cases hkey
  · rintro (rfl | ⟨hserver_, htool_, rfl⟩ | ⟨bare, hvisible, rfl⟩)
    · exact .inl rfl
    · rw [if_pos (halias.mpr ⟨hserver_, htool_⟩)]
      exact .inr (.inl (mem_singleton_self _))
    · obtain rfl := hbare bare hvisible
      rw [if_pos (hreverse.mpr hvisible)]
      exact .inr (.inr mem_cons_self)

include hserver hserverne in
/-- A key of a server and a name without slashes: a rule about that tool, or the wildcard rule
of the server when the name is a star. -/
theorem parseMcpDenyEntry_toolKey {x : Text} (hslash : '/' ∉ server) (hx : x.rstrip = x)
    (hxslash : '/' ∉ x) (hxne : x.strip ≠ []) :
    parseMcpDenyEntry (toolKey server x) =
      if x = ['*'] then some ⟨toolKey server x, .serverWildcard, server, none⟩
      else some ⟨toolKey server x, .tool, server, some x.strip⟩ := by
  have hnotspace : isSpace '/' = false := by decide
  have htext : (toolKey server x).strip = toolKey server x := by
    rw [toolKey, Text.strip_append_cons _ hnotspace, hserver.lstrip, hx]
  have hstar : "/*" = ['/', '*'] := by decide
  have hsuffix : "/*".toList.isSuffixOf (toolKey server x) = true ↔ x = ['*'] := by
    rw [hstar, isSuffixOf_iff_suffix, toolKey]
    constructor
    · rintro ⟨rest, hrest⟩
      have hlast : x = [] ∨ ∃ y c, x = y ++ [c] := eq_nil_or_concat' x
      rcases hlast with rfl | ⟨y, c, rfl⟩
      · exact absurd rfl hxne
      have hsplit : rest ++ ['/'] ++ ['*'] = server ++ '/' :: y ++ [c] := by
        simpa using hrest
      obtain ⟨hfront, hc⟩ := append_inj' hsplit rfl
      rcases eq_nil_or_concat' y with rfl | ⟨z, d, rfl⟩
      · exact hc.symm
      have hfront' : rest ++ ['/'] = server ++ '/' :: z ++ [d] := by
        simpa using hfront
      obtain ⟨-, hd⟩ := append_inj' hfront' rfl
      rw [singleton_inj] at hd
      subst hd
      exact absurd (by simp) hxslash
    · rintro rfl
      exact ⟨server, rfl⟩
  have hne : toolKey server x ≠ [] := by simp [toolKey]
  simp only [parseMcpDenyEntry, htext, if_neg hne]
  by_cases hx' : x = ['*']
  · subst hx'
    have htake : (toolKey server ['*']).take ((toolKey server ['*']).length - 2) = server := by
      simp [toolKey]
    rw [if_pos (hsuffix.mpr rfl), if_pos rfl, htake, hserver.strip, if_neg hserverne]
  · have hcontains : (toolKey server x).contains '/' = true := by simp [toolKey]
    have hparts : Text.partition '/' (toolKey server x) = (server, x) :=
      Text.partition_append_cons hslash x
    rw [if_neg (fun h => hx' (hsuffix.mp h)), if_pos hcontains, hparts, hserver.strip,
      if_neg (not_or.mpr ⟨hserverne, hxne⟩), if_neg hx']

include hserver htool hserverne htoolne in
theorem isMcpToolDenied_toolKey_iff {x : Text} (hslash : '/' ∉ server) (hx : x.rstrip = x)
    (hxslash : '/' ∉ x) (hxne : x.strip ≠ []) :
    isMcpToolDenied server tool [toolKey server x] = true ↔
      x = ['*'] ∨ mcpToolDenyRuleMatches server tool x.strip = true := by
  rw [isMcpToolDenied_iff, hserver.strip, htool.strip, and_iff_right hserverne,
    and_iff_right htoolne, parseMcpDenyRules]
  have hparse := parseMcpDenyEntry_toolKey hserver hserverne hslash hx hxslash hxne
  by_cases hstar : x = ['*']
  · rw [if_pos hstar] at hparse
    rw [filterMap_cons, hparse]
    simp [RulesTool, hstar]
  · rw [if_neg hstar] at hparse
    rw [filterMap_cons, hparse]
    simp [RulesTool, hstar]

include hserver htool hserverne htoolne in
theorem mcpToolDenyRuleMatches_iff {r : Text} (hr : r.strip ≠ []) (hslash : '/' ∉ r) :
    mcpToolDenyRuleMatches server tool r = true ↔
      r.strip = tool ∨ (r.strip = server ++ '_' :: tool ∧
        splitCatalogToolName (server ++ '_' :: tool) = some (server, tool)) := by
  -- the equivalent entries are whole keys, with a slash
  have hkeys : (equivalentMcpToolDenyEntries server tool).contains r.strip = false := by
    rw [← Bool.not_eq_true, contains_iff_mem,
      mem_equivalentMcpToolDenyEntries hserver htool hserverne htoolne]
    have hnot : ∀ x, r.strip ≠ toolKey server x := by
      intro x heq
      apply hslash
      apply Text.mem_of_mem_strip
      rw [heq]
      simp [toolKey]
    rintro (heq | ⟨-, -, heq⟩ | ⟨_, -, heq⟩) <;> exact hnot _ heq
  simp only [mcpToolDenyRuleMatches, if_neg hr, hkeys]
  split
  · rename_i heq
    simp [heq]
  · rename_i hne
    simp [hne]

include hserver htool hserverne htoolne in
theorem not_matches_bare {bare : Text} (hvisible : AgentVisible server tool bare)
    (hslash : '/' ∉ bare) (hne : bare.strip ≠ []) :
    mcpToolDenyRuleMatches server tool bare.strip = false := by
  have hlength : bare.strip.length ≤ bare.length :=
    ((( rdropWhile_prefix isSpace _).sublist).trans (dropWhile_sublist isSpace)).length_le
  have htoollength := congrArg List.length hvisible.1
  rw [length_append, length_cons] at htoollength
  rw [← Bool.not_eq_true, mcpToolDenyRuleMatches_iff hserver htool hserverne htoolne
    (by rwa [Text.strip_strip]) (fun hmem => hslash (Text.mem_of_mem_strip hmem)),
    Text.strip_strip]
  rintro (heq | ⟨heq, -⟩)
  · rw [heq] at hlength
    omega
  · rw [heq, length_append, length_cons] at hlength
    omega

end

/-- For every server and tool whose names are not blank and have no slash: all declared keys
of the tool deny it exactly when its name is not the agent-visible form of a shorter one, the
star aside, whose key is a wildcard rule. -/
theorem equivalent_entries_deny_iff (server tool : Text) (hserver : server.strip ≠ [])
    (htool : tool.strip ≠ []) (hslash : '/' ∉ server) (htoolslash : '/' ∉ tool) :
    (∀ e ∈ equivalentMcpToolDenyEntries server tool, isMcpToolDenied server tool [e] = true) ↔
      ∀ bare, AgentVisible server.strip tool.strip bare → bare = ['*'] := by
  have hstripped := Text.stripped_strip server
  have htoolstripped := Text.stripped_strip tool
  have hslash' : '/' ∉ server.strip := fun h => hslash (Text.mem_of_mem_strip h)
  have htoolslash' : '/' ∉ tool.strip := fun h => htoolslash (Text.mem_of_mem_strip h)
  have hentries : equivalentMcpToolDenyEntries server tool =
      equivalentMcpToolDenyEntries server.strip tool.strip := by
    simp only [equivalentMcpToolDenyEntries, Text.strip_strip]
  have hdenied : ∀ entries, isMcpToolDenied server tool entries =
      isMcpToolDenied server.strip tool.strip entries :=
    isMcpToolDenied_congr (Text.strip_strip _).symm (Text.strip_strip _).symm
  simp only [hentries, hdenied]
  generalize server.strip = s at *
  generalize tool.strip = t at *
  have hbarestrip : ∀ bare, AgentVisible s t bare →
      bare.rstrip = bare ∧ '/' ∉ bare ∧ bare.strip ≠ [] := by
    rintro bare ⟨rfl, hne, -⟩
    have hend := rstrip_of_append htoolstripped not_isSpace_underscore
    refine ⟨hend, fun hmem => htoolslash' (by simp [hmem]), ?_⟩
    rwa [ne_eq, Text.strip_eq_nil_iff, ← Text.rstrip_eq_nil_iff, hend]
  constructor
  · intro h bare hvisible
    obtain ⟨hend, hbareslash, hbarene⟩ := hbarestrip bare hvisible
    have hkey := h (toolKey s bare) ((mem_equivalentMcpToolDenyEntries hstripped htoolstripped
      hserver htool).mpr (.inr (.inr ⟨bare, hvisible, rfl⟩)))
    rw [isMcpToolDenied_toolKey_iff hstripped htoolstripped hserver htool hslash' hend hbareslash
      hbarene] at hkey
    rcases hkey with hstar | hmatch
    · exact hstar
    · rw [not_matches_bare hstripped htoolstripped hserver htool hvisible hbareslash hbarene]
        at hmatch
      cases hmatch
  · intro h e he
    rw [mem_equivalentMcpToolDenyEntries hstripped htoolstripped hserver htool] at he
    rcases he with rfl | ⟨hs, ht, rfl⟩ | ⟨bare, hvisible, rfl⟩
    · have hne : t.strip ≠ [] := by rwa [htoolstripped.strip]
      rw [isMcpToolDenied_toolKey_iff hstripped htoolstripped hserver htool hslash'
        htoolstripped.rstrip htoolslash' hne, htoolstripped.strip,
        mcpToolDenyRuleMatches_iff hstripped htoolstripped hserver htool hne htoolslash']
      exact .inr (.inl htoolstripped.strip)
    · have hcatalog := hstripped.append_cons htoolstripped not_isSpace_underscore
      have hcatalogslash : '/' ∉ s ++ '_' :: t := by
        simp [hslash', htoolslash']
      have hne : Text.strip (s ++ '_' :: t) ≠ [] := by
        rw [hcatalog.strip]
        simp
      rw [isMcpToolDenied_toolKey_iff hstripped htoolstripped hserver htool hslash'
        hcatalog.rstrip hcatalogslash hne, hcatalog.strip,
        mcpToolDenyRuleMatches_iff hstripped htoolstripped hserver htool hne hcatalogslash]
      refine .inr (.inr ⟨hcatalog.strip, ?_⟩)
      exact splitCatalogToolName_of_count hstripped hserver htoolstripped.rstrip htool
        (count_underscore_eq_one.mpr ⟨hs, ht⟩)
    · obtain rfl := h bare hvisible
      obtain ⟨hend, hbareslash, hbarene⟩ := hbarestrip _ hvisible
      rw [isMcpToolDenied_toolKey_iff hstripped htoolstripped hserver htool hslash' hend hbareslash
        hbarene]
      exact .inl rfl

theorem equivalent_entries_deny_iff_batch :
    (∀ e ∈ equivalentMcpToolDenyEntries "hedl" "batch", isMcpToolDenied "hedl" "batch" [e] = true) ↔
      ∀ bare, AgentVisible (Text.strip "hedl") (Text.strip "batch") bare → bare = ['*'] :=
  equivalent_entries_deny_iff "hedl" "batch" (by decide) (by decide) (by decide)
    (by decide)

theorem short_key_does_not_deny :
    ¬ ∀ server tool : Text, server.strip ≠ [] → tool.strip ≠ [] → '/' ∉ server → '/' ∉ tool →
      ∀ e ∈ equivalentMcpToolDenyEntries server tool, isMcpToolDenied server tool [e] = true := by
  intro h
  have hmem : "hedl/batch".toList ∈ equivalentMcpToolDenyEntries "hedl" "hedl_batch" := by decide
  have hdenied := h "hedl" "hedl_batch" (by decide) (by decide) (by decide) (by decide) _ hmem
  revert hdenied
  decide

end ClearYourTools.Permissions
