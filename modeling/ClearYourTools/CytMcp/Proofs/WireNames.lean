import ClearYourTools.CytMcp.Catalog

/-!
# Wire names as identities

A wire name is the server key and the tool name around an underscore. It is taken apart at the
longest configured key in front of an underscore.
-/

namespace ClearYourTools.CytMcp

open Misc List

/-- A name as it is configured: not empty, and without space at its ends. -/
def Name (t : Text) : Prop := t ≠ [] ∧ Text.Stripped t

theorem append_cons_eq_append_cons_cases {x y x' y' : Text} {c : Char}
    (h : x ++ c :: y = x' ++ c :: y') :
    (x = x' ∧ y = y') ∨ (∃ r, x' = x ++ c :: r ∧ y = r ++ c :: y') ∨
      ∃ r, x = x' ++ c :: r ∧ y' = r ++ c :: y := by
  rw [append_eq_append_iff] at h
  rcases h with ⟨z, rfl, hz⟩ | ⟨z, rfl, hz⟩
  · cases z with
    | nil => simp_all
    | cons d r =>
      obtain ⟨rfl, rfl⟩ := List.cons.inj hz
      exact .inr (.inl ⟨r, rfl, rfl⟩)
  · cases z with
    | nil => simp_all
    | cons d r =>
      obtain ⟨rfl, rfl⟩ := List.cons.inj hz
      exact .inr (.inr ⟨r, rfl, rfl⟩)

theorem not_isSpace_separator : isSpace '_' = false := by decide

section

variable {keys : List Text} (hkeys : ∀ key ∈ keys, Name key)

include hkeys in
theorem strippedKeys_eq : strippedKeys keys = keys := by
  have hmap : keys.map Text.strip = keys := by
    conv_rhs => rw [← map_id keys]
    exact map_congr_left fun key hkey => (hkeys key hkey).2.strip
  rw [strippedKeys, hmap, filter_eq_self]
  intro key hkey
  simpa using (hkeys key hkey).1

theorem mem_longestFirst {key : Text} : key ∈ longestFirst keys ↔ key ∈ keys := mem_mergeSort

theorem pairwise_longestFirst (keys : List Text) :
    (longestFirst keys).Pairwise fun a b => b.length ≤ a.length := by
  have hsorted := @pairwise_mergeSort _ (fun a b : Text => decide (b.length ≤ a.length))
    (by
      intro a b c hab hbc
      rw [decide_eq_true_eq] at hab hbc ⊢
      omega)
    (by
      intro a b
      rw [Bool.or_eq_true, decide_eq_true_eq, decide_eq_true_eq]
      omega) keys
  exact hsorted.imp fun h => of_decide_eq_true h

/-- What a configured key makes of a name: the rest behind it, if that is not blank. -/
theorem splitAt_iff {name key : Text} (hkey : key ∈ keys) (identity : CytMcpToolIdentity) :
    splitAt keys name key = some identity ↔
      ∃ u : Text, name = key ++ '_' :: u ∧ u.strip ≠ [] ∧ identity = ⟨name, key, u.strip⟩ := by
  have hempty : keys.isEmpty = false := by
    rw [isEmpty_eq_false_iff]
    exact ne_nil_of_mem hkey
  have hfalse : ∀ bare, isFalseWireSplit keys ⟨name, key, bare⟩ = false := by
    intro bare
    simp [isFalseWireSplit, hempty, hkey]
  simp only [splitAt]
  by_cases hstart : (key ++ ['_']).isPrefixOf name = true
  · have hname : ∃ u, name = key ++ '_' :: u := by
      rw [ isPrefixOf_iff_prefix] at hstart
      obtain ⟨u, rfl⟩ := hstart
      exact ⟨u, by simp⟩
    obtain ⟨u, rfl⟩ := hname
    have hdrop : (key ++ '_' :: u).drop (key ++ ['_']).length = u := by simp
    rw [if_neg (not_not.mpr hstart), hdrop]
    by_cases hblank : Text.strip u = []
    · rw [if_pos hblank]
      simp [hblank]
    rw [if_neg hblank, hfalse, if_neg (by simp), Option.some.injEq]
    constructor
    · rintro rfl
      exact ⟨u, rfl, hblank, rfl⟩
    · rintro ⟨u', hu, -, rfl⟩
      rw [append_cancel_left_eq, List.cons.injEq] at hu
      rw [hu.2]
  · rw [if_pos hstart]
    constructor
    · intro h
      cases h
    · rintro ⟨u, rfl, -⟩
      apply absurd _ hstart
      rw [ isPrefixOf_iff_prefix]
      exact ⟨u, by simp⟩

variable {server tool : Text} (hserver : server ∈ keys) (htool : Name tool)

include hkeys hserver htool in
theorem stripped_wireNameFor : Text.Stripped (wireNameFor server tool) :=
  (hkeys server hserver).2.append_cons htool.2 not_isSpace_separator

theorem strip_ne_nil_of_append {r u : Text} (h : Text.Stripped (r ++ '_' :: u)) (hne : u ≠ []) :
    u.strip ≠ [] := by
  have hend := h.rstrip
  rw [Text.rstrip_append_cons _ not_isSpace_separator, append_cancel_left_eq,
    List.cons.injEq] at hend
  rwa [ne_eq, Text.strip_eq_nil_iff, ← Text.rstrip_eq_nil_iff, hend.2]

/-- No configured key goes on behind the server key and leaves a rest of the tool name. -/
def NoLongerKey (keys : List Text) (server tool : Text) : Prop :=
  ∀ key ∈ keys, ∀ r u, key = server ++ '_' :: r → tool = r ++ '_' :: u → u = []

include hkeys hserver htool in
theorem splitWireName_wireNameFor_iff :
    splitWireName keys (wireNameFor server tool) keys =
        some ⟨wireNameFor server tool, server, tool⟩ ↔ NoLongerKey keys server tool := by
  have hstripped := stripped_wireNameFor hkeys hserver htool
  have hself : splitAt keys (wireNameFor server tool) server =
      some ⟨wireNameFor server tool, server, tool⟩ := by
    rw [splitAt_iff hserver]
    refine ⟨tool, rfl, ?_, ?_⟩
    · rw [htool.2.strip]
      exact htool.1
    · rw [htool.2.strip]
  have hne : ¬ (wireNameFor server tool = [] ∨ keys = []) := by
    rw [not_or]
    exact ⟨by simp [wireNameFor], ne_nil_of_mem hserver⟩
  have hsplit : splitWireName keys (wireNameFor server tool) keys =
      (longestFirst keys).findSome? (splitAt keys (wireNameFor server tool)) := by
    simp only [splitWireName, hstripped.strip, strippedKeys_eq hkeys, if_neg hne]
  have hsorted := pairwise_longestFirst keys
  rw [hsplit]
  constructor
  · intro hfound key hkey r u hlonger hrest
    by_contra hu
    rw [findSome?_eq_some_iff] at hfound
    obtain ⟨before, found, after, hkeysplit, hfoundkey, hbefore⟩ := hfound
    have hmemfound : found ∈ keys := by
      rw [← mem_longestFirst, hkeysplit]
      simp
    rw [splitAt_iff hmemfound] at hfoundkey
    obtain ⟨_, -, -, hidentity⟩ := hfoundkey
    obtain rfl : server = found := congrArg CytMcpToolIdentity.serverKey hidentity
    -- the longer key comes before the server key and fits as well
    have hlength : server.length < key.length := by
      rw [hlonger, length_append, length_cons]
      omega
    have hfits : splitAt keys (wireNameFor server tool) key ≠ none := by
      rw [Option.ne_none_iff_exists']
      refine ⟨_, (splitAt_iff hkey _).mpr ⟨u, ?_, ?_, rfl⟩⟩
      · rw [wireNameFor, hlonger, hrest, List.append_assoc]
        rfl
      · rw [hrest] at htool
        exact strip_ne_nil_of_append htool.2 hu
    have hmem := mem_longestFirst.mpr hkey
    rw [hkeysplit] at hmem hsorted
    rcases mem_append.mp hmem with hmem | hmem
    · exact hfits (hbefore key hmem)
    · rcases mem_cons.mp hmem with rfl | hmem
      · omega
      · have hshorter := (pairwise_cons.mp (pairwise_append.mp hsorted).2.1).1 key hmem
        omega
  · intro hno
    have hsome : ((longestFirst keys).findSome?
        (splitAt keys (wireNameFor server tool))).isSome = true := by
      rw [findSome?_isSome_iff]
      exact ⟨server, mem_longestFirst.mpr hserver, by rw [hself]; rfl⟩
    obtain ⟨identity, hidentity⟩ := Option.isSome_iff_exists.mp hsome
    rw [hidentity]
    rw [findSome?_eq_some_iff] at hidentity
    obtain ⟨before, found, after, hkeysplit, hfoundkey, hbefore⟩ := hidentity
    have hmemfound : found ∈ keys := by
      rw [← mem_longestFirst, hkeysplit]
      simp
    have hlength : server.length ≤ found.length := by
      have hmem := mem_longestFirst.mpr hserver
      rw [hkeysplit] at hmem hsorted
      rcases mem_append.mp hmem with hmem | hmem
      · rw [hbefore server hmem] at hself
        cases hself
      · rcases mem_cons.mp hmem with rfl | hmem
        · exact Nat.le_refl _
        · exact (pairwise_cons.mp (pairwise_append.mp hsorted).2.1).1 server hmem
    have hsame : found = server := by
      obtain ⟨u, hname, hblank, -⟩ := (splitAt_iff hmemfound _).mp hfoundkey
      rcases append_cons_eq_append_cons_cases hname with
        ⟨heq, -⟩ | ⟨r, hlonger, hrest⟩ | ⟨r, hshorter, -⟩
      · exact heq.symm
      · rw [hno found hmemfound r u hlonger hrest] at hblank
        exact absurd rfl hblank
      · rw [hshorter, length_append, length_cons] at hlength
        omega
    rw [hsame, hself] at hfoundkey
    exact hfoundkey.symm

/-- A wire name stands for its server and tool: it is resolved to them, no other pair of a
configured server and a tool has it, and the stored schema of the pair counts as canonical and
is not purged. -/
structure WireIdentifies (keys : List Text) (server tool : Text) : Prop where
  resolved : splitWireName keys (wireNameFor server tool) keys =
    some ⟨wireNameFor server tool, server, tool⟩
  unique : ∀ server' ∈ keys, ∀ tool', Name tool' →
    wireNameFor server' tool' = wireNameFor server tool → server' = server ∧ tool' = tool
  canonical : isCanonicalSchemaIdentity keys server tool keys = true
  kept : ∀ rows, (server, tool) ∈ rows →
    (server, tool) ∈ purgeMisparsedIdentitySchemas keys keys rows

/-- No shorter configured key leaves a tool name in front of which the server key goes on. -/
def NoShorterKey (keys : List Text) (server tool : Text) : Prop :=
  ∀ key ∈ keys, ∀ r, server = key ++ '_' :: r → ¬ Name (r ++ '_' :: tool)

include hkeys hserver htool in
/-- The stored schema of a pair is canonical when its wire name is resolved to the pair. -/
theorem isCanonicalSchemaIdentity_iff :
    isCanonicalSchemaIdentity keys server tool keys = true ↔
      splitWireName keys (wireNameFor server tool) keys =
        some ⟨wireNameFor server tool, server, tool⟩ := by
  obtain ⟨hserverne, hserverstripped⟩ := hkeys server hserver
  obtain ⟨htoolne, htoolstripped⟩ := htool
  have hne : ¬ (server = [] ∨ tool = [] ∨ keys = []) := by
    rw [not_or, not_or]
    exact ⟨hserverne, htoolne, ne_nil_of_mem hserver⟩
  have hknown : isKnownServerKey server keys = true := by
    simp only [isKnownServerKey, hserverstripped.strip, if_neg hserverne, strippedKeys_eq hkeys]
    rwa [contains_iff_mem]
  simp only [isCanonicalSchemaIdentity, hserverstripped.strip, htoolstripped.strip, if_neg hne,
    hknown, not_true_eq_false, if_false]
  cases hsplit : splitWireName keys (wireNameFor server tool) keys with
  | none =>
    have htoolname : wireNameFor server tool ≠ tool := by
      intro heq
      have hlength := congrArg List.length heq
      rw [wireNameFor, length_append, length_cons] at hlength
      omega
    have hservername : wireNameFor server tool ≠ server := by
      intro heq
      have hlength := congrArg List.length heq
      rw [wireNameFor, length_append, length_cons] at hlength
      omega
    simp [htoolname, hservername]
  | some identity =>
    have hwire : identity.wireName = wireNameFor server tool := by
      have hstripped := stripped_wireNameFor hkeys hserver ⟨htoolne, htoolstripped⟩
      simp only [splitWireName, hstripped.strip, strippedKeys_eq hkeys] at hsplit
      split at hsplit
      · cases hsplit
      obtain ⟨_, found, _, hkeysplit, hfound, -⟩ := findSome?_eq_some_iff.mp hsplit
      have hmem : found ∈ keys := by
        rw [← mem_longestFirst, hkeysplit]
        simp
      obtain ⟨_, -, -, rfl⟩ := (splitAt_iff hmem _).mp hfound
      rfl
    obtain ⟨wire, key, bare⟩ := identity
    simp only at hwire
    simp [hwire]

end

/-- For every set of configured keys, every key of it and every tool name: the wire name stands
for the pair exactly when no other key fits, neither a longer one that leaves a rest of the
tool name nor a shorter one that leaves a longer tool name. -/
theorem wireIdentifies_iff {keys : List Text} (hkeys : ∀ key ∈ keys, Name key)
    {server tool : Text} (hserver : server ∈ keys) (htool : Name tool) :
    WireIdentifies keys server tool ↔
      NoLongerKey keys server tool ∧ NoShorterKey keys server tool := by
  constructor
  · rintro ⟨hresolved, hunique, -, -⟩
    refine ⟨(splitWireName_wireNameFor_iff hkeys hserver htool).mp hresolved, ?_⟩
    intro key hkey r hshorter htool'
    have hsame := (hunique key hkey _ htool' (by
      rw [wireNameFor, wireNameFor, hshorter, List.append_assoc]
      rfl)).1
    have hlength := congrArg List.length hshorter
    rw [hsame, length_append, length_cons] at hlength
    omega
  · rintro ⟨hlonger, hshorter⟩
    have hresolved := (splitWireName_wireNameFor_iff hkeys hserver htool).mpr hlonger
    have hcanonical := (isCanonicalSchemaIdentity_iff hkeys hserver htool).mpr hresolved
    refine ⟨hresolved, ?_, hcanonical, ?_⟩
    · intro server' hserver' tool' htool' hwire
      rcases append_cons_eq_append_cons_cases hwire with heq | ⟨r, hr, hrest⟩ | ⟨r, hr, hrest⟩
      · exact heq
      · exact absurd (hrest ▸ htool') (hshorter server' hserver' r hr)
      · exact absurd (hlonger server' hserver' r tool' hr hrest) htool'.1
    · intro rows hrow
      exact mem_filter.mpr ⟨hrow, hcanonical⟩

theorem name_of_decide {t : Text} (h : t ≠ [] ∧ t.strip = t) : Name t :=
  ⟨h.1, Text.stripped_iff.mpr h.2⟩

theorem wireIdentifies_iff_files :
    WireIdentifies ["files".toList] "files".toList "read_all".toList ↔
      NoLongerKey ["files".toList] "files".toList "read_all".toList ∧
        NoShorterKey ["files".toList] "files".toList "read_all".toList :=
  wireIdentifies_iff
    (fun key hkey => by
      obtain rfl := mem_singleton.mp hkey
      exact name_of_decide (by decide))
    mem_cons_self (name_of_decide (by decide))

/-- Two servers whose keys start alike share a wire name. -/
theorem shared_wire_name :
    ¬ ∀ keys : List Text, (∀ key ∈ keys, Name key) → ∀ server ∈ keys, ∀ tool, Name tool →
      WireIdentifies keys server tool := by
  intro h
  have hkeys : ∀ key ∈ ["git".toList, "git_hub".toList], Name key := by
    simp only [forall_mem_cons]
    exact ⟨name_of_decide (by decide), name_of_decide (by decide), fun _ hnil => by cases hnil⟩
  have hwire := h _ hkeys "git".toList mem_cons_self "hub_list".toList (name_of_decide (by decide))
  have hunique := hwire.unique "git_hub".toList (by simp) "list".toList
    (name_of_decide (by decide)) (by decide)
  revert hunique
  decide

open Misc CytClient

open Injection.SessionLog (nameKey isMetaTool)

variable {φ : Type} {env : CatalogEnv φ}
variable {tool : Record φ}

theorem fieldOr_str {key t : Text} (h : Json.get? tool key = some (.str t)) :
    fieldOr env tool key = t := by
  unfold fieldOr Json.strOr
  rw [h]
  cases t <;> rfl

theorem fieldOr_none {key : Text} (h : Json.get? tool key = none) : fieldOr env tool key = [] := by
  unfold fieldOr Json.strOr
  rw [h]
  rfl

theorem wireName_of_splitWireName {configured serverKeys : List Text} {wireName : Text}
    {identity : CytMcpToolIdentity}
    (h : splitWireName configured wireName serverKeys = some identity) :
    identity.wireName = wireName.strip := by
  unfold splitWireName at h
  dsimp only at h
  split at h
  · cases h
  obtain ⟨key, -, hkey⟩ := exists_of_findSome?_eq_some h
  unfold splitAt at hkey
  dsimp only at hkey
  split at hkey
  · cases hkey
  split at hkey
  · cases hkey
  split at hkey
  · cases hkey
  · cases hkey
    rfl

theorem isMetaTool_strip (name : Text) : isMetaTool name.strip = isMetaTool name := by
  unfold isMetaTool
  rw [Text.strip_strip]

/-- The name of a tool is not blank. -/
def Named (env : CatalogEnv φ) (tool : Record φ) : Prop :=
  Text.strip (fieldOr env tool nameKey) ≠ []

theorem Named.enrichToolIdentity (h : Named env tool) (serverKeys : List Text) :
    Named env (enrichToolIdentity env tool serverKeys) := by
  unfold CytMcp.enrichToolIdentity
  dsimp only
  split
  · unfold Named
    rw [fieldOr_str (Json.get?_set_self _ _ _), ne_eq, Text.strip_eq_nil_iff]
    intro hspace
    have hseparator := hspace '_' (by simp [wireNameFor])
    cases hseparator
  · split
    · exact h
    rename_i identity hsplit
    split
    · exact h
    · unfold Named
      rw [fieldOr_str (t := identity.wireName), wireName_of_splitWireName hsplit,
        Text.strip_strip, Text.strip_strip]
      · exact h
      · rw [Json.get?_set_of_ne (by decide), Json.get?_set_of_ne (by decide), Json.get?_set_self]

/-- An environment whose digest is its argument between two marks. -/
def plainCatalogEnv : CatalogEnv Empty where
  toPyFormat := Json.noFloats
  sha256 := fun t => '#' :: (t ++ ['#'])
  configuredServerKeys := []
  sha256_strip := Text.strip_marked
  sha256_ne_nil := Text.marked_ne_nil

end ClearYourTools.CytMcp
