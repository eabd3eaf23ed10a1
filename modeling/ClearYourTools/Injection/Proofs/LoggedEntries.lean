import ClearYourTools.CytClient.Proofs.SessionLog
import ClearYourTools.Injection.SessionLog

/-!
# Entries in the log file

What a log file holds after entries were appended to it, and when the client appends all the tool
entries of a prompt.
-/

namespace ClearYourTools.Injection.SessionLog

open Misc CytClient List Option
open Json (get? PyFormat)
open Prod (fst)

variable {φ : Type} {env : SessionEnv φ} {call : GateCall φ}

/-- A tool that the gate injects, whether in full, and its entry. -/
structure Gated (φ : Type) where
  tool : Record φ
  full : Bool
  entry : Record φ

/-- The injections of a list of tools, `none` where building an entry raises. -/
def gateAll (env : SessionEnv φ) (call : GateCall φ) : List (Record φ) → Option (List (Gated φ))
  | [] => some []
  | tool :: tools =>
    let inject := fun full => (call.entry env full tool).bind fun entry =>
      (gateAll env call tools).map fun gs => ⟨tool, full, entry⟩ :: gs
    match call.mode env tool with
    | .skip => gateAll env call tools
    | .skinny => inject false
    | .full => inject true

/-- The state of the loop after one more injection. -/
def addGated (env : SessionEnv φ) (call : GateCall φ) (state : GateState φ) (g : Gated φ) :
    GateState φ where
  kept := state.kept ++ [call.injectTool env g.full g.tool]
  logEntries := state.logEntries ++ [g.entry]
  fullFlags := state.fullFlags.set (gateKey env g.tool) g.full

variable (tools : List (Record φ))

theorem foldlM_gateTool (state : GateState φ) :
    tools.foldlM (call.gateTool env) state =
      (gateAll env call tools).map fun gs => gs.foldl (addGated env call) state := by
  induction tools generalizing state with
  | nil => rfl
  | cons tool tools ih =>
    have hinject : ∀ full, ((call.inject env full state tool).bind fun next =>
        tools.foldlM (call.gateTool env) next) =
          ((call.entry env full tool).bind fun entry =>
            (gateAll env call tools).map fun gs => (⟨tool, full, entry⟩ :: gs : List (Gated φ))).map
              fun gs => gs.foldl (addGated env call) state := by
      intro full
      unfold GateCall.inject
      cases call.entry env full tool with
      | none => rfl
      | some entry =>
        rw [map_some, bind_some, bind_some, ih, Option.map_map]
        rfl
    rw [foldlM_cons, gateAll]
    unfold GateCall.gateTool
    cases call.mode env tool with
    | skip => exact ih state
    | skinny => exact hinject false
    | full => exact hinject true

theorem gateToolsForSession_eq :
    call.gateToolsForSession env tools =
      (gateAll env call tools).map fun gs => gs.foldl (addGated env call) GateState.start :=
  foldlM_gateTool tools GateState.start

theorem foldl_addGated (gs : List (Gated φ)) (state : GateState φ) :
    gs.foldl (addGated env call) state =
      { kept := state.kept ++ gs.map fun g => call.injectTool env g.full g.tool
        logEntries := state.logEntries ++ gs.map Gated.entry
        fullFlags := state.fullFlags.writeAll (gs.map fun g => (gateKey env g.tool, g.full)) } := by
  induction gs generalizing state with
  | nil => simp
  | cons g gs ih =>
    rw [foldl_cons, ih, addGated, map_cons, map_cons, map_cons,
      List.append_assoc, List.append_assoc]
    rfl

variable {tools : List (Record φ)}

theorem exists_gateAll {state : GateState φ} (h : call.gateToolsForSession env tools = some state) :
    ∃ gs, gateAll env call tools = some gs ∧
      state.kept = gs.map (fun g => call.injectTool env g.full g.tool) ∧
      state.logEntries = gs.map Gated.entry ∧
      state.fullFlags = Dict.empty.writeAll (gs.map fun g => (gateKey env g.tool, g.full)) := by
  rw [gateToolsForSession_eq] at h
  obtain ⟨gs, hgs, rfl⟩ := map_eq_some_iff.mp h
  refine ⟨gs, hgs, ?_⟩
  rw [foldl_addGated]
  exact ⟨rfl, rfl, rfl⟩

/-- The mode in which something is injected. -/
def modeOf (full : Bool) : InjectionMode := if full then .full else .skinny

variable {tool : Record φ} {gs : List (Gated φ)}

theorem gateAll_cons (h : gateAll env call (tool :: tools) = some gs) :
    (call.mode env tool = .skip ∧ gateAll env call tools = some gs) ∨
      ∃ full entry rest, call.mode env tool = modeOf full ∧
        call.entry env full tool = some entry ∧ gateAll env call tools = some rest ∧
        gs = ⟨tool, full, entry⟩ :: rest := by
  have hinject : ∀ full, call.mode env tool = modeOf full →
      ((call.entry env full tool).bind fun entry => (gateAll env call tools).map fun gs =>
        (⟨tool, full, entry⟩ :: gs : List (Gated φ))) = some gs →
      ∃ full entry rest, call.mode env tool = modeOf full ∧ call.entry env full tool = some entry ∧
        gateAll env call tools = some rest ∧ gs = ⟨tool, full, entry⟩ :: rest := by
    intro full hmode hbind
    obtain ⟨entry, hentry, hmap⟩ := bind_eq_some_iff.mp hbind
    obtain ⟨rest, hrest, rfl⟩ := map_eq_some_iff.mp hmap
    exact ⟨full, entry, rest, hmode, hentry, hrest, rfl⟩
  rw [gateAll] at h
  cases hmode : call.mode env tool with
  | skip =>
    rw [hmode] at h
    exact .inl ⟨rfl, h⟩
  | skinny =>
    rw [hmode] at h hinject
    exact .inr (hinject false rfl h)
  | full =>
    rw [hmode] at h hinject
    exact .inr (hinject true rfl h)

/-- Whether the gate does not skip a tool. -/
def GateCall.injects (env : SessionEnv φ) (call : GateCall φ) (tool : Record φ) : Bool :=
  decide (call.mode env tool ≠ .skip)

variable (h : gateAll env call tools = some gs)

include h

theorem gateAll_tools : gs.map Gated.tool = tools.filter (call.injects env) := by
  induction tools generalizing gs with
  | nil =>
    cases h
    rfl
  | cons tool tools ih =>
    rcases gateAll_cons h with ⟨hmode, h⟩ | ⟨full, entry, rest, hmode, -, hrest, rfl⟩
    · rw [filter_cons_of_neg (by simp [GateCall.injects, hmode]), ih h]
    · have hinject : call.injects env tool = true := by
        unfold GateCall.injects
        rw [hmode]
        cases full <;> decide
      rw [filter_cons_of_pos hinject, map_cons, ih hrest]

theorem gateAll_sublist : (gs.map Gated.tool).Sublist tools := by
  rw [gateAll_tools h]
  exact filter_sublist

theorem mode_of_mem_gateAll {g : Gated φ} (hg : g ∈ gs) :
    call.mode env g.tool = modeOf g.full ∧ call.entry env g.full g.tool = some g.entry := by
  induction tools generalizing gs with
  | nil =>
    cases h
    cases hg
  | cons tool tools ih =>
    rcases gateAll_cons h with ⟨-, h⟩ | ⟨full, entry, rest, hmode, hentry, hrest, rfl⟩
    · exact ih h hg
    · rcases mem_cons.mp hg with rfl | hg
      · exact ⟨hmode, hentry⟩
      · exact ih hrest hg

theorem mem_gateAll_of_mode (htool : tool ∈ tools)
    (hmode : call.mode env tool ≠ .skip) : ∃ g ∈ gs, g.tool = tool := by
  have hmem : tool ∈ gs.map Gated.tool := by
    rw [gateAll_tools h]
    exact mem_filter.mpr ⟨htool, decide_eq_true hmode⟩
  exact List.mem_map.mp hmem

theorem gateAll_nodup
    (hnodup : (tools.map (gateKey env)).Nodup) : (gs.map fun g => gateKey env g.tool).Nodup := by
  have hsub := (gateAll_sublist h).map (gateKey env)
  rw [List.map_map] at hsub
  exact hsub.nodup hnodup

omit h

section

variable {tools : List (Record φ)} {state : GateState φ}

theorem exists_of_flag (h : call.gateToolsForSession env tools = some state)
    (hnodup : (tools.map (gateKey env)).Nodup) {key : Text} {full : Bool}
    (hflag : state.fullFlags.get? key = some full) :
    ∃ tool ∈ tools, gateKey env tool = key ∧ call.mode env tool = modeOf full := by
  obtain ⟨gs, hgs, -, -, hflags⟩ := exists_gateAll h
  rw [hflags] at hflag
  have hmem : key ∈ (gs.map fun g => (gateKey env g.tool, g.full)).map fst := by
    by_contra hnot
    rw [Dict.get?_writeAll_of_notMem _ hnot] at hflag
    cases hflag
  obtain ⟨w, hw, rfl⟩ := List.mem_map.mp hmem
  obtain ⟨g, hg, rfl⟩ := List.mem_map.mp hw
  have hkeys : ((gs.map fun g => (gateKey env g.tool, g.full)).map fst).Nodup := by
    rw [List.map_map]
    exact gateAll_nodup hgs hnodup
  rw [Dict.get?_writeAll_of_mem _ hkeys hw] at hflag
  cases hflag
  exact ⟨g.tool, (gateAll_sublist hgs).subset (List.mem_map_of_mem hg), rfl,
    (mode_of_mem_gateAll hgs hg).1⟩

theorem flag_of_mode (h : call.gateToolsForSession env tools = some state)
    (hnodup : (tools.map (gateKey env)).Nodup) {tool : Record φ} (htool : tool ∈ tools)
    (hmode : call.mode env tool ≠ .skip) : (state.fullFlags.get? (gateKey env tool)).isSome := by
  obtain ⟨gs, hgs, -, -, hflags⟩ := exists_gateAll h
  obtain ⟨g, hg, rfl⟩ := mem_gateAll_of_mode hgs htool hmode
  have hkeys : ((gs.map fun g => (gateKey env g.tool, g.full)).map fst).Nodup := by
    rw [List.map_map]
    exact gateAll_nodup hgs hnodup
  have hw : (gateKey env g.tool, g.full) ∈ gs.map fun g => (gateKey env g.tool, g.full) :=
    List.mem_map_of_mem hg
  rw [hflags, Dict.get?_writeAll_of_mem _ hkeys hw]
  rfl

end

/-- An entry of a tool under a key and a hash, in skinny form or in full. -/
structure LoggedAs (key hash : Text) (full : Bool) (entry : Record φ) : Prop where
  kind : get? entry kindKey = some (.str toolKind)
  key : get? entry keyKey = some (.str key)
  hash : get? entry hashKey = some (.str hash)
  full : get? entry fullKey = some (.bool full)
  noType : get? entry typeKey = none

variable {rest : Record φ} {key : Text}

theorem get?_append_of_some {head : Record φ} {v : Json φ} (h : get? head key = some v) :
    get? (head ++ rest) key = some v := by
  unfold get? at h ⊢
  rw [lookup_append, h]
  rfl

theorem get?_append_of_none {head : Record φ} (h : get? head key = none)
    (h' : get? rest key = none) : get? (head ++ rest) key = none := by
  unfold get? at h h' ⊢
  rw [lookup_append, h, h']
  rfl

variable {full : Bool} {entry : Record φ}

theorem LoggedAs.append {hash : Text} (h : LoggedAs key hash full entry)
    (hrest : get? rest typeKey = none) :
    LoggedAs key hash full (entry ++ rest) where
  kind := get?_append_of_some h.kind
  key := get?_append_of_some h.key
  hash := get?_append_of_some h.hash
  full := get?_append_of_some h.full
  noType := get?_append_of_none h.noType hrest

variable (catalogTools : List (Record φ))

theorem loggedAs_head (catalog : Source) (full : Bool) (tool : Record φ) :
    LoggedAs (toolItemKey env catalog tool)
      (toolContentHash env catalogTools catalog tool) full
      (toolEntryHead env catalogTools catalog full tool) :=
  ⟨rfl, rfl, rfl, rfl, rfl⟩

theorem LoggedAs.set {hash : Text} (h : LoggedAs key hash full entry) {field : Text} (v : Json φ)
    (hfield : field = nameKey ∨ field = serverKeyKey ∨ field = toolNameKey) :
    LoggedAs key hash full (Json.set entry field v) := by
  have hne : ∀ k ∈ [kindKey, keyKey, hashKey, fullKey, typeKey], k ≠ field := by
    rcases hfield with rfl | rfl | rfl <;> decide
  constructor
  · rw [Json.get?_set_of_ne (hne _ (by simp)), h.kind]
  · rw [Json.get?_set_of_ne (hne _ (by simp)), h.key]
  · rw [Json.get?_set_of_ne (hne _ (by simp)), h.hash]
  · rw [Json.get?_set_of_ne (hne _ (by simp)), h.full]
  · rw [Json.get?_set_of_ne (hne _ (by simp)), h.noType]

theorem get?_entryDescription (includeDescription : Bool) (normalize : Text → Text)
    (tool : Record φ) :
    get? (entryDescription env includeDescription normalize tool) typeKey = none := by
  unfold entryDescription
  dsimp only
  split <;> rfl

theorem get?_entryServer (server : Option (List (Text × Text))) :
    get? (entryServer server : Record φ) typeKey = none := by
  unfold entryServer
  split <;> rfl

theorem loggedAs_of_build {catalogTools : List (Record φ)} {catalog : Source}
    {includeDescription : Bool} {server : Option (List (Text × Text))}
    (h : buildToolLogEntry env catalogTools catalog full includeDescription server tool =
      some entry) :
    LoggedAs (toolItemKey env catalog tool)
      (toolContentHash env catalogTools catalog tool) full entry := by
  have hhead := @loggedAs_head _ env catalogTools catalog full tool
  have hother : ∀ {rest : Record φ}, get? rest typeKey = none →
      some (toolEntryHead env catalogTools catalog full tool ++ rest ++
        entryDescription env includeDescription normalizeJsonText tool) = some entry →
      LoggedAs (toolItemKey env catalog tool)
        (toolContentHash env catalogTools catalog tool) full entry := by
    intro rest hrest heq
    cases heq
    exact (hhead.append hrest).append (get?_entryDescription _ _ tool)
  unfold buildToolLogEntry at h
  cases catalog with
  | mcpc =>
    cases h
    exact ((hhead.append rfl).append (get?_entryDescription _ _ tool)).append
      (get?_entryServer server)
  | cytMcp =>
    dsimp only at h
    obtain ⟨stamped, hstamped, rfl⟩ := map_eq_some_iff.mp h
    have hlogged : LoggedAs (toolItemKey env .cytMcp tool)
        (toolContentHash env catalogTools .cytMcp tool) full stamped := by
      split at hstamped
      · cases hstamped
        exact hhead
      unfold stampCytMcpIdentity at hstamped
      dsimp only at hstamped
      split at hstamped
      · cases hstamped
      · cases hstamped
        exact ((hhead.set _ (.inl rfl)).set _ (.inr (.inl rfl))).set _ (.inr (.inr rfl))
    exact (hlogged.append rfl).append (get?_entryDescription _ _ tool)
  | cloudflare => exact hother rfl h
  | executor => exact hother rfl h
  | definitions => exact hother rfl h

theorem loggedAs_of_entry (h : call.entry env full tool = some entry) :
    LoggedAs (toolItemKey env (toolCatalogKind env tool) (call.injectTool env full tool))
      (toolContentHash env call.catalogTools (toolCatalogKind env tool)
        (call.injectTool env full tool)) full entry :=
  loggedAs_of_build h

open Misc Bm25Search

theorem textLe_refl (t : Text) : textLe t t = true := by
  induction t with
  | nil => rfl
  | cons c t ih => rw [textLe, if_pos rfl, ih]

theorem perm_insertField (kv : Text × Json φ) (fields : List (Text × Json φ)) :
    (insertField kv fields).Perm (kv :: fields) := by
  induction fields with
  | nil => exact List.Perm.refl _
  | cons kv' fields ih =>
    rw [insertField]
    split
    · exact List.Perm.refl _
    · exact (ih.cons kv').trans (List.Perm.swap kv kv' fields)

theorem get?_insertField (kv : Text × Json φ) (fields : List (Text × Json φ)) (k : Text) :
    get? (insertField kv fields) k = if k = kv.1 then some kv.2 else get? fields k := by
  induction fields with
  | nil => rw [insertField, Json.get?_cons]
  | cons kv' fields ih =>
    rw [insertField]
    split
    · rw [Json.get?_cons]
    rename_i hle
    rw [Json.get?_cons, ih, Json.get?_cons]
    by_cases hk : k = kv'.1
    · rw [if_pos hk, if_neg, if_pos hk]
      intro hkey
      rw [← hk, ← hkey] at hle
      exact hle (textLe_refl k)
    · rw [if_neg hk, if_neg hk]

theorem sortKeysItems_eq (items : List (Json φ)) : sortKeysItems items = items.map sortKeys := by
  induction items with
  | nil => rw [sortKeysItems, map_nil]
  | cons v items ih => rw [sortKeysItems, map_cons, ih]

variable (fields : List (Text × Json φ))

theorem get?_sortKeysFields (k : Text) :
    get? (sortKeysFields fields) k = (get? fields k).map sortKeys := by
  induction fields with
  | nil =>
    rw [sortKeysFields]
    rfl
  | cons kv fields ih =>
    obtain ⟨key, v⟩ := kv
    rw [sortKeysFields, get?_insertField, Json.get?_cons, ih]
    split <;> rfl

theorem perm_sortKeysFields :
    (sortKeysFields fields).Perm (fields.map fun kv => (kv.1, sortKeys kv.2)) := by
  induction fields with
  | nil =>
    rw [sortKeysFields]
    exact List.Perm.refl _
  | cons kv fields ih =>
    obtain ⟨key, v⟩ := kv
    rw [sortKeysFields, map_cons]
    exact (perm_insertField _ _).trans (ih.cons _)

theorem mem_sortKeysFields {fields : List (Text × Json φ)} {kv : Text × Json φ} :
    kv ∈ sortKeysFields fields ↔ ∃ kv' ∈ fields, (kv'.1, sortKeys kv'.2) = kv := by
  rw [(perm_sortKeysFields fields).mem_iff, List.mem_map]

theorem valid_sortKeys {v : Json φ} (h : v.Valid) : (sortKeys v).Valid := by
  induction v with
  | null => exact trivial
  | bool b => exact trivial
  | int n => exact trivial
  | float x => exact trivial
  | str s => exact trivial
  | arr items ih =>
    rw [sortKeys, sortKeysItems_eq]
    apply Json.validItems_iff.mpr
    intro v hv
    obtain ⟨item, hitem, rfl⟩ := List.mem_map.mp hv
    exact ih item hitem (Json.validItems_iff.mp h item hitem)
  | obj fields ih =>
    obtain ⟨hnodup, hvalues⟩ := Json.valid_obj_iff.mp h
    rw [sortKeys, Json.valid_obj_iff]
    refine ⟨?_, fun kv hkv => ?_⟩
    · have hkeys : ((sortKeysFields fields).map fst).Perm (fields.map fst) := by
        have hperm := (perm_sortKeysFields fields).map fst
        rwa [List.map_map] at hperm
      exact hkeys.nodup_iff.mpr hnodup
    · obtain ⟨kv', hmem, rfl⟩ := mem_sortKeysFields.mp hkv
      exact ih kv' hmem (hvalues kv' hmem)

theorem strings_sortKeys {P : Text → Prop} (v : Json φ) :
    Json.Strings P (sortKeys v) ↔ Json.Strings P v := by
  induction v with
  | null => exact Iff.rfl
  | bool b => exact Iff.rfl
  | int n => exact Iff.rfl
  | float x => exact Iff.rfl
  | str s => exact Iff.rfl
  | arr items ih =>
    rw [sortKeys, sortKeysItems_eq, Json.strings_arr, Json.strings_arr, List.forall_mem_map]
    exact forall₂_congr ih
  | obj fields ih =>
    rw [sortKeys, Json.strings_obj, Json.strings_obj]
    constructor
    · intro h kv hkv
      obtain ⟨hkey, hvalue⟩ := h _ (mem_sortKeysFields.mpr ⟨kv, hkv, rfl⟩)
      exact ⟨hkey, (ih kv hkv).mp hvalue⟩
    · intro h kv hkv
      obtain ⟨kv', hmem, rfl⟩ := mem_sortKeysFields.mp hkv
      exact ⟨(h kv' hmem).1, (ih kv' hmem).mpr (h kv' hmem).2⟩

theorem sortKeys_eq_of_dumps {f : Json.FloatFormat φ} (hf : f.Lawful) {v w : Json φ} (hv : v.Valid)
    (hw : w.Valid) (h : Json.dumps f false (sortKeys v) = Json.dumps f false (sortKeys w)) :
    sortKeys v = sortKeys w := by
  have hread := Json.loads_dumps hf false (valid_sortKeys hv)
  rw [h, Json.loads_dumps hf false (valid_sortKeys hw)] at hread
  exact (Option.some.inj hread).symm

variable {entry : Record φ}

theorem fieldText_str {p : PyFormat φ} {key t : Text} (h : get? entry key = some (.str t)) :
    fieldText p entry key = t := by
  unfold fieldText Json.strOr
  rw [h]
  cases t <;> rfl

theorem fieldIs_str {key t : Text} (h : get? entry key = some (.str t)) (t' : Text) :
    fieldIs entry key t' = (t == t') := by
  unfold fieldIs
  rw [h]

theorem stripped_key (pre : Text) (hpre : Text.Stripped pre) (name : Text) :
    Text.strip (pre ++ ':' :: name.strip) = pre ++ ':' :: name.strip :=
  Text.stripped_iff.mp (hpre.append_cons (Text.stripped_strip name) (by decide))

variable (p : PyFormat φ)

section

variable (catalog : Source)

theorem exists_toolItemKey (tool : Record φ) :
    ∃ pre name : Text, Text.Stripped ("tool:" ++ pre) ∧
      toolItemKey p catalog tool = "tool:" ++ pre ++ ':' :: name.strip := by
  have hname : ∃ name : Text, toolItemName p catalog tool = name.strip := by
    unfold toolItemName
    split
    · exact ⟨_, rfl⟩
    · exact ⟨_, rfl⟩
  obtain ⟨name, hname⟩ := hname
  unfold toolItemKey
  dsimp only
  rw [hname]
  split
  · refine ⟨"mcpc:" ++ strippedField p tool mcpcSessionKey, name, ?_, ?_⟩
    · have hmcpc : Text.Stripped "tool:mcpc" := Text.stripped_of_ends ⟨rfl, rfl⟩
      exact hmcpc.append_cons (Text.stripped_strip _) (by decide)
    · simp
  · exact ⟨"cyt_mcp", name, Text.stripped_of_ends ⟨rfl, rfl⟩, by simp⟩
  · exact ⟨"cloudflare", name, Text.stripped_of_ends ⟨rfl, rfl⟩, by simp⟩
  · exact ⟨"definitions", name, Text.stripped_of_ends ⟨rfl, rfl⟩, by simp⟩
  · exact ⟨"executor", name, Text.stripped_of_ends ⟨rfl, rfl⟩, by simp⟩
  · exact ⟨"executor", name, Text.stripped_of_ends ⟨rfl, rfl⟩, by simp⟩

theorem toolItemKey_strip (tool : Record φ) :
    (toolItemKey p catalog tool).strip = toolItemKey p catalog tool := by
  obtain ⟨pre, name, hpre, heq⟩ := exists_toolItemKey p catalog tool
  rw [heq]
  exact stripped_key _ hpre name

theorem toolItemKey_head? (tool : Record φ) : (toolItemKey p catalog tool).head? = some 't' := by
  obtain ⟨pre, name, -, heq⟩ := exists_toolItemKey p catalog tool
  rw [heq]
  rfl

theorem toolItemLegacyKeys_head? (tool : Record φ) :
    ∀ key ∈ toolItemLegacyKeys p catalog tool, key.head? = some 't' := by
  intro key hkey
  unfold toolItemLegacyKeys at hkey
  dsimp only at hkey
  split at hkey
  · cases hkey
  rcases mem_append.mp (mem_of_mem_filter hkey) with hkey | hkey
  · split at hkey
    · rw [mem_singleton.mp hkey]
      rfl
    · cases hkey
  · rw [mem_singleton.mp hkey]
    rfl

end

theorem gateKey_notMem_gateAliases (tool : Record φ) : gateKey env tool ∉ gateAliases env tool := by
  intro h
  unfold gateAliases toolItemLegacyKeys at h
  dsimp only at h
  split at h
  · cases h
  · exact (of_decide_eq_true (mem_filter.mp h).2) rfl

theorem toolContentHash_stripped (catalog : Source) (tool : Record φ) :
    (toolContentHash env catalogTools catalog tool).strip =
        toolContentHash env catalogTools catalog tool ∧
      toolContentHash env catalogTools catalog tool ≠ [] := by
  unfold toolContentHash
  cases hexplicit : explicitHash? tool with
  | none => exact ⟨env.sha256_strip _, env.sha256_ne_nil _⟩
  | some hash =>
    unfold explicitHash? at hexplicit
    split at hexplicit
    · split at hexplicit
      · cases hexplicit
      · rename_i hne
        cases hexplicit
        exact ⟨Text.strip_strip _, hne⟩
    · cases hexplicit

theorem gateKey_ne_nil (tool : Record φ) : gateKey env tool ≠ [] := by
  intro h
  have hhead := toolItemKey_head? env (toolCatalogKind env tool) tool
  unfold gateKey at h
  rw [h] at hhead
  cases hhead

theorem gateHash_stripped (tool : Record φ) :
    (gateHash env catalogTools tool).strip = gateHash env catalogTools tool ∧
      gateHash env catalogTools tool ≠ [] := toolContentHash_stripped catalogTools _ _

/-- The items of a log file. -/
def items (env : SessionEnv φ) (log : Option Text) : List (Record φ) :=
  (readSessionLogFile env log).2

/-- The line of an entry reads back as the entry. -/
def Readable (env : SessionEnv φ) (entry : Record φ) : Prop :=
  logRecords env (Json.dumps env false (.obj entry)) = [entry]

theorem isMeta_of_noType (h : get? entry typeKey = none) : isMeta entry = false := by
  unfold isMeta fieldIs
  rw [h]

theorem items_append {entries : List (Record φ)} (hread : ∀ e ∈ entries, Readable env e)
    (hmeta : ∀ e ∈ entries, get? e typeKey = none) (log agent : Option Text) :
    items env (appendSessionLog env log entries agent) = items env log ++ entries := by
  unfold items
  rw [readSessionLogFile_append env.lawful]
  congr 1
  induction entries with
  | nil => rfl
  | cons e es ih =>
    have he := hread e mem_cons_self
    unfold Readable at he
    rw [flatMap_cons, he, ih (fun e' h => hread e' (mem_cons_of_mem e h))
      fun e' h => hmeta e' (mem_cons_of_mem e h), filter_cons,
      isMeta_of_noType (hmeta e mem_cons_self)]
    rfl

theorem readSessionLog_eq_items {log : Option Text}
    (h : ∀ e ∈ items env log, fieldIs e "kind" "compaction" = false) :
    readSessionLog env log true = items env log := by
  unfold readSessionLog entriesAfterLatestCompaction
  dsimp only
  rw [if_pos rfl, takeWhile_eq_self_iff.mpr, reverse_reverse]
  · rfl
  · intro e he
    rw [Bool.not_eq_true', h e (mem_reverse.mp he)]

variable (prompt : Prompt φ)

theorem stateEntry_kind : get? prompt.stateEntry kindKey = some (.str sessionStateKind) := rfl

theorem stateEntry_key : get? prompt.stateEntry keyKey = some (.str injectStateKey) := rfl

theorem stateEntry_noType : get? prompt.stateEntry typeKey = none := by
  unfold Prompt.stateEntry buildSessionStateEntry
  refine get?_append_of_none (get?_append_of_none rfl ?_) ?_
  · cases prompt.hallucinationGateEnabled <;> rfl
  · unfold injectViaField
    split
    · split <;> rfl
    · rfl

/-- The keys of a state entry, all of them. -/
def stateKeys : List Text :=
  [kindKey, keyKey, "tools_inject_enabled".toList] ++ ["hallucination_gate_enabled".toList] ++
    ["inject_via".toList]

/-- The texts of a state entry, all of them. -/
def stateTexts : List Text := [sessionStateKind, injectStateKey, "hook", "proxy"]

theorem stateEntry_keys : (prompt.stateEntry.map fst).Sublist stateKeys := by
  have hflag : ((flagField "hallucination_gate_enabled"
      prompt.hallucinationGateEnabled : Record φ).map fst).Sublist
        ["hallucination_gate_enabled".toList] := by
    cases prompt.hallucinationGateEnabled with
    | none => exact nil_sublist _
    | some b => exact List.Sublist.refl _
  have hvia : ((injectViaField prompt.injectVia : Record φ).map fst).Sublist
      ["inject_via".toList] := by
    unfold injectViaField
    split
    · split
      · exact List.Sublist.refl _
      · exact nil_sublist _
    · exact nil_sublist _
  unfold Prompt.stateEntry buildSessionStateEntry
  rw [map_append, map_append]
  exact ((List.Sublist.refl _).append hflag).append hvia

theorem stateEntry_values : ∀ kv ∈ prompt.stateEntry,
    (∃ b, kv.2 = .bool b) ∨ ∃ t ∈ stateTexts, kv.2 = .str t := by
  intro kv hkv
  unfold Prompt.stateEntry buildSessionStateEntry at hkv
  rw [mem_append, mem_append] at hkv
  rcases hkv with (hkv | hkv) | hkv
  · rcases mem_cons.mp hkv with rfl | hkv
    · exact .inr ⟨_, mem_cons_self, rfl⟩
    · rcases mem_cons.mp hkv with rfl | hkv
      · exact .inr ⟨_, mem_cons_of_mem _ mem_cons_self, rfl⟩
      · rw [mem_singleton.mp hkv]
        exact .inl ⟨_, rfl⟩
  · cases hflag : prompt.hallucinationGateEnabled with
    | none =>
      rw [hflag] at hkv
      cases hkv
    | some b =>
      rw [hflag] at hkv
      rw [mem_singleton.mp hkv]
      exact .inl ⟨b, rfl⟩
  · unfold injectViaField at hkv
    split at hkv
    · split at hkv
      · rename_i via _ hvia
        rw [mem_singleton.mp hkv]
        refine .inr ⟨via, ?_, rfl⟩
        rcases hvia with rfl | rfl
        · exact mem_cons_of_mem _ (mem_cons_of_mem _ mem_cons_self)
        · exact mem_cons_of_mem _
            (mem_cons_of_mem _ (mem_cons_of_mem _ mem_cons_self))
      · cases hkv
    · cases hkv

theorem stateEntry_readable : Readable env prompt.stateEntry := by
  have hall : ∀ ts : List Text, (ts.all fun t => t.all fun c => !Json.isBareBreak c) = true →
      ∀ t ∈ ts, Json.Unbroken t := by
    intro ts h t ht c hc
    have hc := List.all_eq_true.mp (List.all_eq_true.mp h t ht) c hc
    rwa [Bool.not_eq_true'] at hc
  have hkeys := hall stateKeys (by decide +kernel)
  have htexts := hall stateTexts (by decide +kernel)
  have hnodup : stateKeys.Nodup := by decide
  have hsub := stateEntry_keys prompt
  refine logRecords_entry env.lawful (Json.valid_obj_iff.mpr ⟨hsub.nodup hnodup, ?_⟩)
    (Json.strings_obj.mpr ?_)
  · intro kv hkv
    rcases stateEntry_values prompt kv hkv with ⟨b, hv⟩ | ⟨t, -, hv⟩
    · rw [hv]
      exact True.intro
    · rw [hv]
      exact True.intro
  · intro kv hkv
    refine ⟨hkeys _ (hsub.subset (List.mem_map_of_mem hkv)), ?_⟩
    rcases stateEntry_values prompt kv hkv with ⟨b, hv⟩ | ⟨t, ht, hv⟩
    · rw [hv]
      intro s hs
      cases hs
    · rw [hv]
      intro s hs
      rw [mem_singleton.mp hs]
      exact htexts t ht

def entryKey (env : SessionEnv φ) (entry : Record φ) : Text := fieldText env entry keyKey

def entryPair (env : SessionEnv φ) (entry : Record φ) : Text × Text :=
  (entryKey env entry, fieldText env entry hashKey)

/-- A tool entry whose key and hash have no white space at their ends. -/
structure CleanEntry (env : SessionEnv φ) (entry : Record φ) : Prop where
  kind : fieldIs entry kindKey toolKind = true
  key : (entryKey env entry).strip = entryKey env entry ∧ entryKey env entry ≠ []
  hash : (entryPair env entry).2.strip = (entryPair env entry).2 ∧ (entryPair env entry).2 ≠ []

/-- The client appends every entry of a prompt, if those that are known by key and hash are full
ones and the log has no full one. -/
theorem foldl_dedupEntry {logged entries : List (Record φ)}
    (hclean : ∀ e ∈ entries, CleanEntry env e) (hnodup : (entries.map (entryKey env)).Nodup)
    (state : List (Record φ) × List (Text × Text))
    (hnew : ∀ e ∈ entries, entryPair env e ∈ state.2 → isFull e = true ∧
      hasFullToolEntry env logged (entryKey env e) (entryPair env e).2 = false) :
    (entries.foldl (dedupEntry env toolKind logged) state).1 = state.1 ++ entries := by
  induction entries generalizing state with
  | nil => exact (List.append_nil _).symm
  | cons e es ih =>
    have he := hclean e mem_cons_self
    have hes : ∀ e' ∈ es, CleanEntry env e' := fun e' h => hclean e' (mem_cons_of_mem e h)
    rw [map_cons, nodup_cons] at hnodup
    have hstep : ∃ known, dedupEntry env toolKind logged state e =
        (state.1 ++ [e], known) ∧ ∀ pair ∈ known, pair ∈ state.2 ∨ pair = entryPair env e := by
      unfold dedupEntry
      have hkey : (fieldText env e "key").strip = entryKey env e := he.key.1
      have hhash : (fieldText env e "hash").strip = (entryPair env e).2 := he.hash.1
      have hkind : fieldIs e "kind" toolKind = true := he.kind
      dsimp only
      rw [if_neg (by rw [hkind]; decide), hkey, hhash]
      by_cases hmem : entryPair env e ∈ state.2
      · obtain ⟨hfull, hnone⟩ := hnew e mem_cons_self hmem
        refine ⟨state.2, ?_, fun pair h => .inl h⟩
        rw [if_pos ⟨he.key.2, he.hash.2, hmem⟩, if_pos ⟨rfl, hfull, by rw [hnone]; decide⟩]
      refine ⟨state.2 ++ [entryPair env e], ?_, ?_⟩
      · rw [if_neg (fun h => hmem h.2.2), if_pos ⟨he.key.2, he.hash.2⟩]
        rfl
      · intro pair hpair
        rw [mem_append, mem_singleton] at hpair
        exact hpair
    obtain ⟨known, hstep, hknown⟩ := hstep
    rw [foldl_cons, hstep, ih hes hnodup.2 _ ?_, List.append_assoc]
    · rfl
    · intro e' he' hpair
      rcases hknown _ hpair with h | h
      · exact hnew e' (mem_cons_of_mem e he') h
      · -- another entry of the prompt has another key
        exact absurd (List.mem_map.mpr ⟨e', he', congrArg fst h⟩) hnodup.1

end ClearYourTools.Injection.SessionLog
