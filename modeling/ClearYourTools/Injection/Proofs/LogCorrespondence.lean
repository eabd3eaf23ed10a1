import ClearYourTools.Injection.PreExposure
import ClearYourTools.Injection.Proofs.ExposureSchedule
import ClearYourTools.Misc.Mapped

/-!
# Entries of what is kept

The key of an item is computed three times: by the gate, by the builder of its entry and by the
filter of the entries.
-/

namespace ClearYourTools.Injection.SessionLog

open Misc CytClient List
open Prod (fst snd)

variable {φ : Type}

/-- A gate over items with the filters after it: which items the gate lets through and which of
these the filters leave, the form that is injected and its entry, and the three keys: that by
which the gate looks an item up, that of its entry, and that under which the entries are kept. -/
structure ItemGate (α β φ : Type) where
  letsThrough : α → Bool
  leaves : α → Bool
  injected : α → β
  entry : α → Option (Record φ)
  gateKey : α → Text
  logKey : α → Text
  listKey : α → Text

namespace ItemGate

variable {α β : Type} (g : ItemGate α β φ)

def keeps (item : α) : Bool := g.letsThrough item && g.leaves item

/-- What is returned for some items: the kept ones in their injected form, and for each of them,
in order, its entry with the key of the gate. -/
structure Corresponds (p : Json.PyFormat φ) (items : List α)
    (result : List β × List (Record φ)) : Prop where
  kept : result.1 = (items.filter g.keeps).map g.injected
  logged : List.Forall₂ (fun item entry => g.entry item = some entry ∧
    fieldText p entry keyKey = g.gateKey item) (items.filter g.keeps) result.2

/-- The three views of the keys agree on some items. -/
structure KeysAgree (items : List α) : Prop where
  logged : ∀ item ∈ items, g.keeps item = true → g.logKey item = g.gateKey item
  listed : ∀ item ∈ items, g.keeps item = true →
    ∃ item' ∈ items, g.keeps item' = true ∧ g.listKey item' = g.gateKey item
  unlisted : ∀ item ∈ items, g.letsThrough item = true → g.leaves item = false →
    ∀ item' ∈ items, g.keeps item' = true → g.listKey item' ≠ g.logKey item

variable {g}

theorem keysAgree_of_eq {items : List α} (hnodup : (items.map g.gateKey).Nodup)
    (hlog : ∀ item ∈ items, g.letsThrough item = true → g.logKey item = g.gateKey item)
    (hlist : ∀ item ∈ items, g.keeps item = true → g.listKey item = g.gateKey item) :
    g.KeysAgree items where
  logged item hitem hkeeps := hlog item hitem (Bool.and_eq_true_iff.mp hkeeps).1
  listed item hitem hkeeps := ⟨item, hitem, hkeeps, hlist item hitem hkeeps⟩
  unlisted item hitem hlets hleaves item' hitem' hkeeps heq := by
    rw [hlist item' hitem' hkeeps, hlog item hitem hlets] at heq
    have hsame := inj_on_of_nodup_map hnodup hitem' hitem heq
    rw [hsame] at hkeeps
    rw [(Bool.and_eq_true_iff.mp hkeeps).2] at hleaves
    cases hleaves

/-- The keys of what is kept. -/
def listKeys (g : ItemGate α β φ) (items : List α) : List Text :=
  (items.filter g.keeps).map g.listKey

theorem listKeys_contains_iff {items : List α} {key : Text} :
    (g.listKeys items).contains key = true ↔
      ∃ item ∈ items, g.keeps item = true ∧ g.listKey item = key := by
  simp only [listKeys, contains_iff_mem, mem_map, mem_filter, and_assoc]

section

variable {p : Json.PyFormat φ} {items : List α} {pairs : List (α × Record φ)}

theorem filter_keeps (hpairs : pairs.map fst = items.filter g.letsThrough) :
    items.filter g.keeps = (pairs.filter fun x => g.leaves x.1).map fst := by
  have hkeeps : g.keeps = fun item => g.leaves item && g.letsThrough item := by
    funext item
    exact Bool.and_comm _ _
  rw [hkeeps, ← filter_filter, ← hpairs, filter_map]
  rfl

theorem loggedUnder_map (hkey : ∀ x ∈ pairs, fieldText p x.2 keyKey = g.logKey x.1)
    (keys : List Text) :
    loggedUnder p keys (pairs.map snd) =
      (pairs.filter fun x => keys.contains (g.logKey x.1)).map snd := by
  unfold loggedUnder
  rw [filter_map]
  refine congrArg _ (filter_congr fun x hx => ?_)
  rw [Function.comp_apply, hkey x hx]

theorem corresponds_iff (hpairs : pairs.map fst = items.filter g.letsThrough)
    (hentry : ∀ x ∈ pairs, g.entry x.1 = some x.2)
    (hkey : ∀ x ∈ pairs, fieldText p x.2 keyKey = g.logKey x.1) :
    g.Corresponds p items ((items.filter g.keeps).map g.injected,
        loggedUnder p (g.listKeys items) (pairs.map snd)) ↔ g.KeysAgree items := by
  have hmem : ∀ x ∈ pairs, x.1 ∈ items ∧ g.letsThrough x.1 = true := fun x hx =>
    mem_filter.mp (hpairs ▸ mem_map_of_mem hx)
  have hpair : ∀ item ∈ items, g.letsThrough item = true → ∃ x ∈ pairs, x.1 = item := by
    intro item hitem hlets
    have hin : item ∈ pairs.map fst := hpairs ▸ mem_filter.mpr ⟨hitem, hlets⟩
    exact mem_map.mp hin
  constructor
  · intro h
    have hlogged := h.logged
    dsimp only at hlogged
    -- Every kept item has a logged entry, and the key of that entry is listed.
    have hkept : ∀ x ∈ pairs, g.leaves x.1 = true →
        g.logKey x.1 = g.gateKey x.1 ∧ (g.listKeys items).contains (g.logKey x.1) = true := by
      intro x hx hleaves
      have hin : x.1 ∈ items.filter g.keeps :=
        mem_filter.mpr ⟨(hmem x hx).1, Bool.and_eq_true_iff.mpr ⟨(hmem x hx).2, hleaves⟩⟩
      obtain ⟨entry, hlog, heq, hgate⟩ := exists_of_forall₂_left hlogged hin
      rw [hentry x hx] at heq
      cases heq
      rw [hkey x hx] at hgate
      have hlisted := (mem_filter.mp hlog).2
      rw [hkey x hx] at hlisted
      exact ⟨hgate, hlisted⟩
    refine ⟨?_, ?_, ?_⟩
    · intro item hitem hkeeps
      obtain ⟨hlets, hleaves⟩ := Bool.and_eq_true_iff.mp hkeeps
      obtain ⟨x, hx, rfl⟩ := hpair item hitem hlets
      exact (hkept x hx hleaves).1
    · intro item hitem hkeeps
      obtain ⟨hlets, hleaves⟩ := Bool.and_eq_true_iff.mp hkeeps
      obtain ⟨x, hx, rfl⟩ := hpair item hitem hlets
      obtain ⟨hgate, hlisted⟩ := hkept x hx hleaves
      rw [hgate] at hlisted
      exact listKeys_contains_iff.mp hlisted
    · intro item hitem hlets hleaves item' hitem' hkeeps heq
      obtain ⟨x, hx, rfl⟩ := hpair item hitem hlets
      -- As many entries are logged as items are kept, so no other entry is.
      have hsub : (pairs.filter fun x => g.leaves x.1).Sublist
          (pairs.filter fun x => (g.listKeys items).contains (g.logKey x.1)) := by
        have hfilter : pairs.filter (fun x => g.leaves x.1) =
            (pairs.filter fun x => (g.listKeys items).contains (g.logKey x.1)).filter
              fun x => g.leaves x.1 := by
          rw [filter_filter]
          refine filter_congr fun y hy => ?_
          cases hy' : g.leaves y.1 with
          | false => rfl
          | true => rw [(hkept y hy hy').2]; rfl
        rw [hfilter]
        exact filter_sublist
      have hlength := hlogged.length_eq
      rw [filter_keeps hpairs, loggedUnder_map hkey, length_map, length_map] at hlength
      have hin : x ∈ pairs.filter fun x => (g.listKeys items).contains (g.logKey x.1) :=
        mem_filter.mpr ⟨hx, listKeys_contains_iff.mpr ⟨item', hitem', hkeeps, heq⟩⟩
      rw [← hsub.eq_of_length hlength] at hin
      have hleaves' := (mem_filter.mp hin).2
      rw [hleaves] at hleaves'
      cases hleaves'
  · intro h
    refine ⟨rfl, ?_⟩
    have hfilter : pairs.filter (fun x => (g.listKeys items).contains (g.logKey x.1)) =
        pairs.filter fun x => g.leaves x.1 := by
      refine filter_congr fun x hx => ?_
      obtain ⟨hitem, hlets⟩ := hmem x hx
      rw [Bool.eq_iff_iff, listKeys_contains_iff]
      constructor
      · rintro ⟨item', hitem', hkeeps, heq⟩
        by_contra hleaves
        rw [Bool.not_eq_true] at hleaves
        exact h.unlisted x.1 hitem hlets hleaves item' hitem' hkeeps heq
      · intro hleaves
        have hkeeps : g.keeps x.1 = true := Bool.and_eq_true_iff.mpr ⟨hlets, hleaves⟩
        rw [h.logged x.1 hitem hkeeps]
        exact h.listed x.1 hitem hkeeps
    dsimp only
    rw [loggedUnder_map hkey, hfilter, filter_keeps hpairs, forall₂_map_left_iff,
      forall₂_map_right_iff, forall₂_same]
    intro x hx
    obtain ⟨hx, hleaves⟩ := mem_filter.mp hx
    obtain ⟨hitem, hlets⟩ := hmem x hx
    refine ⟨hentry x hx, ?_⟩
    rw [hkey x hx]
    exact h.logged x.1 hitem (Bool.and_eq_true_iff.mpr ⟨hlets, hleaves⟩)

end

end ItemGate

/-- A text filter as a test of one item. -/
def passesText {α : Type} (text : Text) (test : α → Bool) (x : α) : Bool :=
  decide (text.strip = []) || test x

theorem filterByText_eq {α : Type} (text : Text) (test : α → Bool) (xs : List α) :
    filterByText text test xs = xs.filter (passesText text test) := by
  unfold filterByText passesText
  by_cases hblank : text.strip = []
  · rw [if_pos hblank, filter_eq_self.mpr]
    intro x _
    rw [decide_eq_true hblank]
    rfl
  · rw [if_neg hblank, decide_eq_false hblank]
    rfl

namespace GateCall

variable (env : SessionEnv φ) (call : GateCall φ)

/-- Whether the gate injects a tool in full. -/
def injectsFull (tool : Record φ) : Bool := decide (call.mode env tool = .full)

/-- The form in which the gate injects a tool. -/
def injectedForm (tool : Record φ) : Record φ :=
  call.injectTool env (call.injectsFull env tool) tool

def injectedEntry (tool : Record φ) : Option (Record φ) :=
  call.entry env (call.injectsFull env tool) tool

/-- The key of the entry of a tool. -/
def logKey (tool : Record φ) : Text :=
  toolItemKey env (toolCatalogKind env tool) (call.injectedForm env tool)

/-- The third result of the gate. -/
def fullFlags (tools : List (Record φ)) : Dict Text Bool :=
  Dict.empty.writeAll ((tools.filter (call.injects env)).map fun tool =>
    (gateKey env tool, call.injectsFull env tool))

variable {env call}
variable {tools : List (Record φ)}

theorem injectsFull_of_mem {gs : List (Gated φ)} (h : gateAll env call tools = some gs)
    {g : Gated φ} (hg : g ∈ gs) : call.injectsFull env g.tool = g.full := by
  unfold injectsFull
  rw [(mode_of_mem_gateAll h hg).1]
  cases g.full <;> rfl

theorem exists_pairs {state : GateState φ} (h : call.gateToolsForSession env tools = some state) :
    state.kept = (tools.filter (call.injects env)).map (call.injectedForm env) ∧
      state.fullFlags = call.fullFlags env tools ∧
      ∃ pairs : List (Record φ × Record φ), state.logEntries = pairs.map snd ∧
        pairs.map fst = tools.filter (call.injects env) ∧
        (∀ x ∈ pairs, call.injectedEntry env x.1 = some x.2) ∧
        ∀ x ∈ pairs, fieldText env x.2 keyKey = call.logKey env x.1 := by
  obtain ⟨gs, hgs, hkept, hentries, hflags⟩ := exists_gateAll h
  have hfull : ∀ g ∈ gs, call.injectsFull env g.tool = g.full := fun g hg =>
    injectsFull_of_mem hgs hg
  refine ⟨?_, ?_, gs.map fun g => (g.tool, g.entry), ?_, ?_, ?_, ?_⟩
  · rw [hkept, ← gateAll_tools hgs, List.map_map]
    refine map_congr_left fun g hg => ?_
    rw [Function.comp_apply, injectedForm, hfull g hg]
  · unfold fullFlags
    rw [hflags, ← gateAll_tools hgs, List.map_map]
    refine congrArg _ (map_congr_left fun g hg => ?_)
    rw [Function.comp_apply, hfull g hg]
  · rw [hentries, List.map_map]
    rfl
  · rw [← gateAll_tools hgs, List.map_map]
    rfl
  · intro x hx
    obtain ⟨g, hg, rfl⟩ := mem_map.mp hx
    unfold injectedEntry
    rw [hfull g hg]
    exact (mode_of_mem_gateAll hgs hg).2
  · intro x hx
    obtain ⟨g, hg, rfl⟩ := mem_map.mp hx
    unfold logKey injectedForm
    rw [hfull g hg]
    exact fieldText_str (loggedAs_of_entry (mode_of_mem_gateAll hgs hg).2).key

end GateCall

namespace FilterCall

variable (env : SessionEnv φ) (call : FilterCall φ)

/-- What the filters of `gate_and_filter_tools` ask of the injected form of a tool. -/
def passesFilters (flags : Dict Text Bool) (tool : Record φ) : Bool :=
  let text := call.gateCall.sessionText
  let combined := if call.refresh then [] else call.ctx.combinedText
  passesText text (keptPreservingFull env flags (call.catalogKind env) text) tool &&
    passesText combined
      (if call.usesMcpc env then mcpcToolNotExposed env combined
        else keptPreservingFull env flags (call.catalogKind env) combined) tool

theorem filterTools_eq (flags : Dict Text Bool) (tools : List (Record φ)) :
    call.filterTools env flags tools = tools.filter (call.passesFilters env flags) := by
  have hfilters : ∀ test test' : Record φ → Bool,
      (tools.filter test).filter test' = tools.filter fun tool => test tool && test' tool := by
    intro test test'
    rw [filter_filter]
    exact filter_congr fun tool _ => Bool.and_comm _ _
  unfold filterTools passesFilters
  dsimp only
  split
  · rw [filterByText_eq, filterByText_eq, hfilters]
  · rw [filterByText_eq, filterByText_eq, hfilters]

/-- `gate_and_filter_tools` as a gate over the tools that it works on. -/
def itemGate (tools : List (Record φ)) : ItemGate (Record φ) (Record φ) φ where
  letsThrough := call.gateCall.injects env
  leaves tool :=
    call.passesFilters env (call.gateCall.fullFlags env tools) (call.gateCall.injectedForm env tool)
  injected := call.gateCall.injectedForm env
  entry := call.gateCall.injectedEntry env
  gateKey := gateKey env
  logKey := call.gateCall.logKey env
  listKey tool :=
    toolItemKey env (call.catalogKind env) (call.gateCall.injectedForm env tool)

variable {env call}

theorem corresponds_iff {tools : List (Record φ)} {result : List (Record φ) × List (Record φ)}
    (h : call.gateAndFilterTools env tools = some result) :
    (call.itemGate env (call.workingTools env tools)).Corresponds env
        (call.workingTools env tools) result ↔
      (call.itemGate env (call.workingTools env tools)).KeysAgree
        (call.workingTools env tools) := by
  unfold gateAndFilterTools at h
  obtain ⟨state, hstate, rfl⟩ := Option.map_eq_some_iff.mp h
  obtain ⟨hkept, hflags, pairs, hentries, hpairs, hentry, hkey⟩ := GateCall.exists_pairs hstate
  have hgated : call.filterTools env state.fullFlags state.kept =
      ((call.workingTools env tools).filter
        (call.itemGate env (call.workingTools env tools)).keeps).map
          (call.gateCall.injectedForm env) := by
    rw [filterTools_eq, hkept, hflags, filter_map, filter_filter]
    refine congrArg _ (filter_congr fun tool _ => ?_)
    exact Bool.and_comm _ _
  dsimp only
  rw [hgated, hentries, List.map_map]
  exact ItemGate.corresponds_iff hpairs hentry hkey

end FilterCall

/-- `gate_and_filter_native_tools` as a gate. -/
def nativeGate (env : SessionEnv φ) (ctx : PreExposureContext φ) (catalogTools : List (Record φ)) :
    ItemGate (Record φ) (Record φ) φ where
  letsThrough := (nativeGateCall ctx catalogTools).injects env
  leaves tool :=
    nativeToolNotExposed env ctx ((nativeGateCall ctx catalogTools).injectedForm env tool)
  injected := (nativeGateCall ctx catalogTools).injectedForm env
  entry := (nativeGateCall ctx catalogTools).injectedEntry env
  gateKey := gateKey env
  logKey := (nativeGateCall ctx catalogTools).logKey env
  listKey tool := toolItemKey env (FilterCall.configuredCatalog env)
    ((nativeGateCall ctx catalogTools).injectedForm env tool)

theorem nativeGate_corresponds_iff {env : SessionEnv φ} {ctx : PreExposureContext φ}
    {catalogTools tools : List (Record φ)} {result : List (Record φ) × List (Record φ)}
    (h : gateAndFilterNativeTools env ctx catalogTools tools = some result) :
    (nativeGate env ctx catalogTools).Corresponds env tools result ↔
      (nativeGate env ctx catalogTools).KeysAgree tools := by
  unfold gateAndFilterNativeTools at h
  obtain ⟨state, hstate, rfl⟩ := Option.map_eq_some_iff.mp h
  obtain ⟨hkept, -, pairs, hentries, hpairs, hentry, hkey⟩ := GateCall.exists_pairs hstate
  have hgated : state.kept.filter (nativeToolNotExposed env ctx) =
      (tools.filter (nativeGate env ctx catalogTools).keeps).map
        ((nativeGateCall ctx catalogTools).injectedForm env) := by
    rw [hkept, filter_map, filter_filter]
    refine congrArg _ (filter_congr fun tool _ => ?_)
    exact Bool.and_comm _ _
  dsimp only
  rw [hgated, hentries, List.map_map]
  exact ItemGate.corresponds_iff hpairs hentry hkey

section

variable {α : Type} {mode : α → InjectionMode} {entry : Bool → α → Record φ}

theorem gateItems_eq (xs : List α) :
    gateItems mode entry xs = (xs.filter fun x => decide (mode x ≠ .skip)).map fun x =>
      (x, entry (decide (mode x = .full)) x) := by
  unfold gateItems
  induction xs with
  | nil => rfl
  | cons x xs ih =>
    rw [filterMap_cons, ih, filter_cons]
    cases hmode : mode x with
    | skip => rfl
    | skinny => simp [hmode]
    | full => simp [hmode]

theorem map_fst_gateItems (xs : List α) :
    (gateItems mode entry xs).map fst = xs.filter fun x => decide (mode x ≠ .skip) := by
  rw [gateItems_eq, List.map_map]
  exact map_id _

end

variable (env : ItemEnv φ) (ctx : PreExposureContext φ)

/-- What the filters of `gate_and_filter_skills` ask of a skill. -/
def skillPasses (skill : MatchedSkill) : Bool :=
  passesText ctx.payloadText (skillNotExposed env ctx.payloadText) skill &&
    passesText ctx.combinedText (skillNotExposed env ctx.combinedText) skill &&
      !env.isSkillDenied skill

/-- What the filters of `gate_and_filter_resources` ask of a resource. -/
def resourcePasses (resource : MatchedResource) : Bool :=
  passesText ctx.payloadText (resourceNotExposed env ctx.payloadText) resource &&
    passesText ctx.combinedText (resourceNotExposed env ctx.combinedText) resource

theorem filterSkills_eq (skills : List MatchedSkill) :
    filterSkills env ctx skills = skills.filter (skillPasses env ctx) := by
  unfold filterSkills
  rw [filterByText_eq, filterByText_eq, filter_filter, filter_filter]
  refine filter_congr fun skill _ => ?_
  unfold skillPasses
  rw [Bool.and_comm, Bool.and_comm (!env.isSkillDenied skill), Bool.and_assoc]

theorem filterResources_eq (resources : List MatchedResource) :
    filterResources env ctx resources = resources.filter (resourcePasses env ctx) := by
  unfold filterResources
  rw [filterByText_eq, filterByText_eq, filter_filter]
  exact filter_congr fun resource _ => Bool.and_comm _ _

/-- The entry that the gate writes for a skill. -/
def skillEntry (skill : MatchedSkill) : Record φ :=
  let full := decide (skillMode env ctx skill = .full)
  buildSkillLogEntry env skill (full || env.isContentComplete skill) full

/-- The entry that the gate writes for a resource. -/
def resourceEntry (resource : MatchedResource) : Record φ :=
  buildResourceLogEntry env resource (decide (resourceMode env ctx resource = .full))

def skillGate : ItemGate MatchedSkill MatchedSkill φ where
  letsThrough skill := decide (skillMode env ctx skill ≠ .skip)
  leaves := skillPasses env ctx
  injected := id
  entry skill := some (skillEntry env ctx skill)
  gateKey skill := skillItemKey env skill (resolveSkillCommand env skill)
  logKey skill := skillItemKey env skill (skillCommand env skill)
  listKey skill := skillItemKey env skill none

def resourceGate : ItemGate MatchedResource MatchedResource φ where
  letsThrough resource := decide (resourceMode env ctx resource ≠ .skip)
  leaves := resourcePasses env ctx
  injected := id
  entry resource := some (resourceEntry env ctx resource)
  gateKey := resourceItemKey
  logKey := resourceItemKey
  listKey := resourceItemKey

section

variable {env ctx}

theorem ItemGate.corresponds_iff_of_items {α : Type} {g : ItemGate α α φ} {p : Json.PyFormat φ}
    {entry : α → Record φ} {items : List α} (hinjected : g.injected = id)
    (hentry : ∀ item, g.entry item = some (entry item))
    (hkey : ∀ item, fieldText p (entry item) keyKey = g.logKey item) :
    g.Corresponds p items (items.filter g.keeps, loggedUnder p
        ((items.filter g.keeps).map g.listKey)
          ((items.filter g.letsThrough).map entry)) ↔ g.KeysAgree items := by
  have hpairs : ((items.filter g.letsThrough).map fun item => (item, entry item)).map fst =
      items.filter g.letsThrough := by
    rw [List.map_map]
    exact map_id _
  have h := ItemGate.corresponds_iff (p := p) hpairs
    (by
      intro x hx
      obtain ⟨item, -, rfl⟩ := mem_map.mp hx
      exact hentry item)
    (by
      intro x hx
      obtain ⟨item, -, rfl⟩ := mem_map.mp hx
      exact hkey item)
  rw [hinjected, map_id, List.map_map] at h
  exact h

theorem fieldText_skillEntry (skill : MatchedSkill) :
    fieldText env (skillEntry env ctx skill) keyKey =
      skillItemKey env skill (skillCommand env skill) := fieldText_str rfl

theorem fieldText_resourceEntry (resource : MatchedResource) :
    fieldText env (resourceEntry env ctx resource) keyKey =
      resourceItemKey resource := fieldText_str rfl

theorem skillGate_corresponds_iff (skills : List MatchedSkill) :
    (skillGate env ctx).Corresponds env skills (gateAndFilterSkills env ctx skills) ↔
      (skillGate env ctx).KeysAgree skills := by
  have hgated : filterSkills env ctx ((gateSkillsForSession env ctx skills).map fst) =
      skills.filter (skillGate env ctx).keeps := by
    unfold gateSkillsForSession
    rw [map_fst_gateItems, filterSkills_eq, filter_filter]
    exact filter_congr fun skill _ => Bool.and_comm _ _
  have hentries : (gateSkillsForSession env ctx skills).map snd =
      (skills.filter (skillGate env ctx).letsThrough).map (skillEntry env ctx) := by
    unfold gateSkillsForSession
    rw [gateItems_eq, List.map_map]
    rfl
  unfold gateAndFilterSkills
  dsimp only
  rw [hgated, hentries]
  exact ItemGate.corresponds_iff_of_items rfl (fun _ => rfl) fieldText_skillEntry

theorem resourceGate_corresponds {resources : List MatchedResource}
    (hnodup : (resources.map resourceItemKey).Nodup) :
    (resourceGate env ctx).Corresponds env resources
      (gateAndFilterResources env ctx resources) := by
  have hgated : filterResources env ctx ((gateResourcesForSession env ctx resources).map fst) =
      resources.filter (resourceGate env ctx).keeps := by
    unfold gateResourcesForSession
    rw [map_fst_gateItems, filterResources_eq, filter_filter]
    exact filter_congr fun resource _ => Bool.and_comm _ _
  have hentries : (gateResourcesForSession env ctx resources).map snd =
      (resources.filter (resourceGate env ctx).letsThrough).map (resourceEntry env ctx) := by
    unfold gateResourcesForSession
    rw [gateItems_eq, List.map_map]
    rfl
  unfold gateAndFilterResources
  dsimp only
  rw [hgated, hentries]
  refine (ItemGate.corresponds_iff_of_items rfl (fun _ => rfl) fieldText_resourceEntry).mpr ?_
  exact ItemGate.keysAgree_of_eq hnodup (fun _ _ _ => rfl) (fun _ _ _ => rfl)

end

/-- The returned entries are exactly those of the items kept for injection, each under the key by
which the gate looks its item up: for tools, native tools and skills exactly if the views of the
keys agree, for resources with distinct keys always. -/
theorem logsCorrespond_iff (env : ItemEnv φ) (ctx : PreExposureContext φ) :
    (∀ (call : FilterCall φ) (tools : List (Record φ)) (result : List (Record φ) × List (Record φ)),
      call.gateAndFilterTools env tools = some result →
        ((call.itemGate env (call.workingTools env tools)).Corresponds
            env (call.workingTools env tools) result ↔
          (call.itemGate env (call.workingTools env tools)).KeysAgree
            (call.workingTools env tools))) ∧
      (∀ (catalogTools tools : List (Record φ)) (result : List (Record φ) × List (Record φ)),
        gateAndFilterNativeTools env ctx catalogTools tools = some result →
          ((nativeGate env ctx catalogTools).Corresponds env tools result ↔
            (nativeGate env ctx catalogTools).KeysAgree tools)) ∧
      (∀ skills : List MatchedSkill,
        (skillGate env ctx).Corresponds env skills (gateAndFilterSkills env ctx skills) ↔
          (skillGate env ctx).KeysAgree skills) ∧
      ∀ resources : List MatchedResource, (resources.map resourceItemKey).Nodup →
        (resourceGate env ctx).Corresponds env resources
          (gateAndFilterResources env ctx resources) :=
  ⟨fun _ _ _ h => FilterCall.corresponds_iff h, fun _ _ _ h => nativeGate_corresponds_iff h,
    skillGate_corresponds_iff, fun _ h => resourceGate_corresponds h⟩

/-- A context without a text and a log. -/
def plainContext : PreExposureContext Empty := ⟨[], [], []⟩

/-- Markdown without frontmatter, paths as they are, no denied skills. -/
def plainItemEnv : ItemEnv Empty where
  toSessionEnv := plainEnv
  frontmatterCommand _ := none
  injectionMarkdownBody markdown := markdown
  shortenHomePath path := path
  displaySkillPath path := path
  fileHash _ markdown := markdown
  isContentComplete _ := false
  commandAttrValues _ := []
  isSkillDenied _ := false

def plainCall : FilterCall Empty := ⟨plainContext, [], none, false⟩

def plainResource : MatchedResource := ⟨['r'], "r.md", ['b'], none, ['x'], [], some ['h']⟩

/-- A tool and a resource are logged. -/
theorem plainItems_logged :
    (∃ result, plainCall.gateAndFilterTools plainEnv [hashedTool] = some result ∧
      (plainCall.itemGate plainEnv [hashedTool]).Corresponds plainEnv [hashedTool] result) ∧
      (∃ result, gateAndFilterNativeTools plainEnv plainContext [] [hashedTool] = some result ∧
        (nativeGate plainEnv plainContext []).Corresponds plainEnv [hashedTool] result) ∧
      (resourceGate plainItemEnv plainContext).Corresponds plainEnv [plainResource]
        (gateAndFilterResources plainItemEnv plainContext [plainResource]) := by
  obtain ⟨htools, hnative, -, hresources⟩ := logsCorrespond_iff plainItemEnv plainContext
  refine ⟨?_, ?_, hresources [plainResource] (nodup_singleton _)⟩
  · have hsome : (plainCall.gateAndFilterTools plainEnv [hashedTool]).isSome = true := by
      decide +kernel
    obtain ⟨result, hresult⟩ := Option.isSome_iff_exists.mp hsome
    refine ⟨result, hresult, (htools plainCall [hashedTool] result hresult).mpr ?_⟩
    refine ItemGate.keysAgree_of_eq (nodup_singleton _) ?_ ?_
    · intro tool htool _
      rw [mem_singleton.mp htool]
      decide +kernel
    · intro tool htool _
      rw [mem_singleton.mp htool]
      decide +kernel
  · have hsome : (gateAndFilterNativeTools plainEnv plainContext [] [hashedTool]).isSome = true := by
      decide +kernel
    obtain ⟨result, hresult⟩ := Option.isSome_iff_exists.mp hsome
    refine ⟨result, hresult, (hnative [] [hashedTool] result hresult).mpr ?_⟩
    refine ItemGate.keysAgree_of_eq (nodup_singleton _) ?_ ?_
    · intro tool htool _
      rw [mem_singleton.mp htool]
      decide +kernel
    · intro tool htool _
      rw [mem_singleton.mp htool]
      decide +kernel

def commandSkill : MatchedSkill := ⟨['s'], "s.md", ['b'], none, some ['x'], some ['h']⟩

/-- A skill with a command is injected, but its entry is not among those returned. -/
theorem commandSkill_not_logged :
    ([commandSkill].map (skillGate plainItemEnv plainContext).gateKey).Nodup ∧
      ¬ (skillGate plainItemEnv plainContext).Corresponds plainEnv [commandSkill]
        (gateAndFilterSkills plainItemEnv plainContext [commandSkill]) := by
  refine ⟨nodup_singleton _, ?_⟩
  intro h
  have hkept : (gateAndFilterSkills plainItemEnv plainContext [commandSkill]).1.length = 1 := by
    decide +kernel
  have hlogs : (gateAndFilterSkills plainItemEnv plainContext [commandSkill]).2.length = 0 := by
    decide +kernel
  have hlength := h.logged.length_eq
  rw [h.kept, length_map, hlength, hlogs] at hkept
  cases hkept

end ClearYourTools.Injection.SessionLog
