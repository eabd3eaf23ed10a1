import ClearYourTools.Injection.Proofs.LoggedEntries

/-!
# The exposure schedule of a session

The entries of a tool in the log are the injections that it has had: none, one in skinny form, or
one in skinny form and then one in full, as long as an entry is found again.
-/

namespace ClearYourTools.Injection.SessionLog

open Misc CytClient List Option
open Bool (and_eq_true)
open List (mem_map mem_map_of_mem)

variable {φ : Type} {env : SessionEnv φ}

/-- The injections of a key in the steps of a session, in order: whether each was a full one. -/
def injections (steps : List (Step φ)) (key : Text) : List Bool :=
  steps.filterMap fun step => step.state.fullFlags.get? key

def toolEntries (env : SessionEnv φ) (index : SessionLogIndex φ) (key : Text) : List (Record φ) :=
  index.filter fun e => fieldIs e kindKey toolKind && entryKey env e == key

/-- An entry of a tool of one of the steps, under the key and the hash by which the gate looks
the tool up. -/
def FromTool (env : SessionEnv φ) (done : List (Step φ)) (entry : Record φ) : Prop :=
  ∃ step ∈ done, ∃ tool ∈ step.prompt.tools, ∃ full,
    LoggedAs (gateKey env tool) (gateHash env step.prompt.catalogTools tool) full entry

/-- What the log of a session holds after some steps. -/
structure Inv (env : SessionEnv φ) (done : List (Step φ)) (index : SessionLogIndex φ) : Prop where
  entries : ∀ e ∈ index, FromTool env done e ∨ ∃ prompt : Prompt φ, e = prompt.stateEntry
  flags : ∀ key, (toolEntries env index key).map isFull = injections done key
  count : index.hookInvocationCount env.toPyFormat = done.length
  order : ∀ key, injections done key = [] ∨ injections done key = [false] ∨
    injections done key = [false, true]

variable {key hash : Text} {full : Bool} {entry : Record φ}

section

variable (h : LoggedAs key hash full entry)
include h

theorem LoggedAs.fieldText_key : entryKey env entry = key := fieldText_str h.key

theorem LoggedAs.fieldText_hash : (entryPair env entry).2 = hash := fieldText_str h.hash

theorem LoggedAs.fieldIs_kind : fieldIs entry kindKey toolKind = true := by
  rw [fieldIs_str h.kind, beq_self_eq_true]

theorem LoggedAs.isFull_eq : isFull entry = full := by
  have hfull : Json.get? entry "full" = some (.bool full) := h.full
  unfold isFull
  rw [hfull]

end

theorem stateEntry_fieldIs_kind (prompt : Prompt φ) :
    fieldIs prompt.stateEntry kindKey toolKind = false := by
  rw [fieldIs_str (stateEntry_kind prompt)]
  decide

variable {done : List (Step φ)} {index : SessionLogIndex φ}

theorem Inv.noCompaction (h : Inv env done index) :
    ∀ e ∈ index, fieldIs e "kind" "compaction" = false := by
  intro e he
  rcases h.entries e he with ⟨step, -, tool, -, full, hlogged⟩ | ⟨prompt, rfl⟩
  · have hkind : Json.get? e "kind" = some (.str toolKind) := hlogged.kind
    rw [fieldIs_str hkind]
    decide
  · have hkind : Json.get? prompt.stateEntry "kind" = some (.str sessionStateKind) := rfl
    rw [fieldIs_str hkind]
    decide

/-- A tool whose key, hash and aliases agree with those of the tools before it. -/
structure Agrees (env : SessionEnv φ) (done : List (Step φ)) (catalogTools : List (Record φ))
    (tool : Record φ) : Prop where
  hash : ∀ step ∈ done, ∀ tool' ∈ step.prompt.tools, gateKey env tool' = gateKey env tool →
    gateHash env step.prompt.catalogTools tool' = gateHash env catalogTools tool
  aliases : ∀ step ∈ done, ∀ tool' ∈ step.prompt.tools, gateKey env tool' ∉ gateAliases env tool

variable {catalogTools : List (Record φ)} {tool : Record φ}

theorem Inv.entriesOf_eq (h : Inv env done index) (hagrees : Agrees env done catalogTools tool) :
    index.entriesOf (gateKey env tool) (gateAliases env tool) env.toPyFormat =
      toolEntries env index (gateKey env tool) := by
  unfold SessionLogIndex.entriesOf toolEntries
  refine filter_congr ?_
  intro e he
  rcases h.entries e he with ⟨step, hstep, tool', htool', full, hlogged⟩ | ⟨prompt, rfl⟩
  · have hkey : fieldText env e keyKey = gateKey env tool' := fieldText_str hlogged.key
    have hnot := hagrees.aliases step hstep tool' htool'
    rw [hlogged.fieldIs_kind, Bool.true_and]
    unfold entryKey
    rw [hkey, contains_cons]
    have halias : (gateAliases env tool).contains (gateKey env tool') = false := by
      simpa using hnot
    rw [halias, Bool.or_false]
  · have hkey : fieldText env prompt.stateEntry keyKey = injectStateKey :=
      fieldText_str (stateEntry_key prompt)
    rw [stateEntry_fieldIs_kind, Bool.false_and, hkey, ← Bool.not_eq_true, contains_iff_mem]
    intro hmem
    have hhead : injectStateKey.head? = some 't' := by
      rcases mem_cons.mp hmem with heq | hmem
      · rw [heq]
        exact toolItemKey_head? _ _ tool
      · exact toolItemLegacyKeys_head? _ _ tool _ hmem
    exact absurd hhead (by decide)

theorem Inv.hash_eq (h : Inv env done index) (hagrees : Agrees env done catalogTools tool) :
    ∀ e ∈ toolEntries env index (gateKey env tool),
      ∃ full, LoggedAs (gateKey env tool) (gateHash env catalogTools tool) full e := by
  intro e he
  obtain ⟨hmem, htest⟩ := mem_filter.mp he
  rw [and_eq_true, beq_iff_eq] at htest
  rcases h.entries e hmem with ⟨step, hstep, tool', htool', full, hlogged⟩ | ⟨prompt, rfl⟩
  · have hkey : gateKey env tool' = gateKey env tool := hlogged.fieldText_key.symm.trans htest.2
    refine ⟨full, ?_⟩
    rw [← hkey, ← hagrees.hash step hstep tool' htool' hkey]
    exact hlogged
  · rw [stateEntry_fieldIs_kind] at htest
    cases htest.1

theorem LoggedAs.entryHash? (h : LoggedAs key hash full entry)
    (hhash : hash.strip = hash ∧ hash ≠ []) : entryHash? entry = some hash := by
  unfold SessionLog.entryHash?
  rw [h.hash]
  dsimp only
  rw [hhash.1, if_neg hhash.2]

theorem LoggedAs.satisfies_eq (h : LoggedAs key hash full entry)
    (hhash : hash.strip = hash ∧ hash ≠ []) : SessionLogIndex.satisfies env hash entry = full := by
  unfold SessionLogIndex.satisfies
  rw [h.full, h.hash]
  dsimp only
  rw [hhash.1, beq_self_eq_true, Bool.and_true]
  rfl

theorem Inv.lookups (h : Inv env done index) (hagrees : Agrees env done catalogTools tool) :
    index.countKey (gateKey env tool) (gateAliases env tool) env.toPyFormat =
        (injections done (gateKey env tool)).length ∧
      index.latestHash (gateKey env tool) (gateAliases env tool) env.toPyFormat =
        (injections done (gateKey env tool)).head?.map (fun _ => gateHash env catalogTools tool) ∧
      index.hasSatisfiedFull (gateKey env tool) (gateAliases env tool) env
        (gateHash env catalogTools tool) = (injections done (gateKey env tool)).contains true := by
  have hhash := @gateHash_stripped _ env catalogTools tool
  have hes := h.hash_eq hagrees
  unfold SessionLogIndex.countKey SessionLogIndex.latestHash SessionLogIndex.hasSatisfiedFull
  rw [h.entriesOf_eq hagrees, ← h.flags (gateKey env tool)]
  generalize toolEntries env index (gateKey env tool) = es at hes
  refine ⟨(length_map _).symm, ?_, ?_⟩
  · rcases eq_nil_or_concat es with rfl | ⟨init, last, rfl⟩
    · rfl
    · obtain ⟨full, hlogged⟩ := hes last (by simp)
      rw [concat_eq_append, reverse_append, reverse_singleton,
        singleton_append, findSome?_cons, hlogged.entryHash? hhash]
      cases init <;> rfl
  · induction es with
    | nil => rfl
    | cons e es ih =>
      obtain ⟨full, hlogged⟩ := hes e mem_cons_self
      rw [any_cons, map_cons, contains_cons, hlogged.satisfies_eq hhash,
        hlogged.isFull_eq, ih fun e' he' => hes e' (mem_cons_of_mem e he')]
      cases full <;> rfl

section

variable {done : List (Step φ)} {call : GateCall φ} {tool : Record φ}
variable (h : Inv env done call.index)
include h

variable (hagrees : Agrees env done call.catalogTools tool)
include hagrees

theorem Inv.mode_of_none (hnone : injections done (gateKey env tool) = []) :
    call.mode env tool = if isPreExposed (call.skinnyFragment env tool)
          (combinedText call.sessionText (call.index.verbatimCorpus env)) = true ∨
        isPreExposed (call.fullFragment env tool)
          (combinedText call.sessionText (call.index.verbatimCorpus env)) = true then .skip
      else .skinny := by
  obtain ⟨hcount, hlatest, hfull⟩ := h.lookups hagrees
  rw [hnone] at hcount hlatest hfull
  unfold GateCall.mode resolveInjectionMode
  dsimp only
  rw [hcount, hlatest, hfull]
  simp [fullPromotionThreshold]

theorem Inv.mode_of_skinny (hskinny : injections done (gateKey env tool) = [false]) :
    call.mode env tool = if done.length = 3 then .full else .skip := by
  obtain ⟨hcount, hlatest, hfull⟩ := h.lookups hagrees
  rw [hskinny] at hcount hlatest hfull
  unfold GateCall.mode resolveInjectionMode
  dsimp only
  rw [hcount, hlatest, hfull, h.count]
  simp only [fullPromotionThreshold]
  by_cases hfourth : done.length = 3
  · simp [hfourth]
  · simp [hfourth]

theorem Inv.mode_of_full
    (hfull : injections done (gateKey env tool) = [false, true]) : call.mode env tool = .skip := by
  obtain ⟨-, -, hsatisfied⟩ := h.lookups hagrees
  rw [hfull] at hsatisfied
  unfold GateCall.mode resolveInjectionMode
  dsimp only
  rw [hsatisfied, if_pos]
  rfl

end

/-- Every form in which a tool of the prompt can be injected is logged under the key and the hash
by which the gate looks the tool up, on a line that reads back. -/
structure Remembered (env : SessionEnv φ) (prompt : Prompt φ) : Prop where
  key : ∀ tool ∈ prompt.tools, toolItemKey env (toolCatalogKind env tool)
    (fullSource env prompt.catalogTools tool) = gateKey env tool
  hash : ∀ tool ∈ prompt.tools, toolContentHash env prompt.catalogTools (toolCatalogKind env tool)
    tool = gateHash env prompt.catalogTools tool
  readable : ∀ tool ∈ prompt.tools, ∀ full entry,
    (prompt.call env none).entry env full tool = some entry → Readable env entry

theorem Remembered.loggedAs {prompt : Prompt φ} (h : Remembered env prompt) {log : Option Text}
    (htool : tool ∈ prompt.tools) (hentry : (prompt.call env log).entry env full tool = some entry) :
    LoggedAs (gateKey env tool) (gateHash env prompt.catalogTools tool) full entry := by
  have hlogged := loggedAs_of_entry hentry
  cases full with
  | false =>
    have hhash : toolContentHash env (prompt.call env log).catalogTools (toolCatalogKind env tool)
        ((prompt.call env log).injectTool env false tool) =
          gateHash env prompt.catalogTools tool := h.hash tool htool
    rwa [hhash] at hlogged
  | true =>
    have hkey : toolItemKey env (toolCatalogKind env tool)
        ((prompt.call env log).injectTool env true tool) = gateKey env tool := h.key tool htool
    rwa [hkey] at hlogged

theorem LoggedAs.cleanEntry
    (h : LoggedAs (gateKey env tool) (gateHash env catalogTools tool) full entry) :
    CleanEntry env entry := by
  have hhash := @gateHash_stripped _ env catalogTools tool
  constructor
  · exact h.fieldIs_kind
  · rw [h.fieldText_key]
    exact ⟨toolItemKey_strip _ _ tool, gateKey_ne_nil tool⟩
  · rw [h.fieldText_hash]
    exact hhash

theorem filter_eq_toList {ws : List (Text × Bool)} (hnodup : (ws.map Prod.fst).Nodup) (key : Text) :
    (ws.filter fun w => w.1 == key).map Prod.snd = ((Dict.empty.writeAll ws).get? key).toList := by
  by_cases hmem : key ∈ ws.map Prod.fst
  · obtain ⟨w, hw, rfl⟩ := mem_map.mp hmem
    rw [Dict.get?_writeAll_of_mem _ hnodup hw]
    obtain ⟨before, after, rfl⟩ := append_of_mem hw
    rw [map_append, map_cons, nodup_append] at hnodup
    have hbefore : before.filter (fun w' => w'.1 == w.1) = [] := by
      rw [filter_eq_nil_iff]
      intro w' hw' heq
      exact hnodup.2.2 w'.1 (mem_map_of_mem hw') w.1 mem_cons_self (beq_iff_eq.mp heq)
    have hafter : after.filter (fun w' => w'.1 == w.1) = [] := by
      rw [filter_eq_nil_iff]
      intro w' hw' heq
      rw [nodup_cons] at hnodup
      refine hnodup.2.1.1 ?_
      rw [← beq_iff_eq.mp heq]
      exact mem_map_of_mem hw'
    rw [filter_append, hbefore, filter_cons, if_pos (beq_self_eq_true _), hafter]
    rfl
  · rw [Dict.get?_writeAll_of_notMem _ hmem, filter_eq_nil_iff.mpr]
    · rfl
    · intro w hw heq
      exact hmem (by rw [← beq_iff_eq.mp heq]; exact mem_map_of_mem hw)

theorem Inv.order_step {call : GateCall φ} (h : Inv env done call.index)
    (hagrees : Agrees env done call.catalogTools tool) (hmode : call.mode env tool = modeOf full) :
    (injections done (gateKey env tool) = [] ∧ full = false) ∨
      (injections done (gateKey env tool) = [false] ∧ full = true ∧ done.length = 3) := by
  rcases h.order (gateKey env tool) with hnone | hskinny | hfull
  · rw [h.mode_of_none hagrees hnone] at hmode
    refine .inl ⟨hnone, ?_⟩
    cases full with
    | false => rfl
    | true => split at hmode <;> cases hmode
  · rw [h.mode_of_skinny hagrees hskinny] at hmode
    refine .inr ⟨hskinny, ?_⟩
    split at hmode
    · rename_i hfourth
      cases full with
      | false => cases hmode
      | true => exact ⟨rfl, hfourth⟩
    · cases full <;> cases hmode
  · rw [h.mode_of_full hagrees hfull] at hmode
    cases full <;> cases hmode

/-- The injections of a prompt: each follows the schedule of its tool and is logged so that the
gate finds it, and no two have the same key. -/
structure Scheduled (env : SessionEnv φ) (done : List (Step φ)) (catalogTools : List (Record φ))
    (gs : List (Gated φ)) : Prop where
  logged : ∀ g ∈ gs, LoggedAs (gateKey env g.tool) (gateHash env catalogTools g.tool) g.full g.entry
  order : ∀ g ∈ gs, injections done (gateKey env g.tool) = [] ∧ g.full = false ∨
    injections done (gateKey env g.tool) = [false] ∧ g.full = true ∧ done.length = 3
  readable : ∀ g ∈ gs, Readable env g.entry
  nodup : (gs.map fun g => gateKey env g.tool).Nodup

section

variable {done : List (Step φ)} {catalogTools : List (Record φ)} {gs : List (Gated φ)}

theorem mem_toolEntries {index : SessionLogIndex φ} {key : Text} {e : Record φ} :
    e ∈ toolEntries env index key ↔
      e ∈ index ∧ fieldIs e kindKey toolKind = true ∧ entryKey env e = key := by
  unfold toolEntries
  rw [mem_filter, and_eq_true, beq_iff_eq]

/-- The client drops no entry of a prompt. -/
theorem Inv.dedupedEntries_eq {index : SessionLogIndex φ} (h : Inv env done index)
    (hgs : Scheduled env done catalogTools gs) :
    dedupedEntries env toolKind index (gs.map Gated.entry) = gs.map Gated.entry := by
  unfold dedupedEntries
  rw [foldl_dedupEntry ?_ ?_ _ ?_, nil_append]
  · intro e he
    obtain ⟨g, hg, rfl⟩ := mem_map.mp he
    exact (hgs.logged g hg).cleanEntry
  · have hkeys : (gs.map Gated.entry).map (entryKey env) = gs.map fun g => gateKey env g.tool := by
      rw [List.map_map]
      exact map_congr_left fun g hg => (hgs.logged g hg).fieldText_key
    rw [hkeys]
    exact hgs.nodup
  · intro e he hknown
    obtain ⟨g, hg, rfl⟩ := mem_map.mp he
    have hg' := hgs.logged g hg
    -- the pair is known, so the tool was injected before, and now in full
    obtain ⟨e', he', hpair⟩ := mem_map.mp hknown
    obtain ⟨hmem, hkind⟩ := mem_filter.mp he'
    have hkey : entryKey env e' = gateKey env g.tool := by
      rw [← hg'.fieldText_key]
      exact congrArg Prod.fst hpair
    have hin : e' ∈ toolEntries env index (gateKey env g.tool) :=
      mem_toolEntries.mpr ⟨hmem, hkind, hkey⟩
    have hflags := h.flags (gateKey env g.tool)
    rcases hgs.order g hg with ⟨hnone, -⟩ | ⟨hskinny, hfull, -⟩
    · rw [hnone, map_eq_nil_iff] at hflags
      rw [hflags] at hin
      cases hin
    rw [hg'.isFull_eq]
    refine ⟨hfull, ?_⟩
    unfold hasFullToolEntry
    rw [List.any_eq_false]
    intro e'' he'' htest
    rw [and_eq_true, and_eq_true, and_eq_true, beq_iff_eq] at htest
    have hin'' : e'' ∈ toolEntries env index (gateKey env g.tool) :=
      mem_toolEntries.mpr ⟨he'', htest.1.1.1, htest.1.1.2.trans hg'.fieldText_key⟩
    have hflag := mem_map_of_mem (f := isFull) hin''
    rw [hflags, hskinny, mem_singleton, htest.2] at hflag
    cases hflag

theorem Inv.items_append {log : Option Text} (h : Inv env done (items env log))
    {prompt : Prompt φ} (hgs : Scheduled env done catalogTools gs) :
    items env (prompt.appendEntries env log (gs.map Gated.entry)) =
      items env log ++ gs.map Gated.entry ++ [prompt.stateEntry] := by
  unfold Prompt.appendEntries appendToolEntries appendDedupedKindEntries
  have hdedup : dedupedEntries env "tool"
      (readSessionLog env log true) (gs.map Gated.entry) = gs.map Gated.entry := by
    rw [readSessionLog_eq_items h.noCompaction]
    exact h.dedupedEntries_eq hgs
  rw [hdedup, SessionLog.items_append, SessionLog.items_append]
  · intro e he
    obtain ⟨g, hg, rfl⟩ := mem_map.mp he
    exact hgs.readable g hg
  · intro e he
    obtain ⟨g, hg, rfl⟩ := mem_map.mp he
    exact (hgs.logged g hg).noType
  · intro e he
    rw [mem_singleton.mp he]
    exact stateEntry_readable prompt
  · intro e he
    rw [mem_singleton.mp he]
    exact stateEntry_noType prompt

theorem injections_append (step : Step φ) (key : Text) :
    injections (done ++ [step]) key =
      injections done key ++ (step.state.fullFlags.get? key).toList := by
  unfold injections
  rw [filterMap_append, filterMap_cons]
  cases step.state.fullFlags.get? key <;> rfl

theorem Scheduled.flags_eq (hgs : Scheduled env done catalogTools gs) (key : Text) :
    (toolEntries env (gs.map Gated.entry) key).map isFull =
      ((Dict.empty.writeAll (gs.map fun g => (gateKey env g.tool, g.full))).get? key).toList := by
  have hnodup : ((gs.map fun g => (gateKey env g.tool, g.full)).map Prod.fst).Nodup := by
    rw [List.map_map]
    exact hgs.nodup
  rw [← filter_eq_toList hnodup, List.filter_map, List.map_map]
  unfold toolEntries
  rw [List.filter_map, List.map_map]
  have hfilter : gs.filter ((fun e => fieldIs e kindKey toolKind && entryKey env e == key) ∘
      Gated.entry) = gs.filter ((fun w : Text × Bool => w.1 == key) ∘ fun g =>
        (gateKey env g.tool, g.full)) := by
    refine filter_congr ?_
    intro g hg
    have hg' := hgs.logged g hg
    rw [Function.comp_apply, Function.comp_apply, hg'.fieldIs_kind, hg'.fieldText_key,
      Bool.true_and]
  rw [hfilter]
  refine map_congr_left ?_
  intro g hg
  exact (hgs.logged g (mem_of_mem_filter hg)).isFull_eq

theorem Scheduled.count_eq (hgs : Scheduled env done catalogTools gs) (index : SessionLogIndex φ)
    (prompt : Prompt φ) :
    SessionLogIndex.hookInvocationCount (index ++ gs.map Gated.entry ++ [prompt.stateEntry])
      env.toPyFormat = index.hookInvocationCount env + 1 := by
  unfold SessionLogIndex.hookInvocationCount
  have hentries : (gs.map Gated.entry).filter (fun entry =>
      fieldIs entry kindKey sessionStateKind &&
        fieldText env entry keyKey == injectStateKey) = [] := by
    rw [filter_eq_nil_iff]
    intro e he htest
    obtain ⟨g, hg, rfl⟩ := mem_map.mp he
    rw [fieldIs_str (hgs.logged g hg).kind, and_eq_true] at htest
    exact absurd htest.1 (by decide)
  rw [filter_append, filter_append, hentries, List.append_nil, length_append]
  rfl

/-- One prompt keeps the invariant. -/
theorem Inv.step {log : Option Text} (h : Inv env done (items env log)) {prompt : Prompt φ}
    {state : GateState φ} {log' : Option Text} (hrun : prompt.run env log = some (state, log'))
    (hremembered : Remembered env prompt)
    (hagrees : ∀ tool ∈ prompt.tools, Agrees env done prompt.catalogTools tool)
    (hnodup : (prompt.tools.map (gateKey env)).Nodup) :
    Inv env (done ++ [⟨log, prompt, state⟩]) (items env log') := by
  unfold Prompt.run at hrun
  obtain ⟨state', hgate, heq⟩ := map_eq_some_iff.mp hrun
  cases heq
  obtain ⟨gs, hgs, -, hentries, hflags⟩ := exists_gateAll hgate
  have hindex : (prompt.call env log).index = items env log :=
    readSessionLog_eq_items h.noCompaction
  have hcall : Inv env done (prompt.call env log).index := by
    rw [hindex]
    exact h
  have htool : ∀ g ∈ gs, g.tool ∈ prompt.tools := fun g hg =>
    (gateAll_sublist hgs).subset (mem_map_of_mem hg)
  have hscheduled : Scheduled env done prompt.catalogTools gs := by
    refine ⟨?_, ?_, ?_, gateAll_nodup hgs hnodup⟩
    · intro g hg
      exact hremembered.loggedAs (htool g hg) (mode_of_mem_gateAll hgs hg).2
    · intro g hg
      exact hcall.order_step (hagrees _ (htool g hg)) (mode_of_mem_gateAll hgs hg).1
    · intro g hg
      exact hremembered.readable _ (htool g hg) _ _ (mode_of_mem_gateAll hgs hg).2
  rw [hentries, h.items_append hscheduled]
  refine ⟨?_, ?_, ?_, ?_⟩
  · intro e he
    rcases mem_append.mp he with he | he
    · rcases mem_append.mp he with he | he
      · rcases h.entries e he with ⟨step, hstep, hfrom⟩ | hstate
        · exact .inl ⟨step, mem_append_left _ hstep, hfrom⟩
        · exact .inr hstate
      · obtain ⟨g, hg, rfl⟩ := mem_map.mp he
        exact .inl ⟨_, mem_append_right _ mem_cons_self, g.tool, htool g hg, g.full,
          hscheduled.logged g hg⟩
    · rw [mem_singleton.mp he]
      exact .inr ⟨prompt, rfl⟩
  · intro key
    have hstate : toolEntries env [prompt.stateEntry] key = [] := by
      unfold toolEntries
      rw [filter_cons, stateEntry_fieldIs_kind]
      rfl
    have hsplit : toolEntries env (items env log ++ gs.map Gated.entry ++ [prompt.stateEntry]) key =
        toolEntries env (items env log) key ++ toolEntries env (gs.map Gated.entry) key ++
          toolEntries env [prompt.stateEntry] key := by
      unfold toolEntries
      rw [filter_append, filter_append]
    rw [hsplit, hstate, List.append_nil, map_append, h.flags, hscheduled.flags_eq,
      injections_append, hflags]
  · rw [hscheduled.count_eq, h.count, length_append]
    rfl
  · intro key
    rw [injections_append]
    cases hget : state.fullFlags.get? key with
    | none =>
      rw [toList_none, List.append_nil]
      exact h.order key
    | some full =>
      obtain ⟨tool, htool, rfl, hmode⟩ := exists_of_flag hgate hnodup hget
      rcases hcall.order_step (hagrees tool htool) hmode with
        ⟨hnone, hfull⟩ | ⟨hskinny, hfull, -⟩
      · rw [hnone, hfull]
        exact .inr (.inl rfl)
      · rw [hskinny, hfull]
        exact .inr (.inr rfl)

end

namespace Step

variable (env : SessionEnv φ) (step : Step φ)

/-- The call of the gate in the step. -/
def call : GateCall φ := step.prompt.call env step.log

/-- A fragment is in the session text or in a logged fragment. -/
def Occurs (fragment : Text) : Prop :=
  fragment.strip ≠ [] ∧ (fragment <:+: step.prompt.sessionText ∨
    ∃ logged ∈ (step.call env).index.fragments env, fragment <:+: logged)

/-- No fragment of a gated tool begins in the session text or in one logged fragment and ends in
another one. -/
def NoStraddling : Prop :=
  ∀ tool ∈ step.prompt.tools, ∀ fragment, fragment = (step.call env).skinnyFragment env tool ∨
    fragment = (step.call env).fullFragment env tool → fragment.strip ≠ [] →
      fragment <:+: combinedText step.prompt.sessionText ((step.call env).index.verbatimCorpus env) →
        step.Occurs env fragment

end Step

/-- The tools of a session as the schedule has them: distinct keys in each prompt, one content
hash for a key, and no key that is an alias of another tool. -/
structure WellKeyed (env : SessionEnv φ) (prompts : List (Prompt φ)) : Prop where
  distinct : ∀ prompt ∈ prompts, (prompt.tools.map (gateKey env)).Nodup
  hash : ∀ prompt ∈ prompts, ∀ tool ∈ prompt.tools, ∀ prompt' ∈ prompts, ∀ tool' ∈ prompt'.tools,
    gateKey env tool' = gateKey env tool →
      gateHash env prompt'.catalogTools tool' = gateHash env prompt.catalogTools tool
  aliases : ∀ prompt ∈ prompts, ∀ tool ∈ prompt.tools, ∀ prompt' ∈ prompts,
    ∀ tool' ∈ prompt'.tools, gateKey env tool' ≠ gateKey env tool →
      gateKey env tool' ∉ gateAliases env tool

/-- The exposure schedule: a tool is injected at most once in skinny form, at most once in full,
never in skinny form after it was injected in full, in full only in the fourth prompt, and the
first time that it is gated unless one of its fragments occurs already. -/
structure ExposureSchedule (env : SessionEnv φ) (steps : List (Step φ)) : Prop where
  skinnyOnce : ∀ key, (injections steps key).count false ≤ 1
  fullOnce : ∀ key, (injections steps key).count true ≤ 1
  skinnyFirst : ∀ before after, steps = before ++ after → ∀ key,
    true ∈ injections before key → false ∉ injections after key
  fullFourth : ∀ before step after, steps = before ++ step :: after → ∀ key,
    step.state.fullFlags.get? key = some true → before.length = 3
  firstTime : ∀ before step after, steps = before ++ step :: after → ∀ tool ∈ step.prompt.tools,
    (∀ earlier ∈ before, gateKey env tool ∉ earlier.prompt.tools.map (gateKey env)) →
      ¬ step.Occurs env ((step.call env).skinnyFragment env tool) →
        ¬ step.Occurs env ((step.call env).fullFragment env tool) →
          (step.state.fullFlags.get? (gateKey env tool)).isSome

theorem inv_nil : Inv env [] (items env none) := by
  refine ⟨?_, fun _ => rfl, rfl, fun _ => .inl rfl⟩
  intro e he
  cases he

variable {all : List (Prompt φ)}

theorem WellKeyed.agrees (h : WellKeyed env all)
    (hdone : ∀ step ∈ done, step.prompt ∈ all) {prompt : Prompt φ} (hprompt : prompt ∈ all)
    (htool : tool ∈ prompt.tools) : Agrees env done prompt.catalogTools tool := by
  constructor
  · intro step hstep tool' htool' hkey
    exact h.hash prompt hprompt tool htool step.prompt (hdone step hstep) tool' htool' hkey
  · intro step hstep tool' htool'
    by_cases hkey : gateKey env tool' = gateKey env tool
    · rw [hkey]
      exact gateKey_notMem_gateAliases tool
    · exact h.aliases prompt hprompt tool htool step.prompt (hdone step hstep) tool' htool' hkey

theorem inv_run (hkeyed : WellKeyed env all)
    (hremembered : ∀ prompt ∈ all, Remembered env prompt) {prompts : List (Prompt φ)}
    (hprompts : ∀ prompt ∈ prompts, prompt ∈ all) (hdone : ∀ step ∈ done, step.prompt ∈ all)
    {log : Option Text} (h : Inv env done (items env log)) {steps : List (Step φ)}
    (hrun : runSession env log prompts = some steps) :
    (∀ before step after, steps = before ++ step :: after →
      Inv env (done ++ before) (items env step.log) ∧ step.prompt ∈ all ∧
        ∃ log', step.prompt.run env step.log = some (step.state, log')) ∧
      ∃ log', Inv env (done ++ steps) (items env log') := by
  induction prompts generalizing done log steps with
  | nil =>
    cases hrun
    refine ⟨?_, log, ?_⟩
    · intro before step after heq
      cases before <;> cases heq
    · rw [List.append_nil]
      exact h
  | cons prompt prompts ih =>
    have hprompt := hprompts prompt mem_cons_self
    rw [runSession] at hrun
    cases hstep : prompt.run env log with
    | none =>
      rw [hstep] at hrun
      cases hrun
    | some result =>
      obtain ⟨state, log'⟩ := result
      rw [hstep] at hrun
      obtain ⟨rest, hrest, rfl⟩ := map_eq_some_iff.mp hrun
      have hnext := h.step hstep (hremembered prompt hprompt)
        (fun tool htool => hkeyed.agrees hdone hprompt htool) (hkeyed.distinct prompt hprompt)
      have hdone' : ∀ step ∈ done ++ [⟨log, prompt, state⟩], step.prompt ∈ all := by
        intro step hmem
        rcases mem_append.mp hmem with hmem | hmem
        · exact hdone step hmem
        · rw [mem_singleton.mp hmem]
          exact hprompt
      obtain ⟨hsteps, hend⟩ := ih (fun p hp => hprompts p (mem_cons_of_mem _ hp)) hdone' hnext hrest
      rw [List.append_assoc, singleton_append] at hend
      refine ⟨?_, hend⟩
      intro before step after heq
      cases before with
      | nil =>
        cases heq
        rw [List.append_nil]
        exact ⟨h, hprompt, log', hstep⟩
      | cons first before =>
        rw [List.cons_append, List.cons.injEq] at heq
        obtain ⟨rfl, heq⟩ := heq
        have hinv := hsteps before step after heq
        rwa [List.append_assoc, singleton_append] at hinv

theorem isPreExposed_iff (fragment text : Text) : isPreExposed fragment text = true ↔
    fragment.strip ≠ [] ∧ text.strip ≠ [] ∧ fragment <:+: text := by
  unfold isPreExposed
  rw [and_eq_true, and_eq_true, decide_eq_true_iff, bne_iff_ne, bne_iff_ne, and_assoc]

/-- A session whose tools are found again in the log keeps the exposure schedule. -/
theorem exposureSchedule_of_remembered {prompts : List (Prompt φ)} {steps : List (Step φ)}
    (hkeyed : WellKeyed env prompts) (hrun : runSession env none prompts = some steps)
    (hremembered : ∀ prompt ∈ prompts, Remembered env prompt)
    (hstraddle : ∀ step ∈ steps, step.NoStraddling env) : ExposureSchedule env steps := by
  have hstart : ∀ step ∈ ([] : List (Step φ)), step.prompt ∈ prompts := by
    intro step hstep
    cases hstep
  obtain ⟨hsteps, log', hend⟩ := inv_run hkeyed hremembered (fun _ h => h) hstart inv_nil hrun
  rw [nil_append] at hend
  have hgate : ∀ before step after, steps = before ++ step :: after →
      Inv env before (step.call env).index ∧ step.prompt ∈ prompts ∧
        (step.call env).gateToolsForSession env step.prompt.tools = some step.state := by
    intro before step after heq
    obtain ⟨hinv, hmem, log'', hrun'⟩ := hsteps before step after heq
    rw [nil_append] at hinv
    obtain ⟨state, hgate, hstate⟩ := map_eq_some_iff.mp hrun'
    cases hstate
    refine ⟨?_, hmem, hgate⟩
    have hindex : (step.call env).index = items env step.log :=
      readSessionLog_eq_items hinv.noCompaction
    rw [hindex]
    exact hinv
  have hprompt : ∀ step ∈ steps, step.prompt ∈ prompts := by
    intro step hstep
    obtain ⟨before, after, heq⟩ := append_of_mem hstep
    exact (hgate before step after heq).2.1
  refine ⟨?_, ?_, ?_, ?_, ?_⟩
  · intro key
    rcases hend.order key with h | h | h <;> rw [h] <;> decide
  · intro key
    rcases hend.order key with h | h | h <;> rw [h] <;> decide
  · intro before after heq key htrue hfalse
    have horder := hend.order key
    have hsplit : injections steps key = injections before key ++ injections after key := by
      rw [heq]
      exact filterMap_append
    have hsub : ([true] ++ [false]).Sublist (injections steps key) := by
      rw [hsplit]
      exact (singleton_sublist.mpr htrue).append (singleton_sublist.mpr hfalse)
    rcases horder with h | h | h <;> rw [h] at hsub <;> exact absurd hsub (by decide)
  · intro before step after heq key hflag
    obtain ⟨hinv, hmem, hgated⟩ := hgate before step after heq
    obtain ⟨tool, htool, -, hmode⟩ := exists_of_flag hgated (hkeyed.distinct _ hmem) hflag
    have hbefore : ∀ s ∈ before, s.prompt ∈ prompts := fun s hs =>
      hprompt s (by rw [heq]; exact mem_append_left _ hs)
    rcases hinv.order_step (hkeyed.agrees hbefore hmem htool) hmode with ⟨-, hfull⟩ | ⟨-, -, hlen⟩
    · cases hfull
    · exact hlen
  · intro before step after heq tool htool hfirst hskinny hfull
    obtain ⟨hinv, hmem, hgated⟩ := hgate before step after heq
    have hbefore : ∀ s ∈ before, s.prompt ∈ prompts := fun s hs =>
      hprompt s (by rw [heq]; exact mem_append_left _ hs)
    have hnone : injections before (gateKey env tool) = [] := by
      unfold injections
      rw [filterMap_eq_nil_iff]
      intro s hs
      by_contra hne
      obtain ⟨full, hflag⟩ := ne_none_iff_exists'.mp hne
      obtain ⟨first, last, hsplit⟩ := append_of_mem hs
      have heq' : steps = first ++ s :: (last ++ step :: after) := by
        rw [heq, hsplit, List.append_assoc, List.cons_append]
      obtain ⟨-, hmem', hgated'⟩ := hgate first s _ heq'
      obtain ⟨tool', htool', hkey, -⟩ := exists_of_flag hgated' (hkeyed.distinct _ hmem') hflag
      refine hfirst s hs ?_
      rw [← hkey]
      exact List.mem_map_of_mem htool'
    refine flag_of_mode hgated (hkeyed.distinct _ hmem) htool ?_
    rw [hinv.mode_of_none (hkeyed.agrees hbefore hmem htool) hnone, if_neg]
    · decide
    · have hclear := hstraddle step (by rw [heq]; exact mem_append_right _ mem_cons_self)
        tool htool
      rintro (hexposed | hexposed)
      · obtain ⟨hblank, -, hin⟩ := (isPreExposed_iff _ _).mp hexposed
        exact hskinny (hclear _ (.inl rfl) hblank hin)
      · obtain ⟨hblank, -, hin⟩ := (isPreExposed_iff _ _).mp hexposed
        exact hfull (hclear _ (.inr rfl) hblank hin)

/-- The configuration without an mcpc catalog, for tools without schema and examples. The digest
is that of the definition of `brokenTool`. -/
def plainEnv : SessionEnv Empty where
  toPyFormat := Json.noFloats
  usesMcpcToolCatalog := false
  sha256 _ := "d2d9415dc1a0718cd688c12213819ddb9f13ab7de56469151a98f2120988c688"
  toolDetails _ := []
  examplesBlock _ := []
  mcpcSchemaBody _ := .obj []
  cliExample _ _ _ := []
  minimizeJsonSingleQuotes _ := []
  pickFullestInputSchema _ := []
  skillFragment _ := []
  resourceFragment _ := []
  lawful := Json.noFloats_lawful
  sha256_strip _ := by decide +kernel
  sha256_ne_nil _ := by decide

/-- A prompt that gates some tools, without a session text and without a catalog. -/
def plainPrompt (tools : List (Record Empty)) : Prompt Empty where
  tools := tools
  sessionText := []
  catalogTools := []
  includeToolDescription := true
  serverContext _ _ := none
  toolsInjectEnabled := true
  hallucinationGateEnabled := none
  injectVia := none
  agent := none

theorem wellKeyed_plain (tool : Record Empty) (n : ℕ) :
    WellKeyed plainEnv (List.replicate n (plainPrompt [tool])) := by
  have hprompt : ∀ prompt ∈ List.replicate n (plainPrompt [tool]), ∀ t ∈ prompt.tools, t = tool := by
    intro prompt hmem t ht
    rw [eq_of_mem_replicate hmem] at ht
    exact mem_singleton.mp ht
  refine ⟨?_, ?_, ?_⟩
  · intro prompt hmem
    rw [eq_of_mem_replicate hmem]
    exact nodup_singleton _
  · intro prompt hmem t ht prompt' hmem' t' ht' _
    rw [hprompt prompt hmem t ht, hprompt prompt' hmem' t' ht', eq_of_mem_replicate hmem,
      eq_of_mem_replicate hmem']
  · intro prompt hmem t ht prompt' hmem' t' ht' hne
    rw [hprompt prompt hmem t ht, hprompt prompt' hmem' t' ht'] at hne
    exact absurd rfl hne

def hashedTool : Record Empty :=
  [(nameKey, .str "t"), (descriptionKey, .str ['b']), (contentHashKey, .str ['h'])]

/-- The entry of the tool, in either form. -/
def hashedEntry (full : Bool) : Record Empty :=
  [(kindKey, .str toolKind), (keyKey, .str "tool:executor:t"), (hashKey, .str ['h']),
    (fullKey, .bool full), (catalogKey, .str "executor"), (nameKey, .str "t"),
    (inputSchemaKey, .obj []), (descriptionKey, .str ['b'])]

theorem hashedEntry_readable (full : Bool) : Readable plainEnv (hashedEntry full) := by
  have hkeys : ((hashedEntry full).map Prod.fst).Nodup := by
    cases full <;> decide +kernel
  have hstrings : ((Json.obj (hashedEntry full)).strings.all fun t =>
      t.all fun c => !Json.isBareBreak c) = true := by
    cases full <;> decide +kernel
  refine logRecords_entry plainEnv.lawful (Json.valid_obj_iff.mpr ⟨hkeys, ?_⟩) ?_
  · simp [hashedEntry, Json.Valid, Json.ValidFields]
  · intro t ht c hc
    have hbreak := List.all_eq_true.mp (List.all_eq_true.mp hstrings t ht) c hc
    rwa [Bool.not_eq_true'] at hbreak

theorem noStraddling_plain (tools : List (Record Empty)) (state : GateState Empty) :
    Step.NoStraddling plainEnv ⟨none, plainPrompt tools, state⟩ := by
  intro tool _ fragment _ hblank hin
  have hcombined : combinedText (plainPrompt tools).sessionText
      ((Step.call plainEnv ⟨none, plainPrompt tools, state⟩).index.verbatimCorpus plainEnv) = [] :=
    rfl
  rw [hcombined, infix_nil] at hin
  rw [hin] at hblank
  exact absurd rfl hblank

theorem hashedTool_schedule : ∃ steps,
    runSession plainEnv none [plainPrompt [hashedTool]] = some steps ∧
      ExposureSchedule plainEnv steps := by
  have hrun : (runSession plainEnv none [plainPrompt [hashedTool]]).isSome = true := by
    decide +kernel
  obtain ⟨steps, hsteps⟩ := isSome_iff_exists.mp hrun
  refine ⟨steps, hsteps, exposureSchedule_of_remembered (wellKeyed_plain hashedTool 1) hsteps ?_ ?_⟩
  · intro prompt hmem
    rw [mem_singleton.mp hmem]
    refine ⟨?_, ?_, ?_⟩
    · intro tool htool
      rw [mem_singleton.mp htool]
      decide +kernel
    · intro tool htool
      rw [mem_singleton.mp htool]
      decide +kernel
    · intro tool htool full entry hentry
      rw [mem_singleton.mp htool] at hentry
      have heq : ((plainPrompt [hashedTool]).call plainEnv none).entry plainEnv full hashedTool =
          some (hashedEntry full) := by
        cases full <;> rfl
      rw [heq] at hentry
      cases hentry
      exact hashedEntry_readable full
  · intro step hstep
    rw [runSession] at hsteps
    cases hprompt : (plainPrompt [hashedTool]).run plainEnv none with
    | none =>
      rw [hprompt] at hsteps
      cases hsteps
    | some result =>
      rw [hprompt] at hsteps
      cases hsteps
      rw [mem_singleton.mp hstep]
      exact noStraddling_plain [hashedTool] result.1

/-- A tool with a line separator in its description. -/
def brokenTool : Record Empty := [(nameKey, .str "t"), (descriptionKey, .str ['a', '\u2028', 'b'])]

def brokenKey : Text := "tool:executor:t"

/-- The entry of the tool is broken into two lines that read as nothing, so that the second prompt
injects the tool in skinny form again. -/
theorem brokenTool_injected_twice : ∃ steps,
    WellKeyed plainEnv [plainPrompt [brokenTool], plainPrompt [brokenTool]] ∧
      runSession plainEnv none [plainPrompt [brokenTool], plainPrompt [brokenTool]] = some steps ∧
        ¬ ExposureSchedule plainEnv steps := by
  have hrun : (runSession plainEnv none [plainPrompt [brokenTool], plainPrompt [brokenTool]]).map
      (fun steps => injections steps brokenKey) = some [false, false] := by
    decide +kernel
  obtain ⟨steps, hsteps, hinjections⟩ := map_eq_some_iff.mp hrun
  refine ⟨steps, wellKeyed_plain brokenTool 2, hsteps, ?_⟩
  intro h
  have honce := h.skinnyOnce brokenKey
  rw [hinjections] at honce
  exact absurd honce (by decide)

end ClearYourTools.Injection.SessionLog
