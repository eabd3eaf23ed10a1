import Mathlib.Logic.Equiv.List
import ClearYourTools.CytClient.Proofs.CatalogRecords

/-!
# The catalogs of a session follow the master catalog

After a prompt the gate reads the tools of the master catalog of that prompt: a stub leaves a bundle
of the same hash, and any other bundle is replaced. A catalog of which the master has no tools is
not written, so that an earlier one of its kind must not be there.
-/

namespace ClearYourTools.CytClient

open Misc CytMcp List Option
open Injection (Source)
open Injection.SessionLog
open Json (PyFormat noFloats Unbroken obj)

variable {φ : Type} {env : SessionEnv φ}

section

variable {kind : Source} {catalog tools : List (Record φ)} {hashes : List (Text × Text)}

inductive CatalogAnswer (env : SessionEnv φ) (hashes : List (Text × Text)) (kind : Source)
    (tools : List (Record φ)) : List (Record φ) → Prop
  | none (h : tools = []) : CatalogAnswer env hashes kind tools []
  | stub {cores : List (Record φ)} (hcores : tools.mapM (toolRecordCore env kind tools) =
        some cores) (hne : tools ≠ [])
      (h : hashes.lookup (catalogLogKey kind) = some (catalogBundleContentHash env kind cores)) :
      CatalogAnswer env hashes kind tools
        [buildToolCatalogStubEntry kind (catalogBundleContentHash env kind cores)]
  | full {cores : List (Record φ)} (hcores : tools.mapM (toolRecordCore env kind tools) =
        some cores) (hne : tools ≠ [])
      (h : hashes.lookup (catalogLogKey kind) ≠ some (catalogBundleContentHash env kind cores)) :
      CatalogAnswer env hashes kind tools [buildToolCatalogLogEntry env kind cores]

/-- The tools of a catalog, each with a record of its own. -/
structure Carried (p : PyFormat φ) (kind : Source) (tools : List (Record φ)) : Prop where
  valid : ∀ tool ∈ tools, (obj tool).Valid
  identified : ∀ tool ∈ tools, kind = .cytMcp →
    serverKeyOf p tool ≠ [] ∧ strippedText p tool toolNameKey ≠ []
  carried : ∀ tool ∈ tools, IsCarried p kind tools tool

theorem Carried.exists_cores {p : PyFormat φ} (h : Carried p kind tools) :
    ∃ cores, tools.mapM (toolRecordCore p kind tools) = some cores := by
  refine ⟨_, (mapM_eq_some_map_iff _ (fun tool => (toolRecordCore p kind tools tool).getD []) _).mpr
    fun tool htool => ?_⟩
  obtain ⟨core, hcore, -⟩ := exists_toolRecordCore (h.carried tool htool) (h.identified tool htool)
    h.valid htool
  rw [hcore]
  rfl

/-- The records of the tools. -/
structure IsCores (p : PyFormat φ) (kind : Source) (tools cores : List (Record φ)) : Prop where
  noHash : ∀ core ∈ cores, hashKey ∉ core.map Prod.fst
  valid : ∀ core ∈ cores, (obj core).Valid
  unbroken : ∀ core ∈ cores, Json.Strings Unbroken (.obj core)
  views : cores.map viewOf = tools.map (masterView p kind)

theorem Carried.isCores {p : PyFormat φ} (h : Carried p kind tools)
    {cores : List (Record φ)} (hcores : tools.mapM (toolRecordCore p kind tools) = some cores) :
    IsCores p kind tools cores := by
  have hspec : ∀ core ∈ cores, hashKey ∉ core.map Prod.fst ∧ (obj core).Valid ∧
      Json.Strings Unbroken (.obj core) := by
    intro core hcore
    obtain ⟨tool, htool, heq⟩ := mem_of_mapM hcores hcore
    obtain ⟨core', hcore', hhash, hvalid, hunbroken, -⟩ := exists_toolRecordCore
      (h.carried tool htool) (h.identified tool htool) h.valid htool
    rw [heq] at hcore'
    rw [Option.some.inj hcore']
    exact ⟨hhash, hvalid, hunbroken⟩
  have hviews : List.Forall₂ (fun tool core => tool ∈ tools ∧
      toolRecordCore p kind tools tool = some core) tools cores :=
    (forall₂_and_left _ _).mpr ⟨fun _ ht => ht, forall₂_of_mapM hcores⟩
  refine ⟨fun c hc => (hspec c hc).1, fun c hc => (hspec c hc).2.1, fun c hc => (hspec c hc).2.2,
    map_eq_of_forall₂ hviews fun tool core hcore => ?_⟩
  obtain ⟨core', hcore', -, -, -, hview⟩ := exists_toolRecordCore (h.carried tool hcore.1)
    (h.identified tool hcore.1) h.valid hcore.1
  rw [hcore.2] at hcore'
  rw [Option.some.inj hcore', hview]

theorem emitCatalog_spec (h : Carried env kind (toolsOfKind env catalog kind)) :
    ∃ answer, emitCatalog env hashes catalog kind = some answer ∧
      CatalogAnswer env hashes kind (toolsOfKind env catalog kind) answer := by
  obtain ⟨cores, hcores⟩ := h.exists_cores
  unfold emitCatalog
  dsimp only
  by_cases hnil : toolsOfKind env catalog kind = []
  · rw [hnil]
    exact ⟨[], rfl, .none rfl⟩
  have hnamed : (toolsOfKind env catalog kind).filter
      (toolHasCatalogName env kind) = toolsOfKind env catalog kind :=
    filter_eq_self.mpr fun tool htool => bne_iff_ne.mpr (h.carried tool htool).named
  have hbundle : bundleCores env kind (toolsOfKind env catalog kind) = some cores := by
    unfold bundleCores
    rw [hnamed, hcores]
  rw [if_neg fun hempty => hnil (List.isEmpty_iff.mp hempty), hbundle, map_some]
  split
  · rename_i hhash
    exact ⟨_, rfl, .stub hcores hnil hhash⟩
  · rename_i hhash
    exact ⟨_, rfl, .full hcores hnil hhash⟩

end

/-- The records of an entry that the gate reads. -/
def recordsOf (entry : Option (Record φ)) : List (Record φ) :=
  match entry.bind fun entry => Json.get? entry "tools" with
  | some (.arr tools) => tools.filterMap fun tool => dict? (some tool)
  | _ => []

theorem catalogTools_eq (catalogs : Catalogs φ) (kind : Source) :
    catalogTools catalogs kind.catalogName = recordsOf (catalogs.lookup (catalogLogKey kind)) := rfl

theorem recordsOf_catalogLogEntry (kind : Source) (hash : Text) (records : List (Record φ)) :
    recordsOf (some (catalogLogEntry kind hash records)) = records := by
  unfold recordsOf
  rw [bind_some, tools_catalogLogEntry]
  dsimp only
  rw [filterMap_map]
  exact filterMap_some

section

variable {kind : Source} {tools : List (Record φ)} {hashes : List (Text × Text)}
  {catalogs : Catalogs φ} {answer : List (Record φ)}

theorem map_viewOf_core (records : List (Record φ)) :
    (records.map catalogToolRecordCore).map viewOf = records.map viewOf := by
  rw [List.map_map]
  exact map_congr_left fun record _ => viewOf_core record

theorem views_of_hash (hsha : Function.Injective env.sha256) {entry : Record φ}
    (hentry : IsBundle env kind entry) {cores : List (Record φ)}
    (hvalid : ∀ core ∈ cores, (obj core).Valid)
    (hhash : fieldText env entry "hash" = catalogBundleContentHash env kind cores) :
    ((recordsOf (some entry)).map viewOf).Perm (cores.map viewOf) := by
  cases hentry with
  | @mk records cores' hne hcores hrecords hunbroken =>
    rw [hash_catalogLogEntry env.toPyFormat (bundleHash_ne_nil kind cores')] at hhash
    have hvalid' : ∀ core ∈ cores', (obj core).Valid := by
      intro core hcore
      obtain ⟨record, hrecord, rfl⟩ := List.mem_map.mp (hcores.mem_iff.mp hcore)
      exact (hrecords record hrecord).sublist filter_sublist
    have hsorted := perm_insertionSort (fun a b => recordLe env a b) cores
    have hviews := views_eq_of_bundleHash hsha hvalid'
      (fun core hcore => hvalid core (hsorted.mem_iff.mp hcore)) hhash
    rw [recordsOf_catalogLogEntry, ← map_viewOf_core]
    exact (hcores.map viewOf).symm.trans (hviews ▸ hsorted.map viewOf)

theorem core_of_hashed {core : Record φ} (h : hashKey ∉ core.map Prod.fst) (v : Json φ) :
    catalogToolRecordCore (core ++ [(hashKey, v)]) = core := by
  unfold catalogToolRecordCore
  have hkept : core.filter (fun kv => kv.1 != hashKey) = core := by
    refine filter_eq_self.mpr fun kv hkv => bne_iff_ne.mpr ?_
    rintro heq
    exact h (heq ▸ List.mem_map_of_mem hkv)
  rw [filter_append, hkept]
  exact List.append_nil core

theorem IsCores.isBundle (hhex : ∀ t, Unbroken (env.sha256 t)) {cores : List (Record φ)}
    (h : IsCores env kind tools cores) (hne : cores ≠ []) :
    IsBundle env kind (buildToolCatalogLogEntry env kind cores) ∧
      ((recordsOf (some (buildToolCatalogLogEntry env kind cores))).map viewOf).Perm
        (tools.map (masterView env kind)) := by
  have hback : (cores.map fun core => core ++ [(hashKey,
      (Json.str (bundleRecordHash env kind core)))]).map catalogToolRecordCore = cores := by
    rw [List.map_map]
    exact (map_congr_left fun core hcore => core_of_hashed (h.noHash core hcore) _).trans
      (List.map_id cores)
  unfold buildToolCatalogLogEntry
  constructor
  · refine .mk (fun hnil => hne (map_eq_nil_iff.mp hnil)) ?_ (fun record hrecord => ?_)
      (fun record hrecord => ?_)
    · rw [hback]
      exact perm_insertionSort _ cores
    · obtain ⟨core, hcore, rfl⟩ := List.mem_map.mp hrecord
      obtain ⟨hnodup, hvalues⟩ := Json.valid_obj_iff.mp (h.valid core hcore)
      rw [Json.valid_obj_iff, map_append]
      refine ⟨?_, fun kv hkv => ?_⟩
      · refine nodup_append.mpr ⟨hnodup, nodup_singleton _, fun k hk k' hk' heq => ?_⟩
        have hkey : k = hashKey := heq.trans (mem_singleton.mp hk')
        exact h.noHash core hcore (hkey ▸ hk)
      · rcases mem_append.mp hkv with hkv | hkv
        · exact hvalues kv hkv
        · obtain rfl := mem_singleton.mp hkv
          trivial
    · obtain ⟨core, hcore, rfl⟩ := List.mem_map.mp hrecord
      refine Json.strings_obj.mpr fun kv hkv => ?_
      rcases mem_append.mp hkv with hkv | hkv
      · exact Json.strings_obj.mp (h.unbroken core hcore) kv hkv
      · obtain rfl := mem_singleton.mp hkv
        exact ⟨Text.forall_not_of_any rfl, strings_str (hhex _)⟩
  · rw [recordsOf_catalogLogEntry, ← map_viewOf_core, hback, h.views]

/-- What of an answer is stored: nothing, where the catalog of the log shows the tools, or there are
none; or a bundle that shows them. -/
inductive StoredAnswer (env : SessionEnv φ) (catalogs : Catalogs φ) (kind : Source)
    (tools : List (Record φ)) : List (Record φ) → Prop
  | kept (h : tools ≠ [] → ((recordsOf (catalogs.lookup (catalogLogKey kind))).map viewOf).Perm
        (tools.map (masterView env kind))) : StoredAnswer env catalogs kind tools []
  | stored {entry : Record φ} (hentry : IsBundle env kind entry)
      (h : ((recordsOf (some entry)).map viewOf).Perm
        (tools.map (masterView env kind))) : StoredAnswer env catalogs kind tools [entry]

theorem isNewCatalog_catalogLogEntry {hash : Text} {records : List (Record φ)}
    (hne : records ≠ []) (hhash : hash ≠ []) {p : PyFormat φ}
    (hnew : ∀ existing, catalogs.lookup (catalogLogKey kind) = some existing →
      fieldText p existing "hash" ≠ hash) :
    isNewCatalog p catalogs (catalogLogEntry kind hash records) = true := by
  obtain ⟨record, records, rfl⟩ := exists_cons_of_ne_nil hne
  unfold isNewCatalog
  rw [if_neg (not_not_intro fieldIs_catalogLogEntry), tools_catalogLogEntry, map_cons]
  dsimp only
  rw [catalog_catalogLogEntry, if_neg (catalogName_ne_nil kind), hash_catalogLogEntry p hhash]
  cases hlookup : catalogs.lookup (catalogPrefix ++ kind.catalogName) with
  | none => rfl
  | some existing => exact bne_iff_ne.mpr (hnew existing hlookup)

theorem CatalogAnswer.stored (hsha : Function.Injective env.sha256)
    (hhex : ∀ t, Unbroken (env.sha256 t)) (hmatching : Matching env catalogs hashes)
    (hcarried : Carried env kind tools) (h : CatalogAnswer env hashes kind tools answer) :
    StoredAnswer env catalogs kind tools (answer.filter (isNewCatalog env catalogs)) := by
  cases h with
  | none hnil => exact .kept fun hne => absurd hnil hne
  | @stub cores hcores hne hhash =>
    have hcore := hcarried.isCores hcores
    refine .kept fun _ => ?_
    rw [hmatching.hash] at hhash
    obtain ⟨entry, hentry, hsame⟩ := map_eq_some_iff.mp hhash
    rw [hentry, ← hcore.views]
    exact views_of_hash hsha (hmatching.bundle kind entry hentry) hcore.valid hsame
  | @full cores hcores hne hhash =>
    have hcore := hcarried.isCores hcores
    have hcoresNe : cores ≠ [] := by
      rintro rfl
      exact hne (forall₂_nil_right_iff.mp (forall₂_of_mapM hcores))
    obtain ⟨hbundle, hshows⟩ := hcore.isBundle hhex hcoresNe
    have hnew : isNewCatalog env catalogs (buildToolCatalogLogEntry env kind cores) = true := by
      refine isNewCatalog_catalogLogEntry (fun hnil => hcoresNe (map_eq_nil_iff.mp hnil))
        (bundleHash_ne_nil kind _) fun existing hexisting heq => hhash ?_
      rw [hmatching.hash, hexisting, map_some, heq]
      rfl
    rw [filter_cons, hnew, filter_nil]
    exact .stored hbundle hshows

end

/-- An entry that is read back, and is a bundle if it is one of a catalog. -/
structure Loggable (env : SessionEnv φ) (entry : Record φ) : Prop where
  valid : (obj entry).Valid
  notMeta : isMeta entry = false
  unbroken : IsUnbroken entry
  bundle : fieldIs entry "kind" "tool_catalog" = true → ∃ kind, IsBundle env kind entry

section

variable {log : Option Text} {entries : List (Record φ)}

theorem IsBundle.loggable (hhex : ∀ t, Unbroken (env.sha256 t)) {kind : Source}
    {entry : Record φ} (h : IsBundle env kind entry) : Loggable env entry := by
  refine ⟨?_, ?_, ?_, fun _ => ⟨kind, h⟩⟩
  · cases h with | mk _ _ hvalid _ => exact valid_catalogLogEntry hvalid
  · cases h with | mk _ _ _ _ => rfl
  · cases h with | mk _ _ _ hunbroken => exact unbroken_catalogLogEntry (hhex _) hunbroken

theorem read_append (h : ∀ entry ∈ entries, Loggable env entry) (log agent : Option Text) :
    (readSessionLogFile env
      (appendSessionLog env log entries agent)).2 = (readSessionLogFile env log).2 ++ entries :=
  readSessionLogFile_readsBack env.lawful log agent fun e he =>
    ⟨(h e he).valid, (h e he).notMeta, (h e he).unbroken⟩

theorem CatalogLog.append (hlog : CatalogLog env log) (h : ∀ entry ∈ entries, Loggable env entry)
    (agent : Option Text) : CatalogLog env (appendSessionLog env log entries agent) := by
  unfold CatalogLog
  rw [read_append h]
  exact Bundles.append hlog fun entry hentry => (h entry hentry).bundle

theorem readLatestToolCatalogs_append (h : ∀ entry ∈ entries, Loggable env entry)
    (hkind : ∀ entry ∈ entries, fieldIs entry "kind" "compaction" = false) (agent : Option Text) :
    readLatestToolCatalogs env (appendSessionLog env log entries agent) =
      entries.foldl (addCatalog env) (readLatestToolCatalogs env log) := by
  unfold readLatestToolCatalogs readSessionLog
  rw [if_pos rfl, if_pos rfl, read_append h, entriesAfterLatestCompaction_append hkind, foldl_append]

end

theorem stateEntry_loggable (env : SessionEnv φ) (toolsInjectEnabled : Bool) :
    Loggable env (buildSessionStateEntry toolsInjectEnabled none none) := by
  have hnodup : [kindKey, keyKey, "tools_inject_enabled"].Nodup := by decide
  refine ⟨⟨hnodup, trivial, trivial, trivial, trivial⟩, rfl, ?_, fun h => (by cases h)⟩
  refine Json.strings_obj.mpr fun kv hkv => ?_
  rcases mem_cons.mp hkv with rfl | hkv
  · exact ⟨Text.forall_not_of_any rfl, strings_str (Text.forall_not_of_any rfl)⟩
  rcases mem_cons.mp hkv with rfl | hkv
  · exact ⟨Text.forall_not_of_any rfl, strings_str (Text.forall_not_of_any rfl)⟩
  obtain rfl := mem_singleton.mp hkv
  exact ⟨Text.forall_not_of_any rfl, fun s hs => (by cases hs)⟩

section

variable {catalogs : Catalogs φ} {tools stored : Source → List (Record φ)}

theorem StoredAnswer.mem {kind : Source} (h : StoredAnswer env catalogs kind (tools kind)
    (stored kind)) {entry : Record φ} (hentry : entry ∈ stored kind) : IsBundle env kind entry := by
  generalize stored kind = entries at h hentry
  cases h with
  | kept _ => cases hentry
  | stored hbundle _ =>
    obtain rfl := mem_singleton.mp hentry
    exact hbundle

theorem lookup_foldl_stored
    (hstored : ∀ kind, StoredAnswer env catalogs kind (tools kind) (stored kind))
    (kinds : List Source) (start : Catalogs φ) (kind : Source) :
    ((kinds.flatMap stored).foldl (addCatalog env) start).lookup (catalogLogKey kind) =
      if kind ∈ kinds then ((stored kind).head?).or (start.lookup (catalogLogKey kind))
      else start.lookup (catalogLogKey kind) := by
  induction kinds generalizing start with
  | nil => exact (if_neg not_mem_nil).symm
  | cons k kinds ih =>
    have hfirst : ((stored k).foldl (addCatalog env) start).lookup
        (catalogLogKey kind) = if kind = k then
          ((stored k).head?).or (start.lookup (catalogLogKey kind))
            else start.lookup (catalogLogKey kind) := by
      have hk := hstored k
      generalize stored k = entries at hk
      cases hk with
      | kept _ => exact (ite_self _).symm
      | stored hbundle _ => exact lookup_addCatalog hbundle start kind
    rw [flatMap_cons, foldl_append, ih, hfirst]
    by_cases hk : kind = k
    · subst hk
      rw [if_pos rfl, if_pos mem_cons_self]
      split
      · cases (stored kind).head? <;> rfl
      · rfl
    · rw [if_neg hk]
      by_cases hmem : kind ∈ kinds
      · rw [if_pos hmem, if_pos (mem_cons_of_mem _ hmem)]
      · rw [if_neg hmem, if_neg (not_mem_cons_of_ne_of_not_mem hk hmem)]

theorem mem_order (kind : Source) : kind ∈ Source.order := by
  cases kind <;> decide

end

variable (env) in
/-- The gate reads the tools of a master catalog, and none of a kind that it has no tools of. -/
def Converged (log : Option Text) (master : List (Record φ)) : Prop :=
  ∀ kind : Source, ((catalogTools (readLatestToolCatalogs env log)
    kind.catalogName).map viewOf).Perm ((toolsOfKind env master kind).map (masterView env kind))

variable (env) in
/-- The master catalog has tools with records of their own, and tools of every kind of which the log
has a catalog. -/
structure Carries (log : Option Text) (master : List (Record φ)) : Prop where
  carried : ∀ kind, ∀ tool ∈ toolsOfKind env master kind,
    IsCarried env kind (toolsOfKind env master kind) tool
  covers : ∀ kind : Source, toolsOfKind env master kind = [] →
    catalogTools (readLatestToolCatalogs env.toPyFormat log) kind.catalogName = []

section

variable {log : Option Text} {master : List (Record φ)}

theorem fieldIs_answer {hashes : List (Text × Text)} {kind : Source} {tools answer : List (Record φ)}
    (h : CatalogAnswer env hashes kind tools answer) :
    ∀ entry ∈ answer, fieldIs entry kindKey catalogEntryKind = true := by
  intro entry hentry
  cases h with
  | none _ => cases hentry
  | stub _ _ _ =>
    obtain rfl := mem_singleton.mp hentry
    rfl
  | full _ _ _ =>
    obtain rfl := mem_singleton.mp hentry
    rfl

theorem promptCatalogs_eq (hsha : Function.Injective env.sha256)
    (hhex : ∀ t, Unbroken (env.sha256 t)) (hlog : CatalogLog env log)
    (hcarried : ∀ kind, Carried env.toPyFormat kind (toolsOfKind env.toPyFormat master kind))
    (agent : Option Text) (toolsInjectEnabled : Bool) :
    ∃ stored : Source → List (Record φ),
      (∀ kind, StoredAnswer env (readLatestToolCatalogs env.toPyFormat log) kind
        (toolsOfKind env.toPyFormat master kind) (stored kind)) ∧
      promptCatalogs env log agent master toolsInjectEnabled = appendSessionLog env.toFloatFormat
          (appendSessionLog env.toFloatFormat log (Source.order.flatMap stored) agent)
          [buildSessionStateEntry toolsInjectEnabled none none] agent := by
  have hmatching := hlog.matching
  obtain ⟨answers, hanswers⟩ : ∃ answers : Source → List (Record φ), ∀ kind,
      emitCatalog env (readToolCatalogHashes env.toPyFormat log) master kind = some (answers kind) ∧
        CatalogAnswer env (readToolCatalogHashes env.toPyFormat log) kind
          (toolsOfKind env.toPyFormat master kind) (answers kind) :=
    Classical.skolem.mp fun kind => emitCatalog_spec (hcarried kind)
  refine ⟨fun kind => (answers kind).filter
    (isNewCatalog env.toPyFormat (readLatestToolCatalogs env.toPyFormat log)), fun kind =>
      (hanswers kind).2.stored hsha hhex hmatching (hcarried kind), ?_⟩
  have hall : Source.order.mapM
      (emitCatalog env (readToolCatalogHashes env.toPyFormat log) master) =
        some (Source.order.map answers) :=
    (mapM_eq_some_map_iff _ _ _).mpr fun kind _ => (hanswers kind).1
  have hcatalog : ∀ entry ∈ (Source.order.map answers).flatten,
      fieldIs entry kindKey catalogEntryKind = true := by
    intro entry hentry
    obtain ⟨answer, hanswer, hmem⟩ := mem_flatten.mp hentry
    obtain ⟨kind, -, rfl⟩ := List.mem_map.mp hanswer
    exact fieldIs_answer (hanswers kind).2 entry hmem
  have hstate : fieldIs (buildSessionStateEntry toolsInjectEnabled none none : Record φ) kindKey
      catalogEntryKind = false := rfl
  unfold promptCatalogs emitToolCatalogSessionLog
  rw [hmatching.payload, hall, map_some]
  unfold storeAnswer appendToolCatalogEntries
  dsimp only
  have hcatalogs : (buildSessionStateEntry toolsInjectEnabled none none ::
      (Source.order.map answers).flatten).filter
        (fun entry => fieldIs entry kindKey catalogEntryKind) =
          (Source.order.map answers).flatten := by
    rw [filter_cons, hstate]
    exact filter_eq_self.mpr hcatalog
  have hothers : (buildSessionStateEntry toolsInjectEnabled none none ::
      (Source.order.map answers).flatten).filter
        (fun entry => !fieldIs entry kindKey catalogEntryKind) =
          [buildSessionStateEntry toolsInjectEnabled none none] := by
    rw [filter_cons_of_pos (by rw [hstate]; rfl), filter_eq_nil_iff.mpr]
    intro entry hentry
    rw [hcatalog entry hentry]
    exact Bool.false_ne_true
  rw [hcatalogs, hothers, filter_flatten, List.map_map, flatMap_def]
  rfl

theorem promptCatalogs_spec (hsha : Function.Injective env.sha256)
    (hhex : ∀ t, Unbroken (env.sha256 t)) (hlog : CatalogLog env log)
    (hcarried : ∀ kind, Carried env kind (toolsOfKind env master kind))
    (hcovers : ∀ kind : Source, toolsOfKind env master kind = [] →
      catalogTools (readLatestToolCatalogs env.toPyFormat log) kind.catalogName = [])
    (agent : Option Text) (toolsInjectEnabled : Bool) :
    CatalogLog env (promptCatalogs env log agent master toolsInjectEnabled) ∧
      Converged env (promptCatalogs env log agent master toolsInjectEnabled) master := by
  obtain ⟨stored, hstored, heq⟩ := promptCatalogs_eq hsha hhex hlog hcarried agent
    toolsInjectEnabled
  have hbundle : ∀ entry ∈ Source.order.flatMap stored, ∃ kind, IsBundle env kind entry := by
    intro entry hentry
    obtain ⟨kind, -, hmem⟩ := mem_flatMap.mp hentry
    exact ⟨kind, (hstored kind).mem hmem⟩
  have hloggable : ∀ entry ∈ Source.order.flatMap stored, Loggable env entry := by
    intro entry hentry
    obtain ⟨kind, hkind⟩ := hbundle entry hentry
    exact hkind.loggable hhex
  have hnoMarker : ∀ entry ∈ Source.order.flatMap stored,
      fieldIs entry "kind" "compaction" = false := by
    intro entry hentry
    obtain ⟨kind, hkind⟩ := hbundle entry hentry
    cases hkind with | mk _ _ _ _ => rfl
  have hstate : ∀ entry ∈ [buildSessionStateEntry toolsInjectEnabled none none],
      Loggable env entry :=
    forall_mem_singleton.mpr (stateEntry_loggable env toolsInjectEnabled)
  rw [heq]
  refine ⟨(hlog.append hloggable agent).append hstate agent, fun kind => ?_⟩
  rw [catalogTools_eq, readLatestToolCatalogs_append hstate
    (forall_mem_singleton.mpr rfl), readLatestToolCatalogs_append hloggable hnoMarker,
    foldl_cons, foldl_nil, addCatalog_other rfl, lookup_foldl_stored hstored,
    if_pos (mem_order kind)]
  have hkind := hstored kind
  generalize stored kind = entries at hkind
  cases hkind with
  | kept hkept =>
    by_cases hnil : toolsOfKind env master kind = []
    · have hnone := hcovers kind hnil
      rw [catalogTools_eq] at hnone
      rw [hnil]
      change ((recordsOf (List.lookup _ _)).map viewOf).Perm []
      rw [hnone]
      exact List.Perm.refl _
    · exact hkept hnil
  | stored _ hshows => exact hshows

end

section

variable {log : Option Text}

theorem mem_placeRecord {p : PyFormat φ} {toolName : Text} {record r : Record φ}
    {items : List (Record φ)} (h : r ∈ placeRecord p toolName record items) :
    r = record ∨ r ∈ items := by
  induction items with
  | nil => exact .inl (mem_singleton.mp h)
  | cons item items ih =>
    rw [placeRecord] at h
    split at h
    · rcases mem_cons.mp h with h | h
      · exact .inl h
      · exact .inr (mem_cons_of_mem _ h)
    · rcases mem_cons.mp h with rfl | h
      · exact .inr mem_cons_self
      · exact (ih h).imp_right (mem_cons_of_mem _)

theorem placeRecord_ne_nil (p : PyFormat φ) (toolName : Text) (record : Record φ)
    (items : List (Record φ)) : placeRecord p toolName record items ≠ [] := by
  cases items with
  | nil => exact cons_ne_nil _ _
  | cons item items =>
    rw [placeRecord]
    split <;> exact cons_ne_nil _ _

theorem perm_canonicalToolsSorted (p : PyFormat φ) (tools : List (Record φ)) :
    (canonicalToolsSorted p tools).Perm tools := perm_insertionSort _ tools

theorem CatalogLog.records (hlog : CatalogLog env log) (kind : Source) :
    ∀ record ∈ catalogTools (readLatestToolCatalogs env.toPyFormat log) kind.catalogName,
      (obj record).Valid ∧ IsUnbroken record := by
  intro record hrecord
  rw [catalogTools_eq] at hrecord
  cases hentry : (readLatestToolCatalogs env.toPyFormat log).lookup (catalogLogKey kind) with
  | none =>
    rw [hentry] at hrecord
    cases hrecord
  | some entry =>
    rw [hentry] at hrecord
    cases hlog.matching.bundle kind entry hentry with
    | mk hne hcores hvalid hunbroken =>
      rw [recordsOf_catalogLogEntry] at hrecord
      exact ⟨hvalid record hrecord, hunbroken record hrecord⟩

theorem CatalogLog.capture (hlog : CatalogLog env log) (hhex : ∀ t, Unbroken (env.sha256 t))
    (configured : List Text) (agent : Option Text) {toolName : Text} {definition : Record φ}
    (hvalid : (obj definition).Valid)
    (hunbroken : IsUnbroken (capturedRecord env toolName definition)) :
    CatalogLog env (persistCytMcpSearchResult env configured log agent toolName definition) := by
  unfold persistCytMcpSearchResult mergeToolIntoCytMcpCatalog
  cases hrecord : toolRecordForCatalog env configured toolName definition with
  | none => exact hlog
  | some record =>
    obtain ⟨placed, hplaced⟩ : ∃ placed, placed = placeRecord env toolName record
        (catalogTools (readLatestToolCatalogs env log) cytMcpCatalog) := ⟨_, rfl⟩
    have hrecords : ∀ r ∈ placed, (obj r).Valid ∧ IsUnbroken r := by
      intro r hr
      rw [hplaced] at hr
      obtain rfl | hr := mem_placeRecord hr
      · exact toolRecordForCatalog_spec hhex hvalid hunbroken hrecord
      · exact hlog.records .cytMcp r hr
    have hne : placed ≠ [] := hplaced ▸ placeRecord_ne_nil _ _ _ _
    have hsorted := perm_canonicalToolsSorted env placed
    have hbundle : IsBundle env .cytMcp (buildCytMcpCatalogEntry env placed) := by
      unfold buildCytMcpCatalogEntry
      refine .mk (fun hnil => hne (perm_nil.mp (hnil ▸ hsorted.symm))) ?_
        (fun r hr => (hrecords r (hsorted.mem_iff.mp hr)).1)
        (fun r hr => (hrecords r (hsorted.mem_iff.mp hr)).2)
      exact (perm_canonicalToolsSorted env.toPyFormat _).trans (hsorted.symm.map _)
    rw [map_some, ← hplaced]
    dsimp only
    unfold appendToolCatalogEntries
    refine hlog.append (fun entry hentry => ?_) agent
    obtain rfl := mem_singleton.mp (mem_of_mem_filter hentry)
    exact hbundle.loggable hhex

theorem marker_loggable (env : SessionEnv φ) {payload : Record φ} (hvalid : (obj payload).Valid)
    (hunbroken : IsUnbroken payload) : Loggable env (buildCompactionEntry payload) := by
  have hnodup : [kindKey, keyKey, "payload"].Nodup := by decide
  refine ⟨⟨hnodup, trivial, trivial, hvalid, trivial⟩, rfl, ?_, fun h => (by cases h)⟩
  refine Json.strings_obj.mpr fun kv hkv => ?_
  rcases mem_cons.mp hkv with rfl | hkv
  · exact ⟨Text.forall_not_of_any rfl, strings_str (Text.forall_not_of_any rfl)⟩
  rcases mem_cons.mp hkv with rfl | hkv
  · exact ⟨Text.forall_not_of_any rfl, strings_str (Text.forall_not_of_any rfl)⟩
  obtain rfl := mem_singleton.mp hkv
  exact ⟨Text.forall_not_of_any rfl, hunbroken⟩

end

namespace SyncSession

variable (session : SyncSession φ)

/-- What an event needs for the catalogs to follow: a prompt, a master catalog that carries over,
and other events, texts that the log gives back. -/
def InSync (log : Option Text) : SyncEvent session.env.toPyFormat → Prop
  | .prompt master _ => Carries session.env log (master.map MasterTool.record)
  | .compaction payload => IsUnbroken payload.1
  | .capture toolName definition =>
    IsUnbroken (capturedRecord session.env toolName definition.1)

variable (events : List (SyncEvent session.env.toPyFormat))

/-- Every event of a session is in sync when it happens. -/
def AllInSync : Prop :=
  ∀ before event after, events = before ++ event :: after →
    session.InSync (session.run before) event

/-- After every prompt the gate reads the tools of its master catalog. -/
def Converges : Prop :=
  ∀ before master toolsInjectEnabled after,
    events = before ++ .prompt master toolsInjectEnabled :: after →
      Converged session.env (session.run (before ++ [.prompt master toolsInjectEnabled]))
        (master.map MasterTool.record)

variable {session}

theorem carried_of_carries {log : Option Text} {master : List (MasterTool session.env)}
    (h : Carries session.env log (master.map MasterTool.record)) (kind : Source) :
    Carried session.env.toPyFormat kind
      (toolsOfKind session.env.toPyFormat (master.map MasterTool.record) kind) := by
  have hmem : ∀ tool ∈ toolsOfKind session.env (master.map MasterTool.record) kind,
      ∃ masterTool : MasterTool session.env, masterTool.record = tool ∧
        catalogKindOf session.env tool = kind := by
    intro tool htool
    obtain ⟨hmap, hkind⟩ := mem_filter.mp htool
    obtain ⟨masterTool, -, rfl⟩ := List.mem_map.mp hmap
    exact ⟨masterTool, rfl, of_decide_eq_true hkind⟩
  refine ⟨fun tool htool => ?_, fun tool htool hcyt => ?_, h.carried kind⟩
  · obtain ⟨masterTool, rfl, -⟩ := hmem tool htool
    exact masterTool.valid
  · obtain ⟨masterTool, rfl, hkind⟩ := hmem tool htool
    exact masterTool.identified (hkind.trans hcyt)

theorem step_spec (hsha : Function.Injective session.env.sha256)
    (hhex : ∀ t, Unbroken (session.env.sha256 t)) {log : Option Text}
    (hlog : CatalogLog session.env log) (event : SyncEvent session.env)
    (h : session.InSync log event) :
    CatalogLog session.env (session.step log event) ∧
      ∀ master toolsInjectEnabled, event = .prompt master toolsInjectEnabled →
        Converged session.env (session.step log event) (master.map MasterTool.record) := by
  cases event with
  | prompt master toolsInjectEnabled =>
    obtain ⟨hkept, hconverged⟩ := promptCatalogs_spec hsha hhex hlog (carried_of_carries h)
      h.covers session.agent toolsInjectEnabled
    refine ⟨hkept, fun master' _ heq => ?_⟩
    rw [← (SyncEvent.prompt.inj heq).1]
    exact hconverged
  | compaction payload =>
    refine ⟨hlog.append (forall_mem_singleton.mpr (marker_loggable _ payload.2 h)) _,
      fun _ _ heq => (by cases heq)⟩
  | capture toolName definition =>
    exact ⟨hlog.capture hhex _ _ definition.2 h, fun _ _ heq => (by cases heq)⟩

theorem run_concat (event : SyncEvent session.env) :
    session.run (events ++ [event]) = session.step (session.run events) event :=
  foldl_concat session.step none event events

theorem catalogLog_run (hsha : Function.Injective session.env.sha256)
    (hhex : ∀ t, Unbroken (session.env.sha256 t)) {events : List (SyncEvent session.env.toPyFormat)}
    (h : session.AllInSync events) : CatalogLog session.env (session.run events) := by
  induction events using List.reverseRecOn with
  | nil => exact fun _ hentry => (by cases hentry)
  | append_singleton events event ih =>
    have hbefore : session.AllInSync events := by
      rintro before event' after rfl
      exact h before event' (after ++ [event]) (List.append_assoc ..)
    rw [run_concat]
    exact (step_spec hsha hhex (ih hbefore) event (h events event [] rfl)).1

/-- In a session whose events are in sync, the catalogs follow every prompt. -/
theorem converges (hsha : Function.Injective session.env.sha256)
    (hhex : ∀ t, Unbroken (session.env.sha256 t))
    {events : List (SyncEvent session.env.toPyFormat)} (h : session.AllInSync events) :
    session.Converges events := by
  rintro before master toolsInjectEnabled after rfl
  have hbefore : session.AllInSync before := by
    rintro earlier event later rfl
    exact h earlier event _ (List.append_assoc ..)
  rw [run_concat]
  exact (step_spec hsha hhex (catalogLog_run hsha hhex hbefore) _ (h before _ after rfl)).2 _ _ rfl

end SyncSession

/-- An environment with a digest, for tools that have their schemas. -/
def digestEnv (digest : Text → Text) (hstrip : ∀ t, (digest t).strip = digest t)
    (hne : ∀ t, digest t ≠ []) : SessionEnv Empty where
  toPyFormat := noFloats
  usesMcpcToolCatalog := false
  sha256 := digest
  toolDetails _ := []
  examplesBlock _ := []
  mcpcSchemaBody _ := .obj []
  cliExample _ _ _ := []
  minimizeJsonSingleQuotes _ := []
  pickFullestInputSchema _ := []
  skillFragment _ := []
  resourceFragment _ := []
  lawful := Json.noFloats_lawful
  sha256_strip := hstrip
  sha256_ne_nil := hne

variable (t : Text)

/-- A digest of its own for every text. -/
def countDigest : Text := List.replicate (Encodable.encode (t.map Char.toNat) + 1) 'a'

theorem countDigest_injective : Function.Injective countDigest := by
  intro t u h
  have hlength := congrArg List.length h
  rw [countDigest, countDigest, length_replicate, length_replicate] at hlength
  have hcodes := Encodable.encode_injective (Nat.succ.inj hlength)
  exact map_injective_iff.mpr (fun _ _ => Char.toNat_inj.mp) hcodes

theorem countDigest_strip : (countDigest t).strip = countDigest t := by
  have hhead : (countDigest t).head? = some 'a' := rfl
  have hlast : (countDigest t).getLast? = some 'a' := by
    rw [countDigest, replicate_succ', getLast?_concat]
  exact (Text.stripped_of_ends ⟨by rw [hhead]; rfl, by rw [hlast]; rfl⟩).strip

theorem countDigest_unbroken : Unbroken (countDigest t) := by
  intro c hc
  rw [eq_of_mem_replicate hc]
  rfl

def readTool : Record Empty :=
  [(nameKey, .str "fs_read"), (serverKeyKey, .str "fs"),
    (toolNameKey, .str "read"), (catalogSourceKey, .str "cyt_mcp"),
    (descriptionKey, .str "Read a file"),
    (inputSchemaKey, .obj [("properties", .obj [("path", .obj [])])])]

theorem valid_readTool : (obj readTool).Valid := by
  have hkeys : [nameKey, serverKeyKey, toolNameKey, catalogSourceKey, descriptionKey,
      inputSchemaKey].Nodup := by decide
  refine ⟨hkeys, trivial, trivial, trivial, trivial, trivial, ?_, trivial⟩
  exact ⟨nodup_singleton _, ⟨nodup_singleton _, ⟨nodup_nil, trivial⟩, trivial⟩, trivial⟩

def readMasterTool : MasterTool noFloats where
  record := readTool
  valid := valid_readTool
  identified := fun _ => ⟨by decide, by decide⟩

/-- A session without configured servers. -/
def countSession : SyncSession Empty :=
  ⟨digestEnv countDigest countDigest_strip fun _ => List.cons_ne_nil _ _, [], none⟩

theorem isCarried_readTool : IsCarried noFloats .cytMcp [readTool] readTool where
  named := by decide
  ownName := fun _ _ => rfl
  ownSchema := rfl
  unbrokenName := Text.forall_not_of_any rfl
  unbrokenSchema := by
    intro t ht
    have hall : ∀ t ∈ ["properties".toList, "path".toList], t.any Json.isBareBreak = false := by
      decide
    exact Text.forall_not_of_any (hall t ht)
  unbrokenDescription := Text.forall_not_of_any rfl
  unbrokenSession := fun h => (by cases h)

theorem firstPrompt_converges : countSession.Converges [.prompt [readMasterTool] true] := by
  refine SyncSession.converges countDigest_injective countDigest_unbroken ?_
  intro before event after heq
  obtain ⟨rfl, hevent⟩ : before = [] ∧ event = .prompt [readMasterTool] true := by
    cases before with
    | nil => exact ⟨rfl, (List.cons.inj heq).1.symm⟩
    | cons e before =>
      have hnil := (List.cons.inj heq).2
      exact absurd hnil.symm (append_ne_nil_of_right_ne_nil _ (cons_ne_nil _ _))
  rw [hevent]
  refine ⟨fun kind tool htool => ?_, fun kind _ => (by cases kind <;> rfl)⟩
  cases kind with
  | cytMcp =>
    obtain rfl := mem_singleton.mp htool
    exact isCarried_readTool
  | _ => cases htool

/-- A session with the text itself as its digest. -/
def textSession : SyncSession Empty :=
  ⟨digestEnv (fun t => '#' :: (t ++ ['#'])) Text.strip_marked Text.marked_ne_nil, [], none⟩

/-- After a prompt without tools the gate still reads those of the prompt before. -/
theorem emptyPrompt_kept :
    ¬ textSession.Converges [.prompt [readMasterTool] true, .prompt [] true] := by
  intro h
  have hperm := h [.prompt [readMasterTool] true] [] true [] rfl .cytMcp
  have hlength := hperm.length_eq
  rw [length_map, length_map] at hlength
  have hread : (catalogTools (readLatestToolCatalogs textSession.env.toPyFormat (textSession.run
      [.prompt [readMasterTool] true, .prompt [] true])) Source.cytMcp.catalogName).length = 1 := by
    decide +kernel
  exact absurd (hread.symm.trans hlength) Nat.one_ne_zero

end ClearYourTools.CytClient
