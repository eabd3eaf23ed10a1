import ClearYourTools.CytClient.SessionCapture
import ClearYourTools.Injection.Proofs.LoggedEntries
import ClearYourTools.Misc.Mapped

/-!
# Records of a master catalog

The record of a tool shows its name, its schema, its description and its session, where the tool
has a name and its name and schema are its own.
-/

namespace ClearYourTools.CytClient

open Misc List Option
open Injection (Source)
open Injection.SessionLog
open Json (get? PyFormat Unbroken strOr obj strings_obj get?_append)
open Prod (fst)

variable {φ : Type} {env : SessionEnv φ}

/-- An entry of a catalog with the hash of its records. -/
inductive IsBundle (env : SessionEnv φ) (kind : Source) : Record φ → Prop
  | mk {records cores : List (Record φ)} (hne : records ≠ [])
      (hcores : cores.Perm (records.map catalogToolRecordCore))
      (hvalid : ∀ r ∈ records, (obj r).Valid)
      (hunbroken : ∀ r ∈ records, Json.Strings Unbroken (.obj r)) :
      IsBundle env kind (catalogLogEntry kind (bundleHash env kind cores) records)

theorem catalogLogKey_strip (kind : Source) : (catalogLogKey kind).strip = catalogLogKey kind := by
  cases kind <;> rfl

theorem catalogName_ne_nil (kind : Source) : kind.catalogName ≠ [] := by
  cases kind <;> exact cons_ne_nil _ _

theorem catalogLogKey_ne_nil (kind : Source) : catalogLogKey kind ≠ [] :=
  append_ne_nil_of_right_ne_nil _ (catalogName_ne_nil kind)

variable {kind : Source}

theorem catalogLogKey_inj {kind' : Source} :
    catalogLogKey kind = catalogLogKey kind' ↔ kind = kind' := by
  refine ⟨fun h => ?_, fun h => h ▸ rfl⟩
  have hname := append_cancel_left h
  cases kind <;> cases kind' <;> first | rfl | (revert hname; decide)

section

variable {kind : Source} {hash : Text} {records : List (Record φ)}

theorem fieldIs_catalogLogEntry :
    fieldIs (catalogLogEntry kind hash records) "kind" "tool_catalog" = true := rfl

variable (p : PyFormat φ)

theorem hash_catalogLogEntry (hhash : hash ≠ []) :
    fieldText p (catalogLogEntry kind hash records) "hash" = hash := by
  obtain ⟨c, t, rfl⟩ := exists_cons_of_ne_nil hhash
  rfl

theorem catalog_catalogLogEntry :
    (fieldText p (catalogLogEntry kind hash records) "catalog").strip = kind.catalogName := by
  cases kind <;> rfl

theorem key_catalogLogEntry (d : Text) :
    (strOr p (catalogLogEntry kind hash records) "key" d).strip = catalogLogKey kind := by
  cases kind <;> rfl

theorem tools_catalogLogEntry :
    get? (catalogLogEntry kind hash records) "tools" = some (.arr (records.map .obj)) := rfl

theorem valid_catalogLogEntry (h : ∀ r ∈ records, (obj r).Valid) :
    (obj (catalogLogEntry kind hash records)).Valid := by
  have hnodup : [kindKey, keyKey, catalogKey, hashKey, bundleToolsKey].Nodup := by decide
  refine ⟨hnodup, trivial, trivial, trivial, trivial, ?_, trivial⟩
  apply Json.validItems_iff.mpr
  intro v hv
  obtain ⟨r, hr, rfl⟩ := List.mem_map.mp hv
  exact h r hr

theorem unbroken_catalogLogEntry (hhash : Unbroken hash)
    (h : ∀ r ∈ records, Json.Strings Unbroken (.obj r)) :
    Json.Strings Unbroken (.obj (catalogLogEntry kind hash records)) := by
  have hstr : ∀ {s : Text}, Unbroken s → Json.Strings Unbroken (.str s : Json φ) := by
    intro s hs t ht
    obtain rfl := mem_singleton.mp ht
    exact hs
  have hname : Unbroken kind.catalogName := by
    cases kind <;> exact Text.forall_not_of_any rfl
  have hkey : Unbroken (catalogLogKey kind) := by
    cases kind <;> exact Text.forall_not_of_any rfl
  have hk : ∀ k ∈ [kindKey, keyKey, catalogKey, hashKey, bundleToolsKey],
      k.any Json.isBareBreak = false := by decide
  refine strings_obj.mpr fun kv hkv => ?_
  refine ⟨Text.forall_not_of_any (hk kv.1 (List.mem_map_of_mem hkv)), ?_⟩
  rcases mem_cons.mp hkv with rfl | hkv
  · exact hstr (Text.forall_not_of_any rfl)
  rcases mem_cons.mp hkv with rfl | hkv
  · exact hstr hkey
  rcases mem_cons.mp hkv with rfl | hkv
  · exact hstr hname
  rcases mem_cons.mp hkv with rfl | hkv
  · exact hstr hhash
  obtain rfl := mem_singleton.mp hkv
  refine Json.strings_arr.mpr fun v hv => ?_
  obtain ⟨r, hr, rfl⟩ := List.mem_map.mp hv
  exact h r hr

end

theorem bundleHash_ne_nil (kind : Source) (cores : List (Record φ)) :
    bundleHash env kind cores ≠ [] := env.sha256_ne_nil _

theorem bundleHash_strip (kind : Source) (cores : List (Record φ)) :
    (bundleHash env kind cores).strip = bundleHash env kind cores := env.sha256_strip _

/-- The name, the schema, the description and the session of a record. -/
def viewOf (record : Record φ) : List (Option (Json φ)) :=
  [nameKey, inputSchemaKey, descriptionKey, mcpcSessionKey].map fun key =>
    (get? record key).map sortKeys

theorem viewOf_core (record : Record φ) :
    viewOf (catalogToolRecordCore record) = viewOf record := by
  have hkeys : ∀ key ∈ [nameKey, inputSchemaKey, descriptionKey, mcpcSessionKey],
      (key != hashKey) = true := by decide
  refine map_congr_left fun key hkey => ?_
  have hget := Json.get?_filter_key record (fun k => k != hashKey) key
  rw [if_pos (hkeys key hkey)] at hget
  exact congrArg _ hget

theorem viewOf_eq_of_sortKeys {r r' : Record φ} (h : sortKeys (.obj r) = sortKeys (.obj r')) :
    viewOf r = viewOf r' := by
  rw [sortKeys, sortKeys] at h
  refine map_congr_left fun key _ => ?_
  rw [← get?_sortKeysFields, ← get?_sortKeysFields, obj.inj h]

theorem valid_bundlePayload {records : List (Record φ)} (h : ∀ r ∈ records, (obj r).Valid) :
    (bundlePayload kind records).Valid := by
  have hnodup : [catalogKey, bundleToolsKey].Nodup := by decide
  refine ⟨hnodup, trivial, ?_, trivial⟩
  apply Json.validItems_iff.mpr
  intro v hv
  obtain ⟨r, hr, rfl⟩ := List.mem_map.mp hv
  exact h r hr

theorem views_eq_of_bundleHash (hsha : Function.Injective env.sha256)
    {cores cores' : List (Record φ)} (hvalid : ∀ r ∈ cores, (obj r).Valid)
    (hvalid' : ∀ r ∈ cores', (obj r).Valid)
    (h : bundleHash env kind cores = bundleHash env kind cores') :
    cores.map viewOf = cores'.map viewOf := by
  have hsorted := sortKeys_eq_of_dumps env.lawful (valid_bundlePayload hvalid)
    (valid_bundlePayload hvalid') (hsha h)
  have hitems : cores.map (fun r => sortKeys (.obj r)) = cores'.map fun r => sortKeys (.obj r) := by
    unfold bundlePayload at hsorted
    rw [sortKeys, sortKeys] at hsorted
    have hget := congrArg (fun fields => get? fields bundleToolsKey) (obj.inj hsorted)
    rw [get?_sortKeysFields, get?_sortKeysFields] at hget
    have htools := Option.some.inj hget
    rw [sortKeys, sortKeys, sortKeysItems_eq, sortKeysItems_eq, List.map_map, List.map_map]
      at htools
    exact Json.arr.inj htools
  have hsame : List.Forall₂ (fun r r' : Record φ => sortKeys (.obj r) = sortKeys (.obj r'))
      cores cores' := by
    rw [← forall₂_eq_eq_eq, forall₂_map_left_iff, forall₂_map_right_iff] at hitems
    exact hitems
  exact (map_eq_of_forall₂ hsame fun _ _ hr => (viewOf_eq_of_sortKeys hr).symm).symm

/-- Every catalog among the entries is a bundle. -/
def Bundles (env : SessionEnv φ) (entries : List (Record φ)) : Prop :=
  ∀ entry ∈ entries, fieldIs entry "kind" "tool_catalog" = true →
    ∃ kind, IsBundle env kind entry

variable {entries : List (Record φ)}

theorem Bundles.append {entries' : List (Record φ)} (h : Bundles env entries)
    (h' : Bundles env entries') : Bundles env (entries ++ entries') := by
  intro entry hentry
  rcases mem_append.mp hentry with hentry | hentry
  · exact h entry hentry
  · exact h' entry hentry

theorem Bundles.entriesAfterLatestCompaction (h : Bundles env entries) :
    Bundles env (entriesAfterLatestCompaction entries) := by
  intro entry hentry
  refine h entry ?_
  have hmem := ( takeWhile_prefix _).subset (mem_reverse.mp hentry)
  exact mem_reverse.mp hmem

theorem lookup_setEntries_text {α : Type} (k k' : Text) (v : α) (es : List (Text × α)) :
    (Dict.setEntries k v es).lookup k' = if k' = k then some v else es.lookup k' := by
  induction es with
  | nil =>
    rw [Dict.setEntries, lookup_cons]
    by_cases h : k' = k
    · rw [h, beq_self_eq_true, if_pos rfl]
    · rw [beq_false_of_ne h, if_neg h]
  | cons kv es ih =>
    obtain ⟨key, w⟩ := kv
    rw [Dict.setEntries]
    by_cases hkey : key = k
    · rw [if_pos hkey, lookup_cons, lookup_cons, hkey]
      by_cases h : k' = k
      · rw [h, beq_self_eq_true, if_pos rfl]
      · rw [beq_false_of_ne h, if_neg h]
    · rw [if_neg hkey, lookup_cons, lookup_cons, ih]
      by_cases h : k' = key
      · rw [h, beq_self_eq_true]
        exact (if_neg hkey).symm
      · rw [beq_false_of_ne h]

theorem lookup_setCatalog {α : Type} (kind kind' : Source) (v : α) (es : List (Text × α)) :
    (Dict.setEntries (catalogLogKey kind) v
      (Dict.setEntries (catalogLogKey kind) v es)).lookup (catalogLogKey kind') =
        if kind' = kind then some v else es.lookup (catalogLogKey kind') := by
  rw [lookup_setEntries_text, lookup_setEntries_text]
  by_cases h : kind' = kind
  · rw [if_pos (catalogLogKey_inj.mpr h), if_pos h]
  · have hkey : catalogLogKey kind' ≠ catalogLogKey kind := fun heq => h (catalogLogKey_inj.mp heq)
    rw [if_neg hkey, if_neg hkey, if_neg h]

section

variable {kind : Source} {entry : Record φ}

theorem lookup_addCatalog (h : IsBundle env kind entry) (catalogs : Catalogs φ) (kind' : Source) :
    (addCatalog env catalogs entry).lookup (catalogLogKey kind') =
      if kind' = kind then some entry else catalogs.lookup (catalogLogKey kind') := by
  cases h with
  | @mk records cores hne hcores hvalid hunbroken =>
    obtain ⟨r, rs, rfl⟩ := exists_cons_of_ne_nil hne
    unfold addCatalog
    rw [if_neg (not_not_intro fieldIs_catalogLogEntry), tools_catalogLogEntry, map_cons]
    dsimp only
    rw [catalog_catalogLogEntry, key_catalogLogEntry, if_neg (catalogLogKey_ne_nil kind),
      if_neg (catalogName_ne_nil kind)]
    exact lookup_setCatalog kind kind' _ catalogs

theorem addCatalog_other (h : fieldIs entry "kind" "tool_catalog" = false)
    (p : PyFormat φ) (catalogs : Catalogs φ) : addCatalog p catalogs entry = catalogs := by
  unfold addCatalog
  rw [if_pos (Bool.eq_false_iff.mp h)]

theorem addCatalogHash_bundle (h : IsBundle env kind entry) (hashes : List (Text × Text)) :
    addCatalogHash env hashes entry =
      Dict.setEntries (catalogLogKey kind) (fieldText env entry "hash")
        (Dict.setEntries (catalogLogKey kind) (fieldText env entry "hash") hashes) := by
  cases h with
  | @mk records cores hne hcores hvalid hunbroken =>
    have hget : get? (catalogLogEntry kind (bundleHash env kind cores) records)
        "hash" = some (.str (bundleHash env kind cores)) := rfl
    unfold addCatalogHash
    rw [if_neg (not_not_intro fieldIs_catalogLogEntry), hget,
      hash_catalogLogEntry env.toPyFormat (bundleHash_ne_nil kind cores)]
    dsimp only
    rw [bundleHash_strip, if_neg (bundleHash_ne_nil kind cores), catalog_catalogLogEntry,
      key_catalogLogEntry, if_neg (catalogLogKey_ne_nil kind), if_neg (catalogName_ne_nil kind)]
    rfl

theorem addCatalogHash_other (h : fieldIs entry "kind" "tool_catalog" = false) (p : PyFormat φ)
    (hashes : List (Text × Text)) : addCatalogHash p hashes entry = hashes := by
  unfold addCatalogHash
  rw [if_pos (Bool.eq_false_iff.mp h)]

end

/-- The catalogs and the hashes of a log: the hash under the key of a catalog is that of the bundle
under it. -/
structure Matching (env : SessionEnv φ) (catalogs : Catalogs φ) (hashes : List (Text × Text)) :
    Prop where
  bundle : ∀ kind entry, catalogs.lookup (catalogLogKey kind) = some entry → IsBundle env kind entry
  hash : ∀ kind, hashes.lookup (catalogLogKey kind) =
    (catalogs.lookup (catalogLogKey kind)).map fun entry =>
      fieldText env entry "hash"
  nodup : (hashes.map Prod.fst).Nodup
  clean : ∀ kv ∈ hashes, (kv.1.strip = kv.1 ∧ kv.1 ≠ []) ∧ kv.2.strip = kv.2 ∧ kv.2 ≠ []

theorem Matching.nil : Matching env [] [] :=
  ⟨fun _ _ h => (by cases h), fun _ => rfl, nodup_nil, fun _ h => (by cases h)⟩

variable {catalogs : Catalogs φ} {hashes : List (Text × Text)}

theorem Matching.add (h : Matching env catalogs hashes) {entry : Record φ}
    (hentry : IsBundle env kind entry) :
    Matching env (addCatalog env catalogs entry) (addCatalogHash env hashes entry) := by
  have hclean : (fieldText env entry "hash").strip =
      fieldText env entry "hash" ∧
      fieldText env entry "hash" ≠ [] := by
    cases hentry with
    | @mk records cores hne hcores hvalid hunbroken =>
      rw [hash_catalogLogEntry env.toPyFormat (bundleHash_ne_nil kind cores)]
      exact ⟨bundleHash_strip kind cores, bundleHash_ne_nil kind cores⟩
  rw [addCatalogHash_bundle hentry]
  refine ⟨fun kind' other hother => ?_, fun kind' => ?_, ?_, fun kv hkv => ?_⟩
  · rw [lookup_addCatalog hentry] at hother
    split at hother
    · rename_i heq
      rw [heq, ← Option.some.inj hother]
      exact hentry
    · exact h.bundle kind' other hother
  · rw [lookup_addCatalog hentry, lookup_setCatalog, h.hash]
    split <;> rfl
  · exact Dict.nodup_setEntries _ _ _ (Dict.nodup_setEntries _ _ _ h.nodup)
  · have hnew : (catalogLogKey kind).strip = catalogLogKey kind ∧ catalogLogKey kind ≠ [] :=
      ⟨catalogLogKey_strip kind, catalogLogKey_ne_nil kind⟩
    rcases Dict.mem_setEntries hkv with rfl | hkv
    · exact ⟨hnew, hclean⟩
    rcases Dict.mem_setEntries hkv with rfl | hkv
    · exact ⟨hnew, hclean⟩
    exact h.clean kv hkv

theorem Matching.foldl (hentries : Bundles env entries) (h : Matching env catalogs hashes) :
    Matching env (entries.foldl (addCatalog env) catalogs)
      (entries.foldl (addCatalogHash env) hashes) := by
  induction entries generalizing catalogs hashes with
  | nil => exact h
  | cons entry entries ih =>
    have hrest : Bundles env entries := fun e he => hentries e (mem_cons_of_mem _ he)
    rw [foldl_cons, foldl_cons]
    cases hkind : fieldIs entry "kind" "tool_catalog" with
    | true =>
      obtain ⟨kind, hentry⟩ := hentries entry mem_cons_self hkind
      exact ih hrest (h.add hentry)
    | false =>
      rw [addCatalog_other hkind, addCatalogHash_other hkind]
      exact ih hrest h

def CatalogLog (env : SessionEnv φ) (log : Option Text) : Prop :=
  Bundles env (readSessionLogFile env log).2

theorem CatalogLog.matching {log : Option Text} (h : CatalogLog env log) :
    Matching env (readLatestToolCatalogs env log) (readToolCatalogHashes env.toPyFormat log) := by
  unfold readLatestToolCatalogs readToolCatalogHashes readSessionLog
  rw [if_pos rfl]
  exact Matching.foldl (Bundles.entriesAfterLatestCompaction h) Matching.nil

theorem foldl_setEntries_of_nodup {start : List (Text × Text)}
    (h : ((start ++ hashes).map fst).Nodup) :
    hashes.foldl (fun es kv => Dict.setEntries kv.1 kv.2 es) start = start ++ hashes := by
  induction hashes generalizing start with
  | nil => exact (List.append_nil start).symm
  | cons kv hashes ih =>
    have hnot : kv.1 ∉ start.map fst := by
      rw [map_append, map_cons, nodup_append] at h
      intro hmem
      exact h.2.2 _ hmem _ mem_cons_self rfl
    have hassoc : start ++ [(kv.1, kv.2)] ++ hashes = start ++ kv :: hashes :=
      (List.append_cons ..).symm
    rw [foldl_cons, Dict.setEntries_of_notMem hnot, ih (hassoc ▸ h), hassoc]

theorem Matching.payload (h : Matching env catalogs hashes) :
    toolCatalogHashesFromPayload (hashesPayload hashes : Record φ) = hashes := by
  unfold hashesPayload
  split
  · rename_i hnil
    rw [List.isEmpty_iff.mp hnil]
    rfl
  have hget : get? [("tool_catalog_hashes",
      obj (hashes.map fun kv => (kv.1, (.str kv.2 : Json φ))))]
        "tool_catalog_hashes" = some (.obj (hashes.map fun kv => (kv.1, .str kv.2))) := rfl
  unfold toolCatalogHashesFromPayload
  rw [hget]
  dsimp only
  rw [foldl_map]
  have hstep : ∀ (es : List (Text × Text)), ∀ kv ∈ hashes,
      (if kv.1.strip = [] ∨ kv.2.strip = [] then es
        else Dict.setEntries kv.1.strip kv.2.strip es) = Dict.setEntries kv.1 kv.2 es := by
    intro es kv hkv
    obtain ⟨⟨hkey, hkey'⟩, hvalue, hvalue'⟩ := h.clean kv hkv
    rw [hkey, hvalue, if_neg (not_or.mpr ⟨hkey', hvalue'⟩)]
  exact (foldl_ext _ _ [] hstep).trans (foldl_setEntries_of_nodup h.nodup)

open Misc CytMcp ToolExamples Pruners

open Injection (Source)
open Injection.SessionLog

variable {φ : Type} {p : PyFormat φ}

variable {tool : Record φ}

theorem valid_schemaUnder (h : (obj tool).Valid) {keys : List Text} {schema : Record φ}
    (hschema : (keys.findSome? fun key => match get? tool key with
      | some (.obj (kv :: kvs)) => some (kv :: kvs)
      | _ => none) = some schema) : (obj schema).Valid := by
  obtain ⟨key, -, hkey⟩ := exists_of_findSome?_eq_some hschema
  split at hkey
  · rename_i hget
    rw [← Option.some.inj hkey]
    exact h.get? hget
  · cases hkey

theorem valid_nil_obj : (obj ([] : Record φ)).Valid := ⟨nodup_nil, trivial⟩

theorem valid_inputSchemaFromTool (h : (obj tool).Valid) :
    (obj (inputSchemaFromTool tool)).Valid := by
  unfold inputSchemaFromTool
  cases hschema : (["input_schema".toList, "inputSchema".toList, "parameters".toList].findSome?
      fun key => match get? tool key with
        | some (.obj (field :: fields)) => some (field :: fields)
        | _ => none) with
  | none => exact valid_nil_obj
  | some schema => exact valid_schemaUnder h hschema

theorem valid_pickFullestInputSchema {candidates : List (Record φ)}
    (h : ∀ candidate ∈ candidates, (obj candidate).Valid) :
    (obj (pickFullestInputSchema p candidates)).Valid := by
  unfold pickFullestInputSchema
  induction candidates using List.reverseRecOn with
  | nil => exact valid_nil_obj
  | append_singleton candidates candidate ih =>
    rw [foldl_concat]
    have hbest := ih fun c hc => h c (mem_append_left _ hc)
    dsimp only
    split
    · exact hbest
    · split
      · exact valid_inputSchemaFromTool (h candidate (mem_append_right _ mem_cons_self))
      · exact hbest

theorem valid_orElse {v w : Option (Json φ)} (hv : ∀ x, v = some x → x.Valid)
    (hw : ∀ x, w = some x → x.Valid) {x : Json φ} (h : Json.orElse p v w = some x) : x.Valid := by
  unfold Json.orElse at h
  split at h
  · split at h
    · exact hv x h
    · exact hw x h
  · exact hw x h

theorem valid_declaredInputSchema (h : (obj tool).Valid) {schema : Record φ}
    (hschema : declaredInputSchema p tool = some schema) : (obj schema).Valid := by
  unfold declaredInputSchema at hschema
  dsimp only at hschema
  split at hschema
  · rename_i fields hinner
    rw [← Option.some.inj hschema]
    split at hinner
    · rename_i full hfull
      have hvalid := h.get? hfull
      exact valid_orElse (fun v hv => hvalid.get? hv) (fun v hv => hvalid.get? hv) hinner
    · cases hinner
  · exact valid_schemaUnder h hschema

theorem valid_schemalessMcpcBody (h : (obj tool).Valid) :
    (obj (schemalessMcpcBody tool)).Valid := by
  have hfield : ∀ key, ((dictField tool key).map fst).Sublist [key] ∧
      ∀ kv ∈ dictField tool key, kv.2.Valid := by
    intro key
    unfold dictField
    split
    · rename_i fields hget
      refine ⟨List.Sublist.refl _, fun kv hkv => ?_⟩
      obtain rfl := mem_singleton.mp hkv
      exact h.get? hget
    · exact ⟨nil_sublist _, fun kv hkv => (by cases hkv)⟩
  obtain ⟨hkeys, hvalues⟩ := hfield "annotations".toList
  obtain ⟨hkeys', hvalues'⟩ := hfield "execution".toList
  have hnodup : ["annotations".toList, "execution".toList].Nodup := by decide
  rw [Json.valid_obj_iff, schemalessMcpcBody, map_append]
  refine ⟨(hkeys.append hkeys').nodup hnodup, fun kv hkv => ?_⟩
  rcases mem_append.mp hkv with hkv | hkv
  · exact hvalues kv hkv
  · exact hvalues' kv hkv

theorem valid_toolInputSchemaForCatalog (h : (obj tool).Valid) (kind : Source) :
    (obj (toolInputSchemaForCatalog p kind tool)).Valid := by
  unfold toolInputSchemaForCatalog
  split
  · rename_i hschema
    exact valid_declaredInputSchema h hschema
  · split
    · exact valid_schemalessMcpcBody h
    · exact valid_nil_obj

theorem valid_bundleSchema {tools : List (Record φ)} (h : ∀ t ∈ tools, (obj t).Valid)
    (kind : Source) (htool : tool ∈ tools) : (obj (bundleSchema p kind tools tool)).Valid := by
  unfold bundleSchema
  split
  · exact valid_toolInputSchemaForCatalog (h tool htool) kind
  · refine valid_pickFullestInputSchema fun candidate hcandidate => ?_
    rcases mem_cons.mp hcandidate with rfl | hcandidate
    · exact h _ htool
    · exact h candidate (mem_of_mem_filter hcandidate)

variable (p) in
/-- The name and the schema of the record are those of the tool, and no text of it has a line break
that JSON does not escape. -/
structure IsCarried (kind : Source) (tools : List (Record φ)) (tool : Record φ) : Prop where
  named : lookupName p kind tool ≠ []
  ownName : kind = .cytMcp → isMetaTool (lookupName p kind tool) = false →
    lookupName p kind tool = wireNameFor (serverKeyOf p tool) (strippedText p tool toolNameKey)
  ownSchema : sortKeys (.obj (bundleSchema p kind tools tool)) =
    sortKeys (.obj (toolInputSchemaForCatalog p kind tool))
  unbrokenName : Unbroken (lookupName p kind tool)
  unbrokenSchema : Json.Strings Unbroken (.obj (toolInputSchemaForCatalog p kind tool))
  unbrokenDescription : Unbroken (strippedDescription p tool)
  unbrokenSession : kind = .mcpc → Unbroken (strippedField p tool mcpcSessionKey)

variable (p) in
/-- The identity of a `cyt_mcp` tool as fields. -/
def identityFields (tool : Record φ) : Record φ :=
  [(serverKeyKey, .str (serverKeyOf p tool)), (toolNameKey, .str (strippedText p tool toolNameKey))]

/-- A text, if it is not empty. -/
def shownText (t : Text) : Option (Json φ) := if t = [] then none else some (.str t)

variable (p) in
/-- The name, the schema, the description and the session of a tool of a master catalog. -/
def masterView (kind : Source) (tool : Record φ) : List (Option (Json φ)) :=
  [some (.str (lookupName p kind tool)),
    some (sortKeys (.obj (toolInputSchemaForCatalog p kind tool))),
    shownText (strippedDescription p tool),
    if kind = .mcpc then shownText (strippedField p tool mcpcSessionKey) else none]

/-- The keys of a record but for its hash. -/
def coreKeys : List Text :=
  [nameKey, inputSchemaKey] ++ ([serverKeyKey, toolNameKey] ++ ([descriptionKey] ++
    [mcpcSessionKey]))

section

variable {kind : Source} {tools : List (Record φ)} {tool : Record φ}

theorem bundleName_eq (h : lookupName p kind tool ≠ []) :
    bundleName p kind tool = lookupName p kind tool := by
  unfold bundleName lookupName at *
  dsimp only
  by_cases hkind : kind = .cytMcp
  · rw [if_pos hkind] at h
    rw [if_pos hkind, if_pos hkind]
    exact if_neg h
  rw [if_neg hkind] at h
  rw [if_neg hkind, if_neg hkind]
  unfold catalogToolName strippedField fieldText at *
  unfold strOr at *
  split at h
  · exact if_neg h
  · exact if_pos rfl

theorem toolRecordCore_eq (h : IsCarried p kind tools tool)
    (hidentified : kind = .cytMcp → serverKeyOf p tool ≠ [] ∧ strippedText p tool toolNameKey ≠ []) :
    ∃ identity : Record φ, (identity = [] ∨ (lookupName p kind tool =
        wireNameFor (serverKeyOf p tool) (strippedText p tool toolNameKey) ∧
          identity = identityFields p tool)) ∧
      toolRecordCore p kind tools tool = some ([(nameKey, .str (lookupName p kind tool)),
        (inputSchemaKey, .obj (bundleSchema p kind tools tool))] ++ (identity ++
          (descriptionField p tool ++ sessionField p kind tool))) := by
  unfold toolRecordCore stampedHead recordHead
  rw [bundleName_eq h.named]
  split
  · rename_i hstamped
    obtain ⟨hserver, htool⟩ := hidentified hstamped.1
    have hname := h.ownName hstamped.1 hstamped.2
    refine ⟨identityFields p tool, .inr ⟨hname, rfl⟩, ?_⟩
    have hstamp : ∀ record, stampCytMcpIdentity p record tool = some (Json.set (Json.set (Json.set
        record nameKey (.str (wireNameFor (serverKeyOf p tool) (strippedText p tool toolNameKey))))
        serverKeyKey (.str (serverKeyOf p tool))) toolNameKey
          (.str (strippedText p tool toolNameKey))) :=
      fun record => if_neg (not_or.mpr ⟨hserver, htool⟩)
    rw [hstamp, ← hname]
    rfl
  · exact ⟨[], .inl rfl, rfl⟩

theorem unbroken_of_wireName {server name : Text} (h : Unbroken (wireNameFor server name)) :
    Unbroken server ∧ Unbroken name :=
  ⟨fun c hc => h c (mem_append_left _ hc),
    fun c hc => h c (mem_append_right _ (mem_cons_of_mem _ hc))⟩

theorem strings_str {P : Text → Prop} {s : Text} (h : P s) : Json.Strings P (.str s : Json φ) := by
  intro t ht
  obtain rfl := mem_singleton.mp ht
  exact h

theorem unbroken_coreKeys : ∀ k ∈ coreKeys, Unbroken k := by
  have hkeys : ∀ k ∈ coreKeys, k.any Json.isBareBreak = false := by decide
  exact fun k hk => Text.forall_not_of_any (hkeys k hk)

/-- The fields behind the schema: their keys, and texts without such line breaks. -/
theorem coreFields_spec (h : IsCarried p kind tools tool) {identity : Record φ}
    (hidentity : identity = [] ∨ (lookupName p kind tool =
        wireNameFor (serverKeyOf p tool) (strippedText p tool toolNameKey) ∧
          identity = identityFields p tool)) :
    ((identity ++ (descriptionField p tool ++ sessionField p kind tool)).map fst).Sublist
        ([serverKeyKey, toolNameKey] ++ ([descriptionKey] ++ [mcpcSessionKey])) ∧
      ∀ kv ∈ identity ++ (descriptionField p tool ++ sessionField p kind tool),
        ∃ t, kv.2 = .str t ∧ Unbroken t := by
  have hid : (identity.map fst).Sublist [serverKeyKey, toolNameKey] ∧
      ∀ kv ∈ identity, ∃ t, kv.2 = .str t ∧ Unbroken t := by
    obtain rfl | ⟨hname, rfl⟩ := hidentity
    · exact ⟨nil_sublist _, fun kv hkv => (by cases hkv)⟩
    · obtain ⟨hserver, htool⟩ := unbroken_of_wireName (hname ▸ h.unbrokenName)
      refine ⟨List.Sublist.refl _, fun kv hkv => ?_⟩
      rcases mem_cons.mp hkv with rfl | hkv
      · exact ⟨_, rfl, hserver⟩
      · obtain rfl := mem_singleton.mp hkv
        exact ⟨_, rfl, htool⟩
  have hdescription : ((descriptionField p tool).map fst).Sublist [descriptionKey] ∧
      ∀ kv ∈ descriptionField p tool, ∃ t, kv.2 = .str t ∧ Unbroken t := by
    unfold descriptionField
    split
    · exact ⟨nil_sublist _, fun kv hkv => (by cases hkv)⟩
    · refine ⟨List.Sublist.refl _, fun kv hkv => ?_⟩
      obtain rfl := mem_singleton.mp hkv
      exact ⟨_, rfl, h.unbrokenDescription⟩
  have hsession : ((sessionField p kind tool).map fst).Sublist [mcpcSessionKey] ∧
      ∀ kv ∈ sessionField p kind tool, ∃ t, kv.2 = .str t ∧ Unbroken t := by
    unfold sessionField
    split
    · rename_i hmcpc
      refine ⟨List.Sublist.refl _, fun kv hkv => ?_⟩
      obtain rfl := mem_singleton.mp hkv
      exact ⟨_, rfl, h.unbrokenSession hmcpc.1⟩
    · exact ⟨nil_sublist _, fun kv hkv => (by cases hkv)⟩
  rw [map_append, map_append]
  refine ⟨hid.1.append (hdescription.1.append hsession.1), fun kv hkv => ?_⟩
  rcases mem_append.mp hkv with hkv | hkv
  · exact hid.2 kv hkv
  rcases mem_append.mp hkv with hkv | hkv
  · exact hdescription.2 kv hkv
  · exact hsession.2 kv hkv

theorem get?_eq_none_of_keys {fields : Record φ} {keys : List Text}
    (h : (fields.map fst).Sublist keys) {key : Text} (hkey : key ∉ keys) : get? fields key = none :=
  Json.get?_eq_none_iff.mpr fun hmem => hkey (h.subset hmem)

theorem get?_singleton (key : Text) (v : Json φ) : get? [(key, v)] key = some v := by
  rw [Json.get?_cons, if_pos rfl]

theorem get?_descriptionField :
    get? (descriptionField p tool) descriptionKey = shownText (strippedDescription p tool) := by
  unfold descriptionField shownText
  split
  · rfl
  · exact get?_singleton _ _

theorem get?_sessionField : get? (sessionField p kind tool) mcpcSessionKey =
    if kind = .mcpc then shownText (strippedField p tool mcpcSessionKey) else none := by
  unfold sessionField shownText
  by_cases hkind : kind = .mcpc
  · rw [if_pos hkind]
    by_cases hnil : strippedField p tool mcpcSessionKey = []
    · rw [if_pos hnil, if_neg fun h => h.2 hnil]
      rfl
    · rw [if_neg hnil, if_pos ⟨hkind, hnil⟩]
      exact get?_singleton _ _
  · rw [if_neg hkind, if_neg fun h => hkind h.1]
    rfl

theorem sortKeys_shownText (t : Text) : (shownText t : Option (Json φ)).map sortKeys =
    shownText t := by
  unfold shownText
  split <;> rfl

theorem get?_coreFields {identity : Record φ} (hidentity : identity = [] ∨
      (lookupName p kind tool = wireNameFor (serverKeyOf p tool) (strippedText p tool toolNameKey) ∧
        identity = identityFields p tool)) :
    get? (identity ++ (descriptionField p tool ++ sessionField p kind tool)) descriptionKey =
        shownText (strippedDescription p tool) ∧
      get? (identity ++ (descriptionField p tool ++ sessionField p kind tool)) mcpcSessionKey =
        if kind = .mcpc then shownText (strippedField p tool mcpcSessionKey) else none := by
  have hid : ∀ key, key ∉ [serverKeyKey, toolNameKey] → get? identity key = none := by
    intro key hkey
    obtain rfl | ⟨-, rfl⟩ := hidentity
    · rfl
    · exact get?_eq_none_of_keys (List.Sublist.refl _) hkey
  have hsession : get? (sessionField p kind tool) descriptionKey = none := by
    unfold sessionField
    split <;> rfl
  have hdescription : get? (descriptionField p tool) mcpcSessionKey = none := by
    unfold descriptionField
    split <;> rfl
  rw [get?_append, get?_append, hid _ (by decide), hsession, get?_descriptionField,
    get?_append, get?_append, hid _ (by decide), hdescription, get?_sessionField]
  exact ⟨by rw [none_or, or_none], by rw [none_or, none_or]⟩

theorem exists_toolRecordCore (h : IsCarried p kind tools tool)
    (hidentified : kind = .cytMcp → serverKeyOf p tool ≠ [] ∧ strippedText p tool toolNameKey ≠ [])
    (hvalid : ∀ t ∈ tools, (obj t).Valid) (htool : tool ∈ tools) :
    ∃ core, toolRecordCore p kind tools tool = some core ∧ hashKey ∉ core.map fst ∧
      (obj core).Valid ∧ Json.Strings Unbroken (.obj core) ∧
        viewOf core = masterView p kind tool := by
  obtain ⟨identity, hidentity, hcore⟩ := toolRecordCore_eq h hidentified
  obtain ⟨hkeys, htexts⟩ := coreFields_spec h hidentity
  obtain ⟨hdescription, hsession⟩ := get?_coreFields hidentity
  have hsub : (([(nameKey, Json.str (lookupName p kind tool)),
      (inputSchemaKey, .obj (bundleSchema p kind tools tool))] ++ (identity ++
        (descriptionField p tool ++ sessionField p kind tool))).map fst).Sublist coreKeys := by
    rw [map_append]
    exact (List.Sublist.refl [nameKey, inputSchemaKey]).append hkeys
  have hnodup : coreKeys.Nodup := by decide
  have hhash : hashKey ∉ coreKeys := by decide
  have hschema := valid_bundleSchema (p := p) hvalid kind htool
  refine ⟨_, hcore, fun hmem => hhash (hsub.subset hmem), ?_, ?_, ?_⟩
  · refine Json.valid_obj_iff.mpr ⟨hsub.nodup hnodup, fun kv hkv => ?_⟩
    rcases mem_append.mp hkv with hkv | hkv
    · rcases mem_cons.mp hkv with rfl | hkv
      · trivial
      · obtain rfl := mem_singleton.mp hkv
        exact hschema
    · obtain ⟨t, ht, -⟩ := htexts kv hkv
      rw [ht]
      trivial
  · refine strings_obj.mpr fun kv hkv => ?_
    refine ⟨unbroken_coreKeys kv.1 (hsub.subset (List.mem_map_of_mem hkv)), ?_⟩
    rcases mem_append.mp hkv with hkv | hkv
    · rcases mem_cons.mp hkv with rfl | hkv
      · exact strings_str h.unbrokenName
      · obtain rfl := mem_singleton.mp hkv
        rw [← strings_sortKeys, h.ownSchema, strings_sortKeys]
        exact h.unbrokenSchema
    · obtain ⟨t, ht, hunbroken⟩ := htexts kv hkv
      rw [ht]
      exact strings_str hunbroken
  · have hget : ∀ key, key ∉ [nameKey, inputSchemaKey] → get?
        ([(nameKey, Json.str (lookupName p kind tool)),
          (inputSchemaKey, .obj (bundleSchema p kind tools tool))] ++ (identity ++
            (descriptionField p tool ++ sessionField p kind tool))) key =
        get? (identity ++ (descriptionField p tool ++ sessionField p kind tool)) key := by
      intro key hkey
      rw [get?_append, get?_eq_none_of_keys (List.Sublist.refl _) hkey, none_or]
    unfold viewOf masterView
    rw [map_cons, map_cons, map_cons, map_cons, map_nil, hget descriptionKey (by decide),
      hget mcpcSessionKey (by decide), hdescription, hsession, sortKeys_shownText, ← h.ownSchema]
    have hmcpc : (if kind = .mcpc then shownText (strippedField p tool mcpcSessionKey)
        else none : Option (Json φ)).map sortKeys =
          if kind = .mcpc then shownText (strippedField p tool mcpcSessionKey) else none := by
      split
      · exact sortKeys_shownText _
      · rfl
    rw [hmcpc]
    rfl

end

open Misc CytMcp

open Injection (Source)
open Injection.SessionLog

variable {φ : Type} {p : PyFormat φ}

/-- All fields but the schema are texts. -/
def IsTextRecord (record : Record φ) : Prop :=
  ∀ kv ∈ record, kv.1 ≠ inputSchemaKey → ∃ s, kv.2 = .str s

/-- No string of the record has a line break that JSON does not escape. -/
def IsUnbroken (record : Record φ) : Prop := Json.Strings Unbroken (.obj record)

variable {record : Record φ} {key : Text}

theorem mem_of_get? {v : Json φ} (h : get? record key = some v) : (key, v) ∈ record := by
  obtain ⟨before, after, rfl, -⟩ := lookup_eq_some_iff.mp h
  exact mem_append_right before mem_cons_self

theorem unbroken_strip {t : Text} (h : Unbroken t) : Unbroken t.strip :=
  fun c hc => h c (Text.mem_of_mem_strip hc)

theorem unbroken_strOr (htext : IsTextRecord record) (h : IsUnbroken record) {d : Text}
    (hkey : key ≠ inputSchemaKey) (hd : Unbroken d) : Unbroken (strOr p record key d) := by
  unfold strOr Json.orElse
  cases hget : get? record key with
  | none => exact hd
  | some v =>
    have hmem := mem_of_get? hget
    obtain ⟨s, hs⟩ := htext _ hmem hkey
    dsimp only at hs
    subst hs
    dsimp only
    split
    · rename_i w hw
      split at hw
      · rw [← Option.some.inj hw]
        exact (strings_obj.mp h _ hmem).2 s mem_cons_self
      · cases hw
    · exact hd

theorem unbroken_nil : Unbroken [] := fun _ h => (by cases h)

theorem unbroken_serverKeyOf (htext : IsTextRecord record) (h : IsUnbroken record) :
    Unbroken (serverKeyOf p record) :=
  unbroken_strip (unbroken_strOr htext h (by decide)
    (unbroken_strOr htext h (by decide) unbroken_nil))

theorem unbroken_strippedText (htext : IsTextRecord record) (h : IsUnbroken record)
    (hkey : key ≠ inputSchemaKey) : Unbroken (strippedText p record key) :=
  unbroken_strip (unbroken_strOr htext h hkey unbroken_nil)

section

variable {record : Record φ}

theorem IsUnbroken.set (h : IsUnbroken record) {key s : Text} (hkey : Unbroken key)
    (hs : Unbroken s) : IsUnbroken (Json.set record key (.str s)) := by
  refine strings_obj.mpr fun kv hkv => ?_
  rcases Json.mem_set hkv with rfl | hkv
  · exact ⟨hkey, strings_str hs⟩
  · exact strings_obj.mp h kv hkv

theorem IsTextRecord.set (h : IsTextRecord record) (key s : Text) :
    IsTextRecord (Json.set record key (.str s)) := by
  intro kv hkv hne
  rcases Json.mem_set hkv with rfl | hkv
  · exact ⟨s, rfl⟩
  · exact h kv hkv hne

theorem unbroken_stampKeys :
    ∀ k ∈ [nameKey, serverKeyKey, toolNameKey, catalogSourceKey, hashKey], Unbroken k := by
  have hkeys : ∀ k ∈ [nameKey, serverKeyKey, toolNameKey, catalogSourceKey, hashKey],
      k.any Json.isBareBreak = false := by decide
  exact fun k hk => Text.forall_not_of_any (hkeys k hk)

theorem IsUnbroken.withIdentity (h : IsUnbroken record) {name serverKey toolName : Text}
    (hname : Unbroken name) (hserver : Unbroken serverKey) (htool : Unbroken toolName) :
    IsUnbroken (withIdentity record name serverKey toolName) :=
  ((h.set (unbroken_stampKeys _ (by decide)) hname).set (unbroken_stampKeys _ (by decide))
    hserver).set (unbroken_stampKeys _ (by decide)) htool

end

variable {configured : List Text}

theorem unbroken_of_splitAt {name serverKey : Text} {identity : CytMcpToolIdentity}
    (hname : Unbroken name) (h : CytMcp.splitAt configured name serverKey = some identity) :
    Unbroken identity.wireName ∧ Unbroken identity.serverKey ∧
      Unbroken identity.backendToolName := by
  unfold CytMcp.splitAt at h
  dsimp only at h
  split at h
  · cases h
  rename_i hprefix
  split at h
  · cases h
  split at h
  · cases h
  rw [← Option.some.inj h]
  obtain ⟨rest, hrest⟩ := isPrefixOf_iff_prefix.mp (not_not.mp hprefix)
  refine ⟨hname, fun c hc => hname c ?_, unbroken_strip fun c hc =>
    hname c (mem_of_mem_drop hc)⟩
  rw [← hrest]
  exact mem_append_left _ (mem_append_left _ hc)

variable {serverKeys : List Text}

theorem unbroken_of_splitWireName {wireName : Text} {identity : CytMcpToolIdentity}
    (hname : Unbroken wireName) (h : splitWireName configured wireName serverKeys = some identity) :
    Unbroken identity.wireName ∧ Unbroken identity.serverKey ∧
      Unbroken identity.backendToolName := by
  unfold splitWireName at h
  dsimp only at h
  split at h
  · cases h
  · obtain ⟨serverKey, -, hsplit⟩ := exists_of_findSome?_eq_some h
    exact unbroken_of_splitAt (unbroken_strip hname) hsplit

theorem unbroken_wireNameFor {server name : Text} (hserver : Unbroken server)
    (hname : Unbroken name) : Unbroken (wireNameFor server name) := by
  intro c hc
  rcases mem_append.mp hc with hc | hc
  · exact hserver c hc
  · rcases mem_cons.mp hc with rfl | hc
    · rfl
    · exact hname c hc

theorem unbroken_identity (htext : IsTextRecord record)
    (h : IsUnbroken record) {identity : Text × Text}
    (hidentity : requireBackendIdentity p (enrichToolIdentity p configured serverKeys record) =
      some identity) : Unbroken identity.1 ∧ Unbroken identity.2 := by
  have henriched : IsTextRecord (enrichToolIdentity p configured serverKeys record) ∧
      IsUnbroken (enrichToolIdentity p configured serverKeys record) := by
    have hserver := unbroken_serverKeyOf (p := p) htext h
    have htool : Unbroken (strippedText p record toolNameKey) :=
      unbroken_strippedText htext h (by decide)
    have hname : Unbroken (strippedText p record nameKey) :=
      unbroken_strippedText htext h (by decide)
    unfold enrichToolIdentity
    split
    · exact ⟨((htext.set _ _).set _ _).set _ _,
        h.withIdentity (unbroken_wireNameFor hserver htool) hserver htool⟩
    · split
      · exact ⟨htext, h⟩
      · rename_i identity' hsplit
        obtain ⟨hwire, hserver', htool'⟩ := unbroken_of_splitWireName hname hsplit
        exact ⟨((htext.set _ _).set _ _).set _ _, h.withIdentity hwire hserver' htool'⟩
  unfold requireBackendIdentity at hidentity
  split at hidentity
  · rw [← Option.some.inj hidentity]
    exact ⟨unbroken_serverKeyOf henriched.1 henriched.2,
      unbroken_strippedText henriched.1 henriched.2 (by decide)⟩
  · cases hidentity

variable (toolName : Text) (definition : Record φ)

theorem isTextRecord_capturedRecord : IsTextRecord (capturedRecord p toolName definition) := by
  have hcaptured : ∀ key, ∀ kv ∈ capturedText definition key, ∃ s, kv.2 = .str s := by
    intro key kv hkv
    unfold capturedText at hkv
    split at hkv
    · split at hkv
      · cases hkv
      · obtain rfl := mem_singleton.mp hkv
        exact ⟨_, rfl⟩
    · cases hkv
  intro kv hkv hne
  unfold capturedRecord at hkv
  rcases mem_append.mp hkv with hkv | hkv
  · rcases mem_cons.mp hkv with rfl | hkv
    · exact ⟨toolName, rfl⟩
    · obtain rfl := mem_singleton.mp hkv
      exact absurd rfl hne
  rcases mem_append.mp hkv with hkv | hkv
  · unfold capturedDescription at hkv
    split at hkv
    · cases hkv
    · cases hkv
    · obtain rfl := mem_singleton.mp hkv
      exact ⟨_, rfl⟩
  rcases mem_append.mp hkv with hkv | hkv
  · exact hcaptured _ kv hkv
  rcases mem_append.mp hkv with hkv | hkv
  · exact hcaptured _ kv hkv
  · exact hcaptured _ kv hkv

def capturedKeys : List Text :=
  [nameKey, inputSchemaKey] ++ ([descriptionKey] ++ ([serverKeyKey] ++ ([toolNameKey] ++
    ["mcp_server".toList])))

variable {definition}

theorem valid_capturedSchema (h : (obj definition).Valid) :
    (obj (capturedSchema p definition)).Valid := by
  unfold capturedSchema
  split
  · rename_i schema hschema
    exact valid_orElse (fun v hv => h.get? hv) (fun v hv => valid_orElse (fun v hv => h.get? hv)
      (fun v hv => by cases hv) hv) hschema
  · exact valid_nil_obj

theorem valid_capturedRecord (h : (obj definition).Valid) :
    (obj (capturedRecord p toolName definition)).Valid := by
  have hcaptured : ∀ key, ((capturedText definition key).map fst).Sublist [key] := by
    intro key
    unfold capturedText
    split
    · split
      · exact nil_sublist _
      · exact List.Sublist.refl _
    · exact nil_sublist _
  have hdescription : ((capturedDescription p definition).map fst).Sublist [descriptionKey] := by
    unfold capturedDescription
    split
    · exact nil_sublist _
    · exact nil_sublist _
    · exact List.Sublist.refl _
  have hsub : ((capturedRecord p toolName definition).map fst).Sublist capturedKeys := by
    unfold capturedRecord capturedKeys
    rw [map_append, map_append, map_append, map_append]
    exact (List.Sublist.refl [nameKey, inputSchemaKey]).append (hdescription.append
      ((hcaptured _).append ((hcaptured _).append (hcaptured _))))
  have hnodup : capturedKeys.Nodup := by decide
  refine Json.valid_obj_iff.mpr ⟨hsub.nodup hnodup, fun kv hkv => ?_⟩
  by_cases hkey : kv.1 = inputSchemaKey
  · have hmem : (inputSchemaKey, obj (capturedSchema p definition)) ∈
        capturedRecord p toolName definition :=
      mem_append_left _ (mem_cons_of_mem _ mem_cons_self)
    have hsame : kv = (inputSchemaKey, obj (capturedSchema p definition)) :=
      inj_on_of_nodup_map (hsub.nodup hnodup) hkv hmem hkey
    rw [hsame]
    exact valid_capturedSchema h
  · obtain ⟨s, hs⟩ := isTextRecord_capturedRecord (p := p) toolName definition kv hkv hkey
    rw [hs]
    trivial

variable {toolName} in
theorem toolRecordForCatalog_spec {env : SessionEnv φ} (hhex : ∀ t, Unbroken (env.sha256 t))
    (hvalid : (obj definition).Valid)
    (hunbroken : IsUnbroken (capturedRecord env toolName definition))
    (h : toolRecordForCatalog env configured toolName definition = some record) :
    (obj record).Valid ∧ IsUnbroken record := by
  unfold toolRecordForCatalog at h
  dsimp only at h
  obtain ⟨identity, hidentity, rfl⟩ := map_eq_some_iff.mp h
  obtain ⟨hserver, htool⟩ := unbroken_identity (isTextRecord_capturedRecord toolName definition)
    hunbroken hidentity
  constructor
  · have hset : ∀ {r : Record φ} (key s : Text), (obj r).Valid →
        (obj (Json.set r key (.str s))).Valid :=
      fun key s hr => hr.set key (v := .str s) trivial
    exact hset _ _ (hset _ _ (hset _ _ (hset _ _ (hset _ _
      (valid_capturedRecord toolName hvalid)))))
  · have hsource : Unbroken cytMcpCatalog := Text.forall_not_of_any rfl
    exact ((hunbroken.withIdentity (unbroken_wireNameFor hserver htool) hserver htool).set
      (unbroken_stampKeys _ (by decide)) hsource).set (unbroken_stampKeys _ (by decide)) (hhex _)

end ClearYourTools.CytClient
