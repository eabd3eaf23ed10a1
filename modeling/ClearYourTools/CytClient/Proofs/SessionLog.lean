import ClearYourTools.CytClient.Sessions
import ClearYourTools.Misc.JsonLines
import ClearYourTools.Misc.Runs

/-!
# What a session log gives back

A log reads as what it read before followed by what each new line reads as. A line reads as its
entry unless one of its strings has a line break that `json.dumps` does not escape.
-/

namespace ClearYourTools.CytClient

open Misc Text List
open Json (PyFormat noFloats Unbroken dumps obj)

variable {φ : Type} {f : Json.FloatFormat φ}

theorem parseJsonlLine_nil : parseJsonlLine f [] = none := rfl

theorem logRecords_eq (t : Text) :
    logRecords f t = (t.splitOnP isLineBreak).filterMap (parseJsonlLine f) :=
  filterMap_splitLines parseJsonlLine_nil t

theorem logRecords_nil : logRecords f [] = [] := by
  rw [logRecords_eq, splitOnP_nil, filterMap_cons, parseJsonlLine_nil]
  rfl

theorem logRecords_line {t : Text} (h : ∀ c ∈ t, isLineBreak c = false) :
    logRecords f t = (parseJsonlLine f t).toList := by
  rw [logRecords_eq, splitOnP_eq_singleton h, filterMap_cons]
  cases parseJsonlLine f t <;> rfl

theorem logRecords_writeLine (file line : Text) :
    logRecords f (writeLine file line) = logRecords f file ++ logRecords f line := by
  unfold writeLine
  split
  · rename_i hnil
    rw [hnil, logRecords_nil, nil_append]
  · rw [logRecords_eq, splitOnP_append_cons _ _ (by decide), filterMap_append,
      ← logRecords_eq, ← logRecords_eq]

theorem logRecords_foldl (lines : List Text) (file : Text) :
    logRecords f (lines.foldl writeLine file) =
      logRecords f file ++ lines.flatMap (logRecords f) := by
  induction lines generalizing file with
  | nil => simp
  | cons line lines ih =>
    rw [foldl_cons, ih, logRecords_writeLine, flatMap_cons, List.append_assoc]

theorem foldl_readRecord (records : List (Record φ)) (state : Option Text × List (Record φ)) :
    (records.foldl readRecord state).2 = state.2 ++ records.filter fun r => !isMeta r := by
  induction records generalizing state with
  | nil => simp
  | cons r records ih =>
    rw [foldl_cons, ih]
    cases hr : isMeta r with
    | false => simp [readRecord, hr]
    | true =>
      have hsame : (readRecord state r).2 = state.2 := by
        rw [readRecord, hr, if_pos rfl]
        split
        · split <;> rfl
        · rfl
      rw [hsame, filter_cons, hr]
      rfl

theorem readSessionLogFile_items (f : Json.FloatFormat φ) (log : Option Text) :
    (readSessionLogFile f log).2 = (logRecords f (log.getD [])).filter fun r => !isMeta r := by
  cases log with
  | none => rw [Option.getD_none, logRecords_nil]; rfl
  | some t => rw [readSessionLogFile, foldl_readRecord, nil_append]; rfl

theorem entriesAfterLatestCompaction_append {entries entries' : List (Record φ)}
    (h : ∀ e ∈ entries', fieldIs e "kind" "compaction" = false) :
    entriesAfterLatestCompaction (entries ++ entries') =
      entriesAfterLatestCompaction entries ++ entries' := by
  unfold entriesAfterLatestCompaction
  rw [reverse_append, takeWhile_append_of_pos, reverse_append, reverse_reverse]
  intro e he
  rw [h e (mem_reverse.mp he)]
  rfl

theorem unbroken_of_forall {ss : List Text} (h : ∀ s ∈ ss, Unbroken s) {ascii : Bool}
    {t : Text} (ht : Json.BreaksIn ascii t ss) : ∀ c ∈ t, isLineBreak c = false := by
  intro c hc
  rw [← Bool.not_eq_true]
  intro hbreak
  obtain ⟨-, hbare, s, hs, hmem⟩ := ht c hc hbreak
  rw [h s hs c hmem] at hbare
  cases hbare

variable {e : Record φ}

section

variable (hf : f.Lawful)
include hf

theorem parseJsonlLine_dumps (ascii : Bool) (he : (obj e).Valid) :
    parseJsonlLine f (dumps f ascii (.obj e)) = some e := by
  have hstrip := Text.Stripped.strip (Json.stripped_dumps_obj f ascii e)
  obtain ⟨rest, hrest⟩ := Json.dumps_obj_head f ascii e
  have hne : dumps f ascii (.obj e) ≠ [] := by
    rw [hrest]
    exact cons_ne_nil _ _
  rw [parseJsonlLine, hstrip, if_neg hne, Json.loads_dumps hf ascii he]

theorem logRecords_entry (he : (obj e).Valid)
    (hclean : Json.Strings Unbroken (.obj e)) : logRecords f (dumps f false (.obj e)) = [e] := by
  have hline := unbroken_of_forall hclean (Json.breaksIn_dumps hf false (.obj e))
  rw [logRecords_line hline, parseJsonlLine_dumps hf false he]
  rfl

theorem logRecords_entry_unbroken (he : (obj e).Valid) :
    ∀ r ∈ logRecords f (dumps f false (.obj e)), Json.Strings Unbroken (.obj r) := by
  by_cases hbreak : ∃ d ∈ dumps f false (.obj e), isLineBreak d = true
  · intro r hr
    rw [logRecords_eq] at hr
    obtain ⟨piece, hpiece, hparse⟩ := mem_filterMap.mp hr
    rw [parseJsonlLine] at hparse
    split at hparse
    · cases hparse
    split at hparse
    · rename_i fields hloads
      obtain rfl := Option.some.inj hparse
      exact Json.loads_pieces hf e hbreak piece hpiece _ hloads
    · cases hparse
  · have hline : ∀ c ∈ dumps f false (.obj e), isLineBreak c = false := by
      intro c hc
      rw [← Bool.not_eq_true]
      exact fun hc' => hbreak ⟨c, hc, hc'⟩
    intro r hr
    rw [logRecords_line hline, parseJsonlLine_dumps hf false he] at hr
    obtain rfl := mem_singleton.mp hr
    intro s hs c hc
    rw [← Bool.not_eq_true]
    intro hbare
    have hmem := Json.mem_dumps_of_bareBreak f (.obj r) hbare s hs hc
    have hc' := hline c hmem
    rw [Json.isLineBreak_of_isBareBreak hbare] at hc'
    cases hc'

theorem logRecords_meta (agent : Text) :
    (logRecords f (dumps f true
      (.obj [(typeKey, .str metaType), (agentKey, .str agent)]))).filter (fun r => !isMeta r) =
        [] := by
  have hline : ∀ c ∈ dumps f true (.obj [(typeKey, .str metaType), (agentKey, .str agent)]),
      isLineBreak c = false := by
    intro c hc
    rw [← Bool.not_eq_true]
    intro hbreak
    exact absurd (Json.breaksIn_dumps hf true _ c hc hbreak).1 (by simp)
  have hvalid : (obj [(typeKey, (.str metaType : Json φ)), (agentKey, .str agent)]).Valid := by
    rw [Json.valid_obj_iff]
    refine ⟨?_, ?_⟩
    · simp only [map_cons, map_nil]
      decide
    · intro kv hkv
      rcases mem_cons.mp hkv with rfl | hkv
      · trivial
      · obtain rfl := mem_singleton.mp hkv
        trivial
  rw [logRecords_line hline, parseJsonlLine_dumps hf true hvalid]
  rfl

variable (log agent : Option Text)
variable (entries : List (Record φ))

theorem newLines_items :
    ((newLines f log entries agent).flatMap (logRecords f)).filter (fun r => !isMeta r) =
      entries.flatMap fun e =>
        (logRecords f (dumps f false (.obj e))).filter fun r => !isMeta r := by
  have hentries : ((entries.map fun e => dumps f false (.obj e)).flatMap
      (logRecords f)).filter (fun r => !isMeta r) = entries.flatMap fun e =>
        (logRecords f (dumps f false (.obj e))).filter fun r => !isMeta r := by
    rw [flatMap_map, filter_flatMap]
  unfold newLines
  rw [flatMap_append, filter_append, hentries]
  split
  · rw [flatMap_cons, flatMap_nil, List.append_nil, logRecords_meta hf, nil_append]
  · rfl

theorem readSessionLogFile_append :
    (readSessionLogFile f (appendSessionLog f log entries agent)).2 =
      (readSessionLogFile f log).2 ++ entries.flatMap fun e =>
        (logRecords f (dumps f false (.obj e))).filter fun r => !isMeta r := by
  unfold appendSessionLog
  split
  · rename_i hnil
    rw [hnil, flatMap_nil, List.append_nil]
  · rw [readSessionLogFile_items, readSessionLogFile_items, Option.getD_some, logRecords_foldl,
      filter_append, newLines_items hf]

end

/-- Appended entries are read back, after what was readable before, exactly when no string in
them holds `U+0085`, `U+2028` or `U+2029`. -/
theorem append_roundTrip_iff (hf : f.Lawful) (log agent : Option Text)
    (entries : List (Record φ)) (hvalid : ∀ e ∈ entries, (obj e).Valid)
    (hmeta : ∀ e ∈ entries, isMeta e = false) :
    (readSessionLogFile f (appendSessionLog f log entries agent)).2 =
        (readSessionLogFile f log).2 ++ entries ↔
      ∀ e ∈ entries, ∀ s ∈ (obj e).strings, Unbroken s := by
  rw [readSessionLogFile_append hf, append_right_inj]
  constructor
  · intro heq e he
    rw [← heq] at he
    obtain ⟨e', he', hmem⟩ := mem_flatMap.mp he
    exact logRecords_entry_unbroken hf (hvalid e' he') e (mem_of_mem_filter hmem)
  · intro hclean
    have hone : ∀ e ∈ entries, (logRecords f (dumps f false (.obj e))).filter
        (fun r => !isMeta r) = [e] := by
      intro e he
      rw [logRecords_entry hf (hvalid e he) (hclean e he), filter_cons, hmeta e he]
      rfl
    rw [flatMap_congr hone]
    exact flatMap_singleton' entries

def oneAndHalfText : Text := "1.5"

/-- A format with the one float `1.5`. -/
def oneAndHalf : Json.FloatFormat Unit where
  repr _ := oneAndHalfText
  read t := if t = oneAndHalfText then some () else none
  isZero _ := false

theorem oneAndHalf_lawful : oneAndHalf.Lawful := by
  have hne : oneAndHalfText ≠ [] := by decide
  have hatom : ∀ c ∈ oneAndHalfText, Json.isAtomChar c = true := Text.forall_of_all rfl
  have hnull : oneAndHalfText ≠ Json.nullWord := by decide
  have htrue : oneAndHalfText ≠ Json.trueWord := by decide
  have hfalse : oneAndHalfText ≠ Json.falseWord := by decide
  exact ⟨fun _ => rfl, fun _ => hne, fun _ => hatom, fun _ => rfl, fun _ => hnull,
    fun _ => htrue, fun _ => hfalse⟩

/-- `{"name": "a\n\"b", "score": 1.5}`. -/
def plainEntry : Record Unit := [("name", .str "a\n\"b"), ("score", .float ())]

theorem plainEntry_roundTrip :
    (readSessionLogFile oneAndHalf (appendSessionLog oneAndHalf (some "\x7b\x7d") [plainEntry]
      none)).2 = [[], plainEntry] := by
  have hvalid : (obj plainEntry).Valid := by
    rw [Json.valid_obj_iff]
    exact ⟨by decide, by simp [plainEntry, Json.Valid]⟩
  have hiff := append_roundTrip_iff oneAndHalf_lawful (some "\x7b\x7d") none [plainEntry]
    (by simpa using hvalid) (by simp; rfl)
  have hread : (readSessionLogFile oneAndHalf (some "\x7b\x7d")).2 = [[]] := rfl
  rw [hread] at hiff
  refine hiff.mpr ?_
  intro e he s hs
  obtain rfl := mem_singleton.mp he
  revert s
  have hname : Unbroken "name" := Text.forall_not_of_any rfl
  have hvalue : Unbroken "a\n\"b" := Text.forall_not_of_any rfl
  have hscore : Unbroken "score" := Text.forall_not_of_any rfl
  show ∀ s ∈ ["name".toList, "a\n\"b".toList, "score".toList], Unbroken s
  simp only [mem_cons, not_mem_nil, or_false, forall_eq_or_imp, forall_eq]
  exact ⟨hname, hvalue, hscore⟩

/-- `{"name": "a\u2028b"}`. -/
def brokenEntry : Record Unit := [("name", .str ['a', Char.ofNat 0x2028, 'b'])]

/-- The entry is lost: its line is read as two, and neither is JSON. -/
theorem brokenEntry_lost :
    (obj brokenEntry).Valid ∧ isMeta brokenEntry = false ∧
      (readSessionLogFile oneAndHalf (appendSessionLog oneAndHalf none [brokenEntry] none)).2 ≠
        (readSessionLogFile oneAndHalf none).2 ++ [brokenEntry] := by
  refine ⟨?_, rfl, ?_⟩
  · rw [Json.valid_obj_iff]
    exact ⟨by decide, by simp [brokenEntry, Json.Valid]⟩
  · have hread : (readSessionLogFile oneAndHalf
        (appendSessionLog oneAndHalf none [brokenEntry] none)).2 = [] := rfl
    rw [hread]
    exact (append_ne_nil_of_right_ne_nil _ (cons_ne_nil _ _)).symm

open Misc

variable {p : PyFormat φ} {kind : Text} {logged entries : List (Record φ)}

/-- An entry of a kind with this key and this hash, full or not. -/
def isCopy (p : PyFormat φ) (kind key hash : Text) (full : Bool) (entry : Record φ) : Bool :=
  fieldIs entry "kind" kind && fieldText p entry "key" == key &&
    fieldText p entry "hash" == hash && isFull entry == full

/-- At most one entry of the kind that is not full, and at most one that is, for each key and hash
that are not empty. -/
def Deduped (p : PyFormat φ) (kind : Text) (entries : List (Record φ)) : Prop :=
  ∀ key hash : Text, key ≠ [] → hash ≠ [] → ∀ full : Bool,
    entries.countP (isCopy p kind key hash full) ≤ 1

variable {key hash : Text} {entry : Record φ}

theorem isCopy_iff {full : Bool} :
    isCopy p kind key hash full entry = true ↔ fieldIs entry "kind" kind = true ∧
      fieldText p entry "key" = key ∧ fieldText p entry "hash" = hash ∧ isFull entry = full := by
  unfold isCopy
  simp only [Bool.and_eq_true, beq_iff_eq, and_assoc]

theorem hasFullToolEntry_iff :
    hasFullToolEntry p logged key hash = true ↔
      ∃ entry ∈ logged, isCopy p "tool" key hash true entry = true := by
  unfold hasFullToolEntry isCopy
  simp only [any_eq_true, beq_true]

theorem mem_existingKeysAndHashes :
    (key, hash) ∈ existingKeysAndHashes p kind logged ↔
      ∃ entry ∈ logged, ∃ full, isCopy p kind key hash full entry = true := by
  unfold existingKeysAndHashes
  rw [mem_map]
  constructor
  · rintro ⟨entry, hentry, heq⟩
    obtain ⟨hmem, hkind⟩ := mem_filter.mp hentry
    obtain ⟨hkey, hhash⟩ := Prod.mk.inj heq
    exact ⟨entry, hmem, isFull entry, isCopy_iff.mpr ⟨hkind, hkey, hhash, rfl⟩⟩
  · rintro ⟨entry, hmem, full, hcopy⟩
    obtain ⟨hkind, hkey, hhash, -⟩ := isCopy_iff.mp hcopy
    exact ⟨entry, mem_filter.mpr ⟨hmem, hkind⟩, Prod.ext hkey hhash⟩

theorem existingKeysAndHashes_append (logged more : List (Record φ)) :
    existingKeysAndHashes p kind (logged ++ more) =
      existingKeysAndHashes p kind logged ++ existingKeysAndHashes p kind more := by
  unfold existingKeysAndHashes
  rw [filter_append, map_append]

theorem hasFullToolEntry_append (logged more : List (Record φ)) (key hash : Text) :
    hasFullToolEntry p (logged ++ more) key hash =
      (hasFullToolEntry p logged key hash || hasFullToolEntry p more key hash) :=
  any_append

/-- The key and the hash that the loop compares. -/
def strippedPair (p : PyFormat φ) (entry : Record φ) : Text × Text :=
  ((fieldText p entry "key").strip, (fieldText p entry "hash").strip)

/-- The loop appends the entry, of what the file had and the keys and hashes that exist. -/
def Kept (p : PyFormat φ) (kind : Text) (logged : List (Record φ))
    (existing : List (Text × Text)) (entry : Record φ) : Prop :=
  fieldIs entry "kind" kind = true ∧
    (¬((strippedPair p entry).1 ≠ [] ∧ (strippedPair p entry).2 ≠ [] ∧
        strippedPair p entry ∈ existing) ∨
      (kind = "tool" ∧ isFull entry = true ∧
        ¬hasFullToolEntry p logged (strippedPair p entry).1 (strippedPair p entry).2))

/-- What the loop does with an entry. -/
inductive DedupStep (p : PyFormat φ) (kind : Text) (logged out : List (Record φ))
    (existing : List (Text × Text)) (entry : Record φ) :
    List (Record φ) × List (Text × Text) → Prop
  | skipped (h : ¬Kept p kind logged existing entry) :
      DedupStep p kind logged out existing entry (out, existing)
  | kept {existing' : List (Text × Text)} (h : Kept p kind logged existing entry)
      (hexisting : ∀ key hash : Text, key ≠ [] → hash ≠ [] →
        ((key, hash) ∈ existing' ↔ (key, hash) ∈ existing ∨ (key, hash) = strippedPair p entry)) :
      DedupStep p kind logged out existing entry (out ++ [entry], existing')

theorem dedupEntry_step (p : PyFormat φ) (kind : Text) (logged out : List (Record φ))
    (existing : List (Text × Text)) (entry : Record φ) :
    DedupStep p kind logged out existing entry
      (dedupEntry p kind logged (out, existing) entry) := by
  unfold dedupEntry
  dsimp only
  split
  · rename_i hkind
    exact .skipped fun h => hkind h.1
  rename_i hkind
  have hkind := not_not.mp hkind
  split
  · rename_i hmem
    split
    · rename_i hup
      refine .kept ⟨hkind, .inr hup⟩ fun key hash _ _ => ⟨.inl, fun h => h.elim id fun heq => ?_⟩
      rw [heq]
      exact hmem.2.2
    · rename_i hup
      exact .skipped fun h => h.2.elim (fun hnew => hnew hmem) hup
  · rename_i hmem
    refine .kept ⟨hkind, .inl hmem⟩ fun key hash hkey hhash => ?_
    split
    · rw [mem_append, mem_singleton]
      rfl
    · rename_i hempty
      refine ⟨.inl, fun h => h.elim id fun heq => (hempty ?_).elim⟩
      obtain ⟨rfl, rfl⟩ := Prod.mk.inj heq
      exact ⟨hkey, hhash⟩

theorem dedupedEntries_singleton (p : PyFormat φ) (kind : Text) (logged : List (Record φ))
    (entry : Record φ) :
    (¬Kept p kind logged (existingKeysAndHashes p kind logged) entry ∧
      dedupedEntries p kind logged [entry] = []) ∨
    (Kept p kind logged (existingKeysAndHashes p kind logged) entry ∧
      dedupedEntries p kind logged [entry] = [entry]) := by
  unfold dedupedEntries
  rw [foldl_cons, foldl_nil]
  have hstep := dedupEntry_step p kind logged [] (existingKeysAndHashes p kind logged) entry
  revert hstep
  generalize dedupEntry p kind logged ([], existingKeysAndHashes p kind logged) entry = state
  intro hstep
  cases hstep with
  | skipped h => exact .inl ⟨h, rfl⟩
  | kept h _ => exact .inr ⟨h, rfl⟩

/-- The key and the hash have no blanks around them. -/
def IsPlain (p : PyFormat φ) (entry : Record φ) : Prop :=
  strippedPair p entry = (fieldText p entry "key", fieldText p entry "hash")

theorem fieldIs_unique {field t t' : Text} (h : fieldIs entry field t = true)
    (h' : fieldIs entry field t' = true) : t = t' := by
  unfold fieldIs at h h'
  split at h
  · rename_i heq
    rw [heq] at h'
    exact (beq_iff_eq.mp h).symm.trans (beq_iff_eq.mp h')
  · cases h

variable {kind' : Text}

theorem Deduped.append_kept (hplain : IsPlain p entry)
    (hkept : Kept p kind logged (existingKeysAndHashes p kind logged) entry)
    (h : Deduped p kind' logged) : Deduped p kind' (logged ++ [entry]) := by
  intro key hash hkey hhash full
  rw [countP_append, countP_singleton]
  split
  · rename_i hcopy
    obtain ⟨hkind', hkey', hhash', hfull⟩ := isCopy_iff.mp hcopy
    obtain rfl := fieldIs_unique hkept.1 hkind'
    have hpair : strippedPair p entry = (key, hash) := by rw [hplain, hkey', hhash']
    have hnone : logged.countP (isCopy p kind key hash full) = 0 := by
      rw [countP_eq_zero]
      intro other hother hcopy'
      rcases hkept.2 with hnew | ⟨rfl, hisFull, hnot⟩
      · rw [hpair] at hnew
        exact hnew ⟨hkey, hhash, mem_existingKeysAndHashes.mpr ⟨other, hother, full, hcopy'⟩⟩
      · rw [hpair] at hnot
        obtain rfl := hfull.symm.trans hisFull
        exact hnot (hasFullToolEntry_iff.mpr ⟨other, hother, hcopy'⟩)
    rw [hnone]
  · exact h key hash hkey hhash full

theorem Deduped.append_one (hplain : fieldIs entry "kind" kind = true → IsPlain p entry)
    (h : Deduped p kind' logged) :
    Deduped p kind' (logged ++ dedupedEntries p kind logged [entry]) := by
  rcases dedupedEntries_singleton p kind logged entry with ⟨-, heq⟩ | ⟨hkept, heq⟩
  · rw [heq, List.append_nil]
    exact h
  · rw [heq]
    exact h.append_kept (hplain hkept.1) hkept

/-- The entries after a batch that is appended entry by entry, each against what is there then. -/
def oneByOne (p : PyFormat φ) (kind : Text) (logged entries : List (Record φ)) :
    List (Record φ) :=
  entries.foldl (fun logged entry => logged ++ dedupedEntries p kind logged [entry]) logged

theorem Deduped.oneByOne
    (hplain : ∀ entry ∈ entries, fieldIs entry "kind" kind = true → IsPlain p entry)
    (h : Deduped p kind' logged) : Deduped p kind' (oneByOne p kind logged entries) := by
  unfold CytClient.oneByOne
  induction entries generalizing logged with
  | nil => exact h
  | cons entry entries ih =>
    rw [foldl_cons]
    exact ih (fun e he => hplain e (mem_cons_of_mem _ he))
      (h.append_one (hplain entry mem_cons_self))

/-- No tool gets two full entries from the batch, unless the file has one of it. -/
def FullOnce (p : PyFormat φ) (logged entries : List (Record φ)) : Prop :=
  ∀ key hash : Text, key ≠ [] → hash ≠ [] → hasFullToolEntry p logged key hash = false →
    entries.countP (isCopy p "tool" key hash true) ≤ 1

variable {out : List (Record φ)}
variable {existing : List (Text × Text)}

/-- In the batch the loop decides as it would against a file with what it has appended so far. -/
theorem kept_iff (hplain : fieldIs entry "kind" kind = true → IsPlain p entry)
    (hexisting : ∀ key hash : Text, key ≠ [] → hash ≠ [] →
      ((key, hash) ∈ existing ↔ (key, hash) ∈ existingKeysAndHashes p kind (logged ++ out)))
    (honce : kind = "tool" → FullOnce p logged (out ++ entry :: entries)) :
    Kept p kind logged existing entry ↔
      Kept p kind (logged ++ out) (existingKeysAndHashes p kind (logged ++ out)) entry := by
  unfold Kept
  refine and_congr_right fun hkind => ?_
  by_cases hne : (strippedPair p entry).1 ≠ [] ∧ (strippedPair p entry).2 ≠ []
  · rw [hexisting _ _ hne.1 hne.2]
    refine or_congr_right (and_congr_right fun htool => and_congr_right fun hfull =>
      not_congr ?_)
    rw [hasFullToolEntry_append, Bool.or_eq_true]
    refine ⟨.inl, fun h => h.elim id fun hout => ?_⟩
    by_contra hnot
    -- the batch would have a second full entry of the tool
    have htwo := honce htool _ _ hne.1 hne.2 (Bool.eq_false_of_not_eq_true hnot)
    obtain ⟨other, hother, hcopy⟩ := hasFullToolEntry_iff.mp hout
    have hone : 0 < out.countP (isCopy p "tool" (strippedPair p entry).1
        (strippedPair p entry).2 true) := countP_pos_iff.mpr ⟨other, hother, hcopy⟩
    have hcopy' : isCopy p "tool" (strippedPair p entry).1 (strippedPair p entry).2 true
        entry = true := by
      rw [hplain hkind]
      exact isCopy_iff.mpr ⟨htool ▸ hkind, rfl, rfl, hfull⟩
    rw [countP_append, countP_cons, if_pos hcopy'] at htwo
    omega
  · have hnew : ∀ existing : List (Text × Text), ¬((strippedPair p entry).1 ≠ [] ∧
        (strippedPair p entry).2 ≠ [] ∧ strippedPair p entry ∈ existing) :=
      fun _ h => hne ⟨h.1, h.2.1⟩
    exact iff_of_true (.inl (hnew _)) (.inl (hnew _))

section

variable (hplain : ∀ entry ∈ entries, fieldIs entry "kind" kind = true → IsPlain p entry)
include hplain

theorem append_foldl_dedupEntry (hexisting : ∀ key hash : Text, key ≠ [] → hash ≠ [] →
      ((key, hash) ∈ existing ↔ (key, hash) ∈ existingKeysAndHashes p kind (logged ++ out)))
    (honce : kind = "tool" → FullOnce p logged (out ++ entries)) :
    logged ++ (entries.foldl (dedupEntry p kind logged) (out, existing)).1 =
      oneByOne p kind (logged ++ out) entries := by
  induction entries generalizing out existing with
  | nil => rfl
  | cons entry entries ih =>
    have hentry := hplain entry mem_cons_self
    have hrest := fun e he => hplain e (mem_cons_of_mem _ he)
    have hiff := kept_iff hentry hexisting honce
    have hstep := dedupEntry_step p kind logged out existing entry
    rw [foldl_cons]
    generalize dedupEntry p kind logged (out, existing) entry = state at hstep
    unfold oneByOne at ih ⊢
    rw [foldl_cons]
    cases hstep with
    | skipped h =>
      rcases dedupedEntries_singleton p kind (logged ++ out) entry with ⟨-, heq⟩ | ⟨h', -⟩
      · rw [heq, List.append_nil]
        refine ih hrest hexisting fun htool key hash hkey hhash hnone => ?_
        refine le_trans (List.Sublist.countP_le ?_) (honce htool key hash hkey hhash hnone)
        exact (List.Sublist.refl out).append (sublist_cons_self entry entries)
      · exact absurd (hiff.mpr h') h
    | kept h hexisting' =>
      rcases dedupedEntries_singleton p kind (logged ++ out) entry with ⟨h', -⟩ | ⟨-, heq⟩
      · exact absurd (hiff.mp h) h'
      rw [heq, List.append_assoc]
      refine ih hrest (fun key hash hkey hhash => ?_) fun htool => ?_
      · rw [hexisting' key hash hkey hhash, hexisting key hash hkey hhash, ← List.append_assoc,
          existingKeysAndHashes_append (logged ++ out) [entry], mem_append]
        refine or_congr_right ?_
        unfold existingKeysAndHashes
        rw [filter_singleton, h.1, cond_true, map_singleton, mem_singleton, hentry h.1]
      · rw [List.append_assoc]
        exact honce htool

theorem append_dedupedEntries (honce : kind = "tool" → FullOnce p logged entries) :
    logged ++ dedupedEntries p kind logged entries = oneByOne p kind logged entries := by
  have h := @append_foldl_dedupEntry φ p kind logged entries [] _ hplain
    (fun key hash _ _ => by rw [List.append_nil]) honce
  rwa [List.append_nil] at h

end

/-- The line of the entry reads as the entry: it is no meta line, and no string in it has a line
break that `json.dumps` leaves bare. -/
structure ReadsBack (entry : Record φ) : Prop where
  valid : (obj entry).Valid
  notMeta : isMeta entry = false
  unbroken : Json.Strings Unbroken (.obj entry)

theorem readSessionLogFile_readsBack (hp : p.Lawful) (log agent : Option Text)
    (h : ∀ entry ∈ entries, ReadsBack entry) :
    (readSessionLogFile p (appendSessionLog p log entries agent)).2 =
      (readSessionLogFile p log).2 ++ entries :=
  (append_roundTrip_iff hp log agent entries (fun e he => (h e he).valid)
    fun e he => (h e he).notMeta).mpr fun e he => (h e he).unbroken

theorem readSessionLog_append (hp : p.Lawful) (log agent : Option Text)
    (h : ∀ entry ∈ entries, ReadsBack entry)
    (hkind : ∀ entry ∈ entries, fieldIs entry "kind" "compaction" = false) :
    readSessionLog p (appendSessionLog p log entries agent) true =
      readSessionLog p log true ++ entries := by
  unfold readSessionLog
  rw [if_pos rfl, if_pos rfl, readSessionLogFile_readsBack hp log agent h,
    entriesAfterLatestCompaction_append hkind]

theorem readSessionLog_marker (hp : p.Lawful) (log agent : Option Text) {marker : Record φ}
    (h : ReadsBack marker) (hkind : fieldIs marker "kind" "compaction" = true) :
    readSessionLog p.toFloatFormat (appendSessionLog p.toFloatFormat log [marker] agent) true =
      [] := by
  unfold readSessionLog
  rw [if_pos rfl, readSessionLogFile_readsBack hp log agent (forall_mem_singleton.mpr h)]
  unfold entriesAfterLatestCompaction
  rw [reverse_append, reverse_singleton, singleton_append,
    takeWhile_cons_of_neg (by rw [hkind]; exact Bool.false_ne_true), reverse_nil]

theorem newLines_some (f : Json.FloatFormat φ) (text : Text) (entries : List (Record φ))
    (agent : Option Text) :
    newLines f (some text) entries agent = entries.map fun e => dumps f false (.obj e) := by
  cases agent <;> rfl

theorem appendSessionLog_append (f : Json.FloatFormat φ) (log agent : Option Text)
    (entries more : List (Record φ)) :
    appendSessionLog f (appendSessionLog f log entries agent) more agent =
      appendSessionLog f log (entries ++ more) agent := by
  by_cases hentries : entries = []
  · rw [hentries, nil_append]
    rfl
  by_cases hmore : more = []
  · rw [hmore, List.append_nil]
    rfl
  unfold appendSessionLog
  rw [if_neg hentries, if_neg hmore, if_neg (append_ne_nil_of_left_ne_nil hentries more)]
  have hlines : newLines f log (entries ++ more) agent = newLines f log entries agent ++
      more.map fun e => dumps f false (.obj e) := by
    unfold newLines
    rw [map_append, ← List.append_assoc]
  rw [newLines_some, hlines, foldl_append]
  rfl

/-- A batch whose entries of the kind read back, have no blanks around key and hash and, for tools,
have no second full entry of a key and hash that has none in the file. -/
structure BatchFits (p : PyFormat φ) (kind : Text) (log : Option Text)
    (entries : List (Record φ)) : Prop where
  readsBack : ∀ entry ∈ entries, fieldIs entry "kind" kind = true → ReadsBack entry
  plain : ∀ entry ∈ entries, fieldIs entry "kind" kind = true → IsPlain p entry
  fullOnce : kind = "tool" →
    FullOnce p (readSessionLog p log true) entries

/-- A batch that is appended in calls of one entry. -/
def appendOneByOne (p : PyFormat φ) (kind : Text) (log : Option Text)
    (entries : List (Record φ)) (agent : Option Text) : Option Text :=
  entries.foldl (fun log entry => appendDedupedKindEntries p kind log [entry] agent) log

theorem appendOneByOne_spec (hp : p.Lawful) (hcompaction : kind ≠ "compaction")
    (agent : Option Text)
    (hreads : ∀ entry ∈ entries, fieldIs entry "kind" kind = true → ReadsBack entry)
    (log : Option Text) : ∃ added : List (Record φ),
      appendOneByOne p kind log entries agent = appendSessionLog p log added agent ∧
      oneByOne p kind (readSessionLog p log true) entries = readSessionLog p log true ++ added ∧
      readSessionLog p (appendOneByOne p kind log entries agent) true =
        readSessionLog p log true ++ added := by
  unfold appendOneByOne oneByOne
  induction entries generalizing log with
  | nil => exact ⟨[], rfl, (List.append_nil _).symm, (List.append_nil _).symm⟩
  | cons entry entries ih =>
    rw [foldl_cons, foldl_cons]
    have hrest := ih fun e he => hreads e (mem_cons_of_mem _ he)
    rcases dedupedEntries_singleton p kind (readSessionLog p log true) entry with
      ⟨-, heq⟩ | ⟨hkept, heq⟩
    · have hsame : appendDedupedKindEntries p kind log [entry] agent = log := by
        unfold appendDedupedKindEntries
        rw [heq]
        rfl
      rw [hsame, heq, List.append_nil]
      exact hrest log
    · have hone : appendDedupedKindEntries p kind log [entry] agent =
          appendSessionLog p log [entry] agent := by
        unfold appendDedupedKindEntries
        rw [heq]
      have hread : readSessionLog p
          (appendSessionLog p log [entry] agent) true = readSessionLog p log true ++ [entry] := by
        refine readSessionLog_append hp log agent (forall_mem_singleton.mpr
          (hreads entry mem_cons_self hkept.1)) (forall_mem_singleton.mpr ?_)
        exact Bool.eq_false_of_not_eq_true fun h => hcompaction (fieldIs_unique hkept.1 h)
      obtain ⟨added, hfile, hitems, hfinal⟩ := hrest (appendSessionLog p log [entry] agent)
      refine ⟨[entry] ++ added, ?_, ?_, ?_⟩
      · rw [hone, hfile, appendSessionLog_append]
      · rw [heq, ← hread, hitems, hread, List.append_assoc]
      · rw [hone, hfinal, hread, List.append_assoc]

variable {log : Option Text}

theorem appendDedupedKindEntries_spec (hp : p.Lawful) (hcompaction : kind ≠ "compaction")
    (agent : Option Text) (h : BatchFits p kind log entries) :
    appendOneByOne p kind log entries agent = appendDedupedKindEntries p kind log entries agent ∧
      readSessionLog p (appendDedupedKindEntries p kind log entries agent) true =
        oneByOne p kind (readSessionLog p log true) entries := by
  obtain ⟨added, hfile, hitems, hread⟩ := appendOneByOne_spec hp hcompaction agent h.readsBack log
  have hadded : added = dedupedEntries p kind (readSessionLog p log true) entries :=
    append_cancel_left (hitems.symm.trans (append_dedupedEntries h.plain h.fullOnce).symm)
  have hsame : appendOneByOne p kind log entries agent =
      appendDedupedKindEntries p kind log entries agent := by
    rw [hfile, hadded]
    rfl
  refine ⟨hsame, ?_⟩
  rw [← hsame, hread, hitems]

/-- A call that appends to the session log: `append_tool_entries`, `append_skill_entries`, or one
that writes a compaction marker. -/
inductive LogCall (φ : Type)
  | tools (entries : List (Record φ)) (agent : Option Text)
  | skills (entries : List (Record φ)) (agent : Option Text)
  | compaction (marker : Record φ) (agent : Option Text)

def LogCall.append (p : PyFormat φ) (log : Option Text) : LogCall φ → Option Text
  | .tools entries agent => appendToolEntries p log entries agent
  | .skills entries agent => appendDedupedKindEntries p "skill" log entries agent
  | .compaction marker agent => appendSessionLog p log [marker] agent

/-- The log after the call when it gets its entries one by one. -/
def LogCall.appendEach (p : PyFormat φ) (log : Option Text) : LogCall φ → Option Text
  | .tools entries agent =>
    entries.foldl (fun log entry => appendToolEntries p log [entry] agent) log
  | .skills entries agent =>
    entries.foldl (fun log entry => appendDedupedKindEntries p "skill" log [entry] agent) log
  | .compaction marker agent => appendSessionLog p log [marker] agent

/-- When a call deduplicates. -/
def LogCall.Fits (p : PyFormat φ) (log : Option Text) : LogCall φ → Prop
  | .tools entries _ => BatchFits p "tool" log entries
  | .skills entries _ => BatchFits p "skill" log entries
  | .compaction marker _ =>
    ReadsBack marker ∧ fieldIs marker "kind" "compaction" = true

theorem LogCall.appendEach_eq (hp : p.Lawful) {call : LogCall φ} (h : call.Fits p log) :
    call.appendEach p log = call.append p log := by
  cases call with
  | tools entries agent => exact (appendDedupedKindEntries_spec hp (by decide) agent h).1
  | skills entries agent => exact (appendDedupedKindEntries_spec hp (by decide) agent h).1
  | compaction marker agent => rfl

theorem LogCall.deduped_append (hp : p.Lawful) {call : LogCall φ} (h : call.Fits p log)
    (hlog : Deduped p kind (readSessionLog p log true)) :
    Deduped p kind (readSessionLog p (call.append p log) true) := by
  cases call with
  | tools entries agent =>
    have hread := (appendDedupedKindEntries_spec hp (by decide) agent h).2
    exact hread ▸ hlog.oneByOne h.plain
  | skills entries agent =>
    have hread := (appendDedupedKindEntries_spec hp (by decide) agent h).2
    exact hread ▸ hlog.oneByOne h.plain
  | compaction marker agent =>
    have hread := readSessionLog_marker hp log agent h.1 h.2
    exact hread ▸ fun key hash _ _ full => Nat.zero_le 1

/-- In every run whose calls fit, every state has at most one entry that is not full and one that is
for each key and hash, and appending a batch that fits entry by entry leaves the same file. -/
theorem deduped_of_run (hp : p.Lawful) {start log : Option Text} {calls : List (LogCall φ)}
    (hstart : Deduped p kind (readSessionLog p start true))
    (run : Run (fun log call => some (LogCall.append p log call)) (LogCall.Fits p) start calls log) :
    Deduped p kind (readSessionLog p log true) ∧
      ∀ call : LogCall φ, call.Fits p log → call.appendEach p log = call.append p log := by
  refine ⟨?_, fun _ => LogCall.appendEach_eq hp⟩
  refine Run.invariant (P := fun log => Deduped p kind (readSessionLog p log true))
    run hstart fun hlog hfits hnext => ?_
  rw [← Option.some.inj hnext]
  exact LogCall.deduped_append hp hfits hlog

/-- `{"kind": "tool", "key": "tool:s:t", "hash": "h"}`. -/
def nameOnlyEntry : Record Empty :=
  [("kind", .str "tool"), ("key", .str "tool:s:t"),
    ("hash", .str "h")]

/-- The same with `"full": true`. -/
def fullEntry : Record Empty := nameOnlyEntry ++ [("full".toList, .bool true)]

theorem readsBack_of_check {entry : Record Empty} (hkeys : (entry.map Prod.fst).Nodup)
    (hvalues : ∀ kv ∈ entry, kv.2.Valid) (hmeta : isMeta entry = false)
    (hunbroken : (obj entry).strings.any (fun s => s.any Json.isBareBreak) = false) :
    ReadsBack entry := by
  refine ⟨Json.valid_obj_iff.mpr ⟨hkeys, hvalues⟩, hmeta, fun s hs => ?_⟩
  exact Text.forall_not_of_any (Bool.eq_false_of_not_eq_true (any_eq_false.mp hunbroken s hs))

theorem readsBack_nameOnlyEntry : ReadsBack nameOnlyEntry := by
  have hkeys : ["kind".toList, "key".toList, "hash".toList].Nodup := by decide
  refine readsBack_of_check hkeys ?_ rfl rfl
  rintro kv (_ | ⟨_, _ | ⟨_, _ | ⟨_, ⟨⟩⟩⟩⟩) <;> trivial

theorem readsBack_fullEntry : ReadsBack fullEntry := by
  have hkeys : ["kind".toList, "key".toList, "hash".toList, "full".toList].Nodup := by decide
  refine readsBack_of_check hkeys ?_ rfl rfl
  rintro kv (_ | ⟨_, _ | ⟨_, _ | ⟨_, _ | ⟨_, ⟨⟩⟩⟩⟩⟩) <;> trivial

theorem deduped_noFile : Deduped p kind (readSessionLog p none true) :=
  fun _ _ _ _ _ => Nat.zero_le 1

theorem upgradeBatch_fits :
    LogCall.Fits noFloats none (.tools [nameOnlyEntry, fullEntry] none) := by
  refine ⟨?_, ?_, fun _ key hash _ _ _ => ?_⟩
  · rintro entry (_ | ⟨_, _ | ⟨_, ⟨⟩⟩⟩) -
    · exact readsBack_nameOnlyEntry
    · exact readsBack_fullEntry
  · rintro entry (_ | ⟨_, _ | ⟨_, ⟨⟩⟩⟩) - <;> rfl
  · have hnot : ¬isCopy noFloats "tool".toList key hash true nameOnlyEntry = true :=
      fun h => Bool.false_ne_true (isCopy_iff.mp h).2.2.2
    rw [countP_cons_of_neg hnot]
    exact countP_le_length

theorem deduped_of_run_upgrade :
    Deduped noFloats "tool" (readSessionLog noFloats
        (appendToolEntries noFloats none [nameOnlyEntry, fullEntry] none) true) ∧
      ∀ call : LogCall Empty, call.Fits noFloats
          (appendToolEntries noFloats none [nameOnlyEntry, fullEntry] none) →
        call.appendEach noFloats (appendToolEntries noFloats none [nameOnlyEntry, fullEntry] none) =
          call.append noFloats (appendToolEntries noFloats none [nameOnlyEntry, fullEntry] none) :=
  deduped_of_run Json.noFloats_lawful deduped_noFile (.snoc .nil upgradeBatch_fits rfl)

/-- Two full entries of one tool in a batch are both appended, to a file that does not exist: the
second is not appended when it comes in a call of its own. -/
theorem full_entries_both_appended :
    Deduped noFloats "tool" (readSessionLog noFloats none true) ∧
      ¬Deduped noFloats "tool" (readSessionLog noFloats
        (LogCall.append noFloats none (.tools [fullEntry, fullEntry] none)) true) ∧
      LogCall.appendEach noFloats none (.tools [fullEntry, fullEntry] none) ≠
        LogCall.append noFloats none (.tools [fullEntry, fullEntry] none) := by
  have hread : readSessionLog noFloats
      (LogCall.append noFloats none (.tools [fullEntry, fullEntry] none)) true =
        [fullEntry, fullEntry] := rfl
  refine ⟨deduped_noFile, fun h => ?_, by decide +kernel⟩
  have hone := h "tool:s:t" "h" (cons_ne_nil _ _) (cons_ne_nil _ _) true
  rw [hread] at hone
  have htwo : [fullEntry, fullEntry].countP (isCopy noFloats "tool"
      "tool:s:t" "h" true) = 2 := by rfl
  omega

end ClearYourTools.CytClient
