import ClearYourTools.CytClient.AgentInterceptor
import ClearYourTools.CytClient.Proofs.SessionLog

/-!
# Reading a skill file again and again

The mode of a Read counts the entries of the file in the session log, and the entries are written
through an append that drops those that are there.
-/

namespace ClearYourTools.CytClient

open Misc List
open Json (get? Unbroken strOr truthy)

variable {φ : Type}

/-- A skill file: its resolved path, the key that names it, and the hash of its content. -/
structure SkillFile (env : InterceptEnv φ) where
  resolved : Text
  key : Text
  hash : Text
  names : candidate env key = some resolved
  key_strip : key.strip = key
  hash_strip : hash.strip = hash
  hash_ne_nil : hash ≠ []

variable {env : InterceptEnv φ}

/-- The entry has nothing to do with the file. -/
structure Foreign (file : SkillFile env) (entry : Record φ) : Prop where
  kind : fieldIs entry "kind" "compaction" = false
  key : candidate env (fieldText env entry "key") ≠ some file.resolved
  path : fieldIs entry "kind" "skill" = true →
    file.resolved ∉ skillEntryPathCandidates env entry

/-- The entry of a skinny read of the file. -/
structure SkinnyEntry (file : SkillFile env) (entry : Record φ) : Prop where
  kind : get? entry "kind" = some (.str "skill")
  key : get? entry "key" = some (.str file.key)
  hash : get? entry "hash" = some (.str file.hash)
  full : get? entry "full" = some (.bool false)
  valid : (Json.obj entry).Valid
  notMeta : isMeta entry = false

/-- The reply of the daemon: a skinny path and an entry. -/
structure RepliesSkinny (file : SkillFile env) (call : ReadCall φ) (entry : Record φ) : Prop where
  logged : SkinnyEntry file entry
  reply : ∃ reply, call.reply.bind (parseAgentInterceptorResponse env) = some reply ∧
    fieldIs reply "permission" "deny" = false ∧
    (∃ path, skinnyPath reply = some path) ∧
    get? reply "skill_log_entry" = some (.obj entry)

/-- A Read of the whole file under the skill directories, by a path. -/
structure ReadsWhole (file : SkillFile env) (entries : List (Record φ)) (call : ReadCall φ)
    (path : Text) : Prop where
  enabled : env.enabled = true
  argument : readPathFromToolInput call.toolInput = some path
  resolve : env.resolve path = some file.resolved
  expanded : env.resolve (env.expandUser path) = some file.resolved
  key : candidate env (skillItemKeyForPath env (env.expandUser path)) = some file.resolved
  under : isSkillMdUnderDirectories env path (skillDirectories env entries) = true
  whole : hasPartialReadParams call.toolInput = false
  notExcluded : isExcludedSystemSkill env (env.expandUser path) = false
  isFile : env.isFile (env.expandUser path) = true
  hash : readContentHash env path = file.hash

def logEntries (env : InterceptEnv φ) (log : Option Text) : List (Record φ) :=
  (readSessionLogFile env log).2

/-- What happens: Reads of the whole file, each of which the daemon would answer with a skinny path
and an entry that the log gives back, and entries that have nothing to do with the file. -/
def ReadsFile (file : SkillFile env) (s : ReadState) : ReadEvent φ → Prop
  | .read call => (∃ path, ReadsWhole file (logEntries env s.log) call path) ∧
      ∃ entry, RepliesSkinny file call entry ∧ ∀ t ∈ (Json.obj entry).strings, Unbroken t
  | .others log => ∃ more, logEntries env log = logEntries env s.log ++ more ∧
      ∀ entry ∈ more, Foreign file entry

/-- What the claim asks of the answer to the Read after `n` others. -/
def Escalated (n : ℕ) (response : Option ReadResponse) : Prop :=
  if n < fullPromotionThreshold then ∃ path, response = some (.skinny path)
  else if n = fullPromotionThreshold then response = some .allow
  else response = some .deniedFullReread

/-- The first Reads get the skinny file, the next one the full file, and the later ones are denied. -/
def Escalates (s : ReadState) : Prop :=
  ∀ n response, s.responses[n]? = some response → Escalated n response

/-- The Read is one of the first, with a query, or the next one, without; and it is not in the turn
of the entry of the file. -/
def EarlyRead (env : InterceptEnv φ) (s : ReadState) : ReadEvent φ → Prop
  | .read call =>
    (∀ path, readPathFromToolInput call.toolInput = some path →
      deniesInTurn env (entriesAfterLatestCompaction (logEntries env s.log)) call path = false) ∧
    (s.responses.length < fullPromotionThreshold ∧
        Text.strip (interceptQueryForPayload env (logEntries env s.log) call) ≠ [] ∨
      s.responses.length = fullPromotionThreshold ∧
        Text.strip (interceptQueryForPayload env (logEntries env s.log) call) = [])
  | .others _ => True

variable {file : SkillFile env} {entries : List (Record φ)} {entry : Record φ}

theorem candidate_eq_of_key {raw : Text} (h : candidate env raw = some file.resolved) : raw ≠ [] := by
  rintro rfl
  cases h

theorem Foreign.hasKey (h : Foreign file entry) {key : Text}
    (hkey : candidate env key = some file.resolved) : hasKey env key entry = false := by
  refine eq_false_of_ne_true fun heq => h.key ?_
  rw [beq_iff_eq.mp heq, hkey]

theorem Foreign.skillEntryMatches (h : Foreign file entry) {path : Text}
    (hpath : env.resolve path = some file.resolved) :
    skillEntryMatchesReadPath env entry path = false := by
  unfold skillEntryMatchesReadPath
  rw [hpath, Option.any_some]
  cases hkind : fieldIs entry "kind" "skill" with
  | false => rfl
  | true =>
    rw [Bool.true_and]
    exact eq_false_of_ne_true fun hmem => h.path hkind (contains_iff_mem.mp hmem)

theorem SkinnyEntry.fieldText_key (h : SkinnyEntry file entry) :
    fieldText env entry "key" = file.key := by
  have hne := candidate_eq_of_key file.names
  unfold fieldText strOr Json.orElse
  rw [h.key]
  cases hkey : file.key with
  | nil => exact absurd hkey hne
  | cons c t => rfl

/-- The entries of the log while the file is read: at most one is of the file. -/
inductive AtMostOne (file : SkillFile env) (entries : List (Record φ)) : Prop
  | none (h : ∀ entry ∈ entries, Foreign file entry)
  | one {before after : List (Record φ)} {entry : Record φ} (h : SkinnyEntry file entry)
      (heq : entries = before ++ entry :: after) (hbefore : ∀ entry ∈ before, Foreign file entry)
      (hafter : ∀ entry ∈ after, Foreign file entry)

section

variable (h : AtMostOne file entries)
include h

theorem AtMostOne.mem : ∀ entry ∈ entries, Foreign file entry ∨ SkinnyEntry file entry := by
  intro entry hentry
  cases h with
  | none h => exact .inl (h entry hentry)
  | one h heq hbefore hafter =>
    rw [heq] at hentry
    obtain hentry | hentry := mem_append.mp hentry
    · exact .inl (hbefore entry hentry)
    · obtain rfl | hentry := mem_cons.mp hentry
      · exact .inr h
      · exact .inl (hafter entry hentry)

theorem AtMostOne.append {more : List (Record φ)}
    (hmore : ∀ entry ∈ more, Foreign file entry) : AtMostOne file (entries ++ more) := by
  cases h with
  | none h =>
    refine .none fun entry hentry => ?_
    obtain hentry | hentry := mem_append.mp hentry
    · exact h entry hentry
    · exact hmore entry hentry
  | @one before after entry h heq hbefore hafter =>
    have hbehind : ∀ entry ∈ after ++ more, Foreign file entry := by
      intro entry hentry
      obtain hentry | hentry := mem_append.mp hentry
      · exact hafter entry hentry
      · exact hmore entry hentry
    refine .one h ?_ hbefore hbehind
    rw [heq, List.append_assoc, List.cons_append]

theorem AtMostOne.entriesAfterLatestCompaction :
    entriesAfterLatestCompaction entries = entries := by
  unfold CytClient.entriesAfterLatestCompaction
  rw [takeWhile_eq_self_iff.mpr, reverse_reverse]
  intro entry hentry
  obtain hforeign | hskinny := h.mem entry (mem_reverse.mp hentry)
  · rw [hforeign.kind]
    rfl
  · unfold fieldIs
    rw [hskinny.kind]
    rfl

end

theorem SkinnyEntry.satisfiesFull (h : SkinnyEntry file entry) (key currentHash : Text) :
    satisfiesFull env key currentHash entry = false := by
  unfold CytClient.satisfiesFull
  rw [h.full, Option.any_some]
  unfold truthy
  rw [Bool.and_false, Bool.false_and]

theorem SkinnyEntry.textField_hash (h : SkinnyEntry file entry) :
    textField entry "hash" = some file.hash := by
  unfold textField
  rw [h.hash]
  dsimp only
  rw [file.hash_strip, if_neg file.hash_ne_nil]

section

variable (h : AtMostOne file entries)
include h

theorem AtMostOne.countKey_le {key : Text}
    (hkey : candidate env key = some file.resolved) : countKey env entries key ≤ 1 := by
  have hzero : ∀ part : List (Record φ), (∀ entry ∈ part, Foreign file entry) →
      part.countP (hasKey env key) = 0 := fun part hpart =>
    countP_eq_zero.mpr fun entry hentry =>
      Bool.not_eq_true _ ▸ (hpart entry hentry).hasKey hkey
  unfold countKey
  cases h with
  | none h =>
    rw [hzero entries h]
    exact Nat.zero_le _
  | one h heq hbefore hafter =>
    rw [heq, countP_append, countP_cons, hzero _ hbefore, hzero _ hafter]
    split <;> omega

theorem AtMostOne.mode {key : Text} (hkey : candidate env key = some file.resolved) :
    resolveReadInterceptMode env entries key file.hash = .skinny := by
  have hfull : hasSatisfiedFull env entries key file.hash = false := by
    refine any_eq_false.mpr fun entry hentry => Bool.not_eq_true _ ▸ ?_
    obtain hforeign | hskinny := h.mem entry hentry
    · unfold CytClient.satisfiesFull
      rw [hforeign.hasKey hkey, Bool.false_and, Bool.false_and]
    · exact hskinny.satisfiesFull key file.hash
  have hlatest : (latestHash env entries key).any (· != file.hash) = false := by
    cases hhash : latestHash env entries key with
    | none => rfl
    | some hash =>
      obtain ⟨entry, hentry, heq⟩ := exists_of_findSome?_eq_some hhash
      split at heq
      · rename_i hhas
        obtain hforeign | hskinny := h.mem entry (mem_reverse.mp hentry)
        · rw [hforeign.hasKey hkey] at hhas
          cases hhas
        · rw [hskinny.textField_hash] at heq
          cases heq
          rw [Option.any_some, bne_self_eq_false]
      · cases heq
  have hcount : ¬ fullPromotionThreshold ≤ countKey env entries key := by
    have := h.countKey_le hkey
    unfold fullPromotionThreshold
    omega
  unfold resolveReadInterceptMode
  rw [hfull, hlatest, if_neg Bool.false_ne_true, if_neg Bool.false_ne_true, if_neg hcount]

theorem AtMostOne.readSessionKey {path : Text}
    (hexpanded : env.resolve (env.expandUser path) = some file.resolved)
    (hkey : candidate env (skillItemKeyForPath env (env.expandUser path)) = some file.resolved) :
    candidate env (readSessionKey env entries path) = some file.resolved := by
  unfold CytClient.readSessionKey
  cases hsession : sessionSkillKeyForReadPath env entries (env.expandUser path) with
  | none => exact hkey
  | some key =>
    obtain ⟨entry, hentry, heq⟩ := exists_of_findSome?_eq_some hsession
    split at heq
    · rename_i hmatches
      obtain hforeign | hskinny := h.mem entry (mem_reverse.mp hentry)
      · rw [hforeign.skillEntryMatches hexpanded] at hmatches
        cases hmatches
      · rw [hskinny.fieldText_key, file.key_strip] at heq
        dsimp only at heq
        rw [if_neg (candidate_eq_of_key file.names)] at heq
        cases heq
        exact file.names
    · cases heq

end

variable {log : Option Text} {call : ReadCall φ} {path : Text}

theorem handleReadIntercept_eq (h : AtMostOne file (logEntries env log))
    (hreads : ReadsWhole file (logEntries env log) call path) :
    handleReadIntercept env log call =
      if deniesInTurn env (logEntries env log) call path then (some .deniedRedundant, log)
      else if Text.strip (interceptQueryForPayload env (logEntries env log) call) = [] then
        (some .allow, log)
      else (some (readInterceptFromDaemon env log call).1, (readInterceptFromDaemon env log call).2) := by
  have hmode := h.mode (h.readSessionKey hreads.expanded hreads.key)
  unfold logEntries at h hmode ⊢
  have hunder := hreads.under
  unfold logEntries at hunder
  unfold handleReadIntercept readInterceptDecision
  dsimp only
  rw [hreads.enabled, hreads.argument]
  dsimp only
  rw [hunder, hreads.whole, hreads.notExcluded, hreads.isFile, h.entriesAfterLatestCompaction,
    hreads.hash, hmode]
  cases deniesInTurn env (readSessionLogFile env log).2 call path with
  | true => rfl
  | false => rfl

theorem readInterceptFromDaemon_eq (log : Option Text) (hreplies : RepliesSkinny file call entry) :
    ∃ path, readInterceptFromDaemon env log call =
      (.skinny path, appendSkillEntries env log [entry]) := by
  obtain ⟨reply, hreply, hdeny, ⟨path, hpath⟩, hentry⟩ := hreplies.reply
  refine ⟨path, ?_⟩
  unfold readInterceptFromDaemon
  rw [hreply]
  dsimp only
  rw [hdeny, hpath, hentry]
  rfl

section

variable (h : SkinnyEntry file entry)
include h

theorem SkinnyEntry.fieldText_hash : fieldText env entry "hash" = file.hash := by
  have hne := file.hash_ne_nil
  unfold fieldText strOr Json.orElse
  rw [h.hash]
  cases hhash : file.hash with
  | nil => exact absurd hhash hne
  | cons c t => rfl

theorem SkinnyEntry.fieldIs_skill : fieldIs entry "kind" "skill" = true := by
  unfold fieldIs
  rw [h.kind]
  exact beq_self_eq_true _

theorem SkinnyEntry.dedupedEntries (logged : List (Record φ)) :
    dedupedEntries env "skill" logged [entry] =
      if (file.key, file.hash) ∈ existingKeysAndHashes env "skill" logged then []
      else [entry] := by
  have hkind : ¬¬ fieldIs entry "kind" "skill" = true := not_not.mpr h.fieldIs_skill
  have hkey := candidate_eq_of_key file.names
  have htool : ¬ ("skill".toList = "tool".toList ∧ isFull entry = true ∧
      ¬ hasFullToolEntry env logged file.key file.hash = true) := fun htool => by
    cases htool.1
  unfold CytClient.dedupedEntries
  rw [foldl_cons, foldl_nil]
  unfold dedupEntry
  rw [if_neg hkind]
  dsimp only
  rw [h.fieldText_key, h.fieldText_hash, file.key_strip, file.hash_strip, if_neg htool]
  by_cases hmem : (file.key, file.hash) ∈ existingKeysAndHashes env "skill" logged
  · rw [if_pos ⟨hkey, file.hash_ne_nil, hmem⟩, if_pos hmem]
  · rw [if_neg fun hall => hmem hall.2.2, if_neg hmem]
    rfl

end

theorem AtMostOne.appendSkillEntries (hf : env.toFloatFormat.Lawful)
    (h : AtMostOne file (logEntries env log)) (hentry : SkinnyEntry file entry)
    (hunbroken : ∀ t ∈ (Json.obj entry).strings, Unbroken t) :
    AtMostOne file (logEntries env (appendSkillEntries env log [entry])) := by
  have hlogged : readSessionLog env log true = logEntries env log := h.entriesAfterLatestCompaction
  unfold CytClient.appendSkillEntries appendDedupedKindEntries
  rw [hlogged, hentry.dedupedEntries]
  cases h with
  | none h =>
    have hnew : (file.key, file.hash) ∉ existingKeysAndHashes env "skill" (logEntries env log) := by
      intro hmem
      obtain ⟨other, hother, heq⟩ := mem_map.mp hmem
      have hkey := (h other (mem_of_mem_filter hother)).key
      rw [(Prod.mk.inj heq).1] at hkey
      exact hkey file.names
    rw [if_neg hnew]
    have hbehind : ∀ entry ∈ ([] : List (Record φ)), Foreign file entry := by
      intro _ hnil
      cases hnil
    refine .one hentry ?_ h hbehind
    refine (append_roundTrip_iff hf log _ [entry] ?_ ?_).mpr ?_
    · exact fun e he => mem_singleton.mp he ▸ hentry.valid
    · exact fun e he => mem_singleton.mp he ▸ hentry.notMeta
    · exact fun e he => mem_singleton.mp he ▸ hunbroken
  | @one before after old hold heq hbefore hafter =>
    have hthere : (file.key, file.hash) ∈
        existingKeysAndHashes env "skill" (logEntries env log) := by
      refine mem_map.mpr ⟨old, mem_filter.mpr ⟨?_, hold.fieldIs_skill⟩, ?_⟩
      · rw [heq]
        exact mem_append_right _ mem_cons_self
      · rw [hold.fieldText_key, hold.fieldText_hash]
    rw [if_pos hthere]
    exact .one hold heq hbefore hafter

variable {s s' : ReadState} {event : ReadEvent φ}

theorem AtMostOne.step (hf : env.toFloatFormat.Lawful) (h : AtMostOne file (logEntries env s.log))
    (hreads : ReadsFile file s event) (hstep : s.step env event = some s') :
    AtMostOne file (logEntries env s'.log) := by
  cases event with
  | others log =>
    cases hstep
    obtain ⟨more, heq, hmore⟩ := hreads
    dsimp only
    rw [heq]
    exact h.append hmore
  | read call =>
    obtain ⟨⟨path, hwhole⟩, entry, hreplies, hunbroken⟩ := hreads
    obtain ⟨skinny, hdaemon⟩ := readInterceptFromDaemon_eq s.log hreplies
    cases hstep
    dsimp only
    rw [handleReadIntercept_eq h hwhole, hdaemon]
    split
    · exact h
    · split
      · exact h
      · exact h.appendSkillEntries hf hreplies.logged hunbroken

theorem escalated_skinny (n : ℕ) (path : Text) :
    Escalated n (some (.skinny path)) ↔ n < fullPromotionThreshold := by
  unfold Escalated
  split
  · rename_i hlt
    exact ⟨fun _ => hlt, fun _ => ⟨path, rfl⟩⟩
  · rename_i hlt
    refine ⟨fun h => ?_, fun h => absurd h hlt⟩
    split at h <;> cases h

theorem escalated_allow (n : ℕ) : Escalated n (some .allow) ↔ n = fullPromotionThreshold := by
  unfold Escalated
  split
  · rename_i hlt
    exact ⟨fun ⟨_, h⟩ => (by cases h), fun h => absurd h hlt.ne⟩
  · split
    · rename_i heq
      exact ⟨fun _ => heq, fun _ => rfl⟩
    · rename_i hne
      exact ⟨fun h => (by cases h), fun h => absurd h hne⟩

theorem not_escalated_deniedRedundant (n : ℕ) : ¬ Escalated n (some .deniedRedundant) := by
  intro h
  unfold Escalated at h
  split at h
  · obtain ⟨_, h⟩ := h
    cases h
  · split at h <;> cases h

/-- An answer is as the claim asks for exactly where the Read is an early one. -/
theorem escalated_iff (h : AtMostOne file (logEntries env s.log))
    (hreads : ReadsFile file s (.read call)) :
    Escalated s.responses.length (handleReadIntercept env s.log call).1 ↔
      EarlyRead env s (.read call) := by
  obtain ⟨⟨path, hwhole⟩, entry, hreplies, -⟩ := hreads
  obtain ⟨skinny, hdaemon⟩ := readInterceptFromDaemon_eq s.log hreplies
  have hdenies : (∀ path, readPathFromToolInput call.toolInput = some path →
      deniesInTurn env (logEntries env s.log) call path = false) ↔
        deniesInTurn env (logEntries env s.log) call path = false := by
    refine ⟨fun hall => hall path hwhole.argument, fun hpath path' hpath' => ?_⟩
    cases hwhole.argument.symm.trans hpath'
    exact hpath
  unfold EarlyRead
  dsimp only
  rw [handleReadIntercept_eq h hwhole, hdaemon, h.entriesAfterLatestCompaction, hdenies]
  by_cases hturn : deniesInTurn env (logEntries env s.log) call path = true
  · rw [if_pos hturn]
    refine ⟨fun hescalated => absurd hescalated (not_escalated_deniedRedundant _), fun hearly => ?_⟩
    exact absurd hturn (Bool.not_eq_true _ ▸ hearly.1)
  rw [if_neg hturn]
  by_cases hquery : Text.strip (interceptQueryForPayload env (logEntries env s.log) call) = []
  · rw [if_pos hquery]
    refine (escalated_allow _).trans ⟨fun heq => ⟨eq_false_of_ne_true hturn, .inr ⟨heq, hquery⟩⟩, ?_⟩
    rintro ⟨-, ⟨-, hne⟩ | ⟨heq, -⟩⟩
    · exact absurd hquery hne
    · exact heq
  · rw [if_neg hquery]
    refine (escalated_skinny _ _).trans
      ⟨fun hlt => ⟨eq_false_of_ne_true hturn, .inl ⟨hlt, hquery⟩⟩, ?_⟩
    rintro ⟨-, ⟨hlt, -⟩ | ⟨-, heq⟩⟩
    · exact hlt
    · exact absurd heq hquery

theorem escalates_step (h : AtMostOne file (logEntries env s.log)) (hreads : ReadsFile file s event)
    (hstep : s.step env event = some s') : Escalates s' ↔ Escalates s ∧ EarlyRead env s event := by
  cases event with
  | others log =>
    cases hstep
    exact (and_iff_left trivial).symm
  | read call =>
    cases hstep
    rw [← escalated_iff h hreads]
    unfold Escalates
    dsimp only
    constructor
    · intro hall
      refine ⟨fun n response hn => hall n response ?_, hall _ _ getElem?_concat_length⟩
      rw [getElem?_append_left (List.getElem?_eq_some_iff.mp hn).1, hn]
    · rintro ⟨hall, hlast⟩ n response hn
      obtain hlt | heq | hgt := lt_trichotomy n s.responses.length
      · rw [getElem?_append_left hlt] at hn
        exact hall n response hn
      · cases heq
        rw [getElem?_concat_length] at hn
        cases hn
        exact hlast
      · rw [getElem?_eq_none (by rw [length_append, length_singleton]; omega)] at hn
        cases hn

theorem readInterceptFromDaemon_ne (log : Option Text) (call : ReadCall φ) :
    (readInterceptFromDaemon env log call).1 ≠ .deniedFullReread := by
  intro h
  unfold readInterceptFromDaemon at h
  split at h
  · cases h
  · split at h
    · cases h
    · split at h <;> cases h

theorem mode_of_deniedFullReread {response : ReadResponse}
    (h : (readInterceptDecision env log call path).1 = some response)
    (hresponse : response = .deniedFullReread) :
    ∃ key, resolveReadInterceptMode env (entriesAfterLatestCompaction (logEntries env log)) key
      (readContentHash env path) = .denyFullReread := by
  cases hresponse
  unfold readInterceptDecision at h
  dsimp only at h
  split at h
  · cases h
  split at h
  · cases h
  split at h
  · cases h
  · split at h
    · rename_i hmode
      exact ⟨_, hmode⟩
    · cases h
    · cases h

theorem hasSatisfiedFull_of_mode {key currentHash : Text}
    (h : resolveReadInterceptMode env entries key currentHash = .denyFullReread) :
    hasSatisfiedFull env entries key currentHash = true := by
  unfold resolveReadInterceptMode at h
  split at h
  · assumption
  · split at h
    · cases h
    · split at h <;> cases h

/-- A Read that is denied as read already finds an entry of the full file with the hash of its
content. -/
theorem exists_full_of_deniedFullReread
    (h : (handleReadIntercept env log call).1 = some .deniedFullReread) :
    ∃ path, readPathFromToolInput call.toolInput = some path ∧ ∃ entry ∈ logEntries env log,
      (get? entry "full").any (truthy env) = true ∧
        ∃ logged, get? entry "hash" = some (.str logged) ∧
          logged.strip = readContentHash env path := by
  unfold handleReadIntercept at h
  split at h
  · cases h
  split at h
  · cases h
  rename_i path hpath
  refine ⟨path, hpath, ?_⟩
  dsimp only at h
  split at h
  · cases h
  split at h
  · cases h
  split at h
  · rename_i response log' hdecision
    obtain ⟨key, hmode⟩ := mode_of_deniedFullReread (congrArg Prod.fst hdecision)
      (Option.some.inj h)
    obtain ⟨entry, hentry, hfull⟩ := any_eq_true.mp (hasSatisfiedFull_of_mode hmode)
    have hmem : entry ∈ logEntries env log := mem_reverse.mp
      (takeWhile_sublist _ |>.mem (mem_reverse.mp hentry))
    unfold CytClient.satisfiesFull at hfull
    obtain ⟨hfull, hhash⟩ := Bool.and_eq_true_iff.mp hfull
    refine ⟨entry, hmem, (Bool.and_eq_true_iff.mp hfull).2, ?_⟩
    split at hhash
    · exact ⟨_, ‹_›, beq_iff_eq.mp hhash⟩
    · cases hhash
  · split at h
    · cases h
    · exact absurd (Option.some.inj h) (readInterceptFromDaemon_ne _ _)

/-- A session of Reads escalates exactly when each of them is an early one; and a Read is denied as
read already only if the full file with its hash is in the log. -/
theorem escalates_iff (hf : env.toFloatFormat.Lawful) {log : Option Text}
    (hforeign : ∀ entry ∈ logEntries env log, Foreign file entry) :
    (∀ events s, Run (ReadState.step env)
        (fun s event => ReadsFile file s event ∧ EarlyRead env s event) ⟨log, []⟩ events s ↔
      Run (ReadState.step env) (ReadsFile file) ⟨log, []⟩ events s ∧ Escalates s) ∧
    ∀ log call, (handleReadIntercept env log call).1 = some .deniedFullReread →
      ∃ path, readPathFromToolInput call.toolInput = some path ∧ ∃ entry ∈ logEntries env log,
        (get? entry "full").any (truthy env) = true ∧
          ∃ logged, get? entry "hash" = some (.str logged) ∧
            logged.strip = readContentHash env path := by
  refine ⟨fun events s => ?_, fun log call h => exists_full_of_deniedFullReread h⟩
  refine Run.iff_of_step (I := fun s => AtMostOne file (logEntries env s.log)) (.none hforeign)
    (fun n response hn => nomatch hn) ?_ ?_
  · exact fun h hreads hstep => h.step hf hreads hstep
  · exact fun h hreads hstep => escalates_step h hreads hstep

/-- A file system in which every path is resolved. -/
def plainInterceptEnv : InterceptEnv Empty where
  toPyFormat := Json.noFloats
  enabled := true
  home := "/h"
  expandUser := id
  resolve := some
  isFile _ := true
  contentSha256 _ := "c0de"
  readText _ := []
  launchAgent := none
  agent := "cursor"
  payloadDirectories := ["/s".toList]

def plainSkillFile : SkillFile plainInterceptEnv where
  resolved := "/s/a.md"
  key := "skill:/s/a.md"
  hash := "c0de"
  names := rfl
  key_strip := rfl
  hash_strip := rfl
  hash_ne_nil := by decide

def skinnyEntry : Record Empty :=
  [("kind", .str "skill"), ("key", .str "skill:/s/a.md"),
    ("hash", .str "c0de"), ("full", .bool false)]

/-- A Read of the file with a query. -/
def plainRead : ReadCall Empty where
  toolInput := [("path", .str "/s/a.md")]
  user := some "go"
  assistant := none
  reply := some (.obj [("agent_interceptor", .bool true),
    ("updated_input", .obj [("path", .str "/k.md")]),
    ("skill_log_entry", .obj skinnyEntry)])

theorem skinnyEntry_skinny : SkinnyEntry plainSkillFile skinnyEntry where
  kind := rfl
  key := rfl
  hash := rfl
  full := rfl
  valid := by
    rw [Json.valid_obj_iff]
    refine ⟨by decide, fun kv hkv => ?_⟩
    simp only [skinnyEntry, mem_cons, not_mem_nil, or_false] at hkv
    obtain rfl | rfl | rfl | rfl := hkv <;> trivial
  notMeta := rfl

theorem readsFile_plainRead {s : ReadState}
    (hunder : isSkillMdUnderDirectories plainInterceptEnv "/s/a.md"
      (skillDirectories plainInterceptEnv (logEntries plainInterceptEnv s.log)) = true) :
    ReadsFile plainSkillFile s (.read plainRead) := by
  have hstrings : (Json.obj skinnyEntry).strings.all (fun t => !t.any Json.isBareBreak) = true :=
    rfl
  refine ⟨⟨"/s/a.md", rfl, rfl, rfl, rfl, rfl, hunder, rfl, rfl, rfl, rfl⟩, skinnyEntry,
    ⟨skinnyEntry_skinny, _, rfl, rfl, ⟨_, rfl⟩, rfl⟩, fun t ht => ?_⟩
  exact Text.forall_not_of_any (Bool.not_eq_true' _ ▸ all_eq_true.mp hstrings t ht)

def afterReads : ℕ → ReadState
  | 0 => ⟨none, []⟩
  | n + 1 => ((afterReads n).step plainInterceptEnv (.read plainRead)).getD ⟨none, []⟩

theorem plainRead_escalates : ∃ s,
    Run (ReadState.step plainInterceptEnv) (ReadsFile plainSkillFile) ⟨none, []⟩ [.read plainRead] s ∧
      Escalates s := by
  have hearly : EarlyRead plainInterceptEnv ⟨none, []⟩ (.read plainRead) := by
    refine ⟨fun path hpath => ?_, .inl ⟨by decide, by decide⟩⟩
    cases hpath
    rfl
  have run : Run (ReadState.step plainInterceptEnv)
      (fun s event => ReadsFile plainSkillFile s event ∧ EarlyRead plainInterceptEnv s event)
      ⟨none, []⟩ [.read plainRead] _ := .snoc .nil ⟨readsFile_plainRead rfl, hearly⟩ rfl
  exact ⟨_, ((escalates_iff Json.noFloats_lawful (fun _ hnil => absurd hnil not_mem_nil)).1 _ _).mp run⟩

/-- The Read after the first three gets the skinny file once more. -/
theorem fourthRead_skinny : ∃ s,
    Run (ReadState.step plainInterceptEnv) (ReadsFile plainSkillFile) ⟨none, []⟩
      (List.replicate 4 (.read plainRead)) s ∧ ¬ Escalates s := by
  have hunder : ∀ n < 4, isSkillMdUnderDirectories plainInterceptEnv "/s/a.md"
      (skillDirectories plainInterceptEnv
        (logEntries plainInterceptEnv (afterReads n).log)) = true := by
    decide +kernel
  have hresponses : (afterReads 4).responses[3]? = some (some (.skinny "/k.md")) := by
    decide +kernel
  have run : ∀ n ≤ 4, Run (ReadState.step plainInterceptEnv) (ReadsFile plainSkillFile) ⟨none, []⟩
      (List.replicate n (.read plainRead)) (afterReads n) := by
    intro n
    induction n with
    | zero => exact fun _ => .nil
    | succ n ih =>
      intro hn
      rw [replicate_succ']
      exact .snoc (ih (by omega)) (readsFile_plainRead (hunder n (by omega))) rfl
  refine ⟨afterReads 4, run 4 le_rfl, fun hescalates => ?_⟩
  exact absurd ((escalated_skinny _ _).mp (hescalates 3 _ hresponses)) (by decide)

end ClearYourTools.CytClient
