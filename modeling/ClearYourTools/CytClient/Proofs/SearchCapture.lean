import ClearYourTools.CytClient.Proofs.CatalogSync

/-!
# A captured tool in the catalog of a session

The record of a captured tool has its wire name, and takes the place of the record of the name that
the agent typed.
-/

namespace ClearYourTools.CytClient

open Misc CytMcp List
open Injection.SessionLog
open Json (get? PyFormat get?_set_of_ne get?_append)

variable {φ : Type}

section

variable {α : Type} {q : α → Bool} {l : List α}

theorem eraseP_eq_filter_not (h : l.countP q ≤ 1) : l.eraseP q = l.filter fun x => !q x := by
  induction l with
  | nil => rfl
  | cons x l ih =>
    cases hx : q x with
    | false =>
      rw [countP_cons_of_neg (by simp [hx])] at h
      rw [eraseP_cons_of_neg (by simp [hx]), filter_cons_of_pos (by simp [hx]), ih h]
    | true =>
      rw [countP_cons_of_pos hx] at h
      have hnone := countP_eq_zero.mp (Nat.le_zero.mp (Nat.le_of_succ_le_succ h))
      rw [eraseP_cons_of_pos hx, filter_cons_of_neg (by simp [hx])]
      exact (filter_eq_self.mpr fun y hy => by simp [hnone y hy]).symm

theorem perm_eraseP_self_iff : (l.eraseP q).Perm (l.filter fun x => !q x) ↔ l.countP q ≤ 1 := by
  constructor
  · intro h
    have hlength := h.length_eq
    have hle := le_length_eraseP (l := l) (p := q)
    have hsum := length_eq_length_filter_add (l := l) q
    rw [← countP_eq_length_filter] at hsum
    omega
  · intro h
    rw [eraseP_eq_filter_not h]

theorem perm_eraseP_filter_iff {r : α → Bool} (hqr : ∀ x, r x → ¬ q x) :
    (l.eraseP q).Perm (l.filter fun x => !r x) ↔ ∀ x ∈ l, ¬ q x ∧ ¬ r x := by
  constructor
  · intro h
    have hr : ∀ x ∈ l, ¬ r x := by
      intro x hx hrx
      simpa [hrx] using h.subset ((mem_eraseP_of_neg (hqr x hrx)).mpr hx)
    refine fun x hx => ⟨fun hqx => ?_, hr x hx⟩
    rw [filter_eq_self.mpr fun y hy => by simp [hr y hy]] at h
    have hlength := (length_eraseP_of_mem hx hqx).symm.trans h.length_eq
    exact absurd hlength (Nat.sub_one_lt (length_pos_of_mem hx).ne').ne
  · intro h
    rw [eraseP_of_forall_not fun x hx => (h x hx).1,
      filter_eq_self.mpr fun x hx => by simp [(h x hx).2]]

/-- A value that alone has a property is found. -/
theorem find?_eq_of_perm {tools rest : List α} {x : α} (h : tools.Perm (x :: rest)) (hx : q x)
    (hrest : ∀ y ∈ rest, ¬ q y) : tools.find? q = some x := by
  cases hfind : tools.find? q with
  | none => exact absurd hx (find?_eq_none.mp hfind x (h.mem_iff.mpr mem_cons_self))
  | some y =>
    rcases mem_cons.mp (h.mem_iff.mp (mem_of_find?_eq_some hfind)) with rfl | hy
    · rfl
    · exact absurd (find?_some hfind) (hrest y hy)

theorem perm_placeRecord (p : PyFormat φ) (toolName : Text) (record : Record φ)
    (items : List (Record φ)) : (placeRecord p toolName record items).Perm
      (record :: items.eraseP fun item => strippedText p item nameKey = toolName) := by
  induction items with
  | nil => exact .refl _
  | cons item items ih =>
    rw [placeRecord]
    split
    · rename_i h
      rw [eraseP_cons_of_pos (by simpa using h)]
    · rename_i h
      rw [eraseP_cons_of_neg (by simpa using h)]
      exact (ih.cons item).trans (.swap ..)

end

section

variable {p : PyFormat φ} {definition record : Record φ} {key value server tool : Text}

theorem get?_capturedText (hvalue : get? definition key = some (.str value))
    (hne : value.strip ≠ []) : get? (capturedText definition key) key = some (.str value.strip) := by
  unfold capturedText
  rw [hvalue]
  dsimp only
  rw [if_neg hne, Json.get?_cons, if_pos rfl]

theorem get?_capturedText_of_ne {key' : Text} (h : key' ≠ key) :
    get? (capturedText definition key) key' = none := by
  unfold capturedText
  split
  · split
    · rfl
    · rw [Json.get?_cons, if_neg h]
      rfl
  · rfl

theorem get?_capturedDescription_of_ne (h : key ≠ descriptionKey) :
    get? (capturedDescription p definition) key = none := by
  unfold capturedDescription
  split
  · rfl
  · rfl
  · rw [Json.get?_cons, if_neg h]
    rfl

theorem serverKeyOf_str (h : get? record serverKeyKey = some (.str server)) (hne : server ≠ []) :
    serverKeyOf p record = server.strip := by
  unfold serverKeyOf Json.strOr
  rw [h]
  cases server with
  | nil => exact absurd rfl hne
  | cons c server => rfl

theorem strippedText_str (h : get? record key = some (.str value)) :
    strippedText p record key = value.strip := congrArg Text.strip (fieldText_str h)

theorem get?_withIdentity (record : Record φ) (name serverKey toolName : Text) :
    get? (withIdentity record name serverKey toolName) nameKey = some (.str name) ∧
      get? (withIdentity record name serverKey toolName) serverKeyKey = some (.str serverKey) ∧
      get? (withIdentity record name serverKey toolName) toolNameKey = some (.str toolName) := by
  unfold withIdentity
  refine ⟨?_, ?_, Json.get?_set_self ..⟩
  · rw [get?_set_of_ne (by decide), get?_set_of_ne (by decide), Json.get?_set_self]
  · rw [get?_set_of_ne (by decide), Json.get?_set_self]

theorem get?_withIdentity_of_notMem {name serverKey toolName : Text}
    (h : key ∉ [nameKey, serverKeyKey, toolNameKey]) :
    get? (withIdentity record name serverKey toolName) key = get? record key := by
  simp only [mem_cons, not_mem_nil, or_false, not_or] at h
  unfold withIdentity
  rw [get?_set_of_ne h.2.2, get?_set_of_ne h.2.1, get?_set_of_ne h.1]

variable {toolName : Text}

theorem capturedRecord_identity (toolName : Text)
    (hserver : get? definition serverKeyKey = some (.str server)) (hserverNe : server.strip ≠ [])
    (htool : get? definition toolNameKey = some (.str tool)) (htoolNe : tool.strip ≠ []) :
    serverKeyOf p (capturedRecord p toolName definition) = server.strip ∧
      strippedText p (capturedRecord p toolName definition) toolNameKey = tool.strip := by
  have hget : get? (capturedRecord p toolName definition) serverKeyKey = some (.str server.strip) ∧
      get? (capturedRecord p toolName definition) toolNameKey = some (.str tool.strip) := by
    unfold capturedRecord
    constructor
    · rw [get?_append, get?_append, get?_append,
        get?_capturedDescription_of_ne (by decide), get?_capturedText hserver hserverNe]
      rfl
    · rw [get?_append, get?_append, get?_append, get?_append,
        get?_capturedDescription_of_ne (by decide), get?_capturedText_of_ne (by decide),
        get?_capturedText htool htoolNe]
      rfl
  rw [serverKeyOf_str hget.1 hserverNe, strippedText_str hget.2, Text.strip_strip, Text.strip_strip]
  exact ⟨rfl, rfl⟩

theorem exists_toolRecordForCatalog (env : SessionEnv φ) (configured : List Text) (toolName : Text)
    (hserver : get? definition serverKeyKey = some (.str server)) (hserverNe : server.strip ≠ [])
    (htool : get? definition toolNameKey = some (.str tool)) (htoolNe : tool.strip ≠ []) :
    ∃ record, toolRecordForCatalog env configured toolName definition = some record ∧
      strippedText env record nameKey = wireNameFor server.strip tool.strip ∧
      get? record inputSchemaKey = some (.obj (capturedSchema env definition)) ∧
      get? record descriptionKey = get? (capturedDescription env definition) descriptionKey := by
  obtain ⟨hkey, hname⟩ := capturedRecord_identity (p := env) toolName hserver hserverNe htool htoolNe
  have hwire : Text.Stripped (wireNameFor server.strip tool.strip) :=
    (Text.stripped_strip server).append_cons (Text.stripped_strip tool) (by decide)
  have hidentity : requireBackendIdentity env (enrichToolIdentity env
      configured (serverKeysForEnrichment env configured (capturedRecord env toolName definition))
      (capturedRecord env toolName definition)) = some (server.strip, tool.strip) := by
    unfold enrichToolIdentity
    rw [hkey, hname, if_pos ⟨hserverNe, htoolNe⟩]
    unfold requireBackendIdentity
    rw [serverKeyOf_str (get?_withIdentity ..).2.1 hserverNe,
      strippedText_str (get?_withIdentity ..).2.2, Text.strip_strip, Text.strip_strip,
      if_pos ⟨hserverNe, htoolNe⟩]
  unfold toolRecordForCatalog
  dsimp only
  rw [hidentity]
  refine ⟨_, rfl, ?_, ?_, ?_⟩
  · refine (strippedText_str ?_).trans hwire.strip
    rw [get?_set_of_ne (by decide), get?_set_of_ne (by decide)]
    exact (get?_withIdentity ..).1
  · rw [get?_set_of_ne (by decide), get?_set_of_ne (by decide),
      get?_withIdentity_of_notMem (by decide)]
    rfl
  · rw [get?_set_of_ne (by decide), get?_set_of_ne (by decide),
      get?_withIdentity_of_notMem (by decide)]
    unfold capturedRecord
    rw [get?_append, get?_append, get?_append, get?_append, get?_capturedText_of_ne (by decide),
      get?_capturedText_of_ne (by decide), get?_capturedText_of_ne (by decide)]
    exact Option.or_none

end

section

variable (env : SessionEnv φ) (configured : List Text) (log : Option Text) (toolName : Text)
  (definition : Record φ)

/-- The records of the catalog before the capture. -/
def recordsBefore : List (Record φ) := catalogTools (readLatestToolCatalogs env log) cytMcpCatalog

/-- The new catalog has one record of the wire name, which the gate finds, with the schema and the
description of the definition, and every other record once. -/
def UpsertsOne (wireName : Text) : Prop :=
  ∃ entry record,
    mergeToolIntoCytMcpCatalog env configured log toolName definition = some entry ∧
    get? record inputSchemaKey = some (.obj (capturedSchema env definition)) ∧
    get? record descriptionKey = get? (capturedDescription env definition) descriptionKey ∧
    (catalogTools [(catalogLogKey .cytMcp, entry)] cytMcpCatalog).Perm
      (record :: (recordsBefore env log).filter fun r =>
        !decide (strippedText env r nameKey = wireName)) ∧
    findToolInCatalog env [(catalogLogKey .cytMcp, entry)] cytMcpCatalog wireName none = some record

variable {definition} {server tool : Text}

section

variable (hserver : get? definition serverKeyKey = some (.str server)) (hserverNe : server.strip ≠ [])
  (htool : get? definition toolNameKey = some (.str tool)) (htoolNe : tool.strip ≠ [])

include hserver hserverNe htool htoolNe

theorem upsertsOne_iff_perm :
    UpsertsOne env configured log toolName definition (wireNameFor server.strip tool.strip) ↔
      ((recordsBefore env log).eraseP fun r =>
          strippedText env r nameKey = toolName).Perm
        ((recordsBefore env log).filter fun r =>
          !decide (strippedText env r nameKey = wireNameFor server.strip tool.strip)) := by
  obtain ⟨record, hrecord, hwire, hschema, hdescription⟩ :=
    exists_toolRecordForCatalog env configured toolName hserver hserverNe htool htoolNe
  generalize wireNameFor server.strip tool.strip = wireName at *
  have hmerge : mergeToolIntoCytMcpCatalog env configured log toolName definition =
      some (buildCytMcpCatalogEntry env
        (placeRecord env toolName record (recordsBefore env log))) := by
    unfold mergeToolIntoCytMcpCatalog recordsBefore
    rw [hrecord]
    rfl
  -- the new catalog, up to the order
  have hplaced : ∀ entry, mergeToolIntoCytMcpCatalog env configured log toolName definition =
      some entry → (catalogTools [(catalogLogKey .cytMcp, entry)] cytMcpCatalog).Perm
        (record :: (recordsBefore env log).eraseP fun r =>
          strippedText env r nameKey = toolName) := by
    intro entry hentry
    obtain rfl := Option.some.inj (hmerge.symm.trans hentry)
    rw [show catalogTools _ cytMcpCatalog = _ from catalogTools_eq _ .cytMcp, lookup_cons_self]
    unfold buildCytMcpCatalogEntry
    rw [recordsOf_catalogLogEntry]
    exact (perm_canonicalToolsSorted _ _).trans (perm_placeRecord _ _ _ _)
  constructor
  · rintro ⟨entry, record', hentry, -, -, hperm, -⟩
    have hnew := (hplaced entry hentry).symm.trans hperm
    rcases mem_cons.mp (hnew.mem_iff.mp mem_cons_self) with rfl | hmem
    · exact hnew.cons_inv
    · simp [hwire] at hmem
  · intro h
    have hperm := (hplaced _ hmerge).trans (h.cons record)
    refine ⟨_, record, hmerge, hschema, hdescription, hperm, ?_⟩
    refine find?_eq_of_perm hperm ?_ fun r hr => ?_
    · change (strippedText env record nameKey == wireName && true) = true
      rw [hwire, beq_self_eq_true]
      rfl
    · change ¬ (strippedText env r nameKey == wireName && true) = true
      simpa using (mem_filter.mp hr).2

/-- The record of a tool is replaced if the agent typed its wire name, and it is added to the
others if no record has that name or the typed one. -/
theorem upsertsOne_iff :
    UpsertsOne env configured log toolName definition (wireNameFor server.strip tool.strip) ↔
      (toolName = wireNameFor server.strip tool.strip ∧ ((recordsBefore env log).countP fun r =>
        strippedText env r nameKey = toolName) ≤ 1) ∨
      ∀ r ∈ recordsBefore env log, strippedText env r nameKey ≠ toolName ∧
        strippedText env r nameKey ≠ wireNameFor server.strip tool.strip := by
  rw [upsertsOne_iff_perm env configured log toolName hserver hserverNe htool htoolNe]
  by_cases hname : toolName = wireNameFor server.strip tool.strip
  · rw [← hname, perm_eraseP_self_iff]
    refine ⟨fun h => .inl ⟨rfl, h⟩, ?_⟩
    rintro (⟨-, h⟩ | h)
    · exact h
    · rw [countP_eq_zero.mpr fun r hr => by simpa using (h r hr).1]
      exact Nat.zero_le 1
  · rw [perm_eraseP_filter_iff fun r hr => by simpa [of_decide_eq_true hr] using Ne.symm hname]
    simp [hname]

end

/-- A catalog with one tool. -/
def issuesLog : Text :=
  ("\x7b\"kind\": \"tool_catalog\", \"catalog\": \"cyt_mcp\", " ++
    "\"tools\": [\x7b\"name\": \"github_list_repository_issues\"\x7d]\x7d").toList

def issuesTool : Record Empty :=
  [(serverKeyKey, .str "github"), (toolNameKey, .str "list_repository_issues"),
    (inputSchemaKey, .obj [])]

def issuesWireName : Text := wireNameFor (Text.strip "github") (Text.strip "list_repository_issues")

/-- The wire name of the tool, for which its record is replaced. -/
theorem upsertsOne_iff_issues :
    UpsertsOne textSession.env [] (some issuesLog) "github_list_repository_issues" issuesTool
      issuesWireName :=
  (upsertsOne_iff textSession.env [] (some issuesLog) _ rfl (by decide) rfl (by decide)).mpr
    (.inl ⟨by decide +kernel, by decide +kernel⟩)

/-- A name with a letter less, which the server resolves to the tool, leaves the old record. -/
theorem typedIssue_twice :
    ((recordsBefore textSession.env (some issuesLog)).map fun r =>
        strippedText textSession.env r nameKey).Nodup ∧
      ¬ UpsertsOne textSession.env [] (some issuesLog) "github_list_repository_issue"
        issuesTool issuesWireName := by
  refine ⟨by decide +kernel, fun h => ?_⟩
  have hperm := (upsertsOne_iff_perm textSession.env [] (some issuesLog) _ rfl (by decide) rfl
    (by decide)).mp h
  exact absurd hperm.length_eq (by decide +kernel)

end

end ClearYourTools.CytClient
