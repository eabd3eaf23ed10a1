import ClearYourTools.Bm25Search.SkillBudget

/-!
# The selection is greedy

The loop takes a row when what all taken rows and it restore is within the budget. What it keeps by
document is at all times what the taken rows restore.
-/

namespace ClearYourTools.Bm25Search.SkillBudget

open Misc List

variable {ι : Type} {r : SkillRestorer ι} {orders : MatchOrders} {itemKind : Text} {maxTokens : ℤ}

/-- The reconstruction of the rows of a document, with the path and the frontmatter of the last. -/
def restoreRows (r : SkillRestorer ι) (itemKind : Text) (rows : List SurvivorRow) :
    Option (Option SkillMatch) :=
  match rows.getLast? with
  | none => some none
  | some row =>
    reconstructGroupMatch r row.entryDir row.docId row.chunkDir itemKind (idSpecs rows)
      row.filePath (topScore rows) row.frontmatter

def documentMatch (r : SkillRestorer ι) (itemKind : Text) (rows : List SurvivorRow) :
    Option SkillMatch :=
  (restoreRows r itemKind rows).join

/-- The rows of a document among some rows. -/
def rowsOf (key : Text × Text) (rows : List SurvivorRow) : List SurvivorRow :=
  rows.filter fun row => decide (row.docKey = key)

/-- Another value for each key. -/
def mapped {κ α β : Type} (f : α → β) (d : Dict κ α) : Dict κ β :=
  ⟨d.entries.map fun e => (e.1, f e.2), by
    rw [List.map_map]
    exact d.nodup⟩

/-- The match of every document that has rows. -/
def matchesByDoc (r : SkillRestorer ι) (itemKind : Text) (rows : List SurvivorRow) :
    Dict (Text × Text) (Option SkillMatch) :=
  mapped (documentMatch r itemKind) (groupsBy SurvivorRow.docKey rows)

/-- The count of the wrapped text of some rows together with one more. -/
def trialTokens (r : SkillRestorer ι) (orders : MatchOrders) (itemKind : Text)
    (taken : List SurvivorRow) (row : SurvivorRow) : ℤ :=
  countAsI64 (wrappedInjectionTokens r.countTokensOrMin
    (sortedMatches (orders row) (matchesByDoc r itemKind (taken ++ [row]))))

def fitsBudget (r : SkillRestorer ι) (orders : MatchOrders) (itemKind : Text) (maxTokens : ℤ)
    (taken : List SurvivorRow) (row : SurvivorRow) : Bool :=
  decide (trialTokens r orders itemKind taken row ≤ maxTokens)

def matchKey (found : SkillMatch) : Text × Text := (found.entryDir, found.docId)

section

variable {κ α β : Type} [DecidableEq κ]

theorem mapped_set (f : α → β) (d : Dict κ α) (k : κ) (v : α) :
    mapped f (d.set k v) = (mapped f d).set k (f v) := by
  have hentries : ∀ es : List (κ × α), (Dict.setEntries k v es).map (fun e => (e.1, f e.2)) =
      Dict.setEntries k (f v) (es.map fun e => (e.1, f e.2)) := by
    intro es
    induction es with
    | nil => rfl
    | cons e es ih =>
      rw [Dict.setEntries, map_cons, Dict.setEntries]
      by_cases hk : e.1 = k
      · rw [if_pos hk, if_pos hk]
        rfl
      · rw [if_neg hk, if_neg hk, map_cons, ih]
  unfold mapped Dict.set
  congr 1
  exact hentries d.entries

theorem get?_mapped (f : α → β) (d : Dict κ α) (k : κ) :
    (mapped f d).get? k = (d.get? k).map f := by
  have hentries : ∀ es : List (κ × α),
      (es.map fun e => (e.1, f e.2)).lookup k = (es.lookup k).map f := by
    intro es
    induction es with
    | nil => rfl
    | cons e es ih =>
      rw [map_cons, lookup_cons, lookup_cons]
      cases k == e.1 with
      | true => rfl
      | false => exact ih
  exact hentries d.entries

end

theorem groupsBy_append_singleton {κ α : Type} [DecidableEq κ] (key : α → κ) (xs : List α) (x : α) :
    groupsBy key (xs ++ [x]) =
      (groupsBy key xs).set (key x) (((groupsBy key xs).get? (key x)).getD [] ++ [x]) :=
  @groupsOf_append_some _ _ _ (fun x => some (key x)) x (key x) rfl xs

variable (rows : List SurvivorRow)

theorem matchesByDoc_append (row : SurvivorRow) :
    matchesByDoc r itemKind (rows ++ [row]) = (matchesByDoc r itemKind rows).set row.docKey
      (documentMatch r itemKind
        (((groupsBy SurvivorRow.docKey rows).get? row.docKey).getD [] ++ [row])) := by
  unfold matchesByDoc
  rw [groupsBy_append_singleton, mapped_set]

theorem get?_matchesByDoc (key : Text × Text) :
    (matchesByDoc r itemKind rows).get? key =
      if key ∈ rows.map SurvivorRow.docKey then some (documentMatch r itemKind (rowsOf key rows))
      else none := by
  unfold matchesByDoc
  rw [get?_mapped, get?_groupsBy]
  split <;> rfl

/-- Path, item and score. -/
abbrev Shown := Text × Text × ℚ

def SurvivorRow.shown (row : SurvivorRow) : Shown := (row.filePath, row.itemId, row.scoreOrZero)

def BudgetTraceRow.shown (t : BudgetTraceRow) : Shown := (t.filePath, t.itemId, t.score)

/-- The state of the loop after some rows. -/
structure Holds (r : SkillRestorer ι) (orders : MatchOrders) (itemKind : Text) (maxTokens : ℤ)
    (done : List SurvivorRow) (state : BudgetState) : Prop where
  selected : state.selected = takeFitting (fitsBudget r orders itemKind maxTokens) done
  rowsByDoc : state.rowsByDoc = groupsBy SurvivorRow.docKey state.selected
  matchByDoc : state.matchByDoc = matchesByDoc r itemKind state.selected
  best : ∃ order, state.bestMatches = sortedMatches order (matchesByDoc r itemKind state.selected)
  within : countAsI64 (wrappedInjectionTokens r.countTokensOrMin state.bestMatches) ≤ maxTokens
  trace : state.budgetTrace.map BudgetTraceRow.shown = done.map SurvivorRow.shown

theorem greedyStep_eq (state : BudgetState) (row : SurvivorRow) :
    greedyStep r orders itemKind maxTokens state row =
      (restoreRows r itemKind (trialDocRows state row)).map
        (tryMatch r.countTokensOrMin orders itemKind maxTokens state row) := by
  unfold greedyStep restoreRows
  have hlast : (trialDocRows state row).getLast? = some row := getLast?_concat
  rw [hlast]

variable {row : SurvivorRow}
variable {done : List SurvivorRow}
variable {state state' : BudgetState}

theorem Holds.step (h : Holds r orders itemKind maxTokens done state)
    (hstep : greedyStep r orders itemKind maxTokens state row = some state') :
    Holds r orders itemKind maxTokens (done ++ [row]) state' := by
  rw [greedyStep_eq] at hstep
  obtain ⟨found, hfound, rfl⟩ := Option.map_eq_some_iff.mp hstep
  have hrows : trialDocRows state row =
      ((groupsBy SurvivorRow.docKey state.selected).get? row.docKey).getD [] ++ [row] := by
    unfold trialDocRows
    rw [h.rowsByDoc]
  have hmatch : state.matchByDoc.set row.docKey found =
      matchesByDoc r itemKind (state.selected ++ [row]) := by
    have hdoc : documentMatch r itemKind (trialDocRows state row) = found := by
      unfold documentMatch
      rw [hfound]
      rfl
    rw [matchesByDoc_append, ← hrows, hdoc, h.matchByDoc]
  have htokens : countAsI64 (wrappedInjectionTokens r.countTokensOrMin
      (sortedMatches (orders row) (state.matchByDoc.set row.docKey found))) =
        trialTokens r orders itemKind state.selected row := by
    rw [hmatch]
    rfl
  have htrace : ∀ (tokens : ℤ) (passed : Bool), (state.budgetTrace ++ [BudgetTraceRow.mk
      row.filePath row.itemId itemKind row.scoreOrZero tokens passed]).map BudgetTraceRow.shown =
      (done ++ [row]).map SurvivorRow.shown := by
    intro tokens passed
    rw [map_append, map_append, h.trace]
    rfl
  unfold tryMatch
  dsimp only
  rw [htokens]
  have htake := takeFitting_append_singleton (fitsBudget r orders itemKind maxTokens) done row
  rw [← h.selected] at htake
  cases hfits : decide (trialTokens r orders itemKind state.selected row ≤ maxTokens) with
  | true =>
    have hselected : takeFitting (fitsBudget r orders itemKind maxTokens) (done ++ [row]) =
        state.selected ++ [row] := by
      rw [htake]
      exact if_pos hfits
    rw [cond_true]
    refine ⟨hselected.symm, ?_, hmatch, ⟨orders row, ?_⟩, ?_, htrace _ _⟩
    · dsimp only
      rw [hrows, h.rowsByDoc, groupsBy_append_singleton]
    · exact congrArg (sortedMatches (orders row)) hmatch
    · exact htokens.le.trans (of_decide_eq_true hfits)
  | false =>
    have hselected : takeFitting (fitsBudget r orders itemKind maxTokens) (done ++ [row]) =
        state.selected := by
      rw [htake]
      exact if_neg (Bool.eq_false_iff.mp hfits)
    exact ⟨hselected.symm, h.rowsByDoc, h.matchByDoc, h.best, h.within, htrace _ _⟩

theorem sortedMatches_empty (order : HashOrder ((Text × Text) × Option SkillMatch)) :
    sortedMatches order .empty = [] := by
  have hnil : order.walk [] = [] := perm_nil.mp (order.perm [])
  have hsorted : sortedMatches order .empty = ((order.walk []).filterMap Prod.snd).mergeSort matchLe :=
    rfl
  rw [hsorted, hnil]
  exact mergeSort_nil

theorem holds_nil (hmax : 0 ≤ maxTokens) :
    Holds r orders itemKind maxTokens [] ⟨[], [], .empty, .empty, []⟩ := by
  have hbest := sortedMatches_empty ⟨id, fun entries => List.Perm.refl entries⟩
  exact ⟨rfl, rfl, rfl, ⟨_, hbest.symm⟩, hmax, rfl⟩

variable {rows : List SurvivorRow}

theorem holds_foldlM (h : Holds r orders itemKind maxTokens done state)
    (hrun : rows.foldlM (greedyStep r orders itemKind maxTokens) state = some state') :
    Holds r orders itemKind maxTokens (done ++ rows) state' := by
  induction rows generalizing done state with
  | nil =>
    obtain rfl := Option.some.inj hrun
    rw [List.append_nil]
    exact h
  | cons row rows ih =>
    rw [foldlM_cons] at hrun
    obtain ⟨next, hnext, hrest⟩ := Option.bind_eq_some_iff.mp hrun
    have hall := ih (h.step hnext) hrest
    rwa [List.append_assoc] at hall

theorem textLe_total (s t : Text) : textLe s t = true ∨ textLe t s = true := by
  induction s generalizing t with
  | nil => exact .inl rfl
  | cons a s ih =>
    cases t with
    | nil => exact .inr rfl
    | cons b t =>
      rw [textLe, textLe]
      by_cases h : a = b
      · rw [if_pos h, if_pos h.symm]
        exact ih t
      · have hne : a.toNat ≠ b.toNat := fun heq => h (Char.toNat_inj.mp heq)
        rw [if_neg h, if_neg (Ne.symm h), decide_eq_true_iff, decide_eq_true_iff]
        omega

theorem textLe_antisymm {s t : Text} (h : textLe s t = true) (h' : textLe t s = true) : s = t := by
  induction s generalizing t with
  | nil =>
    cases t with
    | nil => rfl
    | cons b t => cases h'
  | cons a s ih =>
    cases t with
    | nil => cases h
    | cons b t =>
      rw [textLe] at h h'
      by_cases hab : a = b
      · rw [if_pos hab] at h
        rw [if_pos hab.symm] at h'
        rw [hab, ih h h']
      · rw [if_neg hab, decide_eq_true_iff] at h
        rw [if_neg (Ne.symm hab), decide_eq_true_iff] at h'
        omega

theorem textLe_trans {s t u : Text} (h : textLe s t = true) (h' : textLe t u = true) :
    textLe s u = true := by
  induction s generalizing t u with
  | nil => rfl
  | cons a s ih =>
    cases t with
    | nil => cases h
    | cons b t =>
      cases u with
      | nil => cases h'
      | cons c u =>
        rw [textLe] at h h' ⊢
        by_cases hab : a = b
        · subst hab
          rw [if_pos rfl] at h
          by_cases hac : a = c
          · rw [if_pos hac] at h' ⊢
            exact ih h h'
          · rw [if_neg hac] at h' ⊢
            exact h'
        · rw [if_neg hab, decide_eq_true_iff] at h
          by_cases hbc : b = c
          · subst hbc
            rw [if_neg hab, decide_eq_true_iff]
            exact h
          rw [if_neg hbc, decide_eq_true_iff] at h'
          have hac : a ≠ c := by
            rintro rfl
            omega
          rw [if_neg hac, decide_eq_true_iff]
          omega

theorem rowLe_iff {a b : SurvivorRow} :
    rowLe a b = true ↔ b.scoreOrZero < a.scoreOrZero ∨ a.scoreOrZero = b.scoreOrZero ∧
      (a.filePath ≠ b.filePath ∧ textLe a.filePath b.filePath = true ∨
        a.filePath = b.filePath ∧ textLe a.itemId b.itemId = true) := by
  unfold rowLe
  split
  · rename_i h
    exact iff_of_true rfl (.inl h)
  split
  · rename_i h h'
    exact iff_of_false Bool.false_ne_true fun hor => hor.elim h fun heq => (heq.1 ▸ h').false
  rename_i h h'
  rw [or_iff_right h, and_iff_right (le_antisymm (not_lt.mp h) (not_lt.mp h'))]
  split
  · rename_i hne
    rw [and_iff_right hne, or_iff_left fun heq => hne heq.1]
  · rename_i heq
    rw [and_iff_right (not_not.mp heq), or_iff_right fun hne => heq hne.1]

theorem rowLe_total (a b : SurvivorRow) : (rowLe a b || rowLe b a) = true := by
  rw [Bool.or_eq_true, rowLe_iff, rowLe_iff]
  rcases lt_trichotomy a.scoreOrZero b.scoreOrZero with h | h | h
  · exact .inr (.inl h)
  · by_cases hpath : a.filePath = b.filePath
    · exact (textLe_total a.itemId b.itemId).imp (fun hle => .inr ⟨h, .inr ⟨hpath, hle⟩⟩)
        fun hle => .inr ⟨h.symm, .inr ⟨hpath.symm, hle⟩⟩
    · exact (textLe_total a.filePath b.filePath).imp (fun hle => .inr ⟨h, .inl ⟨hpath, hle⟩⟩)
        fun hle => .inr ⟨h.symm, .inl ⟨Ne.symm hpath, hle⟩⟩
  · exact .inl (.inl h)

theorem rowLe_trans (a b c : SurvivorRow) (h : rowLe a b = true) (h' : rowLe b c = true) :
    rowLe a c = true := by
  rw [rowLe_iff] at h h' ⊢
  rcases h with h | ⟨hab, h⟩
  · rcases h' with h' | ⟨hbc, -⟩
    · exact .inl (h'.trans h)
    · exact .inl (hbc ▸ h)
  rcases h' with h' | ⟨hbc, h'⟩
  · exact .inl (hab ▸ h')
  refine .inr ⟨hab.trans hbc, ?_⟩
  rcases h with ⟨hne, hle⟩ | ⟨heq, hle⟩
  · rcases h' with ⟨hne', hle'⟩ | ⟨heq', -⟩
    · refine .inl ⟨fun heq => hne (textLe_antisymm hle (heq ▸ hle')), textLe_trans hle hle'⟩
    · exact .inl ⟨heq' ▸ hne, heq' ▸ hle⟩
  · rcases h' with ⟨hne', hle'⟩ | ⟨heq', hle'⟩
    · exact .inl ⟨heq ▸ hne', heq ▸ hle'⟩
    · exact .inr ⟨heq.trans heq', textLe_trans hle hle'⟩

/-- A passed row with a path and an item. -/
def TakesPart (row : SurvivorRow) : Prop := row.passed = true ∧ row.filePath ≠ [] ∧ row.itemId ≠ []

/-- The map has the best row of each key among some rows. -/
structure IsBest (rows : List SurvivorRow) (best : Dict (Text × Text) SurvivorRow) : Prop where
  sound : ∀ {key row}, best.get? key = some row → row ∈ rows ∧ TakesPart row ∧ row.key = key
  greatest : ∀ {key row}, best.get? key = some row → ∀ other ∈ rows, TakesPart other →
    other.key = key → other.scoreOrZero ≤ row.scoreOrZero
  complete : ∀ row ∈ rows, TakesPart row → ∃ kept, best.get? row.key = some kept

variable {best : Dict (Text × Text) SurvivorRow}

theorem keepBest_of_not (h : ¬TakesPart row) : keepBest best row = best := by
  unfold keepBest
  split
  · rfl
  split
  · rfl
  · rename_i hpassed hempty
    rw [not_or] at hempty
    exact absurd ⟨Bool.eq_true_of_not_eq_false hpassed, hempty.1, hempty.2⟩ h

theorem keepBest_of (h : TakesPart row) : keepBest best row =
      if replaces (best.get? row.key) row then best.set row.key row else best := by
  have hpassed : ¬row.passed = false := by
    rw [h.1]
    nofun
  unfold keepBest
  rw [if_neg hpassed, if_neg (not_or.mpr h.2)]

theorem isBest_nil : IsBest [] .empty := ⟨nofun, nofun, nofun⟩

/-- A row that takes no part, or is not better than the one of its key, changes nothing. -/
theorem IsBest.keep (h : IsBest rows best) (hkept : TakesPart row → ∃ kept,
    best.get? row.key = some kept ∧ row.scoreOrZero ≤ kept.scoreOrZero) :
    IsBest (rows ++ [row]) best := by
  refine ⟨fun hget => ?_, fun hget other hother hpart hkey => ?_, fun other hother hpart => ?_⟩
  · obtain ⟨hmem, hrest⟩ := h.sound hget
    exact ⟨mem_append_left _ hmem, hrest⟩
  · rcases mem_append.mp hother with hother | hother
    · exact h.greatest hget other hother hpart hkey
    · obtain rfl := mem_singleton.mp hother
      obtain ⟨kept, hkept, hle⟩ := hkept hpart
      subst hkey
      rw [hkept] at hget
      exact Option.some.inj hget ▸ hle
  · rcases mem_append.mp hother with hother | hother
    · exact h.complete other hother hpart
    · obtain rfl := mem_singleton.mp hother
      obtain ⟨kept, hkept, -⟩ := hkept hpart
      exact ⟨kept, hkept⟩

/-- A row that is better than the one of its key, or the first of its key, takes its place. -/
theorem IsBest.replace (h : IsBest rows best) (hpart : TakesPart row)
    (hbetter : ∀ kept, best.get? row.key = some kept → kept.scoreOrZero ≤ row.scoreOrZero) :
    IsBest (rows ++ [row]) (best.set row.key row) := by
  have hself : row ∈ rows ++ [row] := mem_append_right _ mem_cons_self
  refine ⟨fun {key other} hget => ?_, fun {key other} hget third hthird hpart' hkey => ?_,
    fun other hother hpart' => ?_⟩
  · rw [Dict.get?_set] at hget
    split at hget
    · rename_i hkey
      obtain rfl := Option.some.inj hget
      exact ⟨hself, hpart, hkey.symm⟩
    · obtain ⟨hmem, hrest⟩ := h.sound hget
      exact ⟨mem_append_left _ hmem, hrest⟩
  · rw [Dict.get?_set] at hget
    rcases mem_append.mp hthird with hthird | hthird
    · split at hget
      · rename_i hkey'
        obtain rfl := Option.some.inj hget
        subst hkey'
        obtain ⟨kept, hkept⟩ := h.complete third hthird hpart'
        rw [hkey] at hkept
        exact (h.greatest hkept third hthird hpart' hkey).trans (hbetter kept hkept)
      · exact h.greatest hget third hthird hpart' hkey
    · obtain rfl := mem_singleton.mp hthird
      rw [if_pos hkey.symm] at hget
      rw [Option.some.inj hget]
  · rw [Dict.get?_set]
    split
    · exact ⟨row, rfl⟩
    · rename_i hne
      rcases mem_append.mp hother with hother | hother
      · exact h.complete other hother hpart'
      · exact absurd (congrArg SurvivorRow.key (mem_singleton.mp hother)) hne

theorem isBest_foldl (hscores : ∀ row ∈ rows, ∃ score, row.score = some score) :
    IsBest rows (rows.foldl keepBest .empty) := by
  induction rows using List.reverseRecOn with
  | nil => exact isBest_nil
  | append_singleton rows row ih =>
    have hrows := ih fun row hrow => hscores row (mem_append_left _ hrow)
    rw [foldl_append, foldl_cons, foldl_nil]
    by_cases hpart : TakesPart row
    · rw [keepBest_of hpart]
      cases hget : (rows.foldl keepBest .empty).get? row.key with
      | none =>
        exact hrows.replace hpart fun kept hkept => by rw [hget] at hkept; cases hkept
      | some kept =>
        obtain ⟨score, hscore⟩ := hscores kept (mem_append_left _ (hrows.sound hget).1)
        have hreplaces : replaces (some kept) row = decide (kept.scoreOrZero < row.scoreOrZero) := by
          unfold replaces SurvivorRow.scoreOrZero
          rw [Option.bind_some, hscore]
          rfl
        rw [hreplaces]
        split
        · rename_i hlt
          refine hrows.replace hpart fun other hother => ?_
          rw [hget] at hother
          exact Option.some.inj hother ▸ (of_decide_eq_true hlt).le
        · rename_i hnot
          exact hrows.keep fun _ => ⟨kept, hget, not_lt.mp fun hlt => hnot (decide_eq_true hlt)⟩
    · rw [keepBest_of_not hpart]
      exact hrows.keep fun h => absurd h hpart

section

variable {order : HashOrder SurvivorRow} {survivors : List SurvivorRow}

theorem perm_orderedRows :
    (orderedRows order survivors).Perm (survivors.foldl keepBest .empty).vals :=
  (mergeSort_perm _ _).trans (order.perm _)

section

variable (hscores : ∀ row ∈ survivors, ∃ score, row.score = some score)
include hscores

theorem mem_orderedRows
    {row : SurvivorRow} : row ∈ orderedRows order survivors ↔
      (survivors.foldl keepBest .empty).get? row.key = some row := by
  rw [perm_orderedRows.mem_iff, Dict.vals, mem_map]
  constructor
  · rintro ⟨e, he, rfl⟩
    have hget := Dict.get?_of_mem_entries he
    rw [((isBest_foldl hscores).sound hget).2.2]
    exact hget
  · exact fun hget => ⟨_, Dict.mem_entries_of_get? hget, rfl⟩

theorem nodup_orderedRows : ((orderedRows order survivors).map SurvivorRow.key).Nodup := by
  refine (perm_orderedRows.map SurvivorRow.key).nodup_iff.mpr ?_
  have hkeys : (survivors.foldl keepBest .empty).vals.map SurvivorRow.key =
      (survivors.foldl keepBest .empty).keys := by
    unfold Dict.vals Dict.keys
    rw [List.map_map]
    refine map_congr_left fun e he => ?_
    exact ((isBest_foldl hscores).sound (Dict.get?_of_mem_entries he)).2.2
  rw [hkeys]
  exact Dict.nodup _

end

theorem pairwise_orderedRows : (orderedRows order survivors).Pairwise fun a b => rowLe a b = true :=
  pairwise_mergeSort rowLe_trans rowLe_total _

end

section

variable {order : HashOrder ((Text × Text) × Option SkillMatch)} {rows : List SurvivorRow}

variable {found : SkillMatch}

theorem matchKey_of_reconstructGroupMatch {entryDir docId bm25ChunkDir filePath : Text}
    {specs : List Text} {score : ℚ} {frontmatter : Option Text}
    (h : reconstructGroupMatch r entryDir docId bm25ChunkDir itemKind specs filePath score
      frontmatter = some (some found)) : matchKey found = (entryDir, docId) := by
  unfold reconstructGroupMatch at h
  obtain ⟨index, -, h⟩ := Option.bind_eq_some_iff.mp h
  obtain ⟨markdown, -, h⟩ := Option.map_eq_some_iff.mp h
  dsimp only at h
  split at h
  · cases h
  · rw [← Option.some.inj h]
    rfl

theorem matchKey_of_documentMatch {key : Text × Text}
    (h : documentMatch r itemKind (rowsOf key rows) = some found) : matchKey found = key := by
  have hrestored := Option.join_eq_some_iff.mp h
  unfold restoreRows at hrestored
  split at hrestored
  · cases hrestored
  · rename_i row hlast
    rw [matchKey_of_reconstructGroupMatch hrestored]
    exact of_decide_eq_true (mem_filter.mp (mem_of_getLast? hlast)).2

theorem mem_matchesByDoc {key : Text × Text} :
    (key, some found) ∈ (matchesByDoc r itemKind rows).entries ↔
      documentMatch r itemKind (rowsOf key rows) = some found := by
  have hiff := @Dict.get?_eq_some_iff _ _ _ (matchesByDoc r itemKind rows) key (some found)
  rw [← hiff, get?_matchesByDoc]
  split
  · rw [Option.some_inj]
  rename_i hnot
  have hnone : rowsOf key rows = [] := by
    refine filter_eq_nil_iff.mpr fun row hrow heq => hnot ?_
    exact mem_map.mpr ⟨row, hrow, of_decide_eq_true heq⟩
  rw [hnone]
  exact iff_of_false nofun nofun

theorem mem_sortedMatches :
    found ∈ sortedMatches order (matchesByDoc r itemKind rows) ↔
      documentMatch r itemKind (rowsOf (matchKey found) rows) = some found := by
  unfold sortedMatches
  rw [mem_mergeSort, mem_filterMap]
  constructor
  · rintro ⟨⟨key, value⟩, hentry, rfl⟩
    have hdoc := mem_matchesByDoc.mp ((order.perm _).mem_iff.mp hentry)
    rw [matchKey_of_documentMatch hdoc]
    exact hdoc
  · exact fun hdoc => ⟨_, (order.perm _).mem_iff.mpr (mem_matchesByDoc.mpr hdoc), rfl⟩

theorem sublist_filterMap_snd {entries : List ((Text × Text) × Option SkillMatch)}
    (h : ∀ key found, (key, some found) ∈ entries → matchKey found = key) :
    ((entries.filterMap Prod.snd).map matchKey).Sublist (entries.map Prod.fst) := by
  induction entries with
  | nil => exact List.Sublist.refl _
  | cons e entries ih =>
    obtain ⟨key, value⟩ := e
    have hrest := ih fun key found hmem => h key found (mem_cons_of_mem _ hmem)
    cases value with
    | none => exact hrest.cons key
    | some found =>
      have hcons : ((key, some found) :: entries).filterMap Prod.snd =
          found :: entries.filterMap Prod.snd := rfl
      rw [hcons, map_cons, map_cons, h key found mem_cons_self]
      exact hrest.cons_cons key

theorem nodup_sortedMatches :
    ((sortedMatches order (matchesByDoc r itemKind rows)).map matchKey).Nodup := by
  unfold sortedMatches
  refine ((mergeSort_perm _ _).map matchKey).nodup_iff.mpr ?_
  refine (sublist_filterMap_snd fun key found hmem => ?_).nodup
    (((order.perm _).map Prod.fst).nodup_iff.mpr (Dict.nodup _))
  exact matchKey_of_documentMatch (mem_matchesByDoc.mp ((order.perm _).mem_iff.mp hmem))

theorem pairwise_sortedMatches (byDoc : Dict (Text × Text) (Option SkillMatch)) :
    (sortedMatches order byDoc).Pairwise fun a b => matchScore b ≤ matchScore a := by
  have htrans : ∀ a b c : SkillMatch, matchLe a b = true → matchLe b c = true →
      matchLe a c = true := by
    intro a b c h h'
    exact decide_eq_true ((of_decide_eq_true h').trans (of_decide_eq_true h))
  have htotal : ∀ a b : SkillMatch, (matchLe a b || matchLe b a) = true := by
    intro a b
    rw [Bool.or_eq_true]
    exact (le_total (matchScore b) (matchScore a)).imp decide_eq_true decide_eq_true
  exact (pairwise_mergeSort htrans htotal _).imp of_decide_eq_true

end

def BudgetTraceRow.key (t : BudgetTraceRow) : Text × Text := (t.filePath, t.itemId)

/-- By score from the highest, path and item. -/
def ShownBefore (a b : Shown) : Prop :=
  b.2.2 < a.2.2 ∨ a.2.2 = b.2.2 ∧ (a.1 ≠ b.1 ∧ textLe a.1 b.1 = true ∨
    a.1 = b.1 ∧ textLe a.2.1 b.2.1 = true)

/-- What the selection under a budget gives. -/
structure SelectsGreedily (r : SkillRestorer ι) (order : HashOrder SurvivorRow)
    (orders : MatchOrders) (survivors : List SurvivorRow) (itemKind : Text) (maxTokens : ℤ)
    (selection : SkillSelection) : Prop where
  withinBudget :
    countAsI64 (wrappedInjectionTokens r.countTokensOrMin selection.matches') ≤ maxTokens
  restored : ∀ found, found ∈ selection.matches' ↔
    documentMatch r itemKind (rowsOf (matchKey found) selection.selected) = some found
  onePerDocument : (selection.matches'.map matchKey).Nodup
  sorted : selection.matches'.Pairwise fun a b => matchScore b ≤ matchScore a
  traced : ∀ key, key ∈ selection.budgetTrace.map BudgetTraceRow.key ↔
    ∃ row ∈ survivors, TakesPart row ∧ row.key = key
  tracedOnce : (selection.budgetTrace.map BudgetTraceRow.key).Nodup
  bestScore : ∀ t ∈ selection.budgetTrace,
    (∃ row ∈ survivors, TakesPart row ∧ row.key = t.key ∧ row.scoreOrZero = t.score) ∧
      ∀ row ∈ survivors, TakesPart row → row.key = t.key → row.scoreOrZero ≤ t.score
  traceOrder : selection.budgetTrace.Pairwise fun a b => ShownBefore a.shown b.shown
  traceOfRows : selection.budgetTrace.map BudgetTraceRow.shown =
    (orderedRows order survivors).map SurvivorRow.shown
  selectedRows : ∀ row ∈ selection.selected, row ∈ orderedRows order survivors
  selectedIff : ∀ before row after, orderedRows order survivors = before ++ row :: after →
    (row ∈ selection.selected ↔ trialTokens r orders itemKind
      (before.filter selection.selected.contains) row ≤ maxTokens)

section

variable {order : HashOrder SurvivorRow} {survivors : List SurvivorRow}
  {selection : SkillSelection}

theorem map_key_of_shown {trace : List BudgetTraceRow} {rows : List SurvivorRow}
    (h : trace.map BudgetTraceRow.shown = rows.map SurvivorRow.shown) :
    trace.map BudgetTraceRow.key = rows.map SurvivorRow.key := by
  have hkeys := congrArg (List.map fun t : Shown => (t.1, t.2.1)) h
  rw [List.map_map, List.map_map] at hkeys
  exact hkeys

theorem selectsGreedily_of_some (hmax : 0 ≤ maxTokens)
    (hscores : ∀ row ∈ survivors, ∃ score, row.score = some score)
    (h : greedySelectSkillItems r order orders survivors itemKind maxTokens = some selection) :
    SelectsGreedily r order orders survivors itemKind maxTokens selection := by
  obtain ⟨state, hrun, rfl⟩ := Option.map_eq_some_iff.mp h
  have hstate := holds_foldlM (holds_nil hmax) hrun
  rw [nil_append] at hstate
  obtain ⟨matchOrder, hbest⟩ := hstate.best
  have hrows := isBest_foldl hscores
  have hkeys := map_key_of_shown hstate.trace
  have hmem : ∀ t ∈ state.budgetTrace, ∃ row, row.shown = t.shown ∧
      (survivors.foldl keepBest .empty).get? row.key = some row := by
    intro t ht
    have hshown := mem_map_of_mem (f := BudgetTraceRow.shown) ht
    rw [hstate.trace] at hshown
    obtain ⟨row, hrow, heq⟩ := mem_map.mp hshown
    exact ⟨row, heq, (mem_orderedRows hscores).mp hrow⟩
  refine ⟨hstate.within, fun found => ?_, ?_, ?_, fun key => ?_, ?_, fun t ht => ?_, ?_,
    hstate.trace, fun row hrow => ?_, fun before row after hsplit => ?_⟩
  · exact hbest ▸ mem_sortedMatches
  · exact hbest ▸ nodup_sortedMatches
  · exact hbest ▸ pairwise_sortedMatches _
  · dsimp only
    rw [hkeys, mem_map]
    constructor
    · rintro ⟨row, hrow, rfl⟩
      have hget := (mem_orderedRows hscores).mp hrow
      exact ⟨row, (hrows.sound hget).1, (hrows.sound hget).2.1, rfl⟩
    · rintro ⟨row, hrow, hpart, rfl⟩
      obtain ⟨kept, hkept⟩ := hrows.complete row hrow hpart
      have hkey := (hrows.sound hkept).2.2
      exact ⟨kept, (mem_orderedRows hscores).mpr (hkey ▸ hkept), hkey⟩
  · dsimp only
    rw [hkeys]
    exact nodup_orderedRows hscores
  · obtain ⟨row, hshown, hget⟩ := hmem t ht
    have hkey : row.key = t.key := congrArg (fun t : Shown => (t.1, t.2.1)) hshown
    have hscore : row.scoreOrZero = t.score := congrArg (fun t : Shown => t.2.2) hshown
    refine ⟨⟨row, (hrows.sound hget).1, (hrows.sound hget).2.1, hkey, hscore⟩,
      fun other hother hpart hother' => ?_⟩
    exact hscore ▸ hrows.greatest hget other hother hpart (hother'.trans hkey.symm)
  · have hordered : ((orderedRows order survivors).map SurvivorRow.shown).Pairwise ShownBefore :=
      pairwise_map.mpr (pairwise_orderedRows.imp rowLe_iff.mp)
    rw [← hstate.trace] at hordered
    exact pairwise_map.mp hordered
  · dsimp only at hrow
    rw [hstate.selected] at hrow
    exact takeFitting_subset _ _ hrow
  · have hnodup : (before ++ row :: after).Nodup := by
      rw [← hsplit]
      exact (nodup_orderedRows hscores).of_map _
    dsimp only
    rw [hstate.selected, hsplit, mem_takeFitting_iff hnodup]
    exact decide_eq_true_iff

theorem isSome_greedySelectSkillItems (h : ∀ rows, restoreRows r itemKind rows ≠ none) :
    (greedySelectSkillItems r order orders survivors itemKind maxTokens).isSome = true := by
  have hfold : ∀ (rows : List SurvivorRow) (state : BudgetState),
      (rows.foldlM (greedyStep r orders itemKind maxTokens) state).isSome = true := by
    intro rows
    induction rows with
    | nil => exact fun _ => rfl
    | cons row rows ih =>
      intro state
      obtain ⟨found, hfound⟩ := Option.ne_none_iff_exists'.mp (h (trialDocRows state row))
      rw [foldlM_cons, greedyStep_eq, hfound]
      exact ih _
  unfold greedySelectSkillItems
  rw [Option.isSome_map]
  exact hfold _ _

/-- What is returned keeps the budget, has the reconstruction of the selected rows of each document,
sorted, and a trace with the best row of each key; a row is selected if and only if it fits with
those selected before it. It is returned where no reconstruction gives an error. -/
theorem greedySelectSkillItems_spec (r : SkillRestorer ι) (order : HashOrder SurvivorRow)
    (orders : MatchOrders) (survivors : List SurvivorRow) (itemKind : Text) (maxTokens : ℤ)
    (hmax : 0 ≤ maxTokens) (hscores : ∀ row ∈ survivors, ∃ score, row.score = some score) :
    (∀ selection, greedySelectSkillItems r order orders survivors itemKind maxTokens =
      some selection → SelectsGreedily r order orders survivors itemKind maxTokens selection) ∧
    ((∀ rows, restoreRows r itemKind rows ≠ none) →
      (greedySelectSkillItems r order orders survivors itemKind maxTokens).isSome = true) :=
  ⟨fun _ => selectsGreedily_of_some hmax hscores, isSome_greedySelectSkillItems⟩

end

/-- Every skill reads `text`, and a token is a character. -/
def plainRestorer : SkillRestorer Unit where
  loadSkillsIndexFromEntry _ _ _ := some ()
  reconstructSkillMarkdown _ _ _ _ := some "text"
  sumCachedTokenCountsForSpecs _ _ _ := none
  countTokensOrMin := List.length

def asListed {α : Type} : HashOrder α := ⟨id, fun xs => List.Perm.refl xs⟩

def skillRow (filePath : Text) : SurvivorRow :=
  { passed := true
    filePath := filePath
    itemId := "1"
    score := some (1 / 2)
    entryDir := "entry"
    docId := "doc"
    bm25ChunkDir := none
    frontmatter := none }

theorem greedySelectSkillItems_spec_skillRow :
    (∀ selection, greedySelectSkillItems plainRestorer asListed (fun _ => asListed)
        [skillRow "a.md"] "chunk" 500 = some selection →
      SelectsGreedily plainRestorer asListed (fun _ => asListed) [skillRow "a.md"]
        "chunk" 500 selection) ∧
    ((∀ rows, restoreRows plainRestorer "chunk" rows ≠ none) →
      (greedySelectSkillItems plainRestorer asListed (fun _ => asListed)
        [skillRow "a.md"] "chunk" 500).isSome = true) :=
  greedySelectSkillItems_spec plainRestorer asListed (fun _ => asListed) [skillRow "a.md"]
    "chunk" 500 (by decide) (forall_mem_singleton.mpr ⟨_, rfl⟩)

theorem row_without_path_untraced :
    (skillRow []).passed = true ∧ greedySelectSkillItems plainRestorer asListed
      (fun _ => asListed) [skillRow []] "chunk" 500 = some ⟨[], [], []⟩ := by
  have hrows : orderedRows asListed [skillRow []] = [] := mergeSort_nil
  refine ⟨rfl, ?_⟩
  unfold greedySelectSkillItems
  rw [hrows]
  rfl

end ClearYourTools.Bm25Search.SkillBudget
