import ClearYourTools.CytClient.Pairing
import ClearYourTools.Misc.Blocks

/-!
# The lines that are left of a Codex configuration

Line by line, whatever the tables are: a line with a marker takes along the lines up to the next one
with the header of a server table.
-/

namespace ClearYourTools.CytClient

open Misc Text List
open Matcher (search literal)

theorem newline_notMem_serversHeader : '\n' ∉ serversHeader := by decide

theorem serversHeader_endsInText : EndsInText serversHeader := endsInText_of_getLast? (by decide)

theorem newline_notMem_marker : ∀ key ∈ frontendServerKeys, '\n' ∉ marker key := by decide

variable (key : Text)

theorem marker_ne_nil : marker key ≠ [] := cons_ne_nil _ _

theorem marker_endsInText : EndsInText (marker key) := by
  refine ⟨marker_ne_nil key, fun c hc => ?_⟩
  rw [marker, ← List.append_assoc, getLast?_concat] at hc
  cases hc
  rfl

theorem serversHeader_prefix_marker : serversHeader <+: marker key := prefix_append _ _

variable {key text : Text}

theorem search_marker_eq_none_iff :
    search (literal (marker key)) text = none ↔ ¬ marker key <:+: text :=
  Matcher.search_literal_eq_none_iff (marker_ne_nil key)

theorem cutTable_of_unmarked (h : ¬ marker key <:+: text) : cutTable text key = text := by
  unfold cutTable
  rw [search_marker_eq_none_iff.mpr h]

theorem joinLines_cons_append (x y : Text) (ys : List Text) :
    joinLines ((x ++ y) :: ys) = x ++ joinLines (y :: ys) := by
  cases ys with
  | nil => rw [joinLines_singleton, joinLines_singleton]
  | cons z ys => rw [joinLines_cons_cons, joinLines_cons_cons, List.append_assoc]

variable {blocks : List Text}

theorem infix_joinLines_iff {p : Text} (hp : p ≠ []) (hnewline : '\n' ∉ p) :
    p <:+: joinLines blocks ↔ ∃ b ∈ blocks, p <:+: b := by
  induction blocks with
  | nil =>
    refine iff_of_false (fun h => hp (infix_nil.mp h)) ?_
    rintro ⟨b, hb, -⟩
    cases hb
  | cons b blocks ih =>
    rw [exists_mem_cons_iff, ← ih]
    cases blocks with
    | nil =>
      rw [joinLines_singleton]
      exact (or_iff_left fun h => hp (infix_nil.mp h)).symm
    | cons b' blocks => rw [joinLines_cons_cons, infix_append_cons hnewline]

/-- A line of a block that starts with the header of a server table, the first one apart. -/
def HasInnerHeader (block : Text) : Prop := '\n' :: serversHeader <:+: block

instance (block : Text) : Decidable (HasInnerHeader block) :=
  inferInstanceAs (Decidable ('\n' :: serversHeader <:+: block))

/-- The header of a server table starts the block. -/
def IsServerTable (block : Text) : Prop := serversHeader <+: block

instance (block : Text) : Decidable (IsServerTable block) :=
  inferInstanceAs (Decidable (serversHeader <+: block))

theorem not_hasInnerHeader_joinLines {r : Text} (hr : ¬ HasInnerHeader r)
    (hblocks : ∀ b ∈ blocks, ¬ IsServerTable b ∧ ¬ HasInnerHeader b) :
    ¬ HasInnerHeader (joinLines (r :: blocks)) := by
  induction blocks generalizing r with
  | nil =>
    rw [joinLines_singleton]
    exact hr
  | cons b blocks ih =>
    obtain ⟨hb, hrest⟩ := forall_mem_cons.mp hblocks
    rw [joinLines_cons_cons, HasInnerHeader, cons_infix_append_cons newline_notMem_serversHeader]
    rintro (hin | hpre | hin)
    · exact hr hin
    · apply hb.1
      cases blocks with
      | nil =>
        rw [joinLines_singleton] at hpre
        exact hpre
      | cons b' blocks =>
        rw [joinLines_cons_cons, prefix_append_cons newline_notMem_serversHeader] at hpre
        exact hpre
    · exact ih hb.2 hrest hin

/-- What a table leaves behind it. -/
def blocksAfter (blocks : List Text) : List Text := if blocks = [] then [[]] else blocks

variable {before : List Text}

theorem search_marker_joinLines (hkey : key ∈ frontendServerKeys) (r : Text)
    (hbefore : ∀ b ∈ before, ¬ marker key <:+: b) (after : List Text) :
    ∃ t, search (literal (marker key))
        (joinLines (before ++ (marker key ++ r) :: after)) =
          some (t, marker key, joinLines (r :: after)) ∧
      t.rstrip = (joinLines before).rstrip := by
  have hhere : search (literal (marker key))
      (joinLines ((marker key ++ r) :: after)) = some ([], marker key, joinLines (r :: after)) := by
    rw [joinLines_cons_append]
    exact Matcher.search_of_here (Matcher.literal_append _ _)
  have hnewline := newline_notMem_marker key hkey
  by_cases hnil : before = []
  · subst hnil
    exact ⟨[], hhere, rfl⟩
  have hnone : search (literal (marker key)) (joinLines before) = none := by
    rw [search_marker_eq_none_iff, infix_joinLines_iff (marker_ne_nil key) hnewline]
    rintro ⟨b, hb, hin⟩
    exact hbefore b hb hin
  have hstart : literal (marker key) ('\n' :: joinLines ((marker key ++ r) :: after)) = none :=
    Matcher.literal_eq_none_iff.mpr fun hpre => by
      obtain ⟨c, rest, hmarker⟩ := exists_cons_of_ne_nil (marker_ne_nil key)
      rw [hmarker] at hpre hnewline
      rw [(cons_prefix_cons.mp hpre).1] at hnewline
      exact hnewline mem_cons_self
  refine ⟨joinLines before ++ ['\n'], ?_, ?_⟩
  · rw [joinLines_append hnil (cons_ne_nil _ _),
      Matcher.search_append_stop (Matcher.literal_stopsAt hnewline) hnone, search, hstart]
    dsimp only
    rw [hhere]
    rfl
  · exact rstrip_append_blank _ (forall_mem_singleton.mpr rfl)

theorem cutTable_joinLines (hkey : key ∈ frontendServerKeys) {r : Text} {gone after : List Text}
    (hbefore : ∀ b ∈ before, ¬ marker key <:+: b) (hr : ¬ HasInnerHeader r)
    (hgone : ∀ b ∈ gone, ¬ IsServerTable b ∧ ¬ HasInnerHeader b)
    (hafter : ∀ b ∈ after.head?, IsServerTable b) :
    cutTable (joinLines (before ++ (marker key ++ r) :: (gone ++ after))) key =
      joinLines ((joinLines before).rstrip :: blocksAfter after) := by
  obtain ⟨t, hsearch, hrstrip⟩ := search_marker_joinLines hkey r hbefore (gone ++ after)
  have hclean := not_hasInnerHeader_joinLines hr hgone
  unfold cutTable
  rw [hsearch, ← hrstrip]
  dsimp only
  cases after with
  | nil =>
    rw [List.append_nil, Matcher.search_literal_eq_none_iff (cons_ne_nil _ _) |>.mpr hclean,
      blocksAfter, if_pos rfl, joinLines_cons_cons, joinLines_singleton]
  | cons b after =>
    obtain ⟨rest, rfl⟩ := hafter b rfl
    rw [blocksAfter, if_neg (cons_ne_nil _ _), ← List.cons_append,
      joinLines_append (cons_ne_nil _ _) (cons_ne_nil _ _), joinLines_cons_append,
      search_literal_cons newline_notMem_serversHeader hclean, joinLines_cons_cons,
      joinLines_cons_append]
    rfl

def IsFrontendTable (block : Text) : Prop := ∃ key ∈ frontendServerKeys, marker key <+: block

instance (block : Text) : Decidable (IsFrontendTable block) :=
  inferInstanceAs (Decidable (∃ key ∈ frontendServerKeys, marker key <+: block))

/-- A marker stands at the start of a block only, and in no two blocks. -/
structure MarkedBlocks (blocks : List Text) : Prop where
  start : ∀ key ∈ frontendServerKeys, ∀ block ∈ blocks, marker key <:+: block →
    marker key <+: block ∧ ¬ marker key <:+: block.tail
  once : ∀ key ∈ frontendServerKeys,
    (blocks.filter fun block => decide (marker key <+: block)).length ≤ 1

/-- Each block but the first is a table, and the markers are headers of tables. -/
structure MarkedTables (blocks : List Text) : Prop extends MarkedBlocks blocks where
  header : ∀ block ∈ blocks.tail, ['['] <+: block

/-- Each table of a frontend has only its own header in it, and the next table, if there is one, is
one of a server. -/
def FollowedByServer : List Text → Prop
  | [] => True
  | block :: blocks =>
    (IsFrontendTable block →
      ¬ HasInnerHeader block ∧ ∀ next ∈ blocks.head?, IsServerTable next) ∧ FollowedByServer blocks

theorem MarkedBlocks.sublist {blocks' : List Text} (h : MarkedBlocks blocks)
    (hsub : blocks'.Sublist blocks) : MarkedBlocks blocks' where
  start := fun key hkey block hblock => h.start key hkey block (hsub.subset hblock)
  once := fun key hkey => (hsub.filter _).length_le.trans (h.once key hkey)

theorem MarkedTables.filter (h : MarkedTables blocks) (q : Text → Bool) :
    MarkedTables (blocks.filter q) where
  toMarkedBlocks := h.toMarkedBlocks.sublist filter_sublist
  header := by
    intro block hblock
    apply h.header block
    cases blocks with
    | nil => exact hblock
    | cons b blocks =>
      rw [filter_cons] at hblock
      split at hblock
      · exact mem_of_mem_filter hblock
      · exact mem_of_mem_filter (mem_of_mem_tail hblock)

theorem FollowedByServer.filter (h : FollowedByServer blocks) {q : Text → Bool}
    (hq : ∀ block ∈ blocks, q block = false → IsFrontendTable block) :
    FollowedByServer (blocks.filter q) ∧
      ((∀ next ∈ blocks.head?, IsServerTable next) →
        ∀ next ∈ (blocks.filter q).head?, IsServerTable next) := by
  induction blocks with
  | nil => exact ⟨trivial, fun h => h⟩
  | cons block blocks ih =>
    obtain ⟨hrest, hhead⟩ := ih h.2 fun b hb => hq b (mem_cons_of_mem block hb)
    rw [filter_cons]
    cases hblock : q block with
    | true =>
      rw [if_pos rfl]
      refine ⟨⟨fun hfrontend => ?_, hrest⟩, fun hserver => hserver⟩
      obtain ⟨hinner, hnext⟩ := h.1 hfrontend
      exact ⟨hinner, hhead hnext⟩
    | false =>
      rw [if_neg Bool.false_ne_true]
      exact ⟨hrest, fun _ => hhead (h.1 (hq block mem_cons_self hblock)).2⟩

theorem hasInnerHeader_endsInText : EndsInText ('\n' :: serversHeader) :=
  endsInText_of_getLast? (by decide)

theorem not_infix_of_sameBlocks {blocks' : List Text}
    (hnot : ∀ block ∈ blocks, ¬ marker key <:+: block) (hsame : SameBlocks blocks blocks') :
    ∀ block ∈ blocks', ¬ marker key <:+: block := by
  intro block hblock hin
  obtain ⟨b, hb, hsame⟩ := hsame.exists_mem hblock
  exact hnot b hb ((hsame.infix_iff (marker_endsInText key)).mp hin)

theorem not_infix_of_blank {blank : List Text} (hblank : ∀ b ∈ blank, Text.rstrip b = []) :
    ∀ b ∈ blank, ¬ marker key <:+: b := by
  intro b hb hin
  rw [← infix_rstrip_iff (marker_endsInText key), hblank b hb] at hin
  exact marker_ne_nil key (infix_nil.mp hin)

theorem MarkedBlocks.not_infix_around (hkey : key ∈ frontendServerKeys) {after : List Text}
    {table : Text} (h : MarkedBlocks (before ++ table :: after)) (htable : marker key <+: table) :
    (∀ b ∈ before, ¬ marker key <:+: b) ∧ ∀ b ∈ after, ¬ marker key <:+: b := by
  have honce := h.once key hkey
  rw [filter_append, filter_cons, if_pos (decide_eq_true htable), length_append,
    length_cons] at honce
  have hnone : ∀ bs : List Text, (∀ b ∈ bs, b ∈ before ++ table :: after) →
      (bs.filter fun block => decide (marker key <+: block)).length = 0 →
      ∀ b ∈ bs, ¬ marker key <:+: b := by
    intro bs hsub hlength b hb hin
    have hstart := (h.start key hkey b (hsub b hb) hin).1
    have hmem : b ∈ bs.filter fun block => decide (marker key <+: block) :=
      mem_filter.mpr ⟨hb, decide_eq_true hstart⟩
    rw [eq_nil_of_length_eq_zero hlength] at hmem
    cases hmem
  refine ⟨hnone before (fun b hb => mem_append_left _ hb) (by omega),
    hnone after (fun b hb => ?_) (by omega)⟩
  exact mem_append_right _ (mem_cons_of_mem _ hb)

theorem hasBlocks_cutTable (hkey : key ∈ frontendServerKeys) (hmarked : MarkedTables blocks)
    (hfollowed : FollowedByServer blocks) (h : HasBlocks blocks text) :
    HasBlocks (blocks.filter fun block => !decide (marker key <+: block)) (cutTable text key) := by
  have htext : ∀ block ∈ blocks.tail, Text.rstrip block ≠ [] := by
    intro block hblock hnil
    obtain ⟨rest, rfl⟩ := hmarked.header block hblock
    rw [rstrip_eq_nil_iff] at hnil
    exact absurd (hnil '[' mem_cons_self) (by decide)
  obtain ⟨blank, blocks', rfl, hblank, hsame⟩ := h
  have hkept : ∀ bs : List Text, (∀ b ∈ bs, ¬ marker key <:+: b) →
      bs.filter (fun block => !decide (marker key <+: block)) = bs := by
    intro bs hbs
    rw [filter_eq_self]
    intro b hb
    rw [decide_eq_false fun hpre => hbs b hb hpre.isInfix]
    rfl
  by_cases hany : ∃ block ∈ blocks, marker key <+: block
  · obtain ⟨table, htable, hstart⟩ := hany
    obtain ⟨before, after, rfl⟩ := append_of_mem htable
    obtain ⟨hbefore, hafter⟩ := hmarked.toMarkedBlocks.not_infix_around hkey hstart
    obtain ⟨before', table', after', rfl, hsameBefore, hsameTable, hsameAfter⟩ := hsame.exists_split
    obtain ⟨r, rfl⟩ := (hsameTable.prefix_iff (marker_endsInText key)).mpr hstart
    have hnext : ¬ HasInnerHeader table ∧ ∀ next ∈ after.head?, IsServerTable next := by
      clear hmarked hsame htext htable hbefore hsameBefore
      induction before with
      | nil => exact hfollowed.1 ⟨key, hkey, hstart⟩
      | cons b before ih => exact ih hfollowed.2
    have hinner : ¬ HasInnerHeader r := fun hin => hnext.1
      ((hsameTable.infix_iff hasInnerHeader_endsInText).mp (hin.trans (suffix_append _ _).isInfix))
    have hafter' : ∀ b ∈ after'.head?, IsServerTable b := by
      intro b hb
      cases after' with
      | nil => cases hb
      | cons b' after' =>
        cases hb
        cases after with
        | nil => exact absurd (congrArg List.length hsameAfter) (by simp)
        | cons c after =>
          have hc : SameBlock c b := (List.cons.inj hsameAfter).1
          exact (hc.prefix_iff serversHeader_endsInText).mpr (hnext.2 c rfl)
    have hbefore' : ∀ b ∈ blank ++ before', ¬ marker key <:+: b :=
      forall_mem_append.mpr ⟨not_infix_of_blank hblank, not_infix_of_sameBlocks hbefore hsameBefore⟩
    have hcut := cutTable_joinLines hkey hbefore' hinner (forall_mem_nil _) hafter'
    rw [List.append_assoc, nil_append] at hcut
    have hstripped : HasBlocks before (joinLines (blank ++ before')).rstrip := by
      refine HasBlocks.rstrip ⟨blank, before', rfl, hblank, hsameBefore⟩ fun b hb => htext b ?_
      cases before with
      | nil => cases hb
      | cons c before => exact mem_append_left _ hb
    rw [filter_append, filter_cons, if_neg (by rw [decide_eq_true hstart]; decide),
      hkept before hbefore, hkept after hafter, hcut]
    unfold blocksAfter
    split
    · rename_i hnil
      subst hnil
      have hnone : after = [] := map_eq_nil_iff.mp hsameAfter
      rw [hnone, List.append_nil, joinLines_cons_cons, joinLines_singleton]
      exact hstripped.append_newline
    · exact hstripped.joinLines_cons hsameAfter
  · have hnot : ∀ b ∈ blocks, ¬ marker key <:+: b :=
      fun b hb hin => hany ⟨b, hb, (hmarked.start key hkey b hb hin).1⟩
    have hnone : ¬ marker key <:+: joinLines (blank ++ blocks') := by
      rw [infix_joinLines_iff (marker_ne_nil key) (newline_notMem_marker key hkey)]
      rintro ⟨b, hb, hin⟩
      rcases mem_append.mp hb with hb | hb
      · exact not_infix_of_blank hblank b hb hin
      · exact not_infix_of_sameBlocks hnot hsame b hb hin
    rw [hkept blocks hnot, cutTable_of_unmarked hnone]
    exact ⟨blank, blocks', rfl, hblank, hsame⟩

theorem hasBlocks_cutTables {order : List Text} (horder : ∀ key ∈ order, key ∈ frontendServerKeys)
    (hmarked : MarkedTables blocks) (hfollowed : FollowedByServer blocks)
    (h : HasBlocks blocks text) :
    HasBlocks (blocks.filter fun block => order.all fun key => !decide (marker key <+: block))
      (cutTables order text) := by
  induction order generalizing blocks text with
  | nil =>
    have hall : (blocks.filter fun block => ([] : List Text).all fun key =>
        !decide (marker key <+: block)) = blocks := filter_eq_self.mpr fun _ _ => rfl
    rw [hall]
    exact h
  | cons key order ih =>
    obtain ⟨hkey, horder⟩ := forall_mem_cons.mp horder
    have hgone : ∀ block ∈ blocks, (!decide (marker key <+: block)) = false →
        IsFrontendTable block := by
      intro block _ hblock
      rw [Bool.not_eq_false', decide_eq_true_iff] at hblock
      exact ⟨key, hkey, hblock⟩
    have hrest := ih horder (hmarked.filter _) (hfollowed.filter hgone).1
      (hasBlocks_cutTable hkey hmarked hfollowed h)
    rw [filter_filter] at hrest
    have hall : (blocks.filter fun block => (key :: order).all fun key =>
        !decide (marker key <+: block)) = blocks.filter fun block =>
          (order.all fun key => !decide (marker key <+: block)) && !decide (marker key <+: block) :=
      filter_congr fun block _ => by rw [all_cons, Bool.and_comm]
    rw [hall]
    exact hrest

/-- What is left of the lines when each line that is `gone` takes along the lines up to the next one
with the header of a server table. -/
def keptLines (gone : Text → Bool) : Bool → List Text → List Text
  | _, [] => []
  | skip, l :: lines =>
    if gone l then keptLines gone true lines
    else if IsServerTable l then l :: keptLines gone false lines
    else if skip then keptLines gone true lines
    else l :: keptLines gone false lines

section

variable {gone : Text → Bool}

theorem keptLines_append {xs : List Text} (hxs : ∀ l ∈ xs, gone l = false) (ys : List Text) :
    keptLines gone false (xs ++ ys) = xs ++ keptLines gone false ys := by
  induction xs with
  | nil => rfl
  | cons l xs ih =>
    obtain ⟨hl, hxs⟩ := forall_mem_cons.mp hxs
    rw [List.cons_append, keptLines, hl, if_neg Bool.false_ne_true, ih hxs]
    split <;> rfl

theorem keptLines_skip {xs : List Text} (hxs : ∀ l ∈ xs, gone l = false ∧ ¬ IsServerTable l)
    (ys : List Text) : keptLines gone true (xs ++ ys) = keptLines gone true ys := by
  induction xs with
  | nil => rfl
  | cons l xs ih =>
    obtain ⟨hl, hxs⟩ := forall_mem_cons.mp hxs
    rw [List.cons_append, keptLines, hl.1, if_neg Bool.false_ne_true, if_neg hl.2, if_pos rfl,
      ih hxs]

theorem keptLines_of_server {ys : List Text} (hys : ∀ l ∈ ys, gone l = false)
    (hhead : ∀ l ∈ ys.head?, IsServerTable l) : keptLines gone true ys = ys := by
  cases ys with
  | nil => rfl
  | cons l ys =>
    obtain ⟨hl, hys⟩ := forall_mem_cons.mp hys
    have hrest := keptLines_append hys []
    rw [List.append_nil] at hrest
    rw [keptLines, hl, if_neg Bool.false_ne_true, if_pos (hhead l rfl), hrest]
    exact congrArg (l :: ·) (List.append_nil ys)

theorem keptLines_sublist (skip : Bool) (lines : List Text) :
    (keptLines gone skip lines).Sublist lines := by
  induction lines generalizing skip with
  | nil => exact List.Sublist.refl []
  | cons l lines ih =>
    rw [keptLines]
    split
    · exact (ih true).cons l
    · split
      · exact (ih false).cons_cons l
      · split
        · exact (ih true).cons l
        · exact (ih false).cons_cons l

theorem forall_keptLines (skip : Bool) (lines : List Text) :
    ∀ l ∈ keptLines gone skip lines, gone l = false := by
  induction lines generalizing skip with
  | nil => exact forall_mem_nil _
  | cons l lines ih =>
    cases hl : gone l with
    | true =>
      rw [keptLines, hl, if_pos rfl]
      exact ih true
    | false =>
      rw [keptLines, hl, if_neg Bool.false_ne_true]
      split
      · exact forall_mem_cons.mpr ⟨hl, ih false⟩
      · split
        · exact ih true
        · exact forall_mem_cons.mpr ⟨hl, ih false⟩

/-- Lines that go one after the other. -/
theorem keptLines_keptLines {gone' : Text → Bool} (hgone' : ∀ l, gone' l = true → IsServerTable l) (lines : List Text) (skip : Bool) :
    keptLines gone' skip (keptLines gone true lines) =
        keptLines (fun l => gone l || gone' l) true lines ∧
      keptLines gone' skip (keptLines gone false lines) =
        keptLines (fun l => gone l || gone' l) skip lines := by
  induction lines generalizing skip with
  | nil => exact ⟨rfl, rfl⟩
  | cons l lines ih =>
    cases hl : gone l with
    | true =>
      simp only [keptLines, hl, Bool.true_or, if_true]
      exact ⟨(ih skip).1, (ih skip).1⟩
    | false =>
      by_cases hserver : IsServerTable l
      · cases hl' : gone' l with
        | true =>
          simp only [keptLines, hl, hl', Bool.false_or, hserver, if_true, Bool.false_eq_true,
            if_false]
          exact ⟨(ih true).2, (ih true).2⟩
        | false =>
          simp only [keptLines, hl, hl', Bool.or_self, hserver, if_true, Bool.false_eq_true,
            if_false, (ih false).2, and_self]
      · have hl' : gone' l = false := by
          rw [← Bool.not_eq_true]
          exact fun h => hserver (hgone' l h)
        cases skip with
        | true =>
          simp only [keptLines, hl, hl', Bool.or_self, hserver, if_true, Bool.false_eq_true,
            if_false]
          exact ⟨(ih true).1, (ih true).2⟩
        | false =>
          simp only [keptLines, hl, hl', Bool.or_self, hserver, if_true, Bool.false_eq_true,
            if_false, (ih false).2, and_true]
          exact (ih false).1

theorem countP_keptLines (hgone : ∀ l, gone l = true → IsServerTable l) (skip : Bool)
    (lines : List Text) :
    lines.countP (fun l => decide (IsServerTable l)) =
      lines.countP gone + (keptLines gone skip lines).countP fun l => decide (IsServerTable l) := by
  induction lines generalizing skip with
  | nil => rfl
  | cons l lines ih =>
    cases hl : gone l with
    | true =>
      have hrest := ih true
      simp only [keptLines, countP_cons, hl, decide_eq_true (hgone l hl), if_true]
      omega
    | false =>
      by_cases hserver : IsServerTable l
      · have hrest := ih false
        simp only [keptLines, countP_cons, hl, hserver, decide_true, if_true,
          Bool.false_eq_true, if_false]
        omega
      · cases skip with
        | true =>
          have hrest := ih true
          simp only [keptLines, countP_cons, hl, hserver, decide_false, if_true,
            Bool.false_eq_true, if_false]
          omega
        | false =>
          have hrest := ih false
          simp only [keptLines, countP_cons, hl, hserver, decide_false, Bool.false_eq_true,
            if_false]
          omega

end

variable {text : Text}

theorem markedBlocks_splitOn (h : MarkedBlocks (textLines text)) :
    MarkedBlocks (text.splitOn '\n') where
  start := by
    intro key hkey l hl hin
    have hp := marker_endsInText key
    have hne : ∀ {t : Text}, marker key <:+: t → Text.rstrip t ≠ [] := by
      intro t hin hnil
      rw [← infix_rstrip_iff hp, hnil] at hin
      exact marker_ne_nil key (infix_nil.mp hin)
    have hmem : Text.rstrip l ∈ textLines text := by
      refine mem_filter.mpr ⟨mem_map_of_mem hl, ?_⟩
      rw [Bool.not_eq_true', isEmpty_eq_false_iff]
      exact hne hin
    obtain ⟨hpre, hnot⟩ := h.start key hkey _ hmem ((infix_rstrip_iff hp).mpr hin)
    refine ⟨(prefix_rstrip_iff hp).mp hpre, fun htail => hnot ?_⟩
    cases l with
    | nil => exact absurd (infix_nil.mp hin) (marker_ne_nil key)
    | cons c l =>
      have hcons : Text.rstrip (c :: l) = c :: Text.rstrip l :=
        rstrip_append_of_ne_nil [c] (hne htail)
      rw [hcons]
      exact (infix_rstrip_iff hp).mpr htail
  once := by
    intro key hkey
    have honce := h.once key hkey
    have hsame : (textLines text).filter (fun l => decide (marker key <+: l)) =
        ((text.splitOn '\n').filter fun l => decide (marker key <+: l)).map rstrip := by
      rw [textLines, filter_filter, filter_map]
      congr 1
      apply filter_congr
      intro l _
      have hiff := prefix_rstrip_iff (marker_endsInText key) (t := l)
      dsimp only [Function.comp]
      rw [decide_eq_decide.mpr hiff]
      by_cases hpre : marker key <+: l
      · have hne : Text.rstrip l ≠ [] := by
          intro hnil
          rw [hnil] at hiff
          exact marker_ne_nil key (prefix_nil.mp (hiff.mpr hpre))
        rw [decide_eq_true hpre, isEmpty_eq_false_iff.mpr hne]
        rfl
      · rw [decide_eq_false hpre, Bool.false_and]
    rw [hsame, length_map] at honce
    exact honce

/-- A line that starts with the marker of a key. -/
def hasMarker (key line : Text) : Bool := decide (marker key <+: line)

variable {key l : Text}

theorem hasMarker_isServerTable (h : hasMarker key l = true) : IsServerTable l :=
  (serversHeader_prefix_marker key).trans (of_decide_eq_true h)

variable {t : Text}

theorem hasMarker_textLines (hnot : ¬ marker key <:+: t) :
    ∀ l ∈ textLines t, hasMarker key l = false := by
  intro l hl
  apply decide_eq_false
  intro hpre
  apply hnot
  rcases infix_cons_iff.mp (infix_of_mem_textLines hl hpre) with hpre | hin
  · exact (cons_prefix_cons.mp hpre).2.isInfix
  · exact (suffix_cons '\n' _).isInfix.trans hin

variable {blocks : List Text}

theorem hasMarker_flatMap (hnot : ∀ b ∈ blocks, ¬ marker key <:+: b) :
    ∀ l ∈ blocks.flatMap textLines, hasMarker key l = false := by
  intro l hl
  obtain ⟨b, hb, hl⟩ := mem_flatMap.mp hl
  exact hasMarker_textLines (hnot b hb) l hl

/-- What one key takes out of the lines. -/
theorem textLines_cutTable (hkey : key ∈ frontendServerKeys)
    (hmarked : MarkedBlocks (textLines text)) :
    textLines (cutTable text key) = keptLines (hasMarker key) false (textLines text) := by
  have hlines := markedBlocks_splitOn hmarked
  have hnewline := newline_notMem_splitOn text
  obtain ⟨lines, hsplit⟩ : ∃ lines, text.splitOn '\n' = lines := ⟨_, rfl⟩
  have htext := joinLines_splitOn text
  rw [hsplit] at hlines hnewline htext
  rw [← htext]
  by_cases hany : ∃ l ∈ lines, marker key <:+: l
  · obtain ⟨l, hl, hin⟩ := hany
    obtain ⟨before, after, rfl⟩ := append_of_mem hl
    have hstart := (hlines.start key hkey l hl hin).1
    obtain ⟨hbefore, hafter⟩ := hlines.not_infix_around hkey hstart
    obtain ⟨first, rest, hfirst, hpre, -, hothers⟩ :=
      textLines_of_prefix (marker_endsInText key) (newline_notMem_marker key hkey) hstart
    obtain ⟨r, rfl⟩ := hstart
    have hinner : ∀ b ∈ before ++ (marker key ++ r) :: after, ¬ HasInnerHeader b :=
      fun b hb hin => hnewline b hb (hin.subset mem_cons_self)
    have hrest : rest = [] := by
      apply eq_nil_iff_forall_not_mem.mpr
      intro l' hl'
      exact hnewline _ hl ((hothers l' hl' [] nil_prefix).subset mem_cons_self)
    -- the lines up to the next header go with the table
    obtain ⟨gone, kept, hgk, hgone, hkept⟩ : ∃ gone kept, after = gone ++ kept ∧
        (∀ b ∈ gone, ¬ IsServerTable b) ∧ ∀ b ∈ kept.head?, IsServerTable b := by
      refine ⟨after.takeWhile fun b => !decide (IsServerTable b),
        after.dropWhile fun b => !decide (IsServerTable b), takeWhile_append_dropWhile.symm, ?_, ?_⟩
      · intro b hb
        have hb' := mem_takeWhile_imp hb
        rw [Bool.not_eq_true', decide_eq_false_iff_not] at hb'
        exact hb'
      · intro b hb
        have hhead := head?_dropWhile_not (fun b => !decide (IsServerTable b)) after
        rw [Option.mem_def] at hb
        rw [hb] at hhead
        dsimp only at hhead
        rw [Bool.not_eq_false'] at hhead
        exact of_decide_eq_true hhead
    subst hgk
    have hclean : ∀ b ∈ gone, ¬ IsServerTable b ∧ ¬ HasInnerHeader b :=
      fun b hb => ⟨hgone b hb, hinner b (mem_append_right _ (mem_cons_of_mem _
        (mem_append_left _ hb)))⟩
    have hcut := cutTable_joinLines hkey hbefore (r := r)
      (fun hin => hinner _ hl (hin.trans (suffix_append _ _).isInfix)) hclean hkept
    have hblocks : (blocksAfter kept).flatMap textLines = kept.flatMap textLines := by
      unfold blocksAfter
      split
      · rename_i hnil
        rw [hnil]
        rfl
      · rfl
    have hmarker : hasMarker key first = true := decide_eq_true hpre
    rw [hcut, textLines_joinLines, flatMap_cons, textLines_rstrip, textLines_joinLines,
      hblocks, textLines_joinLines, flatMap_append, flatMap_cons, hfirst, hrest,
      keptLines_append (hasMarker_flatMap hbefore), singleton_append, keptLines,
      if_pos hmarker, flatMap_append, keptLines_skip, keptLines_of_server]
    · exact hasMarker_flatMap fun b hb => hafter b (mem_append_right gone hb)
    · intro l' hl'
      cases kept with
      | nil => cases hl'
      | cons b kept =>
        obtain ⟨l'', ls, heq, hpre', -, -⟩ := textLines_of_prefix serversHeader_endsInText
          newline_notMem_serversHeader (hkept b rfl)
        rw [flatMap_cons, heq] at hl'
        cases hl'
        exact hpre'
    · intro l' hl'
      refine ⟨hasMarker_flatMap (fun b hb => hafter b (mem_append_left kept hb)) l' hl', ?_⟩
      obtain ⟨b, hb, hl'⟩ := mem_flatMap.mp hl'
      intro hserver
      exact hgone b hb (prefix_of_mem_textLines (hnewline b (mem_append_right _
        (mem_cons_of_mem _ (mem_append_left _ hb)))) hl' hserver)
  · have hnot : ∀ l ∈ lines, ¬ marker key <:+: l := fun l hl hin => hany ⟨l, hl, hin⟩
    have hnone : ¬ marker key <:+: joinLines lines := by
      rw [infix_joinLines_iff (marker_ne_nil key) (newline_notMem_marker key hkey)]
      rintro ⟨l, hl, hin⟩
      exact hnot l hl hin
    have hall := keptLines_append (hasMarker_textLines hnone) []
    rw [List.append_nil] at hall
    rw [cutTable_of_unmarked hnone, hall]
    exact (List.append_nil _).symm

theorem textLines_cutTables {order : List Text} (horder : ∀ key ∈ order, key ∈ frontendServerKeys)
    (hmarked : MarkedBlocks (textLines text)) :
    textLines (cutTables order text) =
      keptLines (fun l => order.any fun key => hasMarker key l) false (textLines text) := by
  induction order generalizing text with
  | nil =>
    have hall : keptLines (fun l => ([] : List Text).any fun key => hasMarker key l) false
        (textLines text ++ []) = textLines text ++ keptLines _ false [] :=
      keptLines_append (fun _ _ => rfl) []
    rw [List.append_nil] at hall
    exact (hall.trans (List.append_nil _)).symm
  | cons key order ih =>
    obtain ⟨hkey, horder⟩ := forall_mem_cons.mp horder
    have hstep := textLines_cutTable hkey hmarked
    have hmarked' : MarkedBlocks (textLines (cutTable text key)) := by
      rw [hstep]
      exact hmarked.sublist (keptLines_sublist false _)
    have hserver : ∀ l, (order.any fun key => hasMarker key l) = true → IsServerTable l := by
      intro l hl
      obtain ⟨key', -, hl⟩ := any_eq_true.mp hl
      exact hasMarker_isServerTable hl
    have hrun := ih horder hmarked'
    rw [hstep, (keptLines_keptLines hserver _ false).2] at hrun
    exact hrun

variable {block : Text}

theorem textLines_frontendTable (hmarked : MarkedBlocks blocks) (hblock : block ∈ blocks)
    (hkey : key ∈ frontendServerKeys) (hstart : marker key <+: block) :
    ∃ first rest, textLines block = first :: rest ∧ marker key <+: first ∧ first <+: block ∧
      ∀ l ∈ rest, '\n' :: l <:+: block ∧ ∀ key' ∈ frontendServerKeys, ¬ marker key' <:+: l := by
  obtain ⟨first, rest, hfirst, hpre, hin, hothers⟩ :=
    textLines_of_prefix (marker_endsInText key) (newline_notMem_marker key hkey) hstart
  refine ⟨first, rest, hfirst, hpre, hin, fun l hl => ?_⟩
  have hl := hothers l hl l (prefix_refl l)
  refine ⟨hl, fun key' hkey' hmarker => ?_⟩
  have hblock' := hl.trans (infix_refl block)
  have hnot := (hmarked.start key' hkey' block hblock
    (hmarker.trans ((suffix_cons '\n' l).isInfix.trans hblock'))).2
  apply hnot
  obtain ⟨r, rfl⟩ := hstart
  obtain ⟨c, m, hc⟩ := exists_cons_of_ne_nil (marker_ne_nil key)
  have hnewline := newline_notMem_marker key hkey
  rw [hc] at hl hnewline ⊢
  rw [List.cons_append, infix_cons_iff] at hl
  rcases hl with hhead | htail
  · rw [(cons_prefix_cons.mp hhead).1] at hnewline
    exact absurd mem_cons_self hnewline
  · exact hmarker.trans ((suffix_cons '\n' l).isInfix.trans htail)

theorem textLines_otherBlock (hmarked : MarkedBlocks blocks) (hblock : block ∈ blocks)
    (hnot : ¬ IsFrontendTable block) (hkey : key ∈ frontendServerKeys) :
    ∀ l ∈ textLines block, ¬ marker key <:+: l := by
  intro l hl hmarker
  have hin := infix_of_mem_textLines hl (prefix_refl l)
  have hblock' : l <:+: block := by
    rcases infix_cons_iff.mp hin with hpre | hin
    · exact (cons_prefix_cons.mp hpre).2.isInfix
    · exact (suffix_cons '\n' l).isInfix.trans hin
  exact hnot ⟨key, hkey, (hmarked.start key hkey block hblock (hmarker.trans hblock')).1⟩

/-- A line that starts with the marker of a frontend. -/
def isMarked (line : Text) : Bool := decide (IsFrontendTable line)

theorem isMarked_isServerTable (h : isMarked l = true) : IsServerTable l := by
  obtain ⟨key, -, hpre⟩ := of_decide_eq_true h
  exact (serversHeader_prefix_marker key).trans hpre

theorem isMarked_eq_false (h : ∀ key ∈ frontendServerKeys, ¬ marker key <:+: l) :
    isMarked l = false := by
  apply decide_eq_false
  rintro ⟨key, hkey, hpre⟩
  exact h key hkey hpre.isInfix

theorem isMarked_otherBlock (hmarked : MarkedBlocks blocks) (hblock : block ∈ blocks)
    (hnot : ¬ IsFrontendTable block) : ∀ l ∈ textLines block, isMarked l = false := fun l hl =>
  isMarked_eq_false fun _ hkey => textLines_otherBlock hmarked hblock hnot hkey l hl

theorem MarkedBlocks.of_cons (h : MarkedBlocks (block :: blocks)) :
    MarkedBlocks blocks := h.sublist (sublist_cons_self _ _)

theorem countP_isMarked (hmarked : MarkedBlocks blocks) :
    (blocks.flatMap textLines).countP isMarked =
      (blocks.filter fun block => decide (IsFrontendTable block)).length := by
  induction blocks with
  | nil => rfl
  | cons block blocks ih =>
    rw [flatMap_cons, countP_append, ih hmarked.of_cons, filter_cons]
    by_cases hfrontend : IsFrontendTable block
    · obtain ⟨key, hkey, hstart⟩ := hfrontend
      obtain ⟨first, rest, hfirst, hpre, -, hrest⟩ :=
        textLines_frontendTable hmarked mem_cons_self hkey hstart
      have hzero : rest.countP isMarked = 0 := by
        rw [countP_eq_zero]
        intro l hl
        rw [isMarked_eq_false (hrest l hl).2]
        exact Bool.false_ne_true
      have hone : isMarked first = true := decide_eq_true ⟨key, hkey, hpre⟩
      have hblock : decide (IsFrontendTable block) = true := decide_eq_true ⟨key, hkey, hstart⟩
      rw [hfirst, countP_cons_of_pos hone, hzero, if_pos hblock, length_cons]
      omega
    · have hzero : (textLines block).countP isMarked = 0 := by
        rw [countP_eq_zero]
        intro l hl
        rw [isMarked_otherBlock hmarked mem_cons_self hfrontend l hl]
        exact Bool.false_ne_true
      have hblock : ¬ decide (IsFrontendTable block) = true := fun h =>
        hfrontend (of_decide_eq_true h)
      rw [hzero, if_neg hblock, Nat.zero_add]

/-- The number of lines with the header of a server table. -/
def serverLines (lines : List Text) : ℕ := lines.countP fun l => decide (IsServerTable l)

theorem serverLines_append (lines lines' : List Text) :
    serverLines (lines ++ lines') = serverLines lines + serverLines lines' :=
  countP_append

theorem serverLines_pos (h : IsServerTable t) : 1 ≤ serverLines (textLines t) := by
  obtain ⟨first, rest, hfirst, hpre, -, -⟩ :=
    textLines_of_prefix serversHeader_endsInText newline_notMem_serversHeader h
  rw [hfirst]
  exact countP_pos_iff.mpr ⟨first, mem_cons_self, decide_eq_true hpre⟩

theorem two_le_serverLines (h : IsServerTable t) (hinner : HasInnerHeader t) :
    2 ≤ serverLines (textLines t) := by
  obtain ⟨x, y, rfl⟩ := hinner
  rw [List.append_assoc, List.cons_append] at h ⊢
  have hx := serverLines_pos ((prefix_append_cons newline_notMem_serversHeader).mp h)
  have hy : 1 ≤ serverLines (textLines (serversHeader ++ y)) :=
    serverLines_pos (prefix_append serversHeader y)
  rw [textLines_append_newline, serverLines_append]
  omega

theorem IsFrontendTable.isServerTable (h : IsFrontendTable block) :
    IsServerTable block := isMarked_isServerTable (decide_eq_true h)

def isOther (block : Text) : Bool := !decide (IsFrontendTable block)

theorem serverLines_flatMap (blocks : List Text) :
    (blocks.filter fun block => decide (IsFrontendTable block)).length +
        serverLines ((blocks.filter isOther).flatMap textLines) ≤
      serverLines (blocks.flatMap textLines) ∧
    (serverLines (blocks.flatMap textLines) ≤
        (blocks.filter fun block => decide (IsFrontendTable block)).length +
          serverLines ((blocks.filter isOther).flatMap textLines) →
      ∀ block ∈ blocks, IsFrontendTable block → ¬ HasInnerHeader block) := by
  induction blocks with
  | nil => exact ⟨Nat.le_refl 0, fun _ => forall_mem_nil _⟩
  | cons block blocks ih =>
    obtain ⟨hle, hclean⟩ := ih
    rw [flatMap_cons, serverLines_append, filter_cons, filter_cons]
    by_cases hfrontend : IsFrontendTable block
    · have hother : isOther block = false := by
        unfold isOther
        rw [decide_eq_true hfrontend]
        rfl
      have hpos := serverLines_pos hfrontend.isServerTable
      rw [if_pos (decide_eq_true hfrontend), hother, if_neg Bool.false_ne_true, length_cons]
      refine ⟨by omega, fun hback => forall_mem_cons.mpr ⟨fun _ hinner => ?_, hclean (by omega)⟩⟩
      have htwo := two_le_serverLines hfrontend.isServerTable hinner
      omega
    · have hother : isOther block = true := by
        unfold isOther
        rw [decide_eq_false hfrontend]
        rfl
      have hnot : ¬ decide (IsFrontendTable block) = true := fun h => hfrontend (of_decide_eq_true h)
      rw [if_neg hnot, hother, if_pos rfl, flatMap_cons, serverLines_append]
      refine ⟨by omega, fun hback => forall_mem_cons.mpr ⟨fun h => absurd h hfrontend, ?_⟩⟩
      exact hclean (by omega)

theorem keptLines_frontendTable (hmarked : MarkedBlocks (block :: blocks))
    (hfrontend : IsFrontendTable block) (hinner : ¬ HasInnerHeader block) (skip : Bool) :
    keptLines isMarked skip ((block :: blocks).flatMap textLines) =
      keptLines isMarked true (blocks.flatMap textLines) := by
  obtain ⟨key, hkey, hstart⟩ := hfrontend
  obtain ⟨first, rest, hfirst, hpre, -, hrest⟩ :=
    textLines_frontendTable hmarked mem_cons_self hkey hstart
  have hone : isMarked first = true := decide_eq_true ⟨key, hkey, hpre⟩
  have hbody : ∀ l ∈ rest, isMarked l = false ∧ ¬ IsServerTable l := by
    intro l hl
    refine ⟨isMarked_eq_false (hrest l hl).2, fun hserver => hinner ?_⟩
    exact (cons_prefix_cons.mpr ⟨rfl, hserver⟩).isInfix.trans (hrest l hl).1
  rw [flatMap_cons, hfirst, List.cons_append, keptLines, if_pos hone, keptLines_skip hbody]

theorem length_keptLines_append {xs : List Text} (hxs : ∀ l ∈ xs, isMarked l = false)
    (skip : Bool) (ys : List Text) : ∃ skip', (keptLines isMarked skip (xs ++ ys)).length ≤
      xs.length + (keptLines isMarked skip' ys).length := by
  induction xs generalizing skip with
  | nil => exact ⟨skip, by rw [nil_append, length_nil, Nat.zero_add]⟩
  | cons l xs ih =>
    obtain ⟨hl, hxs⟩ := forall_mem_cons.mp hxs
    rw [List.cons_append, keptLines, hl, if_neg Bool.false_ne_true, length_cons]
    split
    · obtain ⟨skip', hle⟩ := ih hxs false
      exact ⟨skip', by rw [length_cons]; omega⟩
    · split
      · obtain ⟨skip', hle⟩ := ih hxs true
        exact ⟨skip', by omega⟩
      · obtain ⟨skip', hle⟩ := ih hxs false
        exact ⟨skip', by rw [length_cons]; omega⟩

theorem isOther_of_frontend (h : IsFrontendTable block) : isOther block = false := by
  unfold isOther
  rw [decide_eq_true h]
  rfl

theorem isOther_of_not (h : ¬ IsFrontendTable block) : isOther block = true := by
  unfold isOther
  rw [decide_eq_false h]
  rfl

theorem length_keptLines_le (hmarked : MarkedBlocks blocks)
    (hclean : ∀ block ∈ blocks, IsFrontendTable block → ¬ HasInnerHeader block) (skip : Bool) :
    (keptLines isMarked skip (blocks.flatMap textLines)).length ≤
      ((blocks.filter isOther).flatMap textLines).length := by
  induction blocks generalizing skip with
  | nil => exact Nat.le_refl 0
  | cons block blocks ih =>
    have hle := ih hmarked.of_cons fun b hb => hclean b (mem_cons_of_mem block hb)
    by_cases hfrontend : IsFrontendTable block
    · rw [keptLines_frontendTable hmarked hfrontend (hclean block mem_cons_self hfrontend),
        filter_cons, isOther_of_frontend hfrontend, if_neg Bool.false_ne_true]
      exact hle true
    obtain ⟨skip', hblock⟩ := length_keptLines_append
      (isMarked_otherBlock hmarked mem_cons_self hfrontend) skip (blocks.flatMap textLines)
    have hrest := hle skip'
    rw [filter_cons, isOther_of_not hfrontend, if_pos rfl, flatMap_cons,
      flatMap_cons, length_append]
    omega

theorem followedByServer_of_length (hmarked : MarkedBlocks blocks)
    (hclean : ∀ block ∈ blocks, IsFrontendTable block → ¬ HasInnerHeader block)
    (hheader : ∀ block ∈ blocks.tail, ['['] <+: block) (skip : Bool)
    (hskip : skip = true → ∀ block ∈ blocks.head?, ['['] <+: block)
    (hlength : ((blocks.filter isOther).flatMap textLines).length ≤
      (keptLines isMarked skip (blocks.flatMap textLines)).length) :
    FollowedByServer blocks ∧ (skip = true → ∀ next ∈ blocks.head?, IsServerTable next) := by
  induction blocks generalizing skip with
  | nil => exact ⟨trivial, fun _ next hnext => nomatch hnext⟩
  | cons block blocks ih =>
    have hclean' := fun b hb => hclean b (List.mem_cons_of_mem block hb)
    have ih := ih hmarked.of_cons hclean' fun b hb => hheader b (List.mem_of_mem_tail hb)
    have hhead : ∀ b ∈ blocks.head?, ['['] <+: b := fun b hb =>
      hheader b (List.mem_of_mem_head? hb)
    by_cases hfrontend : IsFrontendTable block
    · have hinner := hclean block List.mem_cons_self hfrontend
      rw [keptLines_frontendTable hmarked hfrontend hinner, List.filter_cons,
        isOther_of_frontend hfrontend, if_neg Bool.false_ne_true] at hlength
      obtain ⟨hrest, hnext⟩ := ih true (fun _ => hhead) hlength
      refine ⟨⟨fun _ => ⟨hinner, hnext rfl⟩, hrest⟩, fun _ next hmem => ?_⟩
      cases hmem
      exact hfrontend.isServerTable
    · have hlines := isMarked_otherBlock hmarked List.mem_cons_self hfrontend
      have hchain : FollowedByServer blocks → FollowedByServer (block :: blocks) :=
        fun hrest => ⟨fun h => absurd h hfrontend, hrest⟩
      rw [List.filter_cons, isOther_of_not hfrontend, if_pos rfl, List.flatMap_cons,
        List.flatMap_cons, List.length_append] at hlength
      cases skip with
      | false =>
        rw [keptLines_append hlines, List.length_append] at hlength
        obtain ⟨hrest, -⟩ := ih false (fun h => nomatch h) (by omega)
        exact ⟨hchain hrest, fun h => nomatch h⟩
      | true =>
        obtain ⟨l, ls, hfirst, -, hin, -⟩ := textLines_of_prefix
          (endsInText_of_getLast? (by decide)) (by decide)
          (hskip rfl block rfl)
        rw [hfirst] at hlines hlength
        obtain ⟨hl, hls⟩ := List.forall_mem_cons.mp hlines
        by_cases hserver : IsServerTable block
        · have hfirstServer : IsServerTable l := by
            obtain ⟨l', ls', hfirst', hpre, -, -⟩ := textLines_of_prefix serversHeader_endsInText
              newline_notMem_serversHeader hserver
            rw [hfirst] at hfirst'
            rw [(List.cons.inj hfirst').1]
            exact hpre
          rw [List.cons_append, keptLines, hl, if_neg Bool.false_ne_true, if_pos hfirstServer,
            keptLines_append hls, List.length_cons, List.length_cons, List.length_append]
            at hlength
          obtain ⟨hrest, -⟩ := ih false (fun h => nomatch h) (by omega)
          refine ⟨hchain hrest, fun _ next hmem => ?_⟩
          cases hmem
          exact hserver
        · -- the header of this table is lost
          have hfirstServer : ¬ IsServerTable l := fun h => hserver (h.trans hin)
          obtain ⟨skip', hle⟩ := length_keptLines_append hls true (blocks.flatMap textLines)
          have hle' := length_keptLines_le hmarked.of_cons hclean' skip'
          rw [List.cons_append, keptLines, hl, if_neg Bool.false_ne_true, if_neg hfirstServer,
            if_pos rfl, List.length_cons] at hlength
          omega

theorem followedByServer_of_keptLines (hmarked : MarkedTables blocks)
    (h : keptLines isMarked false (blocks.flatMap textLines) =
      (blocks.filter isOther).flatMap textLines) : FollowedByServer blocks := by
  have hcount := countP_keptLines (fun _ => isMarked_isServerTable) false (blocks.flatMap textLines)
  rw [countP_isMarked hmarked.toMarkedBlocks, h] at hcount
  have hclean := (serverLines_flatMap blocks).2 (Nat.le_of_eq hcount)
  refine (followedByServer_of_length hmarked.toMarkedBlocks hclean hmarked.header false
    (fun h => nomatch h) ?_).1
  rw [h]

end ClearYourTools.CytClient
