import ClearYourTools.CytClient.Proofs.PairingLines

/-!
# What pairing leaves of the configuration of an agent

A Codex configuration keeps its other tables where each table of a frontend is followed by one of a
server. A JSON configuration keeps its members where the file is read as an object.
-/

namespace ClearYourTools.CytClient

open Misc Text List Option
open Json (get? loads)

/-- A TOML text by its blocks: the top-level keys, if there are any, and the tables. -/
structure TomlDocument where
  blocks : List Text
  marked : MarkedTables blocks

abbrev KeyOrder := { order : List Text // order.Perm frontendServerKeys }

namespace TomlDocument

variable (document : TomlDocument)

def text : Text := joinLines document.blocks

/-- Everything but the tables of frontends. -/
def otherBlocks : List Text := document.blocks.filter isOther

/-- The text is the one of the other blocks after taking the frontends out, and stays so. -/
def StripKeeps (order : KeyOrder) : Prop :=
  ∃ t, stripFrontendKeysFromCodexMcp order.1 (.text document.text) = .text t ∧
    HasBlocks document.otherBlocks t ∧
    ∀ order' : KeyOrder, stripFrontendKeysFromCodexMcp order'.1 (.text t) = .text t

/-- The text is the one of the other blocks and the new table after putting an entry in, and stays
so. -/
def EnsureKeeps (order : KeyOrder) (serverKey body : Text) : Prop :=
  ∃ t, ensureCodexMcpServer order.1 serverKey ('\n' :: (marker serverKey ++ body))
      (.text document.text) = .text t ∧
    HasBlocks (document.otherBlocks ++ [marker serverKey ++ body]) t ∧
    ∀ order' : KeyOrder, ensureCodexMcpServer order'.1 serverKey
      ('\n' :: (marker serverKey ++ body)) (.text t) = .text t

end TomlDocument

/-- No line of a table but the first has the header of a server table, where the markers of other
frontends have been searched in it. -/
def StableBody (serverKey body : Text) : Prop :=
  ∀ order : KeyOrder, ¬ HasInnerHeader (cutTables (order.1.filter fun key => key != serverKey) body)

theorem countP_hasMarker_le {blocks : List Text} (hmarked : MarkedBlocks blocks) {key : Text}
    (hkey : key ∈ frontendServerKeys) :
    ((blocks.flatMap textLines).filter fun l => decide (marker key <+: l)).length ≤
      (blocks.filter fun block => decide (marker key <+: block)).length := by
  induction blocks with
  | nil => exact Nat.le_refl 0
  | cons block blocks ih =>
    have hrest := ih hmarked.of_cons
    rw [flatMap_cons, filter_append, length_append, filter_cons]
    by_cases hstart : marker key <+: block
    · obtain ⟨first, rest, hfirst, -, -, hothers⟩ :=
        textLines_frontendTable hmarked mem_cons_self hkey hstart
      have hnil : rest.filter (fun l => decide (marker key <+: l)) = [] := by
        rw [filter_eq_nil_iff]
        intro l hl hpre
        exact (hothers l hl).2 key hkey (of_decide_eq_true hpre).isInfix
      have hone : ((first :: rest).filter fun l => decide (marker key <+: l)).length ≤ 1 := by
        rw [filter_cons, hnil]
        split <;> simp
      rw [hfirst, if_pos (decide_eq_true hstart), length_cons]
      omega
    · have hnil : (textLines block).filter (fun l => decide (marker key <+: l)) = [] := by
        rw [filter_eq_nil_iff]
        intro l hl hpre
        have hnot : ¬ marker key <:+: block := fun hin =>
          hstart (hmarked.start key hkey block mem_cons_self hin).1
        have hfalse := hasMarker_textLines hnot l hl
        rw [hasMarker, hpre] at hfalse
        cases hfalse
      rw [hnil, if_neg fun h => hstart (of_decide_eq_true h), length_nil, Nat.zero_add]
      exact hrest

theorem markedBlocks_textLines {blocks : List Text} (hmarked : MarkedBlocks blocks) :
    MarkedBlocks (blocks.flatMap textLines) where
  start := by
    intro key hkey l hl hin
    obtain ⟨block, hblock, hl⟩ := mem_flatMap.mp hl
    by_cases hfrontend : IsFrontendTable block
    · obtain ⟨key', hkey', hstart⟩ := hfrontend
      obtain ⟨first, rest, hfirst, -, hprefix, hothers⟩ :=
        textLines_frontendTable hmarked hblock hkey' hstart
      rw [hfirst] at hl
      rcases mem_cons.mp hl with rfl | hl
      · obtain ⟨hpre, hnot⟩ := hmarked.start key hkey block hblock (hin.trans hprefix.isInfix)
        refine ⟨prefix_of_prefix_length_le hpre hprefix hin.length_le, fun htail => hnot ?_⟩
        obtain ⟨rest', rfl⟩ := hprefix
        cases l with
        | nil => exact absurd (infix_nil.mp hin) (marker_ne_nil key)
        | cons c l => exact htail.trans (prefix_append l rest').isInfix
      · exact absurd hin ((hothers l hl).2 key hkey)
    · exact absurd hin (textLines_otherBlock hmarked hblock hfrontend hkey l hl)
  once := fun key hkey => (countP_hasMarker_le hmarked hkey).trans (hmarked.once key hkey)

section

variable {order : List Text} (horder : ∀ key, key ∈ order ↔ key ∈ frontendServerKeys)

include horder

theorem any_hasMarker : (fun l => order.any fun key => hasMarker key l) = isMarked := by
  funext l
  rw [Bool.eq_iff_iff, List.any_eq_true, isMarked, decide_eq_true_iff]
  constructor
  · rintro ⟨key, hkey, hl⟩
    exact ⟨key, (horder key).mp hkey, of_decide_eq_true hl⟩
  · rintro ⟨key, hkey, hpre⟩
    exact ⟨key, (horder key).mpr hkey, decide_eq_true hpre⟩

variable (document : TomlDocument)

theorem textLines_cutAll :
    textLines (cutTables order document.text) =
      keptLines isMarked false (document.blocks.flatMap textLines) := by
  have hlines : textLines document.text = document.blocks.flatMap textLines := textLines_joinLines
  rw [textLines_cutTables (fun key hkey => (horder key).mp hkey), any_hasMarker horder, hlines]
  rw [hlines]
  exact markedBlocks_textLines document.marked.toMarkedBlocks

theorem hasBlocks_cutAll_iff :
    HasBlocks document.otherBlocks (cutTables order document.text) ↔
      FollowedByServer document.blocks := by
  constructor
  · intro h
    apply followedByServer_of_keptLines document.marked
    rw [← textLines_cutAll horder document, textLines_of_hasBlocks h]
    rfl
  · intro h
    have hself : HasBlocks document.blocks document.text :=
      ⟨[], document.blocks, rfl, forall_mem_nil _, SameBlocks.refl _⟩
    have hblocks := hasBlocks_cutTables (fun key hkey => (horder key).mp hkey) document.marked h hself
    have hother : document.otherBlocks = document.blocks.filter fun block =>
        order.all fun key => !decide (marker key <+: block) := by
      apply filter_congr
      intro block _
      have hsame := congrFun (any_hasMarker horder) block
      rw [isOther, ← not_any_eq_all_not]
      exact congrArg (!·) hsame.symm
    rw [hother]
    exact hblocks

theorem not_infix_cutAll {key : Text} (hkey : key ∈ frontendServerKeys) :
    ¬ marker key <:+: cutTables order document.text := by
  have hlines := textLines_cutAll horder document
  have hmarked : MarkedBlocks (textLines (cutTables order document.text)) := by
    rw [hlines]
    exact (markedBlocks_textLines document.marked.toMarkedBlocks).sublist (keptLines_sublist _ _)
  have hnone : ∀ l ∈ textLines (cutTables order document.text), isMarked l = false := by
    rw [hlines]
    exact forall_keptLines false _
  intro hin
  have hsplit := markedBlocks_splitOn hmarked
  rw [← joinLines_splitOn (cutTables order document.text),
    infix_joinLines_iff (marker_ne_nil key) (newline_notMem_marker key hkey)] at hin
  obtain ⟨l, hl, hin⟩ := hin
  have hpre := (hsplit.start key hkey l hl hin).1
  have hpre' := (prefix_rstrip_iff (marker_endsInText key)).mpr hpre
  have hmem : Text.rstrip l ∈ textLines (cutTables order document.text) := by
    refine mem_filter.mpr ⟨List.mem_map_of_mem hl, ?_⟩
    rw [Bool.not_eq_true', isEmpty_eq_false_iff]
    intro hnil
    rw [hnil] at hpre'
    exact marker_ne_nil key (prefix_nil.mp hpre')
  have hfalse := hnone _ hmem
  rw [isMarked, decide_eq_true ⟨key, hkey, hpre'⟩] at hfalse
  cases hfalse

end

theorem mem_keyOrder (order : KeyOrder) (key : Text) : key ∈ order.1 ↔ key ∈ frontendServerKeys :=
  order.2.mem_iff

theorem cutTables_of_unmarked {order : List Text} {text : Text}
    (h : ∀ key ∈ order, ¬ marker key <:+: text) : cutTables order text = text := by
  induction order with
  | nil => rfl
  | cons key order ih =>
    obtain ⟨hkey, horder⟩ := forall_mem_cons.mp h
    rw [cutTables, foldl_cons, cutTable_of_unmarked hkey]
    exact ih horder

theorem TomlDocument.stripKeeps_iff (document : TomlDocument) (order : KeyOrder) :
    document.StripKeeps order ↔ FollowedByServer document.blocks := by
  rw [← hasBlocks_cutAll_iff (mem_keyOrder order) document]
  constructor
  · rintro ⟨t, ht, hblocks, -⟩
    cases ht
    exact hblocks
  · intro h
    refine ⟨_, rfl, h, fun order' => congrArg AgentFile.text (cutTables_of_unmarked ?_)⟩
    intro key hkey
    exact not_infix_cutAll (mem_keyOrder order) document ((mem_keyOrder order' key).mp hkey)

section

variable {serverKey : Text} (hserver : serverKey ∈ frontendServerKeys)

/-- All keys, the one of the entry last. -/
def keyLast (order : List Text) (serverKey : Text) : List Text :=
  (order.filter fun key => key != serverKey) ++ [serverKey]

include hserver

theorem mem_keyLast (order : KeyOrder) (key : Text) :
    key ∈ keyLast order.1 serverKey ↔ key ∈ frontendServerKeys := by
  rw [keyLast, mem_append, mem_filter, mem_singleton, mem_keyOrder, bne_iff_ne]
  constructor
  · rintro (⟨hkey, -⟩ | rfl)
    · exact hkey
    · exact hserver
  · intro hkey
    by_cases hsame : key = serverKey
    · exact .inr hsame
    · exact .inl ⟨hkey, hsame⟩

omit hserver in
theorem marker_stripped (key : Text) : Text.Stripped (marker key) := by
  refine ⟨fun c hc => ?_, (marker_endsInText key).2⟩
  have hne : serversHeader ≠ [] := by decide
  have hhead : serversHeader.head? = some '[' := rfl
  rw [marker, head?_append_of_ne_nil _ hne, hhead] at hc
  cases hc
  rfl

omit hserver in
theorem withBlock_eq (body text : Text) :
    withBlock serverKey ('\n' :: (marker serverKey ++ body)) text =
      some ((cutTable text serverKey).rstrip ++ '\n' :: (marker serverKey ++ body)) := by
  unfold withBlock
  by_cases hmarker : marker serverKey <:+: text
  · have hpart : hasPart (marker serverKey) text = true := by
      rw [hasPart, isSome_iff_ne_none, ne_eq, search_marker_eq_none_iff, not_not]
      exact hmarker
    rw [if_pos hpart]
  · have hpart : hasPart (marker serverKey) text = false := by
      rw [hasPart, search_marker_eq_none_iff.mpr hmarker]
      rfl
    have hblock : marker serverKey <:+: Text.strip ('\n' :: (marker serverKey ++ body)) :=
      Text.infix_strip (marker_stripped serverKey) (infix_append ['\n'] _ body)
    have hstrip : hasPart (Text.strip ('\n' :: (marker serverKey ++ body))) text = false := by
      have hne : Text.strip ('\n' :: (marker serverKey ++ body)) ≠ [] := by
        intro hnil
        rw [hnil] at hblock
        exact marker_ne_nil serverKey (infix_nil.mp hblock)
      rw [hasPart, (Matcher.search_literal_eq_none_iff hne).mpr fun h => hmarker (hblock.trans h)]
      rfl
    rw [hpart, if_neg Bool.false_ne_true, hstrip, Bool.and_false, if_neg Bool.false_ne_true,
      cutTable_of_unmarked hmarker]

omit hserver in
theorem ensuredText_eq (order : List Text) (body text : Text) :
    ensuredText order serverKey ('\n' :: (marker serverKey ++ body)) text =
      some ((cutTables (keyLast order serverKey) text).rstrip ++
        '\n' :: (marker serverKey ++ body)) := by
  rw [ensuredText, withBlock_eq, keyLast, cutTables, cutTables, foldl_concat]

theorem marker_injective {key : Text} (hkey : key ∈ frontendServerKeys)
    (hin : marker key <:+: marker serverKey) : key = serverKey := by
  have hall : ∀ key ∈ frontendServerKeys, ∀ key' ∈ frontendServerKeys,
      hasPart (marker key) (marker key') = true → key = key' := by decide
  apply hall key hkey serverKey hserver
  rw [hasPart, isSome_iff_ne_none, ne_eq, search_marker_eq_none_iff, not_not]
  exact hin

omit hserver in
theorem cutTable_behind {key front : Text} (hkey : key ∈ frontendServerKeys)
    (hfront : ¬ marker key <:+: front) (hends : front.rstrip = front) (body : Text) :
    ∃ body', cutTable ('\n' :: body) key = '\n' :: body' ∧
      cutTable (front ++ '\n' :: body) key = front ++ '\n' :: body' := by
  have hsearch := Matcher.search_append_stop
    (Matcher.literal_stopsAt (newline_notMem_marker key hkey))
    (search_marker_eq_none_iff.mpr hfront) body
  have hrstrip : ∀ t : Text, (front ++ t).rstrip = front ++ t.rstrip := by
    intro t
    by_cases hnil : Text.rstrip t = []
    · rw [hnil, rstrip_append_blank _ (rstrip_eq_nil_iff.mp hnil), hends, List.append_nil]
    · exact rstrip_append_of_ne_nil _ hnil
  unfold cutTable
  rw [hsearch]
  cases hbody : Matcher.search (Matcher.literal (marker key)) ('\n' :: body) with
  | none => exact ⟨body, rfl, rfl⟩
  | some found =>
    obtain ⟨before, x, after⟩ := found
    -- the part before the marker starts with the line feed
    obtain ⟨hsplit, hhere, -⟩ := (Matcher.search_eq_some_iff
      (Matcher.literal_isLocal (marker key)).splits).mp hbody
    obtain ⟨before', rfl⟩ : ∃ before', before = '\n' :: before' := by
      cases before with
      | nil =>
        obtain ⟨rfl, -⟩ := Matcher.literal_eq_some hhere
        obtain ⟨c, m, hmarker⟩ := exists_cons_of_ne_nil (marker_ne_nil key)
        have hnewline := newline_notMem_marker key hkey
        rw [nil_append, hmarker, List.cons_append] at hsplit
        rw [hmarker, ← (List.cons.inj hsplit).1] at hnewline
        exact absurd mem_cons_self hnewline
      | cons c before' => exact ⟨before', by rw [(List.cons.inj hsplit).1]⟩
    have hstart : ∀ tail, ∃ body', Text.rstrip ('\n' :: before') ++ '\n' :: tail =
        '\n' :: body' := by
      intro tail
      by_cases hnil : Text.rstrip before' = []
      · have hblank : Text.rstrip ('\n' :: before') = [] :=
          rstrip_eq_nil_iff.mpr (forall_mem_cons.mpr ⟨rfl, rstrip_eq_nil_iff.mp hnil⟩)
        exact ⟨tail, by rw [hblank, nil_append]⟩
      · have hcons : Text.rstrip ('\n' :: before') = '\n' :: Text.rstrip before' :=
          rstrip_append_of_ne_nil ['\n'] hnil
        exact ⟨_, by rw [hcons, List.cons_append]⟩
    dsimp only [map_some]
    cases hafter : Matcher.search (Matcher.literal ('\n' :: serversHeader)) after with
    | none =>
      obtain ⟨body', hbody'⟩ := hstart []
      exact ⟨body', hbody', by rw [hrstrip, List.append_assoc, hbody']⟩
    | some next =>
      obtain ⟨y, header, rest⟩ := next
      obtain ⟨-, hheader, -⟩ := (Matcher.search_eq_some_iff
        (Matcher.literal_isLocal ('\n' :: serversHeader)).splits).mp hafter
      obtain ⟨rfl, -⟩ := Matcher.literal_eq_some hheader
      obtain ⟨body', hbody'⟩ := hstart (serversHeader ++ rest)
      refine ⟨body', hbody', ?_⟩
      dsimp only
      rw [hrstrip, List.append_assoc]
      exact congrArg (front ++ ·) hbody'

omit hserver in
theorem cutTables_behind {front : Text} (hends : front.rstrip = front) {order : List Text}
    (horder : ∀ key ∈ order, key ∈ frontendServerKeys ∧ ¬ marker key <:+: front) (body : Text) :
    ∃ body', cutTables order ('\n' :: body) = '\n' :: body' ∧
      cutTables order (front ++ '\n' :: body) = front ++ '\n' :: body' := by
  induction order generalizing body with
  | nil => exact ⟨body, rfl, rfl⟩
  | cons key order ih =>
    obtain ⟨⟨hkey, hfront⟩, horder⟩ := forall_mem_cons.mp horder
    obtain ⟨body', hbody', hcut⟩ := cutTable_behind hkey hfront hends body
    obtain ⟨body'', hbody'', hcut'⟩ := ih horder body'
    refine ⟨body'', ?_, ?_⟩
    · rw [cutTables, foldl_cons, hbody']
      exact hbody''
    · rw [cutTables, foldl_cons, hcut]
      exact hcut'

/-- A second run finds the block at the end of the text, and what it makes of the block decides. -/
theorem ensuredText_again_iff {front body : Text} (hends : front.rstrip = front)
    (hfront : ∀ key ∈ frontendServerKeys, ¬ marker key <:+: front) (order : KeyOrder) :
    ensuredText order.1 serverKey ('\n' :: (marker serverKey ++ '\n' :: body))
        (front ++ '\n' :: (marker serverKey ++ '\n' :: body)) =
      some (front ++ '\n' :: (marker serverKey ++ '\n' :: body)) ↔
    ¬ HasInnerHeader (cutTables (order.1.filter fun key => key != serverKey) ('\n' :: body)) := by
  have hmarkerNe : Text.rstrip (marker serverKey) ≠ [] := by
    rw [(marker_endsInText serverKey).rstrip]
    exact marker_ne_nil serverKey
  have hends' : Text.rstrip (front ++ '\n' :: marker serverKey) =
      front ++ '\n' :: marker serverKey := by
    rw [List.append_cons, rstrip_append_of_ne_nil _ hmarkerNe, (marker_endsInText serverKey).rstrip]
  have horder : ∀ key ∈ order.1.filter (fun key => key != serverKey),
      key ∈ frontendServerKeys ∧ ¬ marker key <:+: front ++ '\n' :: marker serverKey := by
    intro key hkey
    obtain ⟨hmem, hne⟩ := mem_filter.mp hkey
    have hkey := (mem_keyOrder order key).mp hmem
    refine ⟨hkey, ?_⟩
    rw [infix_append_cons (newline_notMem_marker key hkey), not_or]
    exact ⟨hfront key hkey, fun hin => bne_iff_ne.mp hne (marker_injective hserver hkey hin)⟩
  obtain ⟨body', hbody', hcut⟩ := cutTables_behind hends' horder body
  rw [List.append_assoc, List.append_assoc, List.cons_append, List.cons_append] at hcut
  have hjoin : front ++ '\n' :: (marker serverKey ++ '\n' :: body') =
      joinLines ([front] ++ (marker serverKey ++ []) :: [body']) := by
    rw [List.append_nil, singleton_append, joinLines_cons_cons, joinLines_cons_cons,
      joinLines_singleton]
  obtain ⟨t, hsearch, hrstrip⟩ := search_marker_joinLines hserver []
    (forall_mem_singleton.mpr (hfront serverKey hserver)) [body']
  rw [← hjoin, joinLines_cons_cons, joinLines_singleton, nil_append] at hsearch
  rw [joinLines_singleton, hends] at hrstrip
  rw [ensuredText, hcut, withBlock_eq, hbody', some_inj]
  unfold cutTable
  rw [hsearch]
  dsimp only
  cases hinner : Matcher.search (Matcher.literal ('\n' :: serversHeader)) ('\n' :: body') with
  | none =>
    refine iff_of_true ?_ ((Matcher.search_literal_eq_none_iff (cons_ne_nil _ _)).mp hinner)
    dsimp only
    rw [hrstrip, rstrip_append_blank _ (forall_mem_singleton.mpr rfl), hends]
  | some next =>
    obtain ⟨x, header, rest⟩ := next
    obtain ⟨-, hhere, -⟩ := (Matcher.search_eq_some_iff
      (Matcher.literal_isLocal ('\n' :: serversHeader)).splits).mp hinner
    obtain ⟨rfl, -⟩ := Matcher.literal_eq_some hhere
    refine iff_of_false ?_ fun hnot => ?_
    · dsimp only
      have hne : Text.rstrip ('\n' :: serversHeader ++ rest) ≠ [] := by
        intro hnil
        have hmem : '[' ∈ '\n' :: serversHeader ++ rest := mem_append_left rest (by decide)
        exact absurd (rstrip_eq_nil_iff.mp hnil '[' hmem) (by decide)
      rw [hrstrip, rstrip_append_of_ne_nil _ hne, List.append_assoc]
      intro heq
      have hlength := congrArg List.length (append_cancel_left heq)
      rw [length_append] at hlength
      exact hne (eq_nil_of_length_eq_zero (by omega))
    · rw [HasInnerHeader, ← Matcher.search_literal_eq_none_iff (cons_ne_nil _ _), hinner] at hnot
      cases hnot

omit hserver in
theorem nonblank_otherBlocks (document : TomlDocument) :
    ∀ block ∈ document.otherBlocks.tail, Text.rstrip block ≠ [] := by
  intro block hblock hnil
  obtain ⟨rest, rfl⟩ := (document.marked.filter isOther).header block hblock
  exact absurd (rstrip_eq_nil_iff.mp hnil '[' mem_cons_self) (by decide)

/-- Putting an entry in keeps the other blocks under the same condition, and a second run leaves the
text alone if it finds nothing in the new table. -/
theorem TomlDocument.ensureKeeps_iff (document : TomlDocument) (order : KeyOrder) (body : Text) :
    document.EnsureKeeps order serverKey ('\n' :: body) ↔
      FollowedByServer document.blocks ∧ StableBody serverKey ('\n' :: body) := by
  have hkeys := mem_keyLast hserver order
  obtain ⟨front, hfront⟩ : ∃ front,
      (cutTables (keyLast order.1 serverKey) document.text).rstrip = front := ⟨_, rfl⟩
  have hends : front.rstrip = front := by
    rw [← hfront]
    exact rstrip_rstrip _
  have hmarkers : ∀ key ∈ frontendServerKeys, ¬ marker key <:+: front := by
    intro key hkey hin
    rw [← hfront, infix_rstrip_iff (marker_endsInText key)] at hin
    exact not_infix_cutAll hkeys document hkey hin
  have hrun : ensuredText order.1 serverKey ('\n' :: (marker serverKey ++ '\n' :: body))
      document.text = some (front ++ '\n' :: (marker serverKey ++ '\n' :: body)) := by
    rw [ensuredText_eq, hfront]
  have hagain : ∀ order' : KeyOrder, ensureCodexMcpServer order'.1 serverKey
      ('\n' :: (marker serverKey ++ '\n' :: body))
        (.text (front ++ '\n' :: (marker serverKey ++ '\n' :: body))) =
          .text (front ++ '\n' :: (marker serverKey ++ '\n' :: body)) ↔
      ¬ HasInnerHeader (cutTables (order'.1.filter fun key => key != serverKey) ('\n' :: body)) := by
    intro order'
    rw [← ensuredText_again_iff hserver hends hmarkers order', ensureCodexMcpServer]
    rw [ensuredText_eq]
    exact ⟨fun h => congrArg some (AgentFile.text.inj h),
      fun h => congrArg AgentFile.text (Option.some.inj h)⟩
  have hresult : ensureCodexMcpServer order.1 serverKey
      ('\n' :: (marker serverKey ++ '\n' :: body)) (.text document.text) =
        .text (front ++ '\n' :: (marker serverKey ++ '\n' :: body)) := by
    rw [ensureCodexMcpServer, hrun]
    rfl
  have hblocks : HasBlocks (document.otherBlocks ++ [marker serverKey ++ '\n' :: body])
      (front ++ '\n' :: (marker serverKey ++ '\n' :: body)) ↔ FollowedByServer document.blocks := by
    rw [← hasBlocks_cutAll_iff hkeys document]
    constructor
    · intro h
      rw [hasBlocks_cutAll_iff hkeys document]
      apply followedByServer_of_keptLines document.marked
      have hlines := textLines_of_hasBlocks h
      rw [textLines_append_newline, ← hfront, textLines_rstrip, textLines_cutAll hkeys document,
        flatMap_append, flatMap_singleton] at hlines
      exact append_cancel_right hlines
    · intro h
      have hstripped := h.rstrip (nonblank_otherBlocks document)
      rw [hfront] at hstripped
      have hjoined := hstripped.joinLines_cons (SameBlocks.refl [marker serverKey ++ '\n' :: body])
      rw [joinLines_cons_cons, joinLines_singleton] at hjoined
      exact hjoined
  unfold EnsureKeeps StableBody
  rw [hresult, ← hblocks]
  constructor
  · rintro ⟨t, ht, hkept, hsecond⟩
    cases ht
    exact ⟨hkept, fun order' => (hagain order').mp (hsecond order')⟩
  · rintro ⟨hkept, hstable⟩
    exact ⟨_, rfl, hkept, fun order' => (hagain order').mpr (hstable order')⟩

end

section

variable {φ : Type} (env : PairingEnv φ)

/-- The members of a document but for the servers. -/
def otherMembers (raw : Record φ) : Record φ := raw.filter fun kv => kv.1 != mcpServersKey

/-- The servers but for the frontends. -/
def otherServers (servers : Record φ) : Record φ := servers.filter fun kv => !isFrontendKey kv.1

/-- The other servers are kept, or whatever is in their place. -/
def KeepsServers : Option (Json φ) → Option (Json φ) → Prop
  | some (.obj servers), after =>
    ∃ servers', after = some (.obj servers') ∧ otherServers servers' = otherServers servers
  | some v, after => after = some v
  | none, _ => True

/-- A document keeps its members, and a text that is not parsed stays as it is. -/
def KeepsContent (content : Text) (file' : AgentFile) : Prop :=
  match loads env content with
  | none => file' = .text content
  | some (.obj raw) =>
    ∃ content' raw', file' = .text content' ∧ loads env.toFloatFormat content' = some (.obj raw') ∧
      otherMembers raw' = otherMembers raw ∧
      KeepsServers (get? raw mcpServersKey) (get? raw' mcpServersKey)
  | some v => ∃ content', file' = .text content' ∧ loads env.toFloatFormat content' = some v

/-- The same of a file, which stays as it is if it is not read. -/
def KeepsMembers (file file' : AgentFile) : Prop :=
  match file with
  | .missing => True
  | .text content => KeepsContent env content file'
  | file => file' = file

/-- A document is an object, whose servers are a dictionary if it has some. -/
def IsConfiguration : Option (Json φ) → Prop
  | some (.obj raw) => ∀ v, get? raw mcpServersKey = some v → ∃ servers, v = .obj servers
  | _ => False

/-- The file is read as a configuration, or there is nothing to read, or reading it is an exception
that ends the call. -/
def ReadsAsConfiguration : AgentFile → Prop
  | .text content => IsConfiguration (loads env.toFloatFormat content)
  | .unreadable => False
  | _ => True

theorem filter_set {q : Text → Bool} {key : Text} (hq : q key = false) (fields : Record φ)
    (v : Json φ) : (Json.set fields key v).filter (fun kv => q kv.1) =
      fields.filter fun kv => q kv.1 := by
  unfold Json.set
  induction fields with
  | nil => exact filter_cons_of_neg (by rw [hq]; exact Bool.false_ne_true)
  | cons kv fields ih =>
    rw [Dict.setEntries]
    split
    · rename_i hkey
      rw [filter_cons_of_neg (by rw [hq]; exact Bool.false_ne_true),
        filter_cons_of_neg (by rw [hkey, hq]; exact Bool.false_ne_true)]
    · rw [filter_cons, filter_cons, ih]

theorem otherMembers_set (raw : Record φ) (v : Json φ) :
    otherMembers (Json.set raw mcpServersKey v) = otherMembers raw :=
  filter_set (q := fun key => key != mcpServersKey) (bne_self_eq_false _) raw v

theorem KeepsServers.refl (v : Option (Json φ)) : KeepsServers v v := by
  cases v with
  | none => trivial
  | some v =>
    cases v with
    | obj servers => exact ⟨servers, rfl, rfl⟩
    | _ => rfl

variable {env}

theorem keepsMembers_written (hlawful : env.toFloatFormat.Lawful) {content : Text}
    {raw servers : Record φ} (hraw : loads env content = some (.obj raw))
    (hvalid : (Json.obj servers).Valid)
    (hservers : KeepsServers (get? raw mcpServersKey) (some (.obj servers))) :
    KeepsMembers env (.text content)
      (.text (writtenJson env (Json.set raw mcpServersKey (.obj servers)))) := by
  have hset : (Json.obj (Json.set raw mcpServersKey (.obj servers))).Valid :=
    (Json.valid_of_loads hraw).set mcpServersKey hvalid
  unfold KeepsMembers KeepsContent
  dsimp only
  rw [hraw]
  refine ⟨_, _, rfl, Json.loads_dumpsIndent_newline hlawful true hset, otherMembers_set raw _, ?_⟩
  rw [Json.get?_set_self]
  exact hservers

theorem keepsMembers_unchanged (file : AgentFile) : KeepsMembers env file file := by
  cases file with
  | text content =>
    unfold KeepsMembers KeepsContent
    dsimp only
    cases hread : loads env.toFloatFormat content with
    | none => rfl
    | some v =>
      cases v with
      | obj raw => exact ⟨content, raw, rfl, hread, rfl, KeepsServers.refl _⟩
      | _ => exact ⟨content, rfl, hread⟩
  | missing => trivial
  | _ => rfl

theorem stripJson_keepsMembers (hlawful : env.toFloatFormat.Lawful) (file : AgentFile) :
    KeepsMembers env file (stripFrontendKeysFromJsonMcp env file) := by
  cases file with
  | text content =>
    unfold stripFrontendKeysFromJsonMcp
    dsimp only
    split
    · rename_i raw hraw
      cases hstripped : strippedDocument raw with
      | none => exact keepsMembers_unchanged _
      | some raw' =>
        unfold strippedDocument at hstripped
        split at hstripped
        · rename_i servers hservers
          split at hstripped
          · cases hstripped
            have hvalid := (Json.valid_of_loads hraw).get? hservers
            refine keepsMembers_written hlawful hraw (hvalid.sublist filter_sublist) ?_
            rw [hservers]
            refine ⟨_, rfl, ?_⟩
            rw [otherServers, otherServers, List.filter_filter]
            exact filter_congr fun kv _ => Bool.and_self _
          · cases hstripped
        · cases hstripped
    · exact keepsMembers_unchanged _
  | _ => exact keepsMembers_unchanged _

theorem ensuredServers_spec {serverKey : Text} (hserver : serverKey ∈ frontendServerKeys)
    {desired servers servers' : Record φ} (hdesired : (Json.obj desired).Valid)
    (hservers : (Json.obj servers).Valid)
    (h : ensuredServers env serverKey desired servers = some servers') :
    otherServers servers' = otherServers servers ∧ (Json.obj servers').Valid := by
  have hfrontend : isFrontendKey serverKey = true := contains_iff_mem.mpr hserver
  unfold ensuredServers at h
  split at h
  · cases h
  cases h
  constructor
  · rw [otherServers, filter_set (q := fun key => !isFrontendKey key) (by rw [hfrontend]; rfl),
      List.filter_filter]
    apply filter_congr
    intro kv _
    cases isFrontendKey kv.1 <;> rfl
  · have hexisting : (Json.obj (dictOr (get? servers serverKey))).Valid := by
      unfold dictOr
      split
      · rename_i fields hfields
        exact hservers.get? hfields
      · exact ⟨nodup_nil, trivial⟩
    exact (hservers.sublist filter_sublist).set serverKey (Json.valid_overlaid hexisting hdesired)

theorem ensuredServers_of_missing (env : PairingEnv φ) {serverKey : Text} (desired : Record φ)
    {servers : Record φ} (hmissing : get? servers serverKey = none) :
    ∃ servers', ensuredServers env serverKey desired servers = some servers' := by
  unfold ensuredServers
  rw [hmissing]
  exact ⟨_, rfl⟩

theorem valid_nil : (Json.obj ([] : Record φ)).Valid := ⟨nodup_nil, trivial⟩

section

variable (hlawful : env.toFloatFormat.Lawful) {serverKey : Text}
  (hserver : serverKey ∈ frontendServerKeys) {desired : Record φ}
  (hdesired : (Json.obj desired).Valid)

include hlawful hserver hdesired

theorem ensuredDocument_nil : ∃ raw, ensuredDocument env serverKey desired [] = some raw ∧
    loads env (writtenJson env raw) = some (.obj raw) := by
  obtain ⟨servers', hservers'⟩ :=
    ensuredServers_of_missing env desired (show get? [] serverKey = none from rfl)
  have hvalid := (ensuredServers_spec hserver hdesired valid_nil hservers').2
  refine ⟨Json.set [] mcpServersKey (.obj servers'), ?_, ?_⟩
  · exact congrArg (Option.map fun servers => Json.set [] mcpServersKey (.obj servers)) hservers'
  · exact Json.loads_dumpsIndent_newline hlawful true (valid_nil.set mcpServersKey hvalid)

/-- Putting an entry in keeps the members of the document exactly when the file is read as a
configuration. -/
theorem ensureJson_keepsMembers_iff (file : AgentFile) :
    KeepsMembers env file (ensureJsonMcpServer env serverKey desired file) ↔
      ReadsAsConfiguration env file := by
  obtain ⟨empty, hempty, hloads⟩ := ensuredDocument_nil hlawful hserver hdesired
  cases file with
  | noDirectory => exact iff_of_true rfl trivial
  | missing => exact iff_of_true trivial trivial
  | undecodable => exact iff_of_true rfl trivial
  | unreadable =>
    refine iff_of_false (fun h => ?_) (fun h => h)
    unfold ensureJsonMcpServer existingDocument at h
    rw [bind_some, hempty] at h
    cases h
  | text content =>
    -- without an object the document that is written is the one of an empty file
    have hlost : dictOr (loads env.toFloatFormat content) = [] →
        ensureJsonMcpServer env serverKey desired (.text content) =
          .text (writtenJson env empty) := by
      intro hnil
      unfold ensureJsonMcpServer existingDocument
      dsimp only
      rw [hnil, bind_some, hempty]
    unfold KeepsMembers KeepsContent ReadsAsConfiguration
    dsimp only
    cases hread : loads env.toFloatFormat content with
    | none =>
      rw [hlost (by rw [hread]; rfl)]
      refine iff_of_false (fun h => ?_) (fun h => h)
      rw [AgentFile.text.inj h, hread] at hloads
      cases hloads
    | some v =>
      cases v with
      | obj raw =>
        obtain ⟨servers, hservers⟩ : ∃ servers, dictOr (get? raw mcpServersKey) = servers :=
          ⟨_, rfl⟩
        have hrawValid := Json.valid_of_loads hread
        have hvalid : (Json.obj servers).Valid := by
          rw [← hservers]
          unfold dictOr
          split
          · rename_i fields hfields
            exact hrawValid.get? hfields
          · exact valid_nil
        cases hensured : ensuredServers env serverKey desired servers with
        | none =>
          have hsame : ensureJsonMcpServer env serverKey desired (.text content) = .text content := by
            unfold ensureJsonMcpServer existingDocument ensuredDocument
            dsimp only
            rw [hread, bind_some, dictOr, hservers, hensured]
            rfl
          rw [hsame]
          refine iff_of_true ⟨content, raw, rfl, hread, rfl, KeepsServers.refl _⟩ ?_
          intro v hv
          cases v with
          | obj servers => exact ⟨servers, rfl⟩
          | _ =>
            -- an empty dictionary does not have the entry
            rw [hv] at hservers
            have hmissing : get? servers serverKey = none := by
              rw [← hservers]
              rfl
            obtain ⟨servers', hservers'⟩ := ensuredServers_of_missing env desired hmissing
            rw [hensured] at hservers'
            cases hservers'
        | some servers' =>
          obtain ⟨hothers, hvalid'⟩ := ensuredServers_spec hserver hdesired hvalid hensured
          have hwritten : ensureJsonMcpServer env serverKey desired (.text content) =
              .text (writtenJson env (Json.set raw mcpServersKey (.obj servers'))) := by
            unfold ensureJsonMcpServer existingDocument ensuredDocument
            dsimp only
            rw [hread, bind_some, dictOr, hservers, hensured]
            rfl
          have hset := hrawValid.set mcpServersKey hvalid'
          have hreread := Json.loads_dumpsIndent_newline hlawful true hset
          rw [hwritten]
          constructor
          · rintro ⟨content', raw', hcontent, hraw', -, hkept⟩ v hv
            rw [← AgentFile.text.inj hcontent, writtenJson, hreread] at hraw'
            cases hraw'
            rw [hv, Json.get?_set_self] at hkept
            cases v with
            | obj servers => exact ⟨servers, rfl⟩
            | _ => cases hkept
          · intro hconfiguration
            refine ⟨_, _, rfl, hreread, otherMembers_set raw _, ?_⟩
            rw [Json.get?_set_self]
            cases hv : get? raw mcpServersKey with
            | none => trivial
            | some v =>
              obtain ⟨servers0, rfl⟩ := hconfiguration v hv
              rw [hv] at hservers
              cases hservers
              exact ⟨servers', rfl, hothers⟩
      | _ =>
        rw [hlost (by rw [hread]; rfl)]
        refine iff_of_false ?_ (fun h => h)
        rintro ⟨content', hcontent, hother⟩
        rw [← AgentFile.text.inj hcontent, hloads] at hother
        cases hother

end

end

/-- A call of one of the four functions, with what it finds. -/
inductive PairingCall (φ : Type)
  | stripCodex (document : TomlDocument)
  | ensureCodex (document : TomlDocument) (agent : Text)
      (serverKey : { key : Text // key ∈ frontendServerKeys }) (entry : Record φ)
  | stripJson (file : AgentFile)
  | ensureJson (file : AgentFile) (serverKey : { key : Text // key ∈ frontendServerKeys })
      (entry : { entry : Record φ // (Json.obj entry).Valid })

namespace PairingCall

variable {φ : Type} (env : PairingEnv φ)

/-- The call destroys nothing of the configuration. -/
def Keeps (order : KeyOrder) : PairingCall φ → Prop
  | stripCodex document => document.StripKeeps order
  | ensureCodex document agent serverKey entry =>
    document.EnsureKeeps order serverKey.1 (tableBody env agent entry)
  | stripJson file => KeepsMembers env file (stripFrontendKeysFromJsonMcp env file)
  | ensureJson file serverKey entry =>
    KeepsMembers env file (ensureJsonMcpServer env serverKey.1 entry.1 file)

/-- Where the call destroys nothing. -/
def Spares : PairingCall φ → Prop
  | stripCodex document => FollowedByServer document.blocks
  | ensureCodex document agent serverKey entry =>
    FollowedByServer document.blocks ∧ StableBody serverKey.1 (tableBody env agent entry)
  | stripJson _ => True
  | ensureJson file _ _ => ReadsAsConfiguration env file

variable {env}

/-- Pairing destroys nothing exactly where the tables of frontends are followed by tables of servers,
the new table is found again, and a JSON file is read as a configuration before an entry is put in. -/
theorem keeps_iff (hlawful : env.toFloatFormat.Lawful) (order : KeyOrder) (call : PairingCall φ) :
    call.Keeps env order ↔ call.Spares env := by
  cases call with
  | stripCodex document => exact document.stripKeeps_iff order
  | ensureCodex document agent serverKey entry =>
    exact document.ensureKeeps_iff serverKey.2 order _
  | stripJson file => exact iff_of_true (stripJson_keepsMembers hlawful file) trivial
  | ensureJson file serverKey entry =>
    exact ensureJson_keepsMembers_iff hlawful serverKey.2 entry.2 file

end PairingCall

/-- A configuration with the table of a frontend, and a table behind it. -/
def twoTables (header : Text) : List Text :=
  ["model = \"o3\"\n".toList, "[mcp_servers.cyt-mcp-usr]\ncommand = \"cyt-mcp\"\n".toList,
    header ++ "\ntheme = \"dark\"\n"]

def serverBehind : TomlDocument where
  blocks := twoTables "[mcp_servers.github]"
  marked :=
    { start := by decide
      once := by decide
      header := by decide }

def tableBehind : TomlDocument where
  blocks := twoTables "[tui]"
  marked :=
    { start := by decide
      once := by decide
      header := by decide }

/-- Numbers without floats. -/
def wholeNumbers : PairingEnv Empty where
  toPyFormat := Json.noFloats
  numbersEqual
    | .int n, .int m => n == m
    | .int n, .bool b => n == b.toInt
    | .bool b, .int n => n == b.toInt
    | .bool b, .bool b' => b == b'
    | _, _ => false

theorem wholeNumbers_lawful : wholeNumbers.toFloatFormat.Lawful := Json.noFloats_lawful

def someOrder : KeyOrder := ⟨frontendServerKeys, List.Perm.refl _⟩

/-- The table of a server behind the one of a frontend stays. -/
theorem serverBehind_kept : (PairingCall.stripCodex serverBehind).Keeps wholeNumbers someOrder := by
  apply (PairingCall.keeps_iff wholeNumbers_lawful someOrder _).mpr
  refine ⟨fun h => ?_, fun _ => ⟨by decide, ?_⟩, fun h => ?_, trivial⟩
  · exact absurd h (by decide)
  · intro next hnext
    cases hnext
    decide
  · exact absurd h (by decide)

/-- A JSON configuration with a comment. -/
def commentedServers : Text := "// my servers\n\x7b\"mcpServers\": \x7b\x7d\x7d"

/-- Another table behind the one of a frontend is lost, and so is a JSON file with a comment. -/
theorem tableBehind_lost :
    ¬ (PairingCall.stripCodex tableBehind).Keeps wholeNumbers someOrder ∧
    ¬ (PairingCall.ensureJson (.text commentedServers) ⟨"cyt-mcp-usr", by decide⟩
      ⟨[], valid_nil⟩).Keeps wholeNumbers someOrder := by
  constructor
  · intro h
    have hfollowed := (tableBehind.stripKeeps_iff someOrder).mp h
    have hnext := (hfollowed.2.1 (by decide)).2 _ rfl
    exact absurd hnext (by decide)
  · intro h
    have hcomment : loads wholeNumbers.toFloatFormat commentedServers = none := by
      decide +kernel
    have hread := (ensureJson_keepsMembers_iff wholeNumbers_lawful (by decide) valid_nil
      (.text commentedServers)).mp h
    unfold ReadsAsConfiguration at hread
    dsimp only at hread
    rw [hcomment] at hread
    exact hread

end ClearYourTools.CytClient
