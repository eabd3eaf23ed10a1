import ClearYourTools.Misc.Search

/-!
# Texts made of blocks

A text is cut into blocks at some of its line feeds. What is left of a text when the space at the
end of a block goes: its blocks up to such space, and its lines with text.
-/

namespace Misc

open List

namespace Text

theorem rstrip_append_blank (x : Text) {y : Text} (hy : ∀ c ∈ y, isSpace c = true) :
    (x ++ y).rstrip = x.rstrip := by
  rw [rstrip_eq_reverse, rstrip_eq_reverse, reverse_append, lstrip, lstrip,
    dropWhile_append_of_pos fun c hc => hy c (mem_reverse.mp hc)]

theorem rstrip_append_of_ne_nil (x : Text) {y : Text} (hy : y.rstrip ≠ []) :
    (x ++ y).rstrip = x ++ y.rstrip := by
  obtain ⟨space, heq, hspace⟩ := rstrip_append_space y
  obtain ⟨front, c, hfront⟩ : ∃ front c, y.rstrip = front ++ [c] :=
    ⟨_, _, (dropLast_append_getLast hy).symm⟩
  have hc : isSpace c = false := by
    apply getLast?_rstrip y
    rw [hfront, getLast?_concat]
    rfl
  have hsplit : x ++ y = (x ++ front) ++ c :: space := by
    rw [← heq, hfront, List.append_assoc, List.append_assoc, singleton_append]
  have hblank : Text.rstrip space = [] := rstrip_eq_nil_iff.mpr hspace
  rw [hsplit, rstrip_append_cons _ hc, hblank, hfront, List.append_assoc]

/-- A text that does not end in space. -/
def EndsInText (p : Text) : Prop := p ≠ [] ∧ ∀ c ∈ p.getLast?, isSpace c = false

variable {p : Text}

theorem endsInText_of_getLast? (h : p.getLast?.any (fun c => !isSpace c) = true) :
    EndsInText p := by
  cases hlast : p.getLast? with
  | none =>
    rw [hlast] at h
    cases h
  | some last =>
    rw [hlast, Option.any_some, Bool.not_eq_true'] at h
    refine ⟨fun hnil => ?_, fun c hc => ?_⟩
    · rw [hnil] at hlast
      cases hlast
    · rw [hlast] at hc
      cases hc
      exact h

theorem EndsInText.rstrip (hp : EndsInText p) : Text.rstrip p = p := by
  obtain ⟨front, c, rfl⟩ : ∃ front c, p = front ++ [c] :=
    ⟨_, _, (dropLast_append_getLast hp.1).symm⟩
  have hc : isSpace c = false := by
    apply hp.2
    rw [getLast?_concat]
    rfl
  exact rstrip_append_cons front hc []

variable {t : Text}

/-- Space that is dropped takes no text along. -/
theorem infix_rstrip_iff (hp : EndsInText p) : p <:+: t.rstrip ↔ p <:+: t := by
  constructor
  · exact fun h => h.trans ( rdropWhile_prefix isSpace t).isInfix
  · rintro ⟨x, y, rfl⟩
    have hne : Text.rstrip p ≠ [] := by
      rw [hp.rstrip]
      exact hp.1
    by_cases hy : Text.rstrip y = []
    · rw [rstrip_append_blank _ (rstrip_eq_nil_iff.mp hy), rstrip_append_of_ne_nil _ hne, hp.rstrip]
      exact (suffix_append x p).isInfix
    · rw [rstrip_append_of_ne_nil _ hy]
      exact infix_append x p (Text.rstrip y)

theorem prefix_rstrip_iff (hp : EndsInText p) : p <+: t.rstrip ↔ p <+: t := by
  constructor
  · exact fun h => h.trans ( rdropWhile_prefix isSpace t)
  · rintro ⟨y, rfl⟩
    by_cases hy : Text.rstrip y = []
    · rw [rstrip_append_blank _ (rstrip_eq_nil_iff.mp hy), hp.rstrip]
    · rw [rstrip_append_of_ne_nil _ hy]
      exact prefix_append p (Text.rstrip y)

section

variable {q : Char} {p h x y : Text}

theorem prefix_append_cases {z : Text} (hpre : p <+: x ++ z) :
    p <+: x ∨ ∃ l, p = x ++ l ∧ l <+: z := by
  rcases prefix_or_prefix_of_prefix hpre (prefix_append x z) with hpre | ⟨l, rfl⟩
  · exact .inl hpre
  · exact .inr ⟨l, rfl, (prefix_append_right_inj x).mp hpre⟩

theorem infix_append_cons (hq : q ∉ p) : p <:+: x ++ q :: y ↔ p <:+: x ∨ p <:+: y := by
  constructor
  · intro hin
    have hcut : ∀ l, l <+: q :: y → (∀ c ∈ l, c ∈ p) → l = [] := by
      intro l hl hsub
      cases l with
      | nil => rfl
      | cons c l =>
        rw [(cons_prefix_cons.mp hl).1] at hsub
        exact absurd (hsub q mem_cons_self) hq
    rcases infix_append_iff.mp hin with hin | hin | ⟨l, l', rfl, hl, hl'⟩
    · exact .inl hin
    · rcases infix_cons_iff.mp hin with hpre | hin
      · rw [hcut p hpre fun c hc => hc]
        exact .inl nil_infix
      · exact .inr hin
    · rw [hcut l' hl' fun c hc => mem_append_right l hc, List.append_nil]
      exact .inl hl.isInfix
  · rintro (hin | hin)
    · exact infix_append_of_infix_left hin
    · exact infix_append_of_infix_right (hin.trans (suffix_cons q y).isInfix)

theorem prefix_append_cons (hq : q ∉ p) : p <+: x ++ q :: y ↔ p <+: x := by
  refine ⟨fun hpre => ?_, fun hpre => hpre.trans (prefix_append x _)⟩
  rcases prefix_append_cases hpre with hpre | ⟨l, rfl, hl⟩
  · exact hpre
  · cases l with
    | nil => rw [List.append_nil]
    | cons c l =>
      rw [(cons_prefix_cons.mp hl).1] at hq
      exact absurd (mem_append_right x mem_cons_self) hq

/-- A separator with something behind it is in the one text or in the other, or between them. -/
theorem cons_infix_append_cons (hq : q ∉ h) :
    q :: h <:+: x ++ q :: y ↔ q :: h <:+: x ∨ h <+: y ∨ q :: h <:+: y := by
  constructor
  · intro hin
    rcases infix_append_iff.mp hin with hin | hin | ⟨l, l', hsplit, hl, hl'⟩
    · exact .inl hin
    · rcases infix_cons_iff.mp hin with hpre | hin
      · exact .inr (.inl (cons_prefix_cons.mp hpre).2)
      · exact .inr (.inr hin)
    · cases l with
      | nil =>
        rw [nil_append] at hsplit
        rw [← hsplit] at hl'
        exact .inr (.inl (cons_prefix_cons.mp hl').2)
      | cons c l =>
        obtain ⟨rfl, rfl⟩ : q = c ∧ h = l ++ l' := List.cons.inj hsplit
        cases l' with
        | nil =>
          rw [List.append_nil]
          exact .inl hl.isInfix
        | cons d l' =>
          rw [(cons_prefix_cons.mp hl').1] at hq
          exact absurd (mem_append_right l mem_cons_self) hq
  · rintro (hin | hpre | hin)
    · exact infix_append_of_infix_left hin
    · exact infix_append_of_infix_right (cons_prefix_cons.mpr ⟨rfl, hpre⟩).isInfix
    · exact infix_append_of_infix_right (hin.trans (suffix_cons q y).isInfix)

/-- A separator with something behind it is found where it stands first. -/
theorem search_literal_cons (hq : q ∉ h) (hx : ¬ q :: h <:+: x) :
    Matcher.search (Matcher.literal (q :: h)) (x ++ q :: (h ++ y)) = some (x, q :: h, y) := by
  have hhere : Matcher.literal (q :: h) (q :: (h ++ y)) = some (q :: h, y) :=
    Matcher.literal_append (q :: h) y
  rw [Matcher.search_append_of_none, Matcher.search_of_here hhere, Option.map_some, List.append_nil]
  intro v hv hne
  rw [Matcher.literal_eq_none_iff]
  intro hpre
  rcases prefix_append_cases hpre with hpre | ⟨l, hsplit, hl⟩
  · exact hx (hpre.isInfix.trans hv.isInfix)
  cases v with
  | nil => exact hne rfl
  | cons c v =>
    have hh : h = v ++ l := (List.cons.inj hsplit).2
    cases l with
    | nil =>
      apply hx
      rw [hsplit, List.append_nil]
      exact hv.isInfix
    | cons d l =>
      rw [hh, (cons_prefix_cons.mp hl).1] at hq
      exact hq (mem_append_right v mem_cons_self)

end

theorem joinLines_append {xs ys : List Text} (hxs : xs ≠ []) (hys : ys ≠ []) :
    joinLines (xs ++ ys) = joinLines xs ++ '\n' :: joinLines ys := by
  induction xs with
  | nil => exact absurd rfl hxs
  | cons x xs ih =>
    cases xs with
    | nil =>
      obtain ⟨y, ys, rfl⟩ := exists_cons_of_ne_nil hys
      rw [singleton_append, joinLines_cons_cons]
      simp [joinLines, join]
    | cons x' xs =>
      rw [List.cons_append, List.cons_append, joinLines_cons_cons, ← List.cons_append,
        ih (cons_ne_nil _ _), joinLines_cons_cons, List.append_assoc]
      rfl

@[simp] theorem joinLines_singleton (x : Text) : joinLines [x] = x := by
  simp [joinLines, join]

theorem joinLines_joinLines_cons {xs : List Text} (hxs : xs ≠ []) (ys : List Text) :
    joinLines (joinLines xs :: ys) = joinLines (xs ++ ys) := by
  cases ys with
  | nil => rw [joinLines_singleton, List.append_nil]
  | cons y ys =>
    rw [joinLines_cons_cons, joinLines_append hxs (cons_ne_nil y ys)]

/-- Two texts that differ in the space at their ends only. -/
def SameBlock (b c : Text) : Prop := b.rstrip = c.rstrip

variable {b c : Text}

theorem SameBlock.infix_iff (h : SameBlock b c) (hp : EndsInText p) : p <:+: c ↔ p <:+: b := by
  rw [← infix_rstrip_iff hp, ← h, infix_rstrip_iff hp]

theorem SameBlock.prefix_iff (h : SameBlock b c) (hp : EndsInText p) : p <+: c ↔ p <+: b := by
  rw [← prefix_rstrip_iff hp, ← h, prefix_rstrip_iff hp]

/-- Two lists of texts that differ in the space at the ends of the texts only. -/
def SameBlocks (blocks blocks' : List Text) : Prop := blocks.map rstrip = blocks'.map rstrip

variable (blocks : List Text)

theorem SameBlocks.refl : SameBlocks blocks blocks := rfl

variable {blocks blocks' : List Text}

theorem SameBlocks.trans {blocks'' : List Text} (h : SameBlocks blocks blocks')
    (h' : SameBlocks blocks' blocks'') : SameBlocks blocks blocks'' := Eq.trans h h'

variable {after : List Text}

theorem SameBlocks.append {after' : List Text} (h : SameBlocks blocks blocks')
    (h' : SameBlocks after after') : SameBlocks (blocks ++ after) (blocks' ++ after') := by
  unfold SameBlocks at *
  rw [map_append, map_append, h, h']

theorem SameBlocks.singleton (h : SameBlock b c) : SameBlocks [b] [c] :=
  congrArg (fun t => [t]) h

theorem SameBlocks.tail (h : SameBlocks blocks blocks') : SameBlocks blocks.tail blocks'.tail := by
  unfold SameBlocks at *
  rw [map_tail, map_tail, h]

/-- Each of the blocks is one of the others, but for the space at its end. -/
theorem SameBlocks.exists_mem (h : SameBlocks blocks blocks') (hb : b ∈ blocks') :
    ∃ c ∈ blocks, SameBlock c b := by
  have hmem : b.rstrip ∈ blocks.map rstrip := by
    rw [h]
    exact mem_map_of_mem hb
  exact mem_map.mp hmem

theorem SameBlocks.exists_split {before : List Text} (h : SameBlocks (before ++ b :: after) blocks') :
    ∃ before' b' after', blocks' = before' ++ b' :: after' ∧ SameBlocks before before' ∧
      SameBlock b b' ∧ SameBlocks after after' := by
  unfold SameBlocks at h
  rw [map_append] at h
  obtain ⟨before', rest, rfl, hbefore, hrest⟩ := map_eq_append_iff.mp h.symm
  obtain ⟨b', after', rfl, hb, hafter⟩ := map_eq_cons_iff.mp hrest
  exact ⟨before', b', after', rfl, hbefore.symm, hb.symm, hafter.symm⟩

/-- A text whose blocks are some given ones, behind blank lines and up to space at their ends. -/
def HasBlocks (blocks : List Text) (t : Text) : Prop :=
  ∃ blank blocks', t = joinLines (blank ++ blocks') ∧ (∀ b ∈ blank, Text.rstrip b = []) ∧
    SameBlocks blocks blocks'

theorem rstrip_joinLines_blank {blank : List Text} (hblank : ∀ b ∈ blank, Text.rstrip b = []) :
    (joinLines blank).rstrip = [] := by
  induction blank with
  | nil => rfl
  | cons b blank ih =>
    have hrest := ih fun b' hb' => hblank b' (mem_cons_of_mem b hb')
    have hb := hblank b mem_cons_self
    cases blank with
    | nil =>
      rw [joinLines_singleton]
      exact hb
    | cons b' blank =>
      rw [rstrip_eq_nil_iff] at hrest hb ⊢
      rw [joinLines_cons_cons]
      intro c hc
      rcases mem_append.mp hc with hc | hc
      · exact hb c hc
      · rcases mem_cons.mp hc with rfl | hc
        · rfl
        · exact hrest c hc

theorem hasBlocks_rstrip {blank : List Text} (hblank : ∀ b ∈ blank, Text.rstrip b = [])
    (htext : ∀ b ∈ blocks.tail, Text.rstrip b ≠ []) :
    ∃ blank' blocks', (joinLines (blank ++ blocks)).rstrip = joinLines (blank' ++ blocks') ∧
      blank' ++ blocks' ≠ [] ∧ (∀ b ∈ blank', Text.rstrip b = []) ∧ SameBlocks blocks blocks' := by
  have hnil : ∀ b ∈ [([] : Text)], Text.rstrip b = [] := forall_mem_singleton.mpr rfl
  rcases eq_nil_or_concat' blocks with rfl | ⟨front, b, rfl⟩
  · refine ⟨[[]], [], ?_, cons_ne_nil _ _, hnil, SameBlocks.refl _⟩
    rw [List.append_nil, rstrip_joinLines_blank hblank, List.append_nil, joinLines_singleton]
  by_cases hb : Text.rstrip b = []
  · -- only the first block may be blank
    have hfront : front = [] := by
      cases front with
      | nil => rfl
      | cons b' front => exact absurd hb (htext b (mem_append_right _ mem_cons_self))
    subst hfront
    refine ⟨[], [[]], ?_, cons_ne_nil _ _, forall_mem_nil _, SameBlocks.singleton hb⟩
    rw [nil_append, nil_append, joinLines_singleton]
    apply rstrip_joinLines_blank
    exact forall_mem_append.mpr ⟨hblank, forall_mem_singleton.mpr hb⟩
  · have hsame : SameBlocks (front ++ [b]) (front ++ [Text.rstrip b]) :=
      (SameBlocks.refl front).append (SameBlocks.singleton (rstrip_rstrip b).symm)
    have hconcat : blank ++ (front ++ [Text.rstrip b]) ≠ [] :=
      fun h => cons_ne_nil _ _ (append_eq_nil_iff.mp (append_eq_nil_iff.mp h).2).2
    refine ⟨blank, front ++ [Text.rstrip b], ?_, hconcat, hblank, hsame⟩
    rw [← List.append_assoc, ← List.append_assoc]
    by_cases hbefore : blank ++ front = []
    · rw [hbefore, nil_append, nil_append, joinLines_singleton, joinLines_singleton]
    · rw [joinLines_append hbefore (cons_ne_nil b []),
        joinLines_append hbefore (cons_ne_nil _ []), joinLines_singleton, joinLines_singleton,
        List.append_cons, rstrip_append_of_ne_nil _ hb, List.append_assoc, singleton_append]

theorem HasBlocks.rstrip (h : HasBlocks blocks t) (htext : ∀ b ∈ blocks.tail, Text.rstrip b ≠ []) :
    HasBlocks blocks t.rstrip := by
  obtain ⟨blank, blocks', rfl, hblank, hsame⟩ := h
  have htext' : ∀ b ∈ blocks'.tail, Text.rstrip b ≠ [] := by
    intro b hb
    obtain ⟨c, hc, hsame⟩ := hsame.tail.exists_mem hb
    rw [← hsame]
    exact htext c hc
  obtain ⟨blank', blocks'', heq, -, hblank', hsame'⟩ := hasBlocks_rstrip hblank htext'
  exact ⟨blank', blocks'', heq, hblank', hsame.trans hsame'⟩

theorem HasBlocks.joinLines_cons {after' : List Text} (h : HasBlocks blocks t)
    (hafter : SameBlocks after after') : HasBlocks (blocks ++ after) (joinLines (t :: after')) := by
  obtain ⟨blank, blocks', rfl, hblank, hsame⟩ := h
  by_cases hnil : blank ++ blocks' = []
  · obtain ⟨rfl, rfl⟩ := append_eq_nil_iff.mp hnil
    exact ⟨[[]], after', rfl, forall_mem_singleton.mpr rfl, hsame.append hafter⟩
  · refine ⟨blank, blocks' ++ after', ?_, hblank, hsame.append hafter⟩
    rw [joinLines_joinLines_cons hnil, List.append_assoc]

theorem joinLines_concat_append (b s : Text) :
    joinLines (blocks ++ [b ++ s]) = joinLines (blocks ++ [b]) ++ s := by
  by_cases hnil : blocks = []
  · rw [hnil, nil_append, nil_append, joinLines_singleton, joinLines_singleton]
  · rw [joinLines_append hnil (cons_ne_nil _ _), joinLines_append hnil (cons_ne_nil _ _),
      joinLines_singleton, joinLines_singleton, List.append_assoc, List.cons_append]

theorem HasBlocks.append_newline (h : HasBlocks blocks t) : HasBlocks blocks (t ++ ['\n']) := by
  obtain ⟨blank, blocks', rfl, hblank, hsame⟩ := h
  rcases eq_nil_or_concat' blocks' with rfl | ⟨front, b, rfl⟩
  · rcases eq_nil_or_concat' blank with rfl | ⟨blank, b, rfl⟩
    · refine ⟨[[], []], [], rfl, ?_, hsame⟩
      exact forall_mem_cons.mpr ⟨rfl, forall_mem_singleton.mpr rfl⟩
    · obtain ⟨hfront, hb⟩ := forall_mem_append.mp hblank
      refine ⟨blank ++ [b ++ ['\n']], [], ?_, forall_mem_append.mpr ⟨hfront, ?_⟩, hsame⟩
      · rw [List.append_nil, List.append_nil, joinLines_concat_append]
      · rw [forall_mem_singleton] at hb ⊢
        rw [rstrip_append_blank b (forall_mem_singleton.mpr rfl), hb]
  · have hlast : SameBlock b (b ++ ['\n']) :=
      (rstrip_append_blank b (forall_mem_singleton.mpr rfl)).symm
    refine ⟨blank, front ++ [b ++ ['\n']], ?_, hblank, hsame.trans ?_⟩
    · rw [← List.append_assoc, ← List.append_assoc, joinLines_concat_append]
    · exact (SameBlocks.refl front).append (SameBlocks.singleton hlast)

/-- The lines that are not blank, without the space at their ends. -/
def textLines (t : Text) : List Text := ((t.splitOn '\n').map rstrip).filter fun l => !l.isEmpty

theorem textLines_append_newline (s t : Text) :
    textLines (s ++ '\n' :: t) = textLines s ++ textLines t := by
  rw [textLines, splitOn_append_cons_self, map_append, filter_append]
  rfl

theorem textLines_joinLines : textLines (joinLines blocks) = blocks.flatMap textLines := by
  induction blocks with
  | nil => rfl
  | cons b blocks ih =>
    cases blocks with
    | nil => rw [joinLines_singleton, flatMap_singleton]
    | cons b' blocks =>
      rw [joinLines_cons_cons, textLines_append_newline, ih]
      rfl

variable {l : Text}

theorem textLines_of_notMem (h : '\n' ∉ l) :
    textLines l = [l.rstrip].filter fun l => !l.isEmpty := by
  rw [textLines, splitOn_eq_singleton h, map_singleton]

theorem textLines_append_space (t : Text) {c : Char} (hc : isSpace c = true) :
    textLines (t ++ [c]) = textLines t := by
  by_cases hnewline : c = '\n'
  · rw [hnewline, textLines_append_newline]
    exact List.append_nil _
  induction t using lines_induction with
  | hlast t hnl =>
    have hnot : '\n' ∉ t ++ [c] := by
      rw [mem_append, mem_singleton, not_or]
      exact ⟨hnl, fun h => hnewline h.symm⟩
    rw [textLines_of_notMem hnot, textLines_of_notMem hnl,
      rstrip_append_blank t (forall_mem_singleton.mpr hc)]
  | hline l t hl ih =>
    rw [List.append_assoc, List.cons_append, textLines_append_newline, textLines_append_newline, ih]

theorem textLines_rstrip (t : Text) : textLines t.rstrip = textLines t := by
  obtain ⟨space, heq, hspace⟩ := rstrip_append_space t
  conv_rhs => rw [← heq]
  clear heq
  induction space using List.reverseRecOn with
  | nil => rw [List.append_nil]
  | append_singleton space c ih =>
    rw [← List.append_assoc, textLines_append_space _ (hspace c (mem_append_right _
      (mem_singleton_self c))), ← ih fun d hd => hspace d (mem_append_left _ hd)]

theorem textLines_of_hasBlocks (h : HasBlocks blocks t) :
    textLines t = blocks.flatMap textLines := by
  obtain ⟨blank, blocks', rfl, hblank, hsame⟩ := h
  have hnone : blank.flatMap textLines = [] := by
    rw [flatMap_eq_nil_iff]
    intro b hb
    rw [← textLines_rstrip, hblank b hb]
    rfl
  have hlines : ∀ bs : List Text, bs.flatMap textLines = (bs.map rstrip).flatMap textLines := by
    intro bs
    rw [flatMap_map]
    exact flatMap_congr fun b _ => (textLines_rstrip b).symm
  rw [textLines_joinLines, flatMap_append, hnone, nil_append, hlines, hlines blocks, hsame]

theorem prefix_of_mem_textLines {piece : Text} (hnl : '\n' ∉ piece) (hl : l ∈ textLines piece)
    (hp : p <+: l) : p <+: piece := by
  rw [textLines_of_notMem hnl] at hl
  rw [mem_singleton.mp (mem_of_mem_filter hl)] at hp
  exact hp.trans ( rdropWhile_prefix isSpace piece)

/-- What a line starts with stands behind a line feed, or at the start of the text. -/
theorem infix_of_mem_textLines (hl : l ∈ textLines t) (hp : p <+: l) :
    '\n' :: p <:+: '\n' :: t := by
  induction t using lines_induction with
  | hlast t hnl =>
    exact (cons_prefix_cons.mpr ⟨rfl, prefix_of_mem_textLines hnl hl hp⟩).isInfix
  | hline piece t hnl ih =>
    rw [textLines_append_newline] at hl
    rcases mem_append.mp hl with hl | hl
    · have hpre := (prefix_of_mem_textLines hnl hl hp).trans (prefix_append piece ('\n' :: t))
      exact (cons_prefix_cons.mpr ⟨rfl, hpre⟩).isInfix
    · exact (ih hl).trans (suffix_append ('\n' :: piece) ('\n' :: t)).isInfix

theorem joinLines_splitOn (t : Text) : joinLines (t.splitOn '\n') = t := intercalate_splitOn '\n'

/-- The first line of a text that starts with some text, and the others, which are behind a line
feed. -/
theorem textLines_of_prefix (hp : EndsInText p) (hnewline : '\n' ∉ p) (h : p <+: t) :
    ∃ l ls, textLines t = l :: ls ∧ p <+: l ∧ l <+: t ∧
      ∀ l' ∈ ls, ∀ p', p' <+: l' → '\n' :: p' <:+: t := by
  have hfirst : ∀ {piece : Text}, '\n' ∉ piece → p <+: piece →
      textLines piece = [piece.rstrip] := by
    intro piece hnl hpre
    rw [textLines_of_notMem hnl, filter_eq_self]
    intro l hl
    rw [mem_singleton.mp hl]
    cases hnil : Text.rstrip piece with
    | nil =>
      rw [← prefix_rstrip_iff hp, hnil] at hpre
      exact absurd (prefix_nil.mp hpre) hp.1
    | cons c rest => rfl
  by_cases hnl : '\n' ∈ t
  · obtain ⟨x, y, rfl, hx⟩ := eq_append_cons_of_mem hnl
    have hpre : p <+: x := (prefix_append_cons hnewline).mp h
    refine ⟨Text.rstrip x, textLines y, ?_, (prefix_rstrip_iff hp).mpr hpre, ?_, ?_⟩
    · rw [textLines_append_newline, hfirst hx hpre, singleton_append]
    · exact ( rdropWhile_prefix isSpace x).trans (prefix_append x ('\n' :: y))
    · intro l' hl' p' hp'
      exact (infix_of_mem_textLines hl' hp').trans (suffix_append x ('\n' :: y)).isInfix
  · exact ⟨t.rstrip, [], hfirst hnl h, (prefix_rstrip_iff hp).mpr h,
      rdropWhile_prefix isSpace t, forall_mem_nil _⟩

end Text

end Misc
