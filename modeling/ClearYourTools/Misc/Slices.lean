import ClearYourTools.Misc.Text

/-!
# Byte slices

Rust indexes a text by byte offsets, and a slice between two offsets exists when both are
boundaries of characters. A text laid out in pieces gives each piece such a slice.
-/

namespace Misc

open List

/-- Rust's `str::len`. -/
def utf8Len : Text → ℕ
  | [] => 0
  | c :: t => c.utf8Size + utf8Len t

@[simp] theorem utf8Len_nil : utf8Len [] = 0 := rfl

@[simp] theorem utf8Len_cons (c : Char) (t : Text) :
    utf8Len (c :: t) = c.utf8Size + utf8Len t := rfl

@[simp] theorem utf8Len_append (s t : Text) : utf8Len (s ++ t) = utf8Len s + utf8Len t := by
  induction s with
  | nil => simp
  | cons c s ih =>
    rw [List.cons_append, utf8Len_cons, utf8Len_cons, ih]
    omega

theorem utf8Len_pos {t : Text} (h : t ≠ []) : 0 < utf8Len t := by
  cases t with
  | nil => exact absurd rfl h
  | cons c t =>
    have hc := Char.utf8Size_pos c
    rw [utf8Len_cons]
    omega

/-- What follows the first `n` bytes. -/
def dropBytes : Text → ℕ → Text
  | [], _ => []
  | c :: t, n => if n = 0 then c :: t else dropBytes t (n - c.utf8Size)

/-- The first `n` bytes. -/
def takeBytes : Text → ℕ → Text
  | [], _ => []
  | c :: t, n => if n = 0 then [] else c :: takeBytes t (n - c.utf8Size)

/-- Rust's `&text[start..end]`, between boundaries of characters. -/
def byteSlice (t : Text) (start stop : ℕ) : Text := takeBytes (dropBytes t start) (stop - start)

theorem bytes_append (s t : Text) :
    takeBytes (s ++ t) (utf8Len s) = s ∧ dropBytes (s ++ t) (utf8Len s) = t := by
  induction s with
  | nil => cases t <;> exact ⟨rfl, rfl⟩
  | cons c s ih =>
    have hc := Char.utf8Size_pos c
    have hne : ¬ (c.utf8Size + utf8Len s = 0) := by omega
    rw [List.cons_append, utf8Len_cons, takeBytes, dropBytes, if_neg hne, if_neg hne,
      Nat.add_sub_cancel_left, ih.1, ih.2]
    exact ⟨rfl, rfl⟩

/-- `&text[start..stop]` exists and is `s`. -/
def IsSlice (text : Text) (start stop : ℕ) (s : Text) : Prop :=
  ∃ before after, text = before ++ s ++ after ∧ start = utf8Len before ∧
    stop = utf8Len before + utf8Len s

variable {text s : Text} {start stop : ℕ}

section

variable (h : IsSlice text start stop s)
include h

theorem byteSlice_of_isSlice : byteSlice text start stop = s := by
  obtain ⟨before, after, rfl, rfl, rfl⟩ := h
  rw [byteSlice, List.append_assoc, (bytes_append _ _).2, Nat.add_sub_cancel_left, (bytes_append _ _).1]

theorem IsSlice.start_le : start ≤ stop := by
  obtain ⟨before, after, -, rfl, rfl⟩ := h
  exact Nat.le_add_right _ _

theorem IsSlice.stop_le : stop ≤ utf8Len text := by
  obtain ⟨before, after, rfl, rfl, rfl⟩ := h
  simp only [utf8Len_append]
  omega

end

variable {a b : ℕ}

theorem IsSlice.start_boundary (h : IsSlice text a b s) : IsSlice text a a [] := by
  obtain ⟨before, after, rfl, rfl, rfl⟩ := h
  exact ⟨before, s ++ after, by simp, rfl, rfl⟩

theorem isSlice_end (text : Text) : IsSlice text (utf8Len text) (utf8Len text) [] :=
  ⟨text, [], by simp, rfl, rfl⟩

theorem isSlice_self (text : Text) : IsSlice text 0 (utf8Len text) text :=
  ⟨[], [], by simp, rfl, by simp⟩

theorem eq_of_isSlice_self (h : IsSlice text 0 (utf8Len text) s) : s = text := by
  rw [← byteSlice_of_isSlice h, byteSlice_of_isSlice (isSlice_self text)]

variable {s' : Text}

/-- Two prefixes of a text of the same length in bytes are the same. -/
theorem prefix_eq_of_utf8Len_eq {t t' : Text} (h : s ++ t = s' ++ t')
    (hlen : utf8Len s = utf8Len s') : s = s' := by
  have hs := (bytes_append s t).1
  rw [h, hlen, (bytes_append _ _).1] at hs
  exact hs.symm

/-- Adjacent slices join. -/
theorem IsSlice.append {c : ℕ} (h : IsSlice text a b s) (h' : IsSlice text b c s') :
    IsSlice text a c (s ++ s') := by
  obtain ⟨before, after, rfl, rfl, rfl⟩ := h
  obtain ⟨before', after', htext, hb, rfl⟩ := h'
  have hbefore : before ++ s = before' := by
    rw [List.append_assoc before'] at htext
    exact prefix_eq_of_utf8Len_eq htext (by rw [utf8Len_append, hb])
  subst hbefore
  refine ⟨before, after', ?_, rfl, ?_⟩
  · rw [htext]
    simp only [List.append_assoc]
  · simp only [utf8Len_append]
    omega

/-- Between the start of one slice and the end of a later one there is a slice. -/
theorem IsSlice.hull {c d : ℕ} (h : IsSlice text a b s) (h' : IsSlice text c d s') (hle : a ≤ d) :
    IsSlice text a d (byteSlice text a d) := by
  obtain ⟨before, after, htext, rfl, rfl⟩ := h
  obtain ⟨before', after', htext', rfl, rfl⟩ := h'
  have hbefore : before <+: text := ⟨s ++ after, by rw [htext, List.append_assoc]⟩
  have hbefore' : before' ++ s' <+: text := ⟨after', htext'.symm⟩
  have hsplit : before <+: before' ++ s' := by
    apply prefix_of_prefix_length_le hbefore hbefore'
    by_contra hlong
    -- a longer prefix has more bytes
    have hpre : before' ++ s' <+: before :=
      prefix_of_prefix_length_le hbefore' hbefore (not_le.mp hlong).le
    obtain ⟨rest, rfl⟩ := hpre
    have hrest : rest ≠ [] := by
      rintro rfl
      simp at hlong
    have hpos := utf8Len_pos hrest
    simp only [utf8Len_append] at hle
    omega
  obtain ⟨middle, hmiddle⟩ := hsplit
  have hslice : IsSlice text (utf8Len before) (utf8Len before' + utf8Len s') middle := by
    refine ⟨before, after', ?_, rfl, ?_⟩
    · rw [hmiddle, htext']
    · rw [← utf8Len_append, ← utf8Len_append, hmiddle]
  rw [byteSlice_of_isSlice hslice]
  exact hslice

/-- The text is the pieces in order, with separators of `gap` bytes between them. -/
inductive SpacedBy (gap : ℕ) : List Text → Text → Prop where
  | last (piece : Text) : SpacedBy gap [piece] piece
  | cons (piece sep : Text) {rest : List Text} {text : Text} (hsep : utf8Len sep = gap)
      (hrest : SpacedBy gap rest text) : SpacedBy gap (piece :: rest) (piece ++ sep ++ text)

/-- Each piece with its byte offset, the first of them at `offset`. -/
def placed (gap offset : ℕ) : List Text → List (ℕ × Text)
  | [] => []
  | piece :: rest => (offset, piece) :: placed gap (offset + utf8Len piece + gap) rest

theorem placed_map_snd (gap offset : ℕ) (pieces : List Text) :
    (placed gap offset pieces).map Prod.snd = pieces := by
  induction pieces generalizing offset with
  | nil => rfl
  | cons piece rest ih => rw [placed, map_cons, ih]

theorem spacedBy_flatten {parts : List Text} (h : parts ≠ []) : SpacedBy 0 parts parts.flatten := by
  induction parts with
  | nil => exact absurd rfl h
  | cons part rest ih =>
    cases rest with
    | nil => simpa using SpacedBy.last part
    | cons next rest =>
      have hsep : utf8Len [] = 0 := rfl
      have hcons := SpacedBy.cons part [] hsep (ih (cons_ne_nil _ _))
      rwa [List.append_nil] at hcons

/-- The pieces between separators of one byte. -/
theorem spacedBy_splitOnP {p : Char → Bool} (hp : ∀ c, p c = true → c.utf8Size = 1)
    (text : Text) : SpacedBy 1 (text.splitOnP p) text := by
  induction text with
  | nil => exact SpacedBy.last []
  | cons c text ih =>
    rw [splitOnP_cons_eq_if_modifyHead]
    generalize text.splitOnP p = pieces at ih ⊢
    split
    · rename_i hc
      have hsep : utf8Len [c] = 1 := by simp [hp c hc]
      exact SpacedBy.cons [] [c] hsep ih
    · cases ih with
      | last piece => exact SpacedBy.last (c :: text)
      | cons piece sep hsep hrest => exact SpacedBy.cons (c :: piece) sep hsep hrest

theorem isSlice_of_mem_placed {gap : ℕ} {pieces : List Text} (h : SpacedBy gap pieces text)
    (before : Text) {x : ℕ × Text} (hx : x ∈ placed gap (utf8Len before) pieces) :
    IsSlice (before ++ text) x.1 (x.1 + utf8Len x.2) x.2 := by
  induction h generalizing before with
  | last piece =>
    obtain rfl : x = (utf8Len before, piece) := by simpa [placed] using hx
    exact ⟨before, [], by simp, rfl, rfl⟩
  | cons piece sep hsep hrest ih =>
    rename_i rest text
    rcases mem_cons.mp hx with rfl | hx
    · exact ⟨before, sep ++ text, by simp, rfl, rfl⟩
    · have hstart : utf8Len before + utf8Len piece + gap = utf8Len (before ++ piece ++ sep) := by
        simp only [utf8Len_append, hsep]
      rw [hstart] at hx
      have hslice := ih (before ++ piece ++ sep) hx
      simpa only [List.append_assoc] using hslice

theorem le_of_mem_placed {gap offset : ℕ} {pieces : List Text} {x : ℕ × Text}
    (hx : x ∈ placed gap offset pieces) : offset ≤ x.1 := by
  induction pieces generalizing offset with
  | nil => simp [placed] at hx
  | cons piece rest ih =>
    rcases mem_cons.mp hx with rfl | hx
    · exact Nat.le_refl _
    · have hrest := ih hx
      omega

theorem placed_pairwise (gap offset : ℕ) (pieces : List Text) :
    (placed gap offset pieces).Pairwise fun x y => x.1 + utf8Len x.2 ≤ y.1 := by
  induction pieces generalizing offset with
  | nil => exact List.Pairwise.nil
  | cons piece rest ih =>
    refine pairwise_cons.mpr ⟨?_, ih _⟩
    intro y hy
    have hlow := le_of_mem_placed hy
    exact (Nat.le_add_right _ _).trans hlow

section

variable {gap offset : ℕ} {pieces : List Text} (keep : Text → Bool)

/-- The first kept piece stands at the start exactly when the first piece is kept. -/
theorem head_kept_iff (hpos : ∀ piece ∈ pieces, 0 < utf8Len piece + gap) {x : ℕ × Text}
    (hx : ((placed gap offset pieces).filter fun x => keep x.2).head? = some x) :
    x.1 = offset ↔ pieces.head?.any keep = true := by
  cases pieces with
  | nil => simp [placed] at hx
  | cons piece rest =>
    rw [placed, filter_cons] at hx
    cases hkeep : keep piece with
    | true =>
      simp only [hkeep, if_true, head?_cons, Option.some.injEq] at hx
      simp [← hx, hkeep]
    | false =>
      simp only [hkeep, Bool.false_eq_true, if_false] at hx
      have hmem := (mem_filter.mp (mem_of_head? hx)).1
      have hlow := le_of_mem_placed hmem
      have hpiece := hpos piece mem_cons_self
      have hne : x.1 ≠ offset := by omega
      simp [hne, hkeep]

theorem getLast_kept_iff {text : Text} (h : SpacedBy gap pieces text)
    (hpos : ∀ piece ∈ pieces, 0 < utf8Len piece + gap) {x : ℕ × Text}
    (hx : ((placed gap offset pieces).filter fun x => keep x.2).getLast? = some x) :
    x.1 + utf8Len x.2 = offset + utf8Len text ↔ pieces.getLast?.any keep = true := by
  induction h generalizing offset with
  | last piece =>
    cases hkeep : keep piece with
    | true =>
      simp only [placed, filter_cons, hkeep, if_true, filter_nil,
        getLast?_singleton, Option.some.injEq] at hx
      simp [← hx, hkeep]
    | false => simp [placed, hkeep] at hx
  | cons piece sep hsep hrest ih =>
    rename_i rest text
    have hrestpos := fun p hp => hpos p (mem_cons_of_mem piece hp)
    have hne : rest ≠ [] := by
      cases hrest <;> exact cons_ne_nil _ _
    have htotal : offset + utf8Len (piece ++ sep ++ text) =
        offset + utf8Len piece + gap + utf8Len text := by
      simp only [utf8Len_append, hsep]
      omega
    rw [htotal, getLast?_cons_of_ne_nil hne]
    rw [placed, filter_cons] at hx
    cases hk : ((placed gap (offset + utf8Len piece + gap) rest).filter
        fun x => keep x.2).getLast? with
    | some y =>
      have hyx : y = x := by
        have hnil : (placed gap (offset + utf8Len piece + gap) rest).filter
            (fun x => keep x.2) ≠ [] := by
          intro hnil
          simp [hnil] at hk
        split at hx
        · rw [getLast?_cons_of_ne_nil hnil, hk] at hx
          exact Option.some.inj hx
        · rw [hk] at hx
          exact Option.some.inj hx
      subst hyx
      exact ih hrestpos hk
    | none =>
      -- only the first piece is kept, and it ends before the text does
      have hnil := getLast?_eq_none_iff.mp hk
      have hnone : rest.getLast?.any keep = false := by
        cases hlast : rest.getLast? with
        | none => rfl
        | some p =>
          have hp := mem_of_getLast? hlast
          rw [← placed_map_snd gap (offset + utf8Len piece + gap) rest] at hp
          obtain ⟨y, hy, rfl⟩ := mem_map.mp hp
          have hnot := filter_eq_nil_iff.mp hnil y hy
          simpa using hnot
      have htext : 0 < gap + utf8Len text := by
        cases hrest with
        | last p =>
          have hp := hrestpos text mem_cons_self
          omega
        | cons p sep' hsep' hrest' =>
          have hp := hrestpos p mem_cons_self
          simp only [utf8Len_append]
          omega
      rw [hnil] at hx
      split at hx
      · simp only [getLast?_singleton, Option.some.injEq] at hx
        rw [← hx, hnone]
        simp only [Bool.false_eq_true, iff_false]
        omega
      · simp at hx

end

end Misc
