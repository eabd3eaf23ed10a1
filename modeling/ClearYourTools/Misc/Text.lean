import Mathlib.Data.List.DropRight
import Mathlib.Data.List.Infix

/-!
# Texts

A text is its list of Unicode scalar values, which is what a Rust `str` and a Python `str`
without surrogates hold. The trimming functions of both standard libraries are here, over
the whitespace set of each.
-/

namespace Misc

open List

abbrev Text := List Char

instance : Coe String Text := ⟨String.toList⟩

instance : LawfulBEq Text := inferInstance

/-- Rust's `char::is_whitespace`: the Unicode `White_Space` property. -/
def isWhitespace (c : Char) : Bool :=
  let n := c.toNat
  (0x9 ≤ n && n ≤ 0xD) || n == 0x20 || n == 0x85 || n == 0xA0 || n == 0x1680 ||
    (0x2000 ≤ n && n ≤ 0x200A) || n == 0x2028 || n == 0x2029 || n == 0x202F ||
    n == 0x205F || n == 0x3000

/-- Python's `str.isspace` on one character: the set above and the four separators
`U+001C` to `U+001F`. -/
def isSpace (c : Char) : Bool := isWhitespace c || (0x1C ≤ c.toNat && c.toNat ≤ 0x1F)

namespace Text

/-- Rust's `str::trim_start`. -/
def trimStart (t : Text) : Text := t.dropWhile isWhitespace

/-- Rust's `str::trim_end`. -/
def trimEnd (t : Text) : Text := t.rdropWhile isWhitespace

/-- Rust's `str::trim`. -/
def trim (t : Text) : Text := trimEnd (trimStart t)

/-- `s.trim().is_empty()`. -/
def isBlank (t : Text) : Bool := t.all isWhitespace

/-- Python's `str.strip()`. -/
def strip (t : Text) : Text := (t.dropWhile isSpace).rdropWhile isSpace

/-- Rust's `str::starts_with` on a text. -/
def startsWith (p t : Text) : Bool := p.isPrefixOf t

/-- A line without the carriage return that ends it. -/
def stripCr (line : Text) : Text := if line.getLast? = some '\r' then line.dropLast else line

/-- Rust's `str::lines`: the pieces between line feeds, those that a line feed ends without
their trailing carriage return; an empty last piece is not a line. -/
def lines (t : Text) : List Text :=
  let pieces := t.splitOn '\n'
  pieces.dropLast.map stripCr ++ (pieces.getLast?.filter fun last => !last.isEmpty).toList

/-- `parts.join(sep)`. -/
def join (sep : Text) (parts : List Text) : Text := sep.intercalate parts

/-- `lines.join("\n")`. -/
def joinLines (ls : List Text) : Text := join ['\n'] ls

/-- What follows the first occurrence of a non-empty `p`. -/
def afterFirst (p : Text) : Text → Option Text
  | [] => none
  | c :: t => if p.isPrefixOf (c :: t) then some ((c :: t).drop p.length) else afterFirst p t

variable {t : Text}

theorem forall_of_all {p : Char → Bool} (h : t.all p = true) :
    ∀ c ∈ t, p c = true := all_eq_true.mp h

/-- What is found of no character. -/
theorem forall_not_of_any {p : Char → Bool} (h : t.any p = false) :
    ∀ c ∈ t, p c = false := fun c hc => by simpa using any_eq_false.mp h c hc

/-- A number as Rust's `format!` writes it. -/
def ofNat (n : ℕ) : Text := Nat.toDigits 10 n

theorem trim_eq_nil_iff : t.trim = [] ↔ ∀ c ∈ t, isWhitespace c := by
  constructor
  · intro h
    have hend : ∀ c ∈ t.trimStart, isWhitespace c := by
      simpa [trim, trimEnd, rdropWhile_eq_nil_iff] using h
    have hstart : t.trimStart = [] := by
      cases hs : t.trimStart with
      | nil => rfl
      | cons c rest =>
        -- the first character left by `trim_start` is not a blank
        have hnot : isWhitespace c = false := by
          have hne : t.dropWhile isWhitespace ≠ [] := by
            simp only [trimStart] at hs
            simp [hs]
          have hhead := head_dropWhile_not isWhitespace hne
          simp only [trimStart] at hs
          simpa [hs] using hhead
        rw [hs] at hend
        rw [hend c mem_cons_self] at hnot
        cases hnot
    simpa [trimStart, dropWhile_eq_nil_iff] using hstart
  · intro h
    have hstart : t.trimStart = [] := by
      simpa [trimStart, dropWhile_eq_nil_iff] using h
    simp [trim, trimEnd, hstart]

theorem joinLines_cons_cons (l l' : Text) (ls : List Text) :
    joinLines (l :: l' :: ls) = l ++ '\n' :: joinLines (l' :: ls) := by
  simp [joinLines, join, List.intercalate]

variable {x : Text}

theorem infix_join {sep : Text} {parts : List Text} (h : x ∈ parts) : x <:+: join sep parts := by
  induction parts with
  | nil => cases h
  | cons part parts ih =>
    cases parts with
    | nil =>
      rw [mem_singleton.mp h, join, intercalate_singleton]
    | cons next parts =>
      rw [join, intercalate_cons_cons, ← join]
      rcases mem_cons.mp h with rfl | h
      · rw [List.append_assoc]
        exact (prefix_append _ _).isInfix
      · exact (ih h).trans (suffix_append _ _).isInfix

theorem infix_joinLines {line : Text} {lines : List Text} (h : line ∈ lines) :
    line <:+: joinLines lines := infix_join h

/-- Joined lines are blank exactly when each line is. -/
theorem trim_joinLines_eq_nil_iff {ls : List Text} :
    (joinLines ls).trim = [] ↔ ∀ l ∈ ls, Text.trim l = [] := by
  simp only [trim_eq_nil_iff]
  induction ls with
  | nil => simp [joinLines, join, List.intercalate]
  | cons l ls ih =>
    cases ls with
    | nil => simp [joinLines, join, List.intercalate]
    | cons l' ls =>
      have hnl : isWhitespace '\n' = true := by decide
      rw [joinLines_cons_cons, forall_mem_append, forall_mem_cons, ih,
        forall_mem_cons (l := l' :: ls)]
      simp only [hnl, true_and]

theorem trimStart_eq_self (h : ∀ c ∈ t.head?, isWhitespace c = false) : t.trimStart = t := by
  cases t with
  | nil => rfl
  | cons c t =>
    have hc := h c rfl
    rw [trimStart, dropWhile_cons_of_neg (by simp [hc])]

theorem head?_trimStart (t : Text) : ∀ c ∈ t.trimStart.head?, isWhitespace c = false := by
  intro c hc
  have hhead := head?_dropWhile_not isWhitespace t
  rw [trimStart, Option.mem_def] at hc
  rw [hc] at hhead
  exact hhead

theorem head?_trim (t : Text) : ∀ c ∈ t.trim.head?, isWhitespace c = false := by
  intro c hc
  have hprefix : t.trim <+: t.trimStart := rdropWhile_prefix isWhitespace _
  obtain ⟨rest, hrest⟩ := hprefix
  apply head?_trimStart t
  rw [← hrest]
  cases ht : t.trim with
  | nil => simp [ht] at hc
  | cons d r => simpa [ht] using hc

theorem trimStart_trim (t : Text) : t.trim.trimStart = t.trim := trimStart_eq_self (head?_trim t)

theorem trim_trim (t : Text) : t.trim.trim = t.trim := by
  have hstart := trimStart_trim t
  rw [trim, hstart, trim, trimEnd, trimEnd]
  exact rdropWhile_idempotent isWhitespace _

/-- A text between two characters that are not blanks is trimmed. -/
theorem trim_eq_self (hhead : ∀ c ∈ t.head?, isWhitespace c = false)
    (hlast : ∀ c ∈ t.getLast?, isWhitespace c = false) : t.trim = t := by
  rw [trim, trimStart_eq_self hhead, trimEnd, rdropWhile_eq_self_iff]
  intro hne
  have hend := hlast (t.getLast hne) (getLast?_eq_some_getLast hne)
  simp [hend]

/-- Trimming stops at the latest at a character that is not a blank. -/
theorem trimStart_append_cons (x : Text) {c : Char} (hc : isWhitespace c = false) (y : Text) :
    ∃ z, (x ++ c :: y).trimStart = z ++ c :: y := by
  induction x with
  | nil => exact ⟨[], trimStart_eq_self (by simpa using hc)⟩
  | cons d x ih =>
    cases hd : isWhitespace d with
    | false => exact ⟨d :: x, trimStart_eq_self (by simpa using hd)⟩
    | true =>
      obtain ⟨z, hz⟩ := ih
      refine ⟨z, ?_⟩
      rw [← hz, List.cons_append, trimStart, trimStart, dropWhile_cons_of_pos hd]

theorem length_trimStart_le (t : Text) : t.trimStart.length ≤ t.length :=
  (dropWhile_sublist isWhitespace).length_le

/-- A text as long as its trimmed form does not start with a blank. -/
theorem trimStart_eq_self_of_length (h : t.length ≤ t.trimStart.length) : t.trimStart = t :=
  (dropWhile_sublist isWhitespace).eq_of_length_le h

variable {p : Text}

theorem afterFirst_self (hp : p ≠ []) (t : Text) : afterFirst p (p ++ t) = some t := by
  cases p with
  | nil => exact absurd rfl hp
  | cons h p =>
    have hprefix : (h :: p).isPrefixOf (h :: (p ++ t)) = true := by
      rw [ isPrefixOf_iff_prefix]
      exact prefix_append (h :: p) t
    rw [List.cons_append, afterFirst, if_pos hprefix]
    simp

/-- A piece without the pattern's first character is passed over. -/
theorem afterFirst_append_of_notMem {h : Char} (hx : h ∉ x) (t : Text) :
    afterFirst (h :: p) (x ++ t) = afterFirst (h :: p) t := by
  induction x with
  | nil => rfl
  | cons c x ih =>
    rw [mem_cons, not_or] at hx
    have hnot : (h :: p).isPrefixOf (c :: (x ++ t)) = false := by
      simp [List.isPrefixOf, hx.1]
    rw [List.cons_append, afterFirst, hnot, if_neg (by simp), ih hx.2]

theorem afterFirst_append_of_not_infix {h : Char} (hp : h ∉ p) (hx : ¬ (h :: p) <:+: x) (t : Text) :
    afterFirst (h :: p) (x ++ h :: t) = afterFirst (h :: p) (h :: t) := by
  induction x with
  | nil => rfl
  | cons c x ih =>
    have hrest : ¬ (h :: p) <:+: x := fun hin => hx (hin.trans (suffix_cons c x).isInfix)
    have hnot : (h :: p).isPrefixOf (c :: (x ++ h :: t)) = false := by
      rw [← Bool.not_eq_true, isPrefixOf_iff_prefix]
      intro hpre
      have hx' : c :: x <+: c :: (x ++ h :: t) := prefix_append (c :: x) (h :: t)
      rcases prefix_or_prefix_of_prefix hpre hx' with hin | hin
      · exact hx hin.isInfix
      -- the pattern would reach over the end of the piece, onto its own first character
      obtain ⟨q, hq⟩ := hin
      rw [← hq] at hpre
      have hq' : q <+: h :: t := (prefix_append_right_inj (c :: x)).mp hpre
      cases q with
      | nil =>
        rw [List.append_nil] at hq
        exact hx (hq ▸ infix_rfl)
      | cons d q =>
        obtain ⟨r, hr⟩ := hq'
        obtain ⟨rfl, -⟩ := List.cons.inj hr
        apply hp
        rw [List.cons_append] at hq
        rw [← (List.cons.inj hq).2]
        simp
    rw [List.cons_append, afterFirst, hnot, if_neg (by simp), ih hrest]

/-- A piece that contains the pattern leaves what follows it in the result. -/
theorem afterFirst_append_of_infix (hp : p ≠ []) (hx : p <:+: x) (t : Text) :
    ∃ y, afterFirst p (x ++ t) = some (y ++ t) := by
  induction x with
  | nil => exact absurd (infix_nil.mp hx) hp
  | cons c x ih =>
    rw [List.cons_append, afterFirst]
    split
    · rename_i hpre
      rw [ isPrefixOf_iff_prefix] at hpre
      have hx' : c :: x <+: c :: (x ++ t) := prefix_append (c :: x) t
      have hin : p <+: c :: x := prefix_of_prefix_length_le hpre hx' hx.length_le
      refine ⟨(c :: x).drop p.length, ?_⟩
      rw [← List.cons_append, drop_append_of_le_length hin.length_le]
    · rename_i hpre
      apply ih
      rcases infix_cons_iff.mp hx with hin | hin
      · exfalso
        apply hpre
        rw [ isPrefixOf_iff_prefix]
        exact hin.trans (prefix_append (c :: x) t)
      · exact hin

theorem digitChar_injective {a b : ℕ} (ha : a < 10) (hb : b < 10)
    (h : Nat.digitChar a = Nat.digitChar b) : a = b := by
  have hall : ∀ a < 10, ∀ b < 10, Nat.digitChar a = Nat.digitChar b → a = b := by decide
  exact hall a ha b hb h

theorem ofNat_injective {a b : ℕ} (h : ofNat a = ofNat b) : a = b := by
  simp only [ofNat] at h
  induction a using Nat.strong_induction_on generalizing b with
  | h a ih =>
    have hpos : ∀ n, 0 < (Nat.toDigits 10 n).length := fun n => Nat.length_toDigits_pos
    rw [Nat.toDigits_eq_if (by omega), Nat.toDigits_eq_if (n := b) (by omega)] at h
    split at h <;> split at h
    · rename_i ha hb
      exact digitChar_injective ha hb (singleton_injective h)
    · have hlen := congrArg List.length h
      have hb := hpos (b / 10)
      simp only [length_append, length_singleton] at hlen
      omega
    · have hlen := congrArg List.length h
      have ha := hpos (a / 10)
      simp only [length_append, length_singleton] at hlen
      omega
    · rename_i ha hb
      obtain ⟨hdiv, hmod⟩ := append_inj' h rfl
      have hquot := ih (a / 10) (by omega) hdiv
      have hrem := digitChar_injective (Nat.mod_lt a (by omega)) (Nat.mod_lt b (by omega))
        (singleton_injective hmod)
      omega

theorem isDigit_of_mem_ofNat {n : ℕ} {c : Char} (h : c ∈ ofNat n) : c.isDigit = true :=
  Nat.isDigit_of_mem_toDigits (by omega) (by omega) h

theorem newline_notMem_ofNat (n : ℕ) : '\n' ∉ ofNat n := by
  intro h
  have hdigit := isDigit_of_mem_ofNat h
  revert hdigit
  decide

/-!
## Stripped texts

What Python's `str.strip` leaves of a text that is put together around a separator, and how
`str.partition` takes it apart again.
-/

/-- Python's `str.lstrip()`. -/
def lstrip (t : Text) : Text := t.dropWhile isSpace

/-- Python's `str.rstrip()`. -/
def rstrip (t : Text) : Text := t.rdropWhile isSpace

theorem strip_eq (t : Text) : t.strip = t.lstrip.rstrip := rfl

/-- A text without space at its ends. -/
def Stripped (t : Text) : Prop :=
  (∀ c ∈ t.head?, isSpace c = false) ∧ ∀ c ∈ t.getLast?, isSpace c = false

variable {t : Text}

/-- The test of the two ends of a text. -/
theorem stripped_of_ends (h : (t.head?.all fun c => !isSpace c) = true ∧
    (t.getLast?.all fun c => !isSpace c) = true) : Stripped t := by
  constructor
  · intro c hc
    have hend := h.1
    rw [hc] at hend
    simpa using hend
  · intro c hc
    have hend := h.2
    rw [hc] at hend
    simpa using hend

variable {c : Char}

theorem lstrip_append_cons (x : Text) (hc : isSpace c = false) (y : Text) :
    (x ++ c :: y).lstrip = x.lstrip ++ c :: y := by
  induction x with
  | nil => simp [lstrip, hc]
  | cons d x ih =>
    rw [lstrip, lstrip, List.cons_append, dropWhile_cons, dropWhile_cons]
    split
    · exact ih
    · rfl

theorem rstrip_eq_reverse (t : Text) : t.rstrip = (lstrip t.reverse).reverse := rfl

theorem rstrip_append_cons (x : Text) (hc : isSpace c = false) (y : Text) :
    (x ++ c :: y).rstrip = x ++ c :: y.rstrip := by
  rw [rstrip_eq_reverse, reverse_append, reverse_cons, List.append_assoc,
    singleton_append, lstrip_append_cons _ hc, rstrip_eq_reverse]
  simp

theorem strip_append_cons (x : Text) (hc : isSpace c = false) (y : Text) :
    (x ++ c :: y).strip = x.lstrip ++ c :: y.rstrip := by
  rw [strip_eq, lstrip_append_cons _ hc, rstrip_append_cons _ hc]

theorem lstrip_eq_nil_iff : t.lstrip = [] ↔ ∀ c ∈ t, isSpace c = true := by
  simp [lstrip]

theorem rstrip_eq_nil_iff : t.rstrip = [] ↔ ∀ c ∈ t, isSpace c = true := by
  rw [rstrip_eq_reverse, reverse_eq_nil_iff, lstrip_eq_nil_iff]
  simp

theorem blank_or_first (t : Text) : (∀ c ∈ t, isSpace c = true) ∨
    ∃ x c y, t = x ++ c :: y ∧ isSpace c = false ∧ ∀ d ∈ x, isSpace d = true := by
  induction t with
  | nil => exact .inl (by simp)
  | cons d t ih =>
    cases hd : isSpace d with
    | false => exact .inr ⟨[], d, t, rfl, hd, by simp⟩
    | true =>
      rcases ih with hblank | ⟨x, c, y, rfl, hc, hx⟩
      · exact .inl (forall_mem_cons.mpr ⟨hd, hblank⟩)
      · exact .inr ⟨d :: x, c, y, rfl, hc, forall_mem_cons.mpr ⟨hd, hx⟩⟩

variable {x : Text}

theorem strip_of_first (hx : ∀ d ∈ x, isSpace d = true) (hc : isSpace c = false) (y : Text) :
    (x ++ c :: y).strip = c :: y.rstrip := by
  rw [strip_append_cons _ hc, lstrip_eq_nil_iff.mpr hx, nil_append]

theorem strip_eq_nil_iff : t.strip = [] ↔ ∀ c ∈ t, isSpace c = true := by
  rcases blank_or_first t with hblank | ⟨x, c, y, rfl, hc, hx⟩
  · refine ⟨fun _ => hblank, fun _ => ?_⟩
    rw [strip_eq, lstrip_eq_nil_iff.mpr hblank]
    rfl
  · rw [strip_of_first hx hc]
    refine ⟨fun hnil => (by cases hnil), fun hall => ?_⟩
    rw [hall c (by simp)] at hc
    cases hc

theorem rstrip_rstrip (t : Text) : t.rstrip.rstrip = t.rstrip := rdropWhile_idempotent isSpace t

theorem lstrip_lstrip (t : Text) : t.lstrip.lstrip = t.lstrip := dropWhile_idempotent isSpace t

theorem strip_lstrip (t : Text) : t.lstrip.strip = t.strip := by
  rw [strip_eq, strip_eq, lstrip_lstrip]

theorem strip_rstrip (t : Text) : t.rstrip.strip = t.strip := by
  rcases blank_or_first t with hblank | ⟨x, c, y, rfl, hc, hx⟩
  · rw [rstrip_eq_nil_iff.mpr hblank, strip_eq_nil_iff.mpr hblank]
    rfl
  · rw [rstrip_append_cons _ hc, strip_of_first hx hc, strip_of_first hx hc, rstrip_rstrip]

theorem lstrip_eq_self (h : ∀ c ∈ t.head?, isSpace c = false) : t.lstrip = t := by
  cases t with
  | nil => rfl
  | cons c t => rw [lstrip, dropWhile_cons_of_neg (by simp [h c rfl])]

theorem Stripped.lstrip (h : Stripped t) : t.lstrip = t := lstrip_eq_self h.1

theorem Stripped.rstrip (h : Stripped t) : t.rstrip = t := by
  rw [Text.rstrip, rdropWhile_eq_self_iff]
  intro hne
  have hend := h.2 (t.getLast hne) (getLast?_eq_some_getLast hne)
  simp [hend]

theorem Stripped.strip (h : Stripped t) : t.strip = t := by
  rw [strip_eq, h.lstrip, h.rstrip]

/-- A text between two marks, as a digest that is never blank. -/
theorem strip_marked (t : Text) : strip ('#' :: (t ++ ['#'])) = '#' :: (t ++ ['#']) := by
  have hlast : ('#' :: (t ++ ['#'])).getLast? = some '#' := getLast?_concat (l := '#' :: t)
  exact (stripped_of_ends ⟨rfl, by rw [hlast]; rfl⟩).strip

theorem marked_ne_nil (t : Text) : '#' :: (t ++ ['#']) ≠ [] := cons_ne_nil _ _

theorem rstrip_append_space (t : Text) :
    ∃ r : Text, t.rstrip ++ r = t ∧ ∀ c ∈ r, isSpace c = true := by
  refine ⟨(t.reverse.takeWhile isSpace).reverse, ?_, ?_⟩
  · rw [rstrip_eq_reverse, ← reverse_append, lstrip, takeWhile_append_dropWhile, reverse_reverse]
  · intro c hc
    exact mem_takeWhile_imp (mem_reverse.mp hc)

theorem head?_lstrip (t : Text) : ∀ c ∈ t.lstrip.head?, isSpace c = false := by
  intro c hc
  have hhead := head?_dropWhile_not isSpace t
  rw [lstrip, Option.mem_def] at hc
  rw [hc] at hhead
  exact hhead

theorem getLast?_rstrip (t : Text) : ∀ c ∈ t.rstrip.getLast?, isSpace c = false := by
  intro c hc
  rw [rstrip_eq_reverse, getLast?_reverse] at hc
  exact head?_lstrip _ c hc

theorem stripped_strip (t : Text) : Stripped t.strip := by
  refine ⟨?_, getLast?_rstrip _⟩
  rcases blank_or_first t with hblank | ⟨x, c, y, rfl, hc, hx⟩
  · rw [strip_eq_nil_iff.mpr hblank]
    simp
  · rw [strip_of_first hx hc]
    simpa using hc

theorem stripped_iff : Stripped t ↔ t.strip = t := by
  refine ⟨fun h => h.strip, fun h => ?_⟩
  rw [← h]
  exact stripped_strip t

theorem Stripped.append_cons {y : Text} (hx : Stripped x) (hy : Stripped y) (hc : isSpace c = false) :
    Stripped (x ++ c :: y) := by
  rw [stripped_iff, strip_append_cons _ hc, hx.lstrip, hy.rstrip]

theorem stripped_append {w : Text} (ht : t ≠ []) (hhead : ∀ c ∈ t.head?, isSpace c = false)
    (hw : w ≠ []) (hlast : ∀ c ∈ w.getLast?, isSpace c = false) : Stripped (t ++ w) := by
  refine ⟨fun c hc => ?_, fun c hc => ?_⟩
  · rw [head?_append_of_ne_nil _ ht] at hc
    exact hhead c hc
  · rw [getLast?_append_of_ne_nil _ hw] at hc
    exact hlast c hc

theorem infix_strip {u : Text} (hu : Stripped u) (h : u <:+: t) : u <:+: t.strip := by
  have hlstrip : ∀ {u t : Text}, (∀ c ∈ u.head?, isSpace c = false) → u <:+: t →
      u <:+: t.lstrip := by
    rintro u t hhead ⟨x, y, rfl⟩
    cases u with
    | nil => exact nil_infix
    | cons c u =>
      rw [List.append_assoc, List.cons_append, lstrip_append_cons x (hhead c rfl),
        ← List.cons_append, ← List.append_assoc]
      exact infix_append _ _ _
  have hhead : ∀ c ∈ u.reverse.head?, isSpace c = false := by
    rw [head?_reverse]
    exact hu.2
  rw [strip_eq, rstrip_eq_reverse, ← reverse_infix, reverse_reverse]
  exact hlstrip hhead ( reverse_infix.mpr (hlstrip hu.1 h))

theorem strip_strip (t : Text) : t.strip.strip = t.strip := (stripped_strip t).strip

theorem mem_of_mem_strip (h : c ∈ t.strip) : c ∈ t :=
  (dropWhile_sublist isSpace).subset (( rdropWhile_prefix isSpace _).subset h)

theorem mem_rstrip (hc : isSpace c = false) : c ∈ t.rstrip ↔ c ∈ t := by
  refine ⟨fun h => ( rdropWhile_prefix isSpace _).subset h, fun h => ?_⟩
  obtain ⟨x, y, rfl⟩ := append_of_mem h
  rw [rstrip_append_cons _ hc]
  simp

/-- Python's `str.partition`, without the separator itself. -/
def partition (sep : Char) (t : Text) : Text × Text :=
  (t.takeWhile (· != sep), (t.dropWhile (· != sep)).tail)

theorem partition_append_cons {sep : Char} (h : sep ∉ x) (y : Text) :
    partition sep (x ++ sep :: y) = (x, y) := by
  have hne : ∀ c ∈ x, (c != sep) = true := by
    intro c hc
    rw [bne_iff_ne]
    rintro rfl
    exact h hc
  rw [partition, takeWhile_append_of_pos hne, dropWhile_append_of_pos hne]
  simp

/-!
## Python's `str.splitlines`

More characters end a line than the line feed does. A reader that skips empty lines sees the
pieces between these characters.
-/

/-- A character at which `str.splitlines` ends a line. -/
def isLineBreak (c : Char) : Bool :=
  let n := c.toNat
  (0xA ≤ n && n ≤ 0xD) || (0x1C ≤ n && n ≤ 0x1E) || n == 0x85 || n == 0x2028 || n == 0x2029

/-- The lines of a text that goes on from the characters `rev`, in reverse order, of its first
line. -/
def splitLinesFrom (rev : Text) : Text → List Text
  | [] => if rev = [] then [] else [rev.reverse]
  | '\r' :: '\n' :: t => rev.reverse :: splitLinesFrom [] t
  | c :: t =>
    if isLineBreak c then rev.reverse :: splitLinesFrom [] t else splitLinesFrom (c :: rev) t

/-- `text.splitlines()`. -/
def splitLines (t : Text) : List Text := splitLinesFrom [] t

theorem splitLinesFrom_ne_nil {rev t : Text} (h : rev ≠ [] ∨ t ≠ []) : splitLinesFrom rev t ≠ [] := by
  induction rev, t using splitLinesFrom.induct with
  | case1 => simp at h
  | case2 rev hrev =>
    rw [splitLinesFrom, if_neg hrev]
    exact cons_ne_nil _ _
  | case3 rev t ih =>
    rw [splitLinesFrom]
    exact cons_ne_nil _ _
  | case4 rev c t hcr hbreak ih =>
    rw [splitLinesFrom.eq_3 _ _ _ hcr, if_pos hbreak]
    exact cons_ne_nil _ _
  | case5 rev c t hcr hbreak ih =>
    rw [splitLinesFrom.eq_3 _ _ _ hcr, if_neg hbreak]
    exact ih (.inl (cons_ne_nil _ _))

/-- A text that is not empty has a line. -/
theorem splitLines_ne_nil {t : Text} (h : t ≠ []) : splitLines t ≠ [] :=
  splitLinesFrom_ne_nil (.inr h)

theorem filterMap_splitLinesFrom {β : Type} {g : Text → Option β} (hg : g [] = none)
    (rev t : Text) : (splitLinesFrom rev t).filterMap g =
      (List.splitOnPPrepend isLineBreak t rev).filterMap g := by
  induction rev, t using splitLinesFrom.induct with
  | case1 => simp [splitLinesFrom, hg]
  | case2 rev hrev => simp [splitLinesFrom, hrev]
  | case3 rev t ih =>
    rw [splitLinesFrom, splitOnPPrepend_cons_pos (by decide), ← splitOnPPrepend_nil_right,
      splitOnPPrepend_cons_pos (by decide), filterMap_cons, ih, filterMap_cons, filterMap_cons,
      reverse_nil, hg, splitOnPPrepend_nil_right]
  | case4 rev c t hcr hbreak ih =>
    rw [splitLinesFrom.eq_3 _ _ _ hcr, if_pos hbreak, splitOnPPrepend_cons_pos hbreak,
      filterMap_cons, ih, filterMap_cons, splitOnPPrepend_nil_right]
  | case5 rev c t hcr hbreak ih =>
    rw [splitLinesFrom.eq_3 _ _ _ hcr, if_neg hbreak, ih,
      splitOnPPrepend_cons_neg (by simpa using hbreak)]

/-- What a reader that skips empty lines finds on the lines of a text. -/
theorem filterMap_splitLines {β : Type} {g : Text → Option β} (hg : g [] = none) (t : Text) :
    (splitLines t).filterMap g = (t.splitOnP isLineBreak).filterMap g := by
  rw [splitLines, filterMap_splitLinesFrom hg, splitOnPPrepend_nil_right]

end Text

end Misc

/-!
## Lines with content

The lines of a text that are not blank, trimmed. Trimming the text leaves them alone, and
joining texts by line breaks joins them.
-/

namespace Misc.Text

open List

/-- The lines with content among `ls`, trimmed. -/
def contentOf (ls : List Text) : List Text := (ls.map trim).filter fun l => !l.isEmpty

/-- The lines of `t` with content, trimmed. -/
def contentLines (t : Text) : List Text := contentOf t.lines

@[simp] theorem contentOf_append (xs ys : List Text) :
    contentOf (xs ++ ys) = contentOf xs ++ contentOf ys := by
  simp [contentOf]

theorem contentOf_cons (l : Text) (ls : List Text) :
    contentOf (l :: ls) = contentOf [l] ++ contentOf ls :=
  contentOf_append [l] ls

theorem contentOf_eq_nil_iff {ls : List Text} : contentOf ls = [] ↔ ∀ l ∈ ls, Text.trim l = [] := by
  simp [contentOf, filter_eq_nil_iff]

variable {ws : Text}

theorem trim_append_blank (hws : ∀ c ∈ ws, isWhitespace c = true) (t : Text) :
    trim (t ++ ws) = trim t := by
  have hend : ∀ s : Text, trimEnd (s ++ ws) = trimEnd s := by
    intro s
    have hrev : ∀ c ∈ ws.reverse, isWhitespace c = true := by simpa using hws
    simp only [trimEnd, List.rdropWhile, reverse_append]
    rw [dropWhile_append_of_pos hrev]
  rw [trim, trim, trimStart, trimStart, dropWhile_append]
  split
  · rename_i hblank
    rw [List.isEmpty_iff] at hblank
    have hnil : ws.dropWhile isWhitespace = [] := dropWhile_eq_nil_iff.mpr hws
    rw [hblank, hnil]
  · rw [hend]

theorem trim_blank_append (hws : ∀ c ∈ ws, isWhitespace c = true) (t : Text) :
    trim (ws ++ t) = trim t := by
  rw [trim, trim, trimStart, trimStart, dropWhile_append_of_pos hws]

theorem exists_blanks (t : Text) : ∃ before after, t = before ++ t.trim ++ after ∧
    (∀ c ∈ before, isWhitespace c = true) ∧ ∀ c ∈ after, isWhitespace c = true := by
  refine ⟨t.takeWhile isWhitespace, t.trimStart.rtakeWhile isWhitespace, ?_, ?_, ?_⟩
  · rw [trim, trimEnd, List.append_assoc, rdropWhile_append_rtakeWhile, trimStart,
      takeWhile_append_dropWhile]
  · exact fun c hc => mem_takeWhile_imp hc
  · exact fun c hc => mem_rtakeWhile_imp hc

theorem contentOf_stripCr (ls : List Text) : contentOf (ls.map stripCr) = contentOf ls := by
  have htrim : ∀ l : Text, trim (stripCr l) = trim l := by
    intro l
    rw [stripCr]
    split
    · rename_i hlast
      obtain ⟨s, rfl⟩ := getLast?_eq_some_iff.mp hlast
      rw [dropLast_concat, trim_append_blank (forall_of_all rfl)]
    · rfl
  rw [contentOf, contentOf, List.map_map]
  congr 1
  exact map_congr_left fun l _ => htrim l

theorem contentLines_eq (t : Text) : contentLines t = contentOf (t.splitOn '\n') := by
  have hne := splitOn_ne_nil '\n' t
  simp only [contentLines, lines]
  rw [contentOf_append, contentOf_stripCr]
  generalize t.splitOn '\n' = pieces at hne ⊢
  obtain ⟨init, last, rfl⟩ : ∃ init last, pieces = init ++ [last] :=
    ⟨_, _, (dropLast_append_getLast hne).symm⟩
  rw [dropLast_concat, getLast?_concat, contentOf_append]
  cases last with
  | nil => rfl
  | cons c last => rfl

theorem contentLines_append_newline (s t : Text) :
    contentLines (s ++ '\n' :: t) = contentLines s ++ contentLines t := by
  rw [contentLines_eq, contentLines_eq, contentLines_eq, splitOn_append_cons_self, contentOf_append]

variable {t : Text}

theorem contentLines_of_notMem (h : '\n' ∉ t) : contentLines t = contentOf [t] := by
  rw [contentLines_eq, splitOn_eq_singleton h]

theorem lines_induction {P : Text → Prop} (hlast : ∀ t, '\n' ∉ t → P t)
    (hline : ∀ l t, '\n' ∉ l → P t → P (l ++ '\n' :: t)) (t : Text) : P t := by
  induction hn : t.length using Nat.strong_induction_on generalizing t with
  | h n ih =>
    by_cases hnl : '\n' ∈ t
    · obtain ⟨l, rest, rfl, hl⟩ := eq_append_cons_of_mem hnl
      refine hline l rest hl (ih rest.length ?_ rest rfl)
      rw [length_append, length_cons] at hn
      omega
    · exact hlast t hnl

theorem contentLines_blank (h : ∀ c ∈ t, isWhitespace c = true) : contentLines t = [] := by
  induction t using lines_induction with
  | hlast t hnl =>
    rw [contentLines_of_notMem hnl, contentOf_eq_nil_iff, forall_mem_singleton, trim_eq_nil_iff]
    exact h
  | hline l t hl ih =>
    rw [forall_mem_append, forall_mem_cons] at h
    rw [contentLines_append_newline, ih h.2.2, contentLines_of_notMem hl, List.append_nil,
      contentOf_eq_nil_iff, forall_mem_singleton, trim_eq_nil_iff]
    exact h.1

theorem contentLines_append_blank (hws : ∀ c ∈ ws, isWhitespace c = true) (t : Text) :
    contentLines (t ++ ws) = contentLines t := by
  induction t using lines_induction with
  | hlast t hnl =>
    -- the blanks up to their first line break belong to the last line
    induction ws using lines_induction with
    | hlast ws hnl' =>
      have hboth : '\n' ∉ t ++ ws := by simp [hnl, hnl']
      rw [contentLines_of_notMem hboth, contentLines_of_notMem hnl, contentOf, contentOf,
        map_singleton, map_singleton, trim_append_blank hws]
    | hline l ws hl _ =>
      rw [forall_mem_append, forall_mem_cons] at hws
      have hboth : '\n' ∉ t ++ l := by simp [hnl, hl]
      rw [← List.append_assoc, contentLines_append_newline, contentLines_blank hws.2.2,
        List.append_nil, contentLines_of_notMem hboth, contentLines_of_notMem hnl, contentOf,
        contentOf, map_singleton, map_singleton, trim_append_blank hws.1]
  | hline l t _ ih =>
    rw [List.append_assoc, List.cons_append, contentLines_append_newline, ih,
      contentLines_append_newline]

theorem contentLines_blank_append (hws : ∀ c ∈ ws, isWhitespace c = true) (t : Text) :
    contentLines (ws ++ t) = contentLines t := by
  induction ws using lines_induction with
  | hlast ws hnl' =>
    by_cases hnl : '\n' ∈ t
    · obtain ⟨l, rest, rfl, hl⟩ := eq_append_cons_of_mem hnl
      have hboth : '\n' ∉ ws ++ l := by simp [hnl', hl]
      rw [← List.append_assoc, contentLines_append_newline, contentLines_append_newline,
        contentLines_of_notMem hboth, contentLines_of_notMem hl, contentOf, contentOf,
        map_singleton, map_singleton, trim_blank_append hws]
    · have hboth : '\n' ∉ ws ++ t := by simp [hnl', hnl]
      rw [contentLines_of_notMem hboth, contentLines_of_notMem hnl, contentOf, contentOf,
        map_singleton, map_singleton, trim_blank_append hws]
  | hline l ws _ ih =>
    rw [forall_mem_append, forall_mem_cons] at hws
    rw [List.append_assoc, List.cons_append, contentLines_append_newline,
      contentLines_blank hws.1, ih hws.2.2, nil_append]

theorem contentLines_trim (t : Text) : contentLines t.trim = contentLines t := by
  obtain ⟨before, after, ht, hbefore, hafter⟩ := exists_blanks t
  have h := contentLines_append_blank hafter (before ++ t.trim)
  rw [← ht, contentLines_blank_append hbefore] at h
  exact h.symm

theorem contentLines_joinLines {ls : List Text} (h : ∀ l ∈ ls, '\n' ∉ l) :
    contentLines (joinLines ls) = contentOf ls := by
  rw [contentLines_eq, joinLines, join]
  cases ls with
  | nil => rfl
  | cons l ls => rw [splitOn_intercalate '\n' h (cons_ne_nil _ _)]

/-- Parts that are joined by a blank line keep their lines. -/
theorem contentLines_join (parts : List Text) :
    contentLines (join "\n\n" parts) = parts.flatMap contentLines := by
  have hsep : "\n\n" = ['\n', '\n'] := by decide
  rw [hsep]
  induction parts with
  | nil => rfl
  | cons part rest ih =>
    cases rest with
    | nil => simp [join, List.intercalate]
    | cons next rest =>
      have hjoin : join ['\n', '\n'] (part :: next :: rest) =
          part ++ '\n' :: ([] ++ '\n' :: join ['\n', '\n'] (next :: rest)) := by
        simp [join, List.intercalate]
      have hnil : contentLines [] = [] := rfl
      rw [hjoin, contentLines_append_newline, contentLines_append_newline, ih, hnil,
        nil_append, flatMap_cons, flatMap_cons, flatMap_cons]

theorem notMem_splitOn (sep : Char) (t : Text) : ∀ piece ∈ t.splitOn sep, sep ∉ piece := by
  induction t with
  | nil => simp
  | cons c t ih =>
    rw [splitOn_cons_eq_if_modifyHead]
    split
    · rw [forall_mem_cons]
      exact ⟨not_mem_nil, ih⟩
    rename_i hc
    cases hsplit : t.splitOn sep with
    | nil => exact absurd hsplit (splitOn_ne_nil sep t)
    | cons piece pieces =>
      rw [hsplit, forall_mem_cons] at ih
      rw [modifyHead_cons, forall_mem_cons, mem_cons, not_or]
      exact ⟨⟨fun heq => hc (by rw [heq]; exact beq_self_eq_true c), ih.1⟩, ih.2⟩

theorem newline_notMem_splitOn (t : Text) : ∀ piece ∈ t.splitOn '\n', '\n' ∉ piece :=
  notMem_splitOn '\n' t

theorem newline_notMem_lines {l : Text} (h : l ∈ t.lines) : '\n' ∉ l := by
  have hpieces := newline_notMem_splitOn t
  simp only [lines, mem_append, mem_map, Option.mem_toList, Option.filter_eq_some_iff] at h
  rcases h with ⟨piece, hpiece, rfl⟩ | ⟨hlast, -⟩
  · have hnot := hpieces piece (dropLast_subset _ hpiece)
    rw [stripCr]
    split
    · exact fun hmem => hnot (dropLast_subset _ hmem)
    · exact hnot
  · exact hpieces l (mem_of_getLast? hlast)

end Misc.Text
