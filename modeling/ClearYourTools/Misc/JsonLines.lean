import ClearYourTools.Misc.JsonRoundTrip

/-!
# JSON texts on lines

A written value escapes every control character, so the only characters at which
`str.splitlines` can break its text are `U+0085`, `U+2028` and `U+2029` inside a string.
-/

namespace Misc

open List Option
open Bool (or_eq_true and_eq_true not_eq_true)

namespace Json

open Text (isLineBreak forall_not_of_any strip)

variable {φ : Type} {f : FloatFormat φ}

/-- A line break that `json.dumps` does not escape. -/
def isBareBreak (c : Char) : Bool := c.toNat == 0x85 || c.toNat == 0x2028 || c.toNat == 0x2029

/-- A text without bare line breaks. -/
def Unbroken (s : Text) : Prop := ∀ c ∈ s, isBareBreak c = false

variable {c : Char}

theorem isLineBreak_of_isBareBreak (h : isBareBreak c = true) : isLineBreak c = true := by
  simp only [isBareBreak, or_eq_true, beq_iff_eq] at h
  simp only [isLineBreak, or_eq_true, beq_iff_eq]
  tauto

theorem isAtomChar_eq (c : Char) : isAtomChar c = (decide ('A'.val ≤ c.val ∧ c.val ≤ 'Z'.val) ||
      decide ('a'.val ≤ c.val) && decide (c.val ≤ 'z'.val) || c.isDigit ||
      c == '+' || c == '-' || c == '.') := rfl

theorem isAtomChar_range (h : isAtomChar c = true) : 0x2B ≤ c.toNat ∧ c.toNat ≤ 0x7A := by
  simp only [isAtomChar_eq, Char.isDigit, or_eq_true, and_eq_true,
    decide_eq_true_eq, beq_iff_eq] at h
  rcases h with ((((h | h) | h) | rfl) | rfl) | rfl
  iterate 3
    exact ⟨Nat.le_trans (by decide) (UInt32.le_iff_toNat_le.mp h.1),
      Nat.le_trans (UInt32.le_iff_toNat_le.mp h.2) (by decide)⟩
  all_goals decide

theorem not_isLineBreak_of_isAtomChar (h : isAtomChar c = true) : isLineBreak c = false := by
  rw [← not_eq_true]
  intro hbreak
  have hrange := isAtomChar_range h
  simp only [isLineBreak, or_eq_true, and_eq_true, decide_eq_true_eq, beq_iff_eq] at hbreak
  omega

theorem not_isAtomChar_of_isSpace (h : isSpace c = true) : isAtomChar c = false := by
  rw [← not_eq_true]
  intro hatom
  have hrange := isAtomChar_range hatom
  simp only [isSpace, isWhitespace, or_eq_true, and_eq_true, decide_eq_true_eq, beq_iff_eq] at h
  omega

/-- A hexadecimal digit may stand in a literal. -/
theorem hexValue_eq_none (h : isAtomChar c = false) : hexValue c = none := by
  have hdigit : c.isDigit = false := by
    rw [← not_eq_true]
    intro hdigit
    rw [isAtomChar_of_isDigit hdigit] at h
    cases h
  simp only [isAtomChar_eq, Bool.or_eq_false_iff, Bool.and_eq_false_iff,
    decide_eq_false_iff_not] at h
  have hlower : ¬ ('a'.toNat ≤ c.toNat ∧ c.toNat ≤ 'f'.toNat) := by
    rintro ⟨ha, hf⟩
    rcases h.1.1.1.1.2 with hle | hle
    · exact hle (UInt32.le_iff_toNat_le.mpr ha)
    · exact hle (UInt32.le_iff_toNat_le.mpr (Nat.le_trans hf (by decide)))
  have hupper : ¬ ('A'.toNat ≤ c.toNat ∧ c.toNat ≤ 'F'.toNat) := by
    rintro ⟨ha, hf⟩
    exact h.1.1.1.1.1 ⟨UInt32.le_iff_toNat_le.mpr ha,
      UInt32.le_iff_toNat_le.mpr (Nat.le_trans hf (by decide))⟩
  rw [hexValue, hdigit, if_neg (by simp), if_neg hlower, if_neg hupper]

theorem digitChar_not_break {n : ℕ} (hn : n < 16) : isLineBreak (Nat.digitChar n) = false := by
  have hall : ∀ n < 16, isLineBreak (Nat.digitChar n) = false := by decide
  exact hall n hn

theorem uEscape_not_break {n : ℕ} (hn : n < 0x10000) : ∀ c ∈ uEscape n, isLineBreak c = false := by
  intro c hc
  simp only [uEscape, mem_cons, not_mem_nil, or_false] at hc
  rcases hc with rfl | rfl | rfl | rfl | rfl | rfl
  · rfl
  · rfl
  all_goals exact digitChar_not_break (by omega)

variable {ascii : Bool}

theorem break_mem_escapeChar {d : Char} (hd : d ∈ escapeChar ascii c)
    (hbreak : isLineBreak d = true) : d = c ∧ ascii = false ∧ isBareBreak c = true := by
  have hnot : ∀ t : Text, (∀ e ∈ t, isLineBreak e = false) → d ∉ t := by
    intro t ht hmem
    rw [ht d hmem] at hbreak
    cases hbreak
  have hlt := toNat_lt c
  unfold escapeChar at hd
  iterate 7
    split at hd
    · exact absurd hd (hnot _ (forall_not_of_any rfl))
  split at hd
  · exact absurd hd (hnot _ (uEscape_not_break (by omega)))
  split at hd
  · split at hd
    · exact absurd hd (hnot _ (uEscape_not_break (by assumption)))
    · rcases mem_append.mp hd with hd | hd
      · exact absurd hd (hnot _ (uEscape_not_break (by omega)))
      · exact absurd hd (hnot _ (uEscape_not_break (by omega)))
  · rename_i hctrl hascii
    obtain rfl := mem_singleton.mp hd
    simp only [isLineBreak, or_eq_true, and_eq_true, decide_eq_true_eq, beq_iff_eq] at hbreak
    refine ⟨rfl, ?_, ?_⟩
    · cases ascii with
      | false => rfl
      | true => exact absurd ⟨rfl, by omega⟩ hascii
    · simp only [isBareBreak, or_eq_true, beq_iff_eq]
      omega

/-- A line break in a quoted string is a bare break of the string. -/
theorem break_mem_quote {s : Text} {d : Char} (hd : d ∈ quote ascii s)
    (hbreak : isLineBreak d = true) : ascii = false ∧ d ∈ s ∧ isBareBreak d = true := by
  simp only [quote, mem_cons, mem_append, mem_flatMap, not_mem_nil, or_false] at hd
  rcases hd with rfl | ⟨c, hc, hd⟩ | rfl
  · exact absurd hbreak (by decide)
  · obtain ⟨rfl, hascii, hbare⟩ := break_mem_escapeChar hd hbreak
    exact ⟨hascii, hc, hbare⟩
  · exact absurd hbreak (by decide)

/-- A line break in a written value is a bare break of one of its strings. -/
def BreaksIn (ascii : Bool) (t : Text) (ss : List Text) : Prop :=
  ∀ d ∈ t, isLineBreak d = true → ascii = false ∧ isBareBreak d = true ∧ ∃ s ∈ ss, d ∈ s

variable {t : Text}

theorem BreaksIn.of_plain (h : ∀ c ∈ t, isLineBreak c = false) (ss : List Text) :
    BreaksIn ascii t ss := by
  intro d hd hbreak
  rw [h d hd] at hbreak
  cases hbreak

variable {ss : List Text}

theorem BreaksIn.append {u : Text} {ts : List Text} (ht : BreaksIn ascii t ss)
    (hu : BreaksIn ascii u ts) : BreaksIn ascii (t ++ u) (ss ++ ts) := by
  intro d hd hbreak
  rcases mem_append.mp hd with hd | hd
  · obtain ⟨hascii, hbare, s, hs, hmem⟩ := ht d hd hbreak
    exact ⟨hascii, hbare, s, mem_append_left _ hs, hmem⟩
  · obtain ⟨hascii, hbare, s, hs, hmem⟩ := hu d hd hbreak
    exact ⟨hascii, hbare, s, mem_append_right _ hs, hmem⟩

theorem BreaksIn.cons {ascii : Bool} {c : Char} {t : Text} {ss : List Text}
    (hc : isLineBreak c = false) (ht : BreaksIn ascii t ss) : BreaksIn ascii (c :: t) ss := by
  intro d hd hbreak
  rcases mem_cons.mp hd with rfl | hd
  · rw [hc] at hbreak
    cases hbreak
  · exact ht d hd hbreak

theorem breaksIn_quote (ascii : Bool) (s : Text) : BreaksIn ascii (quote ascii s) [s] := by
  intro d hd hbreak
  obtain ⟨hascii, hmem, hbare⟩ := break_mem_quote hd hbreak
  exact ⟨hascii, hbare, s, by simp, hmem⟩

theorem breaksIn_dumpsItems {vs : List (Json φ)}
    (hvs : ∀ v ∈ vs, BreaksIn ascii (dumps f ascii v) v.strings) :
    BreaksIn ascii (dumpsItems f ascii vs) (stringsItems vs) := by
  induction vs with
  | nil => exact .of_plain (t := [']']) (forall_not_of_any rfl) _
  | cons v vs ih =>
    exact .cons rfl ((hvs v mem_cons_self).append (ih fun w hw => hvs w (mem_cons_of_mem _ hw)))

theorem breaksIn_member {k : Text} {v : Json φ} (hv : BreaksIn ascii (dumps f ascii v) v.strings)
    (ht : BreaksIn ascii t ss) :
    BreaksIn ascii (quote ascii k ++ ':' :: (dumps f ascii v ++ t)) (k :: (v.strings ++ ss)) :=
  (breaksIn_quote ascii k).append (.cons rfl (hv.append ht))

variable {kvs : List (Text × Json φ)}

theorem breaksIn_dumpsFields (hkvs : ∀ kv ∈ kvs, BreaksIn ascii (dumps f ascii kv.2) kv.2.strings) :
    BreaksIn ascii (dumpsFields f ascii kvs) (stringsFields kvs) := by
  induction kvs with
  | nil => exact .of_plain (t := ['}']) (forall_not_of_any rfl) _
  | cons kv kvs ih =>
    obtain ⟨k, v⟩ := kv
    exact .cons rfl (breaksIn_member (hkvs (k, v) mem_cons_self)
      (ih fun w hw => hkvs w (mem_cons_of_mem _ hw)))

theorem breaksIn_dumps (hf : f.Lawful) (ascii : Bool) (v : Json φ) :
    BreaksIn ascii (dumps f ascii v) v.strings := by
  induction v with
  | null => exact .of_plain (t := nullWord) (forall_not_of_any rfl) _
  | bool b =>
    cases b with
    | true => exact .of_plain (t := trueWord) (forall_not_of_any rfl) _
    | false => exact .of_plain (t := falseWord) (forall_not_of_any rfl) _
  | int n =>
    exact .of_plain (fun c hc => not_isLineBreak_of_isAtomChar (isAtomChar_of_mem_ofInt hc)) _
  | float x => exact .of_plain (fun c hc => not_isLineBreak_of_isAtomChar (hf.atom x c hc)) _
  | str s => exact breaksIn_quote ascii s
  | arr items ih =>
    cases items with
    | nil => exact .of_plain (t := ['[', ']']) (forall_not_of_any rfl) _
    | cons v vs =>
      exact .cons rfl ((ih v mem_cons_self).append
        (breaksIn_dumpsItems fun w hw => ih w (mem_cons_of_mem _ hw)))
  | obj fields ih =>
    cases fields with
    | nil => exact .of_plain (t := ['{', '}']) (forall_not_of_any rfl) _
    | cons kv kvs =>
      obtain ⟨k, v⟩ := kv
      exact .cons rfl (breaksIn_member (ih (k, v) mem_cons_self)
        (breaksIn_dumpsFields fun w hw => ih w (mem_cons_of_mem _ hw)))

theorem dumps_obj_head (f : FloatFormat φ) (ascii : Bool) (fields : List (Text × Json φ)) :
    ∃ rest, dumps f ascii (.obj fields) = '{' :: rest := by
  cases fields with
  | nil => exact ⟨['}'], rfl⟩
  | cons kv kvs => exact ⟨_, rfl⟩

theorem dumpsFields_end (f : FloatFormat φ) (ascii : Bool) (kvs : List (Text × Json φ)) :
    ∃ t, dumpsFields f ascii kvs = t ++ ['}'] := by
  induction kvs with
  | nil => exact ⟨[], rfl⟩
  | cons kv kvs ih =>
    obtain ⟨k, v⟩ := kv
    obtain ⟨t, ht⟩ := ih
    exact ⟨',' :: (quote ascii k ++ ':' :: (dumps f ascii v ++ t)), by
      rw [dumpsFields, ht]
      simp⟩

theorem dumps_obj_end (f : FloatFormat φ) (ascii : Bool) (fields : List (Text × Json φ)) :
    ∃ t, dumps f ascii (.obj fields) = t ++ ['}'] := by
  cases fields with
  | nil => exact ⟨['{'], rfl⟩
  | cons kv kvs =>
    obtain ⟨k, v⟩ := kv
    obtain ⟨t, ht⟩ := dumpsFields_end f ascii kvs
    exact ⟨'{' :: (quote ascii k ++ ':' :: (dumps f ascii v ++ t)), by
      rw [dumps, ht]
      simp⟩

theorem stripped_dumps_obj (f : FloatFormat φ) (ascii : Bool) (fields : List (Text × Json φ)) :
    Text.Stripped (dumps f ascii (.obj fields)) := by
  refine ⟨?_, ?_⟩
  · obtain ⟨rest, hrest⟩ := dumps_obj_head f ascii fields
    intro c hc
    rw [hrest] at hc
    obtain rfl := Option.some.inj hc
    rfl
  · obtain ⟨t, ht⟩ := dumps_obj_end f ascii fields
    intro c hc
    rw [ht, getLast?_concat] at hc
    obtain rfl := Option.some.inj hc
    rfl

theorem mem_escaped_of_bareBreak {s : Text} (hc : c ∈ s) (hbare : isBareBreak c = true) :
    c ∈ quote false s := by
  have hescape : escapeChar false c = [c] := by
    simp only [isBareBreak, or_eq_true, beq_iff_eq] at hbare
    have hne : ∀ d : Char, d.toNat < 0x80 → c ≠ d := by
      rintro d hd rfl
      omega
    rw [escapeChar, if_neg (hne _ (by decide)), if_neg (hne _ (by decide)),
      if_neg (hne _ (by decide)), if_neg (hne _ (by decide)), if_neg (hne _ (by decide)),
      if_neg (by omega), if_neg (by omega), if_neg (by omega), if_neg (by simp)]
  have hmem : c ∈ s.flatMap (escapeChar false) :=
    mem_flatMap.mpr ⟨c, hc, by rw [hescape]; exact mem_singleton_self c⟩
  exact mem_cons_of_mem _ (mem_append_left _ hmem)

variable {f : FloatFormat φ}

theorem mem_dumpsItems_of_bareBreak {vs : List (Json φ)}
    (hvs : ∀ v ∈ vs, ∀ s ∈ v.strings, c ∈ s → c ∈ dumps f false v) :
    ∀ s ∈ stringsItems vs, c ∈ s → c ∈ dumpsItems f false vs := by
  induction vs with
  | nil => exact fun s hs => by cases hs
  | cons v vs ih =>
    intro s hs hc
    rw [dumpsItems]
    rcases mem_append.mp hs with hs | hs
    · simp [hvs v mem_cons_self s hs hc]
    · simp [ih (fun w hw => hvs w (mem_cons_of_mem _ hw)) s hs hc]

theorem mem_member_of_bareBreak {k : Text} {v : Json φ} (hbare : isBareBreak c = true)
    (hv : ∀ s ∈ v.strings, c ∈ s → c ∈ dumps f false v) (ht : ∀ s ∈ ss, c ∈ s → c ∈ t) :
    ∀ s ∈ k :: (v.strings ++ ss), c ∈ s → c ∈ quote false k ++ ':' :: (dumps f false v ++ t) := by
  intro s hs hc
  rcases mem_cons.mp hs with rfl | hs
  · exact mem_append_left _ (mem_escaped_of_bareBreak hc hbare)
  rcases mem_append.mp hs with hs | hs
  · simp [hv s hs hc]
  · simp [ht s hs hc]

theorem mem_dumpsFields_of_bareBreak (hbare : isBareBreak c = true)
    (hkvs : ∀ kv ∈ kvs, ∀ s ∈ kv.2.strings, c ∈ s → c ∈ dumps f false kv.2) :
    ∀ s ∈ stringsFields kvs, c ∈ s → c ∈ dumpsFields f false kvs := by
  induction kvs with
  | nil => exact fun s hs => by cases hs
  | cons kv kvs ih =>
    obtain ⟨k, v⟩ := kv
    intro s hs hc
    exact mem_cons_of_mem _ (mem_member_of_bareBreak hbare (hkvs (k, v) mem_cons_self)
      (ih fun w hw => hkvs w (mem_cons_of_mem _ hw)) s hs hc)

theorem mem_dumps_of_bareBreak (f : FloatFormat φ) (v : Json φ) (hbare : isBareBreak c = true) :
    ∀ s ∈ v.strings, c ∈ s → c ∈ dumps f false v := by
  induction v with
  | null | bool | int | float => exact fun s hs => by cases hs
  | str s =>
    intro s' hs' hc
    obtain rfl := mem_singleton.mp hs'
    exact mem_escaped_of_bareBreak hc hbare
  | arr items ih =>
    cases items with
    | nil => exact fun s hs => by cases hs
    | cons v vs =>
      intro s hs hc
      rw [dumps]
      rcases mem_append.mp hs with hs | hs
      · simp [ih v mem_cons_self s hs hc]
      · simp [mem_dumpsItems_of_bareBreak (fun w hw => ih w (mem_cons_of_mem _ hw)) s hs hc]
  | obj fields ih =>
    cases fields with
    | nil => exact fun s hs => by cases hs
    | cons kv kvs =>
      obtain ⟨k, v⟩ := kv
      intro s hs hc
      exact mem_cons_of_mem _ (mem_member_of_bareBreak hbare (ih (k, v) mem_cons_self)
        (mem_dumpsFields_of_bareBreak hbare fun w hw => ih w (mem_cons_of_mem _ hw)) s hs hc)

/-!
## Pieces of a written value

The text of a value cut at the line breaks inside its strings. The first piece ends inside a
string, so it scans to nothing. A later piece starts inside a string, so it takes the text
between the strings for strings and the other way round.
-/

/-- Every string token satisfies `P`. -/
def TokenStrings (P : Text → Prop) (t : Token) : Prop := ∀ s, t = .str s → P s

/-- Every string of the value satisfies `P`. -/
def Strings (P : Text → Prop) (v : Json φ) : Prop := ∀ s ∈ v.strings, P s

variable {P : Text → Prop}

theorem strings_arr {items : List (Json φ)} :
    Strings P (.arr items) ↔ ∀ v ∈ items, Strings P v := by
  simp only [Strings, strings]
  induction items with
  | nil => simp [stringsItems]
  | cons v vs ih => simp [stringsItems, or_imp, forall_and, ih]

theorem strings_obj {fields : List (Text × Json φ)} :
    Strings P (.obj fields) ↔ ∀ kv ∈ fields, P kv.1 ∧ Strings P kv.2 := by
  simp only [Strings, strings]
  induction fields with
  | nil => simp [stringsFields]
  | cons kv kvs ih =>
    obtain ⟨k, v⟩ := kv
    simp [stringsFields, or_imp, forall_and, ih]
    tauto

def FrameStrings (P : Text → Prop) : Frame φ → Prop
  | .items rev => ∀ v ∈ rev, Strings P v
  | .fields rev => ∀ kv ∈ rev, P kv.1 ∧ Strings P kv.2
  | .member rev k => P k ∧ ∀ kv ∈ rev, P kv.1 ∧ Strings P kv.2

def ExpectStrings (P : Text → Prop) : Expect φ → Prop
  | .colon k => P k
  | .after v => Strings P v
  | _ => True

def StateStrings (P : Text → Prop) (s : ParseState φ) : Prop :=
  (∀ fr ∈ s.1, FrameStrings P fr) ∧ ExpectStrings P s.2

variable {v : Json φ}

theorem frameStrings_items {rev : List (Json φ)} :
    FrameStrings P (.items (v :: rev)) ↔ Strings P v ∧ FrameStrings P (.items rev) :=
  forall_mem_cons

theorem frameStrings_fields {kv : Text × Json φ} {rev : List (Text × Json φ)} :
    FrameStrings P (.fields (kv :: rev) : Frame φ) ↔
      (P kv.1 ∧ Strings P kv.2) ∧ FrameStrings P (.fields rev : Frame φ) :=
  forall_mem_cons

theorem strings_ofAtom {a : Text} (h : ofAtom f a = some v) : Strings P v := by
  have hnone : v.strings = [] := by
    unfold ofAtom at h
    iterate 4
      split at h
      · obtain rfl := Option.some.inj h
        rfl
    · obtain ⟨x, -, rfl⟩ := map_eq_some_iff.mp h
      rfl
  intro s hs
  rw [hnone] at hs
  cases hs

variable {s' : ParseState φ}

theorem startValue_strings {stack : List (Frame φ)} {t : Token} (h : startValue f stack t = some s')
    (hstack : ∀ fr ∈ stack, FrameStrings P fr) (ht : TokenStrings P t) : StateStrings P s' := by
  cases t with
  | str s =>
    obtain rfl := Option.some.inj h
    refine ⟨hstack, ?_⟩
    intro s' hs'
    obtain rfl := mem_singleton.mp hs'
    exact ht _ rfl
  | atom a =>
    obtain ⟨v, hv, rfl⟩ := map_eq_some_iff.mp h
    exact ⟨hstack, strings_ofAtom hv⟩
  | lbracket =>
    obtain rfl := Option.some.inj h
    refine ⟨?_, trivial⟩
    intro fr hfr
    rcases mem_cons.mp hfr with rfl | hfr
    · intro v hv
      cases hv
    · exact hstack fr hfr
  | lbrace =>
    obtain rfl := Option.some.inj h
    refine ⟨?_, trivial⟩
    intro fr hfr
    rcases mem_cons.mp hfr with rfl | hfr
    · intro kv hkv
      cases hkv
    · exact hstack fr hfr
  | rbrace | rbracket | colon | comma => cases h

theorem mem_ofPairs {pairs : List (Text × Json φ)} {kv : Text × Json φ}
    (h : kv ∈ ofPairs pairs) : kv ∈ pairs := by
  have hset : ∀ (fields : List (Text × Json φ)) (k : Text) (v : Json φ) (x : Text × Json φ),
      x ∈ set fields k v → x = (k, v) ∨ x ∈ fields := by
    intro fields k v x hx
    induction fields with
    | nil => exact Or.inl (mem_singleton.mp hx)
    | cons e es ih =>
      rw [set, Dict.setEntries] at hx
      split at hx
      · rcases mem_cons.mp hx with rfl | hx
        · exact Or.inl rfl
        · exact Or.inr (mem_cons_of_mem _ hx)
      · rcases mem_cons.mp hx with rfl | hx
        · exact Or.inr mem_cons_self
        · rcases ih hx with rfl | hx
          · exact Or.inl rfl
          · exact Or.inr (mem_cons_of_mem _ hx)
  have hfold : ∀ (pairs fields : List (Text × Json φ)) (x : Text × Json φ),
      x ∈ pairs.foldl (fun fields kv => set fields kv.1 kv.2) fields → x ∈ pairs ∨ x ∈ fields := by
    intro pairs
    induction pairs with
    | nil => exact fun fields x hx => Or.inr hx
    | cons e es ih =>
      intro fields x hx
      rcases ih _ x hx with hx | hx
      · exact Or.inl (mem_cons_of_mem _ hx)
      · rcases hset _ _ _ _ hx with rfl | hx
        · exact Or.inl mem_cons_self
        · exact Or.inr hx
  exact (hfold pairs [] kv h).resolve_right not_mem_nil

/-- One token keeps the strings of the machine among those of the tokens. -/
theorem parseStep_strings {s : ParseState φ} {t : Token} (h : parseStep f s t = some s')
    (hs : StateStrings P s) (ht : TokenStrings P t) : StateStrings P s' := by
  obtain ⟨hstack, hexpect⟩ := hs
  unfold parseStep at h
  split at h
  · exact startValue_strings h hstack ht
  · obtain rfl := Option.some.inj h
    refine ⟨fun fr hfr => hstack fr (mem_cons_of_mem _ hfr), strings_arr.mpr ?_⟩
    intro v hv
    cases hv
  · exact startValue_strings h hstack ht
  · obtain rfl := Option.some.inj h
    refine ⟨fun fr hfr => hstack fr (mem_cons_of_mem _ hfr), strings_obj.mpr ?_⟩
    intro v hv
    cases hv
  · obtain rfl := Option.some.inj h
    exact ⟨hstack, ht _ rfl⟩
  · obtain rfl := Option.some.inj h
    exact ⟨hstack, ht _ rfl⟩
  · obtain rfl := Option.some.inj h
    obtain ⟨hfr, hstack⟩ := forall_mem_cons.mp hstack
    exact ⟨forall_mem_cons.mpr ⟨⟨hexpect, hfr⟩, hstack⟩, trivial⟩
  · obtain rfl := Option.some.inj h
    obtain ⟨hfr, hstack⟩ := forall_mem_cons.mp hstack
    exact ⟨forall_mem_cons.mpr ⟨frameStrings_items.mpr ⟨hexpect, hfr⟩, hstack⟩, trivial⟩
  · obtain rfl := Option.some.inj h
    obtain ⟨hfr, hstack⟩ := forall_mem_cons.mp hstack
    refine ⟨hstack, strings_arr.mpr ?_⟩
    intro v hv
    exact frameStrings_items.mpr ⟨hexpect, hfr⟩ v (mem_reverse.mp hv)
  · obtain rfl := Option.some.inj h
    obtain ⟨⟨hkey, hfr⟩, hstack⟩ := forall_mem_cons.mp hstack
    refine ⟨forall_mem_cons.mpr ⟨frameStrings_fields.mpr ⟨⟨hkey, ?_⟩, hfr⟩, hstack⟩, trivial⟩
    exact hexpect
  · obtain rfl := Option.some.inj h
    obtain ⟨⟨hkey, hfr⟩, hstack⟩ := forall_mem_cons.mp hstack
    refine ⟨hstack, strings_obj.mpr ?_⟩
    intro kv hkv
    rcases mem_cons.mp (mem_reverse.mp (mem_ofPairs hkv)) with rfl | hkv
    · exact ⟨hkey, hexpect⟩
    · exact hfr kv hkv
  · cases h

variable {ts : List Token}

theorem parseFrom_strings {s : ParseState φ} (h : parseFrom f s ts = some s')
    (hs : StateStrings P s) (hts : ∀ t ∈ ts, TokenStrings P t) : StateStrings P s' := by
  induction ts generalizing s with
  | nil =>
    obtain rfl := Option.some.inj h
    exact hs
  | cons t ts ih =>
    obtain ⟨s1, hstep, hrest⟩ := bind_eq_some_iff.mp h
    exact ih hrest (parseStep_strings hstep hs (hts t mem_cons_self))
      fun t ht => hts t (mem_cons_of_mem _ ht)

variable {t : Text}

/-- What is read has no other strings than its tokens. -/
theorem loads_strings (h : loads f t = some v)
    (ht : ∀ ts, tokens t = some ts → ∀ tok ∈ ts, TokenStrings P tok) : Strings P v := by
  obtain ⟨ts, hts, hrest⟩ := bind_eq_some_iff.mp h
  obtain ⟨s, hparse, hend⟩ := bind_eq_some_iff.mp hrest
  have hinit : StateStrings P (([], .value) : ParseState φ) := ⟨by simp, trivial⟩
  have hs := parseFrom_strings hparse hinit (ht ts hts)
  unfold parseEnd at hend
  split at hend
  · obtain rfl := Option.some.inj hend
    exact hs.2
  · cases hend

/-- The mode in which the scanner is after a text. -/
def advance : Mode → Text → Option Mode
  | m, [] => some m
  | m, c :: t => (lexStep m c).bind fun r => advance r.2 t

theorem advance_append (m : Mode) (a b : Text) :
    advance m (a ++ b) = (advance m a).bind fun m' => advance m' b := by
  induction a generalizing m with
  | nil => rfl
  | cons c a ih =>
    rw [List.cons_append, advance, advance]
    cases lexStep m c with
    | none => rfl
    | some r => exact ih r.2

variable {m : Mode}

/-- A text that scans takes the scanner to a mode that may end. -/
theorem lex_eq_some (h : lex m t = some ts) : ∃ m', advance m t = some m' ∧ lexEnd m' ≠ none := by
  induction t generalizing m ts with
  | nil => exact ⟨m, rfl, by rw [lex] at h; rw [h]; simp⟩
  | cons c t ih =>
    obtain ⟨r, hr, hrest⟩ := bind_eq_some_iff.mp h
    obtain ⟨us, hus, -⟩ := map_eq_some_iff.mp hrest
    obtain ⟨m', hm', hend⟩ := ih hus
    exact ⟨m', by rw [advance, hr]; exact hm', hend⟩

variable {c : Char}

theorem lexOutside_mode (h : lexOutside c = some (ts, m)) (hquote : c ≠ '"') :
    (m = .start ∨ ∃ a, m = .atom a) ∧ ∀ tok ∈ ts, ∀ s, tok ≠ .str s := by
  unfold lexOutside at h
  split at h
  · obtain ⟨rfl, rfl⟩ := Prod.mk.inj (Option.some.inj h)
    simp
  iterate 6
    split at h
    · obtain ⟨rfl, rfl⟩ := Prod.mk.inj (Option.some.inj h)
      simp
  split at h
  · obtain ⟨rfl, rfl⟩ := Prod.mk.inj (Option.some.inj h)
    simp
  · cases h

theorem lexOutside_eq_none (hc : isBareBreak c = true ∨ c = '\\') : lexOutside c = none := by
  rcases hc with hc | rfl
  · have hbreak := isLineBreak_of_isBareBreak hc
    have hne : ∀ d, isBareBreak d = false → c ≠ d := by
      rintro d hd rfl
      rw [hc] at hd
      cases hd
    have hspace : isJsonSpace c = false := by
      simp only [isJsonSpace, Bool.or_eq_false_iff, beq_eq_false_iff_ne]
      refine ⟨⟨⟨?_, ?_⟩, ?_⟩, ?_⟩ <;> exact hne _ (by decide)
    have hatom : isAtomChar c = false := by
      rw [← not_eq_true]
      intro hatom
      rw [not_isLineBreak_of_isAtomChar hatom] at hbreak
      cases hbreak
    rw [lexOutside, hspace, if_neg (by simp), if_neg (hne _ (by decide)),
      if_neg (hne _ (by decide)), if_neg (hne _ (by decide)), if_neg (hne _ (by decide)),
      if_neg (hne _ (by decide)), if_neg (hne _ (by decide)), if_neg (hne _ (by decide)), hatom,
      if_neg (by simp)]
  · rfl

variable {rev : Text}

theorem lexStep_str (h : lexStep (.str rev) c = some (ts, m)) :
    (c = '"' ∧ ts = [.str rev.reverse] ∧ m = .start) ∨
      (c = '\\' ∧ ts = [] ∧ m = .escape rev) ∨
      (c ≠ '"' ∧ c ≠ '\\' ∧ ts = [] ∧ m = .str (c :: rev)) := by
  rw [lexStep] at h
  split at h
  · obtain ⟨rfl, rfl⟩ := Prod.mk.inj (Option.some.inj h)
    exact Or.inl ⟨by assumption, rfl, rfl⟩
  split at h
  · obtain ⟨rfl, rfl⟩ := Prod.mk.inj (Option.some.inj h)
    exact Or.inr (Or.inl ⟨by assumption, rfl, rfl⟩)
  split at h
  · cases h
  · obtain ⟨rfl, rfl⟩ := Prod.mk.inj (Option.some.inj h)
    exact Or.inr (Or.inr ⟨by assumption, by assumption, rfl, rfl⟩)

variable {m' : Mode}

theorem lexStep_outside (hm : m = .start ∨ ∃ a, m = .atom a) (h : lexStep m c = some (ts, m')) :
    (c = '"' ∧ m' = .str [] ∧ ∀ tok ∈ ts, ∀ s, tok ≠ .str s) ∨
      (c ≠ '"' ∧ c ≠ '\\' ∧ isBareBreak c = false ∧ (m' = .start ∨ ∃ a, m' = .atom a) ∧
        ∀ tok ∈ ts, ∀ s, tok ≠ .str s) := by
  have hcase : (∃ a, m' = .atom a ∧ ts = [] ∧ isAtomChar c = true) ∨
      ∃ us, lexOutside c = some (us, m') ∧ ∀ tok ∈ ts, tok ∈ us ∨ ∃ a, tok = .atom a := by
    rcases hm with rfl | ⟨a, rfl⟩
    · exact Or.inr ⟨ts, h, fun tok htok => Or.inl htok⟩
    rw [lexStep] at h
    split at h
    · obtain ⟨rfl, rfl⟩ := Prod.mk.inj (Option.some.inj h)
      exact Or.inl ⟨_, rfl, rfl, by assumption⟩
    obtain ⟨⟨us, m1⟩, hus, heq⟩ := map_eq_some_iff.mp h
    obtain ⟨rfl, rfl⟩ := Prod.mk.inj heq
    refine Or.inr ⟨us, hus, ?_⟩
    intro tok htok
    rcases mem_cons.mp htok with rfl | htok
    · exact Or.inr ⟨_, rfl⟩
    · exact Or.inl htok
  rcases hcase with ⟨a, rfl, rfl, hatom⟩ | ⟨us, hus, hts⟩
  · right
    have hbare : isBareBreak c = false := by
      rw [← not_eq_true]
      intro hbare
      have hbreak := isLineBreak_of_isBareBreak hbare
      rw [not_isLineBreak_of_isAtomChar hatom] at hbreak
      cases hbreak
    exact ⟨ne_of_isAtomChar hatom (by decide), ne_of_isAtomChar hatom (by decide), hbare,
      Or.inr ⟨_, rfl⟩, by simp⟩
  · have hstrings : (∀ tok ∈ us, ∀ s, tok ≠ .str s) → ∀ tok ∈ ts, ∀ s, tok ≠ .str s := by
      intro hno tok htok s
      rcases hts tok htok with hmem | ⟨a, rfl⟩
      · exact hno tok hmem s
      · exact Token.noConfusion
    by_cases hquote : c = '"'
    · subst hquote
      obtain ⟨rfl, rfl⟩ := Prod.mk.inj (Option.some.inj hus)
      exact Or.inl ⟨rfl, rfl, hstrings (by simp)⟩
    obtain ⟨hmode, hno⟩ := lexOutside_mode hus hquote
    have hnone : ¬ (isBareBreak c = true ∨ c = '\\') := by
      intro hc
      rw [lexOutside_eq_none hc] at hus
      cases hus
    rw [not_or, not_eq_true] at hnone
    exact Or.inr ⟨hquote, hnone.2, hnone.1, hmode, hstrings hno⟩

theorem isSpace_of_isBareBreak (h : isBareBreak c = true) : isSpace c = true := by
  simp only [isBareBreak, or_eq_true, beq_iff_eq] at h
  simp only [isSpace, isWhitespace, or_eq_true, and_eq_true, decide_eq_true_eq, beq_iff_eq]
  omega

/-- No escape sequence has a space. -/
theorem lexStep_space (hc : isSpace c = true) (h : lexStep m c = some (ts, m')) :
    (m = .start ∨ ∃ a, m = .atom a) ∨ ∃ rev, m = .str rev := by
  have hne : ∀ d, isSpace d = false → c ≠ d := by
    rintro d hd rfl
    rw [hc] at hd
    cases hd
  cases m with
  | start => exact .inl (.inl rfl)
  | atom a => exact .inl (.inr ⟨a, rfl⟩)
  | str rev => exact .inr ⟨rev, rfl⟩
  | escape rev =>
    rw [lexStep, if_neg (hne _ (by decide)), unescape, if_neg (by
      rintro (rfl | rfl | rfl) <;> exact absurd hc (by decide)), if_neg (hne _ (by decide)),
      if_neg (hne _ (by decide)), if_neg (hne _ (by decide)), if_neg (hne _ (by decide)),
      if_neg (hne _ (by decide))] at h
    cases h
  | hex rev high value left =>
    rw [lexStep, hexValue_eq_none (not_isAtomChar_of_isSpace hc)] at h
    cases h
  | low rev high =>
    rw [lexStep, if_neg (hne _ (by decide))] at h
    cases h
  | lowEscape rev high =>
    rw [lexStep, if_neg (hne _ (by decide))] at h
    cases h

theorem lexStep_bareBreak (hc : isBareBreak c = true) (h : lexStep m c = some (ts, m')) :
    ∃ rev, m = .str rev ∧ m' = .str (c :: rev) := by
  rcases lexStep_space (isSpace_of_isBareBreak hc) h with hm | ⟨rev, rfl⟩
  · rcases lexStep_outside hm h with ⟨rfl, -, -⟩ | ⟨-, -, hbare, -, -⟩
    · exact absurd hc (by decide)
    · rw [hc] at hbare
      cases hbare
  · rcases lexStep_str h with ⟨rfl, -, -⟩ | ⟨rfl, -, -⟩ | ⟨-, -, -, rfl⟩
    · exact absurd hc (by decide)
    · exact absurd hc (by decide)
    · exact ⟨rev, rfl, rfl⟩

/-- The first scanner is inside a string exactly when the second is outside, and the string of
the second has no bare break. -/
inductive Opposite : Mode → Mode → Prop
  | inside (rev : Text) {n : Mode} : (n = .start ∨ ∃ a, n = .atom a) → Opposite (.str rev) n
  | outside {m : Mode} {s : Text} : (m = .start ∨ ∃ a, m = .atom a) → Unbroken s →
      Opposite m (.str s)

/-- As long as both scanners go on they stay opposite, and the second finds no string with a
bare break. -/
theorem Opposite.step {n n' : Mode} {us : List Token} (h : Opposite m n)
    (hc : isLineBreak c = false) (hm : lexStep m c = some (ts, m'))
    (hn : lexStep n c = some (us, n')) :
    Opposite m' n' ∧ ∀ tok ∈ us, TokenStrings Unbroken tok := by
  have hno : (∀ tok ∈ us, ∀ s, tok ≠ Token.str s) → ∀ tok ∈ us, TokenStrings Unbroken tok :=
    fun h tok htok s hs => absurd hs (h tok htok s)
  cases h with
  | inside rev hmode =>
    rcases lexStep_outside hmode hn with ⟨rfl, rfl, hus⟩ | ⟨hquote, hback, -, hmode', hus⟩
    · rcases lexStep_str hm with ⟨-, -, rfl⟩ | ⟨heq, -, -⟩ | ⟨hne, -, -, -⟩
      · exact ⟨.outside (Or.inl rfl) (fun d hd => by cases hd), hno hus⟩
      · exact absurd heq (by decide)
      · exact absurd rfl hne
    · rcases lexStep_str hm with ⟨heq, -, -⟩ | ⟨heq, -, -⟩ | ⟨-, -, -, rfl⟩
      · exact absurd heq hquote
      · exact absurd heq hback
      · exact ⟨.inside _ hmode', hno hus⟩
  | @outside _ s hmode hs =>
    rcases lexStep_outside hmode hm with ⟨rfl, rfl, -⟩ | ⟨hquote, hback, hbare, hmode', -⟩
    · rcases lexStep_str hn with ⟨-, rfl, rfl⟩ | ⟨heq, -, -⟩ | ⟨hne, -, -, -⟩
      · refine ⟨.inside _ (Or.inl rfl), ?_⟩
        intro tok htok s' hs'
        obtain rfl := mem_singleton.mp htok
        obtain rfl := Token.str.inj hs'
        exact fun d hd => hs d (mem_reverse.mp hd)
      · exact absurd heq (by decide)
      · exact absurd rfl hne
    · rcases lexStep_str hn with ⟨heq, -, -⟩ | ⟨heq, -, -⟩ | ⟨-, -, rfl, rfl⟩
      · exact absurd heq hquote
      · exact absurd heq hback
      · exact ⟨.outside hmode' (forall_mem_cons.mpr ⟨hbare, hs⟩), by simp⟩

theorem Opposite.lex {n m₁ : Mode} (h : Opposite m n) (ht : ∀ c ∈ t, isLineBreak c = false)
    (hm : advance m t = some m₁) {us : List Token} (hn : lex n t = some us) :
    ∀ tok ∈ us, TokenStrings Unbroken tok := by
  induction t generalizing m n us with
  | nil =>
    rw [Json.lex] at hn
    cases h with
    | inside rev hmode =>
      rcases hmode with rfl | ⟨a, rfl⟩
      · obtain rfl := Option.some.inj hn
        simp
      · obtain rfl := Option.some.inj hn
        intro tok htok s hs
        obtain rfl := mem_singleton.mp htok
        cases hs
    | outside => cases hn
  | cons c t ih =>
    rw [forall_mem_cons] at ht
    obtain ⟨⟨ts, m'⟩, hstep, hm'⟩ := bind_eq_some_iff.mp hm
    obtain ⟨⟨vs, n'⟩, hstep', hrest⟩ := bind_eq_some_iff.mp hn
    obtain ⟨ws, hws, rfl⟩ := map_eq_some_iff.mp hrest
    obtain ⟨hopp, hvs⟩ := h.step ht.1 hstep hstep'
    intro tok htok
    rcases mem_append.mp htok with htok | htok
    · exact hvs tok htok
    · exact ih hopp ht.2 hm' hws tok htok

/-- Leading space inside a string leaves the scanner inside it. -/
theorem advance_lstrip (h : advance (.str rev) t = some m) :
    ∃ rev', advance (.str rev') (Text.lstrip t) = some m := by
  induction t generalizing rev with
  | nil => exact ⟨rev, h⟩
  | cons c t ih =>
    rw [Text.lstrip, dropWhile_cons]
    split
    · rename_i hspace
      obtain ⟨⟨ts, m'⟩, hstep, hm'⟩ := bind_eq_some_iff.mp h
      rcases lexStep_str hstep with ⟨rfl, -, -⟩ | ⟨rfl, -, -⟩ | ⟨-, -, -, rfl⟩
      · exact absurd hspace (by decide)
      · exact absurd hspace (by decide)
      · exact ih hm'
    · exact ⟨rev, h⟩

theorem advance_rstrip (h : advance m t = some m') :
    ∃ m₁, advance m (Text.rstrip t) = some m₁ ∧
      ∃ r, (∀ c ∈ r, isSpace c = true) ∧ advance m₁ r = some m' := by
  obtain ⟨r, hr, hspace⟩ := Text.rstrip_append_space t
  rw [← hr, advance_append] at h
  obtain ⟨m₁, hm₁, hrest⟩ := bind_eq_some_iff.mp h
  exact ⟨m₁, hm₁, r, hspace, hrest⟩

variable {x : Text}

theorem tokens_piece (h : advance (.str rev) x = some m) (hx : ∀ c ∈ x, isLineBreak c = false)
    (hts : tokens (strip x) = some ts) : ∀ tok ∈ ts, TokenStrings Unbroken tok := by
  obtain ⟨rev', hl⟩ := advance_lstrip h
  obtain ⟨m₁, hr, -⟩ := advance_rstrip hl
  exact (Opposite.inside rev' (Or.inl rfl)).lex (fun c hc => hx c (Text.mem_of_mem_strip hc)) hr hts

theorem unbroken_or_first (t : Text) : (∀ c ∈ t, isLineBreak c = false) ∨
    ∃ x d y, t = x ++ d :: y ∧ isLineBreak d = true ∧ ∀ c ∈ x, isLineBreak c = false := by
  induction t with
  | nil => exact Or.inl (by simp)
  | cons c t ih =>
    by_cases hc : isLineBreak c = true
    · exact Or.inr ⟨[], c, t, rfl, hc, by simp⟩
    · rw [not_eq_true] at hc
      rcases ih with h | ⟨x, d, y, rfl, hd, hx⟩
      · exact Or.inl (forall_mem_cons.mpr ⟨hc, h⟩)
      · exact Or.inr ⟨c :: x, d, y, rfl, hd, forall_mem_cons.mpr ⟨hc, hx⟩⟩

/-- What a bare break takes the scanner through. -/
theorem advance_bareBreak {y : Text} {d : Char} (hd : isBareBreak d = true)
    (h : advance m (x ++ d :: y) = some m') : ∃ rev, advance m x = some (.str rev) ∧
      advance (.str (d :: rev)) y = some m' := by
  rw [advance_append] at h
  obtain ⟨m₁, hm₁, hrest⟩ := bind_eq_some_iff.mp h
  obtain ⟨⟨ts, m₂⟩, hstep, hy⟩ := bind_eq_some_iff.mp hrest
  obtain ⟨rev, rfl, rfl⟩ := lexStep_bareBreak hd hstep
  exact ⟨rev, hm₁, hy⟩

theorem tokens_pieces (h : advance (.str rev) t = some m)
    (hbare : ∀ d ∈ t, isLineBreak d = true → isBareBreak d = true) :
    ∀ piece ∈ t.splitOnP isLineBreak, ∀ ts, tokens (strip piece) = some ts →
      ∀ tok ∈ ts, TokenStrings Unbroken tok := by
  induction hlen : t.length using Nat.strong_induction_on generalizing t rev with
  | h n ih =>
    rcases unbroken_or_first t with hnone | ⟨x, d, y, rfl, hd, hx⟩
    · rw [splitOnP_eq_singleton hnone]
      intro piece hpiece ts hts
      obtain rfl := mem_singleton.mp hpiece
      exact tokens_piece h hnone hts
    · obtain ⟨rev', hx', hy⟩ := advance_bareBreak (hbare d (by simp) hd) h
      rw [splitOnP_append_cons_of_forall_mem hx d hd]
      intro piece hpiece ts hts
      rcases mem_cons.mp hpiece with rfl | hpiece
      · exact tokens_piece hx' hx hts
      · refine ih y.length ?_ hy (fun e he => hbare e (by simp [he])) rfl piece hpiece ts hts
        rw [← hlen, length_append, length_cons]
        omega

/-- Space takes the scanner inside a string only if it was there. -/
theorem str_of_advance_space {r : Text} (hr : ∀ c ∈ r, isSpace c = true)
    (h : advance m r = some (.str rev)) : ∃ rev', m = .str rev' := by
  induction r generalizing m with
  | nil => exact ⟨rev, Option.some.inj h⟩
  | cons c r ih =>
    rw [forall_mem_cons] at hr
    obtain ⟨⟨ts, m₁⟩, hstep, hrest⟩ := bind_eq_some_iff.mp h
    obtain ⟨rev₁, rfl⟩ := ih hr.2 hrest
    rcases lexStep_space hr.1 hstep with hm | hm
    · rcases lexStep_outside hm hstep with ⟨rfl, -, -⟩ | ⟨-, -, -, hmode, -⟩
      · exact absurd hr.1 (by decide)
      · simp at hmode
    · exact hm

/-- A piece that ends inside a string does not scan. -/
theorem tokens_first_piece (h : advance .start x = some (.str rev))
    (hhead : ∀ c ∈ x.head?, isSpace c = false) : tokens (strip x) = none := by
  have hstrip : strip x = Text.rstrip x := by
    rw [Text.strip_eq, Text.lstrip_eq_self hhead]
  obtain ⟨m₁, hm₁, r, hr, hrest⟩ := advance_rstrip h
  obtain ⟨rev', rfl⟩ := str_of_advance_space hr hrest
  rw [hstrip]
  by_contra hsome
  obtain ⟨ts, hts⟩ := ne_none_iff_exists'.mp hsome
  obtain ⟨m', hm', hend⟩ := lex_eq_some hts
  rw [hm₁] at hm'
  obtain rfl := Option.some.inj hm'
  exact hend rfl

/-- Where a line break cuts the text of an object, no piece of it reads as a value with a bare
break in a string. -/
theorem loads_pieces (hf : f.Lawful) (fields : List (Text × Json φ))
    (hbreak : ∃ d ∈ dumps f false (.obj fields), isLineBreak d = true) :
    ∀ piece ∈ (dumps f false (.obj fields)).splitOnP isLineBreak,
      ∀ v, loads f (strip piece) = some v → Strings Unbroken v := by
  obtain ⟨m, hm, -⟩ := lex_eq_some (tokens_dumps hf false (.obj fields))
  have hbare : ∀ d ∈ dumps f false (.obj fields), isLineBreak d = true → isBareBreak d = true :=
    fun d hd h => (breaksIn_dumps hf false (.obj fields) d hd h).2.1
  obtain ⟨rest, hrest⟩ := dumps_obj_head f false fields
  revert hm hbare hbreak
  rw [hrest]
  intro hbreak hm hbare
  rcases unbroken_or_first ('{' :: rest) with hnone | ⟨x, d, y, heq, hd, hx⟩
  · obtain ⟨d, hd, hbreak⟩ := hbreak
    rw [hnone d hd] at hbreak
    cases hbreak
  rw [heq] at hm hbare ⊢
  obtain ⟨rev, hx', hy⟩ := advance_bareBreak (hbare d (by simp) hd) hm
  have hhead : ∀ c ∈ x.head?, isSpace c = false := by
    intro c hc
    cases x with
    | nil => cases hc
    | cons b x =>
      obtain rfl := Option.some.inj hc
      obtain ⟨rfl, -⟩ := List.cons.inj heq
      rfl
  rw [splitOnP_append_cons_of_forall_mem hx d hd]
  intro piece hpiece v hv
  rcases mem_cons.mp hpiece with rfl | hpiece
  · rw [loads, tokens_first_piece hx' hhead] at hv
    cases hv
  · exact loads_strings hv fun ts hts =>
      tokens_pieces hy (fun e he => hbare e (by simp [he])) piece hpiece ts hts

end Json

end Misc
