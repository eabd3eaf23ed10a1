import Mathlib.Tactic.IntervalCases
import ClearYourTools.Misc.Json

/-!
# Reading back what was written

`loads (dumps v) = some v` for every valid value: the text of `v` scans to the tokens of `v`,
and the token machine reads those back.
-/

namespace Misc

open List Option

namespace Json

variable {φ : Type} (f : FloatFormat φ)

mutual

def toTokens : Json φ → List Token
  | .null => [.atom nullWord]
  | .bool b => [.atom (if b then trueWord else falseWord)]
  | .int n => [.atom (ofInt n)]
  | .float x => [.atom (f.repr x)]
  | .str s => [.str s]
  | .arr [] => [.lbracket, .rbracket]
  | .arr (v :: vs) => .lbracket :: (toTokens v ++ toTokensItems vs)
  | .obj [] => [.lbrace, .rbrace]
  | .obj ((k, v) :: kvs) => .lbrace :: .str k :: .colon :: (toTokens v ++ toTokensFields kvs)

def toTokensItems : List (Json φ) → List Token
  | [] => [.rbracket]
  | v :: vs => .comma :: (toTokens v ++ toTokensItems vs)

def toTokensFields : List (Text × Json φ) → List Token
  | [] => [.rbrace]
  | (k, v) :: kvs => .comma :: .str k :: .colon :: (toTokens v ++ toTokensFields kvs)

end

variable {c : Char}

theorem lex_cons {m m' : Mode} {ts : List Token} (h : lexStep m c = some (ts, m')) (t : Text) :
    lex m (c :: t) = (lex m' t).map fun rest => ts ++ rest := by
  rw [lex, h, bind_some]

/-- A character that ends no token. -/
theorem lex_cons_silent {m m' : Mode} (h : lexStep m c = some ([], m')) (t : Text) :
    lex m (c :: t) = lex m' t := by
  rw [lex_cons h]
  exact Option.map_id'

/-- No literal goes on into the text. -/
def NoAtomHead (t : Text) : Prop := ∀ c ∈ t.head?, isAtomChar c = false

theorem noAtomHead_cons {t : Text} (h : isAtomChar c = false) : NoAtomHead (c :: t) := by
  intro d hd
  obtain rfl := Option.some.inj hd
  exact h

theorem isAtomChar_of_isDigit (h : c.isDigit = true) : isAtomChar c = true := by
  simp [isAtomChar, Char.isAlphanum, h]

theorem ne_of_isAtomChar {d : Char} (h : isAtomChar c = true) (hd : isAtomChar d = false) :
    c ≠ d := by
  rintro rfl
  rw [h] at hd
  cases hd

theorem lexOutside_atom (h : isAtomChar c = true) : lexOutside c = some ([], .atom [c]) := by
  have hspace : isJsonSpace c = false := by
    simp only [isJsonSpace, Bool.or_eq_false_iff, beq_eq_false_iff_ne]
    refine ⟨⟨⟨?_, ?_⟩, ?_⟩, ?_⟩ <;> exact ne_of_isAtomChar h (by decide)
  have hne : ∀ d, isAtomChar d = false → c ≠ d := fun d hd => ne_of_isAtomChar h hd
  rw [lexOutside, hspace, if_neg (by simp), if_neg (hne _ (by decide)),
    if_neg (hne _ (by decide)), if_neg (hne _ (by decide)), if_neg (hne _ (by decide)),
    if_neg (hne _ (by decide)), if_neg (hne _ (by decide)), if_neg (hne _ (by decide)), if_pos h]

theorem lex_atom_append (a rev rest : Text) (ha : ∀ c ∈ a, isAtomChar c = true)
    (hrest : NoAtomHead rest) :
    lex (.atom rev) (a ++ rest) =
      (lex .start rest).map fun ts => .atom (rev.reverse ++ a) :: ts := by
  induction a generalizing rev with
  | nil =>
    cases rest with
    | nil => simp [lex, lexEnd]
    | cons c t =>
      have hc : isAtomChar c = false := hrest c rfl
      have hstep : lexStep (.atom rev) c =
          (lexOutside c).map fun r => (.atom rev.reverse :: r.1, r.2) := by
        rw [lexStep, hc, if_neg (by simp)]
      rw [nil_append, lex, lex, hstep, lexStep]
      cases lexOutside c with
      | none => rfl
      | some r => simp [Option.map_map, Function.comp_def]
  | cons c a ih =>
    have hc : isAtomChar c = true := ha c (by simp)
    have hstep : lexStep (.atom rev) c = some ([], .atom (c :: rev)) := by
      rw [lexStep, if_pos hc]
    rw [List.cons_append, lex_cons_silent hstep, ih (c :: rev) fun d hd => ha d (by simp [hd])]
    simp

/-- A literal scans to its token. -/
theorem lex_atom {a rest : Text} (hne : a ≠ []) (ha : ∀ c ∈ a, isAtomChar c = true)
    (hrest : NoAtomHead rest) :
    lex .start (a ++ rest) = (lex .start rest).map fun ts => .atom a :: ts := by
  cases a with
  | nil => exact absurd rfl hne
  | cons c a =>
    have hstep : lexStep .start c = some ([], .atom [c]) := lexOutside_atom (ha c (by simp))
    rw [List.cons_append, lex_cons_silent hstep,
      lex_atom_append a [c] rest (fun d hd => ha d (by simp [hd])) hrest]
    simp

theorem hexValue_digitChar {d : ℕ} (hd : d < 16) : hexValue (Nat.digitChar d) = some d := by
  have hall : ∀ d < 16, hexValue (Nat.digitChar d) = some d := by decide
  exact hall d hd

variable {n : ℕ}

variable (rev : Text)

/-- Four hexadecimal digits scan to the number they write. -/
theorem lex_hex (high : Option ℕ) (hn : n < 0x10000) (t : Text) :
    lex (.hex rev high 0 3) (Nat.digitChar (n / 4096) :: Nat.digitChar (n / 256 % 16) ::
        Nat.digitChar (n / 16 % 16) :: Nat.digitChar (n % 16) :: t) =
      (decodeEscape rev high n).bind fun m => lex m t := by
  have hdigit : ∀ value left d, d < 16 →
      lexStep (.hex rev high value (left + 1)) (Nat.digitChar d) =
        some ([], .hex rev high (16 * value + d) left) := by
    intro value left d hd
    rw [lexStep, hexValue_digitChar hd, bind_some, if_neg (by omega)]
    rfl
  have hlast : ∀ value d, d < 16 → lexStep (.hex rev high value 0) (Nat.digitChar d) =
      (decodeEscape rev high (16 * value + d)).map fun m => ([], m) := by
    intro value d hd
    rw [lexStep, hexValue_digitChar hd, bind_some, if_pos rfl]
  have hvalue : 16 * (16 * (16 * (16 * 0 + n / 4096) + n / 256 % 16) + n / 16 % 16) + n % 16 = n := by
    omega
  rw [lex_cons_silent (hdigit _ _ _ (by omega)), lex_cons_silent (hdigit _ _ _ (by omega)),
    lex_cons_silent (hdigit _ _ _ (by omega)), lex, hlast _ _ (by omega), hvalue]
  cases decodeEscape rev high n with
  | none => rfl
  | some m => exact Option.map_id'

theorem lex_uEscape (hn : n < 0x10000) (t : Text) :
    lex (.str rev) (uEscape n ++ t) = (decodeEscape rev none n).bind fun m => lex m t := by
  rw [← lex_hex rev none hn t, uEscape, List.cons_append,
    lex_cons_silent (show lexStep (.str rev) '\\' = some ([], .escape rev) from rfl),
    List.cons_append,
    lex_cons_silent (show lexStep (.escape rev) 'u' = some ([], .hex rev none 0 3) from rfl)]
  rfl

theorem lex_uEscape_low (h : ℕ) (hn : n < 0x10000) (t : Text) :
    lex (.low rev h) (uEscape n ++ t) = (decodeEscape rev (some h) n).bind fun m => lex m t := by
  rw [← lex_hex rev (some h) hn t, uEscape, List.cons_append,
    lex_cons_silent (show lexStep (.low rev h) '\\' = some ([], .lowEscape rev h) from rfl),
    List.cons_append, lex_cons_silent
      (show lexStep (.lowEscape rev h) 'u' = some ([], .hex rev (some h) 0 3) from rfl)]
  rfl

theorem not_surrogate (c : Char) : ¬ (0xD800 ≤ c.toNat ∧ c.toNat ≤ 0xDFFF) := by
  have h := c.valid
  rintro ⟨hlow, hhigh⟩
  rcases h with h | ⟨h, -⟩
  · have : c.toNat < 0xD800 := h
    omega
  · have : 0xDFFF < c.toNat := h
    omega

theorem toNat_lt (c : Char) : c.toNat < 0x110000 := by
  rcases c.valid with h | ⟨-, h⟩
  · have : c.toNat < 0xD800 := h
    omega
  · exact h

theorem lex_surrogates (hc : ¬ c.toNat < 0x10000) (t : Text) :
    lex (.str rev) (uEscape (0xD800 + (c.toNat - 0x10000) / 0x400) ++
        uEscape (0xDC00 + (c.toNat - 0x10000) % 0x400) ++ t) = lex (.str (c :: rev)) t := by
  have hlt := toNat_lt c
  have hvalue : 0x10000 + (0xD800 + (c.toNat - 0x10000) / 0x400 - 0xD800) * 0x400 +
      (0xDC00 + (c.toNat - 0x10000) % 0x400 - 0xDC00) = c.toNat := by omega
  rw [List.append_assoc, lex_uEscape rev (by omega), decodeEscape, if_pos (by omega),
    bind_some, lex_uEscape_low rev _ (by omega), decodeEscape, if_pos (by omega),
    bind_some, hvalue, Char.ofNat_toNat]

variable (ascii : Bool)

theorem lex_escapeChar (rev : Text) (c : Char) (t : Text) :
    lex (.str rev) (escapeChar ascii c ++ t) = lex (.str (c :: rev)) t := by
  have hshort : ∀ e d, unescape e = some d → e ≠ 'u' →
      lex (.str rev) (['\\', e] ++ t) = lex (.str (d :: rev)) t := by
    intro e d he hu
    have hstep : lexStep (.escape rev) e = some ([], .str (d :: rev)) := by
      rw [lexStep, if_neg hu, he]
      rfl
    rw [List.cons_append, lex_cons_silent (show lexStep (.str rev) '\\' = some ([],
      .escape rev) from rfl), List.cons_append, lex_cons_silent hstep]
    rfl
  have hu : ∀ n, n < 0x10000 → n = c.toNat →
      lex (.str rev) (uEscape n ++ t) = lex (.str (c :: rev)) t := by
    rintro n hn rfl
    have hsur := not_surrogate c
    rw [lex_uEscape rev hn, decodeEscape, if_neg (by omega), if_neg (by omega),
      bind_some, Char.ofNat_toNat]
  unfold escapeChar
  iterate 5
    split
    · rename_i h
      subst h
      exact hshort _ _ rfl (by decide)
  split
  · rename_i h
    rw [← Char.ofNat_toNat c, h]
    exact hshort _ _ rfl (by decide)
  split
  · rename_i h
    rw [← Char.ofNat_toNat c, h]
    exact hshort _ _ rfl (by decide)
  split
  · exact hu _ (by omega) rfl
  split
  · split
    · exact hu _ (by assumption) rfl
    · exact lex_surrogates rev (by assumption) t
  · rename_i hquote hback _ _ _ _ _ hctrl _
    have hstep : lexStep (.str rev) c = some ([], .str (c :: rev)) := by
      rw [lexStep, if_neg hquote, if_neg hback, if_neg hctrl]
    rw [singleton_append, lex_cons_silent hstep]

theorem lex_escaped (rev s t : Text) :
    lex (.str rev) (s.flatMap (escapeChar ascii) ++ t) = lex (.str (s.reverse ++ rev)) t := by
  induction s generalizing rev with
  | nil => rfl
  | cons c s ih =>
    rw [flatMap_cons, List.append_assoc, lex_escapeChar, ih]
    simp

theorem lex_quote (s t : Text) :
    lex .start (quote ascii s ++ t) = (lex .start t).map fun ts => .str s :: ts := by
  have hopen : lexStep .start '"' = some ([], .str []) := rfl
  have hclose : lexStep (.str s.reverse) '"' = some ([.str s], .start) := by
    rw [lexStep, if_pos rfl, reverse_reverse]
  rw [quote, List.cons_append, List.append_assoc, lex_cons_silent hopen, lex_escaped,
    List.append_nil, singleton_append, lex_cons hclose]
  rfl

/-- A number written with several digits does not start with a zero. -/
theorem head?_ofNat_ne_zero (hn : 0 < n) : (Text.ofNat n).head? ≠ some '0' := by
  induction n using Nat.strong_induction_on with
  | h n ih =>
    rw [Text.ofNat, Nat.toDigits_eq_if (by omega)]
    split
    · rename_i hsmall
      interval_cases n <;> decide
    · have hquot := ih (n / 10) (by omega) (by omega)
      rw [Text.ofNat] at hquot
      rw [head?_append_of_ne_nil _ Nat.toDigits_ne_nil]
      exact hquot

theorem readNat_ofNat (n : ℕ) : readNat (Text.ofNat n) = some n := by
  have hne : Text.ofNat n ≠ [] := Nat.toDigits_ne_nil
  have hall : (Text.ofNat n).all Char.isDigit = true :=
    List.all_eq_true.mpr fun c hc => Text.isDigit_of_mem_ofNat hc
  have hzero : ¬ ((Text.ofNat n).head? = some '0' ∧ (Text.ofNat n).length ≠ 1) := by
    rintro ⟨hhead, hlen⟩
    have hlarge : 10 ≤ n := by
      by_contra hsmall
      apply hlen
      rw [Text.ofNat, Nat.toDigits_of_lt_base (by omega)]
      rfl
    exact head?_ofNat_ne_zero (by omega) hhead
  rw [readNat, if_neg (by simp [hne, hall, hzero]), Text.ofNat, Nat.ofDigitChars_ten_toDigits]

theorem readInt_ofNat (n : ℕ) : readInt (Text.ofNat n) = some (n : ℤ) := by
  have hread := readNat_ofNat n
  have hdigit : ∀ c ∈ (Text.ofNat n).head?, c.isDigit = true := fun c hc =>
    Text.isDigit_of_mem_ofNat (mem_of_mem_head? hc)
  revert hread hdigit
  generalize Text.ofNat n = ds
  intro hread hdigit
  unfold readInt
  split
  · exact absurd (hdigit '-' rfl) (by decide)
  · rw [hread]
    rfl

theorem readInt_ofInt (n : ℤ) : readInt (ofInt n) = some n := by
  cases n with
  | ofNat n => exact readInt_ofNat n
  | negSucc n =>
    rw [ofInt, readInt, readNat_ofNat]
    rfl

theorem ofInt_ne_nil (n : ℤ) : ofInt n ≠ [] := by
  cases n with
  | ofNat n => exact Nat.toDigits_ne_nil
  | negSucc n => exact cons_ne_nil _ _

theorem isAtomChar_of_mem_ofInt {n : ℤ} (h : c ∈ ofInt n) : isAtomChar c = true := by
  cases n with
  | ofNat n => exact isAtomChar_of_isDigit (Text.isDigit_of_mem_ofNat h)
  | negSucc n =>
    rcases mem_cons.mp h with rfl | h
    · rfl
    · exact isAtomChar_of_isDigit (Text.isDigit_of_mem_ofNat h)

theorem ofAtom_ofInt (n : ℤ) : ofAtom f (ofInt n) = some (.int n) := by
  have hne : ∀ w, readInt w = none → ofInt n ≠ w := by
    rintro w hw rfl
    rw [readInt_ofInt] at hw
    cases hw
  rw [ofAtom, if_neg (hne _ rfl), if_neg (hne _ rfl), if_neg (hne _ rfl), readInt_ofInt]

variable {f}

theorem ofAtom_repr (hf : f.Lawful) (x : φ) : ofAtom f (f.repr x) = some (.float x) := by
  rw [ofAtom, if_neg (hf.not_null x), if_neg (hf.not_true x), if_neg (hf.not_false x), hf.not_int x]
  simp [hf.read_repr x]

variable {ascii : Bool}

/-- A text that scans to the tokens, whatever follows. -/
def Reads (t : Text) (ts : List Token) : Prop :=
  ∀ rest, lex .start (t ++ rest) = (lex .start rest).map fun us => ts ++ us

/-- A text that scans to the tokens if no literal goes on behind it. -/
def Scans (t : Text) (ts : List Token) : Prop :=
  ∀ rest, NoAtomHead rest → lex .start (t ++ rest) = (lex .start rest).map fun us => ts ++ us

/-- A text that scans to the tokens and goes on with no literal. -/
structure Closes (t : Text) (ts : List Token) : Prop where
  head : ∀ rest, NoAtomHead (t ++ rest)
  reads : Reads t ts

section

variable {t u body colon : Text} {ts us : List Token}

theorem reads_char (h : lexStep .start c = some (ts, .start)) : Reads [c] ts := lex_cons h

theorem Reads.closes (h : Reads (c :: t) ts) (hc : isAtomChar c = false) : Closes (c :: t) ts :=
  ⟨fun _ => noAtomHead_cons hc, h⟩

theorem Reads.append (ht : Reads t ts) (hu : Reads u us) : Reads (t ++ u) (ts ++ us) := by
  intro rest
  rw [List.append_assoc, ht, hu]
  simp [Option.map_map, Function.comp_def]

theorem Scans.append (ht : Scans t ts) (hu : Closes u us) : Reads (t ++ u) (ts ++ us) := by
  intro rest
  rw [List.append_assoc, ht _ (hu.head rest), hu.reads]
  simp [Option.map_map, Function.comp_def]

theorem Reads.scans (h : Reads t ts) : Scans t ts := fun rest _ => h rest

theorem reads_member {k : Text} (hcolon : Reads colon [.colon]) (hbody : Reads body ts) :
    Reads (quote ascii k ++ (colon ++ body)) (.str k :: .colon :: ts) := by
  have hquote : Reads (quote ascii k) [.str k] := lex_quote ascii k
  exact hquote.append (hcolon.append hbody)

end

variable {vs : List (Json φ)}

theorem closes_dumpsItems (hvs : ∀ v ∈ vs, Scans (dumps f ascii v) (toTokens f v)) :
    Closes (dumpsItems f ascii vs) (toTokensItems f vs) := by
  induction vs with
  | nil => exact (reads_char rfl).closes rfl
  | cons v vs ih =>
    have hrest := (hvs v mem_cons_self).append (ih fun w hw => hvs w (mem_cons_of_mem _ hw))
    exact ((reads_char (c := ',') rfl).append hrest).closes rfl

variable {kvs : List (Text × Json φ)}

theorem closes_dumpsFields (hkvs : ∀ kv ∈ kvs, Scans (dumps f ascii kv.2) (toTokens f kv.2)) :
    Closes (dumpsFields f ascii kvs) (toTokensFields f kvs) := by
  induction kvs with
  | nil => exact (reads_char rfl).closes rfl
  | cons kv kvs ih =>
    have hrest := (hkvs kv mem_cons_self).append (ih fun w hw => hkvs w (mem_cons_of_mem _ hw))
    exact ((reads_char (c := ',') rfl).append (reads_member (reads_char rfl) hrest)).closes rfl

variable {v : Json φ}

/-- The text of a value scans to the tokens of the value. -/
theorem scans_dumps (hf : f.Lawful) (ascii : Bool) (v : Json φ) :
    Scans (dumps f ascii v) (toTokens f v) := by
  induction v with
  | null => exact fun rest hrest => lex_atom (a := nullWord) (by decide) (Text.forall_of_all rfl) hrest
  | bool b =>
    intro rest hrest
    cases b with
    | true => exact lex_atom (a := trueWord) (by decide) (Text.forall_of_all rfl) hrest
    | false => exact lex_atom (a := falseWord) (by decide) (Text.forall_of_all rfl) hrest
  | int n =>
    exact fun rest hrest => lex_atom (ofInt_ne_nil n) (fun c hc => isAtomChar_of_mem_ofInt hc) hrest
  | float x => exact fun rest hrest => lex_atom (hf.repr_ne_nil x) (hf.atom x) hrest
  | str s => exact fun rest _ => lex_quote ascii s rest
  | arr items ih =>
    have hopen : Reads ['['] [.lbracket] := reads_char rfl
    cases items with
    | nil => exact (hopen.append (reads_char rfl)).scans
    | cons v vs =>
      have hrest := closes_dumpsItems fun w hw => ih w (mem_cons_of_mem _ hw)
      exact (hopen.append ((ih v mem_cons_self).append hrest)).scans
  | obj fields ih =>
    have hopen : Reads ['{'] [.lbrace] := reads_char rfl
    cases fields with
    | nil => exact (hopen.append (reads_char rfl)).scans
    | cons kv kvs =>
      have hrest := closes_dumpsFields fun w hw => ih w (mem_cons_of_mem _ hw)
      exact (hopen.append (reads_member (reads_char rfl)
        ((ih kv mem_cons_self).append hrest))).scans

theorem tokens_dumps (hf : f.Lawful) (ascii : Bool) (v : Json φ) :
    tokens (dumps f ascii v) = some (toTokens f v) := by
  have hlex := scans_dumps hf ascii v [] (fun c hc => by cases hc)
  rw [List.append_nil] at hlex
  rw [tokens, hlex]
  simp [lex, lexEnd]

theorem parseFrom_cons {s s' : ParseState φ} {t : Token} (h : parseStep f s t = some s')
    (ts : List Token) : parseFrom f s (t :: ts) = parseFrom f s' ts := by
  rw [parseFrom, h, bind_some]

theorem setEntries_of_notMem {k : Text} {fields : List (Text × Json φ)}
    (h : k ∉ fields.map Prod.fst) : set fields k v = fields ++ [(k, v)] := by
  induction fields with
  | nil => rfl
  | cons kv kvs ih =>
    rw [map_cons, mem_cons, not_or] at h
    have hrest := ih h.2
    rw [set, Dict.setEntries] at *
    rw [if_neg fun heq => h.1 heq.symm, hrest]
    rfl

/-- Distinct keys make the pairs the items of the dictionary. -/
theorem ofPairs_eq_self {pairs : List (Text × Json φ)} (h : (pairs.map Prod.fst).Nodup) :
    ofPairs pairs = pairs := by
  have hgen : ∀ (pairs fields : List (Text × Json φ)), ((fields ++ pairs).map Prod.fst).Nodup →
      pairs.foldl (fun fields kv => set fields kv.1 kv.2) fields = fields ++ pairs := by
    intro pairs
    induction pairs with
    | nil => simp
    | cons kv kvs ih =>
      intro fields hnodup
      have hnot : kv.1 ∉ fields.map Prod.fst := by
        rw [map_append, map_cons, nodup_append] at hnodup
        intro hmem
        exact hnodup.2.2 _ hmem _ mem_cons_self rfl
      rw [foldl_cons, setEntries_of_notMem hnot, ih _ (by simpa using hnodup)]
      simp
  exact hgen pairs [] h

variable {stack : List (Frame φ)}

theorem parseStep_valueOrClose {t : Token} (h : t ≠ .rbracket) :
    parseStep f (.items [] :: stack, .valueOrClose) t =
      parseStep f (.items [] :: stack, .value) t := by
  cases t <;> first | rfl | exact absurd rfl h

variable (f) in
theorem toTokens_head (v : Json φ) : ∃ t ts, toTokens f v = t :: ts ∧ t ≠ .rbracket := by
  cases v with
  | arr items => cases items <;> exact ⟨_, _, rfl, by simp⟩
  | obj fields => rcases fields with _ | ⟨⟨k, v⟩, kvs⟩ <;> exact ⟨_, _, rfl, by simp⟩
  | null | bool | int | float | str => exact ⟨_, _, rfl, by simp⟩

theorem parse_items (hvs : ∀ v ∈ vs, ∀ stack ts, parseFrom f (stack, .value) (toTokens f v ++ ts) =
      parseFrom f (stack, .after v) ts) (rev : List (Json φ)) (v : Json φ) (ts : List Token) :
    parseFrom f (.items rev :: stack, .after v) (toTokensItems f vs ++ ts) =
      parseFrom f (stack, .after (.arr (rev.reverse ++ v :: vs))) ts := by
  induction vs generalizing rev v with
  | nil =>
    rw [toTokensItems, singleton_append, parseFrom_cons rfl, reverse_cons]
  | cons w vs ih =>
    rw [toTokensItems, List.cons_append, parseFrom_cons rfl, List.append_assoc,
      hvs w mem_cons_self, ih fun x hx => hvs x (mem_cons_of_mem _ hx)]
    simp

theorem parse_fields
    (hkvs : ∀ kv ∈ kvs, ∀ stack ts, parseFrom f (stack, .value) (toTokens f kv.2 ++ ts) =
      parseFrom f (stack, .after kv.2) ts) (rev : List (Text × Json φ)) (k : Text) (v : Json φ)
    (ts : List Token) :
    parseFrom f (.member rev k :: stack, .after v) (toTokensFields f kvs ++ ts) =
      parseFrom f (stack, .after (.obj (ofPairs (rev.reverse ++ (k, v) :: kvs)))) ts := by
  induction kvs generalizing rev k v with
  | nil =>
    rw [toTokensFields, singleton_append, parseFrom_cons rfl, reverse_cons]
  | cons kv kvs ih =>
    obtain ⟨k', w⟩ := kv
    rw [toTokensFields, List.cons_append, List.cons_append, List.cons_append, parseFrom_cons rfl,
      parseFrom_cons rfl, parseFrom_cons rfl, List.append_assoc,
      hkvs (k', w) mem_cons_self, ih fun x hx => hkvs x (mem_cons_of_mem _ hx)]
    simp

theorem parse_toTokens (hf : f.Lawful) (v : Json φ) (hv : v.Valid) :
    ∀ stack ts, parseFrom f (stack, .value) (toTokens f v ++ ts) =
      parseFrom f (stack, .after v) ts := by
  induction v with
  | null => exact fun stack ts => parseFrom_cons rfl ts
  | bool b => cases b <;> exact fun stack ts => parseFrom_cons rfl ts
  | int n =>
    intro stack ts
    apply parseFrom_cons
    rw [parseStep, startValue, ofAtom_ofInt]
    rfl
  | float x =>
    intro stack ts
    apply parseFrom_cons
    rw [parseStep, startValue, ofAtom_repr hf]
    rfl
  | str s => exact fun stack ts => parseFrom_cons rfl ts
  | arr items ih =>
    intro stack ts
    rw [Valid, validItems_iff] at hv
    cases items with
    | nil => rw [toTokens, List.cons_append, parseFrom_cons rfl]; exact parseFrom_cons rfl ts
    | cons v vs =>
      have hfirst : ∀ ts, parseFrom f (.items [] :: stack, .valueOrClose) (toTokens f v ++ ts) =
          parseFrom f (.items [] :: stack, .value) (toTokens f v ++ ts) := by
        intro ts
        rcases toTokens_head f v with ⟨t, us, heq, hclose⟩
        rw [heq, List.cons_append, parseFrom, parseFrom, parseStep_valueOrClose hclose]
      rw [toTokens, List.cons_append, parseFrom_cons rfl, List.append_assoc, hfirst,
        ih v mem_cons_self (hv v mem_cons_self), parse_items fun w hw => ih w (mem_cons_of_mem _ hw)
          (hv w (mem_cons_of_mem _ hw))]
      rfl
  | obj fields ih =>
    intro stack ts
    rw [valid_obj_iff] at hv
    cases fields with
    | nil => rw [toTokens, List.cons_append, parseFrom_cons rfl]; exact parseFrom_cons rfl ts
    | cons kv kvs =>
      obtain ⟨k, v⟩ := kv
      rw [toTokens, List.cons_append, List.cons_append, List.cons_append, parseFrom_cons rfl,
        parseFrom_cons rfl, parseFrom_cons rfl, List.append_assoc,
        ih (k, v) mem_cons_self (hv.2 _ mem_cons_self),
        parse_fields fun w hw => ih w (mem_cons_of_mem _ hw)
          (hv.2 w (mem_cons_of_mem _ hw)), reverse_nil, nil_append,
        ofPairs_eq_self hv.1]

/-- What `dumps` writes, `loads` reads back. -/
theorem loads_dumps (hf : f.Lawful) (ascii : Bool) (hv : v.Valid) :
    loads f (dumps f ascii v) = some v := by
  have hparse := parse_toTokens hf v hv [] []
  rw [List.append_nil] at hparse
  rw [loads, tokens_dumps hf, bind_some, hparse]
  rfl

/-!
## JSON with indentation

What `json.dumps(value, indent=2)` writes is read back as well: it scans to the same tokens.
-/

variable {f : FloatFormat φ}

variable (level : ℕ)

/-- A line feed and the spaces of a level. -/
def newline : Text := '\n' :: List.replicate (2 * level) ' '

mutual

/-- `json.dumps(value, indent=2, ensure_ascii=ascii)` at a level. -/
def dumpsIndent (f : FloatFormat φ) (ascii : Bool) (level : ℕ) : Json φ → Text
  | .null => nullWord
  | .bool b => if b then trueWord else falseWord
  | .int n => ofInt n
  | .float x => f.repr x
  | .str s => quote ascii s
  | .arr [] => ['[', ']']
  | .arr (v :: vs) => '[' :: (newline (level + 1) ++ (dumpsIndent f ascii (level + 1) v ++
      dumpsIndentItems f ascii level vs))
  | .obj [] => ['{', '}']
  | .obj ((k, v) :: kvs) => '{' :: (newline (level + 1) ++ (quote ascii k ++ ':' :: ' ' ::
      (dumpsIndent f ascii (level + 1) v ++ dumpsIndentFields f ascii level kvs)))

/-- What follows the first item of an array. -/
def dumpsIndentItems (f : FloatFormat φ) (ascii : Bool) (level : ℕ) : List (Json φ) → Text
  | [] => newline level ++ [']']
  | v :: vs => ',' :: (newline (level + 1) ++ (dumpsIndent f ascii (level + 1) v ++
      dumpsIndentItems f ascii level vs))

/-- What follows the first item of an object. -/
def dumpsIndentFields (f : FloatFormat φ) (ascii : Bool) (level : ℕ) :
    List (Text × Json φ) → Text
  | [] => newline level ++ ['}']
  | (k, v) :: kvs => ',' :: (newline (level + 1) ++ (quote ascii k ++ ':' :: ' ' ::
      (dumpsIndent f ascii (level + 1) v ++ dumpsIndentFields f ascii level kvs)))

end

mutual

/-- `json.dumps(value)`, with the separators that it has by default. -/
def dumpsSpaced (f : FloatFormat φ) : Json φ → Text
  | .null => nullWord
  | .bool b => if b then trueWord else falseWord
  | .int n => ofInt n
  | .float x => f.repr x
  | .str s => quote true s
  | .arr [] => ['[', ']']
  | .arr (v :: vs) => '[' :: (dumpsSpaced f v ++ dumpsSpacedItems f vs)
  | .obj [] => ['{', '}']
  | .obj ((k, v) :: kvs) =>
    '{' :: (quote true k ++ ':' :: ' ' :: (dumpsSpaced f v ++ dumpsSpacedFields f kvs))

/-- What follows the first item of an array. -/
def dumpsSpacedItems (f : FloatFormat φ) : List (Json φ) → Text
  | [] => [']']
  | v :: vs => ',' :: ' ' :: (dumpsSpaced f v ++ dumpsSpacedItems f vs)

/-- What follows the first item of an object. -/
def dumpsSpacedFields (f : FloatFormat φ) : List (Text × Json φ) → Text
  | [] => ['}']
  | (k, v) :: kvs =>
    ',' :: ' ' :: (quote true k ++ ':' :: ' ' :: (dumpsSpaced f v ++ dumpsSpacedFields f kvs))

end

theorem reads_newline : Reads (newline level) [] := by
  have hspaces : ∀ n, Reads (List.replicate n ' ') [] := by
    intro n
    induction n with
    | zero => exact fun rest => Option.map_id'.symm
    | succ n ih => exact (reads_char (c := ' ') rfl).append ih
  exact (reads_char (c := '\n') rfl).append (hspaces _)

/-- The text of a value at a level scans to its tokens. -/
def ScansAt (f : FloatFormat φ) (ascii : Bool) (level : ℕ) (v : Json φ) : Prop :=
  Scans (dumpsIndent f ascii level v) (toTokens f v)

variable {ascii : Bool}

theorem reads_colon : Reads [':', ' '] [.colon] :=
  (reads_char (c := ':') rfl).append (reads_char (c := ' ') rfl)

theorem closes_dumpsIndentItems (hvs : ∀ v ∈ vs, ScansAt f ascii (level + 1) v) :
    Closes (dumpsIndentItems f ascii level vs) (toTokensItems f vs) := by
  induction vs with
  | nil => exact ((reads_newline level).append (reads_char rfl)).closes rfl
  | cons v vs ih =>
    have hrest := (hvs v mem_cons_self).append (ih fun w hw => hvs w (mem_cons_of_mem _ hw))
    exact ((reads_char (c := ',') rfl).append ((reads_newline (level + 1)).append hrest)).closes rfl

theorem closes_dumpsIndentFields (hkvs : ∀ kv ∈ kvs, ScansAt f ascii (level + 1) kv.2) :
    Closes (dumpsIndentFields f ascii level kvs) (toTokensFields f kvs) := by
  induction kvs with
  | nil => exact ((reads_newline level).append (reads_char rfl)).closes rfl
  | cons kv kvs ih =>
    have hrest := (hkvs kv mem_cons_self).append (ih fun w hw => hkvs w (mem_cons_of_mem _ hw))
    exact ((reads_char (c := ',') rfl).append ((reads_newline (level + 1)).append
      (reads_member reads_colon hrest))).closes rfl

variable (hf : f.Lawful)
include hf

theorem scansAt (ascii : Bool) (v : Json φ) : ∀ level, ScansAt f ascii level v := by
  induction v with
  | null => exact fun _ => scans_dumps hf ascii .null
  | bool b => exact fun _ => scans_dumps hf ascii (.bool b)
  | int n => exact fun _ => scans_dumps hf ascii (.int n)
  | float x => exact fun _ => scans_dumps hf ascii (.float x)
  | str s => exact fun _ => scans_dumps hf ascii (.str s)
  | arr items ih =>
    intro level
    cases items with
    | nil => exact scans_dumps hf ascii (.arr [])
    | cons v vs =>
      have hrest := closes_dumpsIndentItems level fun w hw => ih w (mem_cons_of_mem _ hw) (level + 1)
      exact ((reads_char (c := '[') rfl).append ((reads_newline (level + 1)).append
        ((ih v mem_cons_self _).append hrest))).scans
  | obj fields ih =>
    intro level
    cases fields with
    | nil => exact scans_dumps hf ascii (.obj [])
    | cons kv kvs =>
      have hrest := closes_dumpsIndentFields level fun w hw => ih w (mem_cons_of_mem _ hw) (level + 1)
      exact ((reads_char (c := '{') rfl).append ((reads_newline (level + 1)).append
        (reads_member reads_colon ((ih kv mem_cons_self _).append hrest)))).scans

/-- What `dumpsIndent` writes, `loads` reads back, with or without a line feed at the end. -/
theorem loads_dumpsIndent_append (ascii : Bool) (hv : v.Valid) {rest : Text}
    (hhead : NoAtomHead rest) (hrest : lex .start rest = some []) :
    loads f (dumpsIndent f ascii 0 v ++ rest) = some v := by
  have hlex := scansAt hf ascii v 0 rest hhead
  have hparse := parse_toTokens hf v hv [] []
  rw [List.append_nil] at hparse
  rw [loads, tokens, hlex, hrest]
  simp only [map_some, List.append_nil, bind_some]
  rw [hparse]
  rfl

theorem loads_dumpsIndent (ascii : Bool) (hv : v.Valid) :
    loads f (dumpsIndent f ascii 0 v) = some v := by
  have hnil : NoAtomHead ([] : Text) := fun c hc => by cases hc
  have hloads := loads_dumpsIndent_append hf ascii hv hnil rfl
  rw [List.append_nil] at hloads
  exact hloads

theorem loads_dumpsIndent_newline (ascii : Bool) (hv : v.Valid) :
    loads f (dumpsIndent f ascii 0 v ++ ['\n']) = some v := by
  refine loads_dumpsIndent_append hf ascii hv (fun c hc => ?_) rfl
  cases hc
  rfl

end Json

end Misc
