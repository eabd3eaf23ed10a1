import ClearYourTools.Injection.Proofs.LoggedEntries
import ClearYourTools.Misc.Blocks
import ClearYourTools.Tools.Serialize

/-!
# What single-quoted JSON determines

An apostrophe inside a string reads like the end of the string where a comma or a colon of the
string follows it. Without that, the quotes can be put back.
-/

namespace ClearYourTools.Tools

open List Misc
open Injection.SessionLog (sortKeys strings_sortKeys valid_sortKeys)

variable {φ : Type} {f : Json.FloatFormat φ}

/-- No separator of items, members or keys. -/
def between (c : Char) : Bool := c != ',' && c != ':'

/-- An apostrophe before this text ends its string: none follows it before the next separator. -/
def closes (t : Text) : Bool := !(t.takeWhile between).contains '\''

/-- The double quotes put back. -/
def restore : Bool → Text → Text
  | _, [] => []
  | false, c :: t => if c = '\'' then '"' :: restore true t else c :: restore false t
  | true, '\\' :: c :: t => '\\' :: c :: restore true t
  | true, c :: t =>
    if c = '"' then '\\' :: '"' :: restore true t
    else if c = '\'' ∧ closes t then '"' :: restore false t
    else c :: restore true t

/-- The text may be written behind a string. -/
def Ends (t : Text) : Prop := closes (swapFrom false t) = true

/-- No apostrophe of the string has a separator in the same string. -/
def Separable (s : Text) : Prop := '\'' ∈ s → ∀ c ∈ s, between c = true

/-- The quotes of a text taken away and put back. -/
def undo (inside : Bool) (t : Text) : Text := restore inside (swapFrom inside t)

variable {c : Char} {s t u : Text}

theorem ends_cons (hc : c ≠ '"' ∧ c ≠ '\'') (h : between c = true → Ends t) : Ends (c :: t) := by
  rw [Ends, swapFrom, if_neg hc.1, closes, takeWhile_cons]
  split
  · rename_i hbetween
    have hrest := h hbetween
    rw [Ends, closes, Bool.not_eq_true'] at hrest
    rw [contains_cons, hrest, Bool.or_false, Bool.not_eq_true']
    exact beq_eq_false_iff_ne.mpr hc.2.symm
  · rfl

theorem swapFrom_plain (hquote : c ≠ '"') (hback : c ≠ '\\') (t : Text) :
    swapFrom true (c :: t) = c :: swapFrom true t := by
  rw [swapFrom, if_neg hquote]
  · rintro _ rfl
    exact absurd rfl hback
  · rintro _ _ rfl
    exact absurd rfl hback

/-- A character of a string without separators leaves the apostrophes before it open. -/
theorem closes_escapeChar (hc : between c = true) (h : closes (swapFrom true t) = false) :
    closes (swapFrom true (Json.escapeChar false c ++ t)) = false := by
  unfold Json.escapeChar
  iterate 7
    split
    · exact h
  split
  · rename_i hctrl
    generalize c.toNat = n at hctrl
    interval_cases n <;> exact h
  · rename_i hquote hback _ _ _ _ _ _
    rw [if_neg (by simp), singleton_append, swapFrom_plain hquote hback]
    rw [closes, Bool.not_eq_false'] at h ⊢
    rw [takeWhile_cons, if_pos hc, contains_cons, h, Bool.or_true]

/-- A character of a string comes back, an apostrophe if it is open there. -/
theorem undo_escapeChar (hopen : c = '\'' → closes (swapFrom true t) = false) :
    undo true (Json.escapeChar false c ++ t) = Json.escapeChar false c ++ undo true t := by
  unfold Json.escapeChar
  iterate 7
    split
    · rfl
  split
  · rename_i hctrl
    generalize c.toNat = n at hctrl
    interval_cases n <;> rfl
  · rename_i hquote hback _ _ _ _ _ _
    rw [if_neg (by simp), singleton_append, undo, swapFrom_plain hquote hback, restore,
      if_neg hquote, if_neg]
    · rfl
    · rintro ⟨hapos, hclose⟩
      rw [hopen hapos] at hclose
      cases hclose
    · rintro _ _ rfl
      exact absurd rfl hback

theorem closes_body (hs : ∀ c ∈ s, between c = true) (t : Text) :
    closes (swapFrom true (s.flatMap (Json.escapeChar false) ++ '"' :: t)) = false := by
  induction s with
  | nil => rfl
  | cons c s ih =>
    obtain ⟨hc, hs⟩ := forall_mem_cons.mp hs
    rw [flatMap_cons, List.append_assoc]
    exact closes_escapeChar hc (ih hs)

theorem undo_body (h : Separable s) (t : Text) :
    undo true (s.flatMap (Json.escapeChar false) ++ '"' :: t) =
      s.flatMap (Json.escapeChar false) ++ undo true ('"' :: t) := by
  induction s with
  | nil => rfl
  | cons c s ih =>
    have hs := ih fun hmem d hd => h (mem_cons_of_mem _ hmem) d (mem_cons_of_mem _ hd)
    rw [flatMap_cons, List.append_assoc, List.append_assoc, ← hs]
    apply undo_escapeChar
    rintro rfl
    exact closes_body (fun d hd => h mem_cons_self d (mem_cons_of_mem _ hd)) t

theorem undo_cons (hc : c ≠ '"' ∧ c ≠ '\'') (t : Text) :
    undo false (c :: t) = c :: undo false t := by
  rw [undo, swapFrom, if_neg hc.1, restore, if_neg hc.2, undo]

theorem undo_quote (h : Separable s) (ht : Ends t) :
    undo false (Json.quote false s ++ t) = Json.quote false s ++ undo false t := by
  have hopen : ∀ t, undo false ('"' :: t) = '"' :: undo true t := fun _ => rfl
  have hend : swapFrom true ('"' :: t) = '\'' :: swapFrom false t := rfl
  rw [Json.quote, List.cons_append, List.append_assoc, hopen, singleton_append, undo_body h, undo,
    hend, restore, if_neg (by decide), if_pos ⟨rfl, ht⟩]
  · simp [undo]
  · exact fun _ _ h => absurd h (by decide)

/-- A piece of a written value whose quotes can be put back, whatever may follow it. -/
def Undoes (t : Text) : Prop := ∀ rest, Ends rest → undo false (t ++ rest) = t ++ undo false rest

/-- A piece that may follow a value. -/
structure Closing (t : Text) : Prop where
  ends : ∀ rest, Ends rest → Ends (t ++ rest)
  undoes : Undoes t

theorem Undoes.append (ht : Undoes t) (hu : Closing u) : Undoes (t ++ u) := by
  intro rest hrest
  rw [List.append_assoc, ht _ (hu.ends rest hrest), hu.undoes rest hrest, List.append_assoc]

theorem Undoes.cons (ht : Undoes t) (hc : c ≠ '"' ∧ c ≠ '\'') : Undoes (c :: t) := by
  intro rest hrest
  rw [List.cons_append, undo_cons hc, ht rest hrest, List.cons_append]

theorem undoes_nil : Undoes [] := fun _ _ => rfl

theorem undoes_atom (h : ∀ c ∈ t, Json.isAtomChar c = true) : Undoes t := by
  induction t with
  | nil => exact undoes_nil
  | cons c t ih =>
    obtain ⟨hc, ht⟩ := forall_mem_cons.mp h
    exact (ih ht).cons ⟨Json.ne_of_isAtomChar hc (by decide), Json.ne_of_isAtomChar hc (by decide)⟩

theorem closing_separator (hc : between c = false) (ht : Undoes t) : Closing (c :: t) := by
  have hquote : c ≠ '"' ∧ c ≠ '\'' := by constructor <;> rintro rfl <;> cases hc
  refine ⟨fun rest _ => ends_cons hquote fun h => ?_, ht.cons hquote⟩
  rw [hc] at h
  cases h

theorem undoes_member (h : Separable s) (ht : Undoes t) :
    Undoes (Json.quote false s ++ ':' :: t) := by
  have hcolon : Closing (':' :: t) := closing_separator (by decide) ht
  exact Undoes.append (fun _ hrest => undo_quote h hrest) hcolon

theorem closing_bracket (hc : c ≠ '"' ∧ c ≠ '\'') : Closing [c] :=
  ⟨fun _ hrest => ends_cons hc fun _ => hrest, undoes_nil.cons hc⟩

theorem closing_dumpsItems {vs : List (Json φ)}
    (hvs : ∀ v ∈ vs, Undoes (Json.dumps f false v)) : Closing (Json.dumpsItems f false vs) := by
  induction vs with
  | nil => exact closing_bracket (by decide)
  | cons v vs ih =>
    obtain ⟨hv, hvs⟩ := forall_mem_cons.mp hvs
    exact closing_separator (by decide) (hv.append (ih hvs))

theorem closing_dumpsFields {kvs : List (Text × Json φ)}
    (hkvs : ∀ kv ∈ kvs, Separable kv.1 ∧ Undoes (Json.dumps f false kv.2)) :
    Closing (Json.dumpsFields f false kvs) := by
  induction kvs with
  | nil => exact closing_bracket (by decide)
  | cons kv kvs ih =>
    obtain ⟨⟨hk, hv⟩, hkvs⟩ := forall_mem_cons.mp hkvs
    exact closing_separator (by decide) (undoes_member hk (hv.append (ih hkvs)))

variable {v w : Json φ}

theorem undoes_dumps (hf : f.Lawful) (v : Json φ) (hv : Json.Strings Separable v) :
    Undoes (Json.dumps f false v) := by
  induction v with
  | null => exact undoes_atom (Text.forall_of_all rfl)
  | bool b => cases b <;> exact undoes_atom (Text.forall_of_all rfl)
  | int n => exact undoes_atom fun c hc => Json.isAtomChar_of_mem_ofInt hc
  | float x => exact undoes_atom (hf.atom x)
  | str s => exact fun _ hrest => undo_quote (hv s mem_cons_self) hrest
  | arr items ih =>
    rw [Json.strings_arr] at hv
    cases items with
    | nil => exact (closing_bracket (by decide)).undoes.cons (by decide)
    | cons v vs =>
      obtain ⟨hfirst, hrest⟩ := forall_mem_cons.mp fun v hv' => ih v hv' (hv v hv')
      exact (hfirst.append (closing_dumpsItems hrest)).cons (by decide)
  | obj fields ih =>
    rw [Json.strings_obj] at hv
    cases fields with
    | nil => exact (closing_bracket (by decide)).undoes.cons (by decide)
    | cons kv kvs =>
      obtain ⟨⟨hkey, hfirst⟩, hrest⟩ := forall_mem_cons.mp fun kv hkv =>
        And.intro (hv kv hkv).1 (ih kv hkv (hv kv hkv).2)
      exact (undoes_member hkey (hfirst.append (closing_dumpsFields hrest))).cons (by decide)

theorem eq_of_minimizeJsonSingleQuotes (hf : f.Lawful) (hv : v.Valid) (hw : w.Valid)
    (hvs : Json.Strings Separable v) (hws : Json.Strings Separable w)
    (h : minimizeJsonSingleQuotes f v = minimizeJsonSingleQuotes f w) : v = w := by
  have hundo : ∀ v : Json φ, Json.Strings Separable v →
      restore false (minimizeJsonSingleQuotes f v) = Json.dumps f false v := by
    intro v hv
    have hread := undoes_dumps hf v hv [] rfl
    rwa [List.append_nil, undo, undo, swapFrom, restore, List.append_nil] at hread
  have hdumps : Json.dumps f false v = Json.dumps f false w := by
    rw [← hundo v hvs, h, hundo w hws]
  have hread := Json.loads_dumps hf false hv
  rw [hdumps, Json.loads_dumps hf false hw] at hread
  exact (Option.some.inj hread).symm

/-- Values whose strings and keys all satisfy `Q` are told apart by their minimized text. -/
def Unambiguous (f : Json.FloatFormat φ) (Q : Text → Prop) : Prop :=
  ∀ v w : Json φ, v.Valid → w.Valid → Json.Strings Q v → Json.Strings Q w →
    minimizeJsonSingleQuotes f v = minimizeJsonSingleQuotes f w → v = w

/-- The string is written with characters of `P`. -/
def Over (P : Char → Prop) (s : Text) : Prop := ∀ c ∈ s, P c

theorem unambiguous_over_iff (hf : f.Lawful) (P : Char → Prop) :
    Unambiguous f (Over P) ↔ ¬ (P '\'' ∧ (P ',' ∨ P ':')) := by
  constructor
  · rintro h ⟨hapos, hcomma | hcolon⟩
    · -- `['','']`
      cases h (.arr [.str "','"]) (.arr [.str [], .str []]) ⟨trivial, trivial⟩
        ⟨trivial, trivial, trivial⟩
        (by simp [Json.Strings, Json.strings, Json.stringsItems, Over, hapos, hcomma])
        (by simp [Json.Strings, Json.strings, Json.stringsItems, Over]) rfl
    · -- `{'':'':''}`
      cases h (.obj [("':'", .str [])]) (.obj [([], .str "':'")])
        ⟨nodup_singleton _, trivial, trivial⟩ ⟨nodup_singleton _, trivial, trivial⟩
        (by simp [Json.Strings, Json.strings, Json.stringsFields, Over, hapos, hcolon])
        (by simp [Json.Strings, Json.strings, Json.stringsFields, Over, hapos, hcolon]) rfl
  · intro h v w hv hw hvs hws
    have hsep : ∀ s, Over P s → Separable s := by
      intro s hs hapos c hc
      simp only [between, Bool.and_eq_true, bne_iff_ne]
      refine ⟨?_, ?_⟩ <;> rintro rfl
      · exact h ⟨hs _ hapos, .inl (hs _ hc)⟩
      · exact h ⟨hs _ hapos, .inr (hs _ hc)⟩
    exact eq_of_minimizeJsonSingleQuotes hf hv hw (fun s hs => hsep s (hvs s hs))
      fun s hs => hsep s (hws s hs)

/-- What the block takes for an example: an object that is not empty. -/
def IsExample (v : Json φ) : Prop := ∃ kv kvs, v = .obj (kv :: kvs)

/-- The line of an example without a limit. -/
def exampleLine (f : Json.FloatFormat φ) (v : Json φ) : Text :=
  "- " ++ minimizeJsonSingleQuotes f (sortKeys v)

theorem formatExampleLine_eq (hf : f.Lawful) (hv : v.Valid) :
    formatExampleLine f 0 v = some (exampleLine f v) := by
  rw [formatExampleLine, canonicalizeJsonValue, Json.loads_dumps hf false (valid_sortKeys hv)]
  rfl

theorem exampleLine_eq_iff (hf : f.Lawful) (hv : v.Valid) (hw : w.Valid)
    (hvs : Json.Strings Separable v) (hws : Json.Strings Separable w) :
    exampleLine f v = exampleLine f w ↔ sortKeys v = sortKeys w := by
  constructor
  · intro h
    exact eq_of_minimizeJsonSingleQuotes hf (valid_sortKeys hv) (valid_sortKeys hw)
      ((strings_sortKeys v).mpr hvs) ((strings_sortKeys w).mpr hws) (List.append_cancel_left h)
  · intro h
    rw [exampleLine, h, exampleLine]

theorem exampleStep_of_isExample (hf : f.Lawful) (hv : v.Valid) (h : IsExample v)
    (lines : List Text) : exampleStep f 0 lines v =
      some (if exampleLine f v ∈ lines then lines else lines ++ [exampleLine f v]) := by
  obtain ⟨kv, kvs, rfl⟩ := h
  rw [exampleStep, formatExampleLine_eq hf hv, Option.map_some]

theorem exampleStep_of_not_isExample (h : ¬ IsExample v) (lines : List Text) :
    exampleStep f 0 lines v = some lines := by
  unfold exampleStep
  split
  · exact absurd ⟨_, _, rfl⟩ h
  · rfl

theorem exampleLines_concat (maxChars : ℕ) (examples : List (Json φ)) (v : Json φ) :
    exampleLines f maxChars (examples ++ [v]) =
      (exampleLines f maxChars examples).bind fun lines => exampleStep f maxChars lines v := by
  rw [exampleLines, foldlM_append, exampleLines]
  simp

/-- The lines of the block are those of its examples. -/
theorem exists_exampleLines (hf : f.Lawful) (examples : List (Json φ))
    (hvalid : ∀ v ∈ examples, v.Valid) :
    ∃ lines, exampleLines f 0 examples = some lines ∧
      ∀ line, line ∈ lines ↔ ∃ v ∈ examples, IsExample v ∧ exampleLine f v = line := by
  induction examples using List.reverseRecOn with
  | nil => exact ⟨[], rfl, by simp⟩
  | append_singleton examples v ih =>
    obtain ⟨lines, heq, hmem⟩ := ih fun w hw => hvalid w (mem_append_left _ hw)
    rw [exampleLines_concat, heq, Option.bind_some]
    by_cases hv : IsExample v
    · rw [exampleStep_of_isExample hf (hvalid v mem_concat_self) hv]
      refine ⟨_, rfl, fun line => ?_⟩
      split <;> grind
    · rw [exampleStep_of_not_isExample hv]
      refine ⟨_, rfl, fun line => ?_⟩
      grind

theorem wrapLines_concat_ne (lines : List Text) (line : Text) :
    wrapLines (lines ++ [line]) ≠ wrapLines lines := by
  intro h
  have hwrap : wrapLines (lines ++ [line]) =
      Text.joinLines (openTag :: lines) ++ '\n' :: line ++ '\n' :: closeTag := by
    rw [wrapLines, if_neg (by simp), ← List.cons_append, ← List.cons_append,
      Text.joinLines_append (by simp) (by simp), Text.joinLines_append (by simp) (by simp),
      Text.joinLines_singleton, Text.joinLines_singleton]
  rw [hwrap, wrapLines] at h
  have hlen := congrArg List.length h
  split at hlen
  · simp at hlen
  · rw [← List.cons_append, Text.joinLines_append (by simp) (by simp),
      Text.joinLines_singleton] at hlen
    simp only [length_append, length_cons] at hlen
    omega

/-- An example leaves the block as it is if it is none or its line is there. -/
theorem formatExamplesBlock_concat_eq_iff (hf : f.Lawful) {examples : List (Json φ)}
    (hexamples : ∀ w ∈ examples, w.Valid) (hv : v.Valid) :
    formatExamplesBlock f 0 (examples ++ [v]) = formatExamplesBlock f 0 examples ↔
      (IsExample v → ∃ w ∈ examples, IsExample w ∧ exampleLine f w = exampleLine f v) := by
  obtain ⟨lines, heq, hmem⟩ := exists_exampleLines hf examples hexamples
  rw [← hmem, formatExamplesBlock, formatExamplesBlock, exampleLines_concat, heq, Option.bind_some]
  by_cases hexample : IsExample v
  · rw [exampleStep_of_isExample hf hv hexample]
    split
    · rename_i hold
      exact iff_of_true rfl fun _ => hold
    · rename_i hnew
      refine iff_of_false (fun h => ?_) fun h => hnew (h hexample)
      exact wrapLines_concat_ne lines _ (Option.some.inj h)
  · rw [exampleStep_of_not_isExample hexample]
    exact iff_of_true rfl fun h => absurd h hexample

/-- Single-quoted JSON determines the value if no string of it has an apostrophe and a separator;
with all strings over a set of characters, exactly if the set does not have both. An example line
then determines its example up to the order of keys, and the block leaves out an example only for
an equal one. -/
theorem minimizeJsonSingleQuotes_unambiguous (hf : f.Lawful) :
    Unambiguous f Separable ∧
    (∀ P, Unambiguous f (Over P) ↔ ¬ (P '\'' ∧ (P ',' ∨ P ':'))) ∧
    (∀ v w : Json φ, v.Valid → w.Valid → Json.Strings Separable v → Json.Strings Separable w →
      formatExampleLine f 0 v = formatExampleLine f 0 w → sortKeys v = sortKeys w) ∧
    ∀ (examples : List (Json φ)) (v : Json φ),
      (∀ w ∈ examples, w.Valid ∧ Json.Strings Separable w) → v.Valid → Json.Strings Separable v →
      (formatExamplesBlock f 0 (examples ++ [v]) = formatExamplesBlock f 0 examples ↔
        (IsExample v → ∃ w ∈ examples, IsExample w ∧ sortKeys w = sortKeys v)) := by
  refine ⟨fun v w => eq_of_minimizeJsonSingleQuotes hf, unambiguous_over_iff hf, ?_, ?_⟩
  · intro v w hv hw hvs hws h
    rw [formatExampleLine_eq hf hv, formatExampleLine_eq hf hw] at h
    exact (exampleLine_eq_iff hf hv hw hvs hws).mp (Option.some.inj h)
  · intro examples v hexamples hv hvs
    rw [formatExamplesBlock_concat_eq_iff hf (fun w hw => (hexamples w hw).1) hv]
    refine imp_congr_right fun _ => exists_congr fun w => and_congr_right fun hw => ?_
    obtain ⟨hw, hws⟩ := hexamples w hw
    rw [exampleLine_eq_iff hf hw hv hws hvs]

theorem minimizeJsonSingleQuotes_unambiguous_noFloats :
    Unambiguous (Json.noFloats : Json.FloatFormat Empty) Separable :=
  (minimizeJsonSingleQuotes_unambiguous Json.noFloats_lawful).1

def oneString : Json Empty := .arr [.str "','"]

def twoStrings : Json Empty := .arr [.str [], .str []]

/-- The quotes inside the one string read as the end of a string and the start of the next. -/
theorem minimizeJsonSingleQuotes_apostrophes :
    oneString ≠ twoStrings ∧
    minimizeJsonSingleQuotes Json.noFloats oneString = "['','']" ∧
    minimizeJsonSingleQuotes Json.noFloats twoStrings = "['','']" ∧
    formatExamplesBlock Json.noFloats 0 [.obj [("tags", oneString)], .obj [("tags", twoStrings)]] =
      formatExamplesBlock Json.noFloats 0 [.obj [("tags", oneString)]] := by
  refine ⟨by simp [oneString, twoStrings], by decide, by decide, by decide +kernel⟩

end ClearYourTools.Tools
