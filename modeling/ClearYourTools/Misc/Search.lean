import ClearYourTools.Misc.Text

/-!
# Searching a text for matches

The searching half of Python's `re`: a matcher says what it matches at the start of a text, and
`search`, `findAll` and `sub` look for the leftmost match, the matches one after the other, and
the text without them.
-/

namespace Misc

open List Option

/-- What is matched at the start of a text, and the rest of the text. -/
abbrev Matcher := Text → Option (Text × Text)

namespace Matcher

/-- `pattern.search(text)`: the text before the leftmost match, the match, and what follows. -/
def search (m : Matcher) : Text → Option (Text × Text × Text)
  | [] => (m []).map fun r => ([], r)
  | c :: t =>
    match m (c :: t) with
    | some r => some ([], r)
    | none => (search m t).map fun r => (c :: r.1, r.2)

/-- `pattern.findall(text)`, with the number of characters of the last match still to skip. -/
def findAllFrom (m : Matcher) : ℕ → Text → List Text
  | _, [] => []
  | skip + 1, _ :: t => findAllFrom m skip t
  | 0, c :: t =>
    match m (c :: t) with
    | some r => r.1 :: findAllFrom m (r.1.length - 1) t
    | none => findAllFrom m 0 t

def findAll (m : Matcher) (t : Text) : List Text := findAllFrom m 0 t

/-- `pattern.sub("", text)`, with the number of characters of the last match still to skip. -/
def removeAllFrom (m : Matcher) : ℕ → Text → Text
  | _, [] => []
  | skip + 1, _ :: t => removeAllFrom m skip t
  | 0, c :: t =>
    match m (c :: t) with
    | some r => removeAllFrom m (r.1.length - 1) t
    | none => c :: removeAllFrom m 0 t

def removeAll (m : Matcher) (t : Text) : Text := removeAllFrom m 0 t

def literal (p : Text) : Matcher := fun t =>
  if p.isPrefixOf t then some (p, t.drop p.length) else none

/-- `.*?p` for a literal `p`: up to and with the first occurrence. -/
def upTo (p : Text) : Matcher := fun t =>
  (search (literal p) t).map fun r => (r.1 ++ r.2.1, r.2.2)

/-- One matcher after another. -/
def andThen (m n : Matcher) : Matcher := fun t =>
  (m t).bind fun r => (n r.2).map fun s => (r.1 ++ s.1, s.2)

/-- A literal text whose letters are small, whatever the case of the letters found. `ſ` counts
as an `s`. -/
def literalIgnoreCase : Text → Matcher
  | [], t => some ([], t)
  | _ :: _, [] => none
  | l :: p, c :: t =>
    if c.toLower = l ∨ (l = 's' ∧ c.toNat = 0x17F) then
      (literalIgnoreCase p t).map fun r => (c :: r.1, r.2)
    else none

/-- `[p]*`. -/
def many (p : Char → Bool) : Matcher := fun t => some (t.takeWhile p, t.dropWhile p)

/-- `[p]+`. -/
def many1 (p : Char → Bool) : Matcher := fun t =>
  if t.takeWhile p = [] then none else some (t.takeWhile p, t.dropWhile p)

/-- What `f` gives at the first place of the text where it gives something. -/
def searchMap {α : Type} (f : Text → Option α) : Text → Option α
  | [] => f []
  | c :: t => (f (c :: t)).or (searchMap f t)

def openTag (opening : Text) : Matcher := (literal opening).andThen (upTo ['>'])

/-- `<tag[^>]*>.*?</tag>`. -/
def element (opening closing : Text) : Matcher := (openTag opening).andThen (upTo closing)

end Matcher

/-!
## Searching a text up to a character

A matcher stops at a character that it never takes: of a text with that character in it, the
matcher sees what is before the character.
-/

namespace Text

variable {p : Char → Bool}

theorem takeWhile_append_stop {c : Char} (hc : p c = false) (t r : Text) :
    (t ++ c :: r).takeWhile p = t.takeWhile p := by
  induction t with
  | nil => simp [hc]
  | cons d t ih =>
    rw [List.cons_append, takeWhile_cons, takeWhile_cons, ih]

theorem dropWhile_append_stop {c : Char} (hc : p c = false) (t r : Text) :
    (t ++ c :: r).dropWhile p = t.dropWhile p ++ c :: r := by
  induction t with
  | nil => simp [hc]
  | cons d t ih =>
    rw [List.cons_append, dropWhile_cons, dropWhile_cons, ih]
    split
    · rfl
    · rfl

/-- A run of characters that ends with the text, or at another character. -/
theorem takeWhile_run {t r : Text} (ht : ∀ c ∈ t, p c = true) (hr : ∀ c ∈ r.head?, p c = false) :
    (t ++ r).takeWhile p = t := by
  rw [takeWhile_append_of_pos ht]
  cases r with
  | nil => rw [takeWhile_nil, List.append_nil]
  | cons c r => rw [takeWhile_cons_of_neg (by simp [hr c rfl]), List.append_nil]

theorem dropWhile_run {t r : Text} (ht : ∀ c ∈ t, p c = true) (hr : ∀ c ∈ r.head?, p c = false) :
    (t ++ r).dropWhile p = r := by
  rw [dropWhile_append_of_pos ht]
  cases r with
  | nil => rfl
  | cons c r => rw [dropWhile_cons_of_neg (by simp [hr c rfl])]

end Text

namespace Matcher

variable {α β : Type}

/-- What a function reads off the start of a text does not go on at or behind the character. -/
def StopsAt (q : Char) (m : Text → Option (α × Text)) : Prop :=
  ∀ t r, m (t ++ q :: r) = (m t).map fun x => (x.1, x.2 ++ q :: r)

variable {q : Char}
variable {p : Text}

theorem literal_stopsAt (hq : q ∉ p) : StopsAt q (literal p) := by
  intro t r
  have hiff : p.isPrefixOf (t ++ q :: r) = p.isPrefixOf t := by
    rw [Bool.eq_iff_iff, isPrefixOf_iff_prefix, isPrefixOf_iff_prefix]
    refine ⟨fun h => ?_, fun h => h.trans (prefix_append t _)⟩
    by_cases hlen : p.length ≤ t.length
    · exact prefix_of_prefix_length_le h (prefix_append t _) hlen
    have hstart : t ++ [q] <+: t ++ q :: r := ⟨r, by rw [List.append_assoc, singleton_append]⟩
    have hlonger : (t ++ [q]).length ≤ p.length := by
      rw [length_append, length_singleton]
      omega
    have ht := prefix_of_prefix_length_le hstart h hlonger
    exact absurd (ht.subset (mem_append_right t mem_cons_self)) hq
  rw [literal, literal, hiff]
  split
  · rename_i hpre
    have hlen := ( isPrefixOf_iff_prefix.mp hpre).length_le
    rw [map_some, drop_append_of_le_length hlen]
  · rfl

theorem literalIgnoreCase_stopsAt (hq : q.toLower ∉ p) (hs : q.toNat ≠ 0x17F) :
    StopsAt q (literalIgnoreCase p) := by
  induction p with
  | nil => intro t r; rfl
  | cons l p ih =>
    rw [mem_cons, not_or] at hq
    intro t r
    cases t with
    | nil =>
      have hne : ¬ (q.toLower = l ∨ (l = 's' ∧ q.toNat = 0x17F)) := by
        rintro (h | ⟨-, h⟩)
        · exact hq.1 h
        · exact hs h
      show literalIgnoreCase (l :: p) (q :: r) = none
      rw [literalIgnoreCase, if_neg hne]
    | cons c t =>
      rw [List.cons_append, literalIgnoreCase, literalIgnoreCase, ih hq.2 t r]
      split
      · rw [Option.map_map, Option.map_map]
        rfl
      · rfl

theorem many_stopsAt {p : Char → Bool} (hq : p q = false) : StopsAt q (many p) := by
  intro t r
  rw [many, many, Text.takeWhile_append_stop hq, Text.dropWhile_append_stop hq]
  rfl

theorem many1_stopsAt {p : Char → Bool} (hq : p q = false) : StopsAt q (many1 p) := by
  intro t r
  rw [many1, many1, Text.takeWhile_append_stop hq, Text.dropWhile_append_stop hq]
  split
  · rfl
  · rfl

/-- One after another, where the second may depend on what the first has read. -/
theorem bind_stopsAt {m : Text → Option (α × Text)} {n : α → Text → Option (β × Text)}
    (hm : StopsAt q m) (hn : ∀ a, StopsAt q (n a)) :
    StopsAt q fun t => (m t).bind fun x => n x.1 x.2 := by
  intro t r
  simp only [hm t r]
  cases m t with
  | none => rfl
  | some x => exact hn x.1 x.2 r

variable {m : Matcher}
variable {n : Matcher}

theorem andThen_stopsAt (hm : StopsAt q m) (hn : StopsAt q n) : StopsAt q (m.andThen n) := by
  have hthen : ∀ a : Text, StopsAt q fun u => (n u).map fun s => (a ++ s.1, s.2) := by
    intro a t r
    simp only [hn t r, Option.map_map]
    rfl
  exact bind_stopsAt hm hthen

variable {t : Text}

theorem search_of_here {r : Text × Text} (h : m t = some r) : search m t = some ([], r) := by
  cases t with
  | nil => rw [search, h, map_some]
  | cons c t => rw [search, h]

/-- A search that finds nothing fails at every place. -/
theorem none_of_search_none (h : search m t = none) {v : Text} (hv : v <:+ t) : m v = none := by
  induction t with
  | nil =>
    rw [suffix_nil.mp hv]
    exact map_eq_none_iff.mp h
  | cons c t ih =>
    rw [search] at h
    split at h
    · cases h
    · rename_i hnone
      rcases suffix_cons_iff.mp hv with rfl | hv
      · exact hnone
      · exact ih (map_eq_none_iff.mp h) hv

variable {x : Text}

/-- Where a matcher fails at every place of a text, the search goes on behind it. -/
theorem search_append_of_none {y : Text} (h : ∀ v, v <:+ x → v ≠ [] → m (v ++ y) = none) :
    search m (x ++ y) = (search m y).map fun r => (x ++ r.1, r.2) := by
  induction x with
  | nil => simp
  | cons c x ih =>
    have hhere : m (c :: (x ++ y)) = none := h (c :: x) suffix_rfl (cons_ne_nil c x)
    have hlater := ih fun v hv => h v (hv.trans (suffix_cons c x))
    rw [List.cons_append, search, hhere]
    simp only
    rw [hlater, Option.map_map]
    rfl

theorem search_append_stop (hm : StopsAt q m) (h : search m x = none) (y : Text) :
    search m (x ++ q :: y) = (search m (q :: y)).map fun r => (x ++ r.1, r.2) :=
  search_append_of_none fun v hv _ => by rw [hm v y, none_of_search_none h hv]; rfl

variable {f : Text → Option α}

/-- The first place of the first text that gives something, or else of the second. -/
theorem searchMap_append {y : Text} (hnil : f [] = none)
    (h : ∀ v, v <:+ x → v ≠ [] → f (v ++ y) = f v) :
    searchMap f (x ++ y) = (searchMap f x).or (searchMap f y) := by
  induction x with
  | nil =>
    have hsearch : searchMap f [] = none := hnil
    rw [hsearch, none_or, nil_append]
  | cons c x ih =>
    have hhere : f (c :: (x ++ y)) = f (c :: x) := h (c :: x) suffix_rfl (cons_ne_nil c x)
    have hlater := ih fun v hv => h v (hv.trans (suffix_cons c x))
    rw [List.cons_append, searchMap, searchMap, hhere, hlater, Option.or_assoc]

theorem searchMap_of_here {a : α} (h : f t = some a) : searchMap f t = some a := by
  cases t with
  | nil => exact h
  | cons c t => rw [searchMap, h, some_or]

/-- What needs another thing at its place is found only where the other is found, or later. -/
theorem searchMap_isSome_of_needs {g : Text → Option β} (h : ∀ t, g t = none → f t = none)
    (hf : (searchMap f t).isSome = true) : (searchMap g t).isSome = true := by
  induction t with
  | nil =>
    cases hg : g [] with
    | none =>
      rw [searchMap, h [] hg] at hf
      cases hf
    | some b =>
      rw [searchMap, hg]
      rfl
  | cons c t ih =>
    rw [searchMap] at hf ⊢
    cases hg : g (c :: t) with
    | none =>
      rw [h _ hg, none_or] at hf
      exact ih hf
    | some b => rfl

/-!
## The places of the matches

The matches of a text one after the other, each with the text before and behind it. A matcher
that does not look behind the match matches the same wherever the match stands.
-/

/-- `pattern.finditer(text)` behind `before`, with the number of characters of the last match
still to skip: the text before each match, the match, and what follows. -/
def placesFrom (m : Matcher) : ℕ → Text → Text → List (Text × Text × Text)
  | _, _, [] => []
  | skip + 1, before, c :: t => placesFrom m skip (before ++ [c]) t
  | 0, before, c :: t =>
    match m (c :: t) with
    | some r => (before, r) :: placesFrom m (r.1.length - 1) (before ++ [c]) t
    | none => placesFrom m 0 (before ++ [c]) t

/-- `pattern.finditer(text)`. -/
def places (m : Matcher) (t : Text) : List (Text × Text × Text) := placesFrom m 0 [] t

/-- What the matcher gives is a start of the text and the rest of it. -/
def Splits (m : Matcher) : Prop := ∀ t x r, m t = some (x, r) → t = x ++ r

/-- A matcher that does not look behind what it matches. -/
structure IsLocal (m : Matcher) : Prop where
  splits : Splits m
  stays : ∀ t x r, m t = some (x, r) → ∀ s, m (x ++ s) = some (x, s)

variable {t : Text}

theorem literal_of_starts (h : p <+: t) : literal p t = some (p, t.drop p.length) := by
  rw [literal, if_pos ( isPrefixOf_iff_prefix.mpr h)]

theorem literal_append (p t : Text) : literal p (p ++ t) = some (p, t) := by
  rw [literal_of_starts (prefix_append p t), drop_left]

theorem literal_eq_none_iff : literal p t = none ↔ ¬ p <+: t := by
  rw [← isPrefixOf_iff_prefix, literal]
  split
  · rename_i h
    exact ⟨fun hnone => (by cases hnone), fun hnot => absurd h hnot⟩
  · rename_i h
    exact ⟨fun _ => h, fun _ => rfl⟩

variable {x r : Text}

theorem literal_eq_some (h : literal p t = some (x, r)) : x = p ∧ t = p ++ r := by
  rw [literal] at h
  split at h
  · rename_i hstart
    obtain ⟨s, rfl⟩ := isPrefixOf_iff_prefix.mp hstart
    cases h
    exact ⟨rfl, by rw [drop_left]⟩
  · cases h

theorem literal_isLocal (p : Text) : IsLocal (literal p) := by
  refine ⟨fun t x r h => ?_, fun t x r h s => ?_⟩
  · obtain ⟨rfl, ht⟩ := literal_eq_some h
    exact ht
  · obtain ⟨rfl, -⟩ := literal_eq_some h
    exact literal_append x s

variable {m : Matcher} {b a : Text}

/-- The leftmost match: nothing is matched at a place before it. -/
theorem search_eq_some_iff (hm : Splits m) :
    search m t = some (b, x, a) ↔ t = b ++ (x ++ a) ∧ m (x ++ a) = some (x, a) ∧
      ∀ v, v <:+ b → v ≠ [] → m (v ++ (x ++ a)) = none := by
  refine ⟨fun h => ?_, ?_⟩
  · induction t generalizing b with
    | nil =>
      rw [search] at h
      obtain ⟨r, hr, heq⟩ := map_eq_some_iff.mp h
      cases heq
      have ht := hm [] x a hr
      rw [← ht]
      exact ⟨rfl, hr, fun v hv hne => absurd (suffix_nil.mp hv) hne⟩
    | cons c t ih =>
      rw [search] at h
      split at h
      · rename_i r hr
        obtain ⟨y, s⟩ := r
        obtain ⟨rfl, hys⟩ := Prod.mk.inj (Option.some.inj h)
        obtain ⟨rfl, rfl⟩ := Prod.mk.inj hys
        have ht := hm (c :: t) y s hr
        rw [← ht]
        exact ⟨rfl, hr, fun v hv hne => absurd (suffix_nil.mp hv) hne⟩
      · rename_i hnone
        obtain ⟨⟨d, y, s⟩, hr, heq⟩ := map_eq_some_iff.mp h
        obtain ⟨rfl, hys⟩ := Prod.mk.inj heq
        obtain ⟨rfl, rfl⟩ := Prod.mk.inj hys
        obtain ⟨ht, hhere, hbefore⟩ := ih hr
        rw [ht] at hnone
        refine ⟨by rw [ht, List.cons_append], hhere, fun v hv hne => ?_⟩
        rcases suffix_cons_iff.mp hv with rfl | hv
        · exact hnone
        · exact hbefore v hv hne
  · rintro ⟨rfl, hhere, hbefore⟩
    rw [search_append_of_none hbefore, search_of_here hhere, map_some, List.append_nil]

theorem search_literal_eq_none_iff (hp : p ≠ []) : search (literal p) t = none ↔ ¬ p <:+: t := by
  constructor
  · rintro hnone ⟨x, y, rfl⟩
    have hsuffix : p ++ y <:+ x ++ p ++ y := ⟨x, (List.append_assoc x p y).symm⟩
    have hhere := none_of_search_none hnone hsuffix
    rw [literal_append] at hhere
    cases hhere
  · intro hnot
    have hempty : literal p [] = none := literal_eq_none_iff.mpr fun h => hp (prefix_nil.mp h)
    have hsearch := search_append_of_none (m := literal p) (x := t) (y := []) fun v hv _ => by
      rw [List.append_nil, literal_eq_none_iff]
      exact fun h => hnot (h.isInfix.trans hv.isInfix)
    rw [List.append_nil, search, hempty] at hsearch
    exact hsearch

/-- Where a literal is found first does not depend on what is behind it. -/
theorem search_literal_append (h : search (literal p) (b ++ (p ++ a)) = some (b, p, a))
    (s : Text) : search (literal p) (b ++ (p ++ s)) = some (b, p, s) := by
  have hsplits := (literal_isLocal p).splits
  rw [search_eq_some_iff hsplits] at h ⊢
  refine ⟨rfl, literal_append p s, fun v hv hne => ?_⟩
  have hbefore := h.2.2 v hv hne
  rw [literal_eq_none_iff] at hbefore ⊢
  intro hpre
  apply hbefore
  have hpiece : p <+: v ++ p := by
    refine prefix_of_prefix_length_le hpre ?_ (by simp)
    rw [← List.append_assoc]
    exact prefix_append _ s
  rw [← List.append_assoc]
  exact hpiece.trans (prefix_append _ a)

theorem upTo_eq_some (h : upTo p t = some (x, r)) :
    ∃ b, x = b ++ p ∧ t = b ++ (p ++ r) ∧ search (literal p) t = some (b, p, r) := by
  obtain ⟨⟨b, q, a⟩, hsearch, heq⟩ := map_eq_some_iff.mp h
  cases heq
  obtain ⟨ht, hhere, -⟩ := (search_eq_some_iff (literal_isLocal p).splits).mp hsearch
  obtain ⟨rfl, -⟩ := literal_eq_some hhere
  exact ⟨b, rfl, ht, hsearch⟩

theorem upTo_isLocal (p : Text) : IsLocal (upTo p) := by
  refine ⟨fun t x r h => ?_, fun t x r h s => ?_⟩
  · obtain ⟨b, rfl, ht, -⟩ := upTo_eq_some h
    rw [ht, List.append_assoc]
  · obtain ⟨b, rfl, ht, hsearch⟩ := upTo_eq_some h
    rw [ht] at hsearch
    rw [upTo, List.append_assoc, search_literal_append hsearch s, map_some]

theorem andThen_eq_some (h : m.andThen n t = some (x, r)) :
    ∃ y z u, x = y ++ z ∧ m t = some (y, u) ∧ n u = some (z, r) := by
  obtain ⟨⟨y, u⟩, hfirst, h⟩ := bind_eq_some_iff.mp h
  obtain ⟨⟨z, w⟩, hsecond, heq⟩ := map_eq_some_iff.mp h
  cases heq
  exact ⟨y, z, u, rfl, hfirst, hsecond⟩

theorem andThen_isLocal (hm : IsLocal m) (hn : IsLocal n) : IsLocal (m.andThen n) := by
  have hsome : ∀ t x r, m.andThen n t = some (x, r) →
      ∃ y z, x = y ++ z ∧ m t = some (y, z ++ r) ∧ n (z ++ r) = some (z, r) := by
    intro t x r h
    obtain ⟨y, z, u, rfl, hfirst, hsecond⟩ := andThen_eq_some h
    obtain rfl := hn.splits u z r hsecond
    exact ⟨y, z, rfl, hfirst, hsecond⟩
  refine ⟨fun t x r h => ?_, fun t x r h s => ?_⟩
  · obtain ⟨y, z, rfl, hfirst, -⟩ := hsome t x r h
    rw [hm.splits t y (z ++ r) hfirst, List.append_assoc]
  · obtain ⟨y, z, rfl, hfirst, hsecond⟩ := hsome t x r h
    rw [andThen, List.append_assoc, hm.stays t y _ hfirst, bind_some,
      hn.stays _ z r hsecond, map_some]

theorem openTag_isLocal (opening : Text) : IsLocal (openTag opening) :=
  andThen_isLocal (literal_isLocal opening) (upTo_isLocal _)

theorem element_isLocal (opening closing : Text) : IsLocal (element opening closing) :=
  andThen_isLocal (openTag_isLocal opening) (upTo_isLocal closing)

/-- What a local matcher finds first is also the first occurrence of its text. -/
theorem search_literal_of_search (hm : IsLocal m) (h : search m t = some (b, x, a)) :
    search (literal x) t = some (b, x, a) := by
  obtain ⟨rfl, hhere, hbefore⟩ := (search_eq_some_iff hm.splits).mp h
  rw [search_eq_some_iff (literal_isLocal x).splits]
  refine ⟨rfl, literal_append x a, fun v hv hne => ?_⟩
  rw [literal_eq_none_iff]
  rintro ⟨s, hs⟩
  have hmatch := hm.stays _ x a hhere s
  rw [hs, hbefore v hv hne] at hmatch
  cases hmatch

theorem literal_upTo_eq_some {p q : Text} (h : (literal p).andThen (upTo q) t = some (x, r)) :
    ∃ y, x = p ++ (y ++ q) := by
  obtain ⟨y, z, u, rfl, hfirst, hsecond⟩ := andThen_eq_some h
  obtain ⟨rfl, -⟩ := literal_eq_some hfirst
  obtain ⟨b, rfl, -⟩ := upTo_eq_some hsecond
  exact ⟨b, rfl⟩

theorem element_eq_some {opening closing : Text} (h : element opening closing t = some (x, r)) :
    ∃ y, x = opening ++ (y ++ closing) := by
  obtain ⟨y, z, u, rfl, hfirst, hsecond⟩ := andThen_eq_some h
  obtain ⟨v, rfl⟩ := literal_upTo_eq_some hfirst
  obtain ⟨b, rfl, -⟩ := upTo_eq_some hsecond
  exact ⟨v ++ (['>'] ++ b), by simp only [List.append_assoc]⟩

theorem findAllFrom_eq_places (m : Matcher) (skip : ℕ) (before t : Text) :
    findAllFrom m skip t = (placesFrom m skip before t).map fun p => p.2.1 := by
  induction t generalizing skip before with
  | nil => cases skip <;> rfl
  | cons c t ih =>
    cases skip with
    | succ skip => exact ih skip _
    | zero =>
      rw [findAllFrom, placesFrom]
      cases m (c :: t) with
      | none => exact ih 0 _
      | some r => exact congrArg (r.1 :: ·) (ih _ _)

theorem findAll_eq_places (m : Matcher) (t : Text) :
    findAll m t = (places m t).map fun p => p.2.1 := findAllFrom_eq_places m 0 [] t

variable {p : Text × Text × Text}
variable (hm : Splits m)
include hm

theorem mem_placesFrom {skip : ℕ} {before : Text} (h : p ∈ placesFrom m skip before t) :
    ∃ c, p.1 = before ++ c ∧ t = c ++ (p.2.1 ++ p.2.2) ∧ skip ≤ c.length ∧
      m (p.2.1 ++ p.2.2) = some p.2 := by
  induction t generalizing skip before with
  | nil => cases skip <;> cases h
  | cons d t ih =>
    -- a place behind the first character
    have hlater : ∀ {n}, p ∈ placesFrom m n (before ++ [d]) t →
        ∃ c, p.1 = before ++ c ∧ d :: t = c ++ (p.2.1 ++ p.2.2) ∧ n + 1 ≤ c.length ∧
          m (p.2.1 ++ p.2.2) = some p.2 := by
      intro n hn
      obtain ⟨c, hbefore, ht, hlen, hmatch⟩ := ih hn
      refine ⟨d :: c, ?_, ?_, ?_, hmatch⟩
      · rw [hbefore, List.append_assoc, singleton_append]
      · rw [List.cons_append, ← ht]
      · rw [length_cons]
        omega
    cases skip with
    | succ skip => exact hlater h
    | zero =>
      rw [placesFrom] at h
      split at h
      · rename_i r hr
        rcases mem_cons.mp h with rfl | h
        · have ht := hm _ r.1 r.2 hr
          exact ⟨[], (List.append_nil before).symm, ht, Nat.zero_le _, by rw [← ht]; exact hr⟩
        · obtain ⟨c, hbefore, ht, -, hmatch⟩ := hlater h
          exact ⟨c, hbefore, ht, Nat.zero_le _, hmatch⟩
      · obtain ⟨c, hbefore, ht, -, hmatch⟩ := hlater h
        exact ⟨c, hbefore, ht, Nat.zero_le _, hmatch⟩

theorem mem_places (h : p ∈ places m t) :
    t = p.1 ++ (p.2.1 ++ p.2.2) ∧ m (p.2.1 ++ p.2.2) = some p.2 := by
  obtain ⟨c, hbefore, ht, -, hmatch⟩ := mem_placesFrom hm h
  rw [hbefore, nil_append]
  exact ⟨ht, hmatch⟩

theorem infix_of_mem_findAll (h : x ∈ findAll m t) : x <:+: t := by
  rw [findAll_eq_places] at h
  obtain ⟨p, hp, rfl⟩ := List.mem_map.mp h
  rw [(mem_places hm hp).1, ← List.append_assoc]
  exact infix_append _ _ _

/-- The matches do not meet. -/
theorem placesFrom_disjoint (skip : ℕ) (before t : Text) :
    (placesFrom m skip before t).Pairwise fun p q => p.1.length + p.2.1.length ≤ q.1.length := by
  induction t generalizing skip before with
  | nil => cases skip <;> exact List.Pairwise.nil
  | cons c t ih =>
    cases skip with
    | succ skip => exact ih skip _
    | zero =>
      rw [placesFrom]
      split
      · refine pairwise_cons.mpr ⟨fun q hq => ?_, ih _ _⟩
        obtain ⟨d, hbefore, -, hlen, -⟩ := mem_placesFrom hm hq
        rw [hbefore, length_append, length_append, length_singleton]
        dsimp only
        omega
      · exact ih _ _

/-- Of two matches one stands before the other, or they are the same. -/
theorem places_apart {q : Text × Text × Text} (hp : p ∈ places m t) (hq : q ∈ places m t) :
    p = q ∨ p.1.length + p.2.1.length ≤ q.1.length ∨ q.1.length + q.2.1.length ≤ p.1.length := by
  have hdisjoint := pairwise_iff_getElem.mp (placesFrom_disjoint hm 0 [] t)
  obtain ⟨i, hi, rfl⟩ := getElem_of_mem hp
  obtain ⟨j, hj, rfl⟩ := getElem_of_mem hq
  rcases Nat.lt_trichotomy i j with hlt | rfl | hlt
  · exact .inr (.inl (hdisjoint i j hi hj hlt))
  · exact .inl rfl
  · exact .inr (.inr (hdisjoint j i hj hi hlt))

end Matcher

end Misc
