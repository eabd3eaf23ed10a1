import ClearYourTools.Misc.Dict
import ClearYourTools.Misc.Text

/-!
# JSON

The values that Python's `json` module reads and writes, `json.dumps` with compact separators,
and `json.loads`. A float is kept abstract: `FloatFormat` gives how it is written and read.
The reader is a machine on characters that emits tokens, followed by a machine on tokens.
-/

namespace Misc

open List
open Prod (fst)

/-- A Python value made of what JSON has. An object is the list of its items in insertion
order. -/
inductive Json (φ : Type) where
  | null
  | bool (b : Bool)
  | int (n : ℤ)
  | float (x : φ)
  | str (s : Text)
  | arr (items : List (Json φ))
  | obj (fields : List (Text × Json φ))

namespace Json

variable {φ : Type}

/-- Induction on a value, with the items of an array and the values of an object at once. -/
@[induction_eliminator]
theorem induction {P : Json φ → Prop} (null : P null) (bool : ∀ b, P (bool b))
    (int : ∀ n, P (int n)) (float : ∀ x, P (float x)) (str : ∀ s, P (str s))
    (arr : ∀ items, (∀ v ∈ items, P v) → P (arr items))
    (obj : ∀ fields : List (Text × Json φ), (∀ kv ∈ fields, P kv.2) → P (obj fields)) :
    ∀ v, P v := by
  refine @Json.rec φ P (fun items => ∀ v ∈ items, P v) (fun fields => ∀ kv ∈ fields, P kv.2)
    (fun kv => P kv.2) null bool int float str arr obj ?_ ?_ ?_ ?_ ?_
  · intro v hv
    cases hv
  · intro v items hv hitems w hw
    rcases mem_cons.mp hw with rfl | hw
    · exact hv
    · exact hitems w hw
  · intro kv hkv
    cases hkv
  · intro kv fields hkv hfields x hx
    rcases mem_cons.mp hx with rfl | hx
    · exact hkv
    · exact hfields x hx
  · intro k v hv
    exact hv

/-- `value.get(key)` on an object. -/
def get? (fields : List (Text × Json φ)) (key : Text) : Option (Json φ) := fields.lookup key

/-- `value[key] = item` on an object. -/
def set (fields : List (Text × Json φ)) (key : Text) (item : Json φ) : List (Text × Json φ) :=
  Dict.setEntries key item fields

theorem get?_set (fields : List (Text × Json φ)) (key key' : Text) (v : Json φ) :
    get? (set fields key v) key' = if key' = key then some v else get? fields key' := by
  induction fields with
  | nil =>
    rw [set, Dict.setEntries, get?, lookup_cons]
    by_cases h : key' = key
    · simp [h]
    · rw [beq_false_of_ne h, if_neg h]
      rfl
  | cons kv kvs ih =>
    rw [set, get?] at ih
    rw [set, get?, Dict.setEntries]
    by_cases hkey : kv.1 = key
    · rw [if_pos hkey, lookup_cons]
      by_cases h : key' = key
      · simp [h]
      · have hne : key' ≠ kv.1 := by
          rintro rfl
          exact h hkey
        rw [beq_false_of_ne h, if_neg h, get?, lookup_cons, beq_false_of_ne hne]
    · rw [if_neg hkey, lookup_cons, ih, get?, get?, lookup_cons]
      by_cases h : key' = kv.1
      · rw [h, beq_self_eq_true]
        exact (if_neg hkey).symm
      · rw [beq_false_of_ne h]

@[simp] theorem get?_set_self (fields : List (Text × Json φ)) (key : Text) (v : Json φ) :
    get? (set fields key v) key = some v := by
  rw [get?_set, if_pos rfl]

variable {fields : List (Text × Json φ)}

theorem get?_set_of_ne {key key' : Text} (h : key' ≠ key) (v : Json φ) :
    get? (set fields key v) key' = get? fields key' := by
  rw [get?_set, if_neg h]

/-- Writing what a key holds already changes nothing. -/
theorem set_of_get? {key : Text} {v : Json φ} (h : get? fields key = some v) :
    set fields key v = fields := by
  induction fields with
  | nil => cases h
  | cons kv kvs ih =>
    rw [set, Dict.setEntries]
    by_cases hkey : kv.1 = key
    · rw [get?, ← hkey, lookup_cons_self] at h
      cases h
      rw [if_pos hkey, ← hkey]
    · have hne : (key == kv.1) = false := beq_false_of_ne (Ne.symm hkey)
      rw [get?, lookup_cons, hne] at h
      rw [if_neg hkey]
      exact congrArg (kv :: ·) (ih h)

def str? : Json φ → Option Text
  | .str s => some s
  | _ => none

mutual

/-- The keys of every object of the value are distinct. -/
def Valid : Json φ → Prop
  | .arr items => ValidItems items
  | .obj fields => (fields.map Prod.fst).Nodup ∧ ValidFields fields
  | _ => True

def ValidItems : List (Json φ) → Prop
  | [] => True
  | v :: vs => Valid v ∧ ValidItems vs

def ValidFields : List (Text × Json φ) → Prop
  | [] => True
  | (_, v) :: kvs => Valid v ∧ ValidFields kvs

end

mutual

/-- Every string of the value, the keys included. -/
def strings : Json φ → List Text
  | .str s => [s]
  | .arr items => stringsItems items
  | .obj fields => stringsFields fields
  | _ => []

def stringsItems : List (Json φ) → List Text
  | [] => []
  | v :: vs => strings v ++ stringsItems vs

def stringsFields : List (Text × Json φ) → List Text
  | [] => []
  | (k, v) :: kvs => k :: (strings v ++ stringsFields kvs)

end

theorem validItems_iff {items : List (Json φ)} : ValidItems items ↔ ∀ v ∈ items, v.Valid := by
  induction items with
  | nil => simp [ValidItems]
  | cons v vs ih => simp [ValidItems, ih]

theorem validFields_iff : ValidFields fields ↔ ∀ kv ∈ fields, kv.2.Valid := by
  induction fields with
  | nil => simp [ValidFields]
  | cons kv kvs ih => simp [ValidFields, ih]

theorem valid_obj_iff :
    (obj fields).Valid ↔ (fields.map fst).Nodup ∧ ∀ kv ∈ fields, kv.2.Valid := by
  rw [Valid, validFields_iff]

variable (c : Char)

def isAtomChar : Bool := c.isAlphanum || c == '+' || c == '-' || c == '.'

/-- `0|[1-9][0-9]*`. -/
def readNat (ds : Text) : Option ℕ :=
  if ds = [] ∨ ¬ ds.all Char.isDigit ∨ (ds.head? = some '0' ∧ ds.length ≠ 1) then none
  else some (Nat.ofDigitChars 10 ds 0)

/-- `-?(0|[1-9][0-9]*)`. -/
def readInt : Text → Option ℤ
  | '-' :: ds => (readNat ds).map fun n => -(n : ℤ)
  | ds => (readNat ds).map fun n => (n : ℤ)

/-- `int.__repr__`. -/
def ofInt : ℤ → Text
  | .ofNat n => Text.ofNat n
  | .negSucc n => '-' :: Text.ofNat (n + 1)

/-- How floats are written (`float.__repr__`), which of them a JSON literal reads as, and which
of them are zero. -/
structure FloatFormat (φ : Type) where
  repr : φ → Text
  read : Text → Option φ
  isZero : φ → Bool

def nullWord : Text := "null"
def trueWord : Text := "true"
def falseWord : Text := "false"

/-- A float is written as a literal that reads back as it, and that is neither an integer nor
one of the three words. -/
structure FloatFormat.Lawful (f : FloatFormat φ) : Prop where
  read_repr : ∀ x, f.read (f.repr x) = some x
  repr_ne_nil : ∀ x, f.repr x ≠ []
  atom : ∀ x, ∀ c ∈ f.repr x, isAtomChar c = true
  not_int : ∀ x, readInt (f.repr x) = none
  not_null : ∀ x, f.repr x ≠ nullWord
  not_true : ∀ x, f.repr x ≠ trueWord
  not_false : ∀ x, f.repr x ≠ falseWord

/-- What Python's `str` gives for a value that is no string. -/
structure PyFormat (φ : Type) extends FloatFormat φ where
  strOther : Json φ → Text

instance : Coe (PyFormat φ) (FloatFormat φ) := ⟨PyFormat.toFloatFormat⟩

variable (p : PyFormat φ)

/-- `str(value)`. -/
def toStr : Json φ → Text
  | .str s => s
  | v => p.strOther v

/-- `bool(value)`. -/
def truthy : Json φ → Bool
  | .null => false
  | .bool b => b
  | .int n => n != 0
  | .float x => !p.isZero x
  | .str s => !s.isEmpty
  | .arr items => !items.isEmpty
  | .obj fields => !fields.isEmpty

/-- `value or other` for a value that may be missing. -/
def orElse (v other : Option (Json φ)) : Option (Json φ) :=
  match v with
  | some v => if truthy p v then some v else other
  | none => other

/-- `str(fields.get(key) or default)`. -/
def strOr (fields : List (Text × Json φ)) (key default : Text) : Text :=
  match orElse p (get? fields key) none with
  | some v => toStr p v
  | none => default

/-- Values without floats. -/
def noFloats : PyFormat Empty where
  repr := Empty.elim
  read _ := none
  isZero := Empty.elim
  strOther _ := []

theorem noFloats_lawful : noFloats.toFloatFormat.Lawful :=
  ⟨fun x => x.elim, fun x => x.elim, fun x => x.elim, fun x => x.elim, fun x => x.elim,
    fun x => x.elim, fun x => x.elim⟩

/-- `'\\u{0:04x}'.format(n)`. -/
def uEscape (n : ℕ) : Text :=
  ['\\', 'u', Nat.digitChar (n / 4096), Nat.digitChar (n / 256 % 16),
    Nat.digitChar (n / 16 % 16), Nat.digitChar (n % 16)]

/-- The escape of one character; `ascii` is `ensure_ascii`. -/
def escapeChar (ascii : Bool) (c : Char) : Text :=
  if c = '"' then ['\\', '"']
  else if c = '\\' then ['\\', '\\']
  else if c = '\n' then ['\\', 'n']
  else if c = '\r' then ['\\', 'r']
  else if c = '\t' then ['\\', 't']
  else if c.toNat = 0x8 then ['\\', 'b']
  else if c.toNat = 0xC then ['\\', 'f']
  else if c.toNat < 0x20 then uEscape c.toNat
  else if ascii = true ∧ 0x7F ≤ c.toNat then
    if c.toNat < 0x10000 then uEscape c.toNat
    else
      -- a surrogate pair
      uEscape (0xD800 + (c.toNat - 0x10000) / 0x400) ++
        uEscape (0xDC00 + (c.toNat - 0x10000) % 0x400)
  else [c]

def quote (ascii : Bool) (s : Text) : Text := '"' :: (s.flatMap (escapeChar ascii) ++ ['"'])

mutual

/-- `json.dumps(value, separators=(",", ":"), ensure_ascii=ascii)`. -/
def dumps (f : FloatFormat φ) (ascii : Bool) : Json φ → Text
  | .null => nullWord
  | .bool b => if b then trueWord else falseWord
  | .int n => ofInt n
  | .float x => f.repr x
  | .str s => quote ascii s
  | .arr [] => ['[', ']']
  | .arr (v :: vs) => '[' :: (dumps f ascii v ++ dumpsItems f ascii vs)
  | .obj [] => ['{', '}']
  | .obj ((k, v) :: kvs) =>
    '{' :: (quote ascii k ++ ':' :: (dumps f ascii v ++ dumpsFields f ascii kvs))

/-- What follows the first item of an array. -/
def dumpsItems (f : FloatFormat φ) (ascii : Bool) : List (Json φ) → Text
  | [] => [']']
  | v :: vs => ',' :: (dumps f ascii v ++ dumpsItems f ascii vs)

/-- What follows the first item of an object. -/
def dumpsFields (f : FloatFormat φ) (ascii : Bool) : List (Text × Json φ) → Text
  | [] => ['}']
  | (k, v) :: kvs =>
    ',' :: (quote ascii k ++ ':' :: (dumps f ascii v ++ dumpsFields f ascii kvs))

end

inductive Token where
  | lbrace
  | rbrace
  | lbracket
  | rbracket
  | colon
  | comma
  | str (s : Text)
  | atom (a : Text)
deriving DecidableEq

/-- Where the scanner is: outside a token, in a literal, in a string (its characters in reverse
order), after a backslash, in the digits of a `\u` escape, or before the second half of a
surrogate pair. -/
inductive Mode where
  | start
  | atom (rev : Text)
  | str (rev : Text)
  | escape (rev : Text)
  | hex (rev : Text) (high : Option ℕ) (value digitsLeft : ℕ)
  | low (rev : Text) (high : ℕ)
  | lowEscape (rev : Text) (high : ℕ)
deriving DecidableEq

def isJsonSpace : Bool := c == ' ' || c == '\t' || c == '\n' || c == '\r'

/-- A character outside a string and outside a literal. -/
def lexOutside : Option (List Token × Mode) :=
  if isJsonSpace c then some ([], .start)
  else if c = '{' then some ([.lbrace], .start)
  else if c = '}' then some ([.rbrace], .start)
  else if c = '[' then some ([.lbracket], .start)
  else if c = ']' then some ([.rbracket], .start)
  else if c = ':' then some ([.colon], .start)
  else if c = ',' then some ([.comma], .start)
  else if c = '"' then some ([], .str [])
  else if isAtomChar c then some ([], .atom [c])
  else none

def unescape : Option Char :=
  if c = '"' ∨ c = '\\' ∨ c = '/' then some c
  else if c = 'n' then some '\n'
  else if c = 'r' then some '\r'
  else if c = 't' then some '\t'
  else if c = 'b' then some (Char.ofNat 0x8)
  else if c = 'f' then some (Char.ofNat 0xC)
  else none

def hexValue : Option ℕ :=
  if c.isDigit then some (c.toNat - 48)
  else if 'a'.toNat ≤ c.toNat ∧ c.toNat ≤ 'f'.toNat then some (c.toNat - 87)
  else if 'A'.toNat ≤ c.toNat ∧ c.toNat ≤ 'F'.toNat then some (c.toNat - 55)
  else none

/-- What a whole `\u` escape stands for. A lone surrogate is no character, and a text with one
is not read. -/
def decodeEscape (rev : Text) (high : Option ℕ) (n : ℕ) : Option Mode :=
  match high with
  | none =>
    if 0xD800 ≤ n ∧ n ≤ 0xDBFF then some (.low rev n)
    else if 0xDC00 ≤ n ∧ n ≤ 0xDFFF then none
    else some (.str (Char.ofNat n :: rev))
  | some h =>
    if 0xDC00 ≤ n ∧ n ≤ 0xDFFF then
      some (.str (Char.ofNat (0x10000 + (h - 0xD800) * 0x400 + (n - 0xDC00)) :: rev))
    else none

def lexStep : Mode → Char → Option (List Token × Mode)
  | .start, c => lexOutside c
  | .atom rev, c =>
    if isAtomChar c then some ([], .atom (c :: rev))
    else (lexOutside c).map fun r => (.atom rev.reverse :: r.1, r.2)
  | .str rev, c =>
    if c = '"' then some ([.str rev.reverse], .start)
    else if c = '\\' then some ([], .escape rev)
    else if c.toNat < 0x20 then none
    else some ([], .str (c :: rev))
  | .escape rev, c =>
    if c = 'u' then some ([], .hex rev none 0 3)
    else (unescape c).map fun d => ([], .str (d :: rev))
  | .hex rev high value digitsLeft, c =>
    (hexValue c).bind fun d =>
      if digitsLeft = 0 then (decodeEscape rev high (16 * value + d)).map fun m => ([], m)
      else some ([], .hex rev high (16 * value + d) (digitsLeft - 1))
  | .low rev h, c => if c = '\\' then some ([], .lowEscape rev h) else none
  | .lowEscape rev h, c => if c = 'u' then some ([], .hex rev (some h) 0 3) else none

/-- The token that the end of the text ends. -/
def lexEnd : Mode → Option (List Token)
  | .start => some []
  | .atom rev => some [.atom rev.reverse]
  | _ => none

def lex : Mode → Text → Option (List Token)
  | m, [] => lexEnd m
  | m, c :: t => (lexStep m c).bind fun r => (lex r.2 t).map fun rest => r.1 ++ rest

def tokens (t : Text) : Option (List Token) := lex .start t

/-- An array or object that is open, what it has so far in reverse order. -/
inductive Frame (φ : Type) where
  | items (rev : List (Json φ))
  | fields (rev : List (Text × Json φ))
  | member (rev : List (Text × Json φ)) (key : Text)

/-- What comes next. -/
inductive Expect (φ : Type) where
  | value
  | valueOrClose
  | keyOrClose
  | key
  | colon (k : Text)
  | after (v : Json φ)

/-- `dict(pairs)`. -/
def ofPairs (pairs : List (Text × Json φ)) : List (Text × Json φ) :=
  pairs.foldl (fun fields kv => set fields kv.1 kv.2) []

/-- The value of a literal. -/
def ofAtom (f : FloatFormat φ) (a : Text) : Option (Json φ) :=
  if a = nullWord then some .null
  else if a = trueWord then some (.bool true)
  else if a = falseWord then some (.bool false)
  else
    match readInt a with
    | some n => some (.int n)
    | none => (f.read a).map .float

abbrev ParseState (φ : Type) := List (Frame φ) × Expect φ

/-- A token where a value may start. -/
def startValue (f : FloatFormat φ) (stack : List (Frame φ)) : Token → Option (ParseState φ)
  | .str s => some (stack, .after (.str s))
  | .atom a => (ofAtom f a).map fun v => (stack, .after v)
  | .lbracket => some (.items [] :: stack, .valueOrClose)
  | .lbrace => some (.fields [] :: stack, .keyOrClose)
  | _ => none

def parseStep (f : FloatFormat φ) : ParseState φ → Token → Option (ParseState φ)
  | (stack, .value), t => startValue f stack t
  | (.items [] :: stack, .valueOrClose), .rbracket => some (stack, .after (.arr []))
  | (stack, .valueOrClose), t => startValue f stack t
  | (.fields [] :: stack, .keyOrClose), .rbrace => some (stack, .after (.obj []))
  | (stack, .keyOrClose), .str k => some (stack, .colon k)
  | (stack, .key), .str k => some (stack, .colon k)
  | (.fields rev :: stack, .colon k), .colon => some (.member rev k :: stack, .value)
  | (.items rev :: stack, .after v), .comma => some (.items (v :: rev) :: stack, .value)
  | (.items rev :: stack, .after v), .rbracket =>
    some (stack, .after (.arr (v :: rev).reverse))
  | (.member rev k :: stack, .after v), .comma => some (.fields ((k, v) :: rev) :: stack, .key)
  | (.member rev k :: stack, .after v), .rbrace =>
    some (stack, .after (.obj (ofPairs ((k, v) :: rev).reverse)))
  | _, _ => none

def parseFrom (f : FloatFormat φ) : ParseState φ → List Token → Option (ParseState φ)
  | s, [] => some s
  | s, t :: ts => (parseStep f s t).bind fun s' => parseFrom f s' ts

def parseEnd : ParseState φ → Option (Json φ)
  | ([], .after v) => some v
  | _ => none

/-- `json.loads(text)`; `none` is a `JSONDecodeError`. -/
def loads (f : FloatFormat φ) (t : Text) : Option (Json φ) :=
  (tokens t).bind fun ts => (parseFrom f ([], .value) ts).bind parseEnd

/-!
## Merging dictionaries

`{**base, **fields}`, and a merge that goes on in the dictionaries that stand under one key on both
sides.
-/

theorem get?_cons (kv : Text × Json φ) (fields : List (Text × Json φ)) (k : Text) :
    get? (kv :: fields) k = if k = kv.1 then some kv.2 else get? fields k := by
  unfold get?
  split
  · rename_i hk
    rw [hk, lookup_cons_self]
  · rename_i hk
    rw [lookup_cons, beq_false_of_ne hk]

theorem get?_map_snd (fields : List (Text × Json φ)) (g : Text → Json φ → Json φ) (k : Text) :
    get? (fields.map fun kv => (kv.1, g kv.1 kv.2)) k = (get? fields k).map (g k) := by
  induction fields with
  | nil => rfl
  | cons kv fields ih =>
    rw [map_cons, get?_cons, get?_cons, ih]
    split
    · rename_i hk
      rw [hk]
      rfl
    · rfl

theorem get?_append (fields fields' : List (Text × Json φ)) (k : Text) :
    get? (fields ++ fields') k = (get? fields k).or (get? fields' k) := by
  induction fields with
  | nil => rfl
  | cons kv fields ih =>
    rw [List.cons_append, get?_cons, get?_cons, ih]
    split <;> rfl

theorem get?_filter_key (fields : List (Text × Json φ)) (q : Text → Bool) (k : Text) :
    get? (fields.filter fun kv => q kv.1) k = if q k then get? fields k else none := by
  induction fields with
  | nil => exact (ite_self none).symm
  | cons kv fields ih =>
    rw [filter_cons, get?_cons]
    by_cases hk : k = kv.1
    · subst hk
      split
      · rw [get?_cons, if_pos rfl, if_pos rfl]
      · rename_i hq
        rw [ih, if_neg hq]
    · rw [if_neg hk]
      split
      · rw [get?_cons, if_neg hk, ih]
      · exact ih

/-- The fields under keys that `base` does not have. -/
def newFields (base fields : List (Text × Json φ)) : List (Text × Json φ) :=
  fields.filter fun kv => (get? base kv.1).isNone

theorem get?_newFields (base fields : List (Text × Json φ)) (k : Text) :
    get? (newFields base fields) k = if (get? base k).isNone then get? fields k else none :=
  get?_filter_key fields (fun k => (get? base k).isNone) k

/-- `{**base, **fields}`. -/
def overlaid (base fields : List (Text × Json φ)) : List (Text × Json φ) :=
  base.map (fun kv => (kv.1, (get? fields kv.1).getD kv.2)) ++ newFields base fields

theorem get?_overlaid (base fields : List (Text × Json φ)) (k : Text) :
    get? (overlaid base fields) k = (get? fields k).or (get? base k) := by
  rw [overlaid, get?_append, get?_map_snd base (fun k v => (get? fields k).getD v), get?_newFields]
  cases get? base k <;> cases get? fields k <;> rfl

mutual

/-- What a value becomes under a value of the overlay. -/
def mergedValue : Json φ → Json φ → Json φ
  | .obj base, .obj overlay => .obj (mergedFields base overlay ++ newFields base overlay)
  | _, overlay => overlay

/-- The fields of `base` with what the overlay makes of them. -/
def mergedFields : List (Text × Json φ) → List (Text × Json φ) → List (Text × Json φ)
  | [], _ => []
  | (k, v) :: base, overlay =>
    (k, match get? overlay k with
      | some value => mergedValue v value
      | none => v) :: mergedFields base overlay

end

variable (base overlay : List (Text × Json φ))

def deepMerge : List (Text × Json φ) := mergedFields base overlay ++ newFields base overlay

theorem mergedValue_obj :
    mergedValue (.obj base) (.obj overlay) = .obj (deepMerge base overlay) := by
  rw [mergedValue, deepMerge]

theorem mergedFields_eq :
    mergedFields base overlay = base.map fun kv => (kv.1, ((get? overlay kv.1).map
      (mergedValue kv.2)).getD kv.2) := by
  induction base with
  | nil => rw [mergedFields, map_nil]
  | cons kv base ih =>
    obtain ⟨k, v⟩ := kv
    rw [mergedFields, map_cons, ih]
    cases get? overlay k <;> rfl

theorem get?_deepMerge (k : Text) :
    get? (deepMerge base overlay) k =
      match get? base k, get? overlay k with
      | some v, some value => some (mergedValue v value)
      | v, none => v
      | none, value => value := by
  rw [deepMerge, mergedFields_eq, get?_append,
    get?_map_snd base (fun k v => ((get? overlay k).map (mergedValue v)).getD v), get?_newFields]
  cases get? base k <;> cases get? overlay k <;> rfl

/-!
## Paths in nested dictionaries

Reading, writing and removing the value at a path of keys. A write makes the dictionaries on its
way, also in place of a value that is none.
-/

/-- The dictionary of a value, or an empty one. -/
def fieldsOr : Option (Json φ) → List (Text × Json φ)
  | some (.obj fields) => fields
  | _ => []

/-- The value is there and not `None`. -/
def isPresent : Option (Json φ) → Bool
  | none | some .null => false
  | _ => true

/-- `fields.pop(key, None)`. -/
def popKey (fields : List (Text × Json φ)) (key : Text) : List (Text × Json φ) :=
  fields.filter fun kv => !(kv.1 == key)

theorem get?_popKey (fields : List (Text × Json φ)) (key k : Text) :
    get? (popKey fields key) k = if k = key then none else get? fields k := by
  rw [popKey, get?_filter_key fields (fun k => !(k == key)) k]
  by_cases hk : k = key
  · rw [if_pos hk, beq_iff_eq.mpr hk]
    rfl
  · rw [if_neg hk, beq_false_of_ne hk]
    rfl

variable {fields : List (Text × Json φ)} {key k : Text}

theorem get?_popKey_of_ne (h : k ≠ key) : get? (popKey fields key) k = get? fields k := by
  rw [get?_popKey, if_neg h]

/-- What is set and then removed leaves nothing. -/
theorem popKey_set (fields : List (Text × Json φ)) (key : Text) (v : Json φ) :
    popKey (set fields key v) key = popKey fields key := by
  unfold popKey set
  induction fields with
  | nil => simp [Dict.setEntries]
  | cons field fields ih =>
    unfold Dict.setEntries
    by_cases hkey : field.1 = key
    · simp [hkey]
    · simp [hkey, ih]

/-- The value at the end of a path. -/
def getPath (fields : List (Text × Json φ)) : List Text → Option (Json φ)
  | [] => some (.obj fields)
  | [key] => get? fields key
  | key :: keys =>
    match get? fields key with
    | some (.obj block) => getPath block keys
    | _ => none

/-- The dictionary with a value at the end of a path. -/
def setPath (fields : List (Text × Json φ)) (value : Json φ) : List Text → List (Text × Json φ)
  | [] => fields
  | [key] => set fields key value
  | key :: keys => set fields key (.obj (setPath (fieldsOr (get? fields key)) value keys))

/-- The dictionary without the value at the end of a path. -/
def popPath (fields : List (Text × Json φ)) : List Text → List (Text × Json φ)
  | [] => fields
  | [key] => popKey fields key
  | key :: keys =>
    match get? fields key with
    | some (.obj block) => set fields key (.obj (popPath block keys))
    | _ => fields

/-- A write at a path leaves the other keys alone. -/
theorem get?_setPath_of_ne (h : k ≠ key) (value : Json φ) (keys : List Text) :
    get? (setPath fields value (key :: keys)) k = get? fields k := by
  cases keys with
  | nil => exact get?_set_of_ne h value
  | cons key' keys => exact get?_set_of_ne h _

theorem get?_popPath_of_ne (h : k ≠ key) (keys : List Text) :
    get? (popPath fields (key :: keys)) k = get? fields k := by
  cases keys with
  | nil => exact get?_popKey_of_ne h
  | cons key' keys =>
    rw [popPath]
    split
    · exact get?_set_of_ne h _
    · rfl
    · exact cons_ne_nil key' keys

/-!
## What is read is a value

`json.loads` keeps one value for each key of an object: whatever it reads, the keys of every object
are distinct.
-/

variable {f : FloatFormat φ}

variable {fields : List (Text × Json φ)}

theorem nodup_set (h : (fields.map fst).Nodup) (key : Text) (v : Json φ) :
    ((set fields key v).map fst).Nodup := Dict.nodup_setEntries key v fields h

variable {key : Text} {v : Json φ}

theorem mem_set {kv : Text × Json φ} (h : kv ∈ set fields key v) :
    kv = (key, v) ∨ kv ∈ fields := Dict.mem_setEntries h

theorem Valid.set (h : (obj fields).Valid) (key : Text) (hv : v.Valid) :
    (obj (set fields key v)).Valid := by
  rw [valid_obj_iff] at h ⊢
  refine ⟨nodup_set h.1 key v, ?_⟩
  intro kv hkv
  rcases mem_set hkv with rfl | hkv
  · exact hv
  · exact h.2 kv hkv

theorem Valid.sublist {fields' : List (Text × Json φ)} (h : (obj fields).Valid)
    (hsub : fields'.Sublist fields) : (obj fields').Valid := by
  rw [valid_obj_iff] at h ⊢
  exact ⟨(hsub.map fst).nodup h.1, fun kv hkv => h.2 kv (hsub.subset hkv)⟩

theorem Valid.get? (h : (obj fields).Valid) (hv : Json.get? fields key = some v) : v.Valid := by
  obtain ⟨before, after, rfl, -⟩ := lookup_eq_some_iff.mp hv
  exact (valid_obj_iff.mp h).2 (key, v) (mem_append_right before mem_cons_self)

theorem valid_ofPairs {pairs : List (Text × Json φ)} (h : ∀ kv ∈ pairs, kv.2.Valid) :
    (obj (ofPairs pairs)).Valid := by
  unfold ofPairs
  induction pairs using List.reverseRecOn with
  | nil => exact ⟨nodup_nil, trivial⟩
  | append_singleton pairs kv ih =>
    rw [foldl_concat]
    exact (ih fun kv' hkv' => h kv' (mem_append_left _ hkv')).set kv.1
      (h kv (mem_append_right _ (mem_singleton_self kv)))

theorem get?_eq_none_iff : Json.get? fields key = none ↔ key ∉ fields.map fst := by
  rw [Json.get?, lookup_eq_none_iff, mem_map, not_exists]
  constructor
  · rintro h kv ⟨hkv, rfl⟩
    exact bne_iff_ne.mp (h kv hkv) rfl
  · intro h kv hkv
    exact bne_iff_ne.mpr fun heq => h kv ⟨hkv, heq.symm⟩

/-- Under distinct keys every item is the one that its key is looked up to. -/
theorem get?_of_mem (hnodup : (fields.map fst).Nodup) {kv : Text × Json φ} (h : kv ∈ fields) :
    Json.get? fields kv.1 = some kv.2 := by
  induction fields with
  | nil => cases h
  | cons kv' fields ih =>
    rw [map_cons, nodup_cons] at hnodup
    rw [get?_cons]
    rcases mem_cons.mp h with rfl | h
    · exact if_pos rfl
    · have hne : kv.1 ≠ kv'.1 := fun heq => hnodup.1 (heq ▸ mem_map_of_mem h)
      rw [if_neg hne]
      exact ih hnodup.2 h

theorem valid_overlaid {base : List (Text × Json φ)} (hbase : (obj base).Valid)
    (hfields : (obj fields).Valid) : (obj (overlaid base fields)).Valid := by
  have hnew : (obj (newFields base fields)).Valid := hfields.sublist filter_sublist
  have hkeys : (base.map fun kv => (kv.1, (Json.get? fields kv.1).getD kv.2)).map fst =
      base.map fst := by
    rw [List.map_map]
    rfl
  rw [valid_obj_iff] at hnew ⊢
  constructor
  · rw [overlaid, map_append, hkeys, nodup_append]
    refine ⟨(valid_obj_iff.mp hbase).1, hnew.1, ?_⟩
    intro key hkey key' hkey' heq
    obtain ⟨kv, hkv, rfl⟩ := mem_map.mp hkey'
    have hnone : Json.get? base kv.1 = none := Option.isNone_iff_eq_none.mp (mem_filter.mp hkv).2
    rw [← heq] at hnone
    exact get?_eq_none_iff.mp hnone hkey
  · intro kv hkv
    rcases mem_append.mp hkv with hkv | hkv
    · obtain ⟨kv', hkv', rfl⟩ := mem_map.mp hkv
      dsimp only
      cases hvalue : Json.get? fields kv'.1 with
      | none => exact (valid_obj_iff.mp hbase).2 kv' hkv'
      | some value => exact hfields.get? hvalue
    · exact hnew.2 kv hkv

def Frame.Holds : Frame φ → Prop
  | .items rev => ∀ v ∈ rev, v.Valid
  | .fields rev => ∀ kv ∈ rev, kv.2.Valid
  | .member rev _ => ∀ kv ∈ rev, kv.2.Valid

/-- The values of a state. -/
def Holds (s : ParseState φ) : Prop :=
  (∀ frame ∈ s.1, frame.Holds) ∧
    match s.2 with
    | .after v => v.Valid
    | _ => True

theorem valid_ofAtom {a : Text} (h : ofAtom f a = some v) : v.Valid := by
  unfold ofAtom at h
  split at h
  · cases h
    exact trivial
  split at h
  · cases h
    exact trivial
  split at h
  · cases h
    exact trivial
  · split at h
    · cases h
      exact trivial
    · obtain ⟨x, -, rfl⟩ := Option.map_eq_some_iff.mp h
      exact trivial

variable {s : ParseState φ}

theorem holds_startValue {stack : List (Frame φ)} {t : Token} (h : startValue f stack t = some s)
    (hstack : ∀ frame ∈ stack, frame.Holds) : Holds s := by
  unfold startValue at h
  split at h
  · cases h
    exact ⟨hstack, trivial⟩
  · obtain ⟨v, hv, rfl⟩ := Option.map_eq_some_iff.mp h
    exact ⟨hstack, valid_ofAtom hv⟩
  · cases h
    exact ⟨forall_mem_cons.mpr ⟨forall_mem_nil _, hstack⟩, trivial⟩
  · cases h
    exact ⟨forall_mem_cons.mpr ⟨forall_mem_nil _, hstack⟩, trivial⟩
  · cases h

theorem holds_parseStep {s' : ParseState φ} {t : Token} (h : parseStep f s t = some s')
    (hs : Holds s) : Holds s' := by
  unfold parseStep at h
  split at h
  · exact holds_startValue h hs.1
  · cases h
    exact ⟨(forall_mem_cons.mp hs.1).2, trivial⟩
  · exact holds_startValue h hs.1
  · cases h
    exact ⟨(forall_mem_cons.mp hs.1).2, nodup_nil, trivial⟩
  · cases h
    exact ⟨hs.1, trivial⟩
  · cases h
    exact ⟨hs.1, trivial⟩
  · cases h
    obtain ⟨hframe, hstack⟩ := forall_mem_cons.mp hs.1
    exact ⟨forall_mem_cons.mpr ⟨hframe, hstack⟩, trivial⟩
  · cases h
    obtain ⟨hframe, hstack⟩ := forall_mem_cons.mp hs.1
    exact ⟨forall_mem_cons.mpr ⟨forall_mem_cons.mpr ⟨hs.2, hframe⟩, hstack⟩, trivial⟩
  · cases h
    obtain ⟨hframe, hstack⟩ := forall_mem_cons.mp hs.1
    refine ⟨hstack, validItems_iff.mpr ?_⟩
    intro w hw
    rcases mem_cons.mp (mem_reverse.mp hw) with rfl | hw
    · exact hs.2
    · exact hframe w hw
  · cases h
    obtain ⟨hframe, hstack⟩ := forall_mem_cons.mp hs.1
    exact ⟨forall_mem_cons.mpr ⟨forall_mem_cons.mpr ⟨hs.2, hframe⟩, hstack⟩, trivial⟩
  · cases h
    obtain ⟨hframe, hstack⟩ := forall_mem_cons.mp hs.1
    refine ⟨hstack, valid_ofPairs ?_⟩
    intro kv hkv
    rcases mem_cons.mp (mem_reverse.mp hkv) with rfl | hkv
    · exact hs.2
    · exact hframe kv hkv
  · cases h

theorem holds_parseFrom {ts : List Token} {s' : ParseState φ} (h : parseFrom f s ts = some s')
    (hs : Holds s) : Holds s' := by
  induction ts generalizing s with
  | nil =>
    cases h
    exact hs
  | cons t ts ih =>
    obtain ⟨next, hnext, hrest⟩ := Option.bind_eq_some_iff.mp h
    exact ih hrest (holds_parseStep hnext hs)

theorem valid_of_loads {t : Text} (h : loads f t = some v) : v.Valid := by
  obtain ⟨ts, -, h⟩ := Option.bind_eq_some_iff.mp h
  obtain ⟨s, hs, hend⟩ := Option.bind_eq_some_iff.mp h
  have hholds := holds_parseFrom hs ⟨forall_mem_nil _, trivial⟩
  unfold parseEnd at hend
  split at hend
  · cases hend
    exact hholds.2
  · cases hend

end Json

end Misc
