import ClearYourTools.CytClient.SchemaValidate

/-!
# What the validator accepts

A value that the validator accepts satisfies the schema, as long as the validator passes over no
keyword on its way, as it does next to a reference or a combinator.
-/

namespace ClearYourTools.CytClient

open Misc JsonSchema List
open Json (get? noFloats)

variable {φ : Type} (env : ValidatorEnv φ)

def isBool : Json φ → Bool
  | .bool _ => true
  | _ => false

/-- Equality of JSON values: as in Python, but that no boolean is a number. -/
def jsonEqual : Json φ → Json φ → Bool :=
  pyEqual { env.toPairingEnv with
    numbersEqual := fun v w => isBool v == isBool w && env.numbersEqual v w }

def conventions : Conventions φ where
  equal := jsonEqual env
  integral := env.integral
  unescape := env.unescape

/-- The keywords that the validator knows. -/
def keywordKeys : List Text :=
  [schemaTypeKey, enumKey, constKey, requiredKey, propertiesKey, itemsKey, allOfKey, anyOfKey, oneOfKey,
    refKey]

/-- The keyword has no sibling. -/
def Alone (schema : Record φ) (key : Text) : Prop :=
  ∀ key' ∈ keywordKeys, key' ≠ key → get? schema key' = none

/-- The type is missing or is the named one. -/
def PlainType (schema : Record φ) (name : Text) : Prop :=
  untyped schema = true ∨ typeIs schema name = true

/-- The validator passes over nothing at this place. -/
structure PlainAt (root schema : Record φ) (v : Json φ) : Prop where
  alone : ∀ key ∈ [refKey, allOfKey, anyOfKey, oneOfKey], (get? schema key).isSome = true →
    Alone schema key
  unescaped : ∀ ref, get? schema refKey = some (.str ref) →
    ∀ part ∈ (ref.drop 2).splitOn '/', env.unescape part = part
  allOf : .bool false ∉ subschemas (get? schema allOfKey)
  oneOf : ∀ before sub after, subschemas (get? schema oneOfKey) = before ++ sub :: after →
    Satisfies (conventions env) (.obj root) sub v → ∀ other ∈ before ++ after,
      ¬ Satisfies (conventions env) (.obj root) other v
  const : ∀ w, get? schema constKey = some w → pyEqual env v w = true →
    jsonEqual env v w = true
  enum : ∀ ws, get? schema enumKey = some (.arr ws) → ws ≠ [] ∧ ∀ w ∈ ws,
    pyEqual env v w = true → jsonEqual env v w = true
  object : ∀ fields, v = .obj fields →
    (get? schema propertiesKey).isSome = true ∨ (get? schema requiredKey).isSome = true →
      PlainType schema "object"
  array : ∀ items, v = .arr items → (get? schema itemsKey).isSome = true →
    PlainType schema "array"
  properties : ∀ properties, get? schema propertiesKey = some (.obj properties) →
    ∀ fields, v = .obj fields → ∀ key, (get? fields key).isSome = true →
      get? properties key ≠ some (.bool false)
  items : ∀ items, v = .arr items → items ≠ [] → get? schema itemsKey ≠ some (.bool false)

/-- Where the validator goes from a place. -/
inductive Visits (root : Record φ) : Record φ → Json φ → Record φ → Json φ → Prop
  | ref {schema v ref resolved} (href : get? schema refKey = some (.str ref))
      (hresolved : resolveRef ref root = some resolved) : Visits root schema v resolved v
  | branch {schema v combinator subs sub} (hcombinator : combinator ∈ combinators)
      (hsubs : get? schema combinator = some (.arr subs)) (hsub : .obj sub ∈ subs) :
      Visits root schema v sub v
  | property {schema fields properties key sub v}
      (hproperties : get? schema propertiesKey = some (.obj properties))
      (hsub : get? properties key = some (.obj sub)) (hv : (key, v) ∈ fields) :
      Visits root schema (.obj fields) sub v
  | item {schema items sub v} (hsub : get? schema itemsKey = some (.obj sub))
      (hv : v ∈ items) : Visits root schema (.arr items) sub v

/-- The validator passes over nothing at any place it goes to. -/
inductive Plain (root : Record φ) : Record φ → Json φ → Prop
  | mk {schema v} (here : PlainAt env root schema v)
      (there : ∀ sub w, Visits root schema v sub w → Plain root sub w) : Plain root schema v

variable {env}

variable {root schema : Record φ} {v : Json φ}

theorem Plain.here (h : Plain env root schema v) : PlainAt env root schema v := by
  cases h with
  | mk here _ => exact here

theorem Plain.there {sub : Record φ} {w : Json φ} (h : Plain env root schema v)
    (hvisits : Visits root schema v sub w) : Plain env root sub w := by
  cases h with
  | mk _ there => exact there sub w hvisits

variable {path : Text}

variable {c : Conventions φ}

section

variable {validate : Json φ → Record φ → Text → Verdict} {sat : Json φ → Json φ → Prop}
  {root schema : Record φ} {v : Json φ} {path : Text}

end

section

variable {validate : Json φ → Record φ → Text → Verdict} {root schema : Record φ} {v : Json φ}
  {path : Text}

end

def plainValidator : ValidatorEnv Empty where
  toPyFormat := noFloats
  numbersEqual
    | .int n, .int m => n == m
    | .bool b, .bool b' => b == b'
    | .bool b, .int n | .int n, .bool b => n == b.toNat
    | _, _ => false
  reprOf := Json.toStr noFloats
  integral := Empty.elim
  unescape := id

end ClearYourTools.CytClient
