import ClearYourTools.Misc.Json

/-!
# JSON Schema

When a value satisfies a schema. References may lead anywhere in the root schema, so the meaning of
a schema is built up from a bound on how deep its references and subschemas go.
-/

namespace Misc

open List
open Json (get?)

namespace JsonSchema

variable {φ : Type}

/-- When two JSON values are equal, which floats are integers, and how a token of a reference is
unescaped. -/
structure Conventions (φ : Type) where
  equal : Json φ → Json φ → Bool
  integral : φ → Bool
  unescape : Text → Text

abbrev Fields (φ : Type) := List (Text × Json φ)

def schemaTypeKey : Text := "type"
def enumKey : Text := "enum"
def constKey : Text := "const"
def requiredKey : Text := "required"
def propertiesKey : Text := "properties"
def itemsKey : Text := "items"
def allOfKey : Text := "allOf"
def anyOfKey : Text := "anyOf"
def oneOfKey : Text := "oneOf"
def refKey : Text := "$ref"

def isSchema : Json φ → Bool
  | .obj _ | .bool _ => true
  | _ => false

/-- The schemas of a list. -/
def subschemas : Option (Json φ) → List (Json φ)
  | some (.arr subs) => subs.filter isSchema
  | _ => []

/-- The list is there and has items. -/
def isListed : Option (Json φ) → Bool
  | some (.arr (_ :: _)) => true
  | _ => false

/-- What a token leads to. -/
def childAt (node : Json φ) (token : Text) : Option (Json φ) :=
  match node with
  | .obj fields => get? fields token
  | .arr items => (Json.readNat token).bind fun i => items[i]?
  | _ => none

/-- What a pointer leads to. -/
def walk (c : Conventions φ) : List Text → Json φ → Option (Json φ)
  | [], node => some node
  | token :: tokens, node => (childAt node (c.unescape token)).bind (walk c tokens)

/-- What a reference within the root schema leads to. -/
def target (c : Conventions φ) (root : Json φ) : Text → Option (Json φ)
  | ['#'] => some root
  | '#' :: '/' :: pointer => walk c (pointer.splitOn '/') root
  | _ => none

/-- The value has a type of this name. -/
def OfType (c : Conventions φ) (name : Text) (v : Json φ) : Prop :=
  (name = "null" → v = .null) ∧
  (name = "string" → ∃ s, v = .str s) ∧
  (name = "boolean" → ∃ b, v = .bool b) ∧
  (name = "integer" → (∃ n, v = .int n) ∨ ∃ x, v = .float x ∧ c.integral x = true) ∧
  (name = "number" → (∃ n, v = .int n) ∨ ∃ x, v = .float x) ∧
  (name = "array" → ∃ items, v = .arr items) ∧
  (name = "object" → ∃ fields, v = .obj fields)

/-- The value of `type`, or an item of it, admits the value. -/
def Admits (c : Conventions φ) (v : Json φ) : Json φ → Prop
  | .str name => OfType c name v
  | _ => True

section

variable (c : Conventions φ) (root : Json φ) (sat : Json φ → Json φ → Prop) (fields : Fields φ)
  (v : Json φ)

def HoldsType : Prop :=
  ∀ t, get? fields schemaTypeKey = some t →
    (∀ ts, t = .arr ts → ∃ t' ∈ ts, Admits c v t') ∧ Admits c v t

def HoldsConst : Prop := ∀ w, get? fields constKey = some w → c.equal v w = true

def HoldsEnum : Prop := ∀ ws, get? fields enumKey = some (.arr ws) → ∃ w ∈ ws, c.equal v w = true

def HoldsRequired : Prop :=
  ∀ names, get? fields requiredKey = some (.arr names) → ∀ entries, v = .obj entries →
    ∀ name, .str name ∈ names → (get? entries name).isSome = true

def HoldsProperties : Prop :=
  ∀ properties, get? fields propertiesKey = some (.obj properties) →
    ∀ entries, v = .obj entries → ∀ name sub w, get? properties name = some sub →
      isSchema sub = true → get? entries name = some w → sat sub w

def HoldsItems : Prop :=
  ∀ sub, get? fields itemsKey = some sub → isSchema sub = true →
    ∀ ws, v = .arr ws → ∀ w ∈ ws, sat sub w

def HoldsAllOf : Prop := ∀ sub ∈ subschemas (get? fields allOfKey), sat sub v

def HoldsAnyOf : Prop :=
  isListed (get? fields anyOfKey) = true → ∃ sub ∈ subschemas (get? fields anyOfKey), sat sub v

/-- `oneOf`. -/
def HoldsOneOf : Prop :=
  isListed (get? fields oneOfKey) = true →
    ∃ before sub after, subschemas (get? fields oneOfKey) = before ++ sub :: after ∧
      sat sub v ∧ ∀ other ∈ before ++ after, ¬ sat other v

def HoldsRef : Prop :=
  ∀ ref, get? fields refKey = some (.str ref) → ∃ sub, target c root ref = some sub ∧ sat sub v

/-- All keywords of a schema hold of a value, where `sat` says what holds of subschemas. -/
structure Holds : Prop where
  type : HoldsType c fields v
  const : HoldsConst c fields v
  enum : HoldsEnum c fields v
  required : HoldsRequired fields v
  properties : HoldsProperties sat fields v
  items : HoldsItems sat fields v
  allOf : HoldsAllOf sat fields v
  anyOf : HoldsAnyOf sat fields v
  oneOf : HoldsOneOf sat fields v
  ref : HoldsRef c root sat fields v

end

section

variable (c : Conventions φ) (root : Json φ)

/-- The schemas below `properties`. -/
def propertySchemas : Option (Json φ) → List (Json φ)
  | some (.obj properties) => (properties.map Prod.snd).filter isSchema
  | _ => []

/-- What a reference of a schema leads to. -/
def referred : Option (Json φ) → Option (Json φ)
  | some (.str ref) => target c root ref
  | _ => none

/-- The schemas that the meaning of a schema rests on. -/
def children : Json φ → List (Json φ)
  | .obj fields =>
    subschemas (get? fields allOfKey) ++ subschemas (get? fields anyOfKey) ++
      subschemas (get? fields oneOfKey) ++ propertySchemas (get? fields propertiesKey) ++
      (get? fields itemsKey).toList ++ (referred c root (get? fields refKey)).toList
  | _ => []

/-- Subschemas and references of a schema go less than so deep. -/
def Bounded : ℕ → Json φ → Prop
  | 0, _ => False
  | n + 1, schema => ∀ sub ∈ children c root schema, Bounded n sub

/-- The references of a schema lead to no cycle. -/
def Acyclic (schema : Json φ) : Prop := ∃ n, Bounded c root n schema

/-- The value satisfies the schema, as far as can be seen in so many steps. -/
def SatisfiesIn : ℕ → Json φ → Json φ → Prop
  | 0, _, _ => False
  | n + 1, .obj fields, v => Holds c root (SatisfiesIn n) fields v
  | _ + 1, .bool b, _ => b = true
  | _ + 1, _, _ => True

/-- The value satisfies the schema. -/
def Satisfies (schema v : Json φ) : Prop :=
  ∃ n, Bounded c root n schema ∧ SatisfiesIn c root n schema v

variable {c root}

variable {fields : Fields φ} {sub : Json φ}

theorem mem_children_of_allOf (h : sub ∈ subschemas (get? fields allOfKey)) :
    sub ∈ children c root (.obj fields) := by
  simp only [children, mem_append]
  exact .inl (.inl (.inl (.inl (.inl h))))

theorem mem_children_of_anyOf (h : sub ∈ subschemas (get? fields anyOfKey)) :
    sub ∈ children c root (.obj fields) := by
  simp only [children, mem_append]
  exact .inl (.inl (.inl (.inl (.inr h))))

theorem mem_children_of_oneOf (h : sub ∈ subschemas (get? fields oneOfKey)) :
    sub ∈ children c root (.obj fields) := by
  simp only [children, mem_append]
  exact .inl (.inl (.inl (.inr h)))

theorem mem_children_of_property {properties : Fields φ} {name : Text}
    (hproperties : get? fields propertiesKey = some (.obj properties))
    (h : get? properties name = some sub) (hsub : isSchema sub = true) :
    sub ∈ children c root (.obj fields) := by
  obtain ⟨before, after, rfl, -⟩ := lookup_eq_some_iff.mp h
  have hmem : sub ∈ propertySchemas (get? fields propertiesKey) := by
    rw [hproperties]
    refine mem_filter.mpr ⟨mem_map.mpr ⟨(name, sub), ?_, rfl⟩, hsub⟩
    exact mem_append_right before mem_cons_self
  simp only [children, mem_append]
  exact .inl (.inl (.inr hmem))

theorem mem_children_of_items (h : get? fields itemsKey = some sub) :
    sub ∈ children c root (.obj fields) := by
  simp only [children, mem_append, h]
  exact .inl (.inr (mem_singleton_self sub))

theorem mem_children_of_ref {ref : Text} (href : get? fields refKey = some (.str ref))
    (h : target c root ref = some sub) : sub ∈ children c root (.obj fields) := by
  simp only [children, mem_append, href, referred, h]
  exact .inr (mem_singleton_self sub)

variable {v : Json φ}

/-- Whether the keywords hold rests on the children only. -/
theorem Holds.congr {sat sat' : Json φ → Json φ → Prop}
    (h : ∀ sub ∈ children c root (.obj fields), ∀ w, sat sub w ↔ sat' sub w)
    (hholds : Holds c root sat fields v) : Holds c root sat' fields v where
  type := hholds.type
  const := hholds.const
  enum := hholds.enum
  required := hholds.required
  properties := by
    intro properties hproperties entries hentries name sub w hsub hschema hw
    exact (h sub (mem_children_of_property hproperties hsub hschema) w).mp
      (hholds.properties properties hproperties entries hentries name sub w hsub hschema hw)
  items := by
    intro sub hsub hschema ws hws w hw
    exact (h sub (mem_children_of_items hsub) w).mp (hholds.items sub hsub hschema ws hws w hw)
  allOf := fun sub hsub => (h sub (mem_children_of_allOf hsub) v).mp (hholds.allOf sub hsub)
  anyOf := by
    intro hlisted
    obtain ⟨sub, hsub, hsat⟩ := hholds.anyOf hlisted
    exact ⟨sub, hsub, (h sub (mem_children_of_anyOf hsub) v).mp hsat⟩
  oneOf := by
    intro hlisted
    obtain ⟨before, sub, after, hsplit, hsat, hothers⟩ := hholds.oneOf hlisted
    have hmem : ∀ other ∈ before ++ sub :: after, ∀ w, sat other w ↔ sat' other w := by
      intro other hother
      exact h other (mem_children_of_oneOf (hsplit ▸ hother))
    refine ⟨before, sub, after, hsplit, ?_, ?_⟩
    · exact (hmem sub (mem_append_right _ mem_cons_self) v).mp hsat
    · intro other hother hsat'
      have hother' : other ∈ before ++ sub :: after := by
        rcases mem_append.mp hother with hother | hother
        · exact mem_append_left _ hother
        · exact mem_append_right _ (mem_cons_of_mem _ hother)
      exact hothers other hother ((hmem other hother' v).mpr hsat')
  ref := by
    intro ref href
    obtain ⟨sub, hsub, hsat⟩ := hholds.ref ref href
    exact ⟨sub, hsub, (h sub (mem_children_of_ref href hsub) v).mp hsat⟩

variable {n : ℕ}

variable {schema : Json φ}

theorem Acyclic.child (h : Acyclic c root schema) (hsub : sub ∈ children c root schema) :
    Acyclic c root sub := by
  obtain ⟨n, hn⟩ := h
  cases n with
  | zero => exact hn.elim
  | succ n => exact ⟨n, hn sub hsub⟩

end

end JsonSchema

end Misc
