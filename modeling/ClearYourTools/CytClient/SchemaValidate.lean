import ClearYourTools.CytClient.Pairing
import ClearYourTools.Misc.JsonSchema

/-!
# Schema validation

`cyt_client/schema_validate.py`. The depth of the recursion is limited: a call below the limit
raises, as Python does. How a value is written in a reason is a parameter.
-/

namespace ClearYourTools.CytClient

open Misc JsonSchema
open Json (get?)

variable {φ : Type}

/-- How Python compares numbers and writes values (`repr`), which floats are integers, and what
a token of a reference stands for. -/
structure ValidatorEnv (φ : Type) extends PairingEnv φ where
  reprOf : Json φ → Text
  integral : φ → Bool
  unescape : Text → Text

instance : Coe (ValidatorEnv φ) (PairingEnv φ) := ⟨ValidatorEnv.toPairingEnv⟩

/-- The result of a validation, or an exception. -/
inductive Verdict where
  | accepted
  | rejected (reason : Text)
  | raised
deriving DecidableEq

/-- The verdict of a loop that stops at the first item that is not accepted. -/
def firstFailure : List Verdict → Verdict
  | [] => .accepted
  | .accepted :: verdicts => firstFailure verdicts
  | verdict :: _ => verdict

/-- The loop of `_resolve_ref`. -/
def walkParts : List Text → Option (Json φ) → Option (Json φ)
  | [], node => node
  | part :: parts, some (.obj fields) => walkParts parts (get? fields part)
  | _ :: _, _ => none

def resolveRef (ref : Text) (root : Record φ) : Option (Record φ) :=
  match ref with
  | '#' :: '/' :: pointer =>
    match walkParts (pointer.splitOn '/') (some (.obj root)) with
    | some (.obj node) => some node
    | _ => none
  | _ => none

def typeNameMatches (v : Json φ) (name : Text) : Bool :=
  if name = "null" then (match v with | .null => true | _ => false)
  else if name = "string" then (match v with | .str _ => true | _ => false)
  else if name = "boolean" then (match v with | .bool _ => true | _ => false)
  else if name = "integer" then (match v with | .int _ => true | _ => false)
  else if name = "number" then (match v with | .int _ | .float _ => true | _ => false)
  else if name = "array" then (match v with | .arr _ => true | _ => false)
  else if name = "object" then (match v with | .obj _ => true | _ => false)
  else true

def typeMatches (v : Json φ) : Json φ → Bool
  | .str name => typeNameMatches v name
  | _ => true

/-- `type(value).__name__`. -/
def typeName : Json φ → Text
  | .null => "NoneType"
  | .bool _ => "bool"
  | .int _ => "int"
  | .float _ => "float"
  | .str _ => "str"
  | .arr _ => "list"
  | .obj _ => "dict"

def isEmptyRequiredValue : Json φ → Bool
  | .null => true
  | .str s => s.strip = []
  | .arr items => items.isEmpty
  | .obj fields => fields.isEmpty
  | _ => false

section

variable (env : ValidatorEnv φ)

/-- `f"{path}: {text}"`. -/
def at' (path text : Text) : Text := path ++ (": " ++ text)

/-- `f"{before} {value!r} {after} {other!r}"`. -/
def mismatch (path : Text) (v : Json φ) (between : String) (other : Json φ) : Verdict :=
  .rejected (at' path ("value " ++ (env.reprOf v ++ (between.toList ++ env.reprOf other))))

variable (v : Json φ)

/-- The test of `const` in `_validate_type_and_enum`. -/
def constVerdict (schema : Record φ) (path : Text) : Verdict :=
  match get? schema constKey with
  | some w =>
    if pyEqual env v w then .accepted
    else mismatch env path v " does not match const " w
  | none => .accepted

/-- The test of `type`. -/
def typeVerdict (schema : Record φ) (path : Text) : Verdict :=
  match get? schema schemaTypeKey with
  | some (.arr types) =>
    if types.any (typeMatches v) then .accepted
    else mismatch env path v " does not match type union " (.arr types)
  | none | some .null => .accepted
  | some type' =>
    if typeMatches v type' then .accepted else mismatch env path v " is not of type " type'

/-- The test of `enum`. -/
def enumVerdict (schema : Record φ) (path : Text) : Verdict :=
  match get? schema enumKey with
  | some (.arr (value :: values)) =>
    if (value :: values).any (pyEqual env v) then .accepted
    else mismatch env path v " not in enum " (.arr (value :: values))
  | _ => .accepted

def validateTypeAndEnum (schema : Record φ) (path : Text) : Verdict :=
  firstFailure [constVerdict env v schema path, typeVerdict env v schema path,
    enumVerdict env v schema path]

section

/- `validate` is the call one level deeper. -/
variable (validate : Json φ → Record φ → Text → Verdict)

/-- `f"{path}.{key}"`. -/
def propertyPath (path key : Text) : Text := path ++ '.' :: key

/-- One item of `_validate_required_properties`. -/
def requiredVerdict (value : Record φ) (path : Text) : Json φ → Verdict
  | .str key =>
    match get? value key with
    | none =>
      .rejected (at' path ("missing required property " ++ env.reprOf (.str key)))
    | some v =>
      if isEmptyRequiredValue v then
        .rejected (at' (propertyPath path key) "required property is empty")
      else .accepted
  | _ => .accepted

def validateRequiredProperties (value schema : Record φ) (path : Text) : Verdict :=
  match get? schema requiredKey with
  | some (.arr required) => firstFailure (required.map (requiredVerdict env value path))
  | _ => .accepted

variable (schema : Record φ)

/-- `schema.get("additionalProperties", False) is False`. -/
def closed : Bool :=
  match get? schema "additionalProperties" with
  | none | some (.bool false) => true
  | _ => false

/-- One property of `_validate_object`. -/
def propertyVerdict (properties schema : Record φ) (path : Text) (kv : Text × Json φ) : Verdict :=
  match get? properties kv.1 with
  | some (.obj propSchema) => validate kv.2 propSchema (propertyPath path kv.1)
  | some _ => .accepted
  | none =>
    if closed schema then
      .rejected (at' path ("unknown property " ++ env.reprOf (.str kv.1)))
    else .accepted

def validateObject (value schema : Record φ) (path : Text) : Verdict :=
  firstFailure
    (value.map (propertyVerdict env validate (dictOr (get? schema propertiesKey)) schema path)
      ++ [validateRequiredProperties env value schema path])

/-- `f"{path}[{index}]"`. -/
def itemPath (path : Text) (index : ℕ) : Text := path ++ ('[' :: (Text.ofNat index ++ [']']))

def validateArray (value : List (Json φ)) (schema : Record φ) (path : Text) : Verdict :=
  match get? schema itemsKey with
  | some (.obj itemsSchema) =>
    firstFailure (value.zipIdx.map fun item => validate item.1 itemsSchema (itemPath path item.2))
  | _ => .accepted

variable (v : Json φ)

/-- The verdicts on the schemas of a list. -/
def branchVerdicts (subschemas : List (Json φ)) (path : Text) : List Verdict :=
  subschemas.filterMap fun sub =>
    match sub with
    | .obj sub => some (validate v sub path)
    | _ => none

def lastReason (verdicts : List Verdict) : Text :=
  (verdicts.reverse.findSome? fun verdict =>
    match verdict with
    | .rejected reason => some reason
    | _ => none).getD []

def validateAnyOrOneOf (subschemas : List (Json φ)) (combinator path : Text) : Verdict :=
  let verdicts := branchVerdicts validate v subschemas path
  let matches' := verdicts.count .accepted
  if .raised ∈ verdicts then .raised
  else if combinator = oneOfKey ∧ matches' ≠ 1 then
    .rejected (at' path ("expected exactly one oneOf match, got " ++ Text.ofNat matches'))
  else if combinator = anyOfKey ∧ matches' = 0 then
    .rejected (if lastReason verdicts = [] then at' path "no anyOf branch matched"
      else lastReason verdicts)
  else .accepted

def validateCombinator (schema : Record φ) (combinator path : Text) : Verdict :=
  match get? schema combinator with
  | some (.arr (sub :: subschemas)) =>
    if combinator = allOfKey then
      firstFailure (branchVerdicts validate v (sub :: subschemas) path)
    else validateAnyOrOneOf validate v (sub :: subschemas) combinator path
  | _ => .accepted

/-- The combinators in the order in which they are looked for. -/
def combinators : List Text := [allOfKey, anyOfKey, oneOfKey]

/-- The combinator that a schema is validated by. -/
def firstCombinator : Option Text :=
  combinators.find? fun combinator => (get? schema combinator).isSome

/-- `schema_type is None`. -/
def untyped : Bool :=
  match get? schema schemaTypeKey with
  | none | some .null => true
  | _ => false

/-- `schema_type == name`. -/
def typeIs (name : Text) : Bool := fieldIs schema schemaTypeKey name

/-- The tests of `_validate` after the type and the listed values. -/
def validateParts (schema : Record φ) (path : Text) : Verdict :=
  match v with
  | .null => .accepted
  | .obj fields =>
    if typeIs schema "object" || untyped schema then
      validateObject env validate fields schema path
    else if typeIs schema "array" then
      .rejected (at' path ("expected array, got " ++ typeName v))
    else .accepted
  | .arr items =>
    if typeIs schema "object" then
      .rejected (at' path ("expected object, got " ++ typeName v))
    else if typeIs schema "array" || untyped schema then
      validateArray validate items schema path
    else .accepted
  | _ =>
    if typeIs schema "object" then
      .rejected (at' path ("expected object, got " ++ typeName v))
    else if typeIs schema "array" then
      .rejected (at' path ("expected array, got " ++ typeName v))
    else .accepted

def validateRef (root : Record φ) (v ref : Json φ) (path : Text) : Verdict :=
  match ref with
  | .str text =>
    match resolveRef text root with
    | some resolved => validate v resolved path
    | none => .rejected (at' path ("unresolved $ref " ++ env.reprOf ref))
  | _ => .raised

/-- `_validate`, with the calls one level deeper. -/
def validateStep (root : Record φ) (v : Json φ) (schema : Record φ) (path : Text) : Verdict :=
  match get? schema refKey with
  | some ref => validateRef env validate root v ref path
  | none =>
    match firstCombinator schema with
    | some combinator => validateCombinator validate v schema combinator path
    | none =>
      firstFailure [validateTypeAndEnum env v schema path, validateParts env validate v schema path]

end

/-- `_validate`, so many levels deep at most. -/
def validate (root : Record φ) : ℕ → Json φ → Record φ → Text → Verdict
  | 0, _, _, _ => .raised
  | limit + 1, v, schema, path => validateStep env (validate root limit) root v schema path

def validateJsonSchema (limit : ℕ) (v : Json φ) (schema : Record φ) (rootSchema : Option (Record φ))
    (path : Text) : Verdict :=
  validate env (rootSchema.getD schema) limit v schema path

end

end ClearYourTools.CytClient
