import Mathlib.Data.Set.Finite.Lattice
import ClearYourTools.CytClient.Proofs.SchemaSoundness
import ClearYourTools.Misc.Runs

/-!
# When the validation returns

The validator as a recursive procedure. A call for a property or an item has a smaller value; a call
for a reference or a branch has the same value and another schema of the same documents. So the
validator returns unless a call leads back to itself.
-/

namespace ClearYourTools.CytClient

open Misc JsonSchema Recursion List Option
open Json (get?)

variable {φ : Type}

/-- A call of `_validate`. -/
structure Check (φ : Type) where
  value : Json φ
  schema : Record φ
  path : Text

section

variable (env : ValidatorEnv φ) (root : Record φ)

def branchChecks (v : Json φ) (subschemas : List (Json φ)) (path : Text) :
    List (Item (Check φ) Verdict) :=
  subschemas.filterMap fun sub =>
    match sub with
    | .obj sub => some (.call ⟨v, sub, path⟩)
    | _ => none

/-- What is looked at for a property. -/
def propertyCheck (properties schema : Record φ) (path : Text) (kv : Text × Json φ) :
    Item (Check φ) Verdict :=
  match get? properties kv.1 with
  | some (.obj propSchema) => .call ⟨kv.2, propSchema, propertyPath path kv.1⟩
  | some _ => .done .accepted
  | none =>
    if closed schema then
      .done (.rejected (at' path ("unknown property " ++ env.reprOf (.str kv.1))))
    else .done .accepted

/-- What `_validate_object` looks at. -/
def objectChecks (value schema : Record φ) (path : Text) : List (Item (Check φ) Verdict) :=
  value.map (propertyCheck env (dictOr (get? schema propertiesKey)) schema path) ++
    [.done (validateRequiredProperties env value schema path)]

/-- What `_validate_array` looks at. -/
def arrayChecks (value : List (Json φ)) (schema : Record φ) (path : Text) :
    List (Item (Check φ) Verdict) :=
  match get? schema itemsKey with
  | some (.obj itemsSchema) =>
    value.zipIdx.map fun item => .call ⟨item.1, itemsSchema, itemPath path item.2⟩
  | _ => []

/-- What `_validate` looks at after the type and the listed values. -/
def partChecks (v : Json φ) (schema : Record φ) (path : Text) : List (Item (Check φ) Verdict) :=
  match v with
  | .null => []
  | .obj fields =>
    if typeIs schema "object" || untyped schema then objectChecks env fields schema path
    else if typeIs schema "array" then
      [.done (.rejected (at' path ("expected array, got " ++ typeName v)))]
    else []
  | .arr items =>
    if typeIs schema "object" then
      [.done (.rejected (at' path ("expected object, got " ++ typeName v)))]
    else if typeIs schema "array" || untyped schema then arrayChecks items schema path
    else []
  | _ =>
    if typeIs schema "object" then
      [.done (.rejected (at' path ("expected object, got " ++ typeName v)))]
    else if typeIs schema "array" then
      [.done (.rejected (at' path ("expected array, got " ++ typeName v)))]
    else []

/-- What `_validate_ref` looks at. -/
def refChecks (v ref : Json φ) (path : Text) : List (Item (Check φ) Verdict) :=
  match ref with
  | .str text =>
    match resolveRef text root with
    | some resolved => [.call ⟨v, resolved, path⟩]
    | none => [.done (.rejected (at' path ("unresolved $ref " ++ env.reprOf ref)))]
  | _ => [.done .raised]

/-- What `_validate_combinator` looks at. -/
def combinatorChecks (v : Json φ) (schema : Record φ) (combinator path : Text) :
    List (Item (Check φ) Verdict) :=
  match get? schema combinator with
  | some (.arr (sub :: subschemas)) => branchChecks v (sub :: subschemas) path
  | _ => []

/-- What `_validate` looks at. -/
def checksOf (c : Check φ) : List (Item (Check φ) Verdict) :=
  match get? c.schema refKey with
  | some ref => refChecks env root c.value ref c.path
  | none =>
    match firstCombinator c.schema with
    | some combinator => combinatorChecks c.value c.schema combinator c.path
    | none =>
      .done (validateTypeAndEnum env c.value c.schema c.path) ::
        partChecks env c.value c.schema c.path

/-- The combinator that counts its branches, of the schemas that have one with branches. -/
def countingCombinator (schema : Record φ) : Option Text :=
  match get? schema refKey with
  | some _ => none
  | none =>
    (firstCombinator schema).filter fun combinator =>
      combinator != allOfKey && isListed (get? schema combinator)

/-- The result of `_validate_any_or_one_of`. -/
def countedVerdict (verdicts : List Verdict) (combinator path : Text) : Verdict :=
  if .raised ∈ verdicts then .raised
  else if combinator = oneOfKey ∧ verdicts.count .accepted ≠ 1 then
    .rejected (at' path ("expected exactly one oneOf match, got " ++
      Text.ofNat (verdicts.count .accepted)))
  else if combinator = anyOfKey ∧ verdicts.count .accepted = 0 then
    .rejected (if lastReason verdicts = [] then at' path "no anyOf branch matched"
      else lastReason verdicts)
  else .accepted

/-- `_validate`: the branches of `anyOf` and `oneOf` are all looked at, unless one raises, and every
other loop is left at the first item that is not accepted. -/
def validator : Procedure (Check φ) Verdict where
  items := checksOf env root
  stops c verdict :=
    bif (countingCombinator c.schema).isSome then verdict == .raised else verdict != .accepted
  result c verdicts :=
    match countingCombinator c.schema with
    | some combinator => countedVerdict verdicts combinator c.path
    | none => firstFailure verdicts

end

/-- The verdict on an item, when every call has one. -/
def verdictOf (f : Json φ → Record φ → Text → Verdict) : Item (Check φ) Verdict → Verdict
  | .call c => f c.value c.schema c.path
  | .done verdict => verdict

section

variable {env : ValidatorEnv φ} {root : Record φ} {f : Json φ → Record φ → Text → Verdict}
variable (v : Json φ)

theorem branchVerdicts_eq (subs : List (Json φ)) (path : Text) :
    branchVerdicts f v subs path = (branchChecks v subs path).map (verdictOf f) := by
  unfold branchVerdicts branchChecks
  rw [map_filterMap]
  refine filterMap_congr fun sub _ => ?_
  cases sub <;> rfl

theorem validateObject_eq (value schema : Record φ) (path : Text) :
    validateObject env f value schema path =
      firstFailure ((objectChecks env value schema path).map (verdictOf f)) := by
  unfold validateObject objectChecks
  rw [map_append, List.map_map]
  congr 2
  refine map_congr_left fun kv _ => ?_
  rw [Function.comp_apply]
  unfold propertyVerdict propertyCheck
  generalize get? (dictOr (get? schema propertiesKey)) kv.1 = found
  rcases found with _ | sub
  · dsimp only
    split <;> rfl
  · cases sub <;> rfl

theorem validateArray_eq (value : List (Json φ)) (schema : Record φ) (path : Text) :
    validateArray f value schema path =
      firstFailure ((arrayChecks value schema path).map (verdictOf f)) := by
  unfold validateArray arrayChecks
  generalize get? schema itemsKey = found
  rcases found with _ | items
  · rfl
  cases items with
  | obj itemsSchema =>
    dsimp only
    rw [List.map_map]
    rfl
  | _ => rfl

theorem firstFailure_cons (verdict : Verdict) (verdicts : List Verdict) :
    firstFailure [verdict, firstFailure verdicts] = firstFailure (verdict :: verdicts) := by
  cases verdict with
  | accepted =>
    rw [firstFailure, firstFailure]
    cases firstFailure verdicts <;> rfl
  | rejected reason => rfl
  | raised => rfl

theorem firstFailure_singleton (verdict : Verdict) : firstFailure [verdict] = verdict := by
  cases verdict <;> rfl

theorem validateParts_eq (schema : Record φ) (path : Text) :
    validateParts env f v schema path =
      firstFailure ((partChecks env v schema path).map (verdictOf f)) := by
  unfold validateParts partChecks
  cases v with
  | null => rfl
  | obj fields =>
    dsimp only
    split
    · exact validateObject_eq fields schema path
    · split <;> rfl
  | arr items =>
    dsimp only
    split
    · rfl
    · split
      · exact validateArray_eq items schema path
      · rfl
  | bool _ | int _ | float _ | str _ =>
    dsimp only
    split
    · rfl
    · split <;> rfl

theorem validateAnyOrOneOf_eq (subs : List (Json φ)) (combinator path : Text) :
    validateAnyOrOneOf f v subs combinator path =
      countedVerdict ((branchChecks v subs path).map (verdictOf f)) combinator path := by
  rw [← branchVerdicts_eq]
  rfl

/-- `_validate` makes its verdict of those on all it may look at. -/
theorem validateStep_eq (c : Check φ) :
    validateStep env f root c.value c.schema c.path =
      (validator env root).result c (((validator env root).items c).map (verdictOf f)) := by
  unfold validateStep validator checksOf countingCombinator
  dsimp only
  cases href : get? c.schema refKey with
  | some ref =>
    dsimp only
    unfold validateRef refChecks
    cases ref with
    | str text =>
      dsimp only
      cases resolveRef text root with
      | none => rfl
      | some resolved => exact (firstFailure_singleton _).symm
    | null | bool _ | int _ | float _ | arr _ | obj _ => rfl
  | none =>
    dsimp only
    cases hfirst : firstCombinator c.schema with
    | none =>
      dsimp only
      rw [validateParts_eq, firstFailure_cons]
      rfl
    | some combinator =>
      dsimp only
      unfold validateCombinator combinatorChecks
      rw [filter_some]
      generalize get? c.schema combinator = found
      have hunlisted : isListed found = false → (if (combinator != allOfKey && isListed found) = true
          then some combinator else none) = none := by
        intro hlisted
        rw [hlisted, Bool.and_false, if_neg Bool.false_ne_true]
      rcases found with _ | subs
      · rw [hunlisted rfl]
        rfl
      cases subs with
      | arr subs =>
        cases subs with
        | nil =>
          rw [hunlisted rfl]
          rfl
        | cons sub subs =>
          have hlisted : isListed (some (Json.arr (sub :: subs))) = true := rfl
          dsimp only
          rw [hlisted, Bool.and_true]
          by_cases hall : combinator = allOfKey
          · rw [if_pos hall, if_neg (not_not_intro hall ∘ bne_iff_ne.mp), branchVerdicts_eq]
          · rw [if_neg hall, if_pos (bne_iff_ne.mpr hall), validateAnyOrOneOf_eq]
      | _ =>
        rw [hunlisted rfl]
        rfl

/-- What is known of the calls is what `f` says. -/
def Agrees (g : Check φ → Option Verdict) (f : Json φ → Record φ → Text → Verdict) : Prop :=
  ∀ c verdict, g c = some verdict → f c.value c.schema c.path = verdict

variable {g : Check φ → Option Verdict}

theorem Agrees.item (h : Agrees g f) {item : Item (Check φ) Verdict} {verdict : Verdict}
    (hvalue : item.value g = some verdict) : verdictOf f item = verdict := by
  cases item with
  | call c => exact h c verdict hvalue
  | done verdict' => exact Option.some.inj hvalue

variable {items : List (Item (Check φ) Verdict)} {verdicts : List Verdict}

theorem Agrees.firstFailure_look (h : Agrees g f)
    (hlook : look (· != .accepted) g items = some verdicts) :
    firstFailure verdicts = firstFailure (items.map (verdictOf f)) := by
  induction items generalizing verdicts with
  | nil =>
    obtain rfl := Option.some.inj hlook
    rfl
  | cons item rest ih =>
    rw [look] at hlook
    obtain ⟨verdict, hverdict, hrest⟩ := bind_eq_some_iff.mp hlook
    rw [map_cons, h.item hverdict]
    cases verdict with
    | accepted =>
      obtain ⟨rest', hrest', rfl⟩ := map_eq_some_iff.mp hrest
      have hsame := ih hrest'
      rw [firstFailure, firstFailure, hsame]
    | rejected reason =>
      obtain rfl := Option.some.inj hrest
      rfl
    | raised =>
      obtain rfl := Option.some.inj hrest
      rfl

theorem Agrees.look_raised (h : Agrees g f) (hlook : look (· == .raised) g items = some verdicts) :
    verdicts = items.map (verdictOf f) ∨
      .raised ∈ verdicts ∧ .raised ∈ items.map (verdictOf f) := by
  induction items generalizing verdicts with
  | nil => exact .inl (Option.some.inj hlook).symm
  | cons item rest ih =>
    rw [look] at hlook
    obtain ⟨verdict, hverdict, hrest⟩ := bind_eq_some_iff.mp hlook
    rw [map_cons, h.item hverdict]
    by_cases hraised : verdict = .raised
    · subst hraised
      obtain rfl := Option.some.inj hrest
      exact .inr ⟨mem_cons_self, mem_cons_self⟩
    · rw [beq_false_of_ne hraised, cond_false] at hrest
      obtain ⟨rest', hrest', rfl⟩ := map_eq_some_iff.mp hrest
      exact (ih hrest').imp (congrArg _) fun hmem =>
        ⟨mem_cons_of_mem _ hmem.1, mem_cons_of_mem _ hmem.2⟩

theorem countedVerdict_raised (combinator path : Text) (h : .raised ∈ verdicts) :
    countedVerdict verdicts combinator path = .raised := if_pos h

theorem Agrees.result_look (h : Agrees g f) {c : Check φ}
    (hlook : look ((validator env root).stops c) g ((validator env root).items c) = some verdicts) :
    (validator env root).result c verdicts = validateStep env f root c.value c.schema c.path := by
  rw [validateStep_eq]
  unfold validator at hlook ⊢
  dsimp only at hlook ⊢
  cases hcounting : countingCombinator c.schema with
  | none =>
    rw [hcounting] at hlook
    exact h.firstFailure_look hlook
  | some combinator =>
    rw [hcounting] at hlook
    dsimp only
    rcases h.look_raised hlook with heq | ⟨hmem, hmem'⟩
    · rw [heq]
    · rw [countedVerdict_raised _ _ hmem, countedVerdict_raised _ _ hmem']

theorem agrees_validate (env : ValidatorEnv φ) (root : Record φ) (limit : ℕ) :
    Agrees (evalIn (validator env root) limit) (validate env root limit) := by
  induction limit with
  | zero => exact fun _ _ h => (by cases h)
  | succ limit ih =>
    intro c verdict h
    obtain ⟨verdicts, hlook, rfl⟩ := map_eq_some_iff.mp h
    rw [ih.result_look hlook]
    rfl

/-- A call that nothing is known of raises. -/
def Exceeds (g : Check φ → Option Verdict) (f : Json φ → Record φ → Text → Verdict) : Prop :=
  ∀ c, g c = none → f c.value c.schema c.path = .raised

theorem Exceeds.item (h : Exceeds g f) {item : Item (Check φ) Verdict}
    (hvalue : item.value g = none) : verdictOf f item = .raised := by
  cases item with
  | call c => exact h c hvalue
  | done verdict => cases hvalue

theorem Exceeds.firstFailure_look (hexceeds : Exceeds g f) (h : Agrees g f)
    (hlook : look (· != .accepted) g items = none) :
    firstFailure (items.map (verdictOf f)) = .raised := by
  induction items with
  | nil => cases hlook
  | cons item rest ih =>
    rw [look] at hlook
    rw [map_cons]
    cases hvalue : item.value g with
    | none =>
      rw [hexceeds.item hvalue]
      rfl
    | some verdict =>
      rw [hvalue, bind_some] at hlook
      rw [h.item hvalue]
      cases verdict with
      | accepted => exact ih (map_eq_none_iff.mp hlook)
      | rejected reason => cases hlook
      | raised => rfl

theorem Exceeds.raised_of_look (hexceeds : Exceeds g f) (h : Agrees g f)
    (hlook : look (· == .raised) g items = none) : .raised ∈ items.map (verdictOf f) := by
  induction items with
  | nil => cases hlook
  | cons item rest ih =>
    rw [look] at hlook
    rw [map_cons]
    cases hvalue : item.value g with
    | none =>
      rw [hexceeds.item hvalue]
      exact mem_cons_self
    | some verdict =>
      rw [hvalue, bind_some] at hlook
      by_cases hraised : verdict = .raised
      · rw [h.item hvalue, hraised]
        exact mem_cons_self
      · rw [beq_false_of_ne hraised, cond_false] at hlook
        exact mem_cons_of_mem _ (ih (map_eq_none_iff.mp hlook))

theorem exceeds_validate (env : ValidatorEnv φ) (root : Record φ) (limit : ℕ) :
    Exceeds (evalIn (validator env root) limit) (validate env root limit) := by
  induction limit with
  | zero => exact fun _ _ => rfl
  | succ limit ih =>
    intro c hnone
    have hlook : look ((validator env root).stops c) (evalIn (validator env root) limit)
        ((validator env root).items c) = none := map_eq_none_iff.mp hnone
    rw [validate, validateStep_eq]
    unfold validator at hlook ⊢
    dsimp only at hlook ⊢
    cases hcounting : countingCombinator c.schema with
    | none =>
      rw [hcounting] at hlook
      exact ih.firstFailure_look (agrees_validate env root limit) hlook
    | some combinator =>
      rw [hcounting] at hlook
      exact countedVerdict_raised _ _ (ih.raised_of_look (agrees_validate env root limit) hlook)

end

section

variable {env : ValidatorEnv φ} {root : Record φ} {c c' : Check φ}

/-- The values in a value. -/
def childrenOf : Json φ → List (Json φ)
  | .arr items => items
  | .obj fields => fields.map Prod.snd
  | _ => []

/-- A value stands somewhere in another one. -/
def Within : Json φ → Json φ → Prop := Relation.ReflTransGen fun a b => b ∈ childrenOf a

theorem finite_within (v : Json φ) : {w | Within v w}.Finite := by
  have hstep : ∀ v : Json φ, (∀ w ∈ childrenOf v, {u | Within w u}.Finite) →
      {u | Within v u}.Finite := by
    intro v h
    have hunion : (⋃ w ∈ {w | w ∈ childrenOf v}, {u | Within w u}).Finite :=
      Set.Finite.biUnion (finite_toSet _) h
    refine (hunion.insert v).subset fun u hu => ?_
    rcases Relation.ReflTransGen.cases_head hu with rfl | ⟨w, hw, hwu⟩
    · exact Set.mem_insert _ _
    · exact Set.mem_insert_of_mem _ (Set.mem_biUnion hw hwu)
  induction v with
  | null | bool _ | int _ | float _ | str _ => exact hstep _ nofun
  | arr items ih => exact hstep _ ih
  | obj fields ih =>
    refine hstep _ fun w hw => ?_
    obtain ⟨kv, hkv, rfl⟩ := List.mem_map.mp hw
    exact ih kv hkv

variable {v : Json φ}

theorem within_of_get? {fields : Record φ} {key : Text} (h : get? fields key = some v) :
    Within (.obj fields) v := by
  obtain ⟨before, after, rfl, -⟩ := lookup_eq_some_iff.mp h
  exact .single (List.mem_map.mpr ⟨(key, v), mem_append_right before mem_cons_self, rfl⟩)

theorem size_lt_of_mem {w : Json φ} (h : w ∈ childrenOf v) : sizeOf w < sizeOf v := by
  cases v with
  | null | bool _ | int _ | float _ | str _ => cases h
  | arr items =>
    have hitem : sizeOf w < sizeOf items := sizeOf_lt_of_mem h
    rw [Json.arr.sizeOf_spec]
    omega
  | obj fields =>
    obtain ⟨kv, hkv, rfl⟩ := List.mem_map.mp h
    have hfield := sizeOf_lt_of_mem hkv
    obtain ⟨key, w⟩ := kv
    rw [Prod.mk.sizeOf_spec] at hfield
    rw [Json.obj.sizeOf_spec]
    dsimp only
    omega

/-- A schema refers to another one: its `$ref` does, or the other one is a branch of its first
combinator. -/
inductive Refers (root schema schema' : Record φ) : Prop where
  | ref (text : Text) (href : get? schema refKey = some (.str text))
      (hresolved : resolveRef text root = some schema')
  | branch (combinator : Text) (subs : List (Json φ))
      (hfirst : firstCombinator schema = some combinator)
      (hsubs : get? schema combinator = some (.arr subs)) (hbranch : .obj schema' ∈ subs)

/-- What a call leads to: a schema of the same documents, and a part of the value, or the same value
at the same path, for a schema that is referred to. -/
structure LeadsTo (root : Record φ) (c c' : Check φ) : Prop where
  schema : Within (.obj root) (.obj c'.schema) ∨ Within (.obj c.schema) (.obj c'.schema)
  value : c'.value ∈ childrenOf c.value ∨
    Refers root c.schema c'.schema ∧ c'.value = c.value ∧ c'.path = c.path

theorem within_of_walkParts {parts : List Text} {node : Option (Json φ)}
    (h : walkParts parts node = some v) : ∃ w, node = some w ∧ Within w v := by
  induction parts generalizing node with
  | nil =>
    rw [walkParts] at h
    exact ⟨v, h, .refl⟩
  | cons part parts ih =>
    cases node with
    | none => cases h
    | some w =>
      cases w with
      | obj fields =>
        obtain ⟨w, hget, hwithin⟩ := ih h
        exact ⟨_, rfl, (within_of_get? hget).trans hwithin⟩
      | _ => cases h

variable {schema : Record φ} {path : Text}

theorem leadsTo_of_ref {ref : Json φ} (href : get? schema refKey = some ref)
    (h : .call c' ∈ refChecks env root v ref path) : LeadsTo root ⟨v, schema, path⟩ c' := by
  unfold refChecks at h
  split at h
  · rename_i text
    split at h
    · rename_i resolved hresolved
      obtain rfl := Item.call.inj (mem_singleton.mp h)
      refine ⟨.inl ?_, .inr ⟨.ref text href hresolved, rfl, rfl⟩⟩
      unfold resolveRef at hresolved
      split at hresolved
      · split at hresolved
        · rename_i node hwalk
          obtain rfl := Option.some.inj hresolved
          obtain ⟨w, hw, hwithin⟩ := within_of_walkParts hwalk
          rw [Option.some.inj hw]
          exact hwithin
        · cases hresolved
      · cases hresolved
    · cases mem_singleton.mp h
  · cases mem_singleton.mp h

theorem leadsTo_of_combinator {combinator : Text}
    (hfirst : firstCombinator schema = some combinator)
    (h : .call c' ∈ combinatorChecks v schema combinator path) :
    LeadsTo root ⟨v, schema, path⟩ c' := by
  unfold combinatorChecks at h
  split at h
  · rename_i sub subs hsubs
    obtain ⟨branch, hbranch, hcall⟩ := mem_filterMap.mp h
    split at hcall
    · rename_i fields
      obtain rfl := Item.call.inj (Option.some.inj hcall)
      exact ⟨.inr ((within_of_get? hsubs).tail hbranch),
        .inr ⟨.branch combinator _ hfirst hsubs hbranch, rfl, rfl⟩⟩
    · cases hcall
  · cases h

theorem leadsTo_of_object {fields : Record φ} (h : .call c' ∈ objectChecks env fields schema path) :
    LeadsTo root ⟨.obj fields, schema, path⟩ c' := by
  rcases mem_append.mp h with h | h
  · obtain ⟨kv, hkv, hcall⟩ := List.mem_map.mp h
    unfold propertyCheck at hcall
    split at hcall
    · rename_i propSchema hsub
      obtain rfl := Item.call.inj hcall
      refine ⟨.inr ?_, .inl (List.mem_map.mpr ⟨kv, hkv, rfl⟩)⟩
      unfold dictOr at hsub
      split at hsub
      · rename_i properties hproperties
        exact (within_of_get? hproperties).trans (within_of_get? hsub)
      · cases hsub
    · cases hcall
    · split at hcall <;> cases hcall
  · cases mem_singleton.mp h

theorem leadsTo_of_array {items : List (Json φ)} (h : .call c' ∈ arrayChecks items schema path) :
    LeadsTo root ⟨.arr items, schema, path⟩ c' := by
  unfold arrayChecks at h
  split at h
  · rename_i itemsSchema hsub
    obtain ⟨item, hitem, hcall⟩ := List.mem_map.mp h
    obtain rfl := Item.call.inj hcall
    exact ⟨.inr (within_of_get? hsub), .inl (fst_mem_of_mem_zipIdx hitem)⟩
  · cases h

theorem leadsTo_of_mem (h : .call c' ∈ checksOf env root c) : LeadsTo root c c' := by
  unfold checksOf at h
  split at h
  · rename_i ref href
    exact leadsTo_of_ref href h
  split at h
  · rename_i combinator hfirst
    exact leadsTo_of_combinator hfirst h
  rcases mem_cons.mp h with h | h
  · cases h
  obtain ⟨v, schema, path⟩ := c
  dsimp only at h
  unfold partChecks at h
  cases v with
  | null => cases h
  | obj fields =>
    dsimp only at h
    split at h
    · exact leadsTo_of_object h
    · split at h
      · cases mem_singleton.mp h
      · cases h
  | arr items =>
    dsimp only at h
    split at h
    · cases mem_singleton.mp h
    · split at h
      · exact leadsTo_of_array h
      · cases h
  | bool _ | int _ | float _ | str _ =>
    dsimp only at h
    split at h
    · cases mem_singleton.mp h
    · split at h
      · cases mem_singleton.mp h
      · cases h

theorem leadsTo_of_calls (h : Calls (validator env root) c c') : LeadsTo root c c' := by
  obtain ⟨before, after, hitems, -⟩ := h
  have hmem : .call c' ∈ checksOf env root c := by
    have heq : checksOf env root c = before ++ .call c' :: after := hitems
    rw [heq]
    exact mem_append_right before mem_cons_self
  exact leadsTo_of_mem hmem

/-- The schemas in the root schema and in the one that the validation starts with. -/
def schemasIn (root schema : Record φ) : Set (Record φ) :=
  {s | Within (.obj root) (.obj s) ∨ Within (.obj schema) (.obj s)}

theorem finite_schemasIn (root schema : Record φ) : (schemasIn root schema).Finite := by
  have hinjective : Function.Injective (Json.obj : Record φ → Json φ) := fun _ _ => Json.obj.inj
  exact ((finite_within (.obj root)).preimage hinjective.injOn).union
    ((finite_within (.obj schema)).preimage hinjective.injOn)

theorem schema_mem_of_reached (h : Relation.ReflTransGen (Calls (validator env root)) c c') :
    c'.schema ∈ schemasIn root c.schema := by
  induction h with
  | refl => exact .inr .refl
  | tail _ hcalls ih =>
    rcases (leadsTo_of_calls hcalls).schema with hroot | hwithin
    · exact .inl hroot
    · exact ih.imp (·.trans hwithin) (·.trans hwithin)

theorem LeadsTo.size_le (h : LeadsTo root c c') : sizeOf c'.value ≤ sizeOf c.value := by
  rcases h.value with hpart | ⟨-, hsame, -⟩
  · exact (size_lt_of_mem hpart).le
  · rw [hsame]

theorem value_of_reached (h : Relation.ReflTransGen (Calls (validator env root)) c c') :
    sizeOf c'.value < sizeOf c.value ∨ c'.value = c.value ∧ c'.path = c.path := by
  induction h with
  | refl => exact .inr ⟨rfl, rfl⟩
  | tail _ hcalls ih =>
    have hleads := leadsTo_of_calls hcalls
    rcases ih with hsmaller | ⟨hvalue, hpath⟩
    · exact .inl (hleads.size_le.trans_lt hsmaller)
    · rcases hleads.value with hpart | ⟨-, hvalue', hpath'⟩
      · have hlt := size_lt_of_mem hpart
        rw [hvalue] at hlt
        exact .inl hlt
      · exact .inr ⟨hvalue'.trans hvalue, hpath'.trans hpath⟩

theorem finite_sameSize (env : ValidatorEnv φ) (root : Record φ) (c : Check φ) :
    {c' | Relation.ReflTransGen (Calls (validator env root)) c c' ∧
      sizeOf c'.value = sizeOf c.value}.Finite := by
  refine ((finite_schemasIn root c.schema).image fun s => ⟨c.value, s, c.path⟩).subset ?_
  rintro ⟨v, schema, path⟩ ⟨hreach, hsize⟩
  refine ⟨schema, schema_mem_of_reached hreach, ?_⟩
  rcases value_of_reached hreach with hsmaller | ⟨hvalue, hpath⟩
  · exact absurd hsize hsmaller.ne
  · rw [← hvalue, ← hpath]

/-- Some call that the validation comes to leads back to itself. -/
def Loops (env : ValidatorEnv φ) (root : Record φ) (c : Check φ) : Prop :=
  ∃ c', Relation.ReflTransGen (Calls (validator env root)) c c' ∧
    Relation.TransGen (Calls (validator env root)) c' c'

theorem refers_of_loops (h : Loops env root c) :
    ∃ s ∈ schemasIn root c.schema, Relation.TransGen (Refers root) s s := by
  obtain ⟨first, hreach, hloop⟩ := h
  refine ⟨first.schema, schema_mem_of_reached hreach, ?_⟩
  have hgo : ∀ {last : Check φ}, Relation.TransGen (Calls (validator env root)) first last →
      sizeOf last.value < sizeOf first.value ∨
        Relation.TransGen (Refers root) first.schema last.schema := by
    intro last hpath
    induction hpath with
    | single hcalls =>
      rcases (leadsTo_of_calls hcalls).value with hpart | ⟨hrefers, -⟩
      · exact .inl (size_lt_of_mem hpart)
      · exact .inr (.single hrefers)
    | tail hpath hcalls ih =>
      have hleads := leadsTo_of_calls hcalls
      rcases ih with hsmaller | hrefers
      · exact .inl (hleads.size_le.trans_lt hsmaller)
      rcases hleads.value with hpart | ⟨hrefers', -⟩
      · rcases value_of_reached hpath.to_reflTransGen with hsmaller | ⟨hvalue, -⟩
        · exact .inl (hleads.size_le.trans_lt hsmaller)
        · have hlt := size_lt_of_mem hpart
          rw [hvalue] at hlt
          exact .inl hlt
      · exact .inr (hrefers.tail hrefers')
  exact (hgo hloop).resolve_left (lt_irrefl _)

theorem terminates_iff_not_loops (env : ValidatorEnv φ) (root : Record φ) (c : Check φ) :
    Terminates (validator env root) c ↔ ¬Loops env root c :=
  (terminates_iff_acc _ c).trans
    (acc_iff_no_loop (fun c => sizeOf c.value)
      (fun _ _ _ hcalls => (leadsTo_of_calls hcalls).size_le)
      fun a _ => finite_sameSize env root a)

end

/-- The recursion ends: it has a verdict that does not depend on how deep it may be, from some depth
on. -/
def Returns (env : ValidatorEnv φ) (v : Json φ) (schema : Record φ) (rootSchema : Option (Record φ))
    (path : Text) : Prop :=
  ∃ limit verdict, ∀ m ≥ limit,
    evalIn (validator env (rootSchema.getD schema)) m ⟨v, schema, path⟩ = some verdict ∧
      validateJsonSchema env m v schema rootSchema path = verdict

theorem returns_iff_terminates (env : ValidatorEnv φ) (v : Json φ) (schema : Record φ)
    (rootSchema : Option (Record φ)) (path : Text) :
    Returns env v schema rootSchema path ↔
      Terminates (validator env (rootSchema.getD schema)) ⟨v, schema, path⟩ := by
  constructor
  · rintro ⟨limit, verdict, h⟩
    exact ⟨limit, isSome_iff_exists.mpr ⟨verdict, (h limit le_rfl).1⟩⟩
  · rintro ⟨limit, hsome⟩
    obtain ⟨verdict, hverdict⟩ := isSome_iff_exists.mp hsome
    refine ⟨limit, verdict, fun m hm => ?_⟩
    have hmore := evalIn_mono _ hm _ _ hverdict
    exact ⟨hmore, agrees_validate env _ m _ _ hmore⟩

/-- The validation returns if and only if no call of the recursion leads back to itself. Only
references and branches that form a cycle lead back, and then the recursion is too deep at every
limit. -/
theorem validateJsonSchema_returns_iff (env : ValidatorEnv φ) (v : Json φ) (schema : Record φ)
    (rootSchema : Option (Record φ)) (path : Text) :
    (Returns env v schema rootSchema path ↔ ¬Loops env (rootSchema.getD schema) ⟨v, schema, path⟩) ∧
    (Loops env (rootSchema.getD schema) ⟨v, schema, path⟩ →
      (∀ limit, validateJsonSchema env limit v schema rootSchema path = .raised) ∧
      ∃ s ∈ schemasIn (rootSchema.getD schema) schema,
        Relation.TransGen (Refers (rootSchema.getD schema)) s s) := by
  have hiff := terminates_iff_not_loops env (rootSchema.getD schema) ⟨v, schema, path⟩
  refine ⟨(returns_iff_terminates env v schema rootSchema path).trans hiff, fun hloops =>
    ⟨fun limit => ?_, refers_of_loops hloops⟩⟩
  have hnone : evalIn (validator env (rootSchema.getD schema)) limit ⟨v, schema, path⟩ = none :=
    not_isSome_iff_eq_none.mp fun hsome => hiff.mp ⟨limit, hsome⟩ hloops
  exact exceeds_validate env _ limit _ hnone

/-- `{"$ref": "#/$defs/a"}`. -/
def selfReference : Record Empty := [(refKey, .str "#/$defs/a")]

/-- A schema with a definition that refers to itself. -/
def cyclicSchema : Record Empty :=
  [(refKey, .str "#/$defs/a"),
    ("$defs", .obj [("a", .obj selfReference)])]

theorem evalIn_selfReference (v : Json Empty) (path : Text) (limit : ℕ) :
    evalIn (validator plainValidator cyclicSchema) limit ⟨v, selfReference, path⟩ = none := by
  induction limit with
  | zero => rfl
  | succ limit ih =>
    have hitems : (validator plainValidator cyclicSchema).items ⟨v, selfReference, path⟩ =
        [.call ⟨v, selfReference, path⟩] := rfl
    rw [evalIn, hitems, look, Item.value, ih]
    rfl

/-- A cycle of references is followed until the recursion is too deep. -/
theorem cyclicSchema_never_returns :
    ¬Returns plainValidator .null cyclicSchema none "$" ∧
      ∀ limit, validateJsonSchema plainValidator limit .null cyclicSchema none "$" =
        .raised := by
  have hnone : ∀ limit, evalIn (validator plainValidator cyclicSchema) limit
      ⟨.null, cyclicSchema, "$"⟩ = none := by
    intro limit
    cases limit with
    | zero => rfl
    | succ limit =>
      have hitems : (validator plainValidator cyclicSchema).items
          ⟨.null, cyclicSchema, "$"⟩ = [.call ⟨.null, selfReference, "$"⟩] := rfl
      rw [evalIn, hitems, look, Item.value, evalIn_selfReference]
      rfl
  refine ⟨?_, fun limit => exceeds_validate _ _ limit _ (hnone limit)⟩
  rintro ⟨limit, verdict, h⟩
  have hsome := (h limit le_rfl).1
  rw [getD_none, hnone limit] at hsome
  cases hsome

end ClearYourTools.CytClient
