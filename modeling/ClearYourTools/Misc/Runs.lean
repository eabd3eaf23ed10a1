import Mathlib.Data.Fintype.Card
import Mathlib.Data.Set.Finite.Basic
import Mathlib.Logic.Relation
import Mathlib.Tactic.TypeStar

/-!
# Runs

Systems that take one action after the other: `step s a` is the state after the action `a`, or
`none` where the action is not possible in `s`.
-/

namespace Misc

open Option

variable {σ α : Type}

/-- A run from `s` whose actions all meet a condition on the state that they are taken in. -/
inductive Run (step : σ → α → Option σ) (ok : σ → α → Prop) (s : σ) : List α → σ → Prop
  | nil : Run step ok s [] s
  | snoc {actions : List α} {a : α} {s' s'' : σ} (run : Run step ok s actions s')
      (meets : ok s' a) (next : step s' a = some s'') : Run step ok s (actions ++ [a]) s''

namespace Run

variable {step : σ → α → Option σ} {ok ok' : σ → α → Prop} {s s' : σ} {actions : List α}

/-- What every step preserves holds wherever a run gets to. -/
theorem invariant {P : σ → Prop} (run : Run step ok s actions s') (hstart : P s)
    (hstep : ∀ {s a s'}, P s → ok s a → step s a = some s' → P s') : P s' := by
  induction run with
  | nil => exact hstart
  | snoc _ hmeets hnext ih => exact hstep ih hmeets hnext

theorem mono (h : ∀ s a, ok s a → ok' s a) (run : Run step ok s actions s') :
    Run step ok' s actions s' := by
  induction run with
  | nil => exact .nil
  | snoc _ hmeets hnext ih => exact .snoc ih (h _ _ hmeets) hnext

theorem append {more : List α} {s'' : σ} (run : Run step ok s actions s')
    (rest : Run step ok s' more s'') : Run step ok s (actions ++ more) s'' := by
  induction rest with
  | nil =>
    rw [List.append_nil]
    exact run
  | snoc _ hmeets hnext ih =>
    rw [← List.append_assoc]
    exact .snoc ih hmeets hnext

theorem cons {a : α} {s₁ : σ} (hmeets : ok s a) (hnext : step s a = some s₁)
    (rest : Run step ok s₁ actions s') : Run step ok s (a :: actions) s' :=
  append (.snoc .nil hmeets hnext) rest

/-- Where each step tells whether it met a condition, the states that a run gets to tell whether all
its steps have. -/
theorem iff_of_step {I P : σ → Prop} {meets : σ → α → Prop} (hI : I s) (hP : P s)
    (hkeeps : ∀ {s a s'}, I s → ok s a → step s a = some s' → I s')
    (htells : ∀ {s a s'}, I s → ok s a → step s a = some s' → (P s' ↔ P s ∧ meets s a)) :
    Run step (fun s a => ok s a ∧ meets s a) s actions s' ↔ Run step ok s actions s' ∧ P s' := by
  constructor
  · intro run
    obtain ⟨-, hP'⟩ := run.invariant (P := fun s => I s ∧ P s) ⟨hI, hP⟩
      fun h hok hnext => ⟨hkeeps h.1 hok.1 hnext, (htells h.1 hok.1 hnext).mpr ⟨h.2, hok.2⟩⟩
    exact ⟨run.mono fun _ _ h => h.1, hP'⟩
  · rintro ⟨run, hP'⟩
    induction run with
    | nil => exact .nil
    | snoc run hok hnext ih =>
      obtain ⟨hbefore, hmeets⟩ := (htells (run.invariant hI hkeeps) hok hnext).mp hP'
      exact .snoc (ih hbefore) ⟨hok, hmeets⟩ hnext

end Run

/-- The state after some actions, if all of them are possible and meet the condition. -/
def runFrom (step : σ → α → Option σ) (ok : σ → α → Prop) [∀ s a, Decidable (ok s a)] (s : σ) :
    List α → Option σ
  | [] => some s
  | a :: actions => if ok s a then (step s a).bind (runFrom step ok · actions) else none

theorem Run.of_runFrom {step : σ → α → Option σ} {ok : σ → α → Prop}
    [∀ s a, Decidable (ok s a)] {s s' : σ} {actions : List α}
    (h : runFrom step ok s actions = some s') : Run step ok s actions s' := by
  induction actions generalizing s with
  | nil =>
    cases h
    exact .nil
  | cons a actions ih =>
    rw [runFrom] at h
    split at h
    · rename_i hmeets
      obtain ⟨s₁, hnext, hrest⟩ := bind_eq_some_iff.mp h
      exact .cons hmeets hnext (ih hrest)
    · cases h

/-!
## Recursive procedures

A procedure looks at items in order, of which some are calls of itself, leaves the loop at a result
that it stops at, and makes its result of those it has seen. It returns if and only if the calls
that it makes are well-founded.
-/

namespace Recursion

/-- What a procedure looks at: a call of itself, or a result that needs none. -/
inductive Item (κ ρ : Type) where
  | call (c : κ)
  | done (r : ρ)

/-- For each call its items, the results that it stops at, and its own result. -/
structure Procedure (κ ρ : Type) where
  items : κ → List (Item κ ρ)
  stops : κ → ρ → Bool
  result : κ → List ρ → ρ

variable {κ ρ : Type}

/-- The result of an item, of what is known of the calls. -/
def Item.value (f : κ → Option ρ) : Item κ ρ → Option ρ
  | .call c => f c
  | .done r => some r

/-- The results of the items, up to the first that the loop stops at. -/
def look (stops : ρ → Bool) (f : κ → Option ρ) : List (Item κ ρ) → Option (List ρ)
  | [] => some []
  | item :: rest =>
    (item.value f).bind fun r =>
      bif stops r then some [r] else (look stops f rest).map fun rs => r :: rs

/-- The result of a call whose recursion is not deeper than the limit. -/
def evalIn (P : Procedure κ ρ) : ℕ → κ → Option ρ
  | 0, _ => none
  | limit + 1, c => (look (P.stops c) (evalIn P limit) (P.items c)).map (P.result c)

variable (P : Procedure κ ρ)

/-- The procedure returns, at some depth. -/
def Terminates (c : κ) : Prop := ∃ limit, (evalIn P limit c).isSome = true

/-- A call makes another one: it does not stop at an item before it. -/
def Calls (c c' : κ) : Prop :=
  ∃ before after, P.items c = before ++ .call c' :: after ∧ ∃ limit, ∀ item ∈ before,
    ∃ r, item.value (evalIn P limit) = some r ∧ P.stops c r = false

/-- All that is known is known. -/
def Below (f g : κ → Option ρ) : Prop := ∀ c r, f c = some r → g c = some r

variable {f g : κ → Option ρ}

theorem Item.value_mono (h : Below f g) {item : Item κ ρ} {r : ρ}
    (hvalue : item.value f = some r) : item.value g = some r := by
  cases item with
  | call c => exact h c r hvalue
  | done r' => exact hvalue

theorem look_mono (h : Below f g) {stops : ρ → Bool} {items : List (Item κ ρ)} {rs : List ρ}
    (hlook : look stops f items = some rs) : look stops g items = some rs := by
  induction items generalizing rs with
  | nil => exact hlook
  | cons item rest ih =>
    rw [look] at hlook ⊢
    obtain ⟨r, hr, hrest⟩ := bind_eq_some_iff.mp hlook
    rw [Item.value_mono h hr, bind_some]
    cases hstop : stops r with
    | true =>
      rw [hstop] at hrest
      exact hrest
    | false =>
      rw [hstop, cond_false] at hrest
      obtain ⟨rs', hrs', rfl⟩ := map_eq_some_iff.mp hrest
      rw [cond_false, ih hrs']
      rfl

theorem evalIn_succ (limit : ℕ) : Below (evalIn P limit) (evalIn P (limit + 1)) := by
  induction limit with
  | zero => exact fun _ _ h => (by cases h)
  | succ limit ih =>
    intro c r h
    obtain ⟨rs, hrs, rfl⟩ := map_eq_some_iff.mp h
    exact map_eq_some_iff.mpr ⟨rs, look_mono ih hrs, rfl⟩

theorem evalIn_mono {limit limit' : ℕ} (h : limit ≤ limit') :
    Below (evalIn P limit) (evalIn P limit') := by
  induction h with
  | refl => exact fun _ _ h => h
  | step _ ih => exact fun c r hr => evalIn_succ P _ c r (ih c r hr)

/-- A call that returns has returned from the calls it makes. -/
theorem isSome_evalIn_of_calls {P : Procedure κ ρ} {c c' : κ} {limit : ℕ}
    (h : (evalIn P (limit + 1) c).isSome = true) (hcalls : Calls P c c') :
    (evalIn P limit c').isSome = true := by
  obtain ⟨before, after, hitems, limit', hbefore⟩ := hcalls
  rw [evalIn, isSome_map, hitems] at h
  -- the items before the call have the same results at every depth that suffices
  have hgo : ∀ before : List (Item κ ρ), (∀ item ∈ before, ∃ r,
      item.value (evalIn P limit') = some r ∧ P.stops c r = false) →
      (look (P.stops c) (evalIn P limit) (before ++ .call c' :: after)).isSome = true →
      (look (P.stops c) (evalIn P limit) (.call c' :: after)).isSome = true := by
    intro before hbefore h
    induction before with
    | nil => exact h
    | cons item before ih =>
      obtain ⟨r, hr, hstop⟩ := hbefore item List.mem_cons_self
      obtain ⟨rs, hrs⟩ := isSome_iff_exists.mp h
      rw [List.cons_append, look] at hrs
      obtain ⟨r', hr', hrest⟩ := bind_eq_some_iff.mp hrs
      have hsame : r' = r := by
        have hmore := Item.value_mono (evalIn_mono P (Nat.le_max_left limit limit')) hr'
        have hmore' := Item.value_mono (evalIn_mono P (Nat.le_max_right limit limit')) hr
        exact Option.some.inj (hmore.symm.trans hmore')
      rw [hsame, hstop, cond_false] at hrest
      obtain ⟨rs', hrs', -⟩ := map_eq_some_iff.mp hrest
      exact ih (fun other hother => hbefore other (List.mem_cons_of_mem item hother))
        (isSome_iff_exists.mpr ⟨rs', hrs'⟩)
  have hlast := hgo before hbefore h
  obtain ⟨rs, hrs⟩ := isSome_iff_exists.mp hlast
  rw [look] at hrs
  obtain ⟨r, hr, -⟩ := bind_eq_some_iff.mp hrs
  exact isSome_iff_exists.mpr ⟨r, hr⟩

/-- A call returns if all the calls it makes do. -/
theorem terminates_of_calls {P : Procedure κ ρ} {c : κ} (h : ∀ c', Calls P c c' → Terminates P c') :
    Terminates P c := by
  have hgo : ∀ (after before : List (Item κ ρ)), P.items c = before ++ after →
      (∃ limit, ∀ item ∈ before, ∃ r, item.value (evalIn P limit) = some r ∧ P.stops c r = false) →
      ∃ limit, (look (P.stops c) (evalIn P limit) after).isSome = true := by
    intro after
    induction after with
    | nil => exact fun _ _ _ => ⟨0, rfl⟩
    | cons item after ih =>
      intro before hitems hbefore
      have hvalue : ∃ limit r, item.value (evalIn P limit) = some r := by
        cases item with
        | call c' =>
          obtain ⟨limit, hsome⟩ := h c' ⟨before, after, hitems, hbefore⟩
          obtain ⟨r, hr⟩ := isSome_iff_exists.mp hsome
          exact ⟨limit, r, hr⟩
        | done r => exact ⟨0, r, rfl⟩
      obtain ⟨limit, r, hr⟩ := hvalue
      cases hstop : P.stops c r with
      | true =>
        refine ⟨limit, ?_⟩
        rw [look, hr, bind_some, hstop]
        rfl
      | false =>
        obtain ⟨limit', hbefore⟩ := hbefore
        have hmore : ∃ limit, ∀ item' ∈ before ++ [item], ∃ r,
            item'.value (evalIn P limit) = some r ∧ P.stops c r = false := by
          refine ⟨max limit limit', fun item' hitem' => ?_⟩
          rcases List.mem_append.mp hitem' with hitem' | hitem'
          · obtain ⟨r', hr', hstop'⟩ := hbefore item' hitem'
            exact ⟨r', Item.value_mono (evalIn_mono P (Nat.le_max_right _ _)) hr', hstop'⟩
          · obtain rfl := List.mem_singleton.mp hitem'
            exact ⟨r, Item.value_mono (evalIn_mono P (Nat.le_max_left _ _)) hr, hstop⟩
        obtain ⟨limit'', hrest⟩ := ih (before ++ [item]) (by rw [hitems]; simp) hmore
        refine ⟨max limit limit'', ?_⟩
        obtain ⟨rs, hrs⟩ := isSome_iff_exists.mp hrest
        rw [look, Item.value_mono (evalIn_mono P (Nat.le_max_left _ _)) hr, bind_some, hstop,
          look_mono (evalIn_mono P (Nat.le_max_right limit limit'')) hrs]
        rfl
  obtain ⟨limit, hlook⟩ := hgo (P.items c) [] rfl ⟨0, nofun⟩
  exact ⟨limit + 1, by rw [evalIn, isSome_map, hlook]⟩

/-- A call returns if and only if the calls below it are well-founded. -/
theorem terminates_iff_acc (c : κ) : Terminates P c ↔ Acc (fun c' c => Calls P c c') c := by
  constructor
  · rintro ⟨limit, h⟩
    induction limit generalizing c with
    | zero => cases h
    | succ limit ih => exact ⟨c, fun c' hcalls => ih c' (isSome_evalIn_of_calls h hcalls)⟩
  · intro hacc
    induction hacc with
    | intro c _ ih => exact terminates_of_calls ih

section

variable {step : κ → κ → Prop}

theorem acc_of_reflTransGen {a b : κ} (h : Acc (fun b a => step a b) a)
    (hreach : Relation.ReflTransGen step a b) : Acc (fun b a => step a b) b := by
  induction hreach with
  | refl => exact h
  | tail _ hstep ih => exact ih.inv hstep

theorem not_loop_of_acc {a : κ} (h : Acc (fun b a => step a b) a) :
    ¬Relation.TransGen step a a := by
  induction h with
  | intro a _ ih =>
    intro hloop
    -- the loop from its second place on
    obtain ⟨b, hab, hba⟩ := Relation.TransGen.head'_iff.mp hloop
    exact ih b hab (Relation.TransGen.tail' hba hab)

/-- Steps that never grow, with finitely many of the same size to be reached, go on for ever only
around a loop. -/
theorem acc_iff_no_loop (size : κ → ℕ) {c : κ}
    (hsize : ∀ a b, Relation.ReflTransGen step c a → step a b → size b ≤ size a)
    (hfinite : ∀ a, Relation.ReflTransGen step c a →
      {b | Relation.ReflTransGen step a b ∧ size b = size a}.Finite) :
    Acc (fun b a => step a b) c ↔
      ¬∃ a, Relation.ReflTransGen step c a ∧ Relation.TransGen step a a := by
  constructor
  · rintro hacc ⟨a, hreach, hloop⟩
    exact not_loop_of_acc (acc_of_reflTransGen hacc hreach) hloop
  intro hnone
  have hall : ∀ n a, size a < n → Relation.ReflTransGen step c a → Acc (fun b a => step a b) a := by
    intro n
    induction n with
    | zero => exact fun a hlt _ => absurd hlt (Nat.not_lt_zero _)
    | succ n ih =>
      intro a hlt hca
      -- what is reached from `a` at its size, under the order of being reached
      have : Finite {b // Relation.ReflTransGen step a b ∧ size b = size a} := hfinite a hca
      let below (x y : {b // Relation.ReflTransGen step a b ∧ size b = size a}) : Prop :=
        Relation.TransGen step y.1 x.1
      have : IsTrans _ below := ⟨fun _ _ _ hxy hyz => hyz.trans hxy⟩
      have : Std.Irrefl below := ⟨fun x hloop => hnone ⟨x.1, hca.trans x.2.1, hloop⟩⟩
      have hwf : WellFounded below := Finite.wellFounded_of_trans_of_irrefl below
      have hlevel : ∀ x : {b // Relation.ReflTransGen step a b ∧ size b = size a},
          Acc (fun b a => step a b) x.1 := by
        intro x
        induction x using hwf.induction with
        | _ x ihx =>
          refine ⟨x.1, fun b hstep => ?_⟩
          have hreach := hca.trans x.2.1
          rcases Nat.lt_or_eq_of_le (hsize x.1 b hreach hstep) with hsmaller | hsame
          · exact ih b (by omega) (hreach.tail hstep)
          · exact ihx ⟨b, x.2.1.tail hstep, hsame.trans x.2.2⟩ (.single hstep)
      exact hlevel ⟨a, .refl, rfl⟩
  exact hall (size c + 1) c (Nat.lt_succ_self _) .refl

end

end Recursion

end Misc
