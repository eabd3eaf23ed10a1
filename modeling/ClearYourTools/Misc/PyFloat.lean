import Mathlib.Algebra.Order.Ring.Rat
import Mathlib.Data.Rat.Cast.Order

/-!
# Python floats without rounding

A float is a rational number, one of the infinities, or not a number. Comparisons with `nan`
are false, and `min` and `max` keep their first argument unless the second compares strictly.
-/

namespace Misc

inductive PyFloat where
  | num (q : ℚ)
  | posInf
  | negInf
  | nan
deriving DecidableEq, Repr

namespace PyFloat

/-- `a < b`. -/
def lt : PyFloat → PyFloat → Bool
  | num a, num b => decide (a < b)
  | num _, posInf => true
  | negInf, num _ => true
  | negInf, posInf => true
  | _, _ => false

/-- `a <= b`. -/
def le : PyFloat → PyFloat → Bool
  | num a, num b => decide (a ≤ b)
  | num _, posInf => true
  | posInf, posInf => true
  | negInf, num _ => true
  | negInf, posInf => true
  | negInf, negInf => true
  | _, _ => false

/-- `a + b`. -/
def add : PyFloat → PyFloat → PyFloat
  | num a, num b => num (a + b)
  | num _, posInf => posInf
  | posInf, num _ => posInf
  | posInf, posInf => posInf
  | num _, negInf => negInf
  | negInf, num _ => negInf
  | negInf, negInf => negInf
  | _, _ => nan

/-- `n * a` for a count `n`. -/
def natMul (n : ℕ) : PyFloat → PyFloat
  | num a => num (n * a)
  | posInf => if n = 0 then nan else posInf
  | negInf => if n = 0 then nan else negInf
  | nan => nan

/-- `max(a, b)`. -/
def max (a b : PyFloat) : PyFloat := if lt a b then b else a

/-- `min(a, b)`. -/
def min (a b : PyFloat) : PyFloat := if lt b a then b else a

variable {a : PyFloat}

theorem le_self (h : a ≠ nan) : le a a = true := by
  cases a with
  | num a => simp [le]
  | posInf => rfl
  | negInf => rfl
  | nan => exact absurd rfl h

theorem le_of_lt_true {a b : PyFloat} (h : lt a b = true) : le a b = true := by
  cases a <;> cases b <;> simp_all [lt, le]
  exact h.le

theorem lt_le {a b c : PyFloat} (hab : lt a b = true) (hbc : le b c = true) : lt a c = true := by
  cases a <;> cases b <;> cases c <;> simp_all [lt, le]
  exact hab.trans_le hbc

/-- The negation of `now < t`, for a `t` that is a number of some kind. -/
theorem le_num_of_not_lt {t : PyFloat} {q : ℚ} (ht : t ≠ nan) (h : lt (num q) t = false) :
    le t (num q) = true := by
  cases t <;> simp_all [lt, le]

theorem le_max (b : PyFloat) (ha : a ≠ nan) : le a (max a b) = true := by
  simp only [max]
  split
  · exact le_of_lt_true ‹_›
  · exact le_self ha

/-- A first argument that is a number of some kind makes `max` one. -/
theorem max_ne_nan (b : PyFloat) (ha : a ≠ nan) : max a b ≠ nan := by
  simp only [max]
  split
  · rename_i h
    rintro rfl
    cases a <;> simp [lt] at h
  · exact ha

end PyFloat

end Misc
