import Mathlib.Algebra.Order.Field.Basic
import Mathlib.Tactic.Ring

/-!
# Values that die away

A value that every step makes smaller by a factor, and one that is held between
two bounds besides: how far it has come down after a number of steps, from
wherever it began.
-/

namespace Damping

variable {α : Type u} [Field α] [LinearOrder α] {q x y lo hi : α} {n : ℕ}

/-- One step of a value that is held between `lo` and `hi`; where these cross,
`lo` wins. -/
def damp (q lo hi x : α) : α := max (min (x * q) hi) lo

theorem le_damp (q lo hi x : α) : lo ≤ damp q lo hi x := le_max_right ..

theorem damp_le_max (q lo hi x : α) : damp q lo hi x ≤ max hi lo :=
  max_le_max_right lo (min_le_right ..)

variable [IsStrictOrderedRing α]

section
variable (h₀ : 0 ≤ q) (h₁ : q ≤ 1)
include h₀ h₁

theorem damp_le (hlo : 0 ≤ lo) (h : x ≤ max (hi * q ^ n) lo) :
    damp q lo hi x ≤ max (hi * q ^ (n + 1)) lo := by
  refine max_le ((min_le_left ..).trans ?_) (le_max_right ..)
  calc x * q ≤ max (hi * q ^ n) lo * q := mul_le_mul_of_nonneg_right h h₀
    _ = max (hi * q ^ n * q) (lo * q) := max_mul_of_nonneg _ _ h₀
    _ ≤ max (hi * q ^ (n + 1)) lo := by
      rw [mul_assoc, ← pow_succ]
      exact max_le_max_left _ (mul_le_of_le_one_right hlo h₁)

theorem pow_mul_anti (hy : 0 ≤ y) (hmn : m ≤ n) : q ^ n * y ≤ q ^ m * y :=
  mul_le_mul_of_nonneg_right (pow_le_pow_of_le_one h₀ h₁ hmn) hy

end

theorem step_le (h₀ : 0 ≤ q) (h : x ≤ q ^ n * y) : q * x ≤ q ^ (n + 1) * y := by
  rw [pow_succ', mul_assoc]
  exact mul_le_mul_of_nonneg_left h h₀

end Damping
