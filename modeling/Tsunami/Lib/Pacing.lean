import Mathlib.Data.Rat.Floor
import Mathlib.Tactic.Linarith

/-!
# Turns with a delay between them

A loop that lets some time pass between its turns keeps the time it still has
to wait as a signed number: every turn adds what is due and takes off what has
passed. Time that was lost earlier is made up for only against a wait.
-/

namespace Pacing

/-- A conversion to an integer type goes toward zero. -/
def truncate (q : ℚ) : Int := if 0 ≤ q then ⌊q⌋ else ⌈q⌉

theorem le_truncate {m : Int} (h : (m : ℚ) ≤ q) : m ≤ truncate q := by
  rw [truncate]
  split
  · exact Int.le_floor.mpr h
  · have hceil : (m : ℚ) ≤ ⌈q⌉ := h.trans (Int.le_ceil q)
    exact_mod_cast hceil

def wait (due : ℚ) (elapsed w : Int) : Int :=
  let diff := truncate (due - elapsed)
  if diff > 0 ∨ w > 0 then w + diff else w

theorem le_wait {p : Int} (h : (p : ℚ) ≤ due) (elapsed w : Int) :
    w + p - elapsed ≤ wait due elapsed w := by
  have hdiff : p - elapsed ≤ truncate (due - elapsed) :=
    le_truncate (by push_cast; linarith)
  simp only [wait]
  split
  · omega
  · rename_i hnot
    have hle : truncate (due - elapsed) ≤ 0 := by
      by_contra hpos
      exact hnot (.inl (by omega))
    omega

/-- After `n` turns, the last one at `now`, `n` delays have passed or are still
to be waited for. -/
def Metered (p start : Int) (n : Nat) (now w : Int) : Prop := n * p ≤ now - start + w

theorem metered_start (p start : Int) : Metered p start 0 start 0 := by
  simp [Metered]

theorem Metered.turn {p : Int} (h : Metered p start n last w) (hdue : (p : ℚ) ≤ due) (now : Int) :
    Metered p start (n + 1) now (wait due (now - last) w) := by
  have hwait := le_wait hdue (now - last) w
  simp only [Metered] at h ⊢
  push_cast
  linarith

theorem Metered.waited (h : Metered p start n now w) (ht : now + w ≤ t) : n * p ≤ t - start := by
  simp only [Metered] at h
  omega

end Pacing
