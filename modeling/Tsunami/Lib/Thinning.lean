import Mathlib.Data.List.Range

/-!
# Every so many elements, one left out

Of each `k + 1` consecutive positions the last is left out. The position of the
`q`-th that is kept is `q + q / k`; a copy that goes from position to position
and skips the ones left out comes by exactly these.
-/

namespace Thinning

/-- The position of the `q`-th element that is kept. -/
def kept (k q : Nat) : Nat := q + q / k

def Dropped (k i : Nat) : Prop := i % (k + 1) = k

instance (k i : Nat) : Decidable (Dropped k i) := inferInstanceAs (Decidable (_ = _))

def skip (k i : Nat) : Nat := if Dropped k i then i + 1 else i

variable {k : Nat}

theorem kept_split (k q : Nat) : kept k q = (k + 1) * (q / k) + q % k := by
  have hdiv := Nat.div_add_mod q k
  have hmul : (k + 1) * (q / k) = k * (q / k) + q / k := Nat.succ_mul ..
  rw [kept]
  omega

theorem kept_lt (h : q < r) : kept k q < kept k r :=
  Nat.add_lt_add_of_lt_of_le h (Nat.div_le_div_right (Nat.le_of_lt h))

theorem kept_mod (hk : 0 < k) (q : Nat) : kept k q % (k + 1) = q % k := by
  have hlt : q % k < k + 1 := Nat.lt_succ_of_lt (Nat.mod_lt q hk)
  rw [kept_split, Nat.mul_add_mod, Nat.mod_eq_of_lt hlt]

theorem not_dropped_kept (hk : 0 < k) (q : Nat) : ¬Dropped k (kept k q) := by
  have hlt := Nat.mod_lt q hk
  rw [Dropped, kept_mod hk]
  omega

@[simp] theorem skip_kept (hk : 0 < k) (q : Nat) : skip k (kept k q) = kept k q :=
  if_neg (not_dropped_kept hk q)

theorem kept_succ (hk : 0 < k) (q : Nat) : kept k (q + 1) = skip k (kept k q + 1) := by
  have hlt := Nat.mod_lt q hk
  have hq := Nat.div_add_mod q k
  have hmod : (kept k q + 1) % (k + 1) = q % k + 1 := by
    have hshift :
        kept k q + 1 = (k + 1) * (q / k) + (q % k + 1) := by rw [kept_split, Nat.add_assoc]
    rw [hshift, Nat.mul_add_mod, Nat.mod_eq_of_lt (Nat.succ_lt_succ hlt)]
  by_cases hend : q % k + 1 = k
  · -- `q + 1` begins the next run
    have hnext : q + 1 = k * (q / k + 1) := by
      rw [Nat.mul_add, Nat.mul_one]
      omega
    have hdiv : (q + 1) / k = q / k + 1 := by rw [hnext, Nat.mul_div_cancel_left _ hk]
    rw [skip, if_pos (show Dropped k _ from hmod.trans hend), kept, kept, hdiv]
    omega
  · have hshift : q + 1 = k * (q / k) + (q % k + 1) := by omega
    have hdiv : (q + 1) / k = q / k := by
      rw [hshift, Nat.mul_add_div hk, Nat.div_eq_of_lt (a := q % k + 1) (by omega), Nat.add_zero]
    rw [skip, if_neg (show ¬Dropped k _ from fun h => hend (hmod.symm.trans h)), kept, kept, hdiv]
    omega

theorem filter_range_kept (hk : 0 < k) (n : Nat) :
    (List.range (kept k n)).filter (fun i => ¬Dropped k i) = (List.range n).map (kept k) := by
  induction n with
  | zero => simp [kept]
  | succ n ih =>
    have hkeep : [kept k n].filter (fun i => ¬Dropped k i) = [kept k n] := by
      simp [not_dropped_kept hk n]
    rw [List.range_succ, List.map_append, ← ih, kept_succ hk, skip]
    split
    · rename_i hdrop
      have hnone : [kept k n + 1].filter (fun i => ¬Dropped k i) = [] := by simp [hdrop]
      rw [List.range_succ, List.range_succ, List.filter_append, List.filter_append, hkeep, hnone,
        List.append_nil]
      rfl
    · rw [List.range_succ, List.filter_append, hkeep]
      rfl

/-- A stretch of kept positions is less than twice as long as what is kept of it. -/
theorem kept_add_le (hk : 0 < k) (q n : Nat) : kept k (q + n) ≤ kept k q + 2 * n := by
  induction n with
  | zero => exact Nat.le_refl _
  | succ n ih =>
    have hskip : skip k (kept k (q + n) + 1) ≤ kept k (q + n) + 2 := by
      rw [skip]
      split <;> omega
    rw [← Nat.add_assoc, kept_succ hk]
    omega

end Thinning
