import Mathlib.Algebra.Ring.Periodic
import Mathlib.Data.List.GetD

/-!
# Words repeated without end

When two words, repeated without end, give the same sequence: it is enough
that they do as far as both words together are long, and that is the case
exactly if the words commute.
-/

namespace Cyclic

open Function

/-- Letter `i` of the word repeated without end. The empty word is never read. -/
def cyclic (d : α) (w : List α) (i : Nat) : α := w.getD (i % w.length) d

theorem cyclic_of_lt {w : List α} (d : α) (h : i < w.length) : cyclic d w i = w[i] := by
  rw [cyclic, Nat.mod_eq_of_lt h, List.getD_eq_getElem _ _ h]

theorem cyclic_periodic (d : α) (w : List α) : Periodic (cyclic d w) w.length := by
  intro i
  rw [cyclic, cyclic, Nat.add_mod_right]

theorem eq_of_periodic {f g : Nat → α} (hf : Periodic f m) (hg : Periodic g n)
    (hm : 0 < m) (hn : 0 < n) (h : ∀ i < m + n, f i = g i) (i : Nat) : f i = g i := by
  induction i using Nat.strongRecOn with
  | ind i ih =>
    by_cases hi : i < m + n
    · exact h i hi
    · obtain ⟨j, rfl⟩ := Nat.exists_eq_add_of_le' (Nat.le_of_not_lt hi)
      -- down by one period of `f`, by both, and up again
      calc f (j + (m + n)) = f (j + n + m) := by rw [Nat.add_comm m, Nat.add_assoc]
        _ = f (j + n) := hf _
        _ = g (j + n) := ih _ (by omega)
        _ = g j := hg j
        _ = f j := (ih _ (by omega)).symm
        _ = f (j + m) := (hf j).symm
        _ = g (j + m) := ih _ (by omega)
        _ = g (j + m + n) := (hg _).symm
        _ = g (j + (m + n)) := by rw [Nat.add_assoc]

variable {v w : List α}

/-- The letters of two words that commute go on as those of the first. -/
theorem getD_of_commute (d : α) (hv : v ≠ []) (h : v ++ w = w ++ v) (hi : i < v.length + w.length) :
    (v ++ w).getD i d = cyclic d v i := by
  induction i using Nat.strongRecOn with
  | ind i ih =>
    have hpos := List.length_pos_iff.mpr hv
    by_cases hlt : i < v.length
    · rw [cyclic_of_lt d hlt, List.getD_append _ _ _ _ hlt, List.getD_eq_getElem _ _ hlt]
    · obtain ⟨j, rfl⟩ := Nat.exists_eq_add_of_le' (Nat.le_of_not_lt hlt)
      have hj : j < w.length := by omega
      calc (v ++ w).getD (j + v.length) d = w.getD j d := by
            rw [List.getD_append_right _ _ _ _ (Nat.le_add_left ..), Nat.add_sub_cancel]
        _ = (w ++ v).getD j d := (List.getD_append _ _ _ _ hj).symm
        _ = (v ++ w).getD j d := by rw [h]
        _ = cyclic d v j := ih j (by omega) (by omega)
        _ = cyclic d v (j + v.length) := (cyclic_periodic d v j).symm

theorem getD_of_agree (d : α) (h : ∀ i < v.length + w.length, cyclic d v i = cyclic d w i)
    (hi : i < v.length + w.length) : (v ++ w).getD i d = cyclic d v i := by
  by_cases hlt : i < v.length
  · rw [cyclic_of_lt d hlt, List.getD_append _ _ _ _ hlt, List.getD_eq_getElem _ _ hlt]
  · obtain ⟨j, rfl⟩ := Nat.exists_eq_add_of_le' (Nat.le_of_not_lt hlt)
    have hj : j < w.length := by omega
    rw [List.getD_append_right _ _ _ _ (Nat.le_add_left ..), Nat.add_sub_cancel,
      cyclic_periodic d v j, h j (by omega), cyclic_of_lt d hj, List.getD_eq_getElem _ _ hj]

/-- Two words agree, repeated over their lengths, if and only if they commute. -/
theorem cyclic_agree_iff (d : α) (hv : v ≠ []) (hw : w ≠ []) :
    (∀ i < v.length + w.length, cyclic d v i = cyclic d w i) ↔ v ++ w = w ++ v := by
  constructor
  · intro h
    have hlen : (v ++ w).length = (w ++ v).length := by
      rw [List.length_append, List.length_append, Nat.add_comm]
    refine List.ext_getElem hlen fun i hi hi' => ?_
    rw [← List.getD_eq_getElem _ d hi, ← List.getD_eq_getElem _ d hi']
    rw [List.length_append] at hi hi'
    rw [getD_of_agree d h hi, h i hi]
    exact (getD_of_agree d (fun j hj => (h j (by omega)).symm) hi').symm
  · intro h i hi
    rw [← getD_of_commute d hv h hi, h]
    exact getD_of_commute d hw h.symm (by omega)

end Cyclic
