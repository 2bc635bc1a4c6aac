import Mathlib.Data.List.Basic

/-!
# Texts taken in blocks

A state that takes in a text block by block, and what is left of the text
behind its last whole block. A text may come in pieces: what a machine has to
keep between two of them is the state and the rest.
-/

namespace Absorption

variable {σ : Type u} {α : Type v} (f : σ → List α → σ) (n : Nat)

def absorb (s : σ) (text : List α) : σ :=
  (List.range (text.length / n)).foldl (fun s i => f s ((text.drop (n * i)).take n)) s

def rest (text : List α) : List α := text.drop (n * (text.length / n))

variable {f n} {s : σ} {text more block : List α}

theorem length_rest (n : Nat) (text : List α) : (rest n text).length = text.length % n := by
  have hdiv := Nat.div_add_mod text.length n
  rw [rest, List.length_drop]
  omega

theorem absorb_of_lt (h : text.length < n) : absorb f n s text = s := by
  rw [absorb, Nat.div_eq_of_lt h]
  rfl

theorem rest_of_lt (h : text.length < n) : rest n text = text := by
  rw [rest, Nat.div_eq_of_lt h]
  rfl

section
variable (hn : 0 < n) (hb : block.length = n)
include hn hb

theorem blocks_succ (more : List α) :
    (block ++ more).length / n = more.length / n + 1 := by
  rw [List.length_append, hb, Nat.add_comm, Nat.add_div_right _ hn]

theorem absorb_block (f : σ → List α → σ) (s : σ) (more : List α) :
    absorb f n s (block ++ more) = absorb f n (f s block) more := by
  have hfirst : ((block ++ more).drop (n * 0)).take n = block := by
    rw [Nat.mul_zero, List.drop_zero, List.take_left' hb]
  have hlater : ∀ i, (block ++ more).drop (n * (i + 1)) = more.drop (n * i) := by
    intro i
    rw [Nat.mul_succ, Nat.add_comm, ← List.drop_drop, List.drop_left' hb]
  rw [absorb, blocks_succ hn hb, List.range_succ_eq_map, List.foldl_cons, List.foldl_map, hfirst]
  simp only [Nat.succ_eq_add_one, hlater]
  rfl

theorem rest_block (more : List α) : rest n (block ++ more) = rest n more := by
  rw [rest, blocks_succ hn hb, Nat.mul_succ, Nat.add_comm, ← List.drop_drop, List.drop_left' hb]
  rfl

end

/-- What the state has taken in and the rest stand for the text: what follows it
goes on behind the rest. -/
theorem absorb_append (hn : 0 < n) (f : σ → List α → σ) (s : σ) (text more : List α) :
    absorb f n s (text ++ more) = absorb f n (absorb f n s text) (rest n text ++ more) ∧
      rest n (text ++ more) = rest n (rest n text ++ more) := by
  induction hm : text.length / n generalizing s text with
  | zero =>
    have hlt : text.length < n := (Nat.div_eq_zero_iff_lt hn).mp hm
    rw [absorb_of_lt hlt, rest_of_lt hlt]
    exact ⟨rfl, rfl⟩
  | succ m ih =>
    have hle : n ≤ text.length := by
      by_contra hlt
      rw [Nat.div_eq_of_lt (Nat.not_le.mp hlt)] at hm
      cases hm
    have hb : (text.take n).length = n := List.length_take_of_le hle
    rw [← List.take_append_drop n text, List.append_assoc, absorb_block hn hb, rest_block hn hb,
      absorb_block hn hb, rest_block hn hb]
    have hrest : (text.drop n).length / n = m := by
      rw [Nat.div_eq_sub_div hn hle, Nat.add_right_cancel_iff] at hm
      rw [List.length_drop, hm]
    exact ih (f s (text.take n)) (text.drop n) hrest

theorem rest_eq_nil (h : text.length % n = 0) : rest n text = [] :=
  List.length_eq_zero_iff.mp ((length_rest n text).trans h)

end Absorption
