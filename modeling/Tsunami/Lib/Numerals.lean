import Mathlib.Data.List.TakeWhile
import Tsunami.Lib.Bytes

/-!
# Texts that are numbers

A non-empty row of decimal digits, and what is read from a text that begins with
one.
-/

namespace Bytes

/-- The text is `n` in decimal, and nothing else; zeros may be in front. -/
structure Numeral (text : List UInt8) (n : Nat) : Prop where
  ne_nil : text ≠ []
  all : ∀ b ∈ text, isDigit b
  value : ofDecimal text = n

theorem Numeral.cons (h : Numeral text n) : ∃ d ds, text = d :: ds ∧ isDigit d := by
  cases text with
  | nil => exact absurd rfl h.ne_nil
  | cons d ds => exact ⟨d, ds, rfl, h.all d List.mem_cons_self⟩

theorem Numeral.takeWhile (h : Numeral text n) (rest : List UInt8)
    (hrest : ∀ b ∈ rest.head?, isDigit b = false) :
    (text ++ rest).takeWhile isDigit = text := by
  rw [List.takeWhile_append_of_pos h.all]
  cases rest with
  | nil => simp
  | cons b rest => simp [hrest b rfl]

theorem Numeral.ofDecimal_append (h : Numeral text n) (rest : List UInt8)
    (hrest : ∀ b ∈ rest.head?, isDigit b = false) : ofDecimal (text ++ rest) = n := by
  have hall : text.takeWhile isDigit = text := List.takeWhile_eq_self_iff.mpr h.all
  rw [← h.value, ofDecimal, ofDecimal, h.takeWhile rest hrest, hall]

structure Row where
  digits : List UInt8
  ne_nil : digits ≠ []
  all : ∀ b ∈ digits, isDigit b

def Row.value (r : Row) : Nat := ofDecimal r.digits

theorem Row.numeral (r : Row) : Numeral r.digits r.value := ⟨r.ne_nil, r.all, rfl⟩

theorem ofDecimal_all {ds : List UInt8} (hs : ∀ b ∈ ds, isDigit b) :
    ofDecimal ds = ds.foldl (fun acc b => 10 * acc + (b.toNat - 48)) 0 := by
  rw [ofDecimal, List.takeWhile_eq_self_iff.mpr hs]

theorem foldl_digits_lt {ds : List UInt8} (acc : Nat) (hs : ∀ b ∈ ds, isDigit b) :
    ds.foldl (fun acc b => 10 * acc + (b.toNat - 48)) acc < (acc + 1) * 10 ^ ds.length := by
  induction ds generalizing acc with
  | nil => simp
  | cons b bs ih =>
    rw [List.forall_mem_cons] at hs
    have hdigit : b.toNat - 48 < 10 := by
      have hle := hs.1
      simp only [isDigit, decide_eq_true_eq, UInt8.le_iff_toNat_le] at hle
      have h₉ : b.toNat ≤ 57 := hle.2
      omega
    have hstep := ih (10 * acc + (b.toNat - 48)) hs.2
    rw [List.foldl_cons, List.length_cons, Nat.pow_succ]
    refine Nat.lt_of_lt_of_le hstep ?_
    rw [Nat.mul_comm (10 ^ bs.length) 10, ← Nat.mul_assoc]
    exact Nat.mul_le_mul_right _ (by omega)

theorem Row.value_lt (r : Row) : r.value < 10 ^ r.digits.length := by
  have hbound := foldl_digits_lt 0 r.all
  rwa [Nat.zero_add, Nat.one_mul, ← ofDecimal_all r.all] at hbound

theorem Row.ofDecimal_append_lt (r : Row) {ds : List UInt8} (hs : ∀ b ∈ ds, isDigit b) :
    ofDecimal (r.digits ++ ds) < (r.value + 1) * 10 ^ ds.length := by
  have hall : ∀ b ∈ r.digits ++ ds, isDigit b := List.forall_mem_append.mpr ⟨r.all, hs⟩
  have hbound := foldl_digits_lt r.value hs
  rwa [ofDecimal_all hall, List.foldl_append, ← ofDecimal_all r.all]

theorem numeral_decimal (n : Nat) : Numeral (decimal n) n := by
  have hvalue : ofDecimal (decimal n ++ []) = n := ofDecimal_decimal n (by simp)
  rw [List.append_nil] at hvalue
  exact ⟨decimal_ne_nil n, fun _ hb => isDigit_of_mem_decimal hb, hvalue⟩

end Bytes
