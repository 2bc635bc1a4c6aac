import Mathlib.Data.Rat.Cast.Defs
import Mathlib.Algebra.Order.Field.Rat
import Tsunami.Lib.Numerals

/-!
# Formatted input

`sscanf` with the conversions `%d` and `%g`, with or without a width, and
ordinary characters between them. A text matches a format if every conversion
succeeds and nothing of the text is left.

Floating-point numbers are kept as they are written; infinities, NaN and the
hexadecimal notation are not read.
-/

namespace Scanf

open Bytes

def isSpace (b : UInt8) : Bool := b = 32 ∨ (9 ≤ b ∧ b ≤ 13)

inductive Directive
  | int (width : Option Nat)
  | float (width : Option Nat)
  | char (b : UInt8)
  deriving DecidableEq, Repr

inductive Value
  | int (n : Int)
  | float (q : ℚ)
  deriving DecidableEq, Repr

def within : Option Nat → List UInt8 → List UInt8
  | some width, s => s.take width
  | none, s => s

def sign : List UInt8 → Bool × List UInt8
  | 45 :: s => (true, s)
  | 43 :: s => (false, s)
  | s => (false, s)

/-- The number as a `long`, and of that the lower half. -/
def toInt (n : Int) : Int := (max (-2 ^ 63) (min n (2 ^ 63 - 1))).bmod (2 ^ 32)

/-- `%d`: the number, and what is behind it. -/
def scanInt (width : Option Nat) (s : List UInt8) : Option (Int × List UInt8) :=
  let s := s.dropWhile isSpace
  let item := within width s
  let (negative, digits) := sign item
  let row := digits.takeWhile isDigit
  if row = [] then none
  else
    let n : Int := ofDecimal digits
    some (toInt (if negative then -n else n), s.drop (item.length - digits.length + row.length))

def fraction : List UInt8 → List UInt8 × List UInt8
  | 46 :: s => (s.takeWhile isDigit, s.dropWhile isDigit)
  | s => ([], s)

def exponent : List UInt8 → Option (Int × List UInt8)
  | [] => some (0, [])
  | b :: s =>
    if b = 101 ∨ b = 69 then
      let (negative, digits) := sign s
      let n : Int := ofDecimal digits
      if digits.takeWhile isDigit = [] then none
      else some (if negative then -n else n, digits.dropWhile isDigit)
    else some (0, b :: s)

/-- `%g`, of which `%f` is another name. -/
def scanFloat (width : Option Nat) (s : List UInt8) : Option (ℚ × List UInt8) :=
  let s := s.dropWhile isSpace
  let item := within width s
  let (negative, body) := sign item
  let whole := body.takeWhile isDigit
  let (decimals, rest) := fraction (body.dropWhile isDigit)
  if whole = [] ∧ decimals = [] then none
  else (exponent rest).map fun (e, rest) =>
    let q : ℚ := ofDecimal (whole ++ decimals) / 10 ^ decimals.length * 10 ^ e
    (if negative then -q else q, s.drop (item.length - rest.length))

def sscanf : List Directive → List UInt8 → Option (List Value)
  | [], s => if s = [] then some [] else none
  | .int width :: format, s =>
    (scanInt width s).bind fun (n, s) => (sscanf format s).map (.int n :: ·)
  | .float width :: format, s =>
    (scanFloat width s).bind fun (q, s) => (sscanf format s).map (.float q :: ·)
  | .char _ :: _, [] => none
  | .char b :: format, a :: s => if a = b then sscanf format s else none

-- ---------------------------------------------------------------------------
-- Rows of digits
-- ---------------------------------------------------------------------------

/-- The row ends with the width, or where the digits do. -/
def Ends (width : Option Nat) (row rest : List UInt8) : Prop :=
  width = some row.length ∨
    (∀ w ∈ width, row.length ≤ w) ∧ ∀ b ∈ rest.head?, isDigit b = false

theorem not_isSpace_digit (hd : isDigit d = true) : isSpace d = false := by
  simp only [isDigit, decide_eq_true_eq] at hd
  simp only [isSpace, decide_eq_false_iff_not, not_or, not_and]
  refine ⟨?_, fun _ h => ?_⟩
  · rintro rfl
    exact absurd hd.1 (by decide)
  · exact absurd (UInt8.le_trans hd.1 h) (by decide)

theorem sign_digit (hd : isDigit d = true) (s : List UInt8) : sign (d :: s) = (false, d :: s) := by
  unfold sign
  split
  · rename_i h
    rw [(List.cons.inj h).1] at hd
    cases hd
  · rename_i h
    rw [(List.cons.inj h).1] at hd
    cases hd
  · rfl

theorem within_row (hends : Ends width row rest) :
    ∃ back, within width (row ++ rest) = row ++ back ∧ ∀ b ∈ back.head?, isDigit b = false := by
  rcases hends with rfl | ⟨hwidth, hrest⟩
  · exact ⟨[], by rw [within, List.take_left, List.append_nil], by simp⟩
  · cases width with
    | none => exact ⟨rest, rfl, hrest⟩
    | some w =>
      refine ⟨rest.take (w - row.length), ?_, fun b hb => hrest b ?_⟩
      · rw [within, List.take_append, List.take_of_length_le (hwidth w rfl)]
      · cases rest with
        | nil => simp at hb
        | cons a rest =>
          cases hleft : w - row.length with
          | zero => simp [hleft] at hb
          | succ n => simpa [hleft] using hb

theorem dropWhile_row (h : Numeral row n) (rest : List UInt8) :
    (row ++ rest).dropWhile isSpace = row ++ rest := by
  obtain ⟨d, ds, rfl, hd⟩ := h.cons
  rw [List.cons_append, List.dropWhile_cons_of_neg]
  rw [not_isSpace_digit hd]
  exact Bool.false_ne_true

theorem sign_row (h : Numeral row n) (back : List UInt8) :
    sign (row ++ back) = (false, row ++ back) := by
  obtain ⟨d, ds, rfl, hd⟩ := h.cons
  exact sign_digit hd _

theorem scanInt_row (h : Numeral row n) (hends : Ends width row rest) :
    scanInt width (row ++ rest) = some (toInt n, rest) := by
  obtain ⟨back, hwithin, hback⟩ := within_row hends
  rw [scanInt, dropWhile_row h]
  simp only [hwithin, sign_row h, h.takeWhile back hback, h.ofDecimal_append back hback,
    if_neg h.ne_nil, Nat.sub_self, Nat.zero_add, List.drop_left, Bool.false_eq_true, if_false]

theorem sscanf_row (h : Numeral row n) (hends : Ends width row rest) (format : List Directive) :
    sscanf (.int width :: format) (row ++ rest) =
      (sscanf format rest).map (.int (toInt n) :: ·) := by
  rw [sscanf, scanInt_row h hends, Option.bind_some]

theorem toInt_of_lt {n : Nat} (h : n < 2 ^ 31) : toInt n = n := by
  have hlarge : (2 : Int) ^ 63 = 9223372036854775808 := rfl
  rw [toInt, min_eq_left (by omega), max_eq_right (by omega)]
  exact Int.bmod_eq_of_le (by omega) (by omega)

theorem exists_ends (h : Numeral row n) (hwidth : width ≠ some 0)
    (hrest : ∀ b ∈ rest.head?, isDigit b = false) :
    ∃ front back m, row = front ++ back ∧ Numeral front m ∧ Ends width front (back ++ rest) := by
  by_cases hfits : ∀ w ∈ width, row.length ≤ w
  · exact ⟨row, [], n, (List.append_nil row).symm, h, .inr ⟨hfits, hrest⟩⟩
  · push Not at hfits
    obtain ⟨w, hw, hlt⟩ := hfits
    have hpos : w ≠ 0 := by
      rintro rfl
      exact hwidth hw
    have hne : row.take w ≠ [] := by
      intro hnil
      rcases List.take_eq_nil_iff.mp hnil with hzero | hnil
      · exact hpos hzero
      · exact h.ne_nil hnil
    refine ⟨row.take w, row.drop w, _, (List.take_append_drop w row).symm,
      ⟨hne, fun b hb => h.all b (List.mem_of_mem_take hb), rfl⟩, .inl ?_⟩
    rw [hw, List.length_take, Nat.min_eq_left (Nat.le_of_lt hlt)]

theorem sscanf_field (r : Row) (hsmall : r.value < 2 ^ 31)
    (hwidth : ∀ w ∈ width, r.digits.length ≤ w) (hb : isDigit b = false)
    (format : List Directive) (rest : List UInt8) :
    sscanf (.int width :: .char b :: format) (r.digits ++ b :: rest) =
      (sscanf format rest).map (.int r.value :: ·) := by
  have hends : Ends width r.digits (b :: rest) := by
    refine .inr ⟨hwidth, ?_⟩
    intro a ha
    rwa [← Option.some.inj ha]
  rw [sscanf_row r.numeral hends, toInt_of_lt hsmall, sscanf, if_pos rfl]

theorem sscanf_filled (r : Row) (hsmall : r.value < 2 ^ 31) (hwidth : r.digits.length = w)
    (format : List Directive) (rest : List UInt8) :
    sscanf (.int (some w) :: format) (r.digits ++ rest) =
      (sscanf format rest).map (.int r.value :: ·) := by
  rw [sscanf_row r.numeral (.inl (hwidth ▸ rfl)), toInt_of_lt hsmall]

-- ---------------------------------------------------------------------------
-- Texts that do not match
-- ---------------------------------------------------------------------------

theorem sscanf_char_ne (hne : b ∉ s.head?) (format : List Directive) :
    sscanf (.char b :: format) s = none := by
  cases s with
  | nil => rfl
  | cons a s =>
    rw [sscanf, if_neg]
    rintro rfl
    exact hne rfl

theorem sscanf_int_char_ne (h : Numeral row n) (hwidth : width ≠ some 0)
    (hrest : ∀ b ∈ rest.head?, isDigit b = false) (hdigit : isDigit b = false)
    (hne : b ∉ rest.head?) (format : List Directive) :
    sscanf (.int width :: .char b :: format) (row ++ rest) = none := by
  obtain ⟨front, back, m, rfl, hfront, hends⟩ := exists_ends h hwidth hrest
  rw [List.append_assoc, sscanf_row hfront hends, sscanf_char_ne, Option.map_none]
  cases back with
  | nil => exact hne
  | cons d back =>
    intro hd
    have hall := h.all d (List.mem_append_right front List.mem_cons_self)
    rw [Option.some.inj hd, hdigit] at hall
    cases hall

theorem sscanf_field_none (r : Row) (hwidth : width ≠ some 0) (hb : isDigit b = false)
    {format : List Directive} (hrest : sscanf format rest = none) :
    sscanf (.int width :: .char b :: format) (r.digits ++ b :: rest) = none := by
  have hhead : ∀ a ∈ (b :: rest).head?, isDigit a = false := by
    intro a ha
    rwa [← Option.some.inj ha]
  obtain ⟨front, back, m, hrow, hfront, hends⟩ := exists_ends r.numeral hwidth hhead
  rw [hrow, List.append_assoc, sscanf_row hfront hends]
  cases back with
  | nil => rw [List.nil_append, sscanf, if_pos rfl, hrest, Option.map_none]
  | cons d back =>
    have hd := r.all d (hrow ▸ List.mem_append_right front List.mem_cons_self)
    rw [List.cons_append, sscanf_char_ne, Option.map_none]
    intro heq
    rw [Option.some.inj heq, hb] at hd
    cases hd

/-- Neither a number nor anything that may stand before one begins with `c`. -/
def Stops (c : UInt8) : Prop :=
  isDigit c = false ∧ isSpace c = false ∧ c ≠ 43 ∧ c ≠ 45

instance (c : UInt8) : Decidable (Stops c) := inferInstanceAs (Decidable (_ ∧ _))

theorem scanInt_stops (hc : Stops c) (width : Option Nat) (rest : List UInt8) :
    scanInt width (c :: rest) = none := by
  obtain ⟨hdigit, hspace, hplus, hminus⟩ := hc
  have hsign : ∀ s : List UInt8, sign (c :: s) = (false, c :: s) := by
    intro s
    unfold sign
    split
    · rename_i h
      exact absurd (List.cons.inj h).1 hminus
    · rename_i h
      exact absurd (List.cons.inj h).1 hplus
    · rfl
  have hskip : (c :: rest).dropWhile isSpace = c :: rest :=
    List.dropWhile_cons_of_neg (by rw [hspace]; exact Bool.false_ne_true)
  rw [scanInt, hskip]
  cases width with
  | none => simp [within, hsign, hdigit]
  | some w =>
    cases w with
    | zero => simp [within, sign]
    | succ w => simp [within, hsign, hdigit]

theorem sscanf_stops (hc : Stops c) (width : Option Nat) (format : List Directive)
    (rest : List UInt8) : sscanf (.int width :: format) (c :: rest) = none := by
  rw [sscanf, scanInt_stops hc, Option.bind_none]

def Directive.bounded : Directive → Bool
  | .int (some (_ + 1)) => true
  | _ => false

theorem Directive.int_of_bounded (h : bounded d = true) :
    ∃ width, width ≠ some 0 ∧ d = .int width := by
  cases d with
  | float | char => cases h
  | int width =>
    cases width with
    | none => cases h
    | some w =>
      cases w with
      | zero => cases h
      | succ w => exact ⟨_, by simp, rfl⟩

theorem sscanf_ints_stops (hc : Stops c) (rest : List UInt8) {format : List Directive}
    (hformat : ∀ d ∈ format, d.bounded = true) (hrow : ∀ b ∈ row, isDigit b) :
    sscanf format (row ++ c :: rest) = none := by
  induction format generalizing row with
  | nil =>
    rw [sscanf, if_neg]
    simp
  | cons d format ih =>
    rw [List.forall_mem_cons] at hformat
    obtain ⟨hd, hformat⟩ := hformat
    obtain ⟨width, hwidth, rfl⟩ := Directive.int_of_bounded hd
    by_cases hnil : row = []
    · rw [hnil]
      exact sscanf_stops hc width format rest
    · have hhead : ∀ b ∈ (c :: rest).head?, isDigit b = false := by
        intro b hb
        rw [← Option.some.inj hb]
        exact hc.1
      obtain ⟨front, back, m, rfl, hfront, hends⟩ := exists_ends ⟨hnil, hrow, rfl⟩ hwidth hhead
      have hback := ih hformat fun b hb => hrow b (List.mem_append_right front hb)
      rw [List.append_assoc, sscanf_row hfront hends, hback, Option.map_none]

-- ---------------------------------------------------------------------------
-- Numbers with decimals
-- ---------------------------------------------------------------------------

theorem scanFloat_row (h : Numeral row n)
    (hends : width = some row.length ∨ rest = [] ∧ ∀ w ∈ width, row.length ≤ w) :
    scanFloat width (row ++ rest) = some ((n : ℚ), rest) := by
  have hwithin : within width (row ++ rest) = row := by
    rcases hends with rfl | ⟨rfl, hwidth⟩
    · exact List.take_left
    · cases width with
      | none => exact List.append_nil row
      | some w => rw [List.append_nil]; exact List.take_of_length_le (hwidth w rfl)
  have hsign := sign_row h []
  have htake := h.takeWhile [] (by simp)
  have hdrop : row.dropWhile isDigit = [] := List.dropWhile_eq_nil_iff.mpr h.all
  rw [List.append_nil] at hsign htake
  rw [scanFloat, dropWhile_row h]
  simp only [hwithin, hsign, htake, hdrop, fraction, exponent, h.ne_nil, false_and, if_false,
    Option.map_some, List.append_nil, h.value, List.length_nil, pow_zero, div_one, zpow_zero,
    mul_one, Nat.sub_zero, List.drop_left, Bool.false_eq_true]

theorem scanFloat_decimals (h : Numeral row n) (hdecimals : ∀ b ∈ decimals, isDigit b) :
    scanFloat none (row ++ 46 :: decimals) =
      some ((ofDecimal (row ++ decimals) : ℚ) / 10 ^ decimals.length, []) := by
  have hhead : ∀ b ∈ (46 :: decimals).head?, isDigit b = false := by
    intro b hb
    rw [← Option.some.inj hb]
    rfl
  have hdrop : (row ++ 46 :: decimals).dropWhile isDigit = 46 :: decimals := by
    rw [List.dropWhile_append_of_pos h.all]
    rfl
  have htake : decimals.takeWhile isDigit = decimals := List.takeWhile_eq_self_iff.mpr hdecimals
  have hend : decimals.dropWhile isDigit = [] := List.dropWhile_eq_nil_iff.mpr hdecimals
  rw [scanFloat, dropWhile_row h]
  simp only [within, sign_row h, h.takeWhile _ hhead, hdrop, fraction, htake, hend, exponent,
    h.ne_nil, false_and, if_false, Option.map_some, zpow_zero, mul_one, List.length_nil,
    Nat.sub_zero, List.drop_length, Bool.false_eq_true]

end Scanf
