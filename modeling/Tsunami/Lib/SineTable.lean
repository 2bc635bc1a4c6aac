import Mathlib.Analysis.Complex.Trigonometric
import Mathlib.Data.Rat.Cast.Order

/-!
# Digits of sines

The sines of the first whole numbers to many digits: the series for the angle 1,
and integers that turn by this angle, with a bound for what rounding loses. The
constants of MD5 are the whole parts of `2 ^ 32` times such sines.
-/

namespace SineTable

open Finset

-- ---------------------------------------------------------------------------
-- The angle 1
-- ---------------------------------------------------------------------------

def cosTaylor (n : Nat) : ℚ := ∑ k ∈ range n, (-1) ^ k / ((2 * k).factorial : ℚ)

def sinTaylor (n : Nat) : ℚ := ∑ k ∈ range n, (-1) ^ k / ((2 * k + 1).factorial : ℚ)

theorem sum_exp_I (n : Nat) : ∑ m ∈ range (2 * n), Complex.I ^ m / (m.factorial : ℂ) =
    (cosTaylor n : ℂ) + (sinTaylor n : ℂ) * Complex.I := by
  induction n with
  | zero => simp [cosTaylor, sinTaylor]
  | succ n ih =>
    have heven : Complex.I ^ (2 * n) = (-1) ^ n := by rw [pow_mul, Complex.I_sq]
    have hodd : Complex.I ^ (2 * n + 1) = (-1) ^ n * Complex.I := by rw [pow_succ, heven]
    rw [Nat.mul_succ, sum_range_succ, sum_range_succ, ih, heven, hodd, cosTaylor, cosTaylor,
      sinTaylor, sinTaylor, sum_range_succ, sum_range_succ]
    push_cast
    ring

def remainder (n : Nat) : ℚ := (2 * n + 1) / ((2 * n).factorial * (2 * n))

theorem norm_exp_I_sub_le (hn : 0 < n) :
    ‖Complex.exp Complex.I - ((cosTaylor n : ℂ) + (sinTaylor n : ℂ) * Complex.I)‖ ≤
      (remainder n : ℝ) := by
  have hbound := Complex.exp_bound (x := Complex.I) (by simp) (show 0 < 2 * n by omega)
  rw [sum_exp_I] at hbound
  refine hbound.trans (le_of_eq ?_)
  rw [remainder]
  push_cast
  simp [div_eq_mul_inv]

theorem abs_cos_one_sub_le (hn : 0 < n) : |Real.cos 1 - cosTaylor n| ≤ (remainder n : ℝ) := by
  have hre : Real.cos 1 - cosTaylor n =
      (Complex.exp Complex.I - ((cosTaylor n : ℂ) + (sinTaylor n : ℂ) * Complex.I)).re := by
    simp [Complex.exp_re]
  rw [hre]
  exact (Complex.abs_re_le_norm _).trans (norm_exp_I_sub_le hn)

theorem abs_sin_one_sub_le (hn : 0 < n) : |Real.sin 1 - sinTaylor n| ≤ (remainder n : ℝ) := by
  have him : Real.sin 1 - sinTaylor n =
      (Complex.exp Complex.I - ((cosTaylor n : ℂ) + (sinTaylor n : ℂ) * Complex.I)).im := by
    simp [Complex.exp_im]
  rw [him]
  exact (Complex.abs_im_le_norm _).trans (norm_exp_I_sub_le hn)

def scale : Int := 10 ^ 40

def cosOne : Int := 5403023058681397174009366074429766037323
def sinOne : Int := 8414709848078965066525023216302989996226

theorem near_of_series {x : ℝ} {series rest : ℚ} {whole : Int} (hx : |x - series| ≤ (rest : ℝ))
    (hnear : |(scale : ℚ) * series - whole| + scale * rest ≤ 1) :
    |(scale : ℝ) * x - whole| ≤ 1 := by
  have hpos : (0 : ℝ) < scale := by norm_num [scale]
  have hcast : |(scale : ℝ) * series - whole| + scale * (rest : ℝ) ≤ 1 := by exact_mod_cast hnear
  have hsplit : (scale : ℝ) * x - whole = scale * (x - series) + (scale * series - whole) := by ring
  calc |(scale : ℝ) * x - whole|
      ≤ |scale * (x - series)| + |(scale : ℝ) * series - whole| := by
        rw [hsplit]
        exact abs_add_le _ _
    _ ≤ scale * (rest : ℝ) + |(scale : ℝ) * series - whole| := by
        rw [abs_mul, abs_of_pos hpos]
        gcongr
    _ ≤ 1 := by linarith

theorem cosOne_near : |(scale : ℝ) * Real.cos 1 - cosOne| ≤ 1 :=
  near_of_series (abs_cos_one_sub_le (show 0 < 18 by decide)) (by decide +kernel)

theorem sinOne_near : |(scale : ℝ) * Real.sin 1 - sinOne| ≤ 1 :=
  near_of_series (abs_sin_one_sub_le (show 0 < 18 by decide)) (by decide +kernel)

-- ---------------------------------------------------------------------------
-- Turning by the angle 1
-- ---------------------------------------------------------------------------

def turned : Nat → Int × Int
  | 0 => (scale, 0)
  | n + 1 =>
    let (c, s) := turned n
    ((c * cosOne - s * sinOne) / scale, (s * cosOne + c * sinOne) / scale)

def loss (n : Nat) : Int := 5 * (2 ^ n - 1)

theorem product_near {x y e : ℝ} {a b : Int} (hx : |(scale : ℝ) * x - a| ≤ e)
    (hy : |(scale : ℝ) * y - b| ≤ 1) (hy1 : |y| ≤ 1) (ha : |(a : ℝ)| ≤ 2 * scale) :
    |(scale : ℝ) * (x * y) - a * b / scale| ≤ e + 2 := by
  have hpos : (0 : ℝ) < scale := by norm_num [scale]
  have hsplit : (scale : ℝ) * (x * y) - a * b / scale =
      (scale * x - a) * y + a / scale * (scale * y - b) := by
    field_simp
    ring
  have hfirst : |((scale : ℝ) * x - a) * y| ≤ e := by
    rw [abs_mul]
    calc |(scale : ℝ) * x - a| * |y| ≤ |(scale : ℝ) * x - a| * 1 := by gcongr
      _ ≤ e := by rwa [mul_one]
  have hsecond : |(a : ℝ) / scale * (scale * y - b)| ≤ 2 := by
    have hratio : |(a : ℝ) / scale| ≤ 2 := by
      rw [abs_div, abs_of_pos hpos]
      exact (div_le_iff₀ hpos).mpr ha
    rw [abs_mul]
    calc |(a : ℝ) / scale| * |(scale : ℝ) * y - b| ≤ 2 * 1 := by gcongr
      _ = 2 := by norm_num
  rw [hsplit]
  exact (abs_add_le _ _).trans (add_le_add hfirst hsecond)

theorem quotient_near (a : Int) : |(a : ℝ) / scale - (a / scale : Int)| ≤ 1 := by
  have hpos : (0 : ℝ) < scale := by norm_num [scale]
  have hint : (0 : Int) < scale := by decide
  have hdiv : (scale : ℝ) * (a / scale : Int) + (a % scale : Int) = a := by
    exact_mod_cast Int.mul_ediv_add_emod a scale
  have hlow : (0 : ℝ) ≤ (a % scale : Int) := by exact_mod_cast Int.emod_nonneg a hint.ne'
  have hhigh : ((a % scale : Int) : ℝ) ≤ scale := by
    exact_mod_cast (Int.emod_lt_of_pos a hint).le
  have hsplit : (a : ℝ) / scale - (a / scale : Int) = (a % scale : Int) / scale := by
    rw [← hdiv]
    field_simp
    ring
  rw [hsplit, abs_of_nonneg (div_nonneg hlow hpos.le)]
  exact (div_le_one hpos).mpr hhigh

theorem turn_near {u v w e a b : ℝ} {total : Int} (hu : |u - a / scale| ≤ e + 2)
    (hv : |v - b / scale| ≤ e + 2)
    (hw : w - (total : ℝ) / scale = u - a / scale + (v - b / scale)) :
    |w - (total / scale : Int)| ≤ 2 * e + 5 := by
  have hq := abs_le.mp (quotient_near total)
  obtain ⟨hu, hu'⟩ := abs_le.mp hu
  obtain ⟨hv, hv'⟩ := abs_le.mp hv
  exact abs_le.mpr ⟨by linarith [hq.1], by linarith [hq.2]⟩

theorem loss_succ (n : Nat) : (loss (n + 1) : ℝ) = 2 * loss n + 5 := by
  rw [loss, loss, pow_succ]
  push_cast
  ring

theorem loss_le : ∀ n ≤ 64, loss n ≤ scale := by decide +kernel

theorem abs_le_double {x e : ℝ} {a : Int} (hx : |x| ≤ 1) (ha : |(scale : ℝ) * x - a| ≤ e)
    (he : e ≤ scale) : |(a : ℝ)| ≤ 2 * scale := by
  have hpos : (0 : ℝ) < scale := by norm_num [scale]
  have hbig : |(scale : ℝ) * x| ≤ scale := by
    rw [abs_mul, abs_of_pos hpos]
    exact mul_le_of_le_one_right hpos.le hx
  obtain ⟨hlow, hhigh⟩ := abs_le.mp hbig
  obtain ⟨hlow', hhigh'⟩ := abs_le.mp ha
  exact abs_le.mpr ⟨by linarith, by linarith⟩

theorem turned_near {n : Nat} (hn : n ≤ 64) :
    |(scale : ℝ) * Real.cos n - (turned n).1| ≤ loss n ∧
      |(scale : ℝ) * Real.sin n - (turned n).2| ≤ loss n := by
  induction n with
  | zero => simp [turned, loss]
  | succ n ih =>
    obtain ⟨hcos, hsin⟩ := ih (Nat.le_of_succ_le hn)
    have hloss : (loss n : ℝ) ≤ scale := by exact_mod_cast loss_le n (Nat.le_of_succ_le hn)
    have hc := abs_le_double (Real.abs_cos_le_one n) hcos hloss
    have hs := abs_le_double (Real.abs_sin_le_one n) hsin hloss
    have hcc := product_near hcos cosOne_near (Real.abs_cos_le_one 1) hc
    have hss := product_near hsin sinOne_near (Real.abs_sin_le_one 1) hs
    have hsc := product_near hsin cosOne_near (Real.abs_cos_le_one 1) hs
    have hcs := product_near hcos sinOne_near (Real.abs_sin_le_one 1) hc
    have hss' : |-((scale : ℝ) * (Real.sin n * Real.sin 1)) -
        -((turned n).2 * sinOne : ℝ) / scale| ≤ loss n + 2 := by
      rw [neg_div, ← neg_sub', abs_neg]
      exact hss
    rw [loss_succ, Nat.cast_succ, Real.cos_add, Real.sin_add]
    refine ⟨turn_near hcc hss' ?_, turn_near hsc hcs ?_⟩
    · push_cast
      ring
    · push_cast
      ring

-- ---------------------------------------------------------------------------
-- Whole parts
-- ---------------------------------------------------------------------------

/-- The whole part of `2 ^ 32` times the sine, without its sign. -/
noncomputable def sineWord (n : Nat) : Nat := ⌊4294967296 * |Real.sin n|⌋₊

/-- The digits of a sine decide its whole part. -/
theorem sineWord_eq {n w : Nat} (hn : n ≤ 64)
    (hlow : w * scale ≤ 4294967296 * (|(turned n).2| - loss n))
    (hhigh : 4294967296 * (|(turned n).2| + loss n) < (w + 1) * scale) : sineWord n = w := by
  have hpos : (0 : ℝ) < scale := by norm_num [scale]
  have hnear := (abs_abs_sub_abs_le_abs_sub ((scale : ℝ) * Real.sin n) (turned n).2).trans
    (turned_near hn).2
  rw [abs_mul, abs_of_pos hpos] at hnear
  obtain ⟨hbelow, habove⟩ := abs_le.mp hnear
  have hlow' : (w : ℝ) * scale ≤ 4294967296 * (|((turned n).2 : ℝ)| - loss n) := by
    exact_mod_cast hlow
  have hhigh' : 4294967296 * (|((turned n).2 : ℝ)| + loss n) < ((w : ℝ) + 1) * scale := by
    exact_mod_cast hhigh
  rw [sineWord, Nat.floor_eq_iff (by positivity)]
  constructor
  · refine le_of_mul_le_mul_right ?_ hpos
    linarith
  · refine lt_of_mul_lt_mul_right ?_ hpos.le
    linarith

end SineTable
