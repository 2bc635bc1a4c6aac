import Mathlib.Algebra.Order.Floor.Defs
import Mathlib.Data.Rat.Floor
import Mathlib.Tactic.FieldSimp
import Mathlib.Tactic.Linarith
import Mathlib.Tactic.NormNum
import Mathlib.Tactic.Ring
import Tsunami.Client.Protocol

/-!
# Back-pressure of the disk

How full the ring is goes into the error rate that `ttp_update_stats` reports,
as a quotient of two integers: nothing is left of it until the ring is full.
-/

namespace Tsunami.Client

variable {param : Parameter} {x : Transfer} {c c₁ c₂ : Nat}

/-- The filtered error rate with `c` slots of the ring in use for data. -/
def smoothed (param : Parameter) (x : Transfer) (c : Nat) : ℚ :=
  (sendErrorRate param c .ok x).xfer.stats.errorRate

def Sent.values (s : Sent) : List Nat :=
  s.records.map fun r => (Retransmission.decode r.encode).errorRate

/-- The whole part of the rate can be converted to 32 bits and back. -/
def Convertible (rate : ℚ) : Prop := 0 ≤ rate ∧ rate < 2 ^ 32

/-- The rate grows in proportion to the slots in use, and so the value grows that
the server receives. -/
structure Grows (param : Parameter) (c₁ c₂ : Nat) (s₁ s₂ : Sent) : Prop where
  smoothed : s₂.xfer.stats.errorRate - s₁.xfer.stats.errorRate =
    (1 - (param.history : ℚ) / 100) * 50000 * (((c₂ : ℚ) - c₁) / maxBlocksQueued)
  reported : Convertible s₁.xfer.stats.errorRate → Convertible s₂.xfer.stats.errorRate →
    ∃ v₁ v₂, s₁.values = [v₁] ∧ s₂.values = [v₂] ∧ v₁ < v₂

def Felt (param : Parameter) (x : Transfer) (c₁ c₂ : Nat) : Prop :=
  ∃ s₁ s₂, ttpUpdateStats param c₁ .ok x = some s₁ ∧ ttpUpdateStats param c₂ .ok x = some s₂ ∧
    Grows param c₁ c₂ s₁ s₂

/-- The division by all blocks asked for or received does not trap. -/
def Counts (x : Transfer) : Prop := u32 (x.stats.totalRetransmits + x.stats.totalBlocks) ≠ 0

instance (x : Transfer) : Decidable (Counts x) := inferInstanceAs (Decidable (_ ≠ _))

theorem felt_iff : Felt param x c₁ c₂ ↔
    Counts x ∧ Grows param c₁ c₂ (sendErrorRate param c₁ .ok x) (sendErrorRate param c₂ .ok x) := by
  simp only [Felt, ttpUpdateStats, Counts]
  split
  · simp [*]
  · simp [*]

theorem smoothed_sub (param : Parameter) (x : Transfer) (c₁ c₂ : Nat) :
    smoothed param x c₂ - smoothed param x c₁ = (1 - (param.history : ℚ) / 100) * 50000 *
      (((c₂ / maxBlocksQueued : Int) : ℚ) - (c₁ / maxBlocksQueued : Int)) := by
  simp only [smoothed, sendErrorRate, WriteResult.flushed, if_true]
  ring

theorem values_eq_floor (h : Convertible (smoothed param x c)) :
    (sendErrorRate param c .ok x).values = [⌊smoothed param x c⌋.toNat] := by
  have hlow : 0 ≤ ⌊smoothed param x c⌋ := Int.floor_nonneg.mpr h.1
  have hhigh : ⌊smoothed param x c⌋ < 2 ^ 32 := Int.floor_lt.mpr (by exact_mod_cast h.2)
  have hfits : ⌊smoothed param x c⌋.toNat < 2 ^ 32 := by omega
  have hty : requestErrorRate < 2 ^ 16 := by decide
  have hrecord : (sendErrorRate param c .ok x).records =
      [⟨requestErrorRate, 0, u32 ⌊smoothed param x c⌋.toNat⟩] := rfl
  rw [Sent.values, hrecord, u32_of_lt hfits, List.map_singleton,
    Retransmission.decode_encode ⟨hty, Nat.two_pow_pos 32, hfits⟩]

theorem one_le_gain (hh : param.history < 100) :
    (1 : ℚ) ≤ (1 - (param.history : ℚ) / 100) * 50000 := by
  have hle : (param.history : ℚ) ≤ 99 := by exact_mod_cast Nat.le_of_lt_succ hh
  linarith

theorem ringfill_full (hle : (c : Int) ≤ maxBlocksQueued) :
    (c / maxBlocksQueued : Int) = if (c : Int) = maxBlocksQueued then 1 else 0 := by
  rw [maxBlocksQueued] at *
  omega

theorem smoothed_sub_of_lt (param : Parameter) (x : Transfer) (hlt : c₁ < c₂)
    (hle : (c₂ : Int) ≤ maxBlocksQueued) :
    smoothed param x c₂ - smoothed param x c₁ = (1 - (param.history : ℚ) / 100) * 50000 *
      ((if (c₂ : Int) = maxBlocksQueued then 1 else 0 : Int) : ℚ) := by
  have hfirst : (c₁ / maxBlocksQueued : Int) = 0 := by
    rw [maxBlocksQueued] at *
    omega
  rw [smoothed_sub, hfirst, ringfill_full hle, Int.cast_zero, sub_zero]

theorem empty_full_of_share (hlt : c₁ < c₂)
    (h : ((if (c₂ : Int) = maxBlocksQueued then 1 else 0 : Int) : ℚ) =
      ((c₂ : ℚ) - c₁) / maxBlocksQueued) :
    c₁ = 0 ∧ (c₂ : Int) = maxBlocksQueued := by
  have hslots : (4096 : ℚ) * ((if (c₂ : Int) = maxBlocksQueued then 1 else 0 : Int) : ℚ) =
      (c₂ : ℚ) - c₁ := by
    rw [h, maxBlocksQueued]
    push_cast
    ring
  have hint : (4096 : Int) * (if (c₂ : Int) = maxBlocksQueued then 1 else 0) = c₂ - c₁ := by
    exact_mod_cast hslots
  rw [maxBlocksQueued] at *
  split at hint <;> omega

theorem share_empty_full (hfull : (c : Int) = maxBlocksQueued) :
    ((c : ℚ) - (0 : Nat)) / maxBlocksQueued = 1 := by
  have hcast : (c : ℚ) = maxBlocksQueued := by exact_mod_cast hfull
  rw [hcast, maxBlocksQueued]
  norm_num

theorem values_lt (hgrow : smoothed param x c₁ + 1 ≤ smoothed param x c₂)
    (h₁ : Convertible (smoothed param x c₁)) (h₂ : Convertible (smoothed param x c₂)) :
    ∃ v₁ v₂, (sendErrorRate param c₁ .ok x).values = [v₁] ∧
      (sendErrorRate param c₂ .ok x).values = [v₂] ∧ v₁ < v₂ := by
  refine ⟨_, _, values_eq_floor h₁, values_eq_floor h₂, ?_⟩
  have hstep : ⌊smoothed param x c₁⌋ + 1 ≤ ⌊smoothed param x c₂⌋ := by
    rw [← Int.floor_add_one]
    exact Int.floor_le_floor hgrow
  have hlow : 0 ≤ ⌊smoothed param x c₁⌋ := Int.floor_nonneg.mpr h₁.1
  omega

theorem grows_iff (hh : param.history < 100) (hlt : c₁ < c₂) (hle : (c₂ : Int) ≤ maxBlocksQueued) :
    Grows param c₁ c₂ (sendErrorRate param c₁ .ok x) (sendErrorRate param c₂ .ok x) ↔
      c₁ = 0 ∧ (c₂ : Int) = maxBlocksQueued := by
  have hgain := one_le_gain hh
  have hdiff := smoothed_sub_of_lt param x hlt hle
  constructor
  · intro h
    have hne : (1 - (param.history : ℚ) / 100) * 50000 ≠ 0 := by linarith
    exact empty_full_of_share hlt (mul_left_cancel₀ hne (hdiff.symm.trans h.smoothed))
  · rintro ⟨rfl, hfull⟩
    rw [if_pos hfull, Int.cast_one, mul_one] at hdiff
    have hshare : smoothed param x c₂ - smoothed param x 0 =
        (1 - (param.history : ℚ) / 100) * 50000 * (((c₂ : ℚ) - (0 : Nat)) / maxBlocksQueued) := by
      rw [hdiff, share_empty_full hfull, mul_one]
    exact ⟨hshare, fun h₁ h₂ => values_lt (by linarith) h₁ h₂⟩

/-- The report feels the difference between two fills of the ring only if one is
empty and the other full, and no report is made where the division traps. -/
theorem back_pressure_felt_iff (hh : param.history < 100) (hlt : c₁ < c₂)
    (hle : (c₂ : Int) ≤ maxBlocksQueued) :
    Felt param x c₁ c₂ ↔ Counts x ∧ c₁ = 0 ∧ (c₂ : Int) = maxBlocksQueued := by
  rw [felt_iff, grows_iff hh hlt hle]

def quarterHistory : Parameter := ⟨1024, 650000000, 25, true, 0⟩

/-- The first interval of a transfer ends with its 50th datagram. -/
def fiftyCame : Transfer :=
  let x := Transfer.create quarterHistory 102400 100
  { x with stats := { x.stats with totalBlocks := 50 } }

theorem back_pressure_felt_iff_empty_full : Felt quarterHistory fiftyCame 0 4096 :=
  (back_pressure_felt_iff (by decide) (by decide) (by decide)).mpr (by decide)

/-- With all slots but one in use the rate is still that of an empty ring. -/
theorem back_pressure_unfelt :
    ¬Felt quarterHistory fiftyCame 0 4095 ∧
    (ttpUpdateStats quarterHistory 4095 .ok fiftyCame).map Sent.values = some [0] := by
  have hrate : smoothed quarterHistory fiftyCame 4095 = 0 := by decide +kernel
  have hempty : smoothed quarterHistory fiftyCame 0 = 0 := by decide +kernel
  refine ⟨fun h => ?_, by decide +kernel⟩
  have hgrow : smoothed quarterHistory fiftyCame 4095 - smoothed quarterHistory fiftyCame 0 = _ :=
    (felt_iff.mp h).2.smoothed
  rw [hrate, hempty, maxBlocksQueued] at hgrow
  norm_num [quarterHistory] at hgrow

end Tsunami.Client
