import Tsunami.Common

/-!
# The blocks of a file

How `ttp_open_transfer` of the server cuts a file into numbered blocks, and
what it means that a datagram carries one of them.
-/

namespace Tsunami

open Bytes

-- ---------------------------------------------------------------------------
-- Dividing and multiplying again
-- ---------------------------------------------------------------------------

def wholeCount (fileSize blockSize : Nat) : Nat :=
  fileSize / blockSize + (if fileSize % blockSize = 0 then 0 else 1)

def lastSize (fileSize blockSize : Nat) : Nat :=
  if fileSize % blockSize = 0 then blockSize else fileSize % blockSize

theorem lastSize_pos (fileSize : Nat) (hb : 1 ≤ blockSize) : 0 < lastSize fileSize blockSize := by
  rw [lastSize]
  split
  · exact hb
  · exact Nat.pos_of_ne_zero ‹_›

theorem lastSize_le (fileSize : Nat) (hb : 1 ≤ blockSize) :
    lastSize fileSize blockSize ≤ blockSize := by
  rw [lastSize]
  split
  · exact Nat.le_refl _
  · exact Nat.le_of_lt (Nat.mod_lt _ hb)

theorem wholeCount_spec (hb : 1 ≤ blockSize) (hf : 0 < fileSize) :
    1 ≤ wholeCount fileSize blockSize ∧
      blockSize * (wholeCount fileSize blockSize - 1) + lastSize fileSize blockSize = fileSize := by
  have hdiv := Nat.div_add_mod fileSize blockSize
  rw [wholeCount, lastSize]
  split
  · rename_i hmod
    have hpos : 1 ≤ fileSize / blockSize :=
      Nat.div_pos (Nat.le_of_dvd hf (Nat.dvd_of_mod_eq_zero hmod)) hb
    rw [hmod, Nat.add_zero] at hdiv
    rw [Nat.add_zero, Nat.mul_sub_one, Nat.sub_add_cancel (Nat.le_mul_of_pos_right _ hpos)]
    exact ⟨hpos, hdiv⟩
  · exact ⟨Nat.succ_pos _, hdiv⟩

-- ---------------------------------------------------------------------------
-- A file in blocks
-- ---------------------------------------------------------------------------

/-- A file to be sent, and the size of a block. The number of blocks is sent
as a `u_int32_t`. -/
structure Layout where
  file : List UInt8
  blockSize : Nat
  nonempty : file ≠ []
  pos : 1 ≤ blockSize
  le : blockSize ≤ maxBlockSize
  fits : file.length / blockSize + (if file.length % blockSize = 0 then 0 else 1) < 2 ^ 32

namespace Layout

variable (l : Layout)

def blockCount : Nat :=
  l.file.length / l.blockSize + (if l.file.length % l.blockSize = 0 then 0 else 1)

def offset (b : Nat) : Nat := l.blockSize * (b - 1)

def block (b : Nat) : List UInt8 := (l.file.drop (l.offset b)).take l.blockSize

@[simp] theorem length_block (b : Nat) :
    (l.block b).length = min l.blockSize (l.file.length - l.offset b) := by
  simp [block]

variable {l} {b i : Nat}

theorem file_pos : 0 < l.file.length := List.length_pos_iff.mpr l.nonempty

theorem blockCount_pos : 1 ≤ l.blockCount := (wholeCount_spec l.pos file_pos).1

theorem offset_add_last :
    l.offset l.blockCount + lastSize l.file.length l.blockSize = l.file.length :=
  (wholeCount_spec l.pos file_pos).2

theorem length_le_blocks : l.file.length ≤ l.blockSize * l.blockCount := by
  calc l.file.length ≤ l.offset l.blockCount + l.blockSize :=
        offset_add_last.symm.trans_le (Nat.add_le_add_left (lastSize_le _ l.pos) _)
    _ = l.blockSize * l.blockCount := by
        rw [offset, Nat.mul_sub_one, Nat.sub_add_cancel (Nat.le_mul_of_pos_right _ blockCount_pos)]

theorem offset_last_lt : l.offset l.blockCount < l.file.length :=
  Nat.lt_of_lt_of_eq (Nat.lt_add_of_pos_right (lastSize_pos _ l.pos)) offset_add_last

theorem offset_lt (hb : b ≤ l.blockCount) : l.offset b < l.file.length := by
  calc l.offset b ≤ l.offset l.blockCount := Nat.mul_le_mul_left _ (Nat.sub_le_sub_right hb 1)
    _ < l.file.length := offset_last_lt

theorem offset_succ (h₁ : 1 ≤ b) : l.offset (b + 1) = l.offset b + l.blockSize := by
  obtain ⟨c, rfl⟩ : ∃ c, b = c + 1 := ⟨b - 1, by omega⟩
  simp [offset, Nat.mul_add]

theorem length_block_of_lt (h₁ : 1 ≤ b) (hb : b < l.blockCount) :
    (l.block b).length = l.blockSize := by
  have hle := Nat.le_of_lt (l.offset_lt hb)
  rw [offset_succ h₁] at hle
  rw [length_block]
  omega

theorem length_block_last : (l.block l.blockCount).length = lastSize l.file.length l.blockSize := by
  rw [length_block, ← offset_add_last, Nat.add_sub_cancel_left, offset_add_last]
  exact Nat.min_eq_right (lastSize_le _ l.pos)

theorem exists_block (hi : i < l.file.length) :
    ∃ b, 1 ≤ b ∧ b ≤ l.blockCount ∧ l.offset b ≤ i ∧ i < l.offset b + l.blockSize := by
  have hdiv := Nat.div_add_mod i l.blockSize
  have hmod := Nat.mod_lt i l.pos
  refine ⟨i / l.blockSize + 1, Nat.succ_pos _, ?_, ?_, ?_⟩
  · have hall := length_le_blocks (l := l)
    exact Nat.div_lt_of_lt_mul (by omega)
  · simp only [offset, Nat.add_sub_cancel]
    omega
  · simp only [offset, Nat.add_sub_cancel]
    omega

end Layout

/-- A datagram with a block of the file in it. What follows a short last block
is not looked at. -/
structure Carries (l : Layout) (d : List UInt8) : Prop where
  length : d.length = 6 + l.blockSize
  pos : 1 ≤ blockNumber d
  le : blockNumber d ≤ l.blockCount
  data : l.block (blockNumber d) <+: d.drop 6

end Tsunami
