import Mathlib.Data.Set.Lattice
import Mathlib.Order.CompletePartialOrder
import Mathlib.Order.Interval.Set.Basic
import Tsunami.Blocks
import Tsunami.Client.CommandGet

/-!
# The blocks tile the file

The server divides the file into blocks and counts them, the client computes
where each of them goes. The two computations live in different programs, and
between them the count passes through 32 bits.
-/

namespace Tsunami

open Bytes

/-- The cells are not empty, do not overlap, and fill `whole`. -/
structure Tiles {ι α : Type} (index : Set ι) (cell : ι → Set α) (whole : Set α) : Prop where
  nonempty : ∀ i ∈ index, (cell i).Nonempty
  disjoint : index.PairwiseDisjoint cell
  union : ⋃ i ∈ index, cell i = whole

theorem Tiles.mem {ι α : Type} {index : Set ι} {cell : ι → Set α} {whole : Set α}
    (h : Tiles index cell whole) (a : α) : a ∈ whole ↔ ∃ i ∈ index, a ∈ cell i := by
  rw [← h.union]
  simp

/-- `block_count`, as `ttp_open_transfer` of the server computes it. -/
def Server.blockCount (fileSize blockSize : Nat) : Nat := u32 (wholeCount fileSize blockSize)

namespace Client

def negotiated (param : Parameter) (fileSize : Nat) : Config :=
  ⟨param, fileSize, Server.blockCount fileSize param.blockSize⟩

def writeRange (cfg : Config) (b : Nat) : Set Nat :=
  Set.Ico (cfg.param.blockSize * (b - 1)) (cfg.param.blockSize * (b - 1) + writeSize cfg b)

variable {cfg : Config} {param : Parameter} {b : Nat}

theorem writeSize_last (cfg : Config) :
    writeSize cfg cfg.blockCount = lastSize cfg.fileSize cfg.param.blockSize := by
  rw [writeSize, if_pos rfl, lastSize]

theorem writeSize_pos (hb : 1 ≤ cfg.param.blockSize) (b : Nat) : 0 < writeSize cfg b := by
  rw [writeSize]
  split
  · exact lastSize_pos _ hb
  · exact hb

theorem writeSize_le (hb : 1 ≤ cfg.param.blockSize) (b : Nat) :
    writeSize cfg b ≤ cfg.param.blockSize := by
  rw [writeSize]
  split
  · exact lastSize_le _ hb
  · exact Nat.le_refl _

/-- `accept_block` writes block `b` to its range, and nowhere else. -/
theorem acceptBlock_writes (hb : 1 ≤ cfg.param.blockSize)
    (hlen : block.length = cfg.param.blockSize) (file : List UInt8) (i : Nat) :
    (i ∈ writeRange cfg b →
        (acceptBlock cfg .ok file b block).1[i]? = block[i - cfg.param.blockSize * (b - 1)]?) ∧
      (i ∉ writeRange cfg b → i < file.length →
        (acceptBlock cfg .ok file b block).1[i]? = file[i]?) := by
  have hpos := writeSize_pos hb b
  have hle := writeSize_le hb b
  have hsize : (block.take (writeSize cfg b)).length = writeSize cfg b := by
    rw [List.length_take, hlen, Nat.min_eq_left hle]
  have hne : block.take (writeSize cfg b) ≠ [] := List.length_pos_iff.mp (by omega)
  simp only [acceptBlock, writeAt_getElem? 0 file _ hne, hsize]
  constructor
  · rintro ⟨hlo, hhi⟩
    have hoff : i - cfg.param.blockSize * (b - 1) < writeSize cfg b := by
      omega
    rw [if_pos ⟨hlo, hhi⟩, List.getElem?_take_of_lt hoff]
  · intro hi hfile
    exact (if_neg hi).trans (if_pos hfile)

theorem writeRange_disjoint (hb : 1 ≤ cfg.param.blockSize) {c : Nat} (h₁ : 1 ≤ b) (hbc : b < c) :
    Disjoint (writeRange cfg b) (writeRange cfg c) := by
  have hle := writeSize_le hb b
  have hnext :
      cfg.param.blockSize * (b - 1) + cfg.param.blockSize ≤ cfg.param.blockSize * (c - 1) := by
    calc cfg.param.blockSize * (b - 1) + cfg.param.blockSize
        = cfg.param.blockSize * (b - 1 + 1) := (Nat.mul_succ _ _).symm
      _ ≤ cfg.param.blockSize * (c - 1) := Nat.mul_le_mul_left _ (by omega)
  rw [Set.disjoint_left]
  rintro i ⟨-, hi⟩ ⟨hc, -⟩
  omega

theorem lt_of_writeRange (hb : 1 ≤ cfg.param.blockSize)
    (hcount : cfg.blockCount = wholeCount cfg.fileSize cfg.param.blockSize) (h₁ : 1 ≤ b)
    (hle : b ≤ cfg.blockCount) (hi : i ∈ writeRange cfg b) : i < cfg.fileSize := by
  obtain ⟨-, hlt⟩ := hi
  have hfile : 0 < cfg.fileSize := by
    by_contra hzero
    rw [Nat.eq_zero_of_not_pos hzero] at hcount
    simp [wholeCount] at hcount
    omega
  obtain ⟨-, hsum⟩ := wholeCount_spec hb hfile
  rcases Nat.lt_or_eq_of_le hle with hlast | rfl
  · have hbefore : cfg.param.blockSize * (b - 1 + 1) ≤
        cfg.param.blockSize * (wholeCount cfg.fileSize cfg.param.blockSize - 1) :=
      Nat.mul_le_mul_left _ (by omega)
    have hsize := writeSize_le hb b
    rw [Nat.mul_succ] at hbefore
    omega
  · rw [writeSize_last, hcount] at hlt
    omega

theorem exists_writeRange (hb : 1 ≤ cfg.param.blockSize)
    (hcount : cfg.blockCount = wholeCount cfg.fileSize cfg.param.blockSize)
    (hi : i < cfg.fileSize) : ∃ b ∈ Set.Icc 1 cfg.blockCount, i ∈ writeRange cfg b := by
  have hfile : 0 < cfg.fileSize := Nat.lt_of_le_of_lt (Nat.zero_le i) hi
  obtain ⟨hpos, hsum⟩ := wholeCount_spec hb hfile
  have hdiv := Nat.div_add_mod i cfg.param.blockSize
  have hmod := Nat.mod_lt i hb
  by_cases hlast : i < cfg.param.blockSize * (cfg.blockCount - 1)
  · have hquot : i / cfg.param.blockSize < cfg.blockCount - 1 := Nat.div_lt_of_lt_mul hlast
    have hwhole : writeSize cfg (i / cfg.param.blockSize + 1) = cfg.param.blockSize :=
      if_neg (by omega)
    refine ⟨i / cfg.param.blockSize + 1, ⟨Nat.succ_pos _, by omega⟩, ?_, ?_⟩
    · rw [Nat.add_sub_cancel]
      omega
    · rw [hwhole, Nat.add_sub_cancel]
      omega
  · refine ⟨cfg.blockCount, ⟨hcount ▸ hpos, Nat.le_refl _⟩, Nat.le_of_not_lt hlast, ?_⟩
    rw [writeSize_last, hcount]
    omega

theorem tiles_of_count (cfg : Config) (hb : 1 ≤ cfg.param.blockSize)
    (hcount : cfg.blockCount = wholeCount cfg.fileSize cfg.param.blockSize) :
    Tiles (Set.Icc 1 cfg.blockCount) (writeRange cfg) (Set.Ico 0 cfg.fileSize) where
  nonempty b _ := ⟨_, Nat.le_refl _, Nat.lt_add_of_pos_right (writeSize_pos hb b)⟩
  disjoint b hbi c hci hne := by
    rcases Nat.lt_or_gt_of_ne hne with hlt | hgt
    · exact writeRange_disjoint hb hbi.1 hlt
    · exact (writeRange_disjoint hb hci.1 hgt).symm
  union := by
    ext i
    simp only [Set.mem_iUnion, exists_prop]
    constructor
    · rintro ⟨b, ⟨h₁, hle⟩, hi⟩
      exact ⟨Nat.zero_le i, lt_of_writeRange hb hcount h₁ hle hi⟩
    · rintro ⟨-, hi⟩
      exact exists_writeRange hb hcount hi

/-- A count that is short of the whole leaves the end of the file out. -/
theorem count_of_tiles (hb : 1 ≤ cfg.param.blockSize)
    (h : Tiles (Set.Icc 1 cfg.blockCount) (writeRange cfg) (Set.Ico 0 cfg.fileSize)) :
    wholeCount cfg.fileSize cfg.param.blockSize ≤ cfg.blockCount := by
  rcases Nat.eq_zero_or_pos cfg.fileSize with hzero | hfile
  · simp [hzero, wholeCount]
  · obtain ⟨hpos, hsum⟩ := wholeCount_spec hb hfile
    have hlast : cfg.fileSize - 1 ∈ Set.Ico 0 cfg.fileSize := ⟨Nat.zero_le _, by omega⟩
    obtain ⟨b, ⟨h₁, hle⟩, -, hlt⟩ := (h.mem _).mp hlast
    have hsize := writeSize_le hb b
    have hbytes : cfg.param.blockSize * (wholeCount cfg.fileSize cfg.param.blockSize - 1) <
        cfg.param.blockSize * b := by
      have hsucc :
          cfg.param.blockSize * b = cfg.param.blockSize * (b - 1) + cfg.param.blockSize := by
        rw [← Nat.mul_succ, Nat.succ_eq_add_one, Nat.sub_add_cancel h₁]
      have := lastSize_pos cfg.fileSize hb
      omega
    have := Nat.lt_of_mul_lt_mul_left hbytes
    omega

/-- The blocks tile the file exactly where their number fits the 32 bits in
which the server keeps and sends it. -/
theorem blocks_tile_iff (param : Parameter) (hb : 1 ≤ param.blockSize) (fileSize : Nat) :
    Tiles (Set.Icc 1 (negotiated param fileSize).blockCount)
      (writeRange (negotiated param fileSize))
        (Set.Ico 0 fileSize) ↔
      wholeCount fileSize param.blockSize < 2 ^ 32 := by
  constructor
  · intro h
    exact Nat.lt_of_le_of_lt (count_of_tiles hb h) (u32_lt _)
  · intro hfits
    exact tiles_of_count (negotiated param fileSize) hb (u32_of_lt hfits)

theorem blocks_tile_iff_short_last_block :
    Tiles (Set.Icc 1 3) (writeRange ⟨⟨1024, 650000000, 25, true, 0⟩, 2500, 3⟩) (Set.Ico 0 2500) :=
  (blocks_tile_iff ⟨1024, 650000000, 25, true, 0⟩ (by decide) 2500).mpr (by decide)

/-- Of a file of 2^42 bytes in blocks of 1024 the client is told to expect no
block at all. -/
theorem four_tebibytes_not_tiled :
    ¬ Tiles (Set.Icc 1 (negotiated ⟨1024, 650000000, 25, true, 0⟩ (2 ^ 42)).blockCount)
      (writeRange (negotiated ⟨1024, 650000000, 25, true, 0⟩ (2 ^ 42))) (Set.Ico 0 (2 ^ 42)) := by
  intro h
  obtain ⟨b, ⟨h₁, hle⟩, -⟩ := (h.mem 0).mp ⟨Nat.zero_le 0, by decide⟩
  have hnone : (negotiated ⟨1024, 650000000, 25, true, 0⟩ (2 ^ 42)).blockCount = 0 := by decide
  omega

end Client

end Tsunami
