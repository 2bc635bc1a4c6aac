import Mathlib.Data.Rat.Defs
import Tsunami.Common

/-!
# The client's transfer object

`ttp_transfer_t`, `retransmit_t` and `statistics_t` of `tsunami-client.h`, as
far as the receive loop and what it calls read them.
-/

namespace Tsunami.Client

open Bytes

def maxRetransmissionBuffer : Nat := 2048

def defaultTableSize : Nat := 4096

structure Parameter where
  blockSize : Nat
  targetRate : Nat
  history : Nat
  lossless : Bool
  losswindowMs : Nat
  deriving DecidableEq, Repr

/-- `retransmit_t`. The allocated array is `table`, its length is
`table_size`, and `index_max` never passes its end. -/
structure Retransmit where
  table : List Nat
  indexMax : Nat
  allocated : 0 < table.length
  fits : indexMax ≤ table.length
  deriving DecidableEq, Repr

def Retransmit.tableSize (r : Retransmit) : Nat := r.table.length

def Retransmit.entries (r : Retransmit) : List Nat := r.table.take r.indexMax

@[simp] theorem Retransmit.length_entries (r : Retransmit) : r.entries.length = r.indexMax := by
  simp [entries, r.fits]

def Retransmit.create : Retransmit where
  table := List.replicate defaultTableSize 0
  indexMax := 0
  allocated := by rw [List.length_replicate, defaultTableSize]; decide
  fits := Nat.zero_le _

@[simp] theorem Retransmit.entries_create : Retransmit.create.entries = [] := rfl

def Retransmit.grow (r : Retransmit) : Retransmit where
  table := r.table ++ List.replicate r.tableSize 0
  indexMax := r.indexMax
  allocated := by have := r.allocated; simp; omega
  fits := by have := r.fits; simp; omega

@[simp] theorem Retransmit.entries_grow (r : Retransmit) : r.grow.entries = r.entries := by
  simp [entries, grow, List.take_append_of_le_length r.fits]

theorem Retransmit.indexMax_lt_grow (r : Retransmit) : r.grow.indexMax < r.grow.tableSize := by
  have hf := r.fits
  have ha := r.allocated
  simp [grow, tableSize]
  omega

def Retransmit.store (r : Retransmit) (block : Nat) (h : r.indexMax < r.tableSize) :
    Retransmit where
  table := r.table.set r.indexMax block
  indexMax := r.indexMax + 1
  allocated := by simpa using r.allocated
  fits := by rw [List.length_set]; exact h

@[simp] theorem Retransmit.entries_store (r : Retransmit) (block : Nat)
    (h : r.indexMax < r.tableSize) : (r.store block h).entries = r.entries ++ [block] := by
  have hset : (r.table.set r.indexMax block)[r.indexMax]? = some block :=
    List.getElem?_set_self h
  simp [entries, store, List.take_add_one, List.take_set_of_le (Nat.le_refl _), hset]

/-- `statistics_t`: the counters that steer the feedback. The error rate is
the exact value of the source's `double`. -/
structure Statistics where
  thisBlocks : Nat
  thisRetransmits : Nat
  totalBlocks : Nat
  totalRetransmits : Nat
  totalRecvdRetransmits : Nat
  thisFlowOriginals : Nat
  thisFlowRetransmitteds : Nat
  errorRate : ℚ
  deriving DecidableEq, Repr

def Statistics.clear : Statistics := ⟨0, 0, 0, 0, 0, 0, 0, 0⟩

/-- `ttp_transfer_t`. `dropped` is not in the source: it records that
`ttp_request_retransmit` has refused a request at its cap. -/
structure Transfer where
  fileSize : Nat
  blockCount : Nat
  nextBlock : Nat
  gaplessToBlock : Nat
  retransmit : Retransmit
  stats : Statistics
  received : List UInt8
  blocksLeft : Nat
  restartPending : Bool
  restartLastidx : Nat
  restartWireclearidx : Nat
  onWireEstimate : Nat
  dropped : Bool
  deriving DecidableEq, Repr

/-- The transfer object at the head of the receive loop: what
`ttp_open_transfer` made of the negotiated sizes, and `command_get` set up. -/
def Transfer.create (param : Parameter) (fileSize blockCount : Nat) : Transfer where
  fileSize := fileSize
  blockCount := blockCount
  nextBlock := 1
  gaplessToBlock := 0
  retransmit := .create
  stats := .clear
  received := List.replicate (blockCount / 8 + 2) 0
  blocksLeft := blockCount
  restartPending := false
  restartLastidx := 0
  restartWireclearidx := 0
  -- 0.5 * target_rate / (8 * block_size), truncated
  onWireEstimate := min blockCount (param.targetRate / (2 * u32 (8 * param.blockSize)))
  dropped := false

def gotBlock (x : Transfer) (blocknr : Nat) : Bool :=
  if blocknr > x.blockCount then true else getBit x.received blocknr

end Tsunami.Client
