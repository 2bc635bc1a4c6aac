import Mathlib.Data.Rat.Floor
import Tsunami.Client.Ring
import Tsunami.Client.Transfer

/-!
# Requests to the server

`ttp_request_retransmit`, `ttp_repeat_retransmit`, `ttp_request_stop` and
`ttp_update_stats` of the client's `protocol.c`, in the build without
`RETX_REQBLOCK_SORTING`. What the system calls answer is an argument.
-/

namespace Tsunami.Client

/-- How writing to the control stream and flushing it end. `short n` is an
`fwrite` that stops after `n + 1` records, where it has been given more; what it
may have written of the next one is left out. -/
inductive WriteResult
  | ok
  | short (n : Nat) (flushed : Bool)
  | fwriteFails
  | fflushFails
  deriving DecidableEq, Repr

/-- The state after a function that writes to the server, the records it
wrote, and whether it returned 0. -/
structure Sent where
  xfer : Transfer
  records : List Retransmission
  ok : Bool
  deriving DecidableEq, Repr

def WriteResult.taken : WriteResult → List Retransmission → List Retransmission
  | .ok, records | .fflushFails, records => records
  | .short n _, records => records.take (n + 1)
  | .fwriteFails, _ => []

def WriteResult.flushed : WriteResult → Bool
  | .ok => true
  | .short _ flushed => flushed
  | .fwriteFails | .fflushFails => false

@[simp] theorem WriteResult.taken_ok (records : List Retransmission) :
    WriteResult.ok.taken records = records := rfl

@[simp] theorem WriteResult.flushed_ok : WriteResult.ok.flushed = true := rfl

@[simp] theorem WriteResult.taken_nil (w : WriteResult) : w.taken [] = [] := by
  cases w <;> rfl

theorem WriteResult.taken_singleton (w : WriteResult) (r : Retransmission) :
    w.taken [r] = if w = .fwriteFails then [] else [r] := by
  cases w <;> simp [taken]

theorem WriteResult.taken_sublist (w : WriteResult) (records : List Retransmission) :
    (w.taken records).Sublist records := by
  cases w with
  | ok | fflushFails => exact .refl records
  | short n flushed => exact List.take_sublist ..
  | fwriteFails => exact List.nil_sublist records

theorem WriteResult.head_mem_taken (h : w ≠ WriteResult.fwriteFails) :
    r ∈ w.taken (r :: records) := by
  cases w with
  | ok | fflushFails | short => exact List.mem_cons_self
  | fwriteFails => exact absurd rfl h

theorem WriteResult.mem_of_mem_taken {w : WriteResult} (h : r ∈ w.taken records) : r ∈ records :=
  (w.taken_sublist records).subset h

/-- `realloc n` says whether a table of `n` entries can be had. `none` is the
source's return of -1. -/
def ttpRequestRetransmit (realloc : Nat → Bool) (x : Transfer) (block : Nat) : Option Transfer :=
  let r := x.retransmit
  if gotBlock x block then some x
  else if h : r.indexMax < r.tableSize then some { x with retransmit := r.store block h }
  else if r.indexMax ≥ 32 * maxRetransmissionBuffer then some { x with dropped := true }
  else if realloc (2 * r.tableSize) then
    some { x with retransmit := r.grow.store block r.indexMax_lt_grow }
  else none

/-- One turn of the loop that discards received blocks: the table, compacted
in place, and the blocks still wanted, which become the requests. -/
def discardStep (x : Transfer) (s : List Nat × List Nat) (entry : Nat) : List Nat × List Nat :=
  if s.2.length < maxRetransmissionBuffer then
    let block := s.1.getD entry 0
    if block ≠ 0 ∧ gotBlock x block = false then (s.1.set s.2.length block, s.2 ++ [block])
    else s
  else s

def discard (x : Transfer) (n : Nat) : List Nat × List Nat :=
  (List.range n).foldl (discardStep x) (x.retransmit.table, [])

def wanted (x : Transfer) (entries : List Nat) : List Nat :=
  entries.filter fun block => block ≠ 0 ∧ gotBlock x block = false

/-- The loop invariant over the read cursor `n`, with the write cursor at the
number of requests: they are the first wanted blocks before `n`, they stand at
the bottom of the table, and from the write cursor on the table is as it was. -/
structure Discarded (x : Transfer) (n : Nat) (s : List Nat × List Nat) : Prop where
  requests : s.2 = (wanted x (x.retransmit.table.take n)).take maxRetransmissionBuffer
  length : s.1.length = x.retransmit.table.length
  count : s.2.length ≤ n
  bottom : s.1.take s.2.length = s.2
  rest : ∀ j, s.2.length ≤ j → s.1[j]? = x.retransmit.table[j]?

theorem discardStep_discarded (h : Discarded x n s) (hn : n < x.retransmit.table.length) :
    Discarded x (n + 1) (discardStep x s n) := by
  have hentry : s.1.getD n 0 = x.retransmit.table[n] := by
    rw [List.getD_eq_getElem?_getD, h.rest n h.count, List.getElem?_eq_getElem hn, Option.getD_some]
  have htake : wanted x (x.retransmit.table.take (n + 1)) =
      wanted x (x.retransmit.table.take n) ++ wanted x [x.retransmit.table[n]] := by
    rw [List.take_add_one, List.getElem?_eq_getElem hn, wanted, List.filter_append]
    rfl
  have hcount := h.count
  simp only [discardStep, hentry]
  split
  · rename_i hlt
    have hall : (wanted x (x.retransmit.table.take n)).length < maxRetransmissionBuffer := by
      have := congrArg List.length h.requests
      simp only [List.length_take] at this
      omega
    have hreq : s.2 = wanted x (x.retransmit.table.take n) := by
      rw [h.requests, List.take_of_length_le (Nat.le_of_lt hall)]
    split
    · rename_i hw
      have hone : wanted x [x.retransmit.table[n]] = [x.retransmit.table[n]] := by
        simp [wanted, hw]
      refine ⟨?_, by simpa using h.length, by simp; omega, ?_, ?_⟩
      · rw [htake, hone, ← hreq, List.take_of_length_le (by simp; omega)]
      · have hset : (s.1.set s.2.length x.retransmit.table[n])[s.2.length]? =
            some x.retransmit.table[n] :=
          List.getElem?_set_self (by rw [h.length]; omega)
        simp only [List.length_append, List.length_singleton]
        rw [List.take_add_one, hset, List.take_set_of_le (Nat.le_refl _), h.bottom]
        rfl
      · intro j hj
        simp only [List.length_append, List.length_singleton] at hj
        rw [List.getElem?_set_ne (by omega)]
        exact h.rest j (by omega)
    · rename_i hw
      have hnone : wanted x [x.retransmit.table[n]] = [] := by
        simpa [wanted] using hw
      exact ⟨by rw [htake, hnone, List.append_nil]; exact h.requests, h.length, by omega,
        h.bottom, h.rest⟩
  · rename_i hge
    have hfull : maxRetransmissionBuffer ≤ (wanted x (x.retransmit.table.take n)).length := by
      have := congrArg List.length h.requests
      simp only [List.length_take] at this
      omega
    exact ⟨by rw [htake, List.take_append_of_le_length hfull]; exact h.requests, h.length, by omega,
      h.bottom, h.rest⟩

theorem discard_discarded (x : Transfer) (hn : n ≤ x.retransmit.table.length) :
    Discarded x n (discard x n) := by
  induction n with
  | zero => exact ⟨rfl, rfl, Nat.le_refl _, rfl, fun _ _ => rfl⟩
  | succ n ih =>
    have hstep : discard x (n + 1) = discardStep x (discard x n) n := by
      simp [discard, List.range_succ]
    exact hstep ▸ discardStep_discarded (ih (by omega)) (by omega)

theorem discarded (x : Transfer) :
    Discarded x x.retransmit.indexMax (discard x x.retransmit.indexMax) :=
  discard_discarded x x.retransmit.fits

def Transfer.compact (x : Transfer) (n : Nat) (h : n ≤ x.retransmit.indexMax) : Retransmit where
  table := (discard x x.retransmit.indexMax).1
  indexMax := n
  allocated := by rw [(discarded x).length]; exact x.retransmit.allocated
  fits := by rw [(discarded x).length]; exact Nat.le_trans h x.retransmit.fits

def retransmitRequest (block : Nat) : Retransmission := ⟨requestRetransmit, block, 0⟩

def restartRequest (block : Nat) : Retransmission := ⟨requestRestart, block, 0⟩

def ttpRepeatRetransmit (w : WriteResult) (x : Transfer) : Sent :=
  let requests := (discard x x.retransmit.indexMax).2
  if requests.length ≥ maxRetransmissionBuffer then
    let block := min x.blockCount (u32 (x.gaplessToBlock + 1))
    if w = .fwriteFails then
      -- the table is compacted already, index_max is not
      { xfer := { x with
          retransmit := x.compact x.retransmit.indexMax (Nat.le_refl _)
          stats := { x.stats with thisRetransmits := 0 } }
        records := []
        ok := false }
    else
      let lastidx := (discard x x.retransmit.indexMax).1.getD (x.retransmit.indexMax - 1) 0
      { xfer := { x with
          retransmit := x.compact 0 (Nat.zero_le _)
          restartPending := true
          restartLastidx := lastidx
          restartWireclearidx := min x.blockCount (u32 (lastidx + x.onWireEstimate))
          nextBlock := block
          stats := { x.stats with thisRetransmits := maxRetransmissionBuffer } }
        records := [restartRequest block]
        ok := w.flushed }
  else
    { xfer := { x with
        retransmit := x.compact requests.length (discarded x).count
        stats := { x.stats with
          thisRetransmits := requests.length
          totalRetransmits := u32 (x.stats.totalRetransmits + requests.length) } }
      records := w.taken (requests.map retransmitRequest)
      -- nothing is written, and fwrite cannot fail, when nothing is wanted
      ok := w.flushed ∨ w = .fwriteFails ∧ requests = [] }

def ttpRequestStop (w : WriteResult) (x : Transfer) : Sent where
  xfer := x
  records := w.taken [⟨requestStop, 0, 0⟩]
  ok := w.flushed

/-- The part of `ttp_update_stats` that reaches the server: the filtered error
rate, sent as a record, and the interval counters started afresh. `countData`
is the fill of the ring; the division by the ring's capacity is the source's
integer division. -/
def sendErrorRate (param : Parameter) (countData : Int) (w : WriteResult) (x : Transfer) : Sent :=
  let s := x.stats
  let retransmitsFraction : ℚ :=
    s.thisRetransmits / (1 + s.thisRetransmits + s.totalBlocks - s.thisBlocks)
  let ringfillFraction : ℚ := (countData / maxBlocksQueued : Int)
  let fb : ℚ := param.history / 100
  let ff : ℚ := 1 - fb
  let errorRate : ℚ := fb * s.errorRate + ff * 500 * 100 * (retransmitsFraction + ringfillFraction)
  let record : Retransmission := ⟨requestErrorRate, 0, u32 errorRate.floor.toNat⟩
  if w.flushed then
    { xfer := { x with stats := { s with
        errorRate := errorRate, thisBlocks := s.totalBlocks, thisRetransmits := 0
        thisFlowOriginals := 0, thisFlowRetransmitteds := 0 } }
      records := w.taken [record]
      ok := true }
  else
    { xfer := { x with stats := { s with errorRate := errorRate } }
      records := w.taken [record]
      ok := false }

/-- The whole share of retransmissions, which is only printed, is a quotient of
32-bit integers: `none` where the division by 0 traps. -/
def ttpUpdateStats (param : Parameter) (countData : Int) (w : WriteResult) (x : Transfer) :
    Option Sent :=
  if u32 (x.stats.totalRetransmits + x.stats.totalBlocks) = 0 then none
  else some (sendErrorRate param countData w x)

end Tsunami.Client
