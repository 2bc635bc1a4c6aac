import Tsunami.Client.ProtocolLaws

/-!
# Repeating the requests

The loop of `ttp_repeat_retransmit` reads the table and compacts it in place. It
stops when there are too many requests for one write, and the entry that a
restart is remembered by is then read from the table as the loop has left it.
The requests go out in one `fwrite`, and its result is only tested for 0.
-/

namespace Tsunami.Client

open Bytes

variable {x : Transfer} {w : WriteResult}

theorem wanted_sublist (x : Transfer) (bs : List Nat) : (wanted x bs).Sublist bs :=
  List.filter_sublist

/-- The entry that is last in the table stays last while the loop compacts it:
where the loop overwrites it, every entry is wanted, and it is written back. -/
theorem discard_last (h : maxRetransmissionBuffer ≤ (wanted x x.retransmit.entries).length) :
    x.retransmit.entries.getLast? =
      some ((discard x x.retransmit.indexMax).1.getD (x.retransmit.indexMax - 1) 0) := by
  have hd := discarded x
  have hfits := x.retransmit.fits
  have hlen := x.retransmit.length_entries
  have hsub := (wanted_sublist x x.retransmit.entries).length_le
  have hpos : 0 < x.retransmit.indexMax := by
    have : 0 < maxRetransmissionBuffer := by decide
    omega
  have hlast : x.retransmit.entries.getLast? =
      x.retransmit.table[x.retransmit.indexMax - 1]? := by
    rw [List.getLast?_eq_getElem?, hlen, Retransmit.entries, List.getElem?_take_of_lt (by omega)]
  have hsame : (discard x x.retransmit.indexMax).1[x.retransmit.indexMax - 1]? =
      x.retransmit.table[x.retransmit.indexMax - 1]? := by
    by_cases hover : (discard x x.retransmit.indexMax).2.length ≤ x.retransmit.indexMax - 1
    · exact hd.rest _ hover
    · have hcount := hd.count
      have hall : (discard x x.retransmit.indexMax).2.length = x.retransmit.indexMax := by omega
      have hreq := discard_requests x
      have heq : (wanted x x.retransmit.entries).take maxRetransmissionBuffer =
          x.retransmit.entries := by
        refine List.Sublist.eq_of_length
          ((List.take_sublist ..).trans (wanted_sublist ..)) ?_
        rw [← hreq, hall, hlen]
      have hbottom := hd.bottom
      rw [hall, hreq, heq] at hbottom
      have hget := congrArg (·[x.retransmit.indexMax - 1]?) hbottom
      simpa [Retransmit.entries, List.getElem?_take_of_lt, hpos] using hget
  have hin : x.retransmit.indexMax - 1 < x.retransmit.table.length := by omega
  rw [hlast, List.getD_eq_getElem?_getD, hsame, List.getElem?_eq_getElem hin, Option.getD_some]

structure Repeated (x : Transfer) (s : Sent) : Prop where
  entries : s.xfer.retransmit.entries = wanted x x.retransmit.entries
  records : s.records = (wanted x x.retransmit.entries).map retransmitRequest
  totalRetransmits : s.xfer.stats.totalRetransmits =
    u32 (x.stats.totalRetransmits + (wanted x x.retransmit.entries).length)
  nextBlock : s.xfer.nextBlock = x.nextBlock
  restartPending : s.xfer.restartPending = x.restartPending
  restartLastidx : s.xfer.restartLastidx = x.restartLastidx
  restartWireclearidx : s.xfer.restartWireclearidx = x.restartWireclearidx

structure Restarted (x : Transfer) (s : Sent) : Prop where
  records : s.records = [restartRequest (min x.blockCount (u32 (x.gaplessToBlock + 1)))]
  nextBlock : s.xfer.nextBlock = min x.blockCount (u32 (x.gaplessToBlock + 1))
  entries : s.xfer.retransmit.entries = []
  restartPending : s.xfer.restartPending = true
  restartLastidx : x.retransmit.entries.getLast? = some s.xfer.restartLastidx

/-- What the function should do, by the number of blocks that are still wanted. -/
structure Compacts (x : Transfer) (s : Sent) : Prop where
  repeated : (wanted x x.retransmit.entries).length < maxRetransmissionBuffer → Repeated x s
  restarted : maxRetransmissionBuffer ≤ (wanted x x.retransmit.entries).length → Restarted x s

/-- `fwrite` does not stop between two of the requests with the stream in order. -/
def TakesAll (w : WriteResult) (x : Transfer) : Prop :=
  ∀ n, w = .short n true → (wanted x x.retransmit.entries).length < maxRetransmissionBuffer →
    (wanted x x.retransmit.entries).length ≤ n + 1

theorem records_of_few (w : WriteResult)
    (hfew : (wanted x x.retransmit.entries).length < maxRetransmissionBuffer) :
    (ttpRepeatRetransmit w x).records =
        w.taken ((wanted x x.retransmit.entries).map retransmitRequest) ∧
      ((ttpRepeatRetransmit w x).ok = true ↔
        w.flushed ∨ w = .fwriteFails ∧ wanted x x.retransmit.entries = []) := by
  have hreq := discard_requests x
  rw [List.take_of_length_le (Nat.le_of_lt hfew)] at hreq
  have hn : ¬(discard x x.retransmit.indexMax).2.length ≥ maxRetransmissionBuffer := by
    rw [hreq]
    exact Nat.not_le.mpr hfew
  unfold ttpRepeatRetransmit
  simp only [if_neg hn]
  simp [hreq]

theorem taken_of_takesAll (hw : TakesAll w x)
    (hfew : (wanted x x.retransmit.entries).length < maxRetransmissionBuffer)
    (hok : w.flushed ∨ w = .fwriteFails ∧ wanted x x.retransmit.entries = []) :
    w.taken ((wanted x x.retransmit.entries).map retransmitRequest) =
      (wanted x x.retransmit.entries).map retransmitRequest := by
  rcases hok with hflushed | ⟨rfl, hnil⟩
  · cases w with
    | ok => rfl
    | short n flushed =>
      obtain rfl : flushed = true := hflushed
      exact List.take_of_length_le (by simpa using hw n rfl hfew)
    | fwriteFails => cases hflushed
    | fflushFails => cases hflushed
  · rw [hnil]
    rfl

theorem repeated_of_few (h : (ttpRepeatRetransmit w x).ok = true) (hw : TakesAll w x)
    (hfew : (wanted x x.retransmit.entries).length < maxRetransmissionBuffer) :
    Repeated x (ttpRepeatRetransmit w x) := by
  obtain ⟨hrecords, hok⟩ := records_of_few w hfew
  have htaken := taken_of_takesAll hw hfew (hok.mp h)
  have hreq := discard_requests x
  have hent := entries_compact x
  rw [List.take_of_length_le (Nat.le_of_lt hfew)] at hreq hent
  have hn : ¬(discard x x.retransmit.indexMax).2.length ≥ maxRetransmissionBuffer := by
    rw [hreq]
    exact Nat.not_le.mpr hfew
  refine ⟨?_, hrecords.trans htaken, ?_, ?_, ?_, ?_, ?_⟩ <;>
    unfold ttpRepeatRetransmit <;> simp only [if_neg hn]
  · exact hent
  · rw [hreq]

theorem restarted_of_many (h : (ttpRepeatRetransmit w x).ok = true)
    (hmany : maxRetransmissionBuffer ≤ (wanted x x.retransmit.entries).length) :
    Restarted x (ttpRepeatRetransmit w x) := by
  have hn : (discard x x.retransmit.indexMax).2.length ≥ maxRetransmissionBuffer := by
    rw [discard_requests, List.length_take]
    omega
  have hlast := discard_last hmany
  unfold ttpRepeatRetransmit at h ⊢
  simp only [if_pos hn] at h ⊢
  split at h
  · simp at h
  · rename_i hw
    rw [if_neg hw]
    exact ⟨rfl, rfl, rfl, rfl, hlast⟩

/-- A successful `ttp_repeat_retransmit` may yet have lost requests: those that a
short write has left behind. -/
theorem repeat_compacts_iff :
    ((ttpRepeatRetransmit w x).ok = true → Compacts x (ttpRepeatRetransmit w x)) ↔
      TakesAll w x := by
  constructor
  · rintro h n rfl hfew
    obtain ⟨hrecords, hok⟩ := records_of_few (.short n true) hfew
    have hrep := (h (hok.mpr (.inl rfl))).repeated hfew
    have hlen := congrArg List.length (hrecords.symm.trans hrep.records)
    simp only [WriteResult.taken, List.length_take, List.length_map] at hlen
    omega
  · intro hw h
    exact ⟨repeated_of_few h hw, restarted_of_many h⟩

def secondCame : Transfer :=
  let x := Transfer.create ⟨1024, 650000000, 25, true, 0⟩ 3072 3
  { x with
    received := setBit x.received 2
    blocksLeft := 2
    retransmit := {
      table := [1, 2, 3, 0]
      indexMax := 3
      allocated := by decide
      fits := by decide } }

/-- One of two requests is written, the other is left out, and 0 returned. -/
theorem repeat_loses_request :
    (ttpRepeatRetransmit (.short 0 true) secondCame).ok = true ∧
    (ttpRepeatRetransmit (.short 0 true) secondCame).records = [retransmitRequest 1] ∧
    ¬Compacts secondCame (ttpRepeatRetransmit (.short 0 true) secondCame) := by
  refine ⟨by decide, by decide, fun h => ?_⟩
  have hrecords := (h.repeated (by decide)).records
  exact absurd hrecords (by decide)

end Tsunami.Client
