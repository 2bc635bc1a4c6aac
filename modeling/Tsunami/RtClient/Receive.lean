import Tsunami.Client.Loop

/-!
# The realtime client's receive loop

`command_get`, `got_block` and what they call of `rtclient/command.c` and
`rtclient/protocol.c`. They began as copies of the file client's: what does not
look at the bitmap is still the same and is taken from there. `got_block` has
no test against `block_count`, and the loop none for a full ring.
-/

namespace Tsunami.RtClient

open Bytes Client

/-- What comes of code that looks at the bitmap: nothing is said of it once it
has reached outside. -/
abbrev Access (α : Type) := Option α

def gotBlock (x : Transfer) (blocknr : Nat) : Access Bool :=
  if blocknr / 8 < x.received.length then some (getBit x.received blocknr) else none

-- ---------------------------------------------------------------------------
-- Requests to the server
-- ---------------------------------------------------------------------------

/-- `none` inside is the source's return of -1. -/
def ttpRequestRetransmit (realloc : Nat → Bool) (x : Transfer) (block : Nat) :
    Access (Option Transfer) :=
  (gotBlock x block).map fun got =>
    let r := x.retransmit
    if got then some x
    else if h : r.indexMax < r.tableSize then some { x with retransmit := r.store block h }
    else if r.indexMax ≥ 32 * maxRetransmissionBuffer then some { x with dropped := true }
    else if realloc (2 * r.tableSize) then
      some { x with retransmit := r.grow.store block r.indexMax_lt_grow }
    else none

/-- The loop that discards received blocks, with its read cursor at `n`: the
table, compacted in place, and the requests prepared. -/
@[ext]
structure Discarding (x : Transfer) (n : Nat) where
  table : List Nat
  requests : List Nat
  allocated : table.length = x.retransmit.table.length
  count : requests.length ≤ n

def Discarding.start (x : Transfer) : Discarding x 0 where
  table := x.retransmit.table
  requests := []
  allocated := rfl
  count := Nat.le_refl 0

def Discarding.skip (s : Discarding x n) : Discarding x (n + 1) where
  table := s.table
  requests := s.requests
  allocated := s.allocated
  count := Nat.le_succ_of_le s.count

def Discarding.save (s : Discarding x n) (block : Nat) : Discarding x (n + 1) where
  table := s.table.set s.requests.length block
  requests := s.requests ++ [block]
  allocated := by rw [List.length_set, s.allocated]
  count := by rw [List.length_append]; exact Nat.succ_le_succ s.count

def Discarding.step (s : Discarding x n) : Access (Discarding x (n + 1)) :=
  if s.requests.length < maxRetransmissionBuffer then
    let block := s.table.getD n 0
    if block = 0 then some s.skip
    else (gotBlock x block).map fun got => if got then s.skip else s.save block
  else some s.skip

def discard (x : Transfer) : (n : Nat) → Access (Discarding x n)
  | 0 => some (.start x)
  | n + 1 => (discard x n).bind Discarding.step

def Discarding.compact (s : Discarding x x.retransmit.indexMax) (n : Nat)
    (h : n < x.retransmit.indexMax + 1) : Retransmit where
  table := s.table
  indexMax := n
  allocated := by rw [s.allocated]; exact x.retransmit.allocated
  fits := by rw [s.allocated]; exact Nat.le_trans (Nat.le_of_lt_succ h) x.retransmit.fits

def Discarding.send (s : Discarding x x.retransmit.indexMax) (w : WriteResult) : Sent :=
  if s.requests.length ≥ maxRetransmissionBuffer then
    let block := min x.blockCount (u32 (x.gaplessToBlock + 1))
    if w = .fwriteFails then
      { xfer := { x with
          retransmit := s.compact x.retransmit.indexMax (Nat.lt_succ_self _)
          stats := { x.stats with thisRetransmits := 0 } }
        records := []
        ok := false }
    else
      let lastidx := s.table.getD (x.retransmit.indexMax - 1) 0
      { xfer := { x with
          retransmit := s.compact 0 (Nat.succ_pos _)
          restartPending := true
          restartLastidx := lastidx
          restartWireclearidx := min x.blockCount (u32 (lastidx + x.onWireEstimate))
          nextBlock := block
          stats := { x.stats with thisRetransmits := maxRetransmissionBuffer } }
        records := [restartRequest block]
        ok := w.flushed }
  else
    { xfer := { x with
        retransmit := s.compact s.requests.length (Nat.lt_succ_of_le s.count)
        stats := { x.stats with
          thisRetransmits := s.requests.length
          totalRetransmits := u32 (x.stats.totalRetransmits + s.requests.length) } }
      records := w.taken (s.requests.map retransmitRequest)
      ok := w.flushed ∨ w = .fwriteFails ∧ s.requests = [] }

def ttpRepeatRetransmit (w : WriteResult) (x : Transfer) : Access Sent :=
  (discard x x.retransmit.indexMax).map fun s => s.send w

-- ---------------------------------------------------------------------------
-- The receive loop
-- ---------------------------------------------------------------------------

def requestAll (realloc : Nat → Bool) (x : Transfer) : List Nat → Access (Option Transfer)
  | [] => some (some x)
  | block :: blocks => (ttpRequestRetransmit realloc x block).bind fun
    | none => some none
    | some y => requestAll realloc y blocks

def requestRange (realloc : Nat → Bool) (x : Transfer) (first last : Nat) :
    Access (Option Transfer) :=
  requestAll realloc x (List.range' first (last - first))

def queueMissing (param : Parameter) (o : Oracle) (x : Transfer) (thisBlock : Nat) :
    Access (Option Transfer) :=
  if param.lossless then requestRange o.realloc x x.nextBlock thisBlock
  else if param.losswindowMs = 0 then some (some { x with gaplessToBlock := thisBlock })
  else
    let earliest := earliestBlock o x thisBlock
    (requestRange o.realloc x earliest thisBlock).map fun requested =>
      -- hop over the missing section
      requested.map fun x => { x with nextBlock := earliest, gaplessToBlock := earliest }

/-- The bitmap is looked at before `block_count` is, also in the last turn. -/
def advanceLoop (x : Transfer) : Nat → Nat → Access Nat
  | 0, gapless => (gotBlock x (u32 (gapless + 1))).map fun _ => gapless
  | fuel + 1, gapless => (gotBlock x (u32 (gapless + 1))).bind fun got =>
    if got ∧ gapless < x.blockCount then advanceLoop x fuel (gapless + 1) else some gapless

def advanceGapless (x : Transfer) : Access Transfer :=
  (advanceLoop x (x.blockCount - x.gaplessToBlock) x.gaplessToBlock).map fun gapless =>
    { x with gaplessToBlock := gapless }

def advanceHead (x : Transfer) (thisBlock thisType : Nat) : Access Transfer :=
  (advanceGapless x).map fun x => leaveRestart (expectNext x thisBlock thisType)

def terminate (param : Parameter) (o : Oracle) (x : Transfer) : Access Result :=
  if x.blocksLeft = 0 then some ⟨x, [], .leave⟩
  else if ¬param.lossless ∧ x.retransmit.indexMax = 0 ∧ ¬x.restartPending then
    some ⟨x, [], .leave⟩
  else
    (requestRange o.realloc x (u32 (x.gaplessToBlock + 1)) x.blockCount).bind fun
      | none => some ⟨x, [], .abort⟩
      | some x => (ttpRepeatRetransmit o.atTerminate x).map fun sent =>
        ⟨sent.xfer, sent.records, .next⟩

def control (param : Parameter) (o : Oracle) (x : Transfer) (thisBlock thisType : Nat) :
    Access Result :=
  if onWire x thisBlock thisType then some ⟨x, [], .next⟩
  else
    (if thisBlock > x.nextBlock then queueMissing param o x thisBlock else some (some x)).bind fun
      | none => some ⟨x, [], .abort⟩
      | some x => (advanceHead x thisBlock thisType).bind fun x =>
        if thisType = tsBlockTerminate then terminate param o x else some ⟨x, [], .next⟩

def sendStats (param : Parameter) (o : Oracle) (x : Transfer) : Access Result :=
  if x.stats.totalBlocks % 50 = 0 ∧ o.timeUp then
    (ttpRepeatRetransmit o.atRepeat x).map (updateAfter param o)
  else some ⟨x, [], .next⟩

def controlAndStats (param : Parameter) (o : Oracle) (x : Transfer) (thisBlock thisType : Nat) :
    Access Result :=
  (control param o x thisBlock thisType).bind fun r =>
    if r.verdict = .next then
      (sendStats param o r.xfer).map fun t => { t with records := r.records ++ t.records }
    else some r

def relevant (x : Transfer) (thisBlock thisType : Nat) : Access Bool :=
  (gotBlock x thisBlock).map fun got =>
    !got || thisType = tsBlockTerminate || x.restartPending

/-- The block of a datagram that is looked at goes into the ring if `got_block`,
called once more, does not know it. -/
def iteration (param : Parameter) (o : Oracle) (x : Transfer) (thisBlock thisType : Nat) :
    Access Result :=
  let x := countReceived x thisType
  (relevant x thisBlock thisType).bind fun looked =>
    if looked then
      (gotBlock x thisBlock).bind fun got =>
        controlAndStats param o (if got then x else markReceived x thisBlock) thisBlock thisType
    else sendStats param o x

def receive (param : Parameter) (o : Oracle) (frozen : Bool) (x : Transfer)
    (thisBlock thisType : Nat) : Access Result :=
  if frozen then
    (ttpRepeatRetransmit o.atFrozen x).bind fun sent =>
      if sent.ok then
        (iteration param o sent.xfer thisBlock thisType).map fun r =>
          { r with records := sent.records ++ r.records }
      else some ⟨sent.xfer, sent.records, .abort⟩
  else iteration param o x thisBlock thisType

def givesUp (o : Oracle) (x : Transfer) (r : Reception) : Access Bool :=
  if r.failed then (ttpRepeatRetransmit o.atFrozen x).map fun sent => !sent.ok else some false

def queues (o : Oracle) (x : Transfer) (r : Reception) (b : Nat) : Access Bool :=
  (givesUp o x r).bind fun up => if up then some false else (gotBlock x b).map fun got => !got

def pass (param : Parameter) (o : Oracle) (x : Transfer) (buf : List UInt8) (r : Reception) :
    Access Pass :=
  let buf := r.buffer buf
  let b := blockNumber buf
  (receive param o r.failed x b (blockType buf)).bind fun result =>
    (queues o x r b).map fun queued =>
      { result := result, buffer := buf, queued := if queued then some buf else none }

end Tsunami.RtClient
