import Tsunami.Client.Protocol

/-!
# The receive loop

The `while (1)` of `command_get`, cut where it touches the ring: what happens
to the transfer object before a datagram is queued, when it has been queued,
and afterwards. `iteration` puts the pieces together for a loop whose ring
operations succeed; the client as a whole runs them between the locked
sections of the ring.
-/

namespace Tsunami.Client

open Bytes

/-- What the calls of one iteration answer: whether the table can grow, how
many blocks fit in the time window of the semi-lossy mode, whether
`UPDATE_PERIOD` has passed, the fill of the ring at that moment, and how the
writes of the four places that write to the server end. -/
structure Oracle where
  realloc : Nat → Bool
  window : Nat
  timeUp : Bool
  countData : Int
  atFrozen : WriteResult
  atTerminate : WriteResult
  atRepeat : WriteResult
  atStats : WriteResult

/-- Where an iteration goes from the point reached: to the next one, out of
the loop by `break`, or to `abort`, where the trap of a division by 0 is
counted too. -/
inductive Verdict
  | next
  | leave
  | abort
  deriving DecidableEq, Repr

structure Result where
  xfer : Transfer
  records : List Retransmission
  verdict : Verdict
  deriving DecidableEq, Repr

def countReceived (x : Transfer) (thisType : Nat) : Transfer :=
  let s := x.stats
  { x with stats :=
      if thisType ≠ tsBlockRetransmission then
        { s with
          totalBlocks := u32 (s.totalBlocks + 1)
          thisFlowOriginals := u32 (s.thisFlowOriginals + 1) }
      else
        { s with
          totalBlocks := u32 (s.totalBlocks + 1)
          thisFlowRetransmitteds := u32 (s.thisFlowRetransmitteds + 1)
          totalRecvdRetransmits := u32 (s.totalRecvdRetransmits + 1) } }

def markReceived (x : Transfer) (thisBlock : Nat) : Transfer :=
  { x with
    received := setBit x.received thisBlock
    blocksLeft := if x.blocksLeft > 0 then x.blocksLeft - 1 else x.blocksLeft }

/-- `for (block = first; block < last; ++block)` over `ttp_request_retransmit`. -/
def requestRange (realloc : Nat → Bool) (x : Transfer) (first last : Nat) : Option Transfer :=
  (List.range' first (last - first)).foldlM (ttpRequestRetransmit realloc) x

/-- The first block that the semi-lossy mode still wants. `min` makes the
source's difference a double, which loses its fraction: `o.window` is the
number of blocks in the time window, rounded up. A negative difference is
undefined as 32 bits there; here it wraps. -/
def earliestBlock (o : Oracle) (x : Transfer) (thisBlock : Nat) : Nat :=
  let missing := u32 (thisBlock + 2 ^ 32 - x.gaplessToBlock)
  (((thisBlock : Int) - (min o.window missing : Nat)) % 2 ^ 32).toNat

def queueMissing (param : Parameter) (o : Oracle) (x : Transfer) (thisBlock : Nat) :
    Option Transfer :=
  if param.lossless then requestRange o.realloc x x.nextBlock thisBlock
  else if param.losswindowMs = 0 then some { x with gaplessToBlock := thisBlock }
  else
    let earliest := earliestBlock o x thisBlock
    (requestRange o.realloc x earliest thisBlock).map fun x =>
      -- hop over the missing section
      { x with nextBlock := earliest, gaplessToBlock := earliest }

/-- `while (got_block(gapless_to_block + 1) && gapless_to_block < block_count)`,
which turns at most `fuel` times. -/
def advanceLoop (x : Transfer) : Nat → Nat → Nat
  | 0, gapless => gapless
  | fuel + 1, gapless =>
    if gotBlock x (u32 (gapless + 1)) ∧ gapless < x.blockCount then advanceLoop x fuel (gapless + 1)
    else gapless

def advanceGapless (x : Transfer) : Transfer :=
  { x with gaplessToBlock := advanceLoop x (x.blockCount - x.gaplessToBlock) x.gaplessToBlock }

/-- After an original its successor comes next; blocks of a restart are
originals as well. -/
def expectNext (x : Transfer) (thisBlock thisType : Nat) : Transfer :=
  if thisType = tsBlockOriginal then { x with nextBlock := u32 (thisBlock + 1) } else x

def leaveRestart (x : Transfer) : Transfer :=
  if x.restartPending ∧ x.nextBlock ≥ x.restartLastidx then { x with restartPending := false } else x

def advanceHead (x : Transfer) (thisBlock thisType : Nat) : Transfer :=
  leaveRestart (expectNext (advanceGapless x) thisBlock thisType)

def onWire (x : Transfer) (thisBlock thisType : Nat) : Bool :=
  x.restartPending ∧ thisType ≠ tsBlockTerminate ∧
    thisBlock > x.restartLastidx ∧ thisBlock ≤ x.restartWireclearidx

def terminate (param : Parameter) (o : Oracle) (x : Transfer) : Result :=
  if x.blocksLeft = 0 then ⟨x, [], .leave⟩
  else if ¬param.lossless ∧ x.retransmit.indexMax = 0 ∧ ¬x.restartPending then ⟨x, [], .leave⟩
  else
    match requestRange o.realloc x (u32 (x.gaplessToBlock + 1)) x.blockCount with
    | none => ⟨x, [], .abort⟩
    | some x =>
      -- the status of the repeat is not looked at here
      let sent := ttpRepeatRetransmit o.atTerminate x
      ⟨sent.xfer, sent.records, .next⟩

def control (param : Parameter) (o : Oracle) (x : Transfer) (thisBlock thisType : Nat) : Result :=
  if onWire x thisBlock thisType then ⟨x, [], .next⟩
  else
    match if thisBlock > x.nextBlock then queueMissing param o x thisBlock else some x with
    | none => ⟨x, [], .abort⟩
    | some x =>
      let x := advanceHead x thisBlock thisType
      if thisType = tsBlockTerminate then terminate param o x else ⟨x, [], .next⟩

def updateAfter (param : Parameter) (o : Oracle) (sent : Sent) : Result :=
  if sent.ok then
    match ttpUpdateStats param o.countData o.atStats sent.xfer with
    | some stats => ⟨stats.xfer, sent.records ++ stats.records, .next⟩
    | none => ⟨sent.xfer, sent.records, .abort⟩
  else ⟨sent.xfer, sent.records, .abort⟩

/-- `send_stats`: every 50th datagram, if it is time, the requests are
repeated and the statistics sent. -/
def sendStats (param : Parameter) (o : Oracle) (x : Transfer) : Result :=
  if x.stats.totalBlocks % 50 = 0 ∧ o.timeUp then
    updateAfter param o (ttpRepeatRetransmit o.atRepeat x)
  else ⟨x, [], .next⟩

def controlAndStats (param : Parameter) (o : Oracle) (x : Transfer)
    (thisBlock thisType : Nat) : Result :=
  let r := control param o x thisBlock thisType
  if r.verdict = .next then
    let t := sendStats param o r.xfer
    { t with records := r.records ++ t.records }
  else r

def relevant (x : Transfer) (thisBlock thisType : Nat) : Bool :=
  !gotBlock x thisBlock || thisType = tsBlockTerminate || x.restartPending

def iteration (param : Parameter) (o : Oracle) (full : Bool) (x : Transfer)
    (thisBlock thisType : Nat) : Result :=
  let x := countReceived x thisType
  if full = false ∧ relevant x thisBlock thisType then
    let x := if gotBlock x thisBlock then x else markReceived x thisBlock
    controlAndStats param o x thisBlock thisType
  else sendStats param o x

/-- One iteration. Where `recvfrom` fails the requests are repeated, and the
datagram still in the buffer is looked at once more. -/
def receive (param : Parameter) (o : Oracle) (frozen full : Bool) (x : Transfer)
    (thisBlock thisType : Nat) : Result :=
  if frozen then
    let sent := ttpRepeatRetransmit o.atFrozen x
    if sent.ok then
      let r := iteration param o full sent.xfer thisBlock thisType
      { r with records := sent.records ++ r.records }
    else ⟨sent.xfer, sent.records, .abort⟩
  else iteration param o full x thisBlock thisType

end Tsunami.Client
