import Tsunami.Client.ReceiveLaws
import Tsunami.Client.RingRefinement

/-!
# The two threads of a transfer

`command_get` from the receive loop to its return, and `disk_thread` beside
it. The network thread stops at every locked section of the ring and at every
call that can wait or fail; the disk thread likewise. What the network
delivers, what the calls answer and which thread goes next are the events.
-/

namespace Tsunami.Client

open Bytes Transition

abbrev Datagram := List UInt8

structure Config where
  param : Parameter
  fileSize : Nat
  blockCount : Nat

-- ---------------------------------------------------------------------------
-- Writing to the local file
-- ---------------------------------------------------------------------------

/-- How `fseeko` and `fwrite` end; a short write leaves what it has written. -/
inductive DiskResult
  | ok
  | seekFails
  | short (written : Nat)
  deriving DecidableEq, Repr

def writeSize (cfg : Config) (blockIndex : Nat) : Nat :=
  if blockIndex = cfg.blockCount then
    if cfg.fileSize % cfg.param.blockSize = 0 then cfg.param.blockSize
    else cfg.fileSize % cfg.param.blockSize
  else cfg.param.blockSize

/-- `accept_block`: the local file afterwards, and whether it returned 0. -/
def acceptBlock (cfg : Config) (r : DiskResult) (file : List UInt8) (blockIndex : Nat)
    (block : List UInt8) : List UInt8 × Bool :=
  let size := writeSize cfg blockIndex
  let offset := cfg.param.blockSize * (blockIndex - 1)
  match r with
  | .ok => (writeAt 0 file offset (block.take size), true)
  | .seekFails => (file, false)
  | .short written => (writeAt 0 file offset (block.take (min written (size - 1))), false)

-- ---------------------------------------------------------------------------
-- The state
-- ---------------------------------------------------------------------------

inductive Insertion
  | received
  | stop
  deriving DecidableEq, Repr

/-- Where the network thread is: at `recvfrom`, with a datagram in the local
buffer, at `ring_reserve` or waiting in it, before the copy into the slot, at
`ring_confirm`, with a new block to be marked as received; out of the loop, at
`ttp_request_stop`, at `pthread_join`, in the loop that counts lost blocks, and
returned 0 or, with the ring destroyed, -1. -/
inductive Network
  | receiving
  | looking
  | reserving (i : Insertion)
  | copying (i : Insertion)
  | confirming (i : Insertion)
  | controlling
  | stopping
  | joining
  | counting (block lost : Nat)
  | returned
  | aborted
  deriving DecidableEq, Repr

inductive Disk
  | running
  | returned
  deriving DecidableEq, Repr

/-- Both threads and what they share. The last three fields are histories: the
received datagrams put into the ring, the calls of `accept_block` with their
results, and the records written to the server. -/
structure CommandGet where
  xfer : Transfer
  ring : RingState Datagram
  localDatagram : Datagram
  network : Network
  disk : Disk
  file : List UInt8
  queued : List Datagram
  accepts : List (Datagram × DiskResult)
  sent : List Retransmission

/-- The slots and the local buffer are as long as a datagram; the file has
just been created. -/
def CommandGet.create (cfg : Config) (slots : Int → Datagram) : CommandGet where
  xfer := .create cfg.param cfg.fileSize cfg.blockCount
  ring := .create slots
  localDatagram := List.replicate (6 + cfg.param.blockSize) 0
  network := .receiving
  disk := .running
  file := []
  queued := []
  accepts := []
  sent := []

-- ---------------------------------------------------------------------------
-- Steps
-- ---------------------------------------------------------------------------

inductive Event
  | recv (d : Datagram)
  | recvFails (w : WriteResult)
  | look (o : Oracle)
  | reserve
  | wake
  | copy
  | confirm
  | control (o : Oracle)
  | requestStop (w : WriteResult)
  | join
  | count
  | peek
  | accept (r : DiskResult)
  | pop

def Verdict.network : Verdict → Network
  | .next => .receiving
  | .leave => .stopping
  | .abort => .aborted

def CommandGet.finish (s : CommandGet) (r : Result) : CommandGet :=
  { s with
    xfer := r.xfer
    sent := s.sent ++ r.records
    network := r.verdict.network }

/-- What stands in the slot after the network thread has written to it. The
stop block overwrites the block number only. -/
def CommandGet.insertion (s : CommandGet) (slot : Int) : Insertion → Datagram
  | .received => s.localDatagram
  | .stop => blit (s.ring.ring.datagrams slot) 0 (be32 0)

/-- The datagram in the local buffer, looked at: without room in the ring, or
with nothing new in it, the iteration goes to the statistics. -/
def CommandGet.look (cfg : Config) (o : Oracle) (s : CommandGet) : CommandGet :=
  let b := blockNumber s.localDatagram
  let ty := blockType s.localDatagram
  let x := countReceived s.xfer ty
  let o := { o with countData := s.ring.ring.countData }
  if ringFull s.ring.ring = false ∧ relevant x b ty then
    if gotBlock x b then s.finish (controlAndStats cfg.param o x b ty)
    else { s with xfer := x, network := .reserving .received }
  else s.finish (sendStats cfg.param o x)

def CommandGet.control (cfg : Config) (o : Oracle) (s : CommandGet) : CommandGet :=
  let b := blockNumber s.localDatagram
  let ty := blockType s.localDatagram
  let o := { o with countData := s.ring.ring.countData }
  s.finish (controlAndStats cfg.param o (markReceived s.xfer b) b ty)

def CommandGet.reserved (s : CommandGet) (i : Insertion) (r : RingState Datagram) : CommandGet :=
  { s with ring := r, network := if r.producer.holds then .copying i else .reserving i }

/-- The slot that was peeked at, handed to `accept_block` unless it is the
mythical 0 block. The slot is read at once: nobody writes to it meanwhile. -/
def CommandGet.accept (cfg : Config) (res : DiskResult) (s : CommandGet) (slot : Int)
    (r : RingState Datagram) : CommandGet :=
  let d := s.ring.ring.datagrams slot
  if blockNumber d = 0 then { s with ring := r, disk := .returned }
  else
    let (file, ok) := acceptBlock cfg res s.file (blockNumber d) (d.drop 6)
    { s with
      ring := r
      file := file
      accepts := s.accepts ++ [(d, res)]
      disk := if ok then .running else .returned }

def CommandGet.step (cfg : Config) (s : CommandGet) : Event → Option CommandGet
  | .recv d =>
    if s.network = .receiving then some { s with
      localDatagram := blit s.localDatagram 0 (d.take (6 + cfg.param.blockSize))
      network := .looking }
    else none
  | .recvFails w =>
    if s.network = .receiving then
      let sent := ttpRepeatRetransmit w s.xfer
      some { s with
        xfer := sent.xfer
        sent := s.sent ++ sent.records
        network := if sent.ok then .looking else .aborted }
    else none
  | .look o => if s.network = .looking then some (s.look cfg o) else none
  | .reserve =>
    match s.network with
    | .reserving i => (s.ring.step .reserve).map (s.reserved i)
    | _ => none
  | .wake =>
    match s.network with
    | .reserving i => (s.ring.step .wake).map (s.reserved i)
    | _ => none
  | .copy =>
    match s.network, s.ring.producer with
    | .copying i, .holding slot =>
      (s.ring.step (.write (s.insertion slot i))).map fun r =>
        { s with ring := r, network := .confirming i }
    | _, _ => none
  | .confirm =>
    match s.network, s.ring.producer with
    | .confirming .received, .holding slot => (s.ring.step .confirm).map fun r =>
      { s with ring := r, network := .controlling, queued := s.queued ++ [s.ring.ring.datagrams slot] }
    | .confirming .stop, .holding _ =>
      (s.ring.step .confirm).map fun r => { s with ring := r, network := .joining }
    | _, _ => none
  | .control o => if s.network = .controlling then some (s.control cfg o) else none
  | .requestStop w =>
    if s.network = .stopping then
      let sent := ttpRequestStop w s.xfer
      some { s with
        sent := s.sent ++ sent.records
        network := if sent.ok then .reserving .stop else .aborted }
    else none
  | .join =>
    if s.network = .joining ∧ s.disk = .returned then some { s with network := .counting 1 0 } else none
  | .count =>
    match s.network with
    | .counting block lost =>
      if block ≤ s.xfer.blockCount then some { s with
        network := .counting (u32 (block + 1)) (if gotBlock s.xfer block then lost else lost + 1) }
      else some { s with network := .returned }
    | _ => none
  | .peek =>
    if s.network ≠ .aborted ∧ s.disk = .running then
      (s.ring.step .peek).map fun r => { s with ring := r }
    else none
  | .accept res =>
    match s.ring.consumer with
    | .peeked slot =>
      if s.network ≠ .aborted ∧ s.disk = .running then
        (s.ring.step .read).map (s.accept cfg res slot)
      else none
    | _ => none
  | .pop =>
    if s.network ≠ .aborted ∧ s.disk = .running then
      (s.ring.step .pop).map fun r => { s with ring := r }
    else none

def commandGet (cfg : Config) : System CommandGet Event where
  init s := ∃ slots, s = .create cfg slots
  step := CommandGet.step cfg

-- ---------------------------------------------------------------------------
-- What a step can do
-- ---------------------------------------------------------------------------

inductive Step (cfg : Config) (s : CommandGet) : Event → CommandGet → Prop
  | recv : s.network = .receiving →
      Step cfg s (.recv d) { s with
        localDatagram := blit s.localDatagram 0 (d.take (6 + cfg.param.blockSize))
        network := .looking }
  | recvFails : s.network = .receiving →
      Step cfg s (.recvFails w) { s with
        xfer := (ttpRepeatRetransmit w s.xfer).xfer
        sent := s.sent ++ (ttpRepeatRetransmit w s.xfer).records
        network := if (ttpRepeatRetransmit w s.xfer).ok then .looking else .aborted }
  | look : s.network = .looking → Step cfg s (.look o) (s.look cfg o)
  | reserve : s.network = .reserving i → s.ring.step .reserve = some r →
      Step cfg s .reserve (s.reserved i r)
  | wake : s.network = .reserving i → s.ring.step .wake = some r → Step cfg s .wake (s.reserved i r)
  | copy : s.network = .copying i → s.ring.producer = .holding slot →
      s.ring.step (.write (s.insertion slot i)) = some r →
      Step cfg s .copy { s with ring := r, network := .confirming i }
  | confirm : s.network = .confirming .received → s.ring.producer = .holding slot →
      s.ring.step .confirm = some r →
      Step cfg s .confirm { s with
        ring := r, network := .controlling, queued := s.queued ++ [s.ring.ring.datagrams slot] }
  | confirmStop : s.network = .confirming .stop → s.ring.producer = .holding slot →
      s.ring.step .confirm = some r → Step cfg s .confirm { s with ring := r, network := .joining }
  | control : s.network = .controlling → Step cfg s (.control o) (s.control cfg o)
  | requestStop : s.network = .stopping →
      Step cfg s (.requestStop w) { s with
        sent := s.sent ++ (ttpRequestStop w s.xfer).records
        network := if (ttpRequestStop w s.xfer).ok then .reserving .stop else .aborted }
  | join : s.network = .joining → s.disk = .returned →
      Step cfg s .join { s with network := .counting 1 0 }
  | count : s.network = .counting block lost → block ≤ s.xfer.blockCount →
      Step cfg s .count { s with
        network := .counting (u32 (block + 1)) (if gotBlock s.xfer block then lost else lost + 1) }
  | counted : s.network = .counting block lost → s.xfer.blockCount < block →
      Step cfg s .count { s with network := .returned }
  | peek : s.network ≠ .aborted → s.disk = .running → s.ring.step .peek = some r →
      Step cfg s .peek { s with ring := r }
  | accept : s.ring.consumer = .peeked slot → s.network ≠ .aborted → s.disk = .running →
      s.ring.step .read = some r → Step cfg s (.accept res) (s.accept cfg res slot r)
  | pop : s.network ≠ .aborted → s.disk = .running → s.ring.step .pop = some r →
      Step cfg s .pop { s with ring := r }

theorem step_cases {s t : CommandGet} {e : Event} (h : s.step cfg e = some t) : Step cfg s e t := by
  cases e with
  | recv d | recvFails w | look o | control o | requestStop w =>
    simp only [CommandGet.step, Option.ite_none_right_eq_some, Option.some.injEq] at h
    obtain ⟨hnet, rfl⟩ := h
    constructor
    exact hnet
  | reserve | wake =>
    simp only [CommandGet.step] at h
    split at h
    · simp only [Option.map_eq_some_iff] at h
      obtain ⟨r, hr, rfl⟩ := h
      constructor <;> assumption
    · simp at h
  | copy =>
    simp only [CommandGet.step] at h
    split at h
    · simp only [Option.map_eq_some_iff] at h
      obtain ⟨r, hr, rfl⟩ := h
      exact .copy ‹_› ‹_› hr
    · simp at h
  | confirm =>
    simp only [CommandGet.step] at h
    split at h
    · simp only [Option.map_eq_some_iff] at h
      obtain ⟨r, hr, rfl⟩ := h
      exact .confirm ‹_› ‹_› hr
    · simp only [Option.map_eq_some_iff] at h
      obtain ⟨r, hr, rfl⟩ := h
      exact .confirmStop ‹_› ‹_› hr
    · simp at h
  | join =>
    simp only [CommandGet.step, Option.ite_none_right_eq_some, Option.some.injEq] at h
    obtain ⟨⟨hnet, hdisk⟩, rfl⟩ := h
    exact .join hnet hdisk
  | count =>
    simp only [CommandGet.step] at h
    split at h
    · split at h <;> cases h
      · exact .count ‹_› ‹_›
      · exact .counted ‹_› (Nat.lt_of_not_le ‹_›)
    · simp at h
  | peek | pop =>
    simp only [CommandGet.step, Option.ite_none_right_eq_some, Option.map_eq_some_iff] at h
    obtain ⟨⟨hnet, hdisk⟩, r, hr, rfl⟩ := h
    constructor <;> assumption
  | accept res =>
    simp only [CommandGet.step] at h
    split at h
    · simp only [Option.ite_none_right_eq_some, Option.map_eq_some_iff] at h
      obtain ⟨⟨hnet, hdisk⟩, r, hr, rfl⟩ := h
      exact .accept ‹_› hnet hdisk hr
    · simp at h

end Tsunami.Client
