import Mathlib.Logic.Function.Basic
import Mathlib.Data.List.Range
import Tsunami.Lib.BoundedQueue

/-!
# The ring buffer

`ring.c` under the source's names. Every operation is split at the mutex: one
definition for each section that runs under the lock, so that the two threads
interleave between them. A slot is addressed by its index; the memory behind
it is touched outside the lock.
-/

namespace Tsunami.Client

def maxBlocksQueued : Int := 4096

structure Ring (α : Type u) where
  datagrams : Int → α
  baseData : Int
  countData : Int
  countReserved : Int
  dataReady : Bool
  spaceReady : Bool

variable {α : Type u}

def ringCreate (d : Int → α) : Ring α where
  datagrams := d
  baseData := 0
  countData := 0
  countReserved := 0
  dataReady := false
  spaceReady := true

def ringFull (r : Ring α) : Bool := !r.spaceReady

/-- `none` where the source calls `error`, which exits the process. -/
def ringCancel (r : Ring α) : Option (Ring α) :=
  if r.countReserved - 1 < 0 then none
  else some { r with countReserved := r.countReserved - 1, spaceReady := true }

def ringConfirm (r : Ring α) : Option (Ring α) :=
  if r.countReserved - 1 < 0 then none
  else some { r with
    countData := r.countData + 1, countReserved := r.countReserved - 1, dataReady := true }

def ringReserveNext (r : Ring α) : Int :=
  (r.baseData + r.countData + r.countReserved) % maxBlocksQueued

/-- `ring_reserve` after the wait. The slot was computed before it. -/
def ringReserve (r : Ring α) (next : Int) : Option (Ring α) :=
  if r.countReserved + 1 > 1 then none
  else some { r with
    countReserved := r.countReserved + 1
    spaceReady := if (next + 1) % maxBlocksQueued = r.baseData then false else r.spaceReady }

def ringPeek (r : Ring α) : Int := r.baseData

def ringPop (r : Ring α) : Ring α :=
  { r with
    baseData := (r.baseData + 1) % maxBlocksQueued
    countData := r.countData - 1
    dataReady := if r.countData - 1 = 0 then false else r.dataReady
    spaceReady := true }

-- ---------------------------------------------------------------------------
-- One producer and one consumer
-- ---------------------------------------------------------------------------

/-- Where the network thread is. `waiting` is inside `ring_reserve`, in
`pthread_cond_wait`, with the slot already computed. -/
inductive Producer
  | idle
  | waiting (next : Int)
  | holding (slot : Int)
  deriving DecidableEq, Repr

def Producer.holds : Producer → Bool
  | .holding _ => true
  | _ => false

/-- Where the disk thread is: before `ring_peek`, with the returned slot not
yet read, or with it read and `ring_pop` still to come. -/
inductive Consumer
  | idle
  | peeked (slot : Int)
  | read (slot : Int)
  deriving DecidableEq, Repr

/-- The ring, the two threads, and the history of what the producer confirmed
and what the consumer read. -/
structure RingState (α : Type u) where
  ring : Ring α
  producer : Producer
  consumer : Consumer
  confirmed : List α
  reads : List α

inductive RingEvent (α : Type u)
  | reserve
  | wake
  | write (d : α)
  | confirm
  | cancel
  | peek
  | read
  | pop

/-- One locked section or one unlocked slot access. A thread that finds its
condition false gets no event: it stays in `pthread_cond_wait`. -/
def RingState.step (s : RingState α) : RingEvent α → Option (RingState α)
  | .reserve =>
    match s.producer with
    | .idle =>
      let next := ringReserveNext s.ring
      if s.ring.spaceReady then
        (ringReserve s.ring next).map fun r => { s with ring := r, producer := .holding next }
      else some { s with producer := .waiting next }
    | _ => none
  | .wake =>
    match s.producer with
    | .waiting next =>
      if s.ring.spaceReady then
        (ringReserve s.ring next).map fun r => { s with ring := r, producer := .holding next }
      else none
    | _ => none
  | .write d =>
    match s.producer with
    | .holding slot =>
      some { s with ring := { s.ring with datagrams := Function.update s.ring.datagrams slot d } }
    | _ => none
  | .confirm =>
    match s.producer with
    | .holding slot => (ringConfirm s.ring).map fun r =>
      { s with ring := r, producer := .idle, confirmed := s.confirmed ++ [s.ring.datagrams slot] }
    | _ => none
  | .cancel =>
    match s.producer with
    | .holding _ => (ringCancel s.ring).map fun r => { s with ring := r, producer := .idle }
    | _ => none
  | .peek =>
    match s.consumer with
    | .idle => if s.ring.dataReady then some { s with consumer := .peeked (ringPeek s.ring) } else none
    | _ => none
  | .read =>
    match s.consumer with
    | .peeked slot =>
      some { s with consumer := .read slot, reads := s.reads ++ [s.ring.datagrams slot] }
    | _ => none
  | .pop =>
    match s.consumer with
    | .read _ => if s.ring.dataReady then some { s with ring := ringPop s.ring, consumer := .idle } else none
    | _ => none

def RingState.create (d : Int → α) : RingState α where
  ring := ringCreate d
  producer := .idle
  consumer := .idle
  confirmed := []
  reads := []

def ringSystem (α : Type u) : Transition.System (RingState α) (RingEvent α) where
  init s := ∃ d, s = .create d
  step := RingState.step

end Tsunami.Client
