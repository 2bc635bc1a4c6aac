import Tsunami.Server.Protocol

/-!
# The transfer loop of the server

The inner loop of `client_handler`: a non-blocking read of the control
channel, then a request or the next block, then the client's heartbeat. The
results of the calls and the readings of the clock are its input.
-/

namespace Tsunami.Server

open Bytes

/-- What `read` returns: some bytes, or nothing, with the value of `errno`
that the source looks at. -/
inductive ReadResult
  | data (bytes : List UInt8)
  | nothing (errno : Nat)
  deriving DecidableEq, Repr

def eagain : Nat := 11

/-- One iteration: `now` is the time at its start, `checkAt`, `reportAt` and
`timeoutAt` are the later readings of the clock, all in microseconds. -/
structure Input where
  now : Nat
  read : ReadResult
  sendOk : Bool
  checkAt : Nat
  reportAt : Nat
  timeoutAt : Nat
  deriving DecidableEq, Repr

/-- At time `at'`. The whole seconds are counted upwards only: in an earlier
second than `old` just the microseconds are subtracted. -/
def getUsecSince (old at' : Nat) : Nat :=
  let seconds : Nat := at' / 1000000 - old / 1000000
  ((1000000 * seconds + (at' % 1000000 : Nat) - (old % 1000000 : Nat) : Int) % 2 ^ 64).toNat

theorem getUsecSince_later (hle : old ≤ at') (hlt : at' < 2 ^ 64) :
    getUsecSince old at' = at' - old := by
  simp only [getUsecSince]
  omega

/-- The locals of the loop. The last three fields are histories: the requests
acted on for the client, the new blocks built with their types, and the
datagrams sent. -/
structure Handler where
  sender : Sender
  retransmission : List UInt8
  retransmitlen : Nat
  deadconnectionCounter : Nat
  lastfeedback : Nat
  lasthblostreport : Nat
  acted : List Retransmission
  built : List (Nat × Nat)
  sent : List (List UInt8)
  deriving DecidableEq, Repr

/-- At the start of the first transfer of a connection: nothing is set in the
buffers yet, and the file has just been opened. -/
def Handler.create (ipd : ℚ) (datagram retransmission : List UInt8) (start : Nat) : Handler where
  sender := ⟨0, ipd, 0, datagram, 0⟩
  retransmission := retransmission
  retransmitlen := 0
  deadconnectionCounter := 0
  lastfeedback := start
  lasthblostreport := start
  acted := []
  built := []
  sent := []

/-- How an iteration ends: in the loop, or out of it on a stop request, on the
heartbeat timeout, or by `error`. -/
inductive Outcome
  | running (h : Handler)
  | stopped (h : Handler)
  | timedOut (h : Handler)
  | fatal
  deriving DecidableEq, Repr

def Handler.fill (h : Handler) : ReadResult → Handler
  | .data bytes => { h with
      retransmission := blit h.retransmission h.retransmitlen bytes
      retransmitlen := h.retransmitlen + bytes.length }
  | .nothing _ => h

/-- The server's own report of a lost heartbeat, written over the record. The
padding after the type stays. -/
def reportLoss (buffer : List UInt8) : List UInt8 :=
  be16 requestErrorRate ++ (buffer.drop 2).take 2 ++ be32 0 ++ be32 100000

def reported (cfg : Config) (s : Sender) (buffer : List UInt8) : Accepted :=
  ttpAcceptRetransmit cfg true s (reportLoss buffer)

def Handler.reportDue (h : Handler) (i : Input) : Bool :=
  h.deadconnectionCounter > 2048 ∧ ¬getUsecSince h.lasthblostreport i.checkAt < 500000

def Handler.heartbeat (cfg : Config) (h : Handler) (i : Input) : Outcome :=
  if h.deadconnectionCounter > 2048 then
    if h.reportDue i then
      let a := reported cfg h.sender h.retransmission
      let h := { h with
        deadconnectionCounter := 0
        lasthblostreport := i.reportAt
        sender := a.sender
        retransmission := a.buffer }
      if getUsecSince h.lastfeedback i.timeoutAt > 1000000 * cfg.hbTimeout then .timedOut h
      else .running h
    else .running { h with deadconnectionCounter := 0 }
  else .running { h with deadconnectionCounter := h.deadconnectionCounter + 1 }

def Handler.request (cfg : Config) (h : Handler) (i : Input) : Outcome :=
  let r := Retransmission.decode h.retransmission
  let h := { h with
    lastfeedback := i.now
    lasthblostreport := i.now
    deadconnectionCounter := 0
    acted := h.acted ++ [r] }
  if r.requestType = requestStop then .stopped h
  else
    let a := ttpAcceptRetransmit cfg i.sendOk h.sender h.retransmission
    { h with
      sender := a.sender
      retransmission := a.buffer
      retransmitlen := 0
      sent := h.sent ++ a.sent }.heartbeat cfg i

def nextBlock (cfg : Config) (s : Sender) : Nat × Nat :=
  let block := min (u32 (s.block + 1)) cfg.blockCount
  (block, if block = cfg.blockCount then tsBlockTerminate else tsBlockOriginal)

def Handler.transmit (cfg : Config) (h : Handler) (i : Input) : Outcome :=
  let b := nextBlock cfg h.sender
  let s := buildDatagram cfg { h.sender with block := b.1 } b.1 b.2
  let h := { h with sender := s, built := h.built ++ [b] }
  if i.sendOk then { h with sent := h.sent ++ [s.packet cfg] }.heartbeat cfg i
  else .running h

def Handler.iteration (cfg : Config) (h : Handler) (i : Input) : Outcome :=
  if h.sender.block ≤ cfg.blockCount then
    match i.read with
    | .nothing errno => if errno ≠ eagain then .fatal else go cfg h i
    | .data _ => go cfg (h.fill i.read) i
  else .stopped h
where
  go (cfg : Config) (h : Handler) (i : Input) : Outcome :=
    if h.retransmitlen = sizeofRetransmission then h.request cfg i
    else if h.retransmitlen < sizeofRetransmission then h.transmit cfg i
    else { h with retransmitlen := 0 }.heartbeat cfg i

end Tsunami.Server
