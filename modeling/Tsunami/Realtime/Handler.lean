import Tsunami.Realtime
import Tsunami.Server.Handler

/-!
# The transfer loop of the realtime server

`ttp_accept_retransmit` and the inner loop of `client_handler` under
`VSIB_REALTIME`. With a local backup the loop outlives its client: it goes on
when the control channel has failed, and a client that is not heard of is given
up at the last block only.
-/

namespace Tsunami.Realtime

open Bytes Server

structure Config extends Parameter where
  errorRate : Nat
  slowerNum : Nat
  slowerDen : Nat
  fasterNum : Nat
  fasterDen : Nat
  ipdTime : Nat
  hbTimeout : Nat
  bigEndian : Bool

def Config.rates (c : Config) : Server.Config where
  file := []
  blockSize := c.blockSize
  blockCount := c.blockCount
  errorRate := c.errorRate
  slowerNum := c.slowerNum
  slowerDen := c.slowerDen
  fasterNum := c.fasterNum
  fasterDen := c.fasterDen
  ipdTime := c.ipdTime
  hbTimeout := c.hbTimeout
  bigEndian := c.bigEndian

/-- One iteration, with what `fwrite` does if it is called. -/
structure Input extends Server.Input where
  fwrite : Fwrite
  deriving DecidableEq, Repr

structure Transfer where
  block : Nat
  ipdCurrent : ℚ
  sender : Sender
  deriving DecidableEq, Repr

structure Accepted where
  transfer : Transfer
  buffer : List UInt8
  sent : List (List UInt8)
  ok : Bool
  deriving DecidableEq, Repr

def Sender.packet (p : Parameter) (s : Sender) : List UInt8 := s.datagram.take (6 + p.blockSize)

def ttpAcceptRetransmit (c : Config) (device : Nat → UInt8) (i : Input) (x : Transfer)
    (buffer : List UInt8) : Accepted :=
  let r := Retransmission.decode buffer
  let buffer := blit (blit buffer 4 (hostBytes c.rates r.block)) 8 (hostBytes c.rates r.errorRate)
  if r.requestType = requestErrorRate then
    ⟨{ x with ipdCurrent := adjustIpd c.rates x.ipdCurrent r.errorRate }, buffer, [], true⟩
  else if r.requestType = requestRestart then
    if r.block = 0 ∨ r.block > c.blockCount then ⟨x, buffer, [], false⟩
    else ⟨{ x with block := r.block }, buffer, [], true⟩
  else if r.requestType = requestRetransmit then
    let (s, ok) := buildDatagram c.toParameter device x.sender
      ⟨r.block, tsBlockRetransmission, i.fwrite⟩
    let x := { x with sender := s }
    if ok ∧ i.sendOk then ⟨x, buffer, [s.packet c.toParameter], true⟩ else ⟨x, buffer, [], false⟩
  else ⟨x, buffer, [], false⟩

/-- The locals of the loop. The last two fields are histories: the requests acted
on, and the datagrams sent. -/
structure Handler where
  transfer : Transfer
  retransmission : List UInt8
  retransmitlen : Nat
  deadconnectionCounter : Nat
  lastfeedback : Nat
  lasthblostreport : Nat
  acted : List Retransmission
  sent : List (List UInt8)
  deriving DecidableEq, Repr

/-- At the start of a transfer: the device and the backup have just been opened,
the statics are as the transfer before left them. -/
def Handler.create (ipd : ℚ) (lastBlock lastWrittenVsibBlock : Nat)
    (datagram retransmission : List UInt8) (start : Nat) : Handler where
  transfer := ⟨0, ipd, ⟨0, lastBlock, lastWrittenVsibBlock, datagram, []⟩⟩
  retransmission := retransmission
  retransmitlen := 0
  deadconnectionCounter := 0
  lastfeedback := start
  lasthblostreport := start
  acted := []
  sent := []

inductive Outcome
  | running (h : Handler)
  | stopped (h : Handler)
  | timedOut (h : Handler)
  | fatal
  deriving DecidableEq, Repr

def Handler.fill (h : Handler) : ReadResult → Handler
  | .data bytes => { h with
      retransmission := blit h.retransmission h.retransmitlen bytes
      retransmitlen := h.retransmitlen + bytes.length }
  | .nothing _ => h

/-- No loss is reported here: that is left to the file server. -/
def Handler.heartbeat (c : Config) (h : Handler) (blockType : Nat) (i : Input) : Outcome :=
  if h.deadconnectionCounter > 2048 then
    if getUsecSince h.lasthblostreport i.checkAt < 500000 then
      .running { h with deadconnectionCounter := 0 }
    else
      let h := { h with deadconnectionCounter := 0, lasthblostreport := i.reportAt }
      if getUsecSince h.lastfeedback i.timeoutAt > 1000000 * c.hbTimeout then
        if c.fileout ∧ blockType = tsBlockTerminate then .timedOut h
        else if ¬c.fileout then .timedOut h
        else .running { h with lastfeedback := i.now }
      else .running h
  else .running { h with deadconnectionCounter := h.deadconnectionCounter + 1 }

def Handler.request (c : Config) (device : Nat → UInt8) (h : Handler) (i : Input) : Outcome :=
  let r := Retransmission.decode h.retransmission
  let h := { h with
    lastfeedback := i.now
    lasthblostreport := i.now
    deadconnectionCounter := 0
    acted := h.acted ++ [r] }
  if r.requestType = requestStop then .stopped h
  else
    let a := ttpAcceptRetransmit c device i h.transfer h.retransmission
    { h with
      transfer := a.transfer
      retransmission := a.buffer
      retransmitlen := 0
      sent := h.sent ++ a.sent }.heartbeat c tsBlockRetransmission i

/-- A block that cannot be stored in the backup ends the server. -/
def Handler.transmit (c : Config) (device : Nat → UInt8) (h : Handler) (i : Input) : Outcome :=
  let block := min (u32 (h.transfer.block + 1)) c.blockCount
  let blockType := if block = c.blockCount then tsBlockTerminate else tsBlockOriginal
  let (s, ok) := buildDatagram c.toParameter device h.transfer.sender ⟨block, blockType, i.fwrite⟩
  let h := { h with transfer := { h.transfer with block := block, sender := s } }
  if ok then
    if i.sendOk then
      { h with sent := h.sent ++ [s.packet c.toParameter] }.heartbeat c blockType i
    else .running h
  else .fatal

/-- A read that fails ends the server only where there is no backup to write. -/
def Handler.iteration (c : Config) (device : Nat → UInt8) (h : Handler) (i : Input) : Outcome :=
  if h.transfer.block ≤ c.blockCount then
    match i.read with
    | .nothing errno => if errno ≠ eagain ∧ ¬c.fileout then .fatal else go h
    | .data _ => go (h.fill i.read)
  else .stopped h
where
  go (h : Handler) : Outcome :=
    if h.retransmitlen = sizeofRetransmission then h.request c device i
    else if h.retransmitlen < sizeofRetransmission then h.transmit c device i
    else { h with retransmitlen := 0 }.heartbeat c tsBlockRetransmission i

def Handler.serve (c : Config) (device : Nat → UInt8) : Handler → List Input → Outcome
  | h, [] => .running h
  | h, i :: is =>
    match h.iteration c device i with
    | .running h' => h'.serve c device is
    | o => o

end Tsunami.Realtime
