import Mathlib.Algebra.Order.Ring.Unbundled.Rat
import Tsunami.Common

/-!
# What the server sends

`build_datagram` of the server's `io.c` and `ttp_accept_retransmit` of its
`protocol.c`. The file does not change while it is served.
-/

namespace Tsunami.Server

open Bytes

/-- The parameters of a transfer that its loop reads, with the file served.
`bigEndian` is the byte order of the host. -/
structure Config where
  file : List UInt8
  blockSize : Nat
  blockCount : Nat
  errorRate : Nat
  slowerNum : Nat
  slowerDen : Nat
  fasterNum : Nat
  fasterDen : Nat
  ipdTime : Nat
  hbTimeout : Nat
  bigEndian : Bool

/-- The transfer object, the position of its file, the datagram buffer of the
handler, and the static `last_block` of `build_datagram`. -/
structure Sender where
  block : Nat
  ipdCurrent : ℚ
  position : Nat
  datagram : List UInt8
  lastBlock : Nat
  deriving DecidableEq, Repr

/-- Move the file pointer, unless the block follows the last one built, and
read. Past the end of the file the buffer keeps what it held: `fread` returns
a short count, and the source's test for a negative one never fires. -/
def buildDatagram (cfg : Config) (s : Sender) (blockIndex blockType : Nat) : Sender :=
  let position :=
    if blockIndex ≠ u32 (s.lastBlock + 1) then cfg.blockSize * u32 (blockIndex + (2 ^ 32 - 1))
    else s.position
  let data := (cfg.file.drop position).take cfg.blockSize
  { s with
    position := position + data.length
    datagram := blit (blit s.datagram 6 data) 0 (header blockIndex blockType)
    lastBlock := blockIndex }

def Sender.packet (cfg : Config) (s : Sender) : List UInt8 := s.datagram.take (6 + cfg.blockSize)

def hostBytes (cfg : Config) (n : Nat) : List UInt8 :=
  if cfg.bigEndian then be32 n else (be32 n).reverse

def adjustIpd (cfg : Config) (ipd : ℚ) (errorRate : Nat) : ℚ :=
  let ipd :=
    if errorRate > cfg.errorRate then
      let factor1 : ℚ := cfg.slowerNum / cfg.slowerDen - 1
      let factor2 : ℚ := (1 + errorRate - cfg.errorRate) / (100000 - cfg.errorRate)
      ipd * (1 + factor1 * factor2)
    else ipd * (cfg.fasterNum / cfg.fasterDen)
  max (min ipd 10000) cfg.ipdTime

/-- The state after a request, the record's buffer, what was sent for it, and
whether the source returned 0. -/
structure Accepted where
  sender : Sender
  buffer : List UInt8
  sent : List (List UInt8)
  ok : Bool
  deriving DecidableEq, Repr

/-- `ttp_accept_retransmit`. The fields of the record are converted to host
order where they stand. -/
def ttpAcceptRetransmit (cfg : Config) (sendOk : Bool) (s : Sender)
    (buffer : List UInt8) : Accepted :=
  let r := Retransmission.decode buffer
  let buffer := blit (blit buffer 4 (hostBytes cfg r.block)) 8 (hostBytes cfg r.errorRate)
  if r.requestType = requestErrorRate then
    ⟨{ s with ipdCurrent := adjustIpd cfg s.ipdCurrent r.errorRate }, buffer, [], true⟩
  else if r.requestType = requestRestart then
    if r.block = 0 ∨ r.block > cfg.blockCount then ⟨s, buffer, [], false⟩
    else ⟨{ s with block := r.block }, buffer, [], true⟩
  else if r.requestType = requestRetransmit then
    let s := buildDatagram cfg s r.block tsBlockRetransmission
    if sendOk then ⟨s, buffer, [s.packet cfg], true⟩ else ⟨s, buffer, [], false⟩
  else ⟨s, buffer, [], false⟩

end Tsunami.Server
