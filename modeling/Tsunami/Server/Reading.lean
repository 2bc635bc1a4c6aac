import Tsunami.Server.Blocks

/-!
# Reads that come up short

`build_datagram`, its two callers, and a `fread` that may return any count, with
an error or at the end of a file that was cut meanwhile.
-/

namespace Tsunami.Server

open Bytes

/-- What `fread` brings: the bytes put into the buffer, and the error flag of
the stream, which nothing looks at. -/
structure Fread where
  delivered : List UInt8
  error : Bool
  deriving DecidableEq, Repr

/-- A `size_t` stored in an `int`. -/
def toInt (n : Nat) : Int := if u32 n < 2 ^ 31 then u32 n else u32 n - 2 ^ 32

def Fread.Negative (r : Fread) : Prop := 2 ^ 31 ≤ u32 r.delivered.length

theorem toInt_neg (r : Fread) : toInt r.delivered.length < 0 ↔ r.Negative := by
  have hlt := u32_lt r.delivered.length
  rw [toInt, Fread.Negative]
  split <;> omega

def readDatagram (cfg : Config) (r : Fread) (s : Sender) (blockIndex blockType : Nat) :
    Sender × Int :=
  let position := seek cfg s blockIndex
  let s := { s with
    position := position + r.delivered.length
    datagram := blit s.datagram 6 r.delivered }
  if toInt r.delivered.length < 0 then (s, -1)
  else
    ({ s with
      datagram := blit s.datagram 0 (header blockIndex blockType)
      lastBlock := blockIndex }, 0)

/-- `ttp_accept_retransmit`, where a block is asked for. -/
def readRetransmit (cfg : Config) (r : Fread) (sendOk : Bool) (s : Sender)
    (buffer : List UInt8) : Accepted :=
  let q := Retransmission.decode buffer
  if q.requestType = requestRetransmit then
    let buffer := blit (blit buffer 4 (hostBytes cfg q.block)) 8 (hostBytes cfg q.errorRate)
    let (s, status) := readDatagram cfg r s q.block tsBlockRetransmission
    if status < 0 then ⟨s, buffer, [], false⟩
    else if sendOk then ⟨s, buffer, [s.packet cfg], true⟩
    else ⟨s, buffer, [], false⟩
  else ttpAcceptRetransmit cfg sendOk s buffer

/-- The next block of the transfer loop. A failed read ends the process. -/
def Handler.readTransmit (cfg : Config) (r : Fread) (h : Handler) (i : Input) : Outcome :=
  let b := nextBlock cfg h.sender
  let (s, status) := readDatagram cfg r { h.sender with block := b.1 } b.1 b.2
  if status < 0 then .fatal
  else
    let h := { h with sender := s, built := h.built ++ [b] }
    if i.sendOk then { h with sent := h.sent ++ [s.packet cfg] }.heartbeat cfg i
    else .running h

-- ---------------------------------------------------------------------------
-- A file that is all there
-- ---------------------------------------------------------------------------

variable {cfg : Config} {r : Fread} {s : Sender} {h h' : Handler} {i : Input} {b : Nat}

def Fread.Whole (cfg : Config) (r : Fread) (s : Sender) (b : Nat) : Prop :=
  r.delivered = (cfg.file.drop (seek cfg s b)).take cfg.blockSize

theorem readDatagram_nonneg (hn : ¬ r.Negative) (s : Sender) (b ty : Nat) :
    readDatagram cfg r s b ty =
      ({ s with
        position := seek cfg s b + r.delivered.length
        datagram := blit (blit s.datagram 6 r.delivered) 0 (header b ty)
        lastBlock := b }, 0) := by
  simp only [readDatagram, if_neg (mt (toInt_neg r).mp hn)]

theorem readDatagram_neg (hn : r.Negative) (s : Sender) (b ty : Nat) :
    (readDatagram cfg r s b ty).2 = -1 := by
  simp only [readDatagram, if_pos ((toInt_neg r).mpr hn)]

theorem readDatagram_whole (hw : r.Whole cfg s b) (hn : ¬ r.Negative) (ty : Nat) :
    readDatagram cfg r s b ty = (buildDatagram cfg s b ty, 0) := by
  rw [readDatagram_nonneg hn, buildDatagram_eq, hw]

/-- With whole reads the two callers are those of the transfer loop, where no read
comes up short. -/
theorem readRetransmit_whole (hw : r.Whole cfg s (Retransmission.decode buffer).block)
    (hn : ¬ r.Negative) (sendOk : Bool) :
    readRetransmit cfg r sendOk s buffer = ttpAcceptRetransmit cfg sendOk s buffer := by
  have hpos : ¬ (0 : Int) < 0 := by decide
  simp only [readRetransmit, readDatagram_whole hw hn, if_neg hpos]
  split
  · rename_i hty
    simp [ttpAcceptRetransmit, hty, requestRetransmit, requestErrorRate, requestRestart]
  · rfl

theorem readTransmit_whole
    (hw : r.Whole cfg { h.sender with block := (nextBlock cfg h.sender).1 }
      (nextBlock cfg h.sender).1)
    (hn : ¬ r.Negative) (i : Input) : h.readTransmit cfg r i = h.transmit cfg i := by
  simp only [Handler.readTransmit, readDatagram_whole hw hn]
  rfl

-- ---------------------------------------------------------------------------
-- A read that fails
-- ---------------------------------------------------------------------------

def Fread.Short (cfg : Config) (r : Fread) (b : Nat) : Prop :=
  r.delivered.length < min cfg.blockSize (cfg.file.length - cfg.blockSize * (b - 1))

instance (cfg : Config) (r : Fread) (b : Nat) : Decidable (r.Short cfg b) :=
  inferInstanceAs (Decidable (_ < _))

def Outcome.Silent (o : Outcome) (h : Handler) : Prop :=
  ∀ h', o.handler = some h' → h'.sent = h.sent

/-- `build_datagram` fails for block `b`, and neither caller sends a datagram. -/
structure Withheld (cfg : Config) (r : Fread) (b : Nat) : Prop where
  status : ∀ s ty, (readDatagram cfg r s b ty).2 < 0
  loop : ∀ (h : Handler) i, (nextBlock cfg h.sender).1 = b → (h.readTransmit cfg r i).Silent h
  request : ∀ sendOk s buffer, (Retransmission.decode buffer).requestType = requestRetransmit →
    (Retransmission.decode buffer).block = b → (readRetransmit cfg r sendOk s buffer).sent = []

theorem withheld_of_negative (hn : r.Negative) (b : Nat) : Withheld cfg r b where
  status s ty := by
    rw [readDatagram_neg hn]
    decide
  loop h i _ h' ho := by
    have hneg : (-1 : Int) < 0 := by decide
    simp [Handler.readTransmit, readDatagram_neg hn, Outcome.handler] at ho
  request sendOk s buffer hty _ := by
    have hneg : (-1 : Int) < 0 := by decide
    simp [readRetransmit, hty, readDatagram_neg hn]

/-- A read that comes up short is withheld exactly where its count, as an
`int`, happens to be negative: the test for a failed read never sees a short
count, nor the error flag. -/
theorem short_read_withheld_iff (cfg : Config) (r : Fread) (b : Nat) :
    (r.Short cfg b → Withheld cfg r b) ↔ ¬ r.Short cfg b ∨ r.Negative := by
  constructor
  · intro h
    by_contra hc
    rw [not_or, not_not] at hc
    obtain ⟨hshort, hn⟩ := hc
    have hstatus := (h hshort).status ⟨0, 0, 0, [], 0⟩ tsBlockOriginal
    rw [readDatagram_nonneg hn] at hstatus
    exact absurd hstatus (Int.lt_irrefl 0)
  · rintro (hwhole | hn) hshort
    · exact absurd hshort hwhole
    · exact withheld_of_negative hn b

/-- The disk fails under the first block of a file of eight bytes: the datagram
is sent, with what was in the buffer. -/
theorem failed_read_sent :
    ¬ ∀ (cfg : Config) (r : Fread) (b : Nat), 1 ≤ b → b ≤ cfg.blockCount →
      r.delivered.length ≤ cfg.blockSize → r.Short cfg b → Withheld cfg r b := by
  intro h
  let cfg : Config := ⟨[1, 2, 3, 4, 5, 6, 7, 8], 4, 2, 7500, 25, 24, 5, 6, 10, 15, false⟩
  have hwithheld := h cfg ⟨[], true⟩ 1 (by decide) (by decide) (by decide) (by decide)
  have hstatus := hwithheld.status ⟨0, 0, 0, List.replicate 10 0, 0⟩ tsBlockOriginal
  exact absurd hstatus (by decide)

end Tsunami.Server
