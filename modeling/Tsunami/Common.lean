import Tsunami.Lib.Bytes

/-!
# What both ends share

The constants and the two message formats of `tsunami.h`: the feedback record
on the control channel and the header of a datagram. A `u_int32_t` is a `Nat`
below `2 ^ 32`, and `u32` is where the source's arithmetic wraps.
-/

namespace Tsunami

open Bytes

def u32 (n : Nat) : Nat := n % 2 ^ 32

theorem u32_of_lt (h : n < 2 ^ 32) : u32 n = n := Nat.mod_eq_of_lt h

theorem u32_lt (n : Nat) : u32 n < 2 ^ 32 := Nat.mod_lt _ (by decide)

def maxBlockSize : Nat := 65530

theorem one_le_maxBlockSize : 1 ≤ maxBlockSize := by decide

def requestRetransmit : Nat := 0
def requestRestart : Nat := 1
def requestStop : Nat := 2
def requestErrorRate : Nat := 3

/-- `'O'`, `'X'` and `'R'`. -/
def tsBlockOriginal : Nat := 79
def tsBlockTerminate : Nat := 88
def tsBlockRetransmission : Nat := 82

-- ---------------------------------------------------------------------------
-- The feedback record
-- ---------------------------------------------------------------------------

structure Retransmission where
  requestType : Nat
  block : Nat
  errorRate : Nat
  deriving DecidableEq, Repr

/-- The size of `retransmission_t`: two bytes of padding follow the type. -/
def sizeofRetransmission : Nat := 12

structure Retransmission.Fits (r : Retransmission) : Prop where
  requestType : r.requestType < 2 ^ 16
  block : r.block < 2 ^ 32
  errorRate : r.errorRate < 2 ^ 32

/-- The record as it is written to the control channel. The sender clears the
whole structure first, so the padding is zero. -/
def Retransmission.encode (r : Retransmission) : List UInt8 :=
  be16 r.requestType ++ [0, 0] ++ be32 r.block ++ be32 r.errorRate

def Retransmission.decode (buf : List UInt8) : Retransmission where
  requestType := ofBe (buf.take 2)
  block := ofBe ((buf.drop 4).take 4)
  errorRate := ofBe ((buf.drop 8).take 4)

@[simp] theorem Retransmission.length_encode (r : Retransmission) :
    r.encode.length = sizeofRetransmission := rfl

theorem Retransmission.decode_encode (h : Fits r) : decode r.encode = r := by
  have htype : (decode r.encode).requestType = ofBe (be16 r.requestType) := rfl
  have hblock : (decode r.encode).block = ofBe (be32 r.block) := rfl
  have hrate : (decode r.encode).errorRate = ofBe (be32 r.errorRate) := rfl
  rw [ofBe_be16, Nat.mod_eq_of_lt h.requestType] at htype
  rw [ofBe_be32, Nat.mod_eq_of_lt h.block] at hblock
  rw [ofBe_be32, Nat.mod_eq_of_lt h.errorRate] at hrate
  cases r
  simp_all [Retransmission.decode]

theorem Retransmission.decode_block_lt (buf : List UInt8) : (decode buf).block < 2 ^ 32 :=
  (ofBe_lt _).trans_le (Nat.pow_le_pow_right (by decide) (List.length_take_le ..))

/-- A record a client of a transfer of `n` blocks writes: the type fits one
byte, and only blocks of the file are asked for again. -/
structure Retransmission.Sound (n : Nat) (r : Retransmission) : Prop where
  fits : r.Fits
  type : r.requestType < 2 ^ 8
  block : r.requestType = requestRetransmit → 1 ≤ r.block ∧ r.block ≤ n

theorem Retransmission.Sound.other (hty : ty < 2 ^ 8) (hne : ty ≠ requestRetransmit)
    (hb : b < 2 ^ 32) (hr : rate < 2 ^ 32) : Sound n ⟨ty, b, rate⟩ :=
  ⟨⟨Nat.lt_of_lt_of_le hty (by decide), hb, hr⟩, hty, fun h => absurd h hne⟩

def Unstopped (rs : List Retransmission) : Prop := ∀ r ∈ rs, r.requestType ≠ requestStop

theorem unstopped_nil : Unstopped [] := fun _ hr => absurd hr List.not_mem_nil

theorem Unstopped.append (h : Unstopped rs) (h' : Unstopped rs') : Unstopped (rs ++ rs') :=
  List.forall_mem_append.mpr ⟨h, h'⟩

-- ---------------------------------------------------------------------------
-- Datagrams
-- ---------------------------------------------------------------------------

def header (blockIndex blockType : Nat) : List UInt8 := be32 blockIndex ++ be16 blockType

@[simp] theorem length_header (b ty : Nat) : (header b ty).length = 6 := rfl

def blockNumber (datagram : List UInt8) : Nat := ofBe (datagram.take 4)

def blockType (datagram : List UInt8) : Nat := ofBe ((datagram.drop 4).take 2)

theorem blockNumber_header (h : b < 2 ^ 32) : blockNumber (header b ty ++ rest) = b := by
  have htake : (header b ty ++ rest).take 4 = be32 b := rfl
  rw [blockNumber, htake, ofBe_be32, Nat.mod_eq_of_lt h]

theorem blockType_header (h : ty < 2 ^ 16) : blockType (header b ty ++ rest) = ty := by
  have htake : ((header b ty ++ rest).drop 4).take 2 = be16 ty := rfl
  rw [blockType, htake, ofBe_be16, Nat.mod_eq_of_lt h]

variable {buf data : List UInt8}

theorem blit_datagram (hbuf : 6 ≤ buf.length) (b ty : Nat) :
    blit (blit buf 6 data) 0 (header b ty) =
      header b ty ++ (data ++ buf.drop (6 + data.length)) := by
  have htake : (buf.take 6).length = 6 := by simp [hbuf]
  have hdrop : (blit buf 6 data).drop 6 = data ++ buf.drop (6 + data.length) := by
    rw [blit, List.append_assoc, List.drop_left' htake]
  rw [blit, List.take_zero, List.nil_append, length_header, Nat.zero_add, hdrop]

theorem packet_full (hd : 6 ≤ buf.length) (hdata : data.length = n) (b ty : Nat) :
    (blit (blit buf 6 data) 0 (header b ty)).take (6 + n) = header b ty ++ data := by
  rw [blit_datagram hd, List.take_append, length_header,
    List.take_of_length_le (by rw [length_header]; omega),
    Nat.add_sub_cancel_left, ← hdata, List.take_left]

end Tsunami
