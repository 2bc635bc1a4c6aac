import Tsunami.Lib.Thinning
import Tsunami.Realtime

/-!
# Three channels of four

`build_datagram` of `rtserver/io.c` with `MODE_34TH`: of every four bytes of the
recording the last is left out. The read goes to a buffer that is dimensioned
for four thirds of a block, but asks for twice the block.
-/

namespace Tsunami.Realtime

open Bytes Thinning

def u64 (n : Nat) : Nat := n % 2 ^ 64

def packingbufferSize : Nat := 4 * maxBlockSize / 3 + 8

structure Packer where
  sender : Sender
  packingbuffer : List UInt8
  deriving DecidableEq, Repr

/-- A call that stays inside `packingbuffer`: what it leaves behind, whether it
returned 0, and the places of `packingbuffer` that its loop read. -/
structure Packed where
  packer : Packer
  ok : Bool
  reads : List Nat
  deriving DecidableEq, Repr

/-- The loop, with `n` bytes still to copy: each byte that is copied with its
place, none if the place is not in the buffer. At most one byte is passed over
before the next copy. -/
def pack34 (buf : List UInt8) : Nat → Nat → Nat → Option (List (Nat × UInt8))
  | 0, _, _ => some []
  | n + 1, vsibBytePos, inbufpos =>
    if vsibBytePos % 4 = 3 then do
      let byte ← buf[inbufpos + 1]?
      let rest ← pack34 buf n (u64 (u64 (vsibBytePos + 1) + 1)) (inbufpos + 2)
      some ((inbufpos + 1, byte) :: rest)
    else do
      let byte ← buf[inbufpos]?
      let rest ← pack34 buf n (u64 (vsibBytePos + 1)) (inbufpos + 1)
      some ((inbufpos, byte) :: rest)

def vsibBytePos (p : Parameter) (blockIndex : Nat) : Nat :=
  let sent := p.blockSize * u32 (blockIndex + (2 ^ 32 - 1))
  u64 (sent + sent / 3)

/-- `read_vsib_block` to the start of `packingbuffer`, none if it does not fit. -/
def Packer.readVsib (device : Nat → UInt8) (s : Packer) (position size : Nat) : Option Packer :=
  if size ≤ packingbufferSize then
    some { s with
      sender.position := position + size
      packingbuffer := blit s.packingbuffer 0 (deviceBytes device position size) }
  else none

def Packer.finish (p : Parameter) (s : Packer) (b : Build) (copied : List (Nat × UInt8)) :
    Packed :=
  let datagram := blit s.sender.datagram 6 (copied.map Prod.snd)
  let (sender, ok) := Sender.store p { s.sender with datagram } b
  let datagram := if ok then blit sender.datagram 0 (header b.index b.type) else sender.datagram
  ⟨{ s with sender := { sender with datagram } }, ok, copied.map Prod.fst⟩

/-- `build_datagram` with `MODE_34TH`, none if it leaves `packingbuffer`. -/
def buildDatagram34 (p : Parameter) (device : Nat → UInt8) (s : Packer) (b : Build) :
    Option Packed := do
  let s := { s with sender := s.sender.reset b.index }
  let pos := vsibBytePos p b.index
  let s ← s.readVsib device pos (u32 (2 * p.blockSize + 4))
  let copied ← pack34 s.packingbuffer p.blockSize pos 0
  some (s.finish p b copied)

def sentBy (p : Parameter) (device : Nat → UInt8) :
    Packer → List Build → Option (List (List UInt8 × List Nat))
  | _, [] => some []
  | s, b :: bs => do
    let packed ← buildDatagram34 p device s b
    let rest ← sentBy p device packed.packer bs
    some ((packed.packer.sender.payload p, packed.reads) :: rest)

-- ---------------------------------------------------------------------------
-- What packing promises
-- ---------------------------------------------------------------------------

def threeOfFour (device : Nat → UInt8) (q n : Nat) : List UInt8 :=
  (List.range n).map fun k => device (4 * ((q + k) / 3) + (q + k) % 3)

def fourthRemoved (device : Nat → UInt8) (n : Nat) : List UInt8 :=
  ((List.range n).filter fun i => i % 4 ≠ 3).map device

/-- No call leaves `packingbuffer`, each payload continues the one of the block before,
and the payloads of the blocks in order are the recording without every fourth
byte. -/
def Seamless (p : Parameter) (device : Nat → UInt8) (s : Packer) (bs : List Build) : Prop :=
  ∃ sent, sentBy p device s bs = some sent ∧
    List.Forall₂
      (fun b sent => sent.1 = threeOfFour device (p.blockSize * (b.index - 1)) p.blockSize ∧
      ∀ i ∈ sent.2, i < 2 * p.blockSize + 4) bs sent ∧
    ∀ n, bs.map Build.index = List.range' 1 n →
      (sent.map Prod.fst).flatten =
        fourthRemoved device (4 * (p.blockSize * n / 3) + p.blockSize * n % 3)

-- ---------------------------------------------------------------------------
-- The loop
-- ---------------------------------------------------------------------------

variable {p : Parameter} {device : Nat → UInt8} {s : Packer} {b : Build} {buf : List UInt8}

theorem pack34_in_buffer (h : pack34 buf n pos i = some copied) (hi : i ≤ buf.length) :
    i + n ≤ buf.length := by
  induction n generalizing pos i copied with
  | zero => exact hi
  | succ n ih =>
    rw [pack34] at h
    split at h
    · obtain ⟨byte, hbyte, h⟩ := Option.bind_eq_some_iff.mp h
      obtain ⟨rest, hrest, -⟩ := Option.bind_eq_some_iff.mp h
      obtain ⟨hlt, -⟩ := List.getElem?_eq_some_iff.mp hbyte
      have hle := ih hrest hlt
      omega
    · obtain ⟨byte, hbyte, h⟩ := Option.bind_eq_some_iff.mp h
      obtain ⟨rest, hrest, -⟩ := Option.bind_eq_some_iff.mp h
      obtain ⟨hlt, -⟩ := List.getElem?_eq_some_iff.mp hbyte
      have hle := ih hrest hlt
      omega

/-- From a place in the recording on, the loop copies the bytes that are kept, up
to what has been read. -/
theorem pack34_kept (hbuf : ∀ j < size, buf[j]? = some (device (start + j)))
    (hpos : v % 4 = (start + i) % 4) (hkept : skip 3 (start + i) = kept 3 q)
    (hread : kept 3 (q + n) ≤ start + size) :
    pack34 buf n v i = some ((List.range n).map fun k =>
      (kept 3 (q + k) - start, device (kept 3 (q + k)))) := by
  induction n generalizing v i q with
  | zero => rfl
  | succ n ih =>
    have hgrow : kept 3 q < kept 3 (q + (n + 1)) := kept_lt (by omega)
    have hnext : skip 3 (kept 3 q + 1) = kept 3 (q + 1) := (kept_succ (by decide) q).symm
    have hshift : q + (n + 1) = q + 1 + n := by omega
    have hlist : ∀ f : Nat → Nat × UInt8, (List.range (n + 1)).map (fun k => f (q + k)) =
        f q :: (List.range n).map fun k => f (q + 1 + k) := by
      intro f
      rw [List.range_succ_eq_map, List.map_cons, List.map_map]
      congr 2
      funext k
      rw [Function.comp, Nat.succ_eq_add_one]
      congr 1
      omega
    rw [hlist fun q => (kept 3 q - start, device (kept 3 q)), pack34]
    by_cases hdrop : Dropped 3 (start + i)
    · have hplace : kept 3 q = start + (i + 1) := by
        rw [← hkept, skip, if_pos hdrop, Nat.add_assoc]
      have hrest := ih (v := u64 (u64 (v + 1) + 1)) (i := i + 2) (q := q + 1)
        (by rw [u64, u64]; omega) (by rw [← hnext, hplace]; rfl) (by rw [← hshift]; exact hread)
      rw [if_pos (hpos.trans hdrop), hbuf (i + 1) (by omega), hrest, hplace,
        Nat.add_sub_cancel_left]
      rfl
    · have hplace : kept 3 q = start + i := by rw [← hkept, skip, if_neg hdrop]
      have hrest := ih (v := u64 (v + 1)) (i := i + 1) (q := q + 1)
        (by rw [u64]; omega) (by rw [← hnext, hplace]; rfl) (by rw [← hshift]; exact hread)
      rw [if_neg fun h => hdrop (hpos.symm.trans h), hbuf i (by omega), hrest, hplace,
        Nat.add_sub_cancel_left]
      rfl

-- ---------------------------------------------------------------------------
-- One call
-- ---------------------------------------------------------------------------

theorem threeOfFour_eq (device : Nat → UInt8) (q n : Nat) :
    threeOfFour device q n = (List.range n).map fun k => device (kept 3 (q + k)) := by
  simp only [threeOfFour, kept_split]

theorem vsibBytePos_eq (hfit : 2 * p.blockSize + 4 ≤ packingbufferSize) (h₁ : 1 ≤ i)
    (hlt : i < 2 ^ 32) : vsibBytePos p i = kept 3 (p.blockSize * (i - 1)) := by
  have hpred : u32 (i + (2 ^ 32 - 1)) = i - 1 := by
    rw [u32]
    omega
  have hsize : p.blockSize ≤ 2 ^ 16 := by
    rw [packingbufferSize, maxBlockSize] at hfit
    omega
  have hsent : p.blockSize * (i - 1) ≤ 2 ^ 16 * 2 ^ 32 := Nat.mul_le_mul hsize (by omega)
  rw [vsibBytePos, hpred, u64, kept, Nat.mod_eq_of_lt (by omega)]

@[simp] theorem store_datagram (p : Parameter) (s : Sender) (b : Build) :
    (s.store p b).1.datagram = s.datagram := by
  rw [Sender.store]
  split
  · cases b.fwrite <;> rfl
  · rfl

theorem reset_datagram (s : Sender) (i : Nat) : (s.reset i).datagram = s.datagram := by
  rw [Sender.reset]
  split <;> rfl

structure Roomy (p : Parameter) (s : Packer) : Prop where
  packingbuffer : s.packingbuffer.length = packingbufferSize
  datagram : 6 + p.blockSize ≤ s.sender.datagram.length

theorem Roomy.finish (hs : Roomy p s) (b : Build) (hlen : copied.length = p.blockSize) :
    Roomy p (s.finish p b copied).packer ∧
      (s.finish p b copied).packer.sender.payload p = copied.map Prod.snd := by
  let data := copied.map Prod.snd
  let datagram := blit s.sender.datagram 6 data
  have hdata : data.length = p.blockSize := (List.length_map ..).trans hlen
  have hroom := hs.datagram
  have hsix : 6 ≤ s.sender.datagram.length := Nat.le_trans (Nat.le_add_right ..) hroom
  have hlength : datagram.length = s.sender.datagram.length := length_blit (by omega)
  have hdatagram : (s.finish p b copied).packer.sender.datagram =
      if (Sender.store p { s.sender with datagram } b).2 then
        blit datagram 0 (header b.index b.type)
      else datagram := by
    simp only [Packer.finish, store_datagram]
    rfl
  rw [Sender.payload, hdatagram]
  split
  · refine ⟨⟨hs.packingbuffer, ?_⟩, ?_⟩
    · rw [hdatagram, if_pos ‹_›, length_blit (by rw [length_header]; omega), hlength]
      exact hroom
    · rw [blit_datagram hsix, List.drop_left' (length_header ..), ← hdata, List.take_left]
  · refine ⟨⟨hs.packingbuffer, ?_⟩, ?_⟩
    · rw [hdatagram, if_neg ‹_›, hlength]
      exact hroom
    · have htake : (s.sender.datagram.take 6).length = 6 := by simp [hsix]
      rw [show datagram = blit s.sender.datagram 6 data from rfl, blit, List.append_assoc,
        List.drop_left' htake, ← hdata, List.take_left]

theorem packingbuffer_get (device : Nat → UInt8) (position : Nat) (buf : List UInt8)
    (hj : j < size) :
    (blit buf 0 (deviceBytes device position size))[j]? = some (device (position + j)) := by
  have hlen : (deviceBytes device position size).length = size := length_deviceBytes ..
  rw [blit_getElem? (Nat.zero_le _), if_neg (Nat.not_lt_zero j), if_pos (by omega), Nat.sub_zero]
  simp [deviceBytes, hj]

theorem Roomy.readVsib (hs : Roomy p s) (device : Nat → UInt8) (vsibPos : Nat) (blockIndex : Nat)
    (hfit : size ≤ packingbufferSize) :
    Roomy p ⟨{ s.sender.reset blockIndex with position := vsibPos + size },
      blit s.packingbuffer 0 (deviceBytes device vsibPos size)⟩ := by
  have hlen : (deviceBytes device vsibPos size).length = size := length_deviceBytes ..
  refine ⟨?_, (congrArg List.length (reset_datagram ..)).symm ▸ hs.datagram⟩
  rw [length_blit (by rw [hlen, Nat.zero_add, hs.packingbuffer]; exact hfit), hs.packingbuffer]

theorem buildDatagram34_packed (device : Nat → UInt8)
    (hfit : 2 * p.blockSize + 4 ≤ packingbufferSize) (hs : Roomy p s) (h₁ : 1 ≤ b.index)
    (hlt : b.index < 2 ^ 32) :
    ∃ packed, buildDatagram34 p device s b = some packed ∧ Roomy p packed.packer ∧
      packed.packer.sender.payload p =
        threeOfFour device (p.blockSize * (b.index - 1)) p.blockSize ∧
      ∀ i ∈ packed.reads, i < 2 * p.blockSize + 4 := by
  let q := p.blockSize * (b.index - 1)
  let data := deviceBytes device (kept 3 q) (2 * p.blockSize + 4)
  have hasked : u32 (2 * p.blockSize + 4) = 2 * p.blockSize + 4 := by
    rw [packingbufferSize, maxBlockSize] at hfit
    exact u32_of_lt (by omega)
  have hbuf : ∀ j < 2 * p.blockSize + 4,
      (blit s.packingbuffer 0 data)[j]? = some (device (kept 3 q + j)) :=
    fun _ hj => packingbuffer_get device _ s.packingbuffer hj
  have hgrow : ∀ n, kept 3 (q + n) ≤ kept 3 q + 2 * n := kept_add_le (by decide) q
  have hcopied := pack34_kept (n := p.blockSize) (i := 0) hbuf rfl (skip_kept (by decide) q)
    (Nat.le_trans (hgrow _) (by omega))
  let s' : Packer := ⟨{ s.sender.reset b.index with
    position := kept 3 q + (2 * p.blockSize + 4) }, blit s.packingbuffer 0 data⟩
  have hread : ({ s with sender := s.sender.reset b.index } : Packer).readVsib device (kept 3 q)
      (2 * p.blockSize + 4) = some s' := if_pos hfit
  have hroomy : Roomy p s' := hs.readVsib device (kept 3 q) b.index hfit
  have hcount : ((List.range p.blockSize).map fun k =>
      (kept 3 (q + k) - kept 3 q, device (kept 3 (q + k)))).length = p.blockSize := by simp
  obtain ⟨hroomy, hpayload⟩ := hroomy.finish b hcount
  refine ⟨_, ?_, hroomy, hpayload.trans ?_, fun i hi => ?_⟩
  · rw [buildDatagram34, vsibBytePos_eq hfit h₁ hlt, hasked]
    exact Option.bind_eq_some_iff.mpr
      ⟨s', hread, Option.bind_eq_some_iff.mpr ⟨_, hcopied, rfl⟩⟩
  · rw [threeOfFour_eq, List.map_map]
    rfl
  · obtain ⟨k, hk, rfl⟩ : ∃ k < p.blockSize, kept 3 (q + k) - kept 3 q = i := by
      simpa [Packer.finish] using hi
    have hle := hgrow k
    omega

theorem fits_of_buildDatagram34 (hs : Roomy p s) (hbs : p.blockSize < 2 ^ 32)
    (h : buildDatagram34 p device s b = some packed) :
    2 * p.blockSize + 4 ≤ packingbufferSize := by
  obtain ⟨s', hread, h⟩ := Option.bind_eq_some_iff.mp h
  obtain ⟨copied, hcopied, -⟩ := Option.bind_eq_some_iff.mp h
  have hasked : u32 (2 * p.blockSize + 4) ≤ packingbufferSize := by
    by_contra hbig
    rw [Packer.readVsib, if_neg hbig] at hread
    cases hread
  rw [Packer.readVsib, if_pos hasked, Option.some_inj] at hread
  subst hread
  have hblock := pack34_in_buffer hcopied (Nat.zero_le _)
  rw [length_blit (by rw [length_deviceBytes, Nat.zero_add, hs.packingbuffer]; exact hasked),
    hs.packingbuffer] at hblock
  rw [packingbufferSize, maxBlockSize] at *
  rw [u32_of_lt (by omega)] at hasked
  exact hasked

-- ---------------------------------------------------------------------------
-- Every run
-- ---------------------------------------------------------------------------

theorem threeOfFour_append (device : Nat → UInt8) (q m n : Nat) :
    threeOfFour device q m ++ threeOfFour device (q + m) n = threeOfFour device q (m + n) := by
  simp only [threeOfFour_eq, List.range_add, List.map_append, List.map_map, Nat.add_assoc]
  rfl

theorem threeOfFour_start (device : Nat → UInt8) (m : Nat) :
    threeOfFour device 0 m = fourthRemoved device (4 * (m / 3) + m % 3) := by
  have hkept : ((List.range (4 * (m / 3) + m % 3)).filter fun i => i % 4 ≠ 3) =
      (List.range m).map (kept 3) := by
    rw [← filter_range_kept (by decide) m, kept_split]
    rfl
  rw [threeOfFour_eq, fourthRemoved, hkept, List.map_map]
  simp only [Nat.zero_add]
  rfl

theorem flatMap_threeOfFour (device : Nat → UInt8) (size n : Nat) :
    ((List.range' 1 n).flatMap fun i => threeOfFour device (size * (i - 1)) size) =
      threeOfFour device 0 (size * n) := by
  induction n with
  | zero => rfl
  | succ n ih =>
    have hnext := threeOfFour_append device 0 (size * n) size
    rw [Nat.zero_add] at hnext
    rw [List.range'_concat, List.flatMap_append, ih, Nat.mul_succ, ← hnext]
    simp

theorem sentBy_packed (device : Nat → UInt8) (hfit : 2 * p.blockSize + 4 ≤ packingbufferSize)
    (hs : Roomy p s) (hb : ∀ b ∈ bs, 1 ≤ b.index ∧ b.index < 2 ^ 32) :
    ∃ sent, sentBy p device s bs = some sent ∧ List.Forall₂ (fun b sent =>
      sent.1 = threeOfFour device (p.blockSize * (b.index - 1)) p.blockSize ∧
        ∀ i ∈ sent.2, i < 2 * p.blockSize + 4) bs sent := by
  induction bs generalizing s with
  | nil => exact ⟨[], rfl, .nil⟩
  | cons b bs ih =>
    obtain ⟨h₁, hlt⟩ := hb b List.mem_cons_self
    obtain ⟨packed, hpacked, hs', hsent⟩ := buildDatagram34_packed device hfit hs h₁ hlt
    obtain ⟨rest, hrest, hall⟩ := ih hs' fun c hc => hb c (List.mem_cons_of_mem _ hc)
    refine ⟨(packed.packer.sender.payload p, packed.reads) :: rest, ?_, .cons hsent hall⟩
    simp only [sentBy, hpacked, hrest, Option.bind_eq_bind, Option.bind_some]

/-- Packing is seamless exactly for the blocks of which twice as much fits into
the buffer as is asked for. -/
theorem packing_seamless_iff (hbs : p.blockSize < 2 ^ 32)
    (hbuf : s.packingbuffer.length = packingbufferSize)
    (hd : 6 + p.blockSize ≤ s.sender.datagram.length) (hne : bs ≠ [])
    (hb : ∀ b ∈ bs, 1 ≤ b.index ∧ b.index < 2 ^ 32) :
    Seamless p device s bs ↔ 2 * p.blockSize + 4 ≤ packingbufferSize := by
  have hs : Roomy p s := ⟨hbuf, hd⟩
  constructor
  · rintro ⟨sent, hsent, -, -⟩
    cases bs with
    | nil => exact absurd rfl hne
    | cons b bs =>
      obtain ⟨packed, hpacked, -⟩ := Option.bind_eq_some_iff.mp hsent
      exact fits_of_buildDatagram34 hs hbs hpacked
  · intro hfit
    obtain ⟨sent, hsent, hall⟩ := sentBy_packed device hfit hs hb
    refine ⟨sent, hsent, hall, fun n hn => ?_⟩
    have hpayloads : sent.map Prod.fst = bs.map fun b =>
        threeOfFour device (p.blockSize * (b.index - 1)) p.blockSize := by
      clear hsent hn hne hb
      induction hall with
      | nil => rfl
      | cons hone _ ih => rw [List.map_cons, List.map_cons, hone.1, ih]
    have hindex : (bs.map fun b => threeOfFour device (p.blockSize * (b.index - 1)) p.blockSize) =
        (bs.map Build.index).map fun i => threeOfFour device
          (p.blockSize * (i - 1)) p.blockSize := by
      rw [List.map_map]
      rfl
    rw [hpayloads, hindex, hn, ← List.flatMap_def, flatMap_threeOfFour, threeOfFour_start]

def packed5 : Parameter := ⟨5, 3, 15, false⟩

def emptyPacker : Packer :=
  ⟨⟨0, 0, 0, List.replicate (6 + maxBlockSize) 0, []⟩, List.replicate packingbufferSize 0⟩

theorem packing_seamless_iff_five : Seamless packed5 counting emptyPacker
    [⟨2, tsBlockOriginal, .whole⟩, ⟨1, tsBlockRetransmission, .whole⟩] := by
  have hroom : 6 + packed5.blockSize ≤ emptyPacker.sender.datagram.length := by
    rw [show emptyPacker.sender.datagram.length = 6 + maxBlockSize from List.length_replicate ..]
    decide
  exact (packing_seamless_iff (by decide) (List.length_replicate ..) hroom (by decide)
    (by decide)).mpr (by decide)

/-- The largest block that a client may ask for, read past the end of the
buffer. -/
theorem packing_largest_block :
    ¬Seamless ⟨maxBlockSize, 1, maxBlockSize, false⟩ counting emptyPacker
      [⟨1, tsBlockOriginal, .whole⟩] := by
  rintro ⟨sent, hsent, -, -⟩
  cases hsent

end Tsunami.Realtime
