import Tsunami.Realtime

/-!
# The Mark5 server

`build_datagram` of `mk5server/io.c` on `mk5_fseek` and `mk5_fread`: like a file
it is sought only for a block out of order, but a read of the device leaves the
descriptor at the address that it read from.
-/

namespace Tsunami.Mark5

open Bytes
open Realtime (deviceBytes length_deviceBytes)

/-- `S_READDESC`; the buffer address is an offset in the datagram. -/
structure ReadDesc where
  bufferAddr : Nat
  addrHi : Nat
  addrLo : Nat
  xferLength : Nat
  deriving DecidableEq, Repr

def ReadDesc.address (d : ReadDesc) : Nat := d.addrHi * 2 ^ 32 + d.addrLo

/-- `XLRRead` of the card: whether it succeeds, what goes to the buffer, and the
descriptor afterwards. -/
abbrev XLRRead := (Nat → UInt8) → ReadDesc → Bool × List UInt8 × ReadDesc

def ReadsDescribed (xlrRead : XLRRead) : Prop :=
  ∀ device desc, xlrRead device desc =
    (true, deviceBytes device desc.address desc.xferLength, desc)

/-- `mk5_fseek`. Where a call succeeds the offset is below `2 ^ 63`. -/
def mk5Fseek (stream : ReadDesc) (offset : Nat) : ReadDesc :=
  { stream with addrHi := offset / 2 ^ 32, addrLo := offset % 2 ^ 32 }

def mk5Fread (xlrRead : XLRRead) (device : Nat → UInt8) (stream : ReadDesc)
    (datagram : List UInt8) (ptr size nmemb : Nat) : Nat × ReadDesc × List UInt8 :=
  let stream := { stream with bufferAddr := ptr, xferLength := size * nmemb }
  let (_, data, stream) := xlrRead device stream
  (stream.xferLength, stream, blit datagram stream.bufferAddr data)

/-- The static variable, the descriptor of the stream and the datagram buffer. -/
structure Sender where
  lastBlock : Nat
  rdesc : ReadDesc
  datagram : List UInt8
  deriving DecidableEq, Repr

structure Build where
  index : Nat
  type : Nat
  deriving DecidableEq, Repr

/-- `build_datagram`: what it leaves behind, and whether it returned 0. The
length is taken for a status of 32 bits with a sign. -/
def buildDatagram (xlrRead : XLRRead) (blockSize : Nat) (device : Nat → UInt8) (s : Sender)
    (b : Build) : Sender × Bool :=
  let rdesc :=
    if b.index ≠ u32 (s.lastBlock + 1) then
      mk5Fseek s.rdesc (blockSize * u32 (b.index + (2 ^ 32 - 1)))
    else s.rdesc
  let (status, rdesc, datagram) := mk5Fread xlrRead device rdesc s.datagram 6 1 blockSize
  if 2 ^ 31 ≤ u32 status then ({ s with rdesc, datagram }, false)
  else (⟨b.index, rdesc, blit datagram 0 (header b.index b.type)⟩, true)

def opened (lastBlock : Nat) (datagram : List UInt8) : Sender :=
  ⟨lastBlock, ⟨0, 0, 0, 0⟩, datagram⟩

def Sender.payload (blockSize : Nat) (s : Sender) : List UInt8 :=
  (s.datagram.drop 6).take blockSize

/-- Every datagram of a run that is built carries its block. -/
def Right (xlrRead : XLRRead) (blockSize : Nat) (device : Nat → UInt8) :
    Sender → List Build → Prop
  | _, [] => True
  | s, b :: bs =>
    let (t, ok) := buildDatagram xlrRead blockSize device s b
    (ok → t.payload blockSize = deviceBytes device (blockSize * (b.index - 1)) blockSize) ∧
      Right xlrRead blockSize device t bs

def NeverNext : Nat → List Build → Prop
  | _, [] => True
  | last, b :: bs => b.index ≠ u32 (last + 1) ∧ NeverNext b.index bs

def AllSought (last : Nat) : List Build → Prop
  | [] => True
  | b :: bs => (b.index = 1 ∨ b.index ≠ u32 (last + 1)) ∧ NeverNext b.index bs

instance decidableNeverNext (last : Nat) : (bs : List Build) → Decidable (NeverNext last bs)
  | [] => .isTrue trivial
  | b :: bs =>
    have := decidableNeverNext b.index bs
    inferInstanceAs (Decidable (_ ∧ _))

instance (last : Nat) : (bs : List Build) → Decidable (AllSought last bs)
  | [] => .isTrue trivial
  | _ :: _ => inferInstanceAs (Decidable (_ ∧ _))

-- ---------------------------------------------------------------------------
-- One call
-- ---------------------------------------------------------------------------

variable {xlrRead : XLRRead} {blockSize : Nat} {device : Nat → UInt8} {s : Sender} {b : Build}
  {bs : List Build}

@[simp] theorem address_mk5Fseek (d : ReadDesc) (offset : Nat) :
    (mk5Fseek d offset).address = offset :=
  Nat.div_add_mod' ..

def readAt (blockSize : Nat) (s : Sender) (i : Nat) : Nat :=
  if i ≠ u32 (s.lastBlock + 1) then blockSize * u32 (i + (2 ^ 32 - 1)) else s.rdesc.address

structure At (blockSize i : Nat) (s : Sender) : Prop where
  address : s.rdesc.address = blockSize * (i - 1)
  lastBlock : s.lastBlock = i
  room : 6 + blockSize ≤ s.datagram.length

structure Built (blockSize : Nat) (device : Nat → UInt8) (place : Nat) (b : Build) (t : Sender) :
    Prop where
  payload : t.payload blockSize = deviceBytes device place blockSize
  address : t.rdesc.address = place
  lastBlock : t.lastBlock = b.index
  room : 6 + blockSize ≤ t.datagram.length

theorem buildDatagram_built (hx : ReadsDescribed xlrRead) (hsize : blockSize < 2 ^ 31)
    (device : Nat → UInt8) (hd : 6 + blockSize ≤ s.datagram.length) :
    ∃ t, buildDatagram xlrRead blockSize device s b = (t, true) ∧
      Built blockSize device (readAt blockSize s b.index) b t := by
  let place := readAt blockSize s b.index
  let rdesc := if b.index ≠ u32 (s.lastBlock + 1) then
    mk5Fseek s.rdesc (blockSize * u32 (b.index + (2 ^ 32 - 1))) else s.rdesc
  have haddress : rdesc.address = place := by
    simp only [rdesc, place, readAt]
    split
    · exact address_mk5Fseek ..
    · rfl
  let data := deviceBytes device place blockSize
  have hlen : data.length = blockSize := length_deviceBytes ..
  have hread : mk5Fread xlrRead device rdesc s.datagram 6 1 blockSize =
      (blockSize, { rdesc with bufferAddr := 6, xferLength := blockSize },
        blit s.datagram 6 data) := by
    rw [mk5Fread, hx, Nat.one_mul]
    simp only [ReadDesc.address] at haddress ⊢
    rw [haddress]
  have hstatus : ¬2 ^ 31 ≤ u32 blockSize := by
    rw [u32_of_lt (by omega)]
    omega
  have hsix : 6 ≤ s.datagram.length := by omega
  refine ⟨⟨b.index, { rdesc with bufferAddr := 6, xferLength := blockSize },
    blit (blit s.datagram 6 data) 0 (header b.index b.type)⟩, ?_, ?_, haddress, rfl, ?_⟩
  · rw [buildDatagram, hread]
    exact if_neg hstatus
  · rw [Sender.payload, blit_datagram hsix, List.drop_left' (length_header ..), ← hlen,
      List.take_left, hlen]
  · have hinner : (blit s.datagram 6 data).length = s.datagram.length := length_blit (by omega)
    rw [length_blit (by rw [length_header]; omega), hinner]
    exact hd

theorem readAt_sought (blockSize : Nat) (h₁ : 1 ≤ i) (hlt : i < 2 ^ 32)
    (hne : i ≠ u32 (s.lastBlock + 1)) :
    readAt blockSize s i = blockSize * (i - 1) := by
  have hpred : u32 (i + (2 ^ 32 - 1)) = i - 1 := by
    rw [u32]
    omega
  rw [readAt, if_pos hne, hpred]

/-- The block that follows is not sought: it is read where the last one was. -/
theorem readAt_next (hi : i = u32 (s.lastBlock + 1)) : readAt blockSize s i = s.rdesc.address :=
  if_neg (not_not.mpr hi)

theorem Built.at (h : Built blockSize device (blockSize * (b.index - 1)) b t) :
    At blockSize b.index t :=
  ⟨h.address, h.lastBlock, h.room⟩

theorem deviceBytes_ne (hsize : 1 ≤ size) (hne : place ≠ place') :
    ∃ device, deviceBytes device place size ≠ deviceBytes device place' size := by
  obtain ⟨n, rfl⟩ : ∃ n, size = n + 1 := ⟨size - 1, by omega⟩
  refine ⟨fun i => if i = place then 1 else 0, fun heq => ?_⟩
  have hhead := congrArg List.head? heq
  simp [deviceBytes, List.range_succ_eq_map, hne.symm] at hhead

-- ---------------------------------------------------------------------------
-- Every run
-- ---------------------------------------------------------------------------

theorem right_cons (hx : ReadsDescribed xlrRead) (device : Nat → UInt8) (b : Build)
    (bs : List Build) (hsize : blockSize < 2 ^ 31)
    (hd : 6 + blockSize ≤ s.datagram.length) :
    ∃ t, Built blockSize device (readAt blockSize s b.index) b t ∧
      (Right xlrRead blockSize device s (b :: bs) ↔
        deviceBytes device (readAt blockSize s b.index) blockSize =
            deviceBytes device (blockSize * (b.index - 1)) blockSize ∧
          Right xlrRead blockSize device t bs) := by
  obtain ⟨t, hbuild, hbuilt⟩ := buildDatagram_built (b := b) hx hsize device hd
  refine ⟨t, hbuilt, ?_⟩
  rw [Right, hbuild, ← hbuilt.payload]
  exact and_congr_left' ⟨fun h => h rfl, fun h _ => h⟩

theorem right_cons_placed (hx : ReadsDescribed xlrRead) (device : Nat → UInt8)
    (bs : List Build) (hsize : blockSize < 2 ^ 31)
    (hd : 6 + blockSize ≤ s.datagram.length)
    (hplace : readAt blockSize s b.index = blockSize * (b.index - 1)) :
    ∃ t, At blockSize b.index t ∧
      (Right xlrRead blockSize device s (b :: bs) ↔ Right xlrRead blockSize device t bs) := by
  obtain ⟨t, hbuilt, hright⟩ := right_cons hx device b bs hsize hd
  rw [hplace] at hbuilt hright
  exact ⟨t, hbuilt.at, hright.trans ⟨fun h => h.2, fun h => ⟨rfl, h⟩⟩⟩

theorem not_right_cons (hx : ReadsDescribed xlrRead) (bs : List Build) (hpos : 1 ≤ blockSize)
    (hsize : blockSize < 2 ^ 31) (hplace : place ≠ blockSize * (b.index - 1)) :
    ∃ device, ∀ s : Sender, 6 + blockSize ≤ s.datagram.length →
      readAt blockSize s b.index = place → ¬Right xlrRead blockSize device s (b :: bs) := by
  obtain ⟨device, hdevice⟩ := deviceBytes_ne hpos hplace
  refine ⟨device, fun s hd hread h => ?_⟩
  obtain ⟨t, -, hright⟩ := right_cons hx device b bs hsize hd
  have hsame := (hright.mp h).1
  rw [hread] at hsame
  exact hdevice hsame

theorem At.right (hx : ReadsDescribed xlrRead) (hsize : blockSize < 2 ^ 31)
    (hb : ∀ b ∈ bs, 1 ≤ b.index ∧ b.index < 2 ^ 32) (hs : At blockSize i s)
    (hnever : NeverNext i bs) : Right xlrRead blockSize device s bs := by
  induction bs generalizing s i with
  | nil => trivial
  | cons b bs ih =>
    obtain ⟨hne, hrest⟩ := hnever
    obtain ⟨h₁, hlt⟩ := hb b List.mem_cons_self
    have hplace := readAt_sought blockSize h₁ hlt (hs.lastBlock.symm ▸ hne)
    obtain ⟨t, ht, hright⟩ := right_cons_placed hx device bs hsize hs.room hplace
    exact hright.mpr (ih (fun c hc => hb c (List.mem_cons_of_mem _ hc)) ht hrest)

theorem At.not_right (hx : ReadsDescribed xlrRead) (hpos : 1 ≤ blockSize)
    (hsize : blockSize < 2 ^ 31) (hb : ∀ b ∈ bs, 1 ≤ b.index ∧ b.index < 2 ^ 32)
    (h₁ : 1 ≤ i) (hi : i < 2 ^ 32) (hnext : ¬NeverNext i bs) :
    ∃ device, ∀ s, At blockSize i s → ¬Right xlrRead blockSize device s bs := by
  induction bs generalizing i with
  | nil => exact absurd trivial hnext
  | cons b bs ih =>
    obtain ⟨hb₁, hlt⟩ := hb b List.mem_cons_self
    by_cases hne : b.index = u32 (i + 1)
    · have hindex : b.index = i + 1 := by
        rw [u32] at hne
        omega
      have hplace : blockSize * (i - 1) ≠ blockSize * (b.index - 1) := by
        rw [hindex]
        exact fun h => by
          have := Nat.eq_of_mul_eq_mul_left hpos h
          omega
      obtain ⟨device, hdevice⟩ := not_right_cons hx bs hpos hsize hplace
      refine ⟨device, fun s hs => hdevice s hs.room ?_⟩
      rw [readAt_next (hs.lastBlock.symm ▸ hne), hs.address]
    · obtain ⟨device, hdevice⟩ := ih (fun c hc => hb c (List.mem_cons_of_mem _ hc)) hb₁ hlt
        fun h => hnext ⟨hne, h⟩
      refine ⟨device, fun s hs => ?_⟩
      have hplace := readAt_sought blockSize hb₁ hlt (hs.lastBlock.symm ▸ hne)
      obtain ⟨t, ht, hright⟩ :=
        right_cons_placed hx device bs hsize hs.room hplace
      exact fun h => hdevice t ht (hright.mp h)

theorem right_of_negative (hx : ReadsDescribed xlrRead) (hsize : 2 ^ 31 ≤ blockSize)
    (hlt : blockSize < 2 ^ 32) : Right xlrRead blockSize device s bs := by
  induction bs generalizing s with
  | nil => trivial
  | cons b bs ih =>
    have hstatus : (buildDatagram xlrRead blockSize device s b).2 = false := by
      simp only [buildDatagram, mk5Fread, hx _ _, Nat.one_mul, u32_of_lt hlt, if_pos hsize]
    exact ⟨fun h => absurd (hstatus ▸ h) Bool.false_ne_true, ih⟩

theorem right_of_empty (xlrRead : XLRRead) (s : Sender) (bs : List Build) :
    Right xlrRead 0 device s bs := by
  induction bs generalizing s with
  | nil => trivial
  | cons b bs ih =>
    refine ⟨fun _ => ?_, ih _⟩
    rw [Sender.payload, List.take_zero]
    rfl

theorem right_iff_of_placed (hx : ReadsDescribed xlrRead) (hpos : 1 ≤ blockSize)
    (hsize : blockSize < 2 ^ 31) (hd : 6 + blockSize ≤ datagram.length)
    (hb : ∀ c ∈ b :: bs, 1 ≤ c.index ∧ c.index < 2 ^ 32)
    (hplace : readAt blockSize (opened last datagram) b.index = blockSize * (b.index - 1)) :
    (∀ device, Right xlrRead blockSize device (opened last datagram) (b :: bs)) ↔
      NeverNext b.index bs := by
  obtain ⟨h₁, hlt⟩ := hb b List.mem_cons_self
  have hlater : ∀ c ∈ bs, 1 ≤ c.index ∧ c.index < 2 ^ 32 :=
    fun c hc => hb c (List.mem_cons_of_mem _ hc)
  have hgoes := fun device => right_cons_placed (s := opened last datagram) hx device bs hsize hd
    hplace
  constructor
  · intro h
    by_contra hnever
    obtain ⟨device, hdevice⟩ := At.not_right hx hpos hsize hlater h₁ hlt hnever
    obtain ⟨t, ht, hright⟩ := hgoes device
    exact hdevice t ht (hright.mp (h device))
  · intro h device
    obtain ⟨t, ht, hright⟩ := hgoes device
    exact hright.mpr (ht.right hx hsize hlater h)

theorem readAt_opened (h₁ : 1 ≤ i) (hlt : i < 2 ^ 32) (hfirst : i = 1 ∨ i ≠ u32 (last + 1)) :
    readAt blockSize (opened last datagram) i = blockSize * (i - 1) := by
  by_cases hnext : i = u32 (last + 1)
  · rw [readAt_next hnext, hfirst.resolve_right (not_not.mpr hnext)]
    simp [opened, ReadDesc.address]
  · exact readAt_sought blockSize h₁ hlt hnext

theorem not_right_of_unsought (hx : ReadsDescribed xlrRead) (bs : List Build)
    (hpos : 1 ≤ blockSize) (hsize : blockSize < 2 ^ 31) (hd : 6 + blockSize ≤ datagram.length)
    (h₁ : 1 ≤ b.index) (hfirst : ¬(b.index = 1 ∨ b.index ≠ u32 (last + 1))) :
    ¬∀ device, Right xlrRead blockSize device (opened last datagram) (b :: bs) := by
  intro h
  obtain ⟨hone, hnext⟩ := not_or.mp hfirst
  have hplace : (0 : Nat) ≠ blockSize * (b.index - 1) := (Nat.mul_pos hpos (by omega)).ne
  obtain ⟨device, hdevice⟩ := not_right_cons hx bs hpos hsize hplace
  have haddress : (opened last datagram).rdesc.address = 0 := by simp [opened, ReadDesc.address]
  exact hdevice _ hd ((readAt_next (not_not.mp hnext)).trans haddress) (h device)

/-- On every device the datagrams that are built are right exactly if there is
nothing in a block, or none is built for the block behind the one of the call
before. -/
theorem mark5_right_iff (hx : ReadsDescribed xlrRead) (hsize : blockSize < 2 ^ 32)
    (hd : 6 + blockSize ≤ datagram.length)
    (hb : ∀ b ∈ bs, 1 ≤ b.index ∧ b.index < 2 ^ 32) :
    (∀ device, Right xlrRead blockSize device (opened last datagram) bs) ↔
      blockSize = 0 ∨ 2 ^ 31 ≤ blockSize ∨ AllSought last bs := by
  by_cases hbig : 2 ^ 31 ≤ blockSize
  · exact iff_of_true (fun _ => right_of_negative hx hbig hsize) (.inr (.inl hbig))
  by_cases hempty : blockSize = 0
  · subst hempty
    exact iff_of_true (fun _ => right_of_empty ..) (.inl rfl)
  have hfits : blockSize < 2 ^ 31 := Nat.lt_of_not_le hbig
  have hpos : 1 ≤ blockSize := Nat.one_le_iff_ne_zero.mpr hempty
  rw [or_iff_right hempty, or_iff_right hbig]
  cases bs with
  | nil => exact iff_of_true (fun _ => trivial) trivial
  | cons b bs =>
    obtain ⟨h₁, hlt⟩ := hb b List.mem_cons_self
    by_cases hfirst : b.index = 1 ∨ b.index ≠ u32 (last + 1)
    · rw [right_iff_of_placed hx hpos hfits hd hb (readAt_opened h₁ hlt hfirst)]
      exact (and_iff_right hfirst).symm
    · refine iff_of_false (not_right_of_unsought hx bs hpos hfits hd h₁ hfirst) ?_
      rintro ⟨hplaced, -⟩
      exact hfirst hplaced

def readCard : XLRRead := fun device desc =>
  (true, deviceBytes device desc.address desc.xferLength, desc)

theorem readsDescribed_readCard : ReadsDescribed readCard := fun _ _ => rfl

theorem mark5_right_iff_out_of_order :
    Right readCard 2 Realtime.counting (opened 0 (List.replicate 8 0))
      [⟨1, tsBlockOriginal⟩, ⟨3, tsBlockOriginal⟩, ⟨1, tsBlockRetransmission⟩] :=
  (mark5_right_iff readsDescribed_readCard (by decide) (by decide) (by decide)).mpr (by decide) _

/-- Block 2 after block 1 carries the bytes of block 1. -/
theorem block_two_repeats_one :
    ¬Right readCard 2 Realtime.counting (opened 0 (List.replicate 8 0))
        [⟨1, tsBlockOriginal⟩, ⟨2, tsBlockOriginal⟩] ∧
      ([⟨1, tsBlockOriginal⟩, ⟨2, tsBlockOriginal⟩].foldl
        (fun s b => (buildDatagram readCard 2 Realtime.counting s b).1)
        (opened 0 (List.replicate 8 0))).payload 2 = [0, 1] := by
  refine ⟨?_, by decide +kernel⟩
  rintro ⟨-, hpayload, -⟩
  exact absurd (hpayload (by decide +kernel)) (by decide +kernel)

end Tsunami.Mark5
