import Tsunami.Blocks

/-!
# The realtime server

`build_datagram` of `rtserver/io.c`, without `MODE_34TH`: it reads from the
VSIB device, here a source of bytes that can be sought, and may keep a local
backup of the blocks it comes by in order.
-/

namespace Tsunami.Realtime

open Bytes

structure Parameter where
  blockSize : Nat
  blockCount : Nat
  fileSize : Nat
  fileout : Bool

/-- The position of the device, the two static variables, the datagram buffer
and the local backup. -/
structure Sender where
  position : Nat
  lastBlock : Nat
  lastWrittenVsibBlock : Nat
  datagram : List UInt8
  file : List UInt8
  deriving DecidableEq, Repr

inductive Fwrite
  | whole
  | short (written : Nat)
  deriving DecidableEq, Repr

structure Build where
  index : Nat
  type : Nat
  fwrite : Fwrite
  deriving DecidableEq, Repr

def deviceBytes (device : Nat → UInt8) (offset size : Nat) : List UInt8 :=
  (List.range size).map fun i => device (offset + i)

def writeSize (p : Parameter) (blockIndex : Nat) : Nat :=
  let size := if blockIndex = p.blockCount then p.fileSize % p.blockSize else p.blockSize
  if size = 0 then p.blockSize else size

/-- Statics afresh for the first block, so that the next transfer works too. -/
def Sender.reset (s : Sender) (blockIndex : Nat) : Sender :=
  if blockIndex = 1 then { s with lastWrittenVsibBlock := 0, lastBlock := 0 } else s

/-- `last_block` is not set again: that line is commented out. -/
def Sender.readVsib (p : Parameter) (device : Nat → UInt8) (s : Sender)
    (blockIndex : Nat) : Sender :=
  let position :=
    if blockIndex ≠ u32 (s.lastBlock + 1) then p.blockSize * u32 (blockIndex + (2 ^ 32 - 1))
    else s.position
  { s with
    position := position + p.blockSize
    datagram := blit s.datagram 6 (deviceBytes device position p.blockSize) }

def Sender.store (p : Parameter) (s : Sender) (b : Build) : Sender × Bool :=
  if p.fileout ∧ b.index ≠ 0 ∧ b.index = u32 (s.lastWrittenVsibBlock + 1) then
    let data := (s.datagram.drop 6).take (writeSize p b.index)
    let s := { s with lastWrittenVsibBlock := u32 (s.lastWrittenVsibBlock + 1) }
    match b.fwrite with
    | .whole => ({ s with file := s.file ++ data }, true)
    | .short written =>
        ({ s with file := s.file ++ data.take (min written (writeSize p b.index - 1)) }, false)
  else (s, true)

/-- `build_datagram`: what it leaves behind, and whether it returned 0. -/
def buildDatagram (p : Parameter) (device : Nat → UInt8) (s : Sender) (b : Build) : Sender × Bool :=
  let (s, ok) := ((s.reset b.index).readVsib p device b.index).store p b
  if ok then ({ s with datagram := blit s.datagram 0 (header b.index b.type) }, true)
  else (s, false)

def Sender.payload (p : Parameter) (s : Sender) : List UInt8 := (s.datagram.drop 6).take p.blockSize

-- ---------------------------------------------------------------------------
-- What a transfer promises
-- ---------------------------------------------------------------------------

/-- The first `m` blocks of the recording, the last cut to the file length. -/
def backup (p : Parameter) (device : Nat → UInt8) (m : Nat) : List UInt8 :=
  (List.range' 1 m).flatMap fun b => deviceBytes device (p.blockSize * (b - 1)) (writeSize p b)

/-- From a state with `m` blocks in the backup on: every datagram carries its
block, and the backup holds the first blocks of the recording, one more whenever
the next one is built. -/
def Faithful (p : Parameter) (device : Nat → UInt8) : Nat → Sender → List Build → Prop
  | _, _, [] => True
  | m, s, b :: bs =>
    let t := (buildDatagram p device s b).1
    t.payload p = deviceBytes device (p.blockSize * (b.index - 1)) p.blockSize ∧
      ∃ m', m ≤ m' ∧ (b.index = m + 1 → m < m') ∧ (p.fileout → t.file = backup p device m') ∧
        Faithful p device m' t bs

-- ---------------------------------------------------------------------------
-- One call
-- ---------------------------------------------------------------------------

variable {p : Parameter} {device : Nat → UInt8} {s : Sender} {b : Build} {m : Nat}

@[simp] theorem length_deviceBytes (device : Nat → UInt8) (offset size : Nat) :
    (deviceBytes device offset size).length = size := by
  simp [deviceBytes]

theorem take_deviceBytes (h : n ≤ size) :
    (deviceBytes device offset size).take n = deviceBytes device offset n := by
  rw [deviceBytes, ← List.map_take, List.take_range, Nat.min_eq_left h, deviceBytes]

theorem writeSize_le (hp : 1 ≤ p.blockSize) (b : Nat) : writeSize p b ≤ p.blockSize := by
  have hmod := Nat.mod_lt p.fileSize hp
  simp only [writeSize]
  split <;> split <;> omega

theorem writeSize_last (p : Parameter) :
    writeSize p p.blockCount = lastSize p.fileSize p.blockSize := by
  simp only [writeSize, lastSize, if_true]

theorem backup_ends (hp : 1 ≤ p.blockSize) (hf : 0 < p.fileSize)
    (hc : p.blockCount = wholeCount p.fileSize p.blockSize) :
    p.blockSize * (p.blockCount - 1) + writeSize p p.blockCount = p.fileSize := by
  rw [writeSize_last, hc]
  exact (wholeCount_spec hp hf).2

theorem backup_succ (p : Parameter) (device : Nat → UInt8) (m : Nat) :
    backup p device (m + 1) =
      backup p device m ++ deviceBytes device (p.blockSize * m) (writeSize p (m + 1)) := by
  rw [backup, backup, List.range'_concat, List.flatMap_append]
  simp [Nat.add_comm]

def readAt (p : Parameter) (s : Sender) (b : Nat) : Nat :=
  if b = 1 then s.position
  else if b ≠ u32 (s.lastBlock + 1) then p.blockSize * u32 (b + (2 ^ 32 - 1)) else s.position

theorem readVsib_reset (p : Parameter) (device : Nat → UInt8) (s : Sender) (b : Nat) :
    (s.reset b).readVsib p device b = { s.reset b with
      position := readAt p s b + p.blockSize
      datagram := blit s.datagram 6 (deviceBytes device (readAt p s b) p.blockSize) } := by
  simp only [Sender.readVsib, Sender.reset, readAt]
  split
  · rename_i hone
    have hnext : ¬ b ≠ u32 (0 + 1) := not_not.mpr hone
    simp only [if_neg hnext]
  · rfl

def NextInBackup (p : Parameter) (s : Sender) (b : Nat) : Prop :=
  p.fileout ∧ b ≠ 0 ∧ b = u32 ((s.reset b).lastWrittenVsibBlock + 1)

instance (p : Parameter) (s : Sender) (b : Nat) : Decidable (NextInBackup p s b) :=
  inferInstanceAs (Decidable (_ ∧ _))

theorem reset_file (s : Sender) (b : Nat) : (s.reset b).file = s.file := by
  rw [Sender.reset]
  split <;> rfl

theorem buildDatagram_stored (hw : b.fwrite = .whole) (hnext : NextInBackup p s b.index) :
    let buf := blit s.datagram 6 (deviceBytes device (readAt p s b.index) p.blockSize)
    (buildDatagram p device s b).1 = { s.reset b.index with
      position := readAt p s b.index + p.blockSize
      lastWrittenVsibBlock := b.index
      datagram := blit buf 0 (header b.index b.type)
      file := s.file ++ (buf.drop 6).take (writeSize p b.index) } := by
  have hcond : p.fileout = true ∧ b.index ≠ 0 ∧
      b.index = u32 ((s.reset b.index).lastWrittenVsibBlock + 1) := hnext
  simp only [buildDatagram, readVsib_reset, Sender.store, if_pos hcond, hw, if_true, reset_file]
  rw [← hcond.2.2]

theorem buildDatagram_kept (hnext : ¬ NextInBackup p s b.index) :
    (buildDatagram p device s b).1 = { s.reset b.index with
      position := readAt p s b.index + p.blockSize
      datagram := blit (blit s.datagram 6 (deviceBytes device (readAt p s b.index) p.blockSize)) 0
        (header b.index b.type) } := by
  have hcond : ¬ (p.fileout = true ∧ b.index ≠ 0 ∧
      b.index = u32 ((s.reset b.index).lastWrittenVsibBlock + 1)) := hnext
  simp only [buildDatagram, readVsib_reset, Sender.store, if_neg hcond, if_true]

structure Built (p : Parameter) (device : Nat → UInt8) (s : Sender) (b : Nat)
    (t : Sender) : Prop where
  payload : t.payload p = deviceBytes device (readAt p s b) p.blockSize
  position : t.position = readAt p s b + p.blockSize
  lastBlock : t.lastBlock = (s.reset b).lastBlock
  datagram : 6 ≤ t.datagram.length
  stored : NextInBackup p s b → t.lastWrittenVsibBlock = b ∧
    t.file = s.file ++ deviceBytes device (readAt p s b) (writeSize p b)
  kept : ¬ NextInBackup p s b → t.lastWrittenVsibBlock = (s.reset b).lastWrittenVsibBlock ∧
    t.file = s.file

theorem buildDatagram_built (device : Nat → UInt8) (hp : 1 ≤ p.blockSize)
    (hd : 6 ≤ s.datagram.length) (hw : b.fwrite = .whole) :
    Built p device s b.index (buildDatagram p device s b).1 := by
  let data := deviceBytes device (readAt p s b.index) p.blockSize
  have hblit : blit (blit s.datagram 6 data) 0 (header b.index b.type) =
      header b.index b.type ++ (data ++ s.datagram.drop (6 + data.length)) := blit_datagram hd ..
  have hinner : (blit s.datagram 6 data).drop 6 = data ++ s.datagram.drop (6 + data.length) := by
    rw [blit, List.append_assoc, List.drop_left' (by simp [hd])]
  have hlen : data.length = p.blockSize := length_deviceBytes ..
  have hpayload :
      ((header b.index b.type ++ (data ++ s.datagram.drop (6 + data.length))).drop 6).take
      p.blockSize = data := by
    rw [List.drop_left' (length_header ..), ← hlen, List.take_left]
  have hsix :
      6 ≤ (header b.index b.type ++ (data ++ s.datagram.drop (6 + data.length))).length := by
    rw [List.length_append, length_header]
    exact Nat.le_add_right ..
  have hsize := writeSize_le hp b.index
  have hwrite : ((blit s.datagram 6 data).drop 6).take (writeSize p b.index) =
      deviceBytes device (readAt p s b.index) (writeSize p b.index) := by
    rw [hinner, List.take_append_of_le_length (by omega), take_deviceBytes hsize]
  by_cases hnext : NextInBackup p s b.index
  · rw [buildDatagram_stored hw hnext]
    refine ⟨hblit ▸ hpayload, rfl, rfl, hblit ▸ hsix, fun _ => ⟨rfl, ?_⟩, fun h => absurd hnext h⟩
    exact congrArg _ hwrite
  · rw [buildDatagram_kept hnext]
    exact ⟨hblit ▸ hpayload, rfl, rfl, hblit ▸ hsix, fun h => absurd h hnext,
      fun _ => ⟨rfl, reset_file ..⟩⟩

-- ---------------------------------------------------------------------------
-- Every transfer
-- ---------------------------------------------------------------------------

/-- After block 1: every later block is sought, and the backup is in step. -/
structure InStep (p : Parameter) (device : Nat → UInt8) (m : Nat) (s : Sender) : Prop where
  lastBlock : s.lastBlock = 0
  datagram : 6 ≤ s.datagram.length
  written : p.fileout → s.lastWrittenVsibBlock = m ∧ s.file = backup p device m
  le : m ≤ p.blockCount

theorem readAt_later {b : Nat} (hs : s.lastBlock = 0) (h₁ : 1 ≤ b) (hlt : b < 2 ^ 32)
    (hne : b ≠ 1) :
    readAt p s b = p.blockSize * (b - 1) := by
  have hseek : b ≠ u32 (0 + 1) := hne
  have hpred : u32 (b + (2 ^ 32 - 1)) = b - 1 := by
    rw [u32]
    omega
  rw [readAt, if_neg hne, hs, if_pos hseek, hpred]

theorem InStep.build (h : InStep p device m s) (hp : 1 ≤ p.blockSize) (hn : p.blockCount < 2 ^ 32)
    (h₁ : 1 ≤ b.index) (hb : b.index ≤ p.blockCount) (hne : b.index ≠ 1) (hw : b.fwrite = .whole) :
    (buildDatagram p device s b).1.payload p =
        deviceBytes device (p.blockSize * (b.index - 1)) p.blockSize ∧
      InStep p device (if b.index = m + 1 then m + 1 else m) (buildDatagram p device s b).1 := by
  have hle := h.le
  have hbuilt := buildDatagram_built device hp h.datagram hw
  have hread := readAt_later (p := p) h.lastBlock h₁ (by omega) hne
  have hreset : s.reset b.index = s := if_neg hne
  refine ⟨hread ▸ hbuilt.payload, ?_, hbuilt.datagram, fun hout => ?_, ?_⟩
  · rw [hbuilt.lastBlock, hreset, h.lastBlock]
  · obtain ⟨hlast, hfile⟩ := h.written hout
    have hnext : b.index = u32 (s.lastWrittenVsibBlock + 1) ↔ b.index = m + 1 := by
      rw [hlast, u32]
      omega
    by_cases heq : b.index = m + 1
    · obtain ⟨hw, hf⟩ := hbuilt.stored ⟨hout, by omega, by rw [hreset]; exact hnext.mpr heq⟩
      rw [if_pos heq, hw, hf, hfile, hread, backup_succ, heq, Nat.add_sub_cancel]
      exact ⟨rfl, rfl⟩
    · obtain ⟨hw, hf⟩ := hbuilt.kept fun hin => heq (hnext.mp (hreset ▸ hin.2.2))
      rw [if_neg heq, hw, hf, hreset]
      exact ⟨hlast, hfile⟩
  · split
    · omega
    · exact hle

theorem InStep.faithful (h : InStep p device m s) (hp : 1 ≤ p.blockSize)
    (hn : p.blockCount < 2 ^ 32)
    (hb : ∀ b ∈ bs, 1 ≤ b.index ∧ b.index ≤ p.blockCount ∧ b.fwrite = .whole)
    (hne : ∀ b ∈ bs, b.index ≠ 1) : Faithful p device m s bs := by
  induction bs generalizing m s with
  | nil => trivial
  | cons b bs ih =>
    obtain ⟨h₁, hle, hw⟩ := hb b List.mem_cons_self
    obtain ⟨hpayload, hstep⟩ := h.build hp hn h₁ hle (hne b List.mem_cons_self) hw
    refine ⟨hpayload, _, ?_, ?_, fun hout => (hstep.written hout).2,
      ih hstep (fun c hc => hb c (List.mem_cons_of_mem _ hc)) fun c hc =>
        hne c (List.mem_cons_of_mem _ hc)⟩
    · split <;> omega
    · intro heq
      rw [if_pos heq]
      omega

/-- Block 1 is built first. The static variables may be as a transfer before
left them. -/
theorem first_inStep (device : Nat → UInt8) (hp : 1 ≤ p.blockSize) (hc : 1 ≤ p.blockCount)
    (hd : 6 ≤ s.datagram.length) (hpos : s.position = 0) (hfile : s.file = [])
    (hfirst : b.index = 1) (hw : b.fwrite = .whole) :
    (buildDatagram p device s b).1.payload p =
        deviceBytes device (p.blockSize * (b.index - 1)) p.blockSize ∧
      InStep p device 1 (buildDatagram p device s b).1 := by
  have hbuilt := buildDatagram_built device hp hd hw
  have hread : readAt p s b.index = 0 := by rw [readAt, if_pos hfirst, hpos]
  have hreset : s.reset b.index = { s with lastWrittenVsibBlock := 0, lastBlock := 0 } :=
    if_pos hfirst
  refine ⟨?_, ?_, hbuilt.datagram, fun hout => ?_, hc⟩
  · rw [hbuilt.payload, hread, hfirst, Nat.sub_self, Nat.mul_zero]
  · rw [hbuilt.lastBlock, hreset]
  · obtain ⟨hw, hf⟩ := hbuilt.stored ⟨hout, by omega, by rw [hreset, hfirst]; rfl⟩
    rw [hw, hf, hfile, hread, hfirst]
    exact ⟨rfl, by simp [backup]⟩

def marked (i : Nat) : UInt8 := if i = 0 then 1 else 0

theorem deviceBytes_marked_ne (hp : 1 ≤ size) (hpos : 1 ≤ position) :
    deviceBytes marked position size ≠ deviceBytes marked 0 size := by
  obtain ⟨n, rfl⟩ : ∃ n, size = n + 1 := ⟨size - 1, by omega⟩
  intro heq
  have hhead := congrArg List.head? heq
  have hne : ¬ position = 0 := by omega
  simp [deviceBytes, List.range_succ_eq_map, marked, hne] at hhead

theorem Faithful.no_first (h : Faithful p marked m s bs) (hp : 1 ≤ p.blockSize)
    (hd : 6 ≤ s.datagram.length) (hpos : 1 ≤ s.position) (hw : ∀ b ∈ bs, b.fwrite = .whole) :
    ∀ b ∈ bs, b.index ≠ 1 := by
  induction bs generalizing m s with
  | nil => exact fun b hb => absurd hb List.not_mem_nil
  | cons b bs ih =>
    obtain ⟨hpayload, m', -, -, -, hrest⟩ := h
    have hbuilt := buildDatagram_built marked hp hd (hw b List.mem_cons_self)
    have hpos' : 1 ≤ (buildDatagram p marked s b).1.position := by
      rw [hbuilt.position]
      omega
    intro c hc
    rcases List.mem_cons.mp hc with rfl | hc
    · intro hone
      have hread : readAt p s c.index = s.position := if_pos hone
      rw [hbuilt.payload, hread, hone, Nat.sub_self, Nat.mul_zero] at hpayload
      exact deviceBytes_marked_ne hp hpos hpayload
    · exact ih hrest hbuilt.datagram hpos' (fun d hd => hw d (List.mem_cons_of_mem _ hd)) c hc

/-- A transfer that begins with block 1, on a device at its start and with an
empty backup, is faithful for every recording exactly where block 1 is not built
again. -/
theorem realtime_faithful_iff (hp : 1 ≤ p.blockSize) (hn : p.blockCount < 2 ^ 32)
    (hd : s.datagram.length = 6 + maxBlockSize) (hpos : s.position = 0) (hfile : s.file = [])
    (hfirst : first.index = 1)
    (hb : ∀ b ∈ first :: later, 1 ≤ b.index ∧ b.index ≤ p.blockCount ∧ b.fwrite = .whole) :
    (∀ device, Faithful p device 0 s (first :: later)) ↔ ∀ b ∈ later, b.index ≠ 1 := by
  have hsix : 6 ≤ s.datagram.length := hd ▸ Nat.le_add_right ..
  obtain ⟨h₁, hle, hw⟩ := hb first List.mem_cons_self
  have hlater : ∀ b ∈ later, 1 ≤ b.index ∧ b.index ≤ p.blockCount ∧ b.fwrite = .whole :=
    fun b hmem => hb b (List.mem_cons_of_mem _ hmem)
  constructor
  · intro h
    obtain ⟨-, m, -, -, -, hrest⟩ := h marked
    have hbuilt := buildDatagram_built marked hp hsix hw
    refine hrest.no_first hp hbuilt.datagram ?_ fun b hmem => (hlater b hmem).2.2
    rw [hbuilt.position]
    omega
  · intro hne device
    obtain ⟨hpayload, hstep⟩ := first_inStep device hp (by omega) hsix hpos hfile hfirst hw
    exact ⟨hpayload, 1, Nat.zero_le 1, fun _ => Nat.zero_lt_one, fun hout => (hstep.written hout).2,
      hstep.faithful hp hn hlater hne⟩

def fiveBytes : Parameter := ⟨2, 3, 5, true⟩

def counting (i : Nat) : UInt8 := .ofNat i

/-- The device just opened, the static variables as another transfer left them. -/
def justOpened : Sender := ⟨0, 0, 7, List.replicate (6 + maxBlockSize) 0, []⟩

theorem realtime_faithful_iff_block_two_again :
    Faithful fiveBytes counting 0 justOpened
      [⟨1, tsBlockOriginal, .whole⟩, ⟨2, tsBlockOriginal, .whole⟩,
        ⟨2, tsBlockRetransmission, .whole⟩, ⟨3, tsBlockTerminate, .whole⟩] :=
  (realtime_faithful_iff (by decide) (by decide) (List.length_replicate ..) rfl rfl rfl
    (by decide)).mpr (by decide) counting

/-- The client asks for block 1 again: it is sent the bytes of block 2, and these
go into the backup behind block 1. -/
theorem block_one_again :
    ¬ Faithful fiveBytes counting 0 justOpened
        [⟨1, tsBlockOriginal, .whole⟩, ⟨1, tsBlockRetransmission, .whole⟩,
          ⟨2, tsBlockOriginal, .whole⟩] ∧
      ([⟨1, tsBlockOriginal, .whole⟩, ⟨1, tsBlockRetransmission, .whole⟩,
        ⟨2, tsBlockOriginal, .whole⟩].foldl (fun s b => (buildDatagram fiveBytes counting s b).1)
          justOpened).file = [0, 1, 2, 3, 2, 3] := by
  refine ⟨?_, by decide +kernel⟩
  rintro ⟨-, m, -, -, -, hpayload, -⟩
  exact absurd hpayload (by decide +kernel)

end Tsunami.Realtime
