import Tsunami.Server.Blocks

/-!
# Seeking or not

`build_datagram` does not seek to the block that follows the one built last.
What it goes by is a static variable, which outlives the transfer and the open
file.
-/

namespace Tsunami.Server

open Bytes

def blockOffset (cfg : Config) (b : Nat) : Nat := cfg.blockSize * u32 (b + (2 ^ 32 - 1))

/-- The `build_datagram` that always seeks. -/
def seekDatagram (cfg : Config) (s : Sender) (blockIndex blockType : Nat) : Sender :=
  let data := (cfg.file.drop (blockOffset cfg blockIndex)).take cfg.blockSize
  { s with
    position := blockOffset cfg blockIndex + data.length
    datagram := blit (blit s.datagram 6 data) 0 (header blockIndex blockType)
    lastBlock := blockIndex }

-- ---------------------------------------------------------------------------
-- A server process
-- ---------------------------------------------------------------------------

structure Build where
  index : Nat
  type : Nat
  index_lt : index < 2 ^ 32

structure Serve where
  cfg : Config
  builds : List Build
  pos : 1 ≤ cfg.blockSize

def Serve.of (v : Serve) (file : List UInt8) : Config := { v.cfg with file := file }

def buildAll (build : Config → Sender → Nat → Nat → Sender) (cfg : Config) :
    Sender → List Build → Sender × List (List UInt8)
  | s, [] => (s, [])
  | s, b :: bs =>
    let t := build cfg s b.index b.type
    let (u, packets) := buildAll build cfg t bs
    (u, t.packet cfg :: packets)

/-- `ttp_open_transfer` leaves the file at its start. The datagram buffer and
the static variable are as the transfer before left them. -/
def Sender.opened (s : Sender) : Sender := { s with position := 0 }

def serveAll (build : Config → Sender → Nat → Nat → Sender) (files : Nat → List UInt8) :
    Nat → Sender → List Serve → List (List (List UInt8))
  | _, _, [] => []
  | n, s, v :: vs =>
    let (t, packets) := buildAll build (v.of (files n)) s.opened v.builds
    packets :: serveAll build files (n + 1) t vs

-- ---------------------------------------------------------------------------
-- Which skips are right
-- ---------------------------------------------------------------------------

/-- Whether it is right not to seek before block `b`: it is if the file has just
been opened and `b` is its first block, or if the file pointer stands behind the
block before, which is not where block 0 ends. -/
def MaySkip (last : Nat) (fresh : Bool) (b : Nat) : Prop :=
  b = u32 (last + 1) → if fresh then b = 1 else b ≠ 1

instance (last : Nat) (fresh : Bool) (b : Nat) : Decidable (MaySkip last fresh b) :=
  inferInstanceAs (Decidable (_ → _))

def SkipsWell : Nat → Bool → List Build → Prop
  | _, _, [] => True
  | last, opened, b :: bs => MaySkip last opened b.index ∧ SkipsWell b.index false bs

instance decidableSkipsWell : ∀ last fresh bs, Decidable (SkipsWell last fresh bs)
  | _, _, [] => isTrue trivial
  | last, fresh, b :: bs =>
    have := decidableSkipsWell b.index false bs
    inferInstanceAs (Decidable (MaySkip last fresh b.index ∧ SkipsWell b.index false bs))

def lastBuilt : Nat → List Build → Nat
  | last, [] => last
  | _, b :: bs => lastBuilt b.index bs

def AllSkipWell : Nat → List Serve → Prop
  | _, [] => True
  | last, v :: vs => SkipsWell last true v.builds ∧ AllSkipWell (lastBuilt last v.builds) vs

instance decidableAllSkipWell : ∀ last vs, Decidable (AllSkipWell last vs)
  | _, [] => isTrue trivial
  | last, v :: vs =>
    have := decidableAllSkipWell (lastBuilt last v.builds) vs
    inferInstanceAs
      (Decidable (SkipsWell last true v.builds ∧ AllSkipWell (lastBuilt last v.builds) vs))

-- ---------------------------------------------------------------------------
-- The file pointer
-- ---------------------------------------------------------------------------

variable {cfg : Config} {s s' : Sender} {b ty last : Nat} {fresh : Bool}

theorem u32_pred (h₁ : 1 ≤ b) (hb : b < 2 ^ 32) : u32 (b + (2 ^ 32 - 1)) = b - 1 := by
  rw [u32]
  omega

theorem blockOffset_one (cfg : Config) : blockOffset cfg 1 = 0 := by
  rw [blockOffset, u32_pred (Nat.le_refl 1) (by decide)]
  rfl

theorem blockOffset_next (cfg : Config) (hlast : last < 2 ^ 32) (hne : u32 (last + 1) ≠ 1) :
    blockOffset cfg (u32 (last + 1)) = blockOffset cfg last + cfg.blockSize := by
  have hpos : 1 ≤ last := by
    by_contra hzero
    rw [Nat.eq_zero_of_not_pos hzero] at hne
    exact hne rfl
  have hnext : u32 (u32 (last + 1) + (2 ^ 32 - 1)) = last := by
    simp only [u32]
    omega
  rw [blockOffset, blockOffset, hnext, u32_pred hpos hlast, ← Nat.mul_succ, Nat.succ_eq_add_one,
    Nat.sub_add_cancel hpos]

def Behind (cfg : Config) (last position : Nat) : Prop :=
  position = blockOffset cfg last + cfg.blockSize ∨
    cfg.file.length ≤ position ∧ cfg.file.length ≤ blockOffset cfg last + cfg.blockSize

theorem behind_read (cfg : Config) (b : Nat) :
    Behind cfg b
      (blockOffset cfg b + ((cfg.file.drop (blockOffset cfg b)).take cfg.blockSize).length) := by
  rw [List.length_take, List.length_drop, Behind]
  omega

structure Alike (cfg : Config) (last : Nat) (fresh : Bool) (s s' : Sender) : Prop where
  datagram : s.datagram = s'.datagram
  lastBlock : s.lastBlock = last
  last_lt : last < 2 ^ 32
  position : if fresh then s.position = 0 else Behind cfg last s.position

theorem Alike.read (h : Alike cfg last fresh s s') (hb : MaySkip last fresh b) :
    (cfg.file.drop (seek cfg s b)).take cfg.blockSize =
      (cfg.file.drop (blockOffset cfg b)).take cfg.blockSize ∧
    Behind cfg b (seek cfg s b + ((cfg.file.drop (seek cfg s b)).take cfg.blockSize).length) := by
  have hposition := h.position
  rw [seek, h.lastBlock]
  split
  · exact ⟨rfl, behind_read cfg b⟩
  · rename_i hskip
    have hb := hb (not_not.mp hskip)
    cases fresh with
    | true =>
      simp only [if_true] at hb hposition
      rw [hposition, hb, ← blockOffset_one cfg]
      exact ⟨rfl, behind_read cfg 1⟩
    | false =>
      simp only [Bool.false_eq_true, if_false] at hb hposition
      have hnext := blockOffset_next cfg h.last_lt (not_not.mp hskip ▸ hb)
      rw [← not_not.mp hskip] at hnext
      rcases hposition with heq | ⟨hpast, hend⟩
      · rw [heq, ← hnext]
        exact ⟨rfl, behind_read cfg b⟩
      · -- nothing is read, here and there
        rw [List.drop_eq_nil_of_le hpast, List.drop_eq_nil_of_le (hnext ▸ hend)]
        refine ⟨rfl, .inr ⟨by simpa using hpast, ?_⟩⟩
        rw [hnext]
        omega

theorem Alike.build (h : Alike cfg last fresh s s') (hb : MaySkip last fresh b) (hlt : b < 2 ^ 32)
    (ty : Nat) : Alike cfg b false (buildDatagram cfg s b ty) (seekDatagram cfg s' b ty) := by
  obtain ⟨hdata, hbehind⟩ := h.read hb
  refine ⟨?_, rfl, hlt, hbehind⟩
  rw [buildDatagram_eq]
  simp only [seekDatagram, hdata, h.datagram]

theorem Alike.buildAll (h : Alike cfg last fresh s s') (hb : SkipsWell last fresh bs) :
    (buildAll buildDatagram cfg s bs).2 = (buildAll seekDatagram cfg s' bs).2 ∧
      ∃ o, Alike cfg (lastBuilt last bs) o (Server.buildAll buildDatagram cfg s bs).1
        (Server.buildAll seekDatagram cfg s' bs).1 := by
  induction bs generalizing s s' last fresh with
  | nil =>
    simp only [Server.buildAll, lastBuilt]
    exact ⟨trivial, fresh, h⟩
  | cons b bs ih =>
    obtain ⟨hskip, hrest⟩ := hb
    have hbuild := h.build hskip b.index_lt b.type
    obtain ⟨hpackets, o, hend⟩ := ih hbuild hrest
    refine ⟨?_, o, hend⟩
    simp only [Server.buildAll, hpackets, Sender.packet, hbuild.datagram]

structure Idle (last : Nat) (s s' : Sender) : Prop where
  datagram : s.datagram = s'.datagram
  lastBlock : s.lastBlock = last
  last_lt : last < 2 ^ 32

theorem Idle.opened (h : Idle last s s') (cfg : Config) : Alike cfg last true s.opened s'.opened :=
  ⟨h.datagram, h.lastBlock, h.last_lt, rfl⟩

theorem serveAll_alike (h : Idle last s s') (hv : AllSkipWell last vs)
    (files : Nat → List UInt8) (n : Nat) :
    serveAll buildDatagram files n s vs = serveAll seekDatagram files n s' vs := by
  induction vs generalizing s s' last n with
  | nil => simp only [serveAll]
  | cons v vs ih =>
    obtain ⟨hskip, hrest⟩ := hv
    obtain ⟨hpackets, o, hend⟩ := (h.opened (v.of (files n))).buildAll hskip
    simp only [serveAll, hpackets, ih ⟨hend.datagram, hend.lastBlock, hend.last_lt⟩ hrest (n + 1)]

-- ---------------------------------------------------------------------------
-- A file that tells
-- ---------------------------------------------------------------------------

/-- A file that is zero but for its first byte, and long enough for every block
of `bs` bytes to be whole. -/
structure Telling (bs : Nat) (file : List UInt8) : Prop where
  length : bs * (2 ^ 32 + 1) ≤ file.length
  bytes : ∃ n, file = 1 :: List.replicate n 0

theorem Telling.front (h : Telling bs file) (hb : 1 ≤ bs) :
    file.take bs = 1 :: List.replicate (bs - 1) 0 := by
  have hlen := h.length
  obtain ⟨n, rfl⟩ := h.bytes
  obtain ⟨m, rfl⟩ : ∃ m, bs = m + 1 := ⟨bs - 1, by omega⟩
  rw [List.length_cons, List.length_replicate] at hlen
  rw [List.take_succ_cons, List.take_replicate, Nat.add_sub_cancel, Nat.min_eq_left (by omega)]

theorem Telling.later (h : Telling bs file) (hp : 1 ≤ p) (hle : p + bs ≤ bs * (2 ^ 32 + 1)) :
    (file.drop p).take bs = List.replicate bs 0 := by
  have hlen := h.length
  obtain ⟨n, rfl⟩ := h.bytes
  obtain ⟨m, rfl⟩ : ∃ m, p = m + 1 := ⟨p - 1, by omega⟩
  rw [List.length_cons, List.length_replicate] at hlen
  rw [List.drop_succ_cons, List.drop_replicate, List.take_replicate, Nat.min_eq_left (by omega)]

theorem front_ne_later (hb : 1 ≤ bs) :
    (1 : UInt8) :: List.replicate (bs - 1) 0 ≠ List.replicate bs 0 := by
  obtain ⟨m, rfl⟩ : ∃ m, bs = m + 1 := ⟨bs - 1, by omega⟩
  simp [List.replicate_succ]

theorem blockOffset_le (cfg : Config) (b : Nat) :
    blockOffset cfg b + cfg.blockSize + cfg.blockSize ≤ cfg.blockSize * (2 ^ 32 + 1) := by
  have hlt := u32_lt (b + (2 ^ 32 - 1))
  calc blockOffset cfg b + cfg.blockSize + cfg.blockSize
      = cfg.blockSize * (u32 (b + (2 ^ 32 - 1)) + 2) := by
        rw [blockOffset, Nat.mul_add, Nat.mul_two, Nat.add_assoc]
    _ ≤ cfg.blockSize * (2 ^ 32 + 1) := Nat.mul_le_mul_left _ (by omega)

theorem one_le_blockOffset (hbs : 1 ≤ cfg.blockSize) (hb : b < 2 ^ 32) (hne : b ≠ 1) :
    1 ≤ blockOffset cfg b := by
  refine Nat.mul_pos hbs ?_
  rw [u32]
  omega

theorem Telling.full (h : Telling bs file) (hle : p + bs ≤ bs * (2 ^ 32 + 1)) :
    ((file.drop p).take bs).length = bs := by
  have hlen := h.length
  rw [List.length_take, List.length_drop]
  omega

theorem Telling.position (h : Telling cfg.blockSize cfg.file) (hbs : 1 ≤ cfg.blockSize)
    (hp : Behind cfg last p) : p = blockOffset cfg last + cfg.blockSize := by
  have hoff := blockOffset_le cfg last
  have hlen := h.length
  rcases hp with heq | ⟨-, hend⟩
  · exact heq
  · omega

theorem Alike.read_ne (h : Alike cfg last fresh s s') (hfile : Telling cfg.blockSize cfg.file)
    (hbs : 1 ≤ cfg.blockSize) (hlt : b < 2 ^ 32) (hb : ¬ MaySkip last fresh b) :
    ((cfg.file.drop (seek cfg s b)).take cfg.blockSize).length = cfg.blockSize ∧
      (cfg.file.drop (seek cfg s b)).take cfg.blockSize ≠
        (cfg.file.drop (blockOffset cfg b)).take cfg.blockSize := by
  obtain ⟨hnext, hwrong⟩ := Classical.not_imp.mp hb
  have hposition := h.position
  rw [seek, h.lastBlock, if_neg (not_not.mpr hnext)]
  cases fresh with
  | true =>
    simp only [if_true] at hwrong hposition
    have hoff := blockOffset_le cfg b
    rw [hposition]
    refine ⟨hfile.full (by omega), ?_⟩
    rw [List.drop_zero, hfile.front hbs, hfile.later (one_le_blockOffset hbs hlt hwrong) (by omega)]
    exact front_ne_later hbs
  | false =>
    simp only [Bool.false_eq_true, if_false, ne_eq, not_not] at hwrong hposition
    subst hwrong
    have hoff := blockOffset_le cfg last
    rw [hfile.position hbs hposition]
    refine ⟨hfile.full hoff, ?_⟩
    rw [blockOffset_one, List.drop_zero, hfile.front hbs, hfile.later (by omega) hoff]
    exact (front_ne_later hbs).symm

theorem Alike.packet_ne (h : Alike cfg last fresh s s') (hfile : Telling cfg.blockSize cfg.file)
    (hbs : 1 ≤ cfg.blockSize) (hd : 6 ≤ s.datagram.length) (hlt : b < 2 ^ 32)
    (hb : ¬ MaySkip last fresh b) (ty : Nat) :
    (buildDatagram cfg s b ty).packet cfg ≠ (seekDatagram cfg s' b ty).packet cfg := by
  obtain ⟨hlen, hne⟩ := h.read_ne hfile hbs hlt hb
  have hoff := blockOffset_le cfg b
  rw [buildDatagram_eq, Sender.packet, Sender.packet, seekDatagram]
  simp only
  rw [packet_full hd hlen, packet_full (h.datagram ▸ hd) (hfile.full (by omega))]
  exact fun heq => hne (List.append_cancel_left heq)

theorem six_le_build (hd : 6 ≤ s.datagram.length) (b ty : Nat) :
    6 ≤ (buildDatagram cfg s b ty).datagram.length := by
  rw [buildDatagram_eq]
  simp only
  rw [blit_datagram hd, List.length_append, length_header]
  exact Nat.le_add_right ..

theorem Alike.buildAll_ne (h : Alike cfg last fresh s s') (hfile : Telling cfg.blockSize cfg.file)
    (hbs : 1 ≤ cfg.blockSize) (hd : 6 ≤ s.datagram.length) (hb : ¬ SkipsWell last fresh bs) :
    (Server.buildAll buildDatagram cfg s bs).2 ≠ (Server.buildAll seekDatagram cfg s' bs).2 := by
  induction bs generalizing s s' last fresh with
  | nil => exact absurd trivial hb
  | cons b bs ih =>
    intro heq
    simp only [Server.buildAll, List.cons.injEq] at heq
    by_cases hskip : MaySkip last fresh b.index
    · have hbuild := h.build hskip b.index_lt b.type
      exact ih hbuild (six_le_build hd ..) (fun hrest => hb ⟨hskip, hrest⟩) heq.2
    · exact h.packet_ne hfile hbs hd b.index_lt hskip b.type heq.1

theorem six_le_buildAll (hd : 6 ≤ s.datagram.length) (cfg : Config) (bs : List Build) :
    6 ≤ (Server.buildAll buildDatagram cfg s bs).1.datagram.length := by
  induction bs generalizing s with
  | nil => exact hd
  | cons b bs ih => exact ih (six_le_build hd ..)

theorem serveAll_ne {file : List UInt8} (h : Idle last s s') (hd : 6 ≤ s.datagram.length)
    (hfile : ∀ v ∈ vs, Telling v.cfg.blockSize file) (hv : ¬ AllSkipWell last vs) (n : Nat) :
    serveAll buildDatagram (fun _ => file) n s vs ≠
      serveAll seekDatagram (fun _ => file) n s' vs := by
  induction vs generalizing s s' last n with
  | nil => exact absurd trivial hv
  | cons v vs ih =>
    intro heq
    simp only [serveAll, List.cons.injEq] at heq
    have hopen := h.opened (v.of file)
    have htell : Telling (v.of file).blockSize (v.of file).file := hfile v List.mem_cons_self
    by_cases hskip : SkipsWell last true v.builds
    · obtain ⟨-, o, hend⟩ := hopen.buildAll hskip
      refine ih ⟨hend.datagram, hend.lastBlock, hend.last_lt⟩
        (six_le_buildAll (s := s.opened) hd ..)
        (fun w hw => hfile w (List.mem_cons_of_mem _ hw))
          (fun hrest => hv ⟨hskip, hrest⟩) (n + 1) heq.2
    · exact hopen.buildAll_ne htell v.pos hd hskip heq.1

theorem exists_telling (vs : List Serve) : ∃ file, ∀ v ∈ vs, Telling v.cfg.blockSize file := by
  have hbound : ∃ n, ∀ v ∈ vs, v.cfg.blockSize ≤ n := by
    induction vs with
    | nil => exact ⟨0, fun v hv => absurd hv List.not_mem_nil⟩
    | cons v vs ih =>
      obtain ⟨n, hn⟩ := ih
      refine ⟨v.cfg.blockSize + n, fun w hw => ?_⟩
      rcases List.mem_cons.mp hw with rfl | hw
      · exact Nat.le_add_right ..
      · exact Nat.le_add_left_of_le (hn w hw)
  obtain ⟨n, hn⟩ := hbound
  refine ⟨1 :: List.replicate (n * (2 ^ 32 + 1)) 0, fun v hv => ⟨?_, _, rfl⟩⟩
  rw [List.length_cons, List.length_replicate]
  exact Nat.le_succ_of_le (Nat.mul_le_mul_right _ (hn v hv))

-- ---------------------------------------------------------------------------
-- Every process
-- ---------------------------------------------------------------------------

def Sender.create (ipd : ℚ) (datagram : List UInt8) : Sender := ⟨0, ipd, 0, datagram, 0⟩

/-- Whatever is in the files, what is sent is what seeking would send, exactly
where no transfer begins, other than with block 1, with the block after the last
of the transfer before, and none builds block 1 right after block 0. -/
theorem seek_skipped_soundly_iff (hd : datagram.length = 6 + maxBlockSize) (ipd : ℚ)
    (vs : List Serve) :
    (∀ files, serveAll buildDatagram files 0 (.create ipd datagram) vs =
        serveAll seekDatagram files 0 (.create ipd datagram) vs) ↔ AllSkipWell 0 vs := by
  have hidle : Idle 0 (.create ipd datagram) (.create ipd datagram) := ⟨rfl, rfl, by decide⟩
  constructor
  · intro h
    by_contra hv
    obtain ⟨file, hfile⟩ := exists_telling vs
    have hsix : 6 ≤ (Sender.create ipd datagram).datagram.length := by
      rw [Sender.create, hd]
      exact Nat.le_add_right ..
    exact serveAll_ne hidle hsix hfile hv 0 (h fun _ => file)
  · exact fun hv files => serveAll_alike hidle hv files 0

def tinyConfig : Config := ⟨[], 1, 3, 7500, 25, 24, 5, 6, 10, 15, false⟩

def tinyServe (blocks : List (Fin (2 ^ 32))) : Serve :=
  ⟨tinyConfig, blocks.map fun b => ⟨b.val, tsBlockOriginal, b.isLt⟩, Nat.le_refl 1⟩

/-- Three blocks, the second of them again; and then another file. -/
theorem seek_skipped_soundly_iff_two_files :
    serveAll buildDatagram (fun n => [5, 6, 7, .ofNat n]) 0
        (.create 0 (List.replicate (6 + maxBlockSize) 0))
        [tinyServe [1, 2, 3, 2, 3], tinyServe [1, 2]] =
      serveAll seekDatagram (fun n => [5, 6, 7, .ofNat n]) 0
        (.create 0 (List.replicate (6 + maxBlockSize) 0))
        [tinyServe [1, 2, 3, 2, 3], tinyServe [1, 2]] :=
  (seek_skipped_soundly_iff (List.length_replicate ..) 0
    [tinyServe [1, 2, 3, 2, 3], tinyServe [1, 2]]).mpr
    (by decide) fun n => [5, 6, 7, .ofNat n]

/-- The first transfer ends with block 1. In the second the client at once asks
for block 2, and gets the bytes of block 1. -/
theorem stale_position_sent :
    serveAll buildDatagram (fun _ => [5, 6]) 0
        (.create 0 (List.replicate (6 + maxBlockSize) 0)) [tinyServe [1], tinyServe [2]] =
      [[header 1 tsBlockOriginal ++ [5]], [header 2 tsBlockOriginal ++ [5]]] ∧
    serveAll seekDatagram (fun _ => [5, 6]) 0
        (.create 0 (List.replicate (6 + maxBlockSize) 0)) [tinyServe [1], tinyServe [2]] =
      [[header 1 tsBlockOriginal ++ [5]], [header 2 tsBlockOriginal ++ [6]]] := by
  decide +kernel

end Tsunami.Server
