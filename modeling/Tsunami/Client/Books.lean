import Mathlib.Order.Interval.Finset.Nat
import Tsunami.Client.CommandGet

/-!
# The client's books

What `blocks_left`, the bitmap, the ring and the two threads have to do with
each other, as long as no datagram numbered 0 is taken for a block.
-/

namespace Tsunami.Client

open Bytes Transition

-- ---------------------------------------------------------------------------
-- Counting missing blocks
-- ---------------------------------------------------------------------------

def missing (x : Transfer) : Finset Nat :=
  (Finset.Icc 1 x.blockCount).filter fun b => gotBlock x b = false

theorem mem_missing : b ∈ missing x ↔ 1 ≤ b ∧ b ≤ x.blockCount ∧ gotBlock x b = false := by
  simp [missing, and_assoc]

theorem SameBlocks.missing (h : SameBlocks x y) : missing y = missing x := by
  ext b
  rw [mem_missing, mem_missing, h.gotBlock, h.blockCount]

theorem missing_markReceived (hx : BitmapFits x) (hb : b ≤ x.blockCount) :
    missing (markReceived x b) = (missing x).erase b := by
  ext i
  rw [Finset.mem_erase, mem_missing, mem_missing, gotBlock_markReceived hx hb]
  simp only [Bool.or_eq_false_iff, decide_eq_false_iff_not, markReceived]
  constructor
  · rintro ⟨h₁, hi, hne, hmiss⟩
    exact ⟨Ne.symm hne, h₁, hi, hmiss⟩
  · rintro ⟨hne, h₁, hi, hmiss⟩
    exact ⟨h₁, hi, Ne.symm hne, hmiss⟩

/-- The books on the blocks `numbers`, each received once. -/
structure Counted (cfg : Config) (x : Transfer) (numbers : List Nat) : Prop where
  fileSize : x.fileSize = cfg.fileSize
  blockCount : x.blockCount = cfg.blockCount
  bitmap : BitmapFits x
  range : ∀ b ∈ numbers, 1 ≤ b ∧ b ≤ cfg.blockCount
  nodup : numbers.Nodup
  marked : ∀ b, 1 ≤ b → b ≤ cfg.blockCount → (gotBlock x b = true ↔ b ∈ numbers)
  left : x.blocksLeft = (missing x).card

theorem create_counted (cfg : Config) :
    Counted cfg (.create cfg.param cfg.fileSize cfg.blockCount) [] where
  fileSize := rfl
  blockCount := rfl
  bitmap := by simp [BitmapFits, Transfer.create]
  range := by simp
  nodup := .nil
  marked b _ hb := by simp [gotBlock_create hb]
  left := by
    have hall :
        missing (.create cfg.param cfg.fileSize cfg.blockCount) = Finset.Icc 1 cfg.blockCount := by
      ext b
      rw [mem_missing, Finset.mem_Icc]
      constructor
      · rintro ⟨h₁, hb, -⟩
        exact ⟨h₁, hb⟩
      · rintro ⟨h₁, hb⟩
        exact ⟨h₁, hb, gotBlock_create hb⟩
    rw [hall, Nat.card_Icc]
    rfl

theorem Counted.same (h : Counted cfg x numbers) (hs : SameBlocks x y) : Counted cfg y numbers where
  fileSize := hs.fileSize.trans h.fileSize
  blockCount := hs.blockCount.trans h.blockCount
  bitmap := by rw [BitmapFits, hs.received, hs.blockCount]; exact h.bitmap
  range := h.range
  nodup := h.nodup
  marked b h₁ hb := by rw [hs.gotBlock]; exact h.marked b h₁ hb
  left := by rw [hs.blocksLeft, hs.missing]; exact h.left

structure New (cfg : Config) (x : Transfer) (b : Nat) : Prop where
  pos : 1 ≤ b
  le : b ≤ cfg.blockCount
  unmarked : gotBlock x b = false

theorem New.mem_missing (hn : New cfg x b) (h : Counted cfg x numbers) : b ∈ missing x :=
  Client.mem_missing.mpr ⟨hn.pos, h.blockCount.symm ▸ hn.le, hn.unmarked⟩

theorem Counted.mark (h : Counted cfg x numbers) (hn : New cfg x b) :
    Counted cfg (markReceived x b) (numbers ++ [b]) where
  fileSize := h.fileSize
  blockCount := h.blockCount
  bitmap := by
    have hl := h.bitmap
    simp only [BitmapFits] at hl
    simp [BitmapFits, markReceived, hl]
  range i hi := by
    rcases List.mem_append.mp hi with hi | hi
    · exact h.range i hi
    · rw [List.mem_singleton.mp hi]
      exact ⟨hn.pos, hn.le⟩
  nodup := by
    refine List.nodup_append.mpr ⟨h.nodup, List.nodup_singleton b, ?_⟩
    rintro i hi j hj rfl
    rw [List.mem_singleton.mp hj, ← h.marked b hn.pos hn.le, hn.unmarked] at hi
    exact Bool.false_ne_true hi
  marked i h₁ hi := by
    rw [gotBlock_markReceived h.bitmap (h.blockCount.symm ▸ hn.le)]
    rw [Bool.or_eq_true, decide_eq_true_eq, List.mem_append, List.mem_singleton, h.marked i h₁ hi,
      or_comm, @eq_comm _ b i]
  left := by
    have hmem := hn.mem_missing h
    have hpos : 0 < (missing x).card := Finset.card_pos.mpr ⟨b, hmem⟩
    rw [missing_markReceived h.bitmap (h.blockCount.symm ▸ hn.le),
      Finset.card_erase_of_mem hmem, ← h.left]
    exact if_pos (h.left ▸ hpos)

theorem Counted.complete (h : Counted cfg x numbers) (h0 : x.blocksLeft = 0) (h₁ : 1 ≤ b)
    (hb : b ≤ cfg.blockCount) : b ∈ numbers := by
  rw [← h.marked b h₁ hb]
  have hempty : missing x = ∅ := Finset.card_eq_zero.mp (h.left.symm.trans h0)
  by_contra hgot
  have hmem : b ∈ missing x :=
    mem_missing.mpr ⟨h₁, h.blockCount.symm ▸ hb, eq_false_of_ne_true hgot⟩
  simp [hempty] at hmem

theorem controlAndStats_leave (hl : param.lossless = true)
    (hv : (controlAndStats param o x b ty).verdict = .leave) :
    (controlAndStats param o x b ty).xfer.blocksLeft = 0 := by
  have hnot : (sendStats param o (control param o x b ty).xfer).verdict ≠ .leave := by
    rcases sendStats_cases param o (control param o x b ty).xfer with heq | ⟨-, heq⟩ | heq <;>
      simp [heq]
  have hctl : (control param o x b ty).verdict = .leave →
      (control param o x b ty).xfer.blocksLeft = 0 := by
    simp only [control]
    split
    · simp
    · split
      · simp
      · split
        · simp only [terminate, hl]
          split
          · exact fun _ => ‹_›
          · simp only [not_true_eq_false, false_and, if_false]
            split <;> simp
        · simp
  simp only [controlAndStats] at hv ⊢
  split at hv
  · exact absurd hv hnot
  · rename_i hnext
    rw [if_neg hnext]
    exact hctl hv

-- ---------------------------------------------------------------------------
-- The ring as a component
-- ---------------------------------------------------------------------------

variable {cfg : Config} {s t : CommandGet} {e : Event}

theorem step_ring (h : s.step cfg e = some t) :
    t.ring = s.ring ∨ ∃ d, s.ring.step d = some t.ring := by
  cases step_cases h with
  | recv hnet | recvFails hnet | control hnet | requestStop hnet | join hnet | count hnet
  | counted hnet =>
    exact .inl rfl
  | look hnet =>
    left
    simp only [CommandGet.look]
    split <;> [split; skip] <;> rfl
  | accept hc hnet hdisk hr =>
    refine .inr ⟨.read, ?_⟩
    simp only [CommandGet.accept]
    split <;> exact hr
  | reserve _ hr | wake _ hr | copy _ _ hr | confirm _ _ hr | confirmStop _ _ hr | peek _ _ hr
  | pop _ _ hr =>
    exact .inr ⟨_, hr⟩

theorem commandGet_ring (h : (commandGet cfg).Reachable s) :
    (ringSystem Datagram).Reachable s.ring :=
  h.component (A := ringSystem Datagram) (by rintro s ⟨slots, rfl⟩; exact ⟨slots, rfl⟩)
    fun _ _ _ _ hs => step_ring hs

-- ---------------------------------------------------------------------------
-- The network thread
-- ---------------------------------------------------------------------------

def CommandGet.numbers (s : CommandGet) : List Nat := s.queued.map blockNumber

def CommandGet.Held (s : CommandGet) (P : Datagram → Prop) : Prop :=
  ∀ slot, s.ring.producer = .holding slot → P (s.ring.ring.datagrams slot)

structure Filling (cfg : Config) (s : CommandGet) : Prop where
  counted : Counted cfg s.xfer s.numbers
  confirmed : s.ring.confirmed = s.queued

structure Left (cfg : Config) (s : CommandGet) : Prop where
  counted : Counted cfg s.xfer s.numbers
  done : cfg.param.lossless = true → s.xfer.blocksLeft = 0

theorem Left.perm (h : Left cfg s) (hl : cfg.param.lossless = true) :
    s.numbers.Perm (List.range' 1 cfg.blockCount) := by
  refine (List.perm_ext_iff_of_nodup h.counted.nodup List.nodup_range').mpr fun b => ?_
  rw [List.mem_range'_1]
  constructor
  · intro hb
    have hr := h.counted.range b hb
    omega
  · rintro ⟨h₁, hb⟩
    exact h.counted.complete (h.done hl) h₁ (by omega)

def Placed (cfg : Config) (s : CommandGet) : Network → Prop
  | .receiving | .looking | .aborted => Filling cfg s
  | .reserving .received | .copying .received =>
    Filling cfg s ∧ New cfg s.xfer (blockNumber s.localDatagram)
  | .confirming .received =>
    Filling cfg s ∧ New cfg s.xfer (blockNumber s.localDatagram) ∧ s.Held (· = s.localDatagram)
  | .controlling =>
    (∃ numbers, Counted cfg s.xfer numbers ∧ s.numbers = numbers ++ [blockNumber s.localDatagram]) ∧
      New cfg s.xfer (blockNumber s.localDatagram) ∧ s.ring.confirmed = s.queued
  | .stopping | .reserving .stop | .copying .stop => Left cfg s ∧ s.ring.confirmed = s.queued
  | .confirming .stop =>
    Left cfg s ∧ s.ring.confirmed = s.queued ∧ s.Held (blockNumber · = 0)
  | .joining | .counting _ _ | .returned =>
    Left cfg s ∧ ∃ stop, blockNumber stop = 0 ∧ s.ring.confirmed = s.queued ++ [stop]

theorem Placed.congr (h : Placed cfg s n) (hx : t.xfer = s.xfer)
    (hl : t.localDatagram = s.localDatagram) (hq : t.queued = s.queued)
    (hc : t.ring.confirmed = s.ring.confirmed) (hp : t.ring.producer = s.ring.producer)
    (hd : t.ring.ring.datagrams = s.ring.ring.datagrams) :
    Placed cfg t n := by
  have hfill : Filling cfg s → Filling cfg t := fun hf => ⟨by
    rw [CommandGet.numbers, hx, hq]; exact hf.counted, by rw [hc, hq]; exact hf.confirmed⟩
  have hleft : Left cfg s → Left cfg t := fun hf => ⟨by
    rw [CommandGet.numbers, hx, hq]; exact hf.counted, by rw [hx]; exact hf.done⟩
  have hheld : ∀ P, s.Held P → t.Held P := fun P hh slot hslot => by
    rw [hd]; exact hh slot (hp ▸ hslot)
  cases n with
  | receiving | looking | aborted => exact hfill h
  | reserving i | copying i =>
    cases i
    · exact ⟨hfill h.1, by rw [hx, hl]; exact h.2⟩
    · exact ⟨hleft h.1, by rw [hc, hq]; exact h.2⟩
  | confirming i =>
    cases i
    · exact ⟨hfill h.1, by rw [hx, hl]; exact h.2.1, by rw [hl]; exact hheld _ h.2.2⟩
    · exact ⟨hleft h.1, by rw [hc, hq]; exact h.2.1, hheld _ h.2.2⟩
  | controlling =>
    simp only [Placed, CommandGet.numbers, hx, hl, hq, hc]
    exact h
  | stopping => exact ⟨hleft h.1, by rw [hc, hq]; exact h.2⟩
  | joining | counting _ _ | returned => exact ⟨hleft h.1, by rw [hc, hq]; exact h.2⟩

theorem finish_placed {r : Result} (hc : Counted cfg x s.numbers) (hq : s.ring.confirmed = s.queued)
    (hs : SameBlocks x r.xfer)
    (hl : cfg.param.lossless = true → r.verdict = .leave → r.xfer.blocksLeft = 0) :
    Placed cfg (s.finish r) (s.finish r).network := by
  have hcount : Counted cfg (s.finish r).xfer (s.finish r).numbers := hc.same hs
  cases hv : r.verdict with
  | next | abort =>
    simp only [CommandGet.finish, hv, Verdict.network]
    exact ⟨hcount, hq⟩
  | leave =>
    simp only [CommandGet.finish, hv, Verdict.network]
    exact ⟨⟨hcount, fun hloss => hl hloss hv⟩, hq⟩

def Event.looks : Event → Bool
  | .look _ => true
  | _ => false

/-- The condition under which the books are kept: nothing numbered 0 is looked
at while the ring has room. -/
def NoBlockZero (s : CommandGet) (e : Event) : Prop :=
  e.looks → ringFull s.ring.ring = true ∨ blockNumber s.localDatagram ≠ 0

instance (s : CommandGet) (e : Event) : Decidable (NoBlockZero s e) :=
  inferInstanceAs (Decidable (_ → _))

theorem look_placed (h : Filling cfg s) (h0 : NoBlockZero s (.look o)) :
    Placed cfg (s.look cfg o) (s.look cfg o).network := by
  have hcount : Counted cfg (countReceived s.xfer (blockType s.localDatagram)) s.numbers :=
    h.counted.same (countReceived_sameBlocks ..)
  simp only [CommandGet.look]
  split
  · rename_i hroom
    split
    · exact finish_placed hcount h.confirmed (SameBlocks.kept.controlAndStats ..)
        fun hl hv => controlAndStats_leave hl hv
    · rename_i hnew
      have hmiss := eq_false_of_ne_true hnew
      have hle : blockNumber s.localDatagram ≤ cfg.blockCount := by
        by_contra hgt
        refine hnew (gotBlock_of_gt ?_)
        rw [hcount.blockCount]
        omega
      have hpos : blockNumber s.localDatagram ≠ 0 := by
        rcases h0 rfl with hfull | hne
        · rw [hroom.1] at hfull
          simp at hfull
        · exact hne
      exact ⟨⟨hcount, h.confirmed⟩, Nat.one_le_iff_ne_zero.mpr hpos, hle, hmiss⟩
  · refine finish_placed hcount h.confirmed (SameBlocks.kept.sendStats ..) fun _ hv => ?_
    rcases sendStats_cases cfg.param { o with countData := s.ring.ring.countData }
      (countReceived s.xfer (blockType s.localDatagram)) with heq | ⟨-, heq⟩ | heq <;>
      simp [heq] at hv

theorem control_placed (h : Placed cfg s .controlling) :
    Placed cfg (s.control cfg o) (s.control cfg o).network := by
  obtain ⟨⟨numbers, hcount, hnumbers⟩, hnew, hconf⟩ := h
  have hmark := hcount.mark hnew
  rw [← hnumbers] at hmark
  exact finish_placed hmark hconf (SameBlocks.kept.controlAndStats ..) fun hl hv =>
    controlAndStats_leave hl hv

theorem reserved_placed (h : Placed cfg s (.reserving i)) (hr : Reserves s.ring r) :
    Placed cfg (s.reserved i r) (s.reserved i r).network := by
  obtain ⟨ring, p, rfl, -⟩ := hr
  simp only [CommandGet.reserved]
  cases i with
  | received => split <;> exact ⟨⟨h.1.counted, h.1.confirmed⟩, h.2⟩
  | stop => split <;> exact ⟨⟨h.1.counted, h.1.done⟩, h.2⟩

theorem copy_placed (h : Placed cfg s (.copying i)) (hp : s.ring.producer = .holding slot)
    (hr : s.ring.step (.write (s.insertion slot i)) = some r) :
    Placed cfg { s with ring := r, network := .confirming i } (.confirming i) := by
  have hw := step_write hp hr
  subst hw
  cases i with
  | received =>
    refine ⟨⟨h.1.counted, h.1.confirmed⟩, h.2, fun slot' hslot => ?_⟩
    have heq : slot = slot' := by simpa [hp] using hslot
    simp [heq, CommandGet.insertion]
  | stop =>
    refine ⟨⟨h.1.counted, h.1.done⟩, h.2, fun slot' hslot => ?_⟩
    have heq : slot = slot' := by simpa [hp] using hslot
    simp only [heq, CommandGet.insertion, Function.update_self]
    rfl

theorem confirm_placed (h : Placed cfg s (.confirming .received))
    (hp : s.ring.producer = .holding slot) (hr : s.ring.step .confirm = some r) :
    Placed cfg { s with
      ring := r, network := .controlling, queued := s.queued ++ [s.ring.ring.datagrams slot] }
      .controlling := by
  obtain ⟨ring, rfl⟩ := step_confirm hp hr
  obtain ⟨hfill, hnew, hheld⟩ := h
  have hslot := hheld slot hp
  exact ⟨⟨s.numbers, hfill.counted, by simp [CommandGet.numbers, hslot]⟩, hnew, by
    simp only [hfill.confirmed]⟩

theorem confirm_stop_placed (h : Placed cfg s (.confirming .stop))
    (hp : s.ring.producer = .holding slot) (hr : s.ring.step .confirm = some r) :
    Placed cfg { s with ring := r, network := .joining } .joining := by
  obtain ⟨ring, rfl⟩ := step_confirm hp hr
  obtain ⟨hleft, hconf, hheld⟩ := h
  exact ⟨⟨hleft.counted, hleft.done⟩, _, hheld slot hp, by simp only [hconf]⟩

theorem step_placed (h : Placed cfg s s.network) (h0 : NoBlockZero s e)
    (hs : s.step cfg e = some t) : Placed cfg t t.network := by
  cases step_cases hs with
  | recv hnet =>
    rw [hnet] at h
    exact ⟨h.counted, h.confirmed⟩
  | @recvFails w hnet =>
    rw [hnet] at h
    have hfill : ∀ n, Filling cfg { s with
        xfer := (ttpRepeatRetransmit w s.xfer).xfer
        sent := s.sent ++ (ttpRepeatRetransmit w s.xfer).records
        network := n } :=
      fun _ => ⟨h.counted.same (ttpRepeatRetransmit_sameBlocks ..), h.confirmed⟩
    simp only
    split
    · exact hfill .looking
    · exact hfill .aborted
  | look hnet =>
    rw [hnet] at h
    exact look_placed h h0
  | reserve hnet hr =>
    rw [hnet] at h
    exact reserved_placed h (step_reserve hr)
  | wake hnet hr =>
    rw [hnet] at h
    exact reserved_placed h (step_wake hr)
  | copy hnet hp hr =>
    rw [hnet] at h
    exact copy_placed h hp hr
  | confirm hnet hp hr =>
    rw [hnet] at h
    exact confirm_placed h hp hr
  | confirmStop hnet hp hr =>
    rw [hnet] at h
    exact confirm_stop_placed h hp hr
  | control hnet =>
    rw [hnet] at h
    exact control_placed h
  | requestStop hnet =>
    rw [hnet] at h
    simp only
    split
    · exact ⟨⟨h.1.counted, h.1.done⟩, h.2⟩
    · exact ⟨h.1.counted, h.2⟩
  | join hnet | count hnet | counted hnet =>
    rw [hnet] at h
    exact ⟨⟨h.1.counted, h.1.done⟩, h.2⟩
  | peek _ _ hr =>
    obtain ⟨slot, rfl⟩ := step_peek hr
    exact h.congr rfl rfl rfl rfl rfl rfl
  | accept hc _ _ hr =>
    have hread := step_read hc hr
    subst hread
    simp only [CommandGet.accept]
    split <;> exact h.congr rfl rfl rfl rfl rfl rfl
  | pop _ _ hr =>
    have hpop := step_pop hr
    subst hpop
    exact h.congr rfl rfl rfl rfl rfl rfl

theorem create_placed (cfg : Config) (slots : Int → Datagram) :
    Placed cfg (.create cfg slots) (CommandGet.create cfg slots).network :=
  ⟨create_counted cfg, rfl⟩

-- ---------------------------------------------------------------------------
-- The disk thread
-- ---------------------------------------------------------------------------

@[simp] theorem acceptBlock_ok (cfg : Config) (res : DiskResult) (file : List UInt8) (b : Nat)
    (block : List UInt8) : (acceptBlock cfg res file b block).2 = true ↔ res = .ok := by
  cases res <;> simp [acceptBlock]

theorem step_disk (h : s.step cfg e = some t) :
    (t.ring.reads = s.ring.reads ∧ t.accepts = s.accepts ∧ t.disk = s.disk ∧ t.file = s.file ∧
      (s.disk = .returned → t.ring.consumer = s.ring.consumer)) ∨
    ∃ res slot, e = .accept res ∧ s.ring.consumer = .peeked slot ∧ s.disk = .running ∧
      t = s.accept cfg res slot { s.ring with
        consumer := .read slot, reads := s.ring.reads ++ [s.ring.ring.datagrams slot] } := by
  cases step_cases h with
  | recv hnet | recvFails hnet | control hnet | requestStop hnet | join hnet | count hnet
  | counted hnet =>
    exact .inl ⟨rfl, rfl, rfl, rfl, fun _ => rfl⟩
  | look hnet =>
    left
    simp only [CommandGet.look]
    split <;> [split; skip] <;> exact ⟨rfl, rfl, rfl, rfl, fun _ => rfl⟩
  | reserve _ hr =>
    obtain ⟨ring, p, rfl, -⟩ := step_reserve hr
    exact .inl ⟨rfl, rfl, rfl, rfl, fun _ => rfl⟩
  | wake _ hr =>
    obtain ⟨ring, p, rfl, -⟩ := step_wake hr
    exact .inl ⟨rfl, rfl, rfl, rfl, fun _ => rfl⟩
  | copy _ hp hr =>
    have hw := step_write hp hr
    subst hw
    exact .inl ⟨rfl, rfl, rfl, rfl, fun _ => rfl⟩
  | confirm _ hp hr | confirmStop _ hp hr =>
    obtain ⟨ring, rfl⟩ := step_confirm hp hr
    exact .inl ⟨rfl, rfl, rfl, rfl, fun _ => rfl⟩
  | peek _ hrun hr =>
    obtain ⟨slot, rfl⟩ := step_peek hr
    exact .inl ⟨rfl, rfl, rfl, rfl, fun hret => by simp [hret] at hrun⟩
  | pop _ hrun hr =>
    have hpop := step_pop hr
    subst hpop
    exact .inl ⟨rfl, rfl, rfl, rfl, fun hret => by simp [hret] at hrun⟩
  | accept hc _ hrun hr =>
    have hread := step_read hc hr
    subst hread
    exact .inr ⟨_, _, rfl, hc, hrun, rfl⟩

def CommandGet.AllAccepted (s : CommandGet) : Prop := ∀ a ∈ s.accepts, a.2 = .ok

/-- What holds where the disk thread is: it has handed all it read to
`accept_block`; it returns on a block numbered 0, or on the first failure, with
the block that failed still in the ring. -/
def DiskPlaced (s : CommandGet) : Disk → Prop
  | .running => s.ring.reads = s.accepts.map Prod.fst ∧ s.AllAccepted
  | .returned =>
    (∃ stop, blockNumber stop = 0 ∧ s.ring.reads = s.accepts.map Prod.fst ++ [stop] ∧
      s.AllAccepted) ∨
    (∃ a before slot, a.2 ≠ .ok ∧ s.accepts = before ++ [a] ∧ s.ring.consumer = .read slot ∧
      s.ring.reads = s.accepts.map Prod.fst ∧ ∀ b ∈ before, b.2 = .ok)

theorem step_diskPlaced (h : DiskPlaced s s.disk) (hs : s.step cfg e = some t) :
    DiskPlaced t t.disk := by
  rcases step_disk hs with ⟨hreads, hacc, hdisk, -, hcons⟩ | ⟨res, slot, rfl, hc, hrun, rfl⟩
  · cases hd : s.disk with
    | running =>
      simp only [hdisk, hd, DiskPlaced, CommandGet.AllAccepted, hreads, hacc] at h ⊢
      exact h
    | returned =>
      simp only [hdisk, hd, DiskPlaced, CommandGet.AllAccepted, hreads, hacc, hcons hd] at h ⊢
      exact h
  · rw [hrun] at h
    obtain ⟨hreads, hall⟩ := h
    simp only [CommandGet.accept]
    split
    · rename_i h0
      exact .inl ⟨_, h0, by simp [hreads], hall⟩
    · cases hok : (acceptBlock cfg res s.file (blockNumber (s.ring.ring.datagrams slot))
        (List.drop 6 (s.ring.ring.datagrams slot))).2 with
      | true =>
        have hres : res = .ok := (acceptBlock_ok ..).mp hok
        refine ⟨by simp [hreads], ?_⟩
        simp only [CommandGet.AllAccepted, List.forall_mem_append, List.forall_mem_singleton]
        exact ⟨hall, hres⟩
      | false =>
        have hres : res ≠ .ok := fun he => by simp [(acceptBlock_ok ..).mpr he] at hok
        exact .inr ⟨(_, res), s.accepts, slot, hres, rfl, rfl, by simp [hreads], hall⟩

def Event.diskFails : Event → Bool
  | .accept res => res ≠ .ok
  | _ => false

def DiskWorks (e : Event) : Prop := e.diskFails = false

instance (e : Event) : Decidable (DiskWorks e) := inferInstanceAs (Decidable (_ = _))

theorem step_allAccepted (h : s.AllAccepted) (hd : DiskWorks e) (hs : s.step cfg e = some t) :
    t.AllAccepted := by
  rcases step_disk hs with ⟨-, hacc, -⟩ | ⟨res, slot, rfl, hc, hrun, rfl⟩
  · rw [CommandGet.AllAccepted, hacc]
    exact h
  · simp only [CommandGet.accept]
    split
    · exact h
    · simp only [CommandGet.AllAccepted, List.forall_mem_append, List.forall_mem_singleton]
      exact ⟨h, by simpa [DiskWorks, Event.diskFails] using hd⟩

-- ---------------------------------------------------------------------------
-- Every run
-- ---------------------------------------------------------------------------

structure SafeBooks (cfg : Config) (s : CommandGet) : Prop where
  left : s.xfer.blocksLeft =
    ((Finset.Icc 1 cfg.blockCount).filter fun b => getBit s.xfer.received b = false).card
  range : ∀ d ∈ s.queued, 1 ≤ blockNumber d ∧ blockNumber d ≤ cfg.blockCount
  fresh : (s.queued.map blockNumber).Nodup
  put : s.ring.confirmed = s.queued ∨ ∃ stop, s.ring.confirmed = s.queued ++ [stop]
  disk : s.disk = .returned → ∃ stop, blockNumber stop = 0 ∧ s.ring.confirmed = s.queued ++ [stop]

theorem Counted.left_eq (h : Counted cfg x numbers) : x.blocksLeft =
    ((Finset.Icc 1 cfg.blockCount).filter fun b => getBit x.received b = false).card := by
  rw [h.left, missing, h.blockCount]
  congr 1
  refine Finset.filter_congr fun b hb => ?_
  rw [gotBlock_of_le (h.blockCount.symm ▸ (Finset.mem_Icc.mp hb).2)]

theorem Placed.books (h : Placed cfg s n) :
    (∃ numbers, Counted cfg s.xfer numbers) ∧ ∃ x, Counted cfg x s.numbers := by
  cases n with
  | receiving | looking | aborted => exact ⟨⟨_, h.counted⟩, _, h.counted⟩
  | reserving i | copying i | confirming i =>
    cases i
    · exact ⟨⟨_, h.1.counted⟩, _, h.1.counted⟩
    · exact ⟨⟨_, h.1.counted⟩, _, h.1.counted⟩
  | controlling =>
    obtain ⟨⟨numbers, hcount, hnumbers⟩, hnew, -⟩ := h
    exact ⟨⟨numbers, hcount⟩, _, hnumbers ▸ hcount.mark hnew⟩
  | stopping | joining | counting _ _ | returned => exact ⟨⟨_, h.1.counted⟩, _, h.1.counted⟩

theorem Placed.put (h : Placed cfg s n) : s.ring.confirmed = s.queued ∨
    ∃ stop, blockNumber stop = 0 ∧ s.ring.confirmed = s.queued ++ [stop] := by
  cases n with
  | receiving | looking | aborted => exact .inl h.confirmed
  | reserving i | copying i | confirming i =>
    cases i
    · exact .inl h.1.confirmed
    · first | exact .inl h.2 | exact .inl h.2.1
  | controlling => exact .inl h.2.2
  | stopping => exact .inl h.2
  | joining | counting _ _ | returned => exact .inr h.2

theorem Placed.left_of_stop (h : Placed cfg s n) (hconf : s.ring.confirmed = s.queued ++ [stop]) :
    Left cfg s := by
  have hnot : s.ring.confirmed ≠ s.queued := by simp [hconf]
  cases n with
  | receiving | looking | aborted => exact absurd h.confirmed hnot
  | reserving i | copying i | confirming i =>
    cases i
    · exact absurd h.1.confirmed hnot
    · exact h.1
  | controlling => exact absurd h.2.2 hnot
  | stopping | joining | counting _ _ | returned => exact h.1

theorem returned_on_stop (hp : Placed cfg s n) (hd : DiskPlaced s .returned) (hall : s.AllAccepted)
    (hr : RingInv s.ring) :
    ∃ stop, blockNumber stop = 0 ∧ s.ring.confirmed = s.queued ++ [stop] := by
  rcases hd with ⟨stop, h0, hreads, -⟩ | ⟨a, before, -, hne, hacc, -⟩
  · rcases hp.put with hconf | hstop
    · obtain ⟨-, x, hcount⟩ := hp.books
      have hmem : stop ∈ s.queued := by
        rw [← hconf, hr.history, hreads]
        simp
      have hpos := (hcount.range _ (List.mem_map_of_mem hmem)).1
      omega
    · exact hstop
  · exact absurd (hall a (by simp [hacc])) hne

theorem accepted_all (hreads : s.ring.reads = s.accepts.map Prod.fst ++ [last])
    (h0 : blockNumber last = 0) (hh : s.ring.confirmed = s.ring.reads ++ rest)
    (hconf : s.ring.confirmed = s.queued ++ [stop]) (hq : ∀ d ∈ s.queued, blockNumber d ≠ 0) :
    s.accepts.map Prod.fst = s.queued := by
  rw [hconf, hreads] at hh
  rcases List.eq_nil_or_concat rest with rfl | ⟨init, x, rfl⟩
  · rw [List.append_nil] at hh
    exact (List.append_inj' hh rfl).1.symm
  · -- something was read after it: it is one of the queued blocks
    rw [List.concat_eq_append, ← List.append_assoc] at hh
    have hmem : last ∈ s.queued := by
      rw [(List.append_inj' hh rfl).1]
      simp
    exact absurd h0 (hq last hmem)

theorem commandGet_placed (h : (commandGet cfg).ReachableBy P s)
    (hP : ∀ s e, P s e → NoBlockZero s e) :
    Placed cfg s s.network :=
  h.invariant (by rintro s ⟨slots, rfl⟩; exact create_placed cfg slots)
    fun _ _ _ _ hi hp hs => step_placed hi (hP _ _ hp) hs

theorem commandGet_diskPlaced (h : (commandGet cfg).Reachable s) : DiskPlaced s s.disk :=
  h.invariant (by rintro s ⟨slots, rfl⟩; exact ⟨rfl, fun _ ha => absurd ha (List.not_mem_nil)⟩)
    fun _ _ _ hi hs => step_diskPlaced hi hs

theorem commandGet_allAccepted (h : (commandGet cfg).ReachableBy P s)
    (hP : ∀ s e, P s e → DiskWorks e) :
    s.AllAccepted :=
  h.invariant (by rintro s ⟨slots, rfl⟩; exact fun _ ha => absurd ha (List.not_mem_nil))
    fun _ _ _ _ hi hp hs => step_allAccepted hi (hP _ _ hp) hs

/-- Whatever datagrams arrive, the books are right as long as none numbered 0
is looked at while the ring has room. -/
theorem books_safe_without_block_zero
    (h : (commandGet cfg).ReachableBy (fun s e => NoBlockZero s e ∧ DiskWorks e) s) :
    SafeBooks cfg s := by
  have hplaced := commandGet_placed h fun _ _ hp => hp.1
  obtain ⟨⟨numbers, hcount⟩, x, hnumbers⟩ := hplaced.books
  refine ⟨hcount.left_eq, fun d hd => hnumbers.range _ (List.mem_map_of_mem hd),
    hnumbers.nodup, ?_, ?_⟩
  · exact hplaced.put.imp_right fun ⟨stop, _, hconf⟩ => ⟨stop, hconf⟩
  · intro hret
    have hdisk := commandGet_diskPlaced h.reachable
    rw [hret] at hdisk
    exact returned_on_stop hplaced hdisk (commandGet_allAccepted h fun _ _ hp => hp.2)
      (ring_inv (commandGet_ring h.reachable))

def sampleDatagram (blockSize b ty : Nat) : Datagram := header b ty ++ List.replicate blockSize 0

@[simp] theorem length_sampleDatagram (blockSize b ty : Nat) :
    (sampleDatagram blockSize b ty).length = 6 + blockSize := by
  simp [sampleDatagram]

theorem books_safe_without_block_zero_two_blocks :
    ∃ s : CommandGet, s.numbers = [2, 1] ∧ SafeBooks ⟨defaultParameter 4, 8, 2⟩ s := by
  let cfg : Config := ⟨defaultParameter 4, 8, 2⟩
  let events : List Event :=
    [.recv (sampleDatagram 4 2 tsBlockTerminate), .look quietOracle, .reserve, .copy, .confirm,
      .control quietOracle, .peek, .accept .ok, .pop,
    .recv (sampleDatagram 4 1 tsBlockRetransmission), .look quietOracle, .reserve, .copy, .confirm]
  have hrun : ((commandGet cfg).checkedRun (fun s e => NoBlockZero s e ∧ DiskWorks e)
      (.create cfg fun _ => []) events).map (fun s => s.numbers) = some [2, 1] := by decide +kernel
  obtain ⟨s, hs, hnumbers⟩ := Option.map_eq_some_iff.mp hrun
  exact ⟨s, hnumbers, books_safe_without_block_zero
    (.path (.init ⟨_, rfl⟩) (.checkedRun hs))⟩

/-- A datagram numbered 0 passes `got_block`: it is counted off and put into
the ring, and the disk thread takes it for the stop block. -/
theorem block_zero_breaks_books :
    ∃ s : CommandGet, (commandGet ⟨defaultParameter 4, 4, 1⟩).ReachableBy
      (fun _ e => DiskWorks e) s ∧ s.network = .receiving ∧ s.xfer.blocksLeft = 0 ∧
      getBit s.xfer.received 1 = false ∧ s.numbers = [0] ∧ s.disk = .returned ∧
      ¬SafeBooks ⟨defaultParameter 4, 4, 1⟩ s := by
  let cfg : Config := ⟨defaultParameter 4, 4, 1⟩
  let events : List Event :=
    [.recv (sampleDatagram 4 0 tsBlockOriginal), .look quietOracle, .reserve, .copy, .confirm,
      .control quietOracle, .peek, .accept .ok]
  have hrun :
      ((commandGet cfg).checkedRun (fun _ e => DiskWorks e) (.create cfg fun _ => []) events).map
      (fun s => (s.network, s.xfer.blocksLeft, getBit s.xfer.received 1, s.numbers, s.disk)) =
        some (.receiving, 0, false, [0], .returned) := by decide +kernel
  obtain ⟨s, hs, hproj⟩ := Option.map_eq_some_iff.mp hrun
  simp only [Prod.mk.injEq] at hproj
  obtain ⟨hnet, hleft, hbit, hnumbers, hdisk⟩ := hproj
  refine ⟨s, .path (.init ⟨_, rfl⟩) (.checkedRun hs), hnet, hleft, hbit, hnumbers, hdisk, ?_⟩
  intro hsafe
  have hzero : 0 ∈ s.queued.map blockNumber := by
    rw [show s.queued.map blockNumber = [0] from hnumbers]
    simp
  obtain ⟨d, hd, hd0⟩ := List.mem_map.mp hzero
  have hpos := (hsafe.range d hd).1
  omega

end Tsunami.Client
