import Tsunami.Client.ProtocolLaws
import Tsunami.Lib.Transition

/-!
# No missing block is forgotten

What an iteration of the receive loop does to the books on the blocks: which
fields its control logic leaves alone, and that in lossless mode every block
before the head of the stream is received or stands in the table of requests.
-/

namespace Tsunami.Client

open Bytes Transition

-- ---------------------------------------------------------------------------
-- What the control logic leaves alone
-- ---------------------------------------------------------------------------

structure KeptByRequests (R : Transfer → Transfer → Prop) : Prop where
  refl (x : Transfer) : R x x
  trans : R x y → R y z → R x z
  table : SameButTable x y → R x y
  requests (w : WriteResult) (x : Transfer) : R x (ttpRepeatRetransmit w x).xfer
  stats (param : Parameter) (c : Int) (w : WriteResult) (x : Transfer) :
    R x (sendErrorRate param c w x).xfer

structure KeptByControl (R : Transfer → Transfer → Prop) : Prop extends KeptByRequests R where
  heads (x : Transfer) (next gapless : Nat) (pending : Bool) :
    R x { x with nextBlock := next, gaplessToBlock := gapless, restartPending := pending }

theorem ttpUpdateStats_sent (h : ttpUpdateStats param c w x = some sent) :
    sent = sendErrorRate param c w x := by
  simp only [ttpUpdateStats] at h
  split at h
  · cases h
  · exact (Option.some.inj h).symm

theorem sendErrorRate_records (h : r ∈ (sendErrorRate param c w x).records) :
    ∃ rate, r = ⟨requestErrorRate, 0, u32 rate⟩ := by
  simp only [sendErrorRate] at h
  split at h <;> exact ⟨_, List.mem_singleton.mp (WriteResult.mem_of_mem_taken h)⟩

/-- How `send_stats` can end: there is nothing to send, everything is sent, or
the loop is left after the requests. -/
theorem sendStats_cases (param : Parameter) (o : Oracle) (x : Transfer) :
    sendStats param o x = ⟨x, [], .next⟩ ∨
    (ttpRepeatRetransmit o.atRepeat x).ok = true ∧
      sendStats param o x =
        ⟨(sendErrorRate param o.countData o.atStats (ttpRepeatRetransmit o.atRepeat x).xfer).xfer,
          (ttpRepeatRetransmit o.atRepeat x).records ++ (sendErrorRate param o.countData o.atStats
            (ttpRepeatRetransmit o.atRepeat x).xfer).records, .next⟩ ∨
    sendStats param o x =
      ⟨(ttpRepeatRetransmit o.atRepeat x).xfer, (ttpRepeatRetransmit o.atRepeat x).records,
        .abort⟩ := by
  simp only [sendStats, updateAfter, ttpUpdateStats]
  split
  · split
    · rename_i hok
      by_cases htrap : u32 ((ttpRepeatRetransmit o.atRepeat x).xfer.stats.totalRetransmits +
          (ttpRepeatRetransmit o.atRepeat x).xfer.stats.totalBlocks) = 0
      · simp only [if_pos htrap]
        exact .inr (.inr trivial)
      · simp only [if_neg htrap]
        exact .inr (.inl ⟨hok, trivial⟩)
    · exact .inr (.inr rfl)
  · exact .inl rfl

section
variable {R : Transfer → Transfer → Prop}

theorem KeptByRequests.requestRange (hR : KeptByRequests R)
    (h : Client.requestRange realloc x first last = some y) : R x y :=
  hR.table (requestRange_queued h).frame

theorem KeptByRequests.terminate (hR : KeptByRequests R) (param : Parameter) (o : Oracle)
    (x : Transfer) :
    R x (Client.terminate param o x).xfer := by
  simp only [Client.terminate]
  split
  · exact hR.refl x
  · split
    · exact hR.refl x
    · split
      · exact hR.refl x
      · rename_i y hy
        exact hR.trans (hR.requestRange hy) (hR.requests _ y)

theorem KeptByRequests.sendStats (hR : KeptByRequests R) (param : Parameter) (o : Oracle)
    (x : Transfer) :
    R x (Client.sendStats param o x).xfer := by
  have hrep := hR.requests o.atRepeat x
  rcases sendStats_cases param o x with heq | ⟨-, heq⟩ | heq
  · exact heq ▸ hR.refl x
  · exact heq ▸ hR.trans hrep (hR.stats ..)
  · exact heq ▸ hrep

theorem KeptByControl.queueMissing (hR : KeptByControl R)
    (h : Client.queueMissing param o x b = some y) : R x y := by
  simp only [Client.queueMissing] at h
  split at h
  · exact hR.requestRange h
  · split at h
    · cases h
      exact hR.heads x x.nextBlock b x.restartPending
    · simp only [Option.map_eq_some_iff] at h
      obtain ⟨z, hz, rfl⟩ := h
      exact hR.trans (hR.requestRange hz) (hR.heads z _ _ z.restartPending)

theorem KeptByControl.advanceHead (hR : KeptByControl R) (x : Transfer) (b ty : Nat) :
    R x (Client.advanceHead x b ty) := by
  simp only [Client.advanceHead, leaveRestart, expectNext]
  split <;> split <;> exact hR.heads x _ _ _

theorem KeptByControl.control (hR : KeptByControl R) (param : Parameter) (o : Oracle) (x : Transfer)
    (b ty : Nat) : R x (Client.control param o x b ty).xfer := by
  simp only [Client.control]
  split
  · exact hR.refl x
  · split
    · exact hR.refl x
    · rename_i y hy
      have hxy : R x y := by
        split at hy
        · exact hR.queueMissing hy
        · cases hy
          exact hR.refl x
      have hhead := hR.trans hxy (hR.advanceHead y b ty)
      split
      · exact hR.trans hhead (hR.terminate ..)
      · exact hhead

theorem KeptByControl.controlAndStats (hR : KeptByControl R) (param : Parameter) (o : Oracle)
    (x : Transfer) (b ty : Nat) : R x (Client.controlAndStats param o x b ty).xfer := by
  have hctl := hR.control param o x b ty
  simp only [Client.controlAndStats]
  split
  · exact hR.trans hctl (hR.sendStats ..)
  · exact hctl

end

structure SameBlocks (x y : Transfer) : Prop where
  fileSize : y.fileSize = x.fileSize
  blockCount : y.blockCount = x.blockCount
  received : y.received = x.received
  blocksLeft : y.blocksLeft = x.blocksLeft

theorem SameBlocks.refl (x : Transfer) : SameBlocks x x := ⟨rfl, rfl, rfl, rfl⟩

theorem SameBlocks.trans (h : SameBlocks x y) (h' : SameBlocks y z) : SameBlocks x z where
  fileSize := h'.fileSize.trans h.fileSize
  blockCount := h'.blockCount.trans h.blockCount
  received := h'.received.trans h.received
  blocksLeft := h'.blocksLeft.trans h.blocksLeft

theorem SameBlocks.gotBlock (h : SameBlocks x y) (b : Nat) : gotBlock y b = gotBlock x b :=
  gotBlock_congr h.blockCount h.received b

theorem SameButTable.sameBlocks (h : SameButTable x y) : SameBlocks x y := by
  rw [SameButTable] at h
  rw [h]
  exact ⟨rfl, rfl, rfl, rfl⟩

theorem countReceived_sameBlocks (x : Transfer) (ty : Nat) : SameBlocks x (countReceived x ty) :=
  ⟨rfl, rfl, rfl, rfl⟩

theorem ttpRepeatRetransmit_sameBlocks (w : WriteResult) (x : Transfer) :
    SameBlocks x (ttpRepeatRetransmit w x).xfer := by
  simp only [ttpRepeatRetransmit]
  split
  · split <;> exact ⟨rfl, rfl, rfl, rfl⟩
  · exact ⟨rfl, rfl, rfl, rfl⟩

theorem sendErrorRate_sameBlocks (param : Parameter) (c : Int) (w : WriteResult) (x : Transfer) :
    SameBlocks x (sendErrorRate param c w x).xfer := by
  simp only [sendErrorRate]
  split <;> exact ⟨rfl, rfl, rfl, rfl⟩

theorem SameBlocks.kept : KeptByControl SameBlocks where
  refl := .refl
  trans := .trans
  table := SameButTable.sameBlocks
  requests := ttpRepeatRetransmit_sameBlocks
  stats := sendErrorRate_sameBlocks
  heads _ _ _ _ := ⟨rfl, rfl, rfl, rfl⟩

structure SameProgress (x y : Transfer) : Prop where
  blocks : SameBlocks x y
  gaplessToBlock : y.gaplessToBlock = x.gaplessToBlock

theorem SameProgress.refl (x : Transfer) : SameProgress x x := ⟨.refl x, rfl⟩

theorem SameProgress.trans (h : SameProgress x y) (h' : SameProgress y z) : SameProgress x z :=
  ⟨h.blocks.trans h'.blocks, h'.gaplessToBlock.trans h.gaplessToBlock⟩

theorem SameButTable.sameProgress (h : SameButTable x y) : SameProgress x y := by
  refine ⟨h.sameBlocks, ?_⟩
  rw [SameButTable] at h
  rw [h]

theorem countReceived_sameProgress (x : Transfer) (ty : Nat) :
    SameProgress x (countReceived x ty) :=
  ⟨countReceived_sameBlocks x ty, rfl⟩

theorem ttpRepeatRetransmit_sameProgress (w : WriteResult) (x : Transfer) :
    SameProgress x (ttpRepeatRetransmit w x).xfer := by
  refine ⟨ttpRepeatRetransmit_sameBlocks w x, ?_⟩
  simp only [ttpRepeatRetransmit]
  split
  · split <;> rfl
  · rfl

theorem sendErrorRate_sameProgress (param : Parameter) (c : Int) (w : WriteResult) (x : Transfer) :
    SameProgress x (sendErrorRate param c w x).xfer := by
  refine ⟨sendErrorRate_sameBlocks param c w x, ?_⟩
  simp only [sendErrorRate]
  split <;> rfl

theorem SameProgress.kept : KeptByRequests SameProgress where
  refl := .refl
  trans := .trans
  table := SameButTable.sameProgress
  requests := ttpRepeatRetransmit_sameProgress
  stats := sendErrorRate_sameProgress

theorem iteration_sameBlocks (param : Parameter) (o : Oracle) (full : Bool) (x : Transfer)
    (b ty : Nat) :
    SameBlocks (if full = false ∧ gotBlock x b = false then markReceived x b else x)
      (iteration param o full x b ty).xfer := by
  have hgot : gotBlock (countReceived x ty) b = gotBlock x b := rfl
  simp only [iteration, hgot, relevant]
  cases full
  · cases hb : gotBlock x b
    · simp only [Bool.not_false, Bool.true_or, and_self, if_true, Bool.false_eq_true, if_false]
      have hmark : SameBlocks (markReceived x b) (markReceived (countReceived x ty) b) :=
        ⟨rfl, rfl, rfl, rfl⟩
      exact hmark.trans (SameBlocks.kept.controlAndStats ..)
    · simp only [Bool.true_eq_false, and_false, if_false, if_true]
      split
      · exact (countReceived_sameBlocks x ty).trans (SameBlocks.kept.controlAndStats ..)
      · exact (countReceived_sameBlocks x ty).trans (SameBlocks.kept.sendStats ..)
  · simp only [Bool.true_eq_false, false_and, if_false]
    exact (countReceived_sameBlocks x ty).trans (SameBlocks.kept.sendStats ..)

theorem receive_repeated {param : Parameter} {x : Transfer}
    (h : (receive param o frozen full x b ty).verdict ≠ .abort) (hf : frozen = true) :
    (ttpRepeatRetransmit o.atFrozen x).ok = true := by
  refine eq_true_of_ne_false fun hok => h ?_
  simp only [receive, hf, hok, if_true]
  rfl

theorem receive_sameBlocks (param : Parameter) (full : Bool) (b ty : Nat)
    (h : frozen = true → (ttpRepeatRetransmit o.atFrozen x).ok = true) :
    SameBlocks (if full = false ∧ gotBlock x b = false then markReceived x b else x)
      (receive param o frozen full x b ty).xfer := by
  simp only [receive]
  cases hf : frozen with
  | true =>
    have hrep := ttpRepeatRetransmit_sameBlocks o.atFrozen x
    have hit := iteration_sameBlocks param o full (ttpRepeatRetransmit o.atFrozen x).xfer b ty
    simp only [h hf, if_true]
    refine SameBlocks.trans ?_ hit
    rw [hrep.gotBlock]
    split
    · exact ⟨hrep.fileSize, hrep.blockCount, congrArg (setBit · b) hrep.received, by
        simp only [markReceived, hrep.blocksLeft]⟩
    · exact hrep
  | false =>
    simp only [Bool.false_eq_true, if_false]
    exact iteration_sameBlocks ..

-- ---------------------------------------------------------------------------
-- The invariant of the lossless mode
-- ---------------------------------------------------------------------------

/-- Every missing block before `n` stands in the table, unless a request has
been refused at the cap. -/
def Covered (x : Transfer) (n : Nat) : Prop :=
  x.dropped = false → ∀ b, 1 ≤ b → b < n → gotBlock x b = false → b ∈ x.retransmit.entries

/-- The invariant at the head of an iteration. -/
structure Tracked (n : Nat) (x : Transfer) : Prop where
  blockCount : x.blockCount = n
  bitmap : BitmapFits x
  gaplessLe : x.gaplessToBlock ≤ x.blockCount
  nextLe : x.nextBlock ≤ x.blockCount + 1
  gapless : ∀ b, 1 ≤ b → b ≤ x.gaplessToBlock → gotBlock x b = true
  covered : Covered x x.nextBlock

theorem create_tracked (param : Parameter) (size n : Nat) : Tracked n (.create param size n) where
  blockCount := rfl
  bitmap := by simp [BitmapFits, Transfer.create]
  gaplessLe := Nat.zero_le _
  nextLe := Nat.le_add_left ..
  gapless b h₁ h₀ := absurd (Nat.le_trans h₁ h₀) (Nat.not_succ_le_zero 0)
  covered _ b h₁ hlt := absurd hlt (by simp only [Transfer.create]; omega)

theorem countReceived_tracked (h : Tracked n x) (ty : Nat) : Tracked n (countReceived x ty) :=
  ⟨h.blockCount, h.bitmap, h.gaplessLe, h.nextLe, h.gapless, h.covered⟩

theorem markReceived_tracked (h : Tracked n x) (hb : b ≤ n) : Tracked n (markReceived x b) := by
  have hgot := gotBlock_markReceived h.bitmap (h.blockCount.symm ▸ hb)
  refine ⟨h.blockCount, ?_, h.gaplessLe, h.nextLe, ?_, ?_⟩
  · have hl := h.bitmap
    simp only [BitmapFits] at hl
    simp [BitmapFits, markReceived, hl]
  · intro i h₁ hi
    rw [hgot, h.gapless i h₁ hi, Bool.or_true]
  · intro hd i h₁ hi hmiss
    rw [hgot, Bool.or_eq_false_iff] at hmiss
    exact h.covered hd i h₁ hi hmiss.2

theorem Queued.tracked (hq : Queued x y bs) (h : Tracked n x) : Tracked n y := by
  have hframe := hq.frame
  have hgot := hframe.gotBlock
  rw [SameButTable] at hframe
  have hn : y.nextBlock = x.nextBlock := by rw [hframe]
  have hg : y.gaplessToBlock = x.gaplessToBlock := by rw [hframe]
  have hc : y.blockCount = x.blockCount := by rw [hframe]
  have hr : y.received = x.received := by rw [hframe]
  refine ⟨hc.trans h.blockCount, ?_, ?_, ?_, ?_, ?_⟩
  · rw [BitmapFits, hr, hc]
    exact h.bitmap
  · rw [hg, hc]
    exact h.gaplessLe
  · rw [hn, hc]
    exact h.nextLe
  · intro b h₁ hb
    rw [hgot]
    exact h.gapless b h₁ (hg ▸ hb)
  · intro hd b h₁ hb hmiss
    rw [hgot] at hmiss
    exact hq.keeps (h.covered (hq.dropped hd) b h₁ (hn ▸ hb) hmiss)

theorem requestRange_covered (h : Tracked n x)
    (hq : requestRange realloc x x.nextBlock b = some y) :
    Covered y b := by
  have hq := requestRange_queued hq
  intro hd i h₁ hi hmiss
  rw [hq.frame.gotBlock] at hmiss
  by_cases hnext : i < x.nextBlock
  · exact hq.keeps (h.covered (hq.dropped hd) i h₁ hnext hmiss)
  · exact hq.covers hd (by rw [List.mem_range'_1]; omega) hmiss

/-- The law of the loop over the gapless section: it only moves forward, over
blocks that have been received, and not past the last one. -/
theorem advanceLoop_spec (x : Transfer) (fuel g : Nat) (hg : g ≤ x.blockCount)
    (hn : x.blockCount < 2 ^ 32) (h : ∀ b, 1 ≤ b → b ≤ g → gotBlock x b = true) :
    advanceLoop x fuel g ≤ x.blockCount ∧
      ∀ b, 1 ≤ b → b ≤ advanceLoop x fuel g → gotBlock x b = true := by
  induction fuel generalizing g with
  | zero => exact ⟨hg, h⟩
  | succ fuel ih =>
    simp only [advanceLoop]
    split
    · rename_i hstep
      rw [u32_of_lt (by omega)] at hstep
      refine ih (g + 1) (by omega) fun b h₁ hb => ?_
      by_cases hle : b ≤ g
      · exact h b h₁ hle
      · have heq : b = g + 1 := by omega
        exact heq ▸ hstep.1
    · exact ⟨hg, h⟩

/-- `advanceLoop` has turns enough: where it ends, the source's loop ends. -/
theorem advanceLoop_stops (x : Transfer) (g : Nat) :
    ¬(gotBlock x (u32 (advanceLoop x (x.blockCount - g) g + 1)) ∧
      advanceLoop x (x.blockCount - g) g < x.blockCount) := by
  generalize hf : x.blockCount - g = fuel
  induction fuel generalizing g with
  | zero =>
    simp only [advanceLoop]
    omega
  | succ fuel ih =>
    simp only [advanceLoop]
    split
    · exact ih (g + 1) (by omega)
    · rename_i hstop
      exact hstop

theorem advanceGapless_tracked (h : Tracked n x) (hn : n < 2 ^ 32) :
    Tracked n (advanceGapless x) := by
  have hspec := advanceLoop_spec x (x.blockCount - x.gaplessToBlock) x.gaplessToBlock h.gaplessLe
    (h.blockCount.symm ▸ hn) h.gapless
  exact ⟨h.blockCount, h.bitmap, hspec.1, h.nextLe, hspec.2, h.covered⟩

theorem expectNext_tracked (h : Tracked n x) (hb : b ≤ n) (hgot : gotBlock x b = true)
    (hc : Covered x b) : Tracked n (expectNext x b ty) := by
  have hcount := h.blockCount
  have hwrap : u32 (b + 1) ≤ b + 1 := Nat.mod_le ..
  simp only [expectNext]
  split
  · refine ⟨h.blockCount, h.bitmap, h.gaplessLe, by simp only; omega, h.gapless, ?_⟩
    intro hd i h₁ hi hmiss
    have hne : i ≠ b := by
      rintro rfl
      exact Bool.false_ne_true (hmiss.symm.trans hgot)
    exact hc hd i h₁ (by simp only at hi; omega) hmiss
  · exact h

theorem leaveRestart_tracked (h : Tracked n x) : Tracked n (leaveRestart x) := by
  simp only [leaveRestart]
  split
  · exact ⟨h.blockCount, h.bitmap, h.gaplessLe, h.nextLe, h.gapless, h.covered⟩
  · exact h

theorem advanceHead_tracked (h : Tracked n x) (hn : n < 2 ^ 32) (hb : b ≤ n)
    (hgot : gotBlock x b = true) (hc : Covered x b) : Tracked n (advanceHead x b ty) :=
  leaveRestart_tracked (expectNext_tracked (advanceGapless_tracked h hn) hb hgot hc)

theorem ttpRepeatRetransmit_tracked (h : Tracked n x) :
    Tracked n (ttpRepeatRetransmit .ok x).xfer := by
  rcases ttpRepeatRetransmit_cases x with ⟨r, st, -, hr, hrep⟩ | ⟨r, st, l, -, -, hrep⟩
  · rw [hrep]
    refine ⟨h.blockCount, h.bitmap, h.gaplessLe, h.nextLe, h.gapless, ?_⟩
    intro hd b h₁ hb hmiss
    rw [hr]
    exact mem_wanted.mpr ⟨h.covered hd b h₁ hb hmiss, by omega, hmiss⟩
  · -- the head goes back to the first missing block: nothing before it is missing
    rw [hrep]
    refine ⟨h.blockCount, h.bitmap, h.gaplessLe, by simp only; omega, h.gapless, ?_⟩
    intro _ b h₁ hb hmiss
    have hwrap : u32 (x.gaplessToBlock + 1) ≤ x.gaplessToBlock + 1 := Nat.mod_le ..
    have hgot : gotBlock x b = true := h.gapless b h₁ (by simp only at hb; omega)
    exact absurd (hmiss.symm.trans hgot) Bool.false_ne_true

theorem terminate_tracked (h : Tracked n x) (ho : o.atTerminate = .ok) :
    Tracked n (terminate param o x).xfer := by
  simp only [terminate]
  split
  · exact h
  · split
    · exact h
    · split
      · exact h
      · rename_i y hy
        rw [ho]
        exact ttpRepeatRetransmit_tracked ((requestRange_queued hy).tracked h)

theorem control_tracked (h : Tracked n x) (hn : n < 2 ^ 32) (hl : param.lossless = true)
    (hb : b ≤ n) (hgot : gotBlock x b = true) (ho : o.atTerminate = .ok) :
    Tracked n (control param o x b ty).xfer := by
  simp only [control, queueMissing, hl, if_true]
  split
  · exact h
  · split
    · exact h
    · rename_i y hy
      have hy : Tracked n y ∧ gotBlock y b = true ∧ Covered y b := by
        split at hy
        · have hq := requestRange_queued hy
          exact ⟨hq.tracked h, (hq.frame.gotBlock b).trans hgot, requestRange_covered h hy⟩
        · cases hy
          refine ⟨h, hgot, fun hd i h₁ hi => h.covered hd i h₁ (by omega)⟩
      have hhead : Tracked n (advanceHead y b ty) := advanceHead_tracked hy.1 hn hb hy.2.1 hy.2.2
      split
      · exact terminate_tracked hhead ho
      · exact hhead

theorem sendStats_tracked (h : Tracked n x) (ho : o.atRepeat = .ok) :
    Tracked n (sendStats param o x).xfer := by
  have hrep := ttpRepeatRetransmit_tracked h
  have hcases := sendStats_cases param o x
  rw [ho] at hcases
  rcases hcases with heq | ⟨-, heq⟩ | heq
  · exact heq ▸ h
  · rw [heq]
    simp only [sendErrorRate]
    split <;> exact ⟨hrep.blockCount, hrep.bitmap, hrep.gaplessLe, hrep.nextLe,
      hrep.gapless, hrep.covered⟩
  · exact heq ▸ hrep

theorem controlAndStats_tracked (h : Tracked n x) (hn : n < 2 ^ 32) (hl : param.lossless = true)
    (hb : b ≤ n) (hgot : gotBlock x b = true) (ht : o.atTerminate = .ok) (hs : o.atRepeat = .ok) :
    Tracked n (controlAndStats param o x b ty).xfer := by
  have hctl : Tracked n (control param o x b ty).xfer := control_tracked h hn hl hb hgot ht
  simp only [controlAndStats]
  split
  · exact sendStats_tracked hctl hs
  · exact hctl

theorem iteration_tracked (h : Tracked n x) (hn : n < 2 ^ 32) (hl : param.lossless = true)
    (hb : b ≤ n) (ht : o.atTerminate = .ok) (hs : o.atRepeat = .ok) :
    Tracked n (iteration param o full x b ty).xfer := by
  have hcount := countReceived_tracked h ty
  simp only [iteration]
  split
  · split
    · rename_i hgot
      exact controlAndStats_tracked hcount hn hl hb hgot ht hs
    · have hgot := gotBlock_markReceived hcount.bitmap (hcount.blockCount.symm ▸ hb) b
      rw [decide_eq_true rfl, Bool.true_or] at hgot
      exact controlAndStats_tracked (markReceived_tracked hcount hb) hn hl hb hgot ht hs
  · exact sendStats_tracked hcount hs

theorem receive_tracked (h : Tracked n x) (hn : n < 2 ^ 32) (hl : param.lossless = true)
    (hb : b ≤ n) (hf : o.atFrozen = .ok) (ht : o.atTerminate = .ok) (hs : o.atRepeat = .ok) :
    Tracked n (receive param o frozen full x b ty).xfer := by
  simp only [receive, hf]
  split
  · have hrep := ttpRepeatRetransmit_tracked h
    split
    · exact iteration_tracked hrep hn hl hb ht hs
    · exact hrep
  · exact iteration_tracked h hn hl hb ht hs

-- ---------------------------------------------------------------------------
-- Every run
-- ---------------------------------------------------------------------------

structure Arrival where
  frozen : Bool
  full : Bool
  oracle : Oracle
  thisBlock : Nat
  thisType : Nat

def receiveLoop (param : Parameter) (fileSize blockCount : Nat) : System Transfer Arrival where
  init x := x = .create param fileSize blockCount
  step x a :=
    let r := receive param a.oracle a.frozen a.full x a.thisBlock a.thisType
    if r.verdict = .next then some r.xfer else none

def Arrival.Takes (a : Arrival) (b : Nat) : Prop := a.full = false ∧ a.thisBlock = b

/-- A datagram of the transfer, of any type, with the control writes of its
iteration successful. -/
structure Arrival.Benign (n : Nat) (a : Arrival) : Prop where
  pos : 1 ≤ a.thisBlock
  le : a.thisBlock ≤ n
  atFrozen : a.oracle.atFrozen = .ok
  atTerminate : a.oracle.atTerminate = .ok
  atRepeat : a.oracle.atRepeat = .ok

theorem receiveLoop_step_tracked (h : Tracked n x) (hn : n < 2 ^ 32) (hl : param.lossless = true)
    (ha : a.Benign n) (hs : (receiveLoop param size m).step x a = some y) : Tracked n y := by
  simp only [receiveLoop, Option.ite_none_right_eq_some, Option.some.injEq] at hs
  obtain ⟨-, rfl⟩ := hs
  exact receive_tracked h hn hl ha.le ha.atFrozen ha.atTerminate ha.atRepeat

theorem receiveLoop_step_gotBlock (h : Tracked n x) (ha : a.thisBlock ≤ n)
    (hs : (receiveLoop param size m).step x a = some y) (b : Nat) :
    gotBlock y b = true ↔ gotBlock x b = true ∨ a.Takes b := by
  simp only [receiveLoop, Option.ite_none_right_eq_some, Option.some.injEq] at hs
  obtain ⟨hv, rfl⟩ := hs
  have hok := receive_repeated (by rw [hv]; exact Verdict.noConfusion)
  rw [(receive_sameBlocks _ _ _ _ hok).gotBlock, Arrival.Takes]
  split
  · rename_i hnew
    rw [gotBlock_markReceived h.bitmap (h.blockCount.symm ▸ ha)]
    simp [hnew.1, or_comm]
  · rename_i hold
    constructor
    · exact .inl
    · rintro (hgot | ⟨hroom, rfl⟩)
      · exact hgot
      · exact eq_true_of_ne_false fun hmiss => hold ⟨hroom, hmiss⟩

theorem receiveLoop_run (h : Tracked n x) (hn : n < 2 ^ 32) (hl : param.lossless = true)
    (ha : ∀ a ∈ arrivals, Arrival.Benign n a)
    (hr : (receiveLoop param size m).run x arrivals = some y) :
    Tracked n y ∧ ∀ b, gotBlock y b = true ↔ gotBlock x b = true ∨ ∃ a ∈ arrivals, a.Takes b := by
  induction arrivals generalizing x with
  | nil =>
    cases hr
    simpa using h
  | cons a as ih =>
    obtain ⟨z, hz, hy⟩ := System.run_cons.mp hr
    have hz' := receiveLoop_step_tracked h hn hl (ha a (by simp)) hz
    obtain ⟨htr, hgot⟩ := ih hz' (fun a' ha' => ha a' (by simp [ha'])) hy
    refine ⟨htr, fun b => ?_⟩
    rw [hgot, receiveLoop_step_gotBlock h (ha a (by simp)).le hz b]
    simp [or_assoc]

theorem gotBlock_create (h : b ≤ n) : gotBlock (.create param size n) b = false := by
  rw [gotBlock_of_le (by exact h)]
  exact getBit_replicate_zero ..

/-- In lossless mode no missing block is forgotten: at the head of every
iteration the gapless section has been received, and a block before the head
of the stream that has not been received stands in the table, unless a request
was refused at the cap. -/
theorem no_missing_block_forgotten (hl : param.lossless = true) (hn : n < 2 ^ 32)
    (ha : ∀ a ∈ arrivals, Arrival.Benign n a)
    (hr : (receiveLoop param size n).run (.create param size n) arrivals = some x) :
    (∀ b, 1 ≤ b → b ≤ x.gaplessToBlock → ∃ a ∈ arrivals, a.Takes b) ∧
    (x.dropped = false → ∀ b, 1 ≤ b → b < x.nextBlock → (¬∃ a ∈ arrivals, a.Takes b) →
      b ∈ x.retransmit.table.take x.retransmit.indexMax) := by
  obtain ⟨htr, hgot⟩ := receiveLoop_run (create_tracked param size n) hn hl ha hr
  have hreceived : ∀ b, b ≤ n → (gotBlock x b = true ↔ ∃ a ∈ arrivals, a.Takes b) := by
    intro b hb
    rw [hgot, gotBlock_create hb]
    simp
  have hcount := htr.blockCount
  have hg := htr.gaplessLe
  have hnext := htr.nextLe
  constructor
  · intro b h₁ hb
    exact (hreceived b (by omega)).mp (htr.gapless b h₁ hb)
  · intro hd b h₁ hb hmiss
    refine htr.covered hd b h₁ hb ?_
    rw [← hreceived b (by omega)] at hmiss
    exact eq_false_of_ne_true hmiss

def defaultParameter (blockSize : Nat) : Parameter := ⟨blockSize, 650000000, 25, true, 0⟩

def quietOracle : Oracle := ⟨fun _ => true, 0, false, 0, .ok, .ok, .ok, .ok⟩

/-- Block 3 first, then block 1 with the ring full, then the last of four
blocks: the first two are missing, and both have been requested. -/
theorem no_missing_block_forgotten_reordered :
    ∃ x : Transfer, x.nextBlock = 4 ∧ 1 ∈ x.retransmit.table.take x.retransmit.indexMax := by
  let arrivals : List Arrival := [⟨false, false, quietOracle, 3, tsBlockOriginal⟩,
    ⟨false, true, quietOracle, 1, tsBlockOriginal⟩,
    ⟨false, false, quietOracle, 4, tsBlockTerminate⟩]
  have hrun : ((receiveLoop (defaultParameter 1024) 4000 4).run
      (.create (defaultParameter 1024) 4000 4) arrivals).map
        (fun x => (x.nextBlock, x.dropped)) = some (4, false) := by decide +kernel
  simp only [Option.map_eq_some_iff, Prod.mk.injEq] at hrun
  obtain ⟨x, hx, hnext, hd⟩ := hrun
  have hbenign : ∀ a ∈ arrivals, Arrival.Benign 4 a := by
    simp only [arrivals, List.forall_mem_cons, List.not_mem_nil, false_implies,
      implies_true, and_true]
    exact ⟨⟨by decide, by decide, rfl, rfl, rfl⟩, ⟨by decide, by decide, rfl, rfl, rfl⟩,
      by decide, by decide, rfl, rfl, rfl⟩
  have hmiss : ¬∃ a ∈ arrivals, a.Takes 1 := by simp [arrivals, Arrival.Takes]
  exact ⟨x, hnext, (no_missing_block_forgotten rfl (by decide) hbenign hx).2 hd 1 (by decide)
    (by omega) hmiss⟩

end Tsunami.Client
