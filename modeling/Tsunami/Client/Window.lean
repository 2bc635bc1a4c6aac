import Tsunami.Client.ReceiveLaws

/-!
# The time window of the semi-lossy mode

Where a datagram opens a gap, the blocks inside the window are asked for again,
and the gapless section is moved up to the first of them. That one then counts
as received, whether or not it is.
-/

namespace Tsunami.Client

open Bytes

variable {x y : Transfer} {param : Parameter} {o : Oracle} {b ty w : Nat}

-- ---------------------------------------------------------------------------
-- The gapless section
-- ---------------------------------------------------------------------------

theorem le_advanceLoop (x : Transfer) (fuel g : Nat) : g ≤ advanceLoop x fuel g := by
  induction fuel generalizing g with
  | zero => exact Nat.le_refl g
  | succ fuel ih =>
    rw [advanceLoop]
    split
    · exact Nat.le_of_succ_le (ih (g + 1))
    · exact Nat.le_refl g

theorem advanceLoop_lt (hb : b < 2 ^ 32) (hmiss : gotBlock x b = false) (fuel : Nat) (hg : g < b) :
    advanceLoop x fuel g < b := by
  induction fuel generalizing g with
  | zero => exact hg
  | succ fuel ih =>
    rw [advanceLoop]
    split
    · rename_i hstep
      refine ih (Nat.lt_of_le_of_ne hg ?_)
      rintro rfl
      rw [u32_of_lt hb, hmiss] at hstep
      exact Bool.false_ne_true hstep.1
    · exact hg

theorem advanceHead_advanced (x : Transfer) (b ty : Nat) :
    SameProgress (advanceGapless x) (advanceHead x b ty) := by
  refine ⟨?_, ?_⟩
  · simp only [advanceHead, leaveRestart, expectNext]
    split <;> split <;> exact ⟨rfl, rfl, rfl, rfl⟩
  · simp only [advanceHead, leaveRestart, expectNext]
    split <;> split <;> rfl

structure Hopped (o : Oracle) (x : Transfer) (b : Nat) (y : Transfer) : Prop where
  blocks : SameBlocks x y
  gapless : y.gaplessToBlock = earliestBlock o x b

theorem queueMissing_hopped (hl : param.lossless = false) (hw : param.losswindowMs ≠ 0)
    (hq : queueMissing param o x b = some y) : Hopped o x b y := by
  simp only [queueMissing, hl, hw, Bool.false_eq_true, if_false, Option.map_eq_some_iff] at hq
  obtain ⟨z, hz, rfl⟩ := hq
  have hsame := (SameProgress.kept.requestRange hz).blocks
  exact ⟨⟨hsame.fileSize, hsame.blockCount, hsame.received, hsame.blocksLeft⟩, rfl⟩

theorem controlAndStats_progress (param : Parameter) (o : Oracle) (x : Transfer) (b ty : Nat) :
    SameProgress (control param o x b ty).xfer (controlAndStats param o x b ty).xfer := by
  simp only [controlAndStats]
  split
  · exact SameProgress.kept.sendStats ..
  · exact .refl _

theorem control_hopped (hnext : x.nextBlock < b) (hwire : onWire x b ty = false)
    (hq : queueMissing param o x b = some y) :
    SameProgress (advanceGapless y) (control param o x b ty).xfer := by
  have hhead := advanceHead_advanced y b ty
  simp only [control, hwire, Bool.false_eq_true, if_false, if_pos hnext, hq]
  split
  · exact hhead.trans (SameProgress.kept.terminate ..)
  · exact hhead

theorem control_unhopped (hnext : x.nextBlock < b)
    (h : onWire x b ty = true ∨ queueMissing param o x b = none) :
    SameProgress x (control param o x b ty).xfer := by
  simp only [control, if_pos hnext]
  split
  · exact .refl x
  · rename_i hwire
    rw [h.resolve_left hwire]
    exact .refl x

-- ---------------------------------------------------------------------------
-- One datagram
-- ---------------------------------------------------------------------------

/-- The block in the middle of the gap at which the window starts is missing, and
the datagram is one that the control logic looks at. -/
structure StartsAtMissing (w : Nat) (x : Transfer) (b ty : Nat) : Prop where
  relevant : relevant x b ty = true
  offWire : onWire x b ty = false
  window : 0 < w ∧ w < b - x.gaplessToBlock
  missing : gotBlock x (b - w) = false

/-- However the calls end and whether or not the ring is full, the missing blocks
of the window, before the datagram, stay behind the gapless section. -/
def KeepsWindow (param : Parameter) (w : Nat) (x : Transfer) (b ty : Nat) : Prop :=
  ∀ o full, o.window = w → ∀ i, b - min w (b - x.gaplessToBlock) ≤ i → i < b →
    x.gaplessToBlock < i → gotBlock (iteration param o full x b ty).xfer i = false →
    (iteration param o full x b ty).xfer.gaplessToBlock < i

theorem earliestBlock_eq (hb : b < 2 ^ 32) (hg : x.gaplessToBlock ≤ b) :
    earliestBlock o x b = b - min o.window (b - x.gaplessToBlock) := by
  have hmissing : u32 (b + 2 ^ 32 - x.gaplessToBlock) = b - x.gaplessToBlock := by
    simp only [u32]
    omega
  rw [earliestBlock, hmissing]
  omega

theorem getBit_setBit_of_ne (m : List UInt8) (h : i ≠ j) : getBit (setBit m i) j = getBit m j := by
  by_cases hlt : i / 8 < m.length
  · rw [getBit_setBit hlt, decide_eq_false h, Bool.false_or]
  · rw [setBit, List.set_eq_of_length_le (by omega)]

theorem gotBlock_markReceived_of_ne (x : Transfer) (h : b ≠ i) :
    gotBlock (markReceived x b) i = gotBlock x i := by
  rw [gotBlock, gotBlock]
  exact congrArg _ (getBit_setBit_of_ne x.received h)

def arrived (x : Transfer) (b ty : Nat) : Transfer :=
  let x := countReceived x ty
  if gotBlock x b then x else markReceived x b

theorem arrived_gapless (x : Transfer) (b ty : Nat) :
    (arrived x b ty).gaplessToBlock = x.gaplessToBlock := by
  simp only [arrived]
  split <;> rfl

theorem arrived_nextBlock (x : Transfer) (b ty : Nat) :
    (arrived x b ty).nextBlock = x.nextBlock := by
  simp only [arrived]
  split <;> rfl

theorem arrived_onWire (x : Transfer) (b ty : Nat) :
    onWire (arrived x b ty) b ty = onWire x b ty := by
  simp only [arrived]
  split <;> rfl

theorem arrived_gotBlock (x : Transfer) (ty : Nat) (h : b ≠ i) :
    gotBlock (arrived x b ty) i = gotBlock x i := by
  simp only [arrived]
  split
  · rfl
  · exact gotBlock_markReceived_of_ne _ h

theorem iteration_gotBlock (param : Parameter) (o : Oracle) (full : Bool) (x : Transfer) (ty : Nat)
    (h : b ≠ i) : gotBlock (iteration param o full x b ty).xfer i = gotBlock x i := by
  rw [(iteration_sameBlocks param o full x b ty).gotBlock]
  split
  · exact gotBlock_markReceived_of_ne x h
  · rfl

theorem iteration_looked (full : Bool) (h : full = false ∧ relevant x b ty = true) :
    iteration param o full x b ty = controlAndStats param o (arrived x b ty) b ty := by
  have hrel : relevant (countReceived x ty) b ty = relevant x b ty := rfl
  simp only [iteration, hrel, if_pos h]
  rfl

theorem iteration_passed (full : Bool) (h : ¬(full = false ∧ relevant x b ty = true)) :
    SameProgress x (iteration param o full x b ty).xfer := by
  have hrel : relevant (countReceived x ty) b ty = relevant x b ty := rfl
  simp only [iteration, hrel, if_neg h]
  exact (countReceived_sameProgress x ty).trans (SameProgress.kept.sendStats ..)

/-- Where the window starts is the only block that can be forgotten. -/
theorem keepsWindow_of_not (hl : param.lossless = false) (hms : param.losswindowMs ≠ 0)
    (hb : b < 2 ^ 32) (hnext : x.nextBlock < b) (h : ¬StartsAtMissing w x b ty) :
    KeepsWindow param w x b ty := by
  intro o full hw i hlow hib hgi hmiss
  rw [iteration_gotBlock param o full x ty (Nat.ne_of_gt hib)] at hmiss
  by_cases hlook : full = false ∧ relevant x b ty = true
  · have hgap := arrived_gapless x b ty
    have hnext' : (arrived x b ty).nextBlock < b := arrived_nextBlock x b ty ▸ hnext
    rw [iteration_looked full hlook,
      (controlAndStats_progress param o (arrived x b ty) b ty).gaplessToBlock]
    cases hwire : onWire (arrived x b ty) b ty with
    | true =>
      rw [(control_unhopped hnext' (.inl hwire)).gaplessToBlock, hgap]
      exact hgi
    | false =>
      cases hq : queueMissing param o (arrived x b ty) b with
      | none =>
        rw [(control_unhopped hnext' (.inr hq)).gaplessToBlock, hgap]
        exact hgi
      | some y =>
        have hop := queueMissing_hopped hl hms hq
        rw [(control_hopped hnext' hwire hq).gaplessToBlock]
        have hearliest := hop.gapless
        rw [earliestBlock_eq hb (by omega), hgap, hw] at hearliest
        refine advanceLoop_lt (Nat.lt_trans hib hb) ?_ _ ?_
        · rw [hop.blocks.gotBlock, arrived_gotBlock x ty (Nat.ne_of_gt hib)]
          exact hmiss
        · rw [hearliest]
          refine Nat.lt_of_le_of_ne hlow fun heq => h
            ⟨hlook.2, arrived_onWire x b ty ▸ hwire, ?_, ?_⟩
          · omega
          · have hstart : b - w = i := by omega
            rw [hstart]
            exact hmiss
  · rw [(iteration_passed full hlook).gaplessToBlock]
    exact hgi

def succeeding (w : Nat) : Oracle := ⟨fun _ => true, w, false, 0, .ok, .ok, .ok, .ok⟩

theorem startsAtMissing_forgets (hl : param.lossless = false) (hms : param.losswindowMs ≠ 0)
    (hb : b < 2 ^ 32) (hnext : x.nextBlock < b) (h : StartsAtMissing w x b ty) :
    gotBlock (iteration param (succeeding w) false x b ty).xfer (b - w) = false ∧
      b - w ≤ (iteration param (succeeding w) false x b ty).xfer.gaplessToBlock := by
  have hwindow := h.window
  have hne : b ≠ b - w := by omega
  refine ⟨by rw [iteration_gotBlock _ _ _ _ _ hne]; exact h.missing, ?_⟩
  have hgap := arrived_gapless x b ty
  have hnext' : (arrived x b ty).nextBlock < b := arrived_nextBlock x b ty ▸ hnext
  have hwire : onWire (arrived x b ty) b ty = false := (arrived_onWire x b ty).trans h.offWire
  have hsome : ∃ y, queueMissing param (succeeding w) (arrived x b ty) b = some y := by
    obtain ⟨z, hz⟩ := Option.isSome_iff_exists.mp (requestRange_isSome
      (fun _ => rfl : ∀ n, (succeeding w).realloc n = true) (arrived x b ty)
      (earliestBlock (succeeding w) (arrived x b ty) b) b)
    simp [queueMissing, hl, hms, hz]
  obtain ⟨y, hq⟩ := hsome
  have hop := queueMissing_hopped hl hms hq
  rw [iteration_looked false ⟨rfl, h.relevant⟩,
    (controlAndStats_progress _ _ _ b ty).gaplessToBlock,
    (control_hopped hnext' hwire hq).gaplessToBlock]
  have hearliest := hop.gapless
  rw [earliestBlock_eq hb (by omega), hgap] at hearliest
  refine Nat.le_trans ?_ (le_advanceLoop y _ _)
  rw [hearliest]
  simp only [succeeding]
  omega

/-- A datagram that opens a gap keeps the missing blocks of its window within
reach, unless the window starts inside the gap, at a missing block. -/
theorem semi_lossy_keeps_window_iff (hl : param.lossless = false) (hms : param.losswindowMs ≠ 0)
    (hb : b < 2 ^ 32) (hnext : x.nextBlock < b) (w ty : Nat) :
    KeepsWindow param w x b ty ↔ ¬StartsAtMissing w x b ty := by
  constructor
  · intro hkeep h
    obtain ⟨hmiss, hpast⟩ := startsAtMissing_forgets hl hms hb hnext h
    have hwindow := h.window
    have hlt := hkeep (succeeding w) false rfl (b - w) (by omega) (by omega) (by omega) hmiss
    exact absurd hlt (Nat.not_lt.mpr hpast)
  · exact keepsWindow_of_not hl hms hb hnext

def semiLossy : Parameter := ⟨1024, 650000000, 25, false, 1000⟩

def nothingCame : Transfer := .create semiLossy 102400 100

/-- The window reaches back over the whole gap. -/
theorem semi_lossy_keeps_window_iff_wide : KeepsWindow semiLossy 20 nothingCame 10 tsBlockOriginal :=
  (semi_lossy_keeps_window_iff rfl (by decide) (by decide) (by decide) 20 tsBlockOriginal).mpr
    fun h => absurd h.window.2 (by decide)

/-- Block 10 comes first, and four blocks fit the window: block 6 is missing and
counts as received. -/
theorem window_start_forgotten :
    ¬KeepsWindow semiLossy 4 nothingCame 10 tsBlockOriginal ∧
    (iteration semiLossy (succeeding 4) false nothingCame 10 tsBlockOriginal).xfer.gaplessToBlock =
      6 := by
  have hstart : StartsAtMissing 4 nothingCame 10 tsBlockOriginal :=
    ⟨by decide, by decide, by decide, by decide⟩
  refine ⟨fun hkeep => ?_, by decide +kernel⟩
  obtain ⟨hmiss, hpast⟩ : gotBlock (iteration semiLossy (succeeding 4) false nothingCame 10
        tsBlockOriginal).xfer 6 = false ∧
      6 ≤ (iteration semiLossy (succeeding 4) false nothingCame 10
        tsBlockOriginal).xfer.gaplessToBlock :=
    startsAtMissing_forgets rfl (by decide) (by decide) (by decide) hstart
  have hlt := hkeep (succeeding 4) false rfl 6 (by decide) (by decide) (by decide) hmiss
  exact absurd hlt (Nat.not_lt.mpr hpast)

end Tsunami.Client
