import Mathlib.Order.Bounds.Basic
import Tsunami.Client.Books

/-!
# The end of the transmission

What the client asks for when it handles a terminate block: everything that is
missing, or a restart from the first block that is. Neither the datagrams nor
the writes before it matter, only that the gapless section is gapless.
-/

namespace Tsunami.Client

open Bytes Transition

-- ---------------------------------------------------------------------------
-- The gapless section
-- ---------------------------------------------------------------------------

structure Gapless (n : Nat) (x : Transfer) : Prop where
  blockCount : x.blockCount = n
  bitmap : BitmapFits x
  le : x.gaplessToBlock ≤ n
  got : ∀ b, 1 ≤ b → b ≤ x.gaplessToBlock → gotBlock x b = true

theorem Gapless.same (h : Gapless n x) (hs : SameProgress x y) : Gapless n y where
  blockCount := hs.blocks.blockCount.trans h.blockCount
  bitmap := by
    rw [BitmapFits, hs.blocks.received, hs.blocks.blockCount]
    exact h.bitmap
  le := hs.gaplessToBlock.symm ▸ h.le
  got b h₁ hb := by
    rw [hs.blocks.gotBlock]
    exact h.got b h₁ (hs.gaplessToBlock ▸ hb)

theorem create_gapless (param : Parameter) (size n : Nat) : Gapless n (.create param size n) where
  blockCount := rfl
  bitmap := by simp [BitmapFits, Transfer.create]
  le := Nat.zero_le _
  got b h₁ h₀ := absurd (Nat.le_trans h₁ h₀) (Nat.not_succ_le_zero 0)

theorem markReceived_gapless (h : Gapless n x) (hb : b ≤ n) : Gapless n (markReceived x b) where
  blockCount := h.blockCount
  bitmap := by
    have hl := h.bitmap
    simp only [BitmapFits] at hl
    simp [BitmapFits, markReceived, hl]
  le := h.le
  got i h₁ hi := by
    rw [gotBlock_markReceived h.bitmap (h.blockCount.symm ▸ hb), h.got i h₁ hi, Bool.or_true]

theorem advanceHead_gapless (h : Gapless n x) (hn : n < 2 ^ 32) (b ty : Nat) :
    Gapless n (advanceHead x b ty) := by
  have hspec := advanceLoop_spec x (x.blockCount - x.gaplessToBlock) x.gaplessToBlock
    (h.blockCount.symm ▸ h.le) (h.blockCount.symm ▸ hn) h.got
  have hadvance : Gapless n (advanceGapless x) :=
    ⟨h.blockCount, h.bitmap, h.blockCount ▸ hspec.1, hspec.2⟩
  refine hadvance.same ⟨?_, ?_⟩
  · simp only [advanceHead, leaveRestart, expectNext]
    split <;> split <;> exact ⟨rfl, rfl, rfl, rfl⟩
  · simp only [advanceHead, leaveRestart, expectNext]
    split <;> split <;> rfl

theorem control_gapless (h : Gapless n x) (hn : n < 2 ^ 32) (hl : param.lossless = true) :
    Gapless n (control param o x b ty).xfer := by
  simp only [control, queueMissing, hl, if_true]
  split
  · exact h
  · split
    · exact h
    · rename_i y hy
      have hsame : SameProgress x y := by
        split at hy
        · exact SameProgress.kept.requestRange hy
        · cases hy
          exact .refl x
      have hhead : Gapless n (advanceHead y b ty) := advanceHead_gapless (h.same hsame) hn b ty
      split
      · exact hhead.same (SameProgress.kept.terminate ..)
      · exact hhead

theorem controlAndStats_gapless (h : Gapless n x) (hn : n < 2 ^ 32) (hl : param.lossless = true) :
    Gapless n (controlAndStats param o x b ty).xfer := by
  have hctl : Gapless n (control param o x b ty).xfer := control_gapless h hn hl
  simp only [controlAndStats]
  split
  · exact hctl.same (SameProgress.kept.sendStats ..)
  · exact hctl

theorem iteration_gapless (h : Gapless n x) (hn : n < 2 ^ 32) (hl : param.lossless = true) :
    Gapless n (iteration param o full x b ty).xfer := by
  have hcount := h.same (countReceived_sameProgress x ty)
  simp only [iteration]
  split
  · split
    · exact controlAndStats_gapless hcount hn hl
    · rename_i hmiss
      refine controlAndStats_gapless (markReceived_gapless hcount ?_) hn hl
      by_contra hgt
      exact hmiss (gotBlock_of_gt (by rw [hcount.blockCount]; omega))
  · exact hcount.same (SameProgress.kept.sendStats ..)

theorem receive_gapless (h : Gapless n x) (hn : n < 2 ^ 32) (hl : param.lossless = true) :
    Gapless n (receive param o frozen full x b ty).xfer := by
  have hrep := h.same (ttpRepeatRetransmit_sameProgress o.atFrozen x)
  simp only [receive]
  split
  · split
    · exact iteration_gapless hrep hn hl
    · exact hrep
  · exact iteration_gapless h hn hl

theorem receiveLoop_gapless (hn : n < 2 ^ 32) (hl : param.lossless = true)
    (h : (receiveLoop param size n).Reachable x) : Gapless n x := by
  refine h.invariant (fun x hx => ?_) fun x a y hi hs => ?_
  · rw [hx]
    exact create_gapless param size n
  · simp only [receiveLoop, Option.ite_none_right_eq_some, Option.some.injEq] at hs
    obtain ⟨-, rfl⟩ := hs
    exact receive_gapless hi hn hl

-- ---------------------------------------------------------------------------
-- Refused requests are remembered, and nothing else
-- ---------------------------------------------------------------------------

/-- `dropped` is a history: set from outside, it stays set, and nothing reads it. -/
def Transfer.flag (d : Bool) (x : Transfer) : Transfer := { x with dropped := x.dropped || d }

def Result.flag (d : Bool) (r : Result) : Result := { r with xfer := r.xfer.flag d }

theorem flag_clear (x : Transfer) : { x with dropped := false }.flag x.dropped = x := by
  simp [Transfer.flag]

theorem ttpRequestRetransmit_flag (realloc : Nat → Bool) (d : Bool) (x : Transfer) (b : Nat) :
    ttpRequestRetransmit realloc (x.flag d) b = (ttpRequestRetransmit realloc x b).map
      (·.flag d) := by
  have hgot : gotBlock (x.flag d) b = gotBlock x b := rfl
  have htable : (x.flag d).retransmit = x.retransmit := rfl
  simp only [ttpRequestRetransmit, hgot, htable]
  split
  · rfl
  · split
    · rfl
    · split
      · simp [Transfer.flag]
      · split <;> rfl

theorem requestRange_flag (realloc : Nat → Bool) (d : Bool) (x : Transfer) (first last : Nat) :
    requestRange realloc (x.flag d) first last = (requestRange realloc x first last).map
      (·.flag d) := by
  unfold requestRange
  induction List.range' first (last - first) generalizing x with
  | nil => rfl
  | cons b bs ih =>
    simp only [List.foldlM_cons, ttpRequestRetransmit_flag]
    cases ttpRequestRetransmit realloc x b with
    | none => rfl
    | some y => exact ih y

theorem ttpRepeatRetransmit_flag (w : WriteResult) (d : Bool) (x : Transfer) :
    ttpRepeatRetransmit w (x.flag d) =
      { ttpRepeatRetransmit w x with xfer := (ttpRepeatRetransmit w x).xfer.flag d } := by
  have hdiscard : discard (x.flag d) (x.flag d).retransmit.indexMax =
      discard x x.retransmit.indexMax := rfl
  simp only [ttpRepeatRetransmit, hdiscard]
  split
  · split <;> rfl
  · rfl

theorem advanceHead_flag (d : Bool) (x : Transfer) (b ty : Nat) :
    advanceHead (x.flag d) b ty = (advanceHead x b ty).flag d := by
  have hloop : ∀ fuel g, advanceLoop (x.flag d) fuel g = advanceLoop x fuel g := by
    intro fuel
    induction fuel with
    | zero => exact fun _ => rfl
    | succ fuel ih =>
      intro g
      simp only [advanceLoop, ih]
      rfl
  have hgapless : advanceGapless (x.flag d) = (advanceGapless x).flag d := by
    simp only [advanceGapless, hloop]
    rfl
  have hexpect : ∀ y, expectNext (Transfer.flag d y) b ty = (expectNext y b ty).flag d := by
    intro y
    simp only [expectNext]
    split <;> rfl
  have hleave : ∀ y, leaveRestart (Transfer.flag d y) = (leaveRestart y).flag d := by
    intro y
    have hpending : (y.flag d).restartPending = y.restartPending := rfl
    have hnext : (y.flag d).nextBlock = y.nextBlock := rfl
    have hlast : (y.flag d).restartLastidx = y.restartLastidx := rfl
    simp only [leaveRestart, hpending, hnext, hlast]
    split <;> rfl
  rw [advanceHead, hgapless, hexpect, hleave, advanceHead]

theorem queueMissing_flag (param : Parameter) (o : Oracle) (d : Bool) (x : Transfer) (b : Nat) :
    queueMissing param o (x.flag d) b = (queueMissing param o x b).map (·.flag d) := by
  have hearliest : earliestBlock o (x.flag d) b = earliestBlock o x b := rfl
  have hnext : (x.flag d).nextBlock = x.nextBlock := rfl
  simp only [queueMissing, requestRange_flag, hearliest, hnext]
  split
  · rfl
  · split
    · rfl
    · simp only [Option.map_map]
      rfl

theorem terminate_flag (param : Parameter) (o : Oracle) (d : Bool) (x : Transfer) :
    terminate param o (x.flag d) = (terminate param o x).flag d := by
  have hleft : (x.flag d).blocksLeft = x.blocksLeft := rfl
  have hmax : (x.flag d).retransmit.indexMax = x.retransmit.indexMax := rfl
  have hpending : (x.flag d).restartPending = x.restartPending := rfl
  have hgapless : (x.flag d).gaplessToBlock = x.gaplessToBlock := rfl
  have hcount : (x.flag d).blockCount = x.blockCount := rfl
  simp only [terminate, hleft, hmax, hpending, hgapless, hcount, requestRange_flag]
  split
  · rfl
  · split
    · rfl
    · cases requestRange o.realloc x (u32 (x.gaplessToBlock + 1)) x.blockCount with
      | none => rfl
      | some y =>
        simp only [Option.map_some, ttpRepeatRetransmit_flag]
        rfl

theorem control_flag (param : Parameter) (o : Oracle) (d : Bool) (x : Transfer) (b ty : Nat) :
    control param o (x.flag d) b ty = (control param o x b ty).flag d := by
  have hwire : onWire (x.flag d) b ty = onWire x b ty := rfl
  have hqueue : (if b > (x.flag d).nextBlock then queueMissing param o (x.flag d) b
      else some (x.flag d)) =
        (if b > x.nextBlock then queueMissing param o x b else some x).map (·.flag d) := by
    have hnext : (x.flag d).nextBlock = x.nextBlock := rfl
    rw [hnext, queueMissing_flag]
    split <;> rfl
  simp only [control, hwire, hqueue]
  split
  · rfl
  · cases if b > x.nextBlock then queueMissing param o x b else some x with
    | none => rfl
    | some y =>
      simp only [Option.map_some, advanceHead_flag]
      split
      · exact terminate_flag ..
      · rfl

theorem sendStats_flag (param : Parameter) (o : Oracle) (d : Bool) (x : Transfer) :
    sendStats param o (x.flag d) = (sendStats param o x).flag d := by
  have hstats : ∀ c w y, sendErrorRate param c w (Transfer.flag d y) =
      { sendErrorRate param c w y with xfer := (sendErrorRate param c w y).xfer.flag d } := by
    intro c w y
    simp only [sendErrorRate]
    split <;> rfl
  have htotal : ∀ y, (Transfer.flag d y).stats = y.stats := fun _ => rfl
  simp only [sendStats, updateAfter, ttpUpdateStats, htotal, ttpRepeatRetransmit_flag, hstats]
  split
  · split
    · by_cases htrap : u32 ((ttpRepeatRetransmit o.atRepeat x).xfer.stats.totalRetransmits +
          (ttpRepeatRetransmit o.atRepeat x).xfer.stats.totalBlocks) = 0
      · simp only [if_pos htrap]
        rfl
      · simp only [if_neg htrap]
        rfl
    · rfl
  · rfl

theorem controlAndStats_flag (param : Parameter) (o : Oracle) (d : Bool) (x : Transfer)
    (b ty : Nat) :
    controlAndStats param o (x.flag d) b ty = (controlAndStats param o x b ty).flag d := by
  have hverdict :
      ((control param o x b ty).flag d).verdict = (control param o x b ty).verdict := rfl
  have hxfer : ((control param o x b ty).flag d).xfer = (control param o x b ty).xfer.flag d := rfl
  simp only [controlAndStats, control_flag, hverdict, hxfer, sendStats_flag]
  split <;> rfl

theorem iteration_flag (param : Parameter) (o : Oracle) (full : Bool) (d : Bool) (x : Transfer)
    (b ty : Nat) :
    iteration param o full (x.flag d) b ty = (iteration param o full x b ty).flag d := by
  have hcount : countReceived (x.flag d) ty = (countReceived x ty).flag d := rfl
  have hrelevant :
      relevant ((countReceived x ty).flag d) b ty = relevant (countReceived x ty) b ty := rfl
  have hmark : (if gotBlock ((countReceived x ty).flag d) b then (countReceived x ty).flag d
      else markReceived ((countReceived x ty).flag d) b) =
        (if gotBlock (countReceived x ty) b then countReceived x ty
          else markReceived (countReceived x ty) b).flag d := by
    have hgot : gotBlock ((countReceived x ty).flag d) b = gotBlock (countReceived x ty) b := rfl
    rw [hgot]
    split <;> rfl
  simp only [iteration, hcount, hrelevant, hmark, controlAndStats_flag, sendStats_flag]
  split <;> rfl

theorem receive_flag (param : Parameter) (o : Oracle) (frozen full : Bool) (d : Bool) (x : Transfer)
    (b ty : Nat) :
    receive param o frozen full (x.flag d) b ty = (receive param o frozen full x b ty).flag d := by
  simp only [receive, ttpRepeatRetransmit_flag, iteration_flag]
  split
  · split <;> rfl
  · rfl

-- ---------------------------------------------------------------------------
-- What is asked for
-- ---------------------------------------------------------------------------

def Requested (rs : List Retransmission) (b : Nat) : Prop :=
  ∃ q ∈ rs, q.requestType = requestRetransmit ∧ q.block = b

/-- Statistics apart, `rs` asks for exactly the missing blocks, or is one
restart from the first of them. -/
def AsksForMissing (x : Transfer) (rs : List Retransmission) : Prop :=
  ((∀ q ∈ rs, q.requestType ≠ requestRestart) ∧ ∀ b, Requested rs b ↔ b ∈ missing x) ∨
    ∃ b, IsLeast {b | b ∈ missing x} b ∧
      rs.filter (fun q => q.requestType ≠ requestErrorRate) = [restartRequest b]

theorem wanted_same (h : SameBlocks x y) (bs : List Nat) : wanted y bs = wanted x bs := by
  simp only [wanted, h.gotBlock]

theorem wanted_wanted (x : Transfer) (bs : List Nat) : wanted x (wanted x bs) = wanted x bs := by
  simp [wanted]

structure Compacted (x : Transfer) : Prop where
  wanted : wanted x x.retransmit.entries = x.retransmit.entries
  few : x.retransmit.entries.length < maxRetransmissionBuffer

theorem sendStats_records (h : Compacted x) (hs : o.atRepeat = .ok) :
    ∀ q ∈ (sendStats param o x).records,
      q.requestType = requestErrorRate ∨ q ∈ x.retransmit.entries.map retransmitRequest := by
  have hrep : (ttpRepeatRetransmit o.atRepeat x).records =
      x.retransmit.entries.map retransmitRequest := by
    rw [hs]
    rcases ttpRepeatRetransmit_cases x with ⟨r, st, -, -, heq⟩ | ⟨r, st, l, hmany, -, -⟩
    · rw [heq, h.wanted]
    · rw [h.wanted] at hmany
      exact absurd h.few (Nat.not_lt_of_le hmany)
  intro q hq
  rcases sendStats_cases param o x with heq | ⟨-, heq⟩ | heq
  · rw [heq] at hq
    exact absurd hq List.not_mem_nil
  · rw [heq] at hq
    rcases List.mem_append.mp hq with hq | hq
    · exact .inr (hrep ▸ hq)
    · obtain ⟨rate, rfl⟩ := sendErrorRate_records hq
      exact .inl rfl
  · rw [heq] at hq
    exact .inr (hrep ▸ hq)

theorem sendStats_dropped (param : Parameter) (o : Oracle) (x : Transfer) :
    (sendStats param o x).xfer.dropped = x.dropped := by
  have hrep : (ttpRepeatRetransmit o.atRepeat x).xfer.dropped = x.dropped := by
    simp only [ttpRepeatRetransmit]
    split
    · split <;> rfl
    · rfl
  rcases sendStats_cases param o x with heq | ⟨-, heq⟩ | heq
  · rw [heq]
  · rw [heq]
    simp only [sendErrorRate]
    split <;> exact hrep
  · rw [heq]
    exact hrep

/-- Up to the gapless section everything is there, and the loop at the end of
the file asks for the rest. -/
theorem mem_wanted_iff_missing (h : Gapless n x) (hlast : gotBlock x n = true)
    (hq : requestRange realloc x (u32 (x.gaplessToBlock + 1)) x.blockCount = some y)
    (hd : y.dropped = false) (b : Nat) :
    b ∈ wanted y y.retransmit.entries ↔ b ∈ missing y := by
  have hxy := SameProgress.kept.requestRange hq
  have hy := h.same hxy
  have hcount := hy.blockCount
  have hgot := hxy.blocks.gotBlock b
  rw [mem_missing, mem_wanted]
  constructor
  · rintro ⟨-, hne, hmiss⟩
    refine ⟨Nat.one_le_iff_ne_zero.mpr hne, ?_, hmiss⟩
    by_contra hgt
    rw [gotBlock_of_gt (by omega)] at hmiss
    cases hmiss
  · rintro ⟨h₁, hb, hmiss⟩
    have hgap : y.gaplessToBlock < b := by
      by_contra hle
      rw [hy.got b h₁ (by omega)] at hmiss
      cases hmiss
    have hne : b ≠ n := by
      rintro rfl
      rw [hgot, hlast] at hmiss
      cases hmiss
    have hwrap : u32 (x.gaplessToBlock + 1) ≤ x.gaplessToBlock + 1 := Nat.mod_le ..
    have hgapless := hxy.gaplessToBlock
    have hblocks := hxy.blocks.blockCount
    refine ⟨(requestRange_queued hq).covers hd ?_ (hgot ▸ hmiss),
      Nat.one_le_iff_ne_zero.mp h₁, hmiss⟩
    rw [List.mem_range'_1]
    omega

theorem isLeast_missing (h : Gapless n x) (hn : n < 2 ^ 32)
    (hmax : ¬(gotBlock x (u32 (x.gaplessToBlock + 1)) ∧ x.gaplessToBlock < x.blockCount))
    (hb : b ∈ missing x) :
    IsLeast {b | b ∈ missing x} (min x.blockCount (u32 (x.gaplessToBlock + 1))) := by
  have hcount := h.blockCount
  have hbelow : ∀ c ∈ missing x, x.gaplessToBlock + 1 ≤ c := by
    intro c hc
    obtain ⟨h₁, -, hmiss⟩ := mem_missing.mp hc
    by_contra hle
    rw [h.got c h₁ (by omega)] at hmiss
    cases hmiss
  have hfirst := hbelow b hb
  obtain ⟨-, hlast, -⟩ := mem_missing.mp hb
  have hsucc : u32 (x.gaplessToBlock + 1) = x.gaplessToBlock + 1 := u32_of_lt (by omega)
  rw [hsucc] at hmax ⊢
  have hblock : min x.blockCount (x.gaplessToBlock + 1) = x.gaplessToBlock + 1 := by omega
  rw [hblock]
  have hmiss : gotBlock x (x.gaplessToBlock + 1) = false :=
    eq_false_of_ne_true fun hgot => hmax ⟨hgot, by omega⟩
  exact ⟨mem_missing.mpr ⟨Nat.le_add_left .., by omega, hmiss⟩, hbelow⟩

theorem terminate_asks (h : Gapless n x) (hn : n < 2 ^ 32) (hl : param.lossless = true)
    (hlast : gotBlock x n = true)
    (hmax : ¬(gotBlock x (u32 (x.gaplessToBlock + 1)) ∧ x.gaplessToBlock < x.blockCount))
    (hleft : 0 < x.blocksLeft) (ht : o.atTerminate = .ok) (hr : ∀ k, o.realloc k = true)
    (hd : (terminate param o x).xfer.dropped = false) :
    (terminate param o x).verdict = .next ∧ Compacted (terminate param o x).xfer ∧
      ((terminate param o x).records =
          (terminate param o x).xfer.retransmit.entries.map retransmitRequest ∧
        (∀ b, b ∈ (terminate param o x).xfer.retransmit.entries ↔
          b ∈ missing (terminate param o x).xfer) ∨
      (terminate param o x).xfer.retransmit.entries = [] ∧
        ∃ b, IsLeast {b | b ∈ missing (terminate param o x).xfer} b ∧
          (terminate param o x).records = [restartRequest b]) := by
  have hstay : ¬(x.blocksLeft = 0) := Nat.ne_of_gt hleft
  have hlossy :
      ¬(¬param.lossless = true ∧ x.retransmit.indexMax = 0 ∧ ¬x.restartPending = true) := by
    simp [hl]
  simp only [terminate, if_neg hstay, if_neg hlossy] at hd ⊢
  cases hq : requestRange o.realloc x (u32 (x.gaplessToBlock + 1)) x.blockCount with
  | none => simpa [hq] using requestRange_isSome hr x (u32 (x.gaplessToBlock + 1)) x.blockCount
  | some y =>
    simp only [hq, ht] at hd ⊢
    have hxy := SameProgress.kept.requestRange hq
    have hmax : ¬(gotBlock y (u32 (y.gaplessToBlock + 1)) ∧ y.gaplessToBlock < y.blockCount) := by
      rwa [hxy.gaplessToBlock, hxy.blocks.gotBlock, hxy.blocks.blockCount]
    have hrep := (ttpRepeatRetransmit_sameBlocks .ok y).missing
    rcases ttpRepeatRetransmit_cases y with ⟨r, st, hfew, hr, heq⟩ | ⟨r, st, l, hmany, hr, heq⟩
    · rw [heq] at hd hrep ⊢
      have hall := mem_wanted_iff_missing h hlast hq hd
      refine ⟨trivial, ⟨?_, hr ▸ hfew⟩, .inl ⟨congrArg _ hr.symm, fun b => ?_⟩⟩
      · simp only [hr]
        exact (wanted_same (x := y) ⟨rfl, rfl, rfl, rfl⟩ _).trans (wanted_wanted ..)
      · rw [hrep]
        exact hr ▸ hall b
    · rw [heq] at hd hrep ⊢
      have hall := mem_wanted_iff_missing h hlast hq hd
      obtain ⟨b, hb⟩ := List.exists_mem_of_ne_nil _ (List.length_pos_iff.mp
        (Nat.lt_of_lt_of_le (Nat.zero_lt_succ 2047) hmany))
      have hleast := isLeast_missing (h.same hxy) hn hmax ((hall b).mp hb)
      refine ⟨trivial, ⟨?_, ?_⟩, .inr ⟨hr, _, hrep ▸ hleast, rfl⟩⟩
      · simp only [hr]
        rfl
      · simp only [hr]
        exact Nat.zero_lt_succ _

theorem asksForMissing_append (h : Compacted x)
    (hcases : (rs = x.retransmit.entries.map retransmitRequest ∧
        ∀ b, b ∈ x.retransmit.entries ↔ b ∈ missing x) ∨
      x.retransmit.entries = [] ∧ ∃ b, IsLeast {b | b ∈ missing x} b ∧ rs = [restartRequest b])
    (hs : o.atRepeat = .ok) :
    AsksForMissing (sendStats param o x).xfer (rs ++ (sendStats param o x).records) := by
  have hrecords : ∀ q ∈ (sendStats param o x).records,
      q.requestType = requestErrorRate ∨ q ∈ x.retransmit.entries.map retransmitRequest :=
    sendStats_records h hs
  have hmissing := (SameBlocks.kept.sendStats param o x).missing
  rcases hcases with ⟨rfl, hall⟩ | ⟨hnone, b, hleast, rfl⟩
  · -- every record asks for an entry, or is about statistics
    have hkind : ∀ q ∈ x.retransmit.entries.map retransmitRequest ++ (sendStats param o x).records,
        q.requestType = requestErrorRate ∨ ∃ b ∈ missing x, q = retransmitRequest b := by
      have hmap : ∀ q ∈ x.retransmit.entries.map retransmitRequest,
          ∃ b ∈ missing x, q = retransmitRequest b := by
        intro q hq
        obtain ⟨b, hb, rfl⟩ := List.mem_map.mp hq
        exact ⟨b, (hall b).mp hb, rfl⟩
      intro q hq
      rcases List.mem_append.mp hq with hq | hq
      · exact .inr (hmap q hq)
      · exact (hrecords q hq).imp id (hmap q)
    refine .inl ⟨fun q hq => ?_, fun b => ?_⟩
    · rcases hkind q hq with hty | ⟨b, -, rfl⟩
      · rw [hty]
        decide
      · exact show requestRetransmit ≠ requestRestart by decide
    · rw [hmissing]
      constructor
      · rintro ⟨q, hq, hty, rfl⟩
        rcases hkind q hq with herr | ⟨b, hb, rfl⟩
        · rw [herr] at hty
          cases hty
        · exact hb
      · intro hb
        exact ⟨retransmitRequest b, List.mem_append_left _
          (List.mem_map_of_mem ((hall b).mpr hb)), rfl, rfl⟩
  · refine .inr ⟨b, hmissing ▸ hleast, ?_⟩
    have hstats :
        (sendStats param o x).records.filter (fun q => q.requestType ≠ requestErrorRate) = [] := by
      refine List.filter_eq_nil_iff.mpr fun q hq => ?_
      rcases hrecords q hq with hty | hq
      · simp [hty]
      · simp [hnone] at hq
    rw [List.filter_append, hstats, List.append_nil]
    rfl

theorem control_terminate (h : Gapless n x) (hn : n < 2 ^ 32) (hl : param.lossless = true)
    (hlast : gotBlock x n = true) (hleft : 0 < x.blocksLeft)
    (hr : ∀ k, o.realloc k = true) :
    ∃ y, control param o x n tsBlockTerminate = terminate param o y ∧ Gapless n y ∧
      gotBlock y n = true ∧ 0 < y.blocksLeft ∧
      ¬(gotBlock y (u32 (y.gaplessToBlock + 1)) ∧ y.gaplessToBlock < y.blockCount) := by
  have hwire : onWire x n tsBlockTerminate = false := by simp [onWire]
  simp only [control, queueMissing, hl, hwire, Bool.false_eq_true, if_false, if_true]
  cases hq : if n > x.nextBlock then requestRange o.realloc x x.nextBlock n else some x with
  | none =>
    have hsome := requestRange_isSome hr x x.nextBlock n
    split at hq
    · rw [hq] at hsome
      cases hsome
    · cases hq
  | some y =>
    have hxy : SameProgress x y := by
      split at hq
      · exact SameProgress.kept.requestRange hq
      · cases hq
        exact .refl x
    have hhead := SameBlocks.kept.advanceHead y n tsBlockTerminate
    have hgapless : (advanceHead y n tsBlockTerminate).gaplessToBlock =
        advanceLoop y (y.blockCount - y.gaplessToBlock) y.gaplessToBlock := by
      simp only [advanceHead, leaveRestart, expectNext]
      split <;> split <;> rfl
    refine ⟨advanceHead y n tsBlockTerminate, rfl,
      advanceHead_gapless (h.same hxy) hn _ _, ?_, ?_, ?_⟩
    · rw [hhead.gotBlock, hxy.blocks.gotBlock]
      exact hlast
    · rw [hhead.blocksLeft, hxy.blocks.blocksLeft]
      exact hleft
    · rw [hhead.gotBlock, hhead.blockCount, hgapless]
      exact advanceLoop_stops y y.gaplessToBlock

theorem iteration_asks (h : Gapless n x) (hn : n < 2 ^ 32) (hl : param.lossless = true)
    (hleft : 0 < if gotBlock x n then x.blocksLeft else x.blocksLeft - 1) (ht : o.atTerminate = .ok)
    (hs : o.atRepeat = .ok) (hr : ∀ k, o.realloc k = true)
    (hd : (iteration param o false x n tsBlockTerminate).xfer.dropped = false) :
    AsksForMissing (iteration param o false x n tsBlockTerminate).xfer
      (iteration param o false x n tsBlockTerminate).records := by
  have hcount := h.same (countReceived_sameProgress x tsBlockTerminate)
  have hrelevant : relevant (countReceived x tsBlockTerminate) n tsBlockTerminate = true := by
    simp [relevant]
  simp only [iteration, hrelevant, and_self, if_true] at hd ⊢
  generalize hz : (if gotBlock (countReceived x tsBlockTerminate) n then countReceived x tsBlockTerminate
    else markReceived (countReceived x tsBlockTerminate) n) = z at hd ⊢
  obtain ⟨hgapless, hlast, hleft⟩ : Gapless n z ∧ gotBlock z n = true ∧ 0 < z.blocksLeft := by
    have hgot : gotBlock (countReceived x tsBlockTerminate) n = gotBlock x n := rfl
    rw [hgot] at hz
    split at hz
    · rename_i hgot
      rw [if_pos hgot] at hleft
      exact hz ▸ ⟨hcount, hgot, hleft⟩
    · rename_i hmiss
      rw [if_neg hmiss] at hleft
      refine hz ▸ ⟨markReceived_gapless hcount (Nat.le_refl n), ?_, ?_⟩
      · rw [gotBlock_markReceived hcount.bitmap (Nat.le_of_eq hcount.blockCount.symm)]
        simp
      · have hpos : x.blocksLeft > 0 := Nat.lt_of_lt_of_le hleft (Nat.sub_le ..)
        have hmark :
            (markReceived (countReceived x tsBlockTerminate) n).blocksLeft = x.blocksLeft - 1 :=
          if_pos hpos
        rw [hmark]
        exact hleft
  simp only [controlAndStats] at hd ⊢
  have hdropped : (control param o z n tsBlockTerminate).xfer.dropped = false := by
    split at hd
    · rwa [← sendStats_dropped param o]
    · exact hd
  obtain ⟨y, heq, hy, hylast, hyleft, hmax⟩ := control_terminate hgapless hn hl hlast hleft hr
  rw [heq] at hdropped ⊢
  obtain ⟨hnext, hcompact, hcases⟩ := terminate_asks hy hn hl hylast hmax hyleft ht hr hdropped
  simp only [hnext, if_true]
  exact asksForMissing_append hcompact hcases hs

/-- The terminate block, handled in lossless mode with blocks left, no request
refused at the cap, and no `realloc` or write failing: what the client writes
from there on in the iteration asks for exactly the missing blocks, or is one
restart from the first of them. Only after a failure of `recvfrom` something has
been written before. -/
theorem terminate_asks_for_missing (hl : param.lossless = true) (hn : n < 2 ^ 32)
    (hx : (receiveLoop param size n).Reachable x) (o : Oracle) (frozen : Bool)
    (hleft : 0 < if gotBlock x n then x.blocksLeft else x.blocksLeft - 1)
    (hf : o.atFrozen = .ok) (ht : o.atTerminate = .ok) (hs : o.atRepeat = .ok)
    (hr : ∀ k, o.realloc k = true)
    (hd : (receive param o frozen false { x with dropped := false } n
      tsBlockTerminate).xfer.dropped = false) :
    ∃ before asked, (receive param o frozen false x n tsBlockTerminate).records = before ++ asked ∧
      (frozen = false → before = []) ∧
      AsksForMissing (receive param o frozen false x n tsBlockTerminate).xfer asked := by
  have hgapless := receiveLoop_gapless hn hl hx
  have hflag := receive_flag param o frozen false x.dropped { x with dropped := false } n
    tsBlockTerminate
  rw [flag_clear] at hflag
  rw [hflag]
  have hclear : Gapless n { x with dropped := false } :=
    ⟨hgapless.blockCount, hgapless.bitmap, hgapless.le, hgapless.got⟩
  have hleft : 0 < if gotBlock { x with dropped := false } n then { x with dropped := false }.blocksLeft
      else { x with dropped := false }.blocksLeft - 1 := hleft
  generalize { x with dropped := false } = z at hd hclear hleft ⊢
  have hmissing :
      missing ((receive param o frozen false z n tsBlockTerminate).flag x.dropped).xfer =
      missing (receive param o frozen false z n tsBlockTerminate).xfer := rfl
  simp only [AsksForMissing, hmissing]
  simp only [Result.flag, receive] at hd ⊢
  cases frozen with
  | false => exact ⟨[], _, rfl, fun _ => rfl, iteration_asks hclear hn hl hleft ht hs hr hd⟩
  | true =>
    have hok : (ttpRepeatRetransmit o.atFrozen z).ok = true := by
      rw [hf]
      rcases ttpRepeatRetransmit_cases z with ⟨r, st, -, -, heq⟩ | ⟨r, st, l, -, -, heq⟩ <;> rw [heq]
    have hrep := ttpRepeatRetransmit_sameProgress o.atFrozen z
    simp only [hok, if_true] at hd ⊢
    refine ⟨_, _, rfl, fun h => Bool.noConfusion h,
      iteration_asks (hclear.same hrep) hn hl ?_ ht hs hr hd⟩
    rw [hrep.blocks.gotBlock, hrep.blocks.blocksLeft]
    exact hleft

/-- The last of four blocks comes first: the other three are asked for. -/
theorem terminate_asks_for_missing_last_first :
    ∃ y rs, receive (defaultParameter 1024) quietOracle false false
        (.create (defaultParameter 1024) 4000 4) 4 tsBlockTerminate = ⟨y, rs, .next⟩ ∧
      AsksForMissing y rs := by
  have hinit : (receiveLoop (defaultParameter 1024) 4000 4).Reachable
      (.create (defaultParameter 1024) 4000 4) := .init rfl
  have hnext : (receive (defaultParameter 1024) quietOracle false false
      (.create (defaultParameter 1024) 4000 4) 4 tsBlockTerminate).verdict =
        .next := by decide +kernel
  obtain ⟨before, asked, hrecords, hbefore, hasks⟩ :=
    terminate_asks_for_missing rfl (by decide) hinit
    quietOracle false (by decide +kernel) rfl rfl rfl (fun _ => rfl) (by decide +kernel)
  rw [hbefore rfl, List.nil_append] at hrecords
  rw [← hrecords] at hasks
  refine ⟨_, _, ?_, hasks⟩
  rw [← hnext]

/-- A table that cannot grow has no room for more missing blocks than it has
entries free. -/
theorem foldlM_exhausts {bs : List Nat} {realloc : Nat → Bool} (hr : ∀ k, realloc k = false)
    (hcap : x.retransmit.tableSize < 32 * maxRetransmissionBuffer)
    (hmiss : ∀ b ∈ bs, gotBlock x b = false)
    (hmany : x.retransmit.tableSize < x.retransmit.indexMax + bs.length) :
    bs.foldlM (ttpRequestRetransmit realloc) x = none := by
  induction bs generalizing x with
  | nil =>
    have hfits : x.retransmit.indexMax ≤ x.retransmit.tableSize := x.retransmit.fits
    simp only [List.length_nil] at hmany
    omega
  | cons b bs ih =>
    have hb : ¬gotBlock x b = true := by simp [hmiss b List.mem_cons_self]
    rw [List.foldlM_cons]
    by_cases hroom : x.retransmit.indexMax < x.retransmit.tableSize
    · have hstep : ttpRequestRetransmit realloc x b =
          some { x with retransmit := x.retransmit.store b hroom } := by
        simp only [ttpRequestRetransmit, if_neg hb, dif_pos hroom]
      have hsize : (x.retransmit.store b hroom).tableSize = x.retransmit.tableSize :=
        List.length_set ..
      rw [hstep]
      refine ih (x := { x with retransmit := x.retransmit.store b hroom }) ?_ ?_ ?_
      · rw [hsize]
        exact hcap
      · exact fun c hc => hmiss c (List.mem_cons_of_mem _ hc)
      · have hindex : (x.retransmit.store b hroom).indexMax = x.retransmit.indexMax + 1 := rfl
        simp only [List.length_cons, hsize, hindex] at hmany ⊢
        omega
    · have hfits : x.retransmit.indexMax ≤ x.retransmit.tableSize := x.retransmit.fits
      have hstep : ttpRequestRetransmit realloc x b = none := by
        simp only [ttpRequestRetransmit, if_neg hb, dif_neg hroom, hr, Bool.false_eq_true, if_false]
        rw [if_neg (by omega)]
      rw [hstep]
      rfl

theorem receive_exhausts (hl : param.lossless = true) (hr : ∀ k, o.realloc k = false)
    (hmany : defaultTableSize + 1 < n) :
    receive param o false false (.create param size n) n tsBlockTerminate =
      ⟨markReceived (countReceived (.create param size n) tsBlockTerminate) n, [], .abort⟩ := by
  generalize hy : countReceived (.create param size n) tsBlockTerminate = y
  have hgapless : Gapless n y :=
    hy ▸ (create_gapless param size n).same (countReceived_sameProgress _ _)
  have hnone : ∀ b ≤ n, gotBlock y b = false := fun b hb =>
    hy ▸ (gotBlock_create hb : gotBlock (.create param size n) b = false)
  have hmiss : ∀ b ∈ List.range' 1 (n - 1), gotBlock (markReceived y n) b = false := by
    intro b hb
    rw [List.mem_range'_1] at hb
    rw [gotBlock_markReceived hgapless.bitmap (Nat.le_of_eq hgapless.blockCount.symm),
      hnone b (by omega)]
    simp only [Bool.or_false, decide_eq_false_iff_not]
    omega
  have htable : (markReceived y n).retransmit = .create := by
    subst hy
    rfl
  have hsize : Retransmit.create.tableSize = defaultTableSize := List.length_replicate ..
  have hexhausted : requestRange o.realloc (markReceived y n) 1 n = none := by
    refine foldlM_exhausts hr ?_ hmiss ?_
    · rw [htable, hsize]
      decide
    · rw [htable, hsize, List.length_range']
      simp only [Retransmit.create]
      omega
  have hnext : (markReceived y n).nextBlock = 1 := by
    subst hy
    rfl
  simp only [receive, Bool.false_eq_true, if_false, iteration, hy]
  have hwire : onWire (markReceived y n) n tsBlockTerminate = false := by simp [onWire]
  have hgap : n > 1 := by omega
  simp [relevant, hnone n (Nat.le_refl n), controlAndStats, control, hwire, hnext, hgap,
    queueMissing, hl, hexhausted]

/-- The last of 5000 blocks comes first, and the table cannot be made larger:
nothing is refused at the cap, and nothing is asked for. -/
theorem terminate_asks_nothing :
    (receiveLoop (defaultParameter 1024) 5120000 5000).Reachable
      (.create (defaultParameter 1024) 5120000 5000) ∧
    ∃ y, receive (defaultParameter 1024) { quietOracle with realloc := fun _ => false } false false
        (.create (defaultParameter 1024) 5120000 5000) 5000 tsBlockTerminate = ⟨y, [], .abort⟩ ∧
      y.dropped = false ∧ 0 < y.blocksLeft ∧ ¬AsksForMissing y [] := by
  refine ⟨.init rfl, _, receive_exhausts rfl (fun _ => rfl) (by decide), rfl, by decide, ?_⟩
  rintro (⟨-, hall⟩ | ⟨b, -, hrestart⟩)
  · have hcount : Gapless 5000
        (countReceived (.create (defaultParameter 1024) 5120000 5000) tsBlockTerminate) :=
      (create_gapless _ _ _).same (countReceived_sameProgress _ _)
    have hone : 1 ∈ missing (markReceived
        (countReceived (.create (defaultParameter 1024) 5120000 5000) tsBlockTerminate) 5000) := by
      refine mem_missing.mpr ⟨Nat.le_refl 1, by decide, ?_⟩
      rw [gotBlock_markReceived hcount.bitmap (by decide)]
      have hnone : gotBlock (.create (defaultParameter 1024) 5120000 5000) 1 = false :=
        gotBlock_create (by decide)
      exact hnone
    obtain ⟨q, hq, -⟩ := (hall 1).mpr hone
    exact absurd hq List.not_mem_nil
  · exact absurd hrestart (by simp)

end Tsunami.Client
