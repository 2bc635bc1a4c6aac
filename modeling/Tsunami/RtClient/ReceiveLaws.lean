import Tsunami.Client.Window
import Tsunami.RtClient.Receive

/-!
# Inside the bitmap

As long as the blocks it is asked about are blocks of the transfer, the
realtime client's `got_block` answers what the file client's does. One law for
each function that calls it: it does what its counterpart does, and leaves the
transfer object sound.
-/

namespace Tsunami.RtClient

open Bytes Client

-- ---------------------------------------------------------------------------
-- The bitmap
-- ---------------------------------------------------------------------------

def InBitmap (x : Transfer) (b : Nat) : Prop := b / 8 < x.blockCount / 8 + 2

theorem inBitmap_of_le (h : b ≤ x.blockCount + 1) : InBitmap x b := by
  rw [InBitmap]
  omega

/-- The invariant: nothing but blocks of the transfer is marked or requested,
and the successor of the gapless section has a bit. -/
structure Sound (n : Nat) (x : Transfer) : Prop where
  blockCount : x.blockCount = n
  bitmap : BitmapFits x
  spare : ∀ b, n < b → getBit x.received b = false
  requested : ∀ b ∈ x.retransmit.entries, b ≤ n
  gaplessLt : x.gaplessToBlock < 2 ^ 32
  gapless : InBitmap x (u32 (x.gaplessToBlock + 1))

theorem create_sound (param : Parameter) (size n : Nat) : Sound n (.create param size n) where
  blockCount := rfl
  bitmap := by simp [BitmapFits, Transfer.create]
  spare b _ := getBit_replicate_zero ..
  requested b hb := by simp [Transfer.create] at hb
  gaplessLt := by simp [Transfer.create]
  gapless := inBitmap_of_le (Nat.le_add_left ..)

theorem Sound.of_blocks (h : Sound n x) (hb : SameBlocks x y)
    (hreq : ∀ b ∈ y.retransmit.entries, b ≤ n) (hlt : y.gaplessToBlock < 2 ^ 32)
    (hg : InBitmap x (u32 (y.gaplessToBlock + 1))) : Sound n y where
  blockCount := hb.blockCount.trans h.blockCount
  bitmap := by
    rw [BitmapFits, hb.received, hb.blockCount]
    exact h.bitmap
  spare b hlt := by
    rw [hb.received]
    exact h.spare b hlt
  requested := hreq
  gaplessLt := hlt
  gapless := by
    rw [InBitmap, hb.blockCount]
    exact hg

theorem Sound.of_progress (h : Sound n x) (hp : SameProgress x y)
    (hreq : ∀ b ∈ y.retransmit.entries, b ≤ n) : Sound n y := by
  refine h.of_blocks hp.blocks hreq ?_ ?_
  · rw [hp.gaplessToBlock]
    exact h.gaplessLt
  · rw [hp.gaplessToBlock]
    exact h.gapless

theorem Sound.counted (h : Sound n x) (ty : Nat) : Sound n (countReceived x ty) :=
  h.of_progress (countReceived_sameProgress x ty) h.requested

theorem Sound.marked (h : Sound n x) (hb : b ≤ n) : Sound n (markReceived x b) where
  blockCount := h.blockCount
  bitmap := by
    rw [BitmapFits, markReceived, length_setBit]
    exact h.bitmap
  spare i hi := by
    have hne : b ≠ i := Nat.ne_of_lt (Nat.lt_of_le_of_lt hb hi)
    exact (getBit_setBit_of_ne x.received hne).trans (h.spare i hi)
  requested := h.requested
  gaplessLt := h.gaplessLt
  gapless := h.gapless

theorem gotBlock_inside (h : Sound n x) (hb : InBitmap x b) :
    gotBlock x b = some (getBit x.received b) := by
  have hfits := h.bitmap
  rw [BitmapFits] at hfits
  rw [gotBlock, hfits]
  exact if_pos hb

theorem gotBlock_outside (h : Sound n x) (hb : ¬InBitmap x b) : gotBlock x b = none := by
  have hfits := h.bitmap
  rw [BitmapFits] at hfits
  rw [gotBlock, hfits]
  exact if_neg hb

theorem gotBlock_same (h : Sound n x) (hb : b ≤ n) :
    gotBlock x b = some (Client.gotBlock x b) := by
  have hle : b ≤ x.blockCount := h.blockCount.symm ▸ hb
  rw [gotBlock_inside h (inBitmap_of_le (Nat.le_succ_of_le hle)), gotBlock_of_le hle]

/-- Beyond the last block it knows no block, where the file client knows all. -/
theorem gotBlock_beyond (h : Sound n x) (hb : n < b) (hgot : gotBlock x b = some got) :
    got = false := by
  by_cases hin : InBitmap x b
  · rw [gotBlock_inside h hin, h.spare b hb] at hgot
    exact (Option.some.inj hgot).symm
  · rw [gotBlock_outside h hin] at hgot
    cases hgot

-- ---------------------------------------------------------------------------
-- Queueing requests
-- ---------------------------------------------------------------------------

theorem ttpRequestRetransmit_same (h : Sound n x) (hb : b ≤ n) (realloc : Nat → Bool) :
    ttpRequestRetransmit realloc x b = some (Client.ttpRequestRetransmit realloc x b) := by
  rw [ttpRequestRetransmit, gotBlock_same h hb]
  rfl

theorem Sound.queued (h : Sound n x) (hq : Queued x y bs) (hbs : ∀ b ∈ bs, b ≤ n) :
    Sound n y := by
  refine h.of_progress hq.frame.sameProgress fun b hb => ?_
  obtain ⟨added, hadd, hsub, -⟩ := hq.entries
  rw [hadd, List.mem_append] at hb
  rcases hb with hold | hnew
  · exact h.requested b hold
  · exact hbs b (List.mem_filter.mp (hsub.subset hnew)).1

theorem requestAll_same (h : Sound n x) (hbs : ∀ b ∈ bs, b ≤ n) (realloc : Nat → Bool) :
    requestAll realloc x bs = some (bs.foldlM (Client.ttpRequestRetransmit realloc) x) := by
  induction bs generalizing x with
  | nil => rfl
  | cons b bs ih =>
    have hb : b ≤ n := hbs b (List.mem_cons_self ..)
    rw [requestAll, ttpRequestRetransmit_same h hb, Option.bind_some, List.foldlM_cons]
    cases hreq : Client.ttpRequestRetransmit realloc x b with
    | none => rfl
    | some y =>
      have hy : Sound n y :=
        h.queued (ttpRequestRetransmit_queued hreq) fun i hi => (List.mem_singleton.mp hi) ▸ hb
      exact ih hy fun i hi => hbs i (List.mem_cons_of_mem _ hi)

theorem le_of_mem_range (hlast : last ≤ n) (hb : b ∈ List.range' first (last - first)) :
    b ≤ n := by
  rw [List.mem_range'_1] at hb
  omega

theorem requestRange_same (h : Sound n x) (hlast : last ≤ n) (realloc : Nat → Bool)
    (first : Nat) :
    requestRange realloc x first last = some (Client.requestRange realloc x first last) :=
  requestAll_same h (fun _ => le_of_mem_range hlast) realloc

theorem Sound.ranged (h : Sound n x) (hlast : last ≤ n)
    (hreq : Client.requestRange realloc x first last = some y) : Sound n y :=
  h.queued (requestRange_queued hreq) fun _ => le_of_mem_range hlast

-- ---------------------------------------------------------------------------
-- Repeating requests
-- ---------------------------------------------------------------------------

def discarding (x : Transfer) (m : Nat) (hm : m ≤ x.retransmit.table.length) : Discarding x m where
  table := (Client.discard x m).1
  requests := (Client.discard x m).2
  allocated := (discard_discarded x hm).length
  count := (discard_discarded x hm).count

theorem eq_discarding {s : Discarding x m} (hm : m ≤ x.retransmit.table.length)
    (h : Client.discard x m = (s.table, s.requests)) : s = discarding x m hm :=
  Discarding.ext (congrArg Prod.fst h).symm (congrArg Prod.snd h).symm

theorem discard_succ (x : Transfer) (m : Nat) :
    Client.discard x (m + 1) = discardStep x (Client.discard x m) m := by
  simp [Client.discard, List.range_succ]

theorem discarding_step (h : Sound n x) (hm : m < x.retransmit.indexMax)
    (hlen : m + 1 ≤ x.retransmit.table.length) :
    (discarding x m (Nat.le_of_succ_le hlen)).step = some (discarding x (m + 1) hlen) := by
  have hinv := discard_discarded x (Nat.le_of_succ_le hlen)
  have hentry : (Client.discard x m).1.getD m 0 = x.retransmit.table[m] := by
    rw [List.getD_eq_getElem?_getD, hinv.rest m hinv.count, List.getElem?_eq_getElem hlen,
      Option.getD_some]
  have hmem : x.retransmit.table[m] ∈ x.retransmit.entries := by
    have hlt : m < x.retransmit.entries.length := by rwa [Retransmit.length_entries]
    have hget : x.retransmit.entries[m] = x.retransmit.table[m] := List.getElem_take
    exact hget ▸ List.getElem_mem hlt
  have hgot := gotBlock_same h (h.requested _ hmem)
  have hsucc := discard_succ x m
  simp only [discardStep, hentry] at hsucc
  simp only [Discarding.step, discarding, hentry, hgot, Option.map_some]
  split at hsucc
  · rename_i hroom
    rw [if_pos hroom]
    by_cases hzero : x.retransmit.table[m] = 0
    · rw [if_neg (fun hw => hw.1 hzero)] at hsucc
      rw [if_pos hzero, Option.some.injEq]
      exact eq_discarding hlen hsucc
    · rw [if_neg hzero, Option.some.injEq]
      cases hold : Client.gotBlock x x.retransmit.table[m] with
      | true =>
        rw [hold, if_neg (fun hw => Bool.noConfusion hw.2)] at hsucc
        exact eq_discarding hlen hsucc
      | false =>
        rw [hold, if_pos ⟨hzero, rfl⟩] at hsucc
        exact eq_discarding hlen hsucc
  · rename_i hfull
    rw [if_neg hfull, Option.some.injEq]
    exact eq_discarding hlen hsucc

theorem discard_same (h : Sound n x) (hm : m ≤ x.retransmit.indexMax) :
    discard x m = some (discarding x m (Nat.le_trans hm x.retransmit.fits)) := by
  induction m with
  | zero => rfl
  | succ m ih =>
    rw [discard, ih (Nat.le_of_succ_le hm), Option.bind_some]
    exact discarding_step h hm (Nat.le_trans hm x.retransmit.fits)

theorem ttpRepeatRetransmit_same (h : Sound n x) (w : WriteResult) :
    ttpRepeatRetransmit w x = some (Client.ttpRepeatRetransmit w x) := by
  rw [ttpRepeatRetransmit, discard_same h (Nat.le_refl _)]
  rfl

theorem mem_entries_compact {x : Transfer} (hm : m ≤ x.retransmit.indexMax)
    (hb : b ∈ (x.compact m hm).entries) : b ∈ x.retransmit.entries := by
  have hinv := discarded x
  obtain ⟨i, hi⟩ := List.mem_iff_getElem?.mp hb
  have htable : ((Client.discard x x.retransmit.indexMax).1.take m)[i]? = some b := hi
  rw [List.getElem?_take] at htable
  split at htable
  · rename_i hlt
    by_cases hreq : i < (Client.discard x x.retransmit.indexMax).2.length
    · rw [← List.getElem?_take_of_lt hreq, hinv.bottom] at htable
      have hmem := List.mem_of_getElem? htable
      rw [hinv.requests] at hmem
      exact (mem_wanted.mp (List.mem_of_mem_take hmem)).1
    · rw [hinv.rest i (Nat.le_of_not_lt hreq)] at htable
      rw [← List.getElem?_take_of_lt (Nat.lt_of_lt_of_le hlt hm)] at htable
      exact List.mem_of_getElem? htable
  · cases htable

theorem Sound.repeated (h : Sound n x) (w : WriteResult) :
    Sound n (Client.ttpRepeatRetransmit w x).xfer := by
  refine h.of_progress (ttpRepeatRetransmit_sameProgress w x) fun b hb => h.requested b ?_
  rw [Client.ttpRepeatRetransmit] at hb
  simp only at hb
  split at hb
  · split at hb
    · exact mem_entries_compact (Nat.le_refl _) hb
    · exact mem_entries_compact (Nat.zero_le _) hb
  · exact mem_entries_compact (discarded x).count hb

theorem Sound.updated (h : Sound n x) (param : Parameter) (c : Int) (w : WriteResult) :
    Sound n (sendErrorRate param c w x).xfer := by
  refine h.of_progress (sendErrorRate_sameProgress param c w x) ?_
  rw [sendErrorRate]
  split <;> exact h.requested

-- ---------------------------------------------------------------------------
-- Statistics and the end of the transmission
-- ---------------------------------------------------------------------------

theorem sendStats_same (h : Sound n x) (param : Parameter) (o : Oracle) :
    sendStats param o x = some (Client.sendStats param o x) := by
  rw [sendStats, Client.sendStats]
  split
  · rw [ttpRepeatRetransmit_same h, Option.map_some]
  · rfl

theorem Sound.reported (h : Sound n x) (param : Parameter) (o : Oracle) :
    Sound n (Client.sendStats param o x).xfer := by
  have hrep := h.repeated o.atRepeat
  rcases sendStats_cases param o x with heq | ⟨-, heq⟩ | heq
  · exact heq ▸ h
  · exact heq ▸ hrep.updated ..
  · exact heq ▸ hrep

theorem terminate_same (h : Sound n x) (param : Parameter) (o : Oracle) :
    terminate param o x = some (Client.terminate param o x) := by
  rw [terminate, Client.terminate]
  split
  · rfl
  · split
    · rfl
    · rw [requestRange_same h (Nat.le_of_eq h.blockCount), Option.bind_some]
      cases hreq : Client.requestRange o.realloc x (u32 (x.gaplessToBlock + 1)) x.blockCount with
      | none => rfl
      | some y =>
        have hy : Sound n y := h.ranged (Nat.le_of_eq h.blockCount) hreq
        simp only [ttpRepeatRetransmit_same hy, Option.map_some]

theorem Sound.terminated (h : Sound n x) (param : Parameter) (o : Oracle) :
    Sound n (Client.terminate param o x).xfer := by
  rw [Client.terminate]
  split
  · exact h
  · split
    · exact h
    · split
      · exact h
      · rename_i y hy
        exact (h.ranged (Nat.le_of_eq h.blockCount) hy).repeated o.atTerminate

-- ---------------------------------------------------------------------------
-- The gapless section
-- ---------------------------------------------------------------------------

theorem advanceLoop_eq_or_le (x : Transfer) (fuel g : Nat) :
    Client.advanceLoop x fuel g = g ∨ Client.advanceLoop x fuel g ≤ x.blockCount := by
  induction fuel generalizing g with
  | zero => exact .inl rfl
  | succ fuel ih =>
    rw [Client.advanceLoop]
    split
    · rename_i hstep
      rcases ih (g + 1) with heq | hle
      · exact .inr (Nat.le_trans (Nat.le_of_eq heq) hstep.2)
      · exact .inr hle
    · exact .inl rfl

theorem advanceLoop_same (h : Sound n x) (hg : InBitmap x (u32 (g + 1))) :
    advanceLoop x (x.blockCount - g) g = some (Client.advanceLoop x (x.blockCount - g) g) := by
  generalize hf : x.blockCount - g = fuel
  induction fuel generalizing g with
  | zero =>
    rw [advanceLoop, gotBlock_inside h hg]
    rfl
  | succ fuel ih =>
    have hcount := h.blockCount
    have hwrap : u32 (g + 1) ≤ g + 1 := Nat.mod_le ..
    rw [advanceLoop, gotBlock_same h (by omega), Option.bind_some, Client.advanceLoop]
    split
    · have hnext : u32 (g + 1 + 1) ≤ g + 1 + 1 := Nat.mod_le ..
      exact ih (inBitmap_of_le (by omega)) (by omega)
    · rfl

theorem advanceGapless_same (h : Sound n x) :
    advanceGapless x = some (Client.advanceGapless x) := by
  rw [advanceGapless, advanceLoop_same h h.gapless]
  rfl

theorem Sound.advanced (h : Sound n x) (hn : n < 2 ^ 32) :
    Sound n (Client.advanceGapless x) := by
  have hcount := h.blockCount
  have hlt := h.gaplessLt
  have hin := h.gapless
  have hsame : SameBlocks x (Client.advanceGapless x) := ⟨rfl, rfl, rfl, rfl⟩
  rcases advanceLoop_eq_or_le x (x.blockCount - x.gaplessToBlock) x.gaplessToBlock with heq | hle
  · refine h.of_blocks hsame h.requested ?_ ?_
    · rw [Client.advanceGapless, heq]
      exact hlt
    · rw [Client.advanceGapless, heq]
      exact hin
  · refine h.of_blocks hsame h.requested ?_ ?_
    · exact Nat.lt_of_le_of_lt hle (by omega)
    · exact inBitmap_of_le (Nat.le_trans (Nat.mod_le ..) (Nat.succ_le_succ hle))

theorem advanceGapless_outside (h : Sound n x) (hg : ¬InBitmap x (u32 (g + 1))) :
    advanceGapless { x with nextBlock := next, gaplessToBlock := g } = none := by
  have hnone : gotBlock { x with nextBlock := next, gaplessToBlock := g } (u32 (g + 1)) = none := by
    have hx := gotBlock_outside h hg
    rwa [gotBlock] at hx ⊢
  rw [advanceGapless]
  generalize x.blockCount - g = fuel
  cases fuel with
  | zero => rw [advanceLoop, hnone]; rfl
  | succ fuel => rw [advanceLoop, hnone]; rfl

theorem advanceHead_same (h : Sound n x) (b ty : Nat) :
    advanceHead x b ty = some (Client.advanceHead x b ty) := by
  rw [advanceHead, advanceGapless_same h]
  rfl

theorem Sound.headed (h : Sound n x) (hn : n < 2 ^ 32) (b ty : Nat) :
    Sound n (Client.advanceHead x b ty) := by
  refine (h.advanced hn).of_progress (advanceHead_advanced x b ty) ?_
  have hreq : (Client.advanceHead x b ty).retransmit = x.retransmit := by
    rw [Client.advanceHead, leaveRestart, expectNext, Client.advanceGapless]
    split <;> split <;> rfl
  rw [hreq]
  exact h.requested

-- ---------------------------------------------------------------------------
-- A gap
-- ---------------------------------------------------------------------------

structure Hops (param : Parameter) (x : Transfer) (b : Nat) : Prop where
  lossy : param.lossless = false
  window : param.losswindowMs ≠ 0
  ahead : x.nextBlock < b

def LandsInside (o : Oracle) (x : Transfer) (b : Nat) : Prop :=
  InBitmap x (u32 (earliestBlock o x b + 1))

theorem earliestBlock_lt (o : Oracle) (x : Transfer) (b : Nat) : earliestBlock o x b < 2 ^ 32 := by
  rw [earliestBlock]
  omega

theorem queueMissing_same (h : Sound n x) (hb : b ≤ n) (param : Parameter) (o : Oracle) :
    queueMissing param o x b = some (Client.queueMissing param o x b) := by
  rw [queueMissing, Client.queueMissing]
  split
  · exact requestRange_same h hb ..
  · split
    · rfl
    · simp only [requestRange_same h hb, Option.map_some]

theorem Sound.gapped (h : Sound n x) (hn : n < 2 ^ 32) (hb : b ≤ n) (hahead : x.nextBlock < b)
    (hland : Hops param x b → LandsInside o x b) (hq : Client.queueMissing param o x b = some y) :
    Sound n y := by
  have hcount := h.blockCount
  rw [Client.queueMissing] at hq
  split at hq
  · exact h.ranged hb hq
  · rename_i hlossy
    split at hq
    · cases hq
      exact h.of_blocks ⟨rfl, rfl, rfl, rfl⟩ h.requested (Nat.lt_of_le_of_lt hb hn)
        (inBitmap_of_le (Nat.le_trans (Nat.mod_le ..) (by simp only; omega)))
    · rename_i hwindow
      obtain ⟨z, hz, rfl⟩ := Option.map_eq_some_iff.mp hq
      have hsound : Sound n z := h.ranged hb hz
      have hin := hland ⟨eq_false_of_ne_true hlossy, hwindow, hahead⟩
      refine hsound.of_blocks ⟨rfl, rfl, rfl, rfl⟩ hsound.requested (earliestBlock_lt o x b) ?_
      rw [InBitmap, hsound.blockCount, ← hcount]
      exact hin

theorem control_same (h : Sound n x) (hn : n < 2 ^ 32) (hb : b ≤ n) (ty : Nat)
    (hland : onWire x b ty = false → Hops param x b → LandsInside o x b) :
    control param o x b ty = some (Client.control param o x b ty) := by
  rw [control, Client.control]
  split
  · rfl
  · rename_i hwire
    split
    · rename_i hahead
      rw [queueMissing_same h hb, Option.bind_some]
      cases hq : Client.queueMissing param o x b with
      | none => rfl
      | some y =>
        have hy : Sound n y := h.gapped hn hb hahead (hland (eq_false_of_ne_true hwire)) hq
        simp only [advanceHead_same hy, Option.bind_some]
        split
        · exact terminate_same (hy.headed hn b ty) param o
        · rfl
    · rw [Option.bind_some]
      simp only [advanceHead_same h, Option.bind_some]
      split
      · exact terminate_same (h.headed hn b ty) param o
      · rfl

theorem Sound.controlled (h : Sound n x) (hn : n < 2 ^ 32) (hb : b ≤ n) (ty : Nat)
    (hland : onWire x b ty = false → Hops param x b → LandsInside o x b) :
    Sound n (Client.control param o x b ty).xfer := by
  rw [Client.control]
  split
  · exact h
  · rename_i hwire
    split
    · exact h
    · rename_i y hq
      have hy : Sound n y := by
        split at hq
        · rename_i hahead
          exact h.gapped hn hb hahead (hland (eq_false_of_ne_true hwire)) hq
        · cases hq
          exact h
      have hhead := hy.headed hn b ty
      simp only
      split
      · exact hhead.terminated param o
      · exact hhead

/-- The window reaches back below block 0, to a number from where the loop looks
outside the bitmap. -/
theorem control_outside (h : Sound n x) (hb : b ≤ n) (hwire : onWire x b ty = false)
    (hop : Hops param x b) (hout : ¬LandsInside o x b) : control param o x b ty = none := by
  have hcount := h.blockCount
  have hpast : b < earliestBlock o x b := by
    refine Nat.lt_of_not_le fun hle => hout (inBitmap_of_le ?_)
    have hwrap : u32 (earliestBlock o x b + 1) ≤ earliestBlock o x b + 1 := Nat.mod_le ..
    omega
  have hnone : requestRange o.realloc x (earliestBlock o x b) b = some (some x) := by
    rw [requestRange, Nat.sub_eq_zero_of_le (Nat.le_of_lt hpast)]
    rfl
  have hq : queueMissing param o x b = some (some { x with
      nextBlock := earliestBlock o x b, gaplessToBlock := earliestBlock o x b }) := by
    rw [queueMissing, if_neg (by rw [hop.lossy]; exact Bool.false_ne_true), if_neg hop.window]
    simp only [hnone, Option.map_some]
  rw [control, if_neg (by rw [hwire]; exact Bool.false_ne_true), if_pos hop.ahead, hq,
    Option.bind_some]
  simp only [advanceHead, advanceGapless_outside h hout, Option.map_none, Option.bind_none]

theorem controlAndStats_same (h : Sound n x) (hn : n < 2 ^ 32) (hb : b ≤ n) (ty : Nat)
    (hland : onWire x b ty = false → Hops param x b → LandsInside o x b) :
    controlAndStats param o x b ty = some (Client.controlAndStats param o x b ty) := by
  rw [controlAndStats, control_same h hn hb ty hland, Option.bind_some, Client.controlAndStats]
  split
  · rw [sendStats_same (h.controlled hn hb ty hland), Option.map_some]
  · rfl

theorem Sound.steered (h : Sound n x) (hn : n < 2 ^ 32) (hb : b ≤ n) (ty : Nat)
    (hland : onWire x b ty = false → Hops param x b → LandsInside o x b) :
    Sound n (Client.controlAndStats param o x b ty).xfer := by
  have hctl := h.controlled hn hb ty hland
  rw [Client.controlAndStats]
  split
  · exact hctl.reported param o
  · exact hctl

end Tsunami.RtClient
