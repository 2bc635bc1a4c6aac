import Tsunami.Client.ReceiveLaws

/-!
# What a failed or short receive does

One turn of the receive loop from `recvfrom` on, with the local buffer that is
used again in every turn: after an error, or behind a short datagram, it still
holds what the turns before have left there.
-/

namespace Tsunami.Client

open Bytes

/-- What `recvfrom` answers; of a longer datagram it delivers the part that has
been asked for. -/
inductive Reception
  | error
  | datagram (d : List UInt8)
  deriving DecidableEq, Repr

def Reception.failed : Reception → Bool
  | .error => true
  | .datagram _ => false

def Reception.buffer (buf : List UInt8) : Reception → List UInt8
  | .error => buf
  | .datagram d => blit buf 0 d

def Reception.Carries (param : Parameter) (r : Reception) (b : Nat) : Prop :=
  ∃ d, r = .datagram d ∧ d.length = 6 + param.blockSize ∧ blockNumber d = b

structure Pass where
  result : Result
  buffer : List UInt8
  queued : Option (List UInt8)

def givesUp (o : Oracle) (x : Transfer) (r : Reception) : Bool :=
  r.failed && !(ttpRepeatRetransmit o.atFrozen x).ok

def pass (param : Parameter) (o : Oracle) (full : Bool) (x : Transfer) (buf : List UInt8)
    (r : Reception) : Pass :=
  let buf := r.buffer buf
  let b := blockNumber buf
  { result := receive param o r.failed full x b (blockType buf)
    buffer := buf
    queued := if givesUp o x r = false ∧ full = false ∧ gotBlock x b = false then some buf else none }

-- ---------------------------------------------------------------------------
-- What a turn may do
-- ---------------------------------------------------------------------------

/-- Nothing is marked as received, put into the ring or counted off but a
block that a complete datagram has just brought. -/
structure FreshOnly (param : Parameter) (x : Transfer) (r : Reception) (p : Pass) : Prop where
  marked : gotBlock x b = false → gotBlock p.result.xfer b = true → r.Carries param b
  queued : p.queued = some d → r.Carries param (blockNumber d)
  counted : p.result.xfer.blocksLeft ≠ x.blocksLeft → r.Carries param (blockNumber p.buffer)

/-- What repeating the requests and sending statistics can make of the
transfer object. -/
inductive FeedbackOnly (param : Parameter) (x : Transfer) : Transfer → Prop
  | refl : FeedbackOnly param x x
  | requests : FeedbackOnly param x y → FeedbackOnly param x (ttpRepeatRetransmit w y).xfer
  | stats : FeedbackOnly param x y → ttpUpdateStats param c w y = some sent →
      FeedbackOnly param x sent.xfer

structure Faithful (param : Parameter) (x : Transfer) (r : Reception) (p : Pass) : Prop where
  fresh : FreshOnly param x r p
  failed : r = .error → FeedbackOnly param x p.result.xfer

def RepeatFails (o : Oracle) (x : Transfer) : Prop :=
  o.atFrozen.flushed = false ∧
    (o.atFrozen = .fwriteFails → wanted x x.retransmit.entries ≠ [])

/-- The block number left in the buffer names nothing new, or there is no room
in the ring. -/
def Ignored (full : Bool) (x : Transfer) (buf : List UInt8) (r : Reception) : Prop :=
  full = true ∨ gotBlock x (blockNumber (r.buffer buf)) = true

-- ---------------------------------------------------------------------------
-- The laws of a turn
-- ---------------------------------------------------------------------------

theorem ttpRepeatRetransmit_fails_iff (o : Oracle) (x : Transfer) :
    (ttpRepeatRetransmit o.atFrozen x).ok = false ↔ RepeatFails o x := by
  have hempty : (discard x x.retransmit.indexMax).2 = [] ↔ wanted x x.retransmit.entries = [] := by
    rw [discard_requests, List.take_eq_nil_iff]
    simp [maxRetransmissionBuffer]
  simp only [ttpRepeatRetransmit, RepeatFails]
  cases hw : o.atFrozen with
  | ok => split <;> simp
  | short n flushed => split <;> simp [WriteResult.flushed]
  | fflushFails => split <;> simp [WriteResult.flushed]
  | fwriteFails =>
    split
    · rename_i hmany
      have hsome : wanted x x.retransmit.entries ≠ [] := fun h => by
        rw [hempty.mpr h] at hmany
        exact absurd hmany (by decide)
      simp [hsome, WriteResult.flushed]
    · simp [hempty, WriteResult.flushed]

theorem givesUp_iff (o : Oracle) (x : Transfer) (r : Reception) :
    givesUp o x r = true ↔ r = .error ∧ RepeatFails o x := by
  rw [← ttpRepeatRetransmit_fails_iff]
  cases r <;> simp [givesUp, Reception.failed]

theorem Reception.Carries.not_error (h : Carries param r b) : r ≠ .error := by
  rintro rfl
  obtain ⟨d, h, -⟩ := h
  cases h

theorem pass_givesUp (param : Parameter) (full : Bool) (buf : List UInt8)
    (h : givesUp o x r = true) :
    (pass param o full x buf r).result.xfer = (ttpRepeatRetransmit o.atFrozen x).xfer := by
  obtain ⟨rfl, hfail⟩ := (givesUp_iff o x r).mp h
  have hok := (ttpRepeatRetransmit_fails_iff o x).mpr hfail
  simp [pass, receive, Reception.failed, hok]

theorem pass_sameBlocks (param : Parameter) (full : Bool) (buf : List UInt8)
    (h : givesUp o x r = false) :
    SameBlocks
      (if full = false ∧ gotBlock x (blockNumber (r.buffer buf)) = false then
        markReceived x (blockNumber (r.buffer buf)) else x)
      (pass param o full x buf r).result.xfer := by
  refine receive_sameBlocks _ _ _ _ fun hfailed => ?_
  simpa [givesUp, hfailed] using h

theorem gotBlock_markReceived_new (h : gotBlock x b = false)
    (hb : gotBlock (markReceived x t) b = true) :
    t = b := by
  by_cases hle : b ≤ x.blockCount
  · rw [gotBlock_of_le hle] at h
    rw [gotBlock_of_le (x := markReceived x t) hle] at hb
    by_cases ht : t / 8 < x.received.length
    · simpa only [markReceived, getBit_setBit ht, h, Bool.or_false, decide_eq_true_eq] using hb
    · have hset : setBit x.received t = x.received := List.set_eq_of_length_le (Nat.le_of_not_lt ht)
      simp only [markReceived, hset, h] at hb
      exact Bool.noConfusion hb
  · rw [gotBlock_of_gt (Nat.lt_of_not_le hle)] at h
    exact Bool.noConfusion h

def SameCount (x y : Transfer) : Prop := y.stats.totalBlocks = x.stats.totalBlocks

theorem SameCount.kept : KeptByControl SameCount where
  refl _ := rfl
  trans h h' := h'.trans h
  table h := by
    rw [SameButTable] at h
    rw [SameCount, h]
  requests w x := by
    simp only [SameCount, ttpRepeatRetransmit]
    split
    · split <;> rfl
    · rfl
  stats param c w x := by
    simp only [SameCount, sendErrorRate]
    split <;> rfl
  heads _ _ _ _ := rfl

theorem FeedbackOnly.sameCount (h : FeedbackOnly param x y) : SameCount x y := by
  induction h with
  | refl => rfl
  | requests _ ih => exact SameCount.kept.trans ih (SameCount.kept.requests ..)
  | stats _ hsent ih =>
    rw [ttpUpdateStats_sent hsent]
    exact SameCount.kept.trans ih (SameCount.kept.stats ..)

theorem iteration_counts (param : Parameter) (o : Oracle) (full : Bool) (x : Transfer)
    (b ty : Nat) :
    (iteration param o full x b ty).xfer.stats.totalBlocks = u32 (x.stats.totalBlocks + 1) := by
  have hcount : ∀ y, y = countReceived x ty ∨ y = markReceived (countReceived x ty) b →
      y.stats.totalBlocks = u32 (x.stats.totalBlocks + 1) := by
    rintro y (rfl | rfl) <;> simp only [markReceived, countReceived] <;> split <;> rfl
  simp only [iteration]
  split
  · split
    · exact (SameCount.kept.controlAndStats ..).trans (hcount _ (.inl rfl))
    · exact (SameCount.kept.controlAndStats ..).trans (hcount _ (.inr rfl))
  · exact (SameCount.kept.sendStats ..).trans (hcount _ (.inl rfl))

theorem pass_counts (param : Parameter) (full : Bool) (buf : List UInt8)
    (h : givesUp o x r = false) :
    (pass param o full x buf r).result.xfer.stats.totalBlocks = u32 (x.stats.totalBlocks + 1) := by
  simp only [pass, receive]
  split
  · rename_i hfailed
    have hok : (ttpRepeatRetransmit o.atFrozen x).ok = true := by simpa [givesUp, hfailed] using h
    simp only [hok, if_true]
    rw [iteration_counts, SameCount.kept.requests o.atFrozen x]
  · exact iteration_counts ..

theorem u32_succ_ne (n : Nat) : u32 (n + 1) ≠ n := by
  rw [u32]
  omega

-- ---------------------------------------------------------------------------
-- When only fresh datagrams count
-- ---------------------------------------------------------------------------

theorem FreshOnly.of_idle (hbooks : SameBlocks x p.result.xfer) (hnone : p.queued = none) :
    FreshOnly param x r p where
  marked hmiss hgot := by
    rw [hbooks.gotBlock, hmiss] at hgot
    exact Bool.noConfusion hgot
  queued h := by
    rw [hnone] at h
    cases h
  counted h := absurd hbooks.blocksLeft h

theorem pass_fresh_of_carries (param : Parameter) (o : Oracle) (full : Bool) (x : Transfer)
    (h : r.Carries param (blockNumber (r.buffer buf))) :
    FreshOnly param x r (pass param o full x buf r) := by
  have hgo : givesUp o x r = false :=
    eq_false_of_ne_true fun hg => h.not_error ((givesUp_iff ..).mp hg).1
  have hbooks := pass_sameBlocks param full buf hgo
  refine ⟨fun hmiss hgot => ?_, fun hq => ?_, fun _ => h⟩
  · rw [hbooks.gotBlock] at hgot
    split at hgot
    · exact gotBlock_markReceived_new hmiss hgot ▸ h
    · rw [hmiss] at hgot
      exact Bool.noConfusion hgot
  · simp only [pass] at hq
    split at hq <;> cases hq
    exact h

/-- Only fresh datagrams count, as long as the turn is given up, the datagram
is complete, or what stands in the buffer is not looked at. -/
theorem pass_fresh_iff (param : Parameter) (o : Oracle) (full : Bool) (x : Transfer)
    (buf : List UInt8) (r : Reception) (hbuf : buf.length = 6 + param.blockSize) :
    FreshOnly param x r (pass param o full x buf r) ↔
      givesUp o x r = true ∨ Ignored full x buf r ∨ ∃ d, r = .datagram d ∧
      d.length = 6 + param.blockSize := by
  constructor
  · intro h
    by_contra hno
    simp only [not_or, not_exists, not_and, Ignored] at hno
    obtain ⟨hgo, ⟨hroom, hmiss⟩, hshort⟩ := hno
    have hq : (pass param o full x buf r).queued = some (r.buffer buf) := by
      simp only [pass, eq_false_of_ne_true hgo, eq_false_of_ne_true hroom,
        eq_false_of_ne_true hmiss, and_self, if_true]
    obtain ⟨d, hd, hlen, -⟩ := h.queued hq
    exact hshort d hd hlen
  · intro h
    by_cases hgo : givesUp o x r = true
    · refine .of_idle ?_ ?_
      · rw [pass_givesUp param full buf hgo]
        exact ttpRepeatRetransmit_sameBlocks ..
      · simp [pass, hgo]
    · by_cases hign : Ignored full x buf r
      · have hidle : ¬(full = false ∧ gotBlock x (blockNumber (r.buffer buf)) = false) := by
          rintro ⟨hfull, hmiss⟩
          rcases hign with h | h
          · exact absurd (h.symm.trans hfull) Bool.noConfusion
          · exact absurd (h.symm.trans hmiss) Bool.noConfusion
        have hbooks := pass_sameBlocks param full buf (eq_false_of_ne_true hgo)
        rw [if_neg hidle] at hbooks
        exact .of_idle hbooks (if_neg fun h => hidle h.2)
      · obtain ⟨d, rfl, hlen⟩ := (h.resolve_left hgo).resolve_left hign
        refine pass_fresh_of_carries param o full x ⟨d, rfl, hlen, ?_⟩
        rw [Reception.buffer, blit_all (hlen.trans hbuf.symm)]

/-- Only complete, freshly received datagrams count, and a failed receive does
nothing but repeat requests, if and only if the receive failed and the
requests cannot be repeated either, or a datagram came that is complete or
behind which the buffer names no block that is new and has room. -/
theorem fresh_datagrams_count_iff (param : Parameter) (o : Oracle) (full : Bool) (x : Transfer)
    (buf : List UInt8) (r : Reception) (hbuf : buf.length = 6 + param.blockSize) :
    Faithful param x r (pass param o full x buf r) ↔
      match r with
      | .error => RepeatFails o x
      | .datagram d => d.length = 6 + param.blockSize ∨ full = true ∨
          gotBlock x (blockNumber (blit buf 0 d)) = true := by
  have hfresh := pass_fresh_iff param o full x buf r hbuf
  cases r with
  | error =>
    constructor
    · rintro ⟨-, hfeedback⟩
      by_contra hfails
      have hgo : givesUp o x .error = false :=
        eq_false_of_ne_true fun hg => hfails ((givesUp_iff ..).mp hg).2
      have hcount := pass_counts param full buf hgo
      rw [(hfeedback rfl).sameCount] at hcount
      exact u32_succ_ne _ hcount.symm
    · intro hfails
      have hgo : givesUp o x .error = true := (givesUp_iff ..).mpr ⟨rfl, hfails⟩
      refine ⟨hfresh.mpr (.inl hgo), fun _ => ?_⟩
      rw [pass_givesUp param full buf hgo]
      exact FeedbackOnly.refl.requests
  | datagram d =>
    have hgo : givesUp o x (.datagram d) = false := rfl
    simp only [hgo, Bool.false_eq_true, false_or, Reception.datagram.injEq,
      exists_eq_left', Ignored, Reception.buffer] at hfresh
    constructor
    · rintro ⟨h, -⟩
      exact (hfresh.mp h).symm
    · intro h
      exact ⟨hfresh.mpr h.symm, fun h => by cases h⟩

/-- A complete datagram with block 1, at the start of a transfer of one block. -/
theorem fresh_datagram_counts :
    Faithful (defaultParameter 4) (.create (defaultParameter 4) 4 1)
      (.datagram (header 1 tsBlockOriginal ++ [1, 2, 3, 4]))
      (pass (defaultParameter 4) quietOracle false (.create (defaultParameter 4) 4 1)
        (List.replicate 10 0) (.datagram (header 1 tsBlockOriginal ++ [1, 2, 3, 4]))) :=
  (fresh_datagrams_count_iff (defaultParameter 4) quietOracle false
    (.create (defaultParameter 4) 4 1)
    (List.replicate 10 0) (.datagram (header 1 tsBlockOriginal ++ [1, 2, 3, 4])) rfl).mpr (.inl rfl)

/-- The first receive of that transfer fails: block 0, which is what the cleared
buffer says, is put into the ring, and the only block is counted off. -/
theorem failed_receive_counts :
    let x := Transfer.create (defaultParameter 4) 4 1
    let p := pass (defaultParameter 4) quietOracle false x (List.replicate 10 0) .error
    p.queued = some (List.replicate 10 0) ∧ x.blocksLeft = 1 ∧ p.result.xfer.blocksLeft = 0 ∧
      p.result.verdict = .next ∧ ¬Faithful (defaultParameter 4) x .error p := by
  refine ⟨by decide, rfl, by decide, by decide, fun h => ?_⟩
  obtain ⟨d, hd, -⟩ := h.fresh.queued (d := List.replicate 10 0) (by decide)
  cases hd

end Tsunami.Client
