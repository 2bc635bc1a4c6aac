import Tsunami.Client.Assembly
import Tsunami.Client.InOrder
import Tsunami.Client.Terminate

/-!
# When a restart is asked for

`ttp_repeat_retransmit` counts the entries of the table. As long as no block is
queued that the table holds already, that many entries are that many missing
blocks.
-/

namespace Tsunami.Client

open Bytes Transition

variable {x y : Transfer} {b ty : Nat} {param : Parameter} {o : Oracle}

/-- No missing block stands in the table twice. -/
def Distinct (x : Transfer) : Prop := (wanted x x.retransmit.entries).Nodup

theorem mem_missing_of_mem_wanted (h : b ∈ wanted x bs) : b ∈ missing x := by
  obtain ⟨-, hne, hmiss⟩ := mem_wanted.mp h
  refine mem_missing.mpr ⟨Nat.one_le_iff_ne_zero.mpr hne, ?_, hmiss⟩
  by_contra hgt
  rw [gotBlock_of_gt (by omega)] at hmiss
  cases hmiss

theorem Distinct.length_wanted_le (h : Distinct x) :
    (wanted x x.retransmit.entries).length ≤ (missing x).card := by
  rw [← List.toFinset_card_of_nodup h]
  exact Finset.card_le_card fun b hb => mem_missing_of_mem_wanted (List.mem_toFinset.mp hb)

theorem restart_wanted {q : Retransmission} (hq : q ∈ (ttpRepeatRetransmit w x).records)
    (hty : q.requestType = requestRestart) :
    maxRetransmissionBuffer ≤ (wanted x x.retransmit.entries).length := by
  simp only [ttpRepeatRetransmit, discard_requests, ge_iff_le] at hq
  split at hq
  · rename_i hmany
    rw [List.length_take] at hmany
    omega
  · -- these are requests for single blocks
    obtain ⟨b, -, rfl⟩ := List.mem_map.mp (WriteResult.mem_of_mem_taken hq)
    cases hty

theorem Distinct.restart {q : Retransmission} (h : Distinct x)
    (hq : q ∈ (ttpRepeatRetransmit w x).records) (hty : q.requestType = requestRestart) :
    maxRetransmissionBuffer ≤ (missing x).card :=
  (restart_wanted hq hty).trans h.length_wanted_le

-- ---------------------------------------------------------------------------
-- What keeps the entries distinct
-- ---------------------------------------------------------------------------

theorem Distinct.mono (h : Distinct x) (htable : y.retransmit = x.retransmit)
    (hgot : ∀ b, gotBlock x b = true → gotBlock y b = true) : Distinct y := by
  refine h.sublist ?_
  rw [htable]
  refine List.monotone_filter_right _ fun b hb => ?_
  simp only [decide_eq_true_eq] at hb ⊢
  refine ⟨hb.1, eq_false_of_ne_true fun hx => ?_⟩
  rw [hgot b hx] at hb
  exact absurd hb.2 Bool.noConfusion

theorem Distinct.same (h : Distinct x) (htable : y.retransmit = x.retransmit)
    (hs : SameBlocks x y) :
    Distinct y := h.mono htable fun b hb => (hs.gotBlock b).trans hb

theorem gotBlock_markReceived_of_got (b : Nat) (h : gotBlock x i = true) :
    gotBlock (markReceived x b) i = true := by
  by_cases hi : i ≤ x.blockCount
  · rw [gotBlock_of_le hi] at h
    rw [gotBlock_of_le (x := markReceived x b) hi]
    by_cases hb : b / 8 < x.received.length
    · simp only [markReceived, getBit_setBit hb, h, Bool.or_true]
    · have hset : setBit x.received b = x.received := List.set_eq_of_length_le (Nat.le_of_not_lt hb)
      simp only [markReceived, hset]
      exact h
  · exact gotBlock_of_gt (x := markReceived x b) (Nat.lt_of_not_le hi)

def Fresh (x : Transfer) (bs : List Nat) : Prop :=
  ∀ b ∈ bs, b ≠ 0 → gotBlock x b = false → b ∉ x.retransmit.entries

theorem Distinct.queued (h : Distinct x) (hq : Queued x y bs) (hf : Fresh x bs) (hb : bs.Nodup) :
    Distinct y := by
  obtain ⟨added, hadd, hsub, -⟩ := hq.entries
  have hsame : ∀ cs, wanted y cs = wanted x cs := wanted_same hq.frame.sameBlocks
  have hmem : ∀ b ∈ added, b ∈ bs := fun b hb => List.mem_of_mem_filter (hsub.subset hb)
  rw [Distinct, hsame, hadd, wanted, List.filter_append]
  refine List.nodup_append.mpr ⟨h, ((hsub.nodup (hb.filter _)).filter _), ?_⟩
  rintro b hb c hc rfl
  obtain ⟨hin, -, -⟩ := mem_wanted.mp hb
  obtain ⟨hc, hne, hmiss⟩ := mem_wanted.mp hc
  exact hf b (hmem b hc) hne hmiss hin

theorem Distinct.repeated (h : Distinct x)
    (hw : w = .fwriteFails → (ttpRepeatRetransmit w x).ok = true) :
    Distinct (ttpRepeatRetransmit w x).xfer := by
  have hsame := ttpRepeatRetransmit_sameBlocks w x
  have hentries : (ttpRepeatRetransmit w x).xfer.retransmit.entries.Sublist
      (wanted x x.retransmit.entries) := by
    have hcompact := entries_compact x
    simp only [ttpRepeatRetransmit] at hw ⊢
    split
    · rename_i hmany
      rw [if_pos hmany] at hw
      split
      · rename_i hfail
        rw [if_pos hfail] at hw
        exact absurd (hw hfail) Bool.noConfusion
      · exact List.nil_sublist _
    · exact hcompact ▸ List.take_sublist ..
  rw [Distinct, wanted_same hsame]
  exact (h.sublist hentries).filter _

-- ---------------------------------------------------------------------------
-- One iteration
-- ---------------------------------------------------------------------------

/-- Handling block `b`, of type `ty`, queues no block that the table holds: no
such block is missing before `b`, and at the end of the transmission no block
is missing that is in the table or has just been put there. -/
def QueuesFresh (x : Transfer) (b ty : Nat) : Prop :=
  Fresh x (List.range' x.nextBlock (b - x.nextBlock)) ∧
    (ty = tsBlockTerminate → x.blocksLeft ≠ 0 → ∀ i, 1 ≤ i → i < x.blockCount →
      gotBlock x i = false →
      i ∉ x.retransmit.entries ∧ ¬(x.nextBlock ≤ i ∧ i < b))

def Justified (x : Transfer) (rs : List Retransmission) : Prop :=
  ∀ q ∈ rs, q.requestType = requestRestart → maxRetransmissionBuffer ≤ (missing x).card

theorem justified_nil (x : Transfer) : Justified x [] := fun _ hq => absurd hq List.not_mem_nil

theorem Justified.append (h : Justified x rs) (h' : Justified x rs') : Justified x (rs ++ rs') :=
  List.forall_mem_append.mpr ⟨h, h'⟩

theorem Justified.same (h : Justified x rs) (hs : SameBlocks x y) : Justified y rs := by
  intro q hq hty
  rw [hs.missing]
  exact h q hq hty

theorem Distinct.justified (h : Distinct x) (w : WriteResult) :
    Justified (ttpRepeatRetransmit w x).xfer (ttpRepeatRetransmit w x).records :=
  Justified.same (fun _ hq hty => h.restart hq hty) (ttpRepeatRetransmit_sameBlocks w x)

theorem requestRange_distinct (h : Distinct x) (hq : requestRange realloc x first last = some y)
    (hf : Fresh x (List.range' first (last - first))) : Distinct y :=
  h.queued (requestRange_queued hq) hf List.nodup_range'

theorem advanceHead_retransmit (x : Transfer) (b ty : Nat) :
    (advanceHead x b ty).retransmit = x.retransmit := by
  simp only [advanceHead, leaveRestart, expectNext]
  split <;> split <;> rfl

theorem terminate_distinct (h : Distinct x) (hw : o.atTerminate ≠ .fwriteFails)
    (hf : x.blocksLeft ≠ 0 → ∀ i, 1 ≤ i → i < x.blockCount → gotBlock x i = false →
      i ∉ x.retransmit.entries) :
    Justified (terminate param o x).xfer (terminate param o x).records ∧
      Distinct (terminate param o x).xfer := by
  simp only [terminate]
  split
  · exact ⟨justified_nil x, h⟩
  · rename_i hleft
    split
    · exact ⟨justified_nil x, h⟩
    · split
      · exact ⟨justified_nil x, h⟩
      · rename_i y hy
        have hfresh : Fresh x (List.range' (u32 (x.gaplessToBlock + 1))
            (x.blockCount - u32 (x.gaplessToBlock + 1))) := by
          intro i hi hne
          rw [List.mem_range'_1] at hi
          exact hf hleft i (Nat.one_le_iff_ne_zero.mpr hne) (by omega)
        have hdistinct := requestRange_distinct h hy hfresh
        exact ⟨hdistinct.justified _, hdistinct.repeated fun hfail => absurd hfail hw⟩

theorem control_distinct (hl : param.lossless = true) (h : Distinct x)
    (hf : onWire x b ty = false → QueuesFresh x b ty)
    (hw : ty = tsBlockTerminate → o.atTerminate ≠ .fwriteFails) :
    Justified (control param o x b ty).xfer (control param o x b ty).records ∧
      Distinct (control param o x b ty).xfer := by
  simp only [control, queueMissing, hl, if_true]
  split
  · exact ⟨justified_nil x, h⟩
  · rename_i hwire
    obtain ⟨hgap, hend⟩ := hf (eq_false_of_ne_true hwire)
    split
    · exact ⟨justified_nil x, h⟩
    · rename_i y hy
      have hq : Queued x y (List.range' x.nextBlock (b - x.nextBlock)) := by
        split at hy
        · exact requestRange_queued hy
        · rename_i hnext
          cases hy
          rw [Nat.sub_eq_zero_of_le (Nat.le_of_not_lt hnext)]
          exact .nil x
      have hsame := hq.frame.sameBlocks.trans (SameBlocks.kept.advanceHead y b ty)
      have hdistinct : Distinct (advanceHead y b ty) :=
        (h.queued hq hgap List.nodup_range').same (advanceHead_retransmit y b ty)
          (SameBlocks.kept.advanceHead y b ty)
      split
      · rename_i hty
        refine terminate_distinct hdistinct (hw hty) fun hleft i h₁ hi hmiss hin => ?_
        rw [hsame.blocksLeft] at hleft
        rw [hsame.blockCount] at hi
        rw [hsame.gotBlock] at hmiss
        obtain ⟨hnot, hout⟩ := hend hty hleft i h₁ hi hmiss
        -- an entry is an old one, or one of the gap
        obtain ⟨added, hadd, hsub, -⟩ := hq.entries
        rw [advanceHead_retransmit, hadd] at hin
        rcases List.mem_append.mp hin with hin | hin
        · exact hnot hin
        · have hrange := List.mem_of_mem_filter (hsub.subset hin)
          rw [List.mem_range'_1] at hrange
          exact hout (by omega)
      · exact ⟨justified_nil _, hdistinct⟩

theorem sendStats_distinct (param : Parameter) (o : Oracle) (h : Distinct x) :
    Justified (sendStats param o x).xfer (sendStats param o x).records ∧
      ((sendStats param o x).verdict ≠ .abort → Distinct (sendStats param o x).xfer) := by
  rcases sendStats_cases param o x with heq | ⟨hok, heq⟩ | heq
  · exact heq ▸ ⟨justified_nil x, fun _ => h⟩
  · rw [heq]
    have hstats := sendErrorRate_sameBlocks param o.countData o.atStats
      (ttpRepeatRetransmit o.atRepeat x).xfer
    have hrep := h.repeated (w := o.atRepeat) fun _ => hok
    refine ⟨((h.justified o.atRepeat).same hstats).append fun q hq hty => ?_, fun _ => ?_⟩
    · obtain ⟨rate, rfl⟩ := sendErrorRate_records hq
      cases hty
    · refine hrep.same ?_ hstats
      simp only [sendErrorRate]
      split <;> rfl
  · exact heq ▸ ⟨h.justified o.atRepeat, fun habort => absurd rfl habort⟩

theorem controlAndStats_distinct (hl : param.lossless = true) (h : Distinct x)
    (hf : onWire x b ty = false → QueuesFresh x b ty)
    (hw : ty = tsBlockTerminate → o.atTerminate ≠ .fwriteFails) :
    Justified (controlAndStats param o x b ty).xfer (controlAndStats param o x b ty).records ∧
      ((controlAndStats param o x b ty).verdict ≠ .abort →
        Distinct (controlAndStats param o x b ty).xfer) := by
  obtain ⟨hjust, hctl⟩ := control_distinct (o := o) hl h hf hw
  simp only [controlAndStats]
  split
  · obtain ⟨hstats, hdistinct⟩ := sendStats_distinct param o hctl
    exact ⟨(hjust.same (SameBlocks.kept.sendStats ..)).append hstats, hdistinct⟩
  · exact ⟨hjust, fun _ => hctl⟩

-- ---------------------------------------------------------------------------
-- Every run
-- ---------------------------------------------------------------------------

def HandlesFresh (x : Transfer) (d : Datagram) (o : Oracle) : Prop :=
  (onWire x (blockNumber d) (blockType d) = false → QueuesFresh x (blockNumber d) (blockType d)) ∧
    (blockType d = tsBlockTerminate → o.atTerminate ≠ .fwriteFails)

/-- The condition on a step of the client: where it handles a datagram, it
queues no block twice. -/
def NoneTwice (s : CommandGet) : Event → Prop
  | .look o =>
    ringFull s.ring.ring = false → relevant s.xfer (blockNumber s.localDatagram)
      (blockType s.localDatagram) →
      gotBlock s.xfer (blockNumber s.localDatagram) = true → HandlesFresh s.xfer s.localDatagram o
  | .control o => HandlesFresh (markReceived s.xfer (blockNumber s.localDatagram)) s.localDatagram o
  | _ => True

/-- What the step from `s` to `t` writes is justified, and leaves the table
without repetitions unless the transfer is given up. -/
def Restarts (s t : CommandGet) : Prop :=
  ∃ rs, t.sent = s.sent ++ rs ∧ Justified t.xfer rs ∧ (t.network ≠ .aborted → Distinct t.xfer)

theorem Restarts.silent {s t : CommandGet} (h : Distinct s.xfer) (hs : t.sent = s.sent)
    (hx : t.xfer = s.xfer) : Restarts s t := by
  refine ⟨[], ?_, justified_nil _, fun _ => hx ▸ h⟩
  rw [hs, List.append_nil]

theorem finish_restarts {s : CommandGet} {r : Result}
    (h : Justified r.xfer r.records ∧ (r.verdict ≠ .abort → Distinct r.xfer)) :
    Restarts s (s.finish r) := by
  refine ⟨r.records, rfl, h.1, fun hnet => h.2 fun habort => hnet ?_⟩
  simp [CommandGet.finish, habort, Verdict.network]

variable {cfg : Config} {s t : CommandGet} {e : Event}

theorem look_restarts (hl : cfg.param.lossless = true) (h : Distinct s.xfer)
    (hc : NoneTwice s (.look o)) : Restarts s (s.look cfg o) := by
  have hcount : Distinct (countReceived s.xfer (blockType s.localDatagram)) := h
  simp only [CommandGet.look]
  split
  · rename_i hrel
    split
    · rename_i hgot
      obtain ⟨hfresh, hw⟩ := hc hrel.1 hrel.2 hgot
      exact finish_restarts (controlAndStats_distinct hl hcount hfresh hw)
    · exact ⟨[], (List.append_nil _).symm, justified_nil _, fun _ => hcount⟩
  · exact finish_restarts (sendStats_distinct _ _ hcount)

theorem control_restarts (hl : cfg.param.lossless = true) (h : Distinct s.xfer)
    (hc : NoneTwice s (.control o)) : Restarts s (s.control cfg o) := by
  have hmark : Distinct (markReceived s.xfer (blockNumber s.localDatagram)) :=
    h.mono rfl fun _ hb => gotBlock_markReceived_of_got _ hb
  exact finish_restarts (controlAndStats_distinct hl hmark hc.1 hc.2)

theorem step_restarts (hl : cfg.param.lossless = true) (h : s.network ≠ .aborted → Distinct s.xfer)
    (hc : NoneTwice s e) (hs : s.step cfg e = some t) : Restarts s t := by
  cases step_cases hs with
  | recv hnet | reserve hnet | wake hnet | copy hnet | confirm hnet | confirmStop hnet | join hnet
  | count hnet | counted hnet =>
    exact .silent (h (by simp [hnet])) rfl rfl
  | peek hnet | pop hnet => exact .silent (h hnet) rfl rfl
  | accept _ hnet =>
    simp only [CommandGet.accept]
    split <;> exact .silent (h hnet) rfl rfl
  | look hnet => exact look_restarts hl (h (by simp [hnet])) hc
  | control hnet => exact control_restarts hl (h (by simp [hnet])) hc
  | requestStop hnet =>
    refine ⟨_, rfl, fun q hq hty => ?_, fun _ => h (by simp [hnet])⟩
    rw [List.mem_singleton.mp (WriteResult.mem_of_mem_taken hq)] at hty
    cases hty
  | @recvFails w hnet =>
    have hx := h (by simp [hnet])
    refine ⟨_, rfl, hx.justified w, fun hgo => hx.repeated fun _ => ?_⟩
    by_contra hfail
    simp [hfail] at hgo

theorem commandGet_distinct (hl : cfg.param.lossless = true)
    (h : (commandGet cfg).ReachableBy NoneTwice s) :
    s.network ≠ .aborted → Distinct s.xfer := by
  refine h.invariant (I := fun s => s.network ≠ .aborted → Distinct s.xfer) (fun s hs _ => ?_)
    fun s e t _ hi hc hs => ?_
  · obtain ⟨slots, rfl⟩ := hs
    exact List.nodup_nil
  · obtain ⟨-, -, -, hdistinct⟩ := step_restarts hl hi hc hs
    exact hdistinct

/-- As long as no block is queued twice, a restart is asked for only when that
many blocks are missing. -/
theorem restart_under_mass_loss (hl : cfg.param.lossless = true)
    (h : (commandGet cfg).ReachableBy NoneTwice s) (hc : NoneTwice s e)
    (hs : s.step cfg e = some t) :
    ∀ q ∈ t.sent.drop s.sent.length, q.requestType = requestRestart →
      maxRetransmissionBuffer ≤ (missing t.xfer).card := by
  obtain ⟨rs, hsent, hjust, -⟩ := step_restarts hl (commandGet_distinct hl h) hc hs
  rw [hsent, List.drop_left]
  exact hjust

-- ---------------------------------------------------------------------------
-- The first datagram is not the first block
-- ---------------------------------------------------------------------------

theorem ttpRequestRetransmit_kept (hroom : x.retransmit.indexMax < 32 * maxRetransmissionBuffer)
    (h : ttpRequestRetransmit realloc x b = some y) :
    y.dropped = x.dropped ∧ y.retransmit.indexMax ≤ x.retransmit.indexMax + 1 := by
  simp only [ttpRequestRetransmit, if_neg (Nat.not_le_of_lt hroom)] at h
  split at h
  · cases h
    exact ⟨rfl, Nat.le_succ _⟩
  · split at h
    · cases h
      exact ⟨rfl, Nat.le_refl _⟩
    · split at h
      · cases h
        exact ⟨rfl, Nat.le_refl _⟩
      · cases h

theorem foldlM_kept {bs : List Nat}
    (hroom : x.retransmit.indexMax + bs.length ≤ 32 * maxRetransmissionBuffer)
    (h : bs.foldlM (ttpRequestRetransmit realloc) x = some y) : y.dropped = x.dropped := by
  induction bs generalizing x with
  | nil =>
    cases h
    rfl
  | cons b bs ih =>
    simp only [List.foldlM_cons, bind, Option.bind_eq_some_iff] at h
    obtain ⟨z, hz, hy⟩ := h
    rw [List.length_cons] at hroom
    obtain ⟨hdropped, hmax⟩ := ttpRequestRetransmit_kept (by omega) hz
    exact (ih (by omega) hy).trans hdropped

theorem requestRange_missing (first last : Nat) (hd : x.dropped = false)
    (hmiss : ∀ i, first ≤ i → i < last → gotBlock x i = false)
    (hroom : x.retransmit.indexMax + (last - first) ≤ 32 * maxRetransmissionBuffer) :
    ∃ y, requestRange (fun _ => true) x first last = some y ∧ SameButTable x y ∧ y.dropped = false ∧
      y.retransmit.entries = x.retransmit.entries ++ List.range' first (last - first) := by
  obtain ⟨y, hy⟩ := Option.isSome_iff_exists.mp (requestRange_isSome (fun _ => rfl) x first last)
  have hq := requestRange_queued hy
  have hdropped : y.dropped = false := by
    rw [foldlM_kept (by rwa [List.length_range']) hy, hd]
  obtain ⟨added, hadd, -, hall⟩ := hq.entries
  refine ⟨y, hy, hq.frame, hdropped, ?_⟩
  rw [hadd, (hall hdropped).2, List.filter_eq_self.mpr]
  intro i hi
  rw [List.mem_range'_1] at hi
  simp [hmiss i hi.1 (by omega)]

structure First (n b : Nat) (x : Transfer) : Prop where
  blockCount : x.blockCount = n
  got : ∀ i, i ≤ n → gotBlock x i = decide (i = b)
  left : x.blocksLeft = n - 1
  gapless : x.gaplessToBlock = 0
  dropped : x.dropped = false

theorem First.same (h : First n b x) (hs : SameButTable x y) (hd : y.dropped = false) :
    First n b y where
  blockCount := hs.sameBlocks.blockCount.trans h.blockCount
  got i hi := (hs.gotBlock i).trans (h.got i hi)
  left := hs.sameBlocks.blocksLeft.trans h.left
  gapless := hs.sameProgress.gaplessToBlock.trans h.gapless
  dropped := hd

theorem First.miss (h : First n b x) (hi : i < b) (hb : b ≤ n) : gotBlock x i = false := by
  rw [h.got i (by omega), decide_eq_false_iff_not]
  omega

theorem First.card (h : First n n x) : (missing x).card ≤ n - 1 := by
  have hsub : missing x ⊆ Finset.Icc 1 (n - 1) := by
    intro i hi
    obtain ⟨h₁, hn, hmiss⟩ := mem_missing.mp hi
    rw [h.blockCount] at hn
    rw [h.got i hn, decide_eq_false_iff_not] at hmiss
    rw [Finset.mem_Icc]
    omega
  simpa using Finset.card_le_card hsub

def afterFirst (param : Parameter) (size n b ty : Nat) : Transfer :=
  markReceived (countReceived (.create param size n) ty) b

theorem afterFirst_first (param : Parameter) (size : Nat) (hb : b ≤ n) (h₁ : 1 ≤ b) (ty : Nat) :
    First n b (afterFirst param size n b ty) where
  blockCount := rfl
  got i hi := by
    have hmark := gotBlock_markReceived (x := countReceived (.create param size n) ty) (t := b)
      (create_gapless param size n).bitmap hb i
    have hnone : gotBlock (Transfer.create param size n) i = false := gotBlock_create hi
    have hcount : gotBlock (countReceived (Transfer.create param size n) ty) i = false := hnone
    rw [afterFirst, hmark, hcount, Bool.or_false]
    exact decide_eq_decide.mpr eq_comm
  left := if_pos (Nat.lt_of_lt_of_le h₁ hb)
  gapless := rfl
  dropped := rfl

theorem afterFirst_gap (param : Parameter) (size : Nat) (hb : b ≤ n) (h₁ : 1 < b)
    (hroom : b - 1 ≤ 32 * maxRetransmissionBuffer) (ty : Nat) :
    ∃ y, requestRange (fun _ => true) (afterFirst param size n b ty) 1 b = some y ∧ First n b y ∧
      SameButTable (afterFirst param size n b ty) y ∧
      y.retransmit.entries = List.range' 1 (b - 1) := by
  have hfirst := afterFirst_first param size hb (Nat.le_of_lt h₁) ty
  have hroom : (afterFirst param size n b ty).retransmit.indexMax + (b - 1) ≤
      32 * maxRetransmissionBuffer := by
    rw [show (afterFirst param size n b ty).retransmit.indexMax = 0 from rfl, Nat.zero_add]
    exact hroom
  obtain ⟨y, hy, hsame, hd, hentries⟩ :=
    requestRange_missing (x := afterFirst param size n b ty) 1 b rfl
    (fun i _ hi => hfirst.miss hi hb) hroom
  exact ⟨y, hy, hfirst.same hsame hd, hsame, hentries⟩

theorem First.advanceGapless (h : First n b x) (h₁ : 1 < b) (hb : b ≤ n) :
    advanceGapless x = x := by
  have hloop : ∀ fuel, advanceLoop x fuel 0 = 0 := by
    intro fuel
    cases fuel with
    | zero => rfl
    | succ fuel =>
      have hone : gotBlock x (u32 (0 + 1)) = false := h.miss (i := 1) h₁ hb
      simp [advanceLoop, hone]
  have hgapless := h.gapless
  simp only [Client.advanceGapless, hgapless, hloop]
  rw [← hgapless]

theorem First.restart (h : First n b x) (hn : 1 ≤ n)
    (hmany : maxRetransmissionBuffer ≤ (wanted x x.retransmit.entries).length) :
    ∃ y, ttpRepeatRetransmit .ok x = ⟨y, [restartRequest 1], true⟩ := by
  rcases ttpRepeatRetransmit_cases x with ⟨r, st, hfew, -⟩ | ⟨r, st, l, -, -, heq⟩
  · exact absurd hfew (Nat.not_lt_of_le hmany)
  · have hblock : min x.blockCount (u32 (x.gaplessToBlock + 1)) = 1 := by
      rw [h.blockCount, h.gapless, show u32 (0 + 1) = 1 from rfl]
      omega
    rw [hblock] at heq
    exact ⟨_, heq⟩

structure Quiet (o : Oracle) : Prop where
  realloc : o.realloc = fun _ => true
  timeUp : o.timeUp = false
  atTerminate : o.atTerminate = .ok

theorem Quiet.sendStats (h : Quiet o) (param : Parameter) (x : Transfer) :
    sendStats param o x = ⟨x, [], .next⟩ := by
  simp [Client.sendStats, h.timeUp]

theorem control_first (param : Parameter) (hl : param.lossless = true) (ho : Quiet o) (size : Nat)
    (hb : b ≤ n) (h₁ : 1 < b) (hroom : b - 1 ≤ 32 * maxRetransmissionBuffer) (ty : Nat) :
    ∃ y, First n b y ∧ y.retransmit.entries = List.range' 1 (b - 1) ∧
      control param o (afterFirst param size n b ty) b ty =
        if ty = tsBlockTerminate then terminate param o y else ⟨y, [], .next⟩ := by
  obtain ⟨y, hy, hfirst, hsame, hentries⟩ := afterFirst_gap param size hb h₁ hroom ty
  have hnext : (afterFirst param size n b ty).nextBlock = 1 := rfl
  have hwire : onWire (afterFirst param size n b ty) b ty = false := by
    simp [onWire, afterFirst, markReceived, countReceived, Transfer.create]
  have hpending : y.restartPending = false := by
    rw [SameButTable] at hsame
    rw [hsame]
    rfl
  have hhead : advanceHead y b ty = expectNext y b ty := by
    rw [advanceHead, hfirst.advanceGapless h₁ hb]
    simp only [leaveRestart, expectNext]
    split <;> simp [hpending]
  refine ⟨expectNext y b ty, ?_, ?_, ?_⟩
  · simp only [expectNext]
    split
    · exact ⟨hfirst.blockCount, hfirst.got, hfirst.left, hfirst.gapless, hfirst.dropped⟩
    · exact hfirst
  · simp only [expectNext]
    split <;> exact hentries
  · simp only [control, hwire, hnext, queueMissing, hl, ho.realloc, gt_iff_lt, h₁,
      if_true, hy, hhead, Bool.false_eq_true, if_false]

theorem First.wanted_eq (h : First n b x) (hb : b ≤ n)
    (hx : ∀ i ∈ x.retransmit.entries, 1 ≤ i ∧ i < b) :
    wanted x x.retransmit.entries = x.retransmit.entries := by
  refine List.filter_eq_self.mpr fun i hi => ?_
  obtain ⟨h₁, hib⟩ := hx i hi
  simp [h.miss hib hb, Nat.one_le_iff_ne_zero.mp h₁]

/-- The end of the file comes first: every other block is queued twice. -/
theorem control_first_terminate (param : Parameter) (hl : param.lossless = true)
    (ho : Quiet o) (size : Nat) (hn : 1025 ≤ n)
    (hroom : 2 * (n - 1) ≤ 32 * maxRetransmissionBuffer) :
    (controlAndStats param o (afterFirst param size n n tsBlockTerminate) n
      tsBlockTerminate).records = [restartRequest 1] := by
  obtain ⟨y, hfirst, hentries, hctl⟩ := control_first param hl ho size (Nat.le_refl n) (by omega)
    (by omega) tsBlockTerminate
  have hlen : y.retransmit.indexMax = n - 1 := by
    rw [← Retransmit.length_entries, hentries, List.length_range']
  obtain ⟨z, hz, hsame, hd, hentries'⟩ := requestRange_missing 1 n
    hfirst.dropped (fun i _ hi => hfirst.miss hi (Nat.le_refl n)) (by omega)
  have hlast := hfirst.same hsame hd
  have hwanted : wanted z z.retransmit.entries = z.retransmit.entries := by
    refine hlast.wanted_eq (Nat.le_refl n) fun i hi => ?_
    rw [hentries', hentries, List.mem_append, or_self, List.mem_range'_1] at hi
    omega
  have hmany : maxRetransmissionBuffer ≤ (wanted z z.retransmit.entries).length := by
    rw [hwanted, hentries', hentries, List.length_append, List.length_range',
      maxRetransmissionBuffer]
    omega
  obtain ⟨u, hrepeat⟩ := hlast.restart (by omega) hmany
  have hterm : terminate param o y = ⟨u, [restartRequest 1], .next⟩ := by
    have hleft : ¬(y.blocksLeft = 0) := by
      rw [hfirst.left]
      omega
    have hone : u32 (y.gaplessToBlock + 1) = 1 := by
      rw [hfirst.gapless]
      rfl
    simp only [terminate, if_neg hleft, hl, not_true_eq_false, false_and, if_false, hone,
      hfirst.blockCount, ho.realloc, hz, ho.atTerminate, hrepeat]
  simp only [controlAndStats, hctl, hterm, ho.sendStats, if_true, List.append_nil]

theorem first_path (cfg : Config) (ty : Nat) {P : CommandGet → Event → Prop}
    (hb : b ≤ cfg.blockCount) (hn : cfg.blockCount < 2 ^ 32) (hty : ty < 2 ^ 16)
    (hrecv : ∀ s, P s (.recv (sampleDatagram cfg.param.blockSize b ty)))
    (hlook : ∀ s, gotBlock s.xfer (blockNumber s.localDatagram) = false → P s (.look quietOracle))
    (hinsert : ∀ s, P s .reserve ∧ P s .copy ∧ P s .confirm) :
    ∃ s, (commandGet cfg).ReachableBy P s ∧ s.network = .controlling ∧ s.sent = [] ∧
      s.localDatagram = sampleDatagram cfg.param.blockSize b ty ∧
      markReceived s.xfer b = afterFirst cfg.param cfg.fileSize cfg.blockCount b ty := by
  have hnumber : blockNumber (sampleDatagram cfg.param.blockSize b ty) = b :=
    blockNumber_header (by omega)
  have htype : blockType (sampleDatagram cfg.param.blockSize b ty) = ty := blockType_header hty
  have hlen : (sampleDatagram cfg.param.blockSize b ty).length = 6 + cfg.param.blockSize :=
    length_sampleDatagram ..
  have hlocal : (CommandGet.create cfg fun _ => []).localDatagram.length =
      (sampleDatagram cfg.param.blockSize b ty).length := by simp [CommandGet.create]
  have hnew : gotBlock (CommandGet.create cfg fun _ => []).xfer
      (blockNumber (sampleDatagram cfg.param.blockSize b ty)) = false := by
    rw [hnumber]
    exact gotBlock_create hb
  have hinit : (commandGet cfg).ReachableBy P (.create cfg fun _ => []) := .init ⟨_, rfl⟩
  generalize hs : CommandGet.create cfg (fun _ => []) = s at *
  generalize sampleDatagram cfg.param.blockSize b ty = d at *
  obtain ⟨s₂, s₃, s₄, r, h₁, h₂, h₃, h₄, h₅, -⟩ := receive_steps (s := s) (hs ▸ rfl) hlen hlocal
    (hs ▸ create_inv _) (hs ▸ rfl) (hs ▸ show (0 : Int) < maxBlocksQueued by decide) hnew
  have hlooking := (hinit.step (hrecv s) h₁).step (hlook _ hnew) h₂
  have hconfirmed := ((hlooking.step (hinsert s₂).1 h₃).step (hinsert s₃).2.1 h₄).step
    (hinsert s₄).2.2 h₅
  refine ⟨_, hconfirmed, rfl, hs ▸ rfl, rfl, ?_⟩
  rw [← hs, htype]
  rfl

theorem control_quiet (cfg : Config) {s : CommandGet}
    (hlocal : s.localDatagram = sampleDatagram blockSize b ty) (hb : b < 2 ^ 32) (hty : ty < 2 ^ 16)
    (hmark : markReceived s.xfer b = x) :
    ∃ o, Quiet o ∧ s.control cfg quietOracle = s.finish (controlAndStats cfg.param o x b ty) := by
  have hnumber : blockNumber s.localDatagram = b := hlocal ▸ blockNumber_header hb
  have htype : blockType s.localDatagram = ty := hlocal ▸ blockType_header hty
  refine ⟨{ quietOracle with countData := s.ring.ring.countData }, ⟨rfl, rfl, rfl⟩, ?_⟩
  simp only [CommandGet.control, hnumber, htype, hmark]

theorem burst_lost (cfg : Config) (hl : cfg.param.lossless = true) (hb : b ≤ cfg.blockCount)
    (hn : cfg.blockCount < 2 ^ 32) (hmany : maxRetransmissionBuffer < b)
    (hroom : b - 1 ≤ 32 * maxRetransmissionBuffer) :
    ∃ s t, (commandGet cfg).ReachableBy NoneTwice s ∧ s.step cfg (.recvFails .ok) = some t ∧
      t.sent.drop s.sent.length = [restartRequest 1] := by
  rw [maxRetransmissionBuffer] at hmany
  obtain ⟨s, hs, hnet, hsent, hlocal, hmark⟩ :=
    first_path cfg tsBlockOriginal (P := NoneTwice) hb hn
    (by decide) (fun _ => trivial)
    (fun s hnew _ _ hgot => absurd (hnew.symm.trans hgot) Bool.noConfusion)
    fun _ => ⟨trivial, trivial, trivial⟩
  obtain ⟨o, ho, hcontrol⟩ := control_quiet cfg hlocal (by omega) (by decide) hmark
  obtain ⟨y, hfirst, hentries, hctl⟩ :=
    control_first cfg.param hl ho cfg.fileSize hb (by omega) hroom
    tsBlockOriginal
  have hne : tsBlockOriginal ≠ tsBlockTerminate := by decide
  simp only [controlAndStats, hctl, if_neg hne, ho.sendStats, if_true, List.append_nil] at hcontrol
  have hfresh : NoneTwice s (.control quietOracle) := by
    have htype : blockType s.localDatagram = tsBlockOriginal :=
      hlocal ▸ blockType_header (by decide)
    have hnumber : blockNumber s.localDatagram = b := hlocal ▸ blockNumber_header (by omega)
    simp only [NoneTwice, HandlesFresh, htype, hnumber, hmark, QueuesFresh]
    exact ⟨fun _ => ⟨fun _ _ _ _ => List.not_mem_nil, fun h => absurd h hne⟩, fun h => absurd h hne⟩
  have hwanted : wanted y y.retransmit.entries = y.retransmit.entries := by
    refine hfirst.wanted_eq hb fun i hi => ?_
    rw [hentries, List.mem_range'_1] at hi
    omega
  obtain ⟨u, hrepeat⟩ := hfirst.restart (by omega) (by
    rw [hwanted, hentries, List.length_range', maxRetransmissionBuffer]
    omega)
  have hstep : (s.finish ⟨y, [], .next⟩).step cfg (.recvFails .ok) =
      some { s.finish ⟨y, [], .next⟩ with
        xfer := u, sent := s.sent ++ [] ++ [restartRequest 1], network := .looking } := by
    simp [CommandGet.step, CommandGet.finish, Verdict.network, hrepeat]
  refine ⟨s.control cfg quietOracle, _, hs.step hfresh (if_pos hnet), hcontrol ▸ hstep, ?_⟩
  rw [hcontrol]
  simp [CommandGet.finish]

/-- Block 2050 comes first. When `recvfrom` fails next, a restart is asked for:
that many blocks are missing. -/
theorem restart_under_mass_loss_burst_lost :
    ∃ t : CommandGet, restartRequest 1 ∈ t.sent ∧
    maxRetransmissionBuffer ≤ (missing t.xfer).card := by
  let cfg : Config := ⟨defaultParameter 1024, 3000 * 1024, 3000⟩
  obtain ⟨s, t, hs, hstep, hsent⟩ := burst_lost cfg (b := 2050) rfl (by decide) (by decide)
    (by decide) (by decide)
  have hrestart : restartRequest 1 ∈ t.sent.drop s.sent.length := by
    rw [hsent]
    exact List.mem_singleton_self _
  exact ⟨t, List.mem_of_mem_drop hrestart,
    restart_under_mass_loss (show cfg.param.lossless = true from rfl)
      (e := .recvFails .ok) hs trivial hstep _ hrestart rfl⟩

def Numbered (cfg : Config) (_ : CommandGet) (e : Event) : Prop :=
  e.Fed fun d => d.length = 6 + cfg.param.blockSize ∧ 1 ≤ blockNumber d ∧
    blockNumber d ≤ cfg.blockCount

theorem last_first (cfg : Config) (hl : cfg.param.lossless = true) (hn : 1025 ≤ cfg.blockCount)
    (hroom : 2 * (cfg.blockCount - 1) ≤ 32 * maxRetransmissionBuffer) :
    ∃ s t, (commandGet cfg).ReachableBy (Numbered cfg) s ∧
    s.step cfg (.control quietOracle) = some t ∧
      t.sent.drop s.sent.length = [restartRequest 1] ∧
      (missing t.xfer).card ≤ cfg.blockCount - 1 := by
  have hlt : cfg.blockCount < 2 ^ 32 := by
    rw [maxRetransmissionBuffer] at hroom
    omega
  have hnumber : blockNumber (sampleDatagram cfg.param.blockSize cfg.blockCount tsBlockTerminate) =
      cfg.blockCount := blockNumber_header hlt
  obtain ⟨s, hs, hnet, hsent, hlocal, hmark⟩ := first_path cfg tsBlockTerminate (P := Numbered cfg)
    (b := cfg.blockCount) (Nat.le_refl _) hlt (by decide)
    (fun _ => ⟨length_sampleDatagram .., by omega, by omega⟩) (fun _ _ => trivial)
    fun _ => ⟨trivial, trivial, trivial⟩
  obtain ⟨o, ho, hcontrol⟩ := control_quiet cfg hlocal hlt (by decide) hmark
  have hrecords := control_first_terminate cfg.param hl ho cfg.fileSize hn hroom
  have hfirst := afterFirst_first cfg.param cfg.fileSize (Nat.le_refl cfg.blockCount) (by omega)
    tsBlockTerminate
  have hsame := SameBlocks.kept.controlAndStats cfg.param o
    (afterFirst cfg.param cfg.fileSize cfg.blockCount cfg.blockCount tsBlockTerminate)
      cfg.blockCount
    tsBlockTerminate
  refine ⟨s, s.control cfg quietOracle, hs, if_pos hnet, ?_, ?_⟩
  · rw [hcontrol, CommandGet.finish, hrecords, hsent]
    rfl
  · rw [hcontrol, CommandGet.finish, hsame.missing]
    exact hfirst.card

/-- With 1025 blocks that restart is asked for with 1024 blocks missing. -/
theorem restart_without_mass_loss :
    ∃ s t : CommandGet,
      (commandGet ⟨defaultParameter 1024, 1025 * 1024, 1025⟩).ReachableBy
        (Numbered ⟨defaultParameter 1024, 1025 * 1024, 1025⟩) s ∧
      s.step ⟨defaultParameter 1024, 1025 * 1024, 1025⟩ (.control quietOracle) = some t ∧
      t.sent.drop s.sent.length = [restartRequest 1] ∧
      (missing t.xfer).card < maxRetransmissionBuffer := by
  obtain ⟨s, t, hs, ht, hsent, hcard⟩ := last_first ⟨defaultParameter 1024, 1025 * 1024, 1025⟩ rfl
    (by decide) (by decide)
  exact ⟨s, t, hs, ht, hsent, Nat.lt_of_le_of_lt hcard (by decide)⟩

end Tsunami.Client
