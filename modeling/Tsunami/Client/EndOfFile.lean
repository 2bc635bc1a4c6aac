import Tsunami.Client.Loop
import Tsunami.Client.Restarts
import Tsunami.Client.Settling

/-!
# One datagram for a client at rest

A new block gets into the ring. The terminate block, once the last block is
there, makes the client leave or ask for what is missing: with room in the
table it asks for something, and a restart takes a table full of blocks still
missing.
-/

namespace Tsunami.Client

open Bytes Transition

variable {cfg : Config} {l : Layout} {s t : CommandGet} {e : Event} {Q : Datagram → Prop}

-- ---------------------------------------------------------------------------
-- What is written in the loop
-- ---------------------------------------------------------------------------

theorem ttpRepeatRetransmit_unstopped (w : WriteResult) (x : Transfer) :
    Unstopped (ttpRepeatRetransmit w x).records := by
  simp only [ttpRepeatRetransmit]
  split
  · split
    · exact unstopped_nil
    · intro r hr
      rw [List.mem_singleton.mp hr]
      exact show requestRestart ≠ requestStop by decide
  · intro r hr
    obtain ⟨b, -, rfl⟩ := List.mem_map.mp (WriteResult.mem_of_mem_taken hr)
    exact show requestRetransmit ≠ requestStop by decide

theorem sendStats_unstopped (param : Parameter) (o : Oracle) (x : Transfer) :
    Unstopped (sendStats param o x).records := by
  have hrep := ttpRepeatRetransmit_unstopped o.atRepeat x
  rcases sendStats_cases param o x with heq | ⟨-, heq⟩ | heq
  · exact heq ▸ unstopped_nil
  · refine heq ▸ hrep.append fun r hr => ?_
    obtain ⟨rate, rfl⟩ := sendErrorRate_records hr
    exact show requestErrorRate ≠ requestStop by decide
  · exact heq ▸ hrep

theorem control_unstopped (param : Parameter) (o : Oracle) (x : Transfer) (b ty : Nat) :
    Unstopped (control param o x b ty).records := by
  have hterm : ∀ y, Unstopped (terminate param o y).records := by
    intro y
    simp only [terminate]
    split <;> [exact unstopped_nil; split] <;> [exact unstopped_nil; split]
    · exact unstopped_nil
    · exact ttpRepeatRetransmit_unstopped _ _
  simp only [control]
  split <;> [exact unstopped_nil; split] <;> [exact unstopped_nil; split]
  · exact hterm _
  · exact unstopped_nil

theorem controlAndStats_unstopped (param : Parameter) (o : Oracle) (x : Transfer) (b ty : Nat) :
    Unstopped (controlAndStats param o x b ty).records := by
  simp only [controlAndStats]
  split
  · exact (control_unstopped _ _ _ _ _).append (sendStats_unstopped _ _ _)
  · exact control_unstopped _ _ _ _ _

def BeforeStop (s : CommandGet) : Prop :=
  s.network.inLoop = true ∨ s.network = .stopping → Unstopped s.sent

theorem step_beforeStop (h : BeforeStop s) (hs : s.step cfg e = some t) : BeforeStop t := by
  have hloop : ∀ n, s.network = n → n.inLoop = true → Unstopped s.sent := fun n hn hin =>
    h (.inl (hn ▸ hin))
  cases step_cases hs with
  | recv hnet => exact fun _ => hloop _ hnet rfl
  | recvFails hnet =>
    exact fun _ => (hloop _ hnet rfl).append (ttpRepeatRetransmit_unstopped _ _)
  | look hnet =>
    intro _
    have hsent := hloop _ hnet rfl
    simp only [CommandGet.look]
    split
    · split
      · exact hsent.append (controlAndStats_unstopped _ _ _ _ _)
      · exact hsent
    · exact hsent.append (sendStats_unstopped _ _ _)
  | control hnet => exact fun _ => (hloop _ hnet rfl).append (controlAndStats_unstopped _ _ _ _ _)
  | @reserve i r hnet hr | @wake i r hnet hr =>
    intro hin
    cases i with
    | received => exact hloop _ hnet rfl
    | stop =>
      simp only [CommandGet.reserved] at hin
      split at hin <;> simp [Network.inLoop] at hin
  | @copy i _ _ hnet hp hr =>
    intro hin
    cases i with
    | received => exact hloop _ hnet rfl
    | stop => simp [Network.inLoop] at hin
  | confirm hnet => exact fun _ => hloop _ hnet rfl
  | requestStop hnet =>
    intro hin
    simp only at hin
    split at hin <;> simp [Network.inLoop] at hin
  | confirmStop hnet | join hnet | count hnet | counted hnet =>
    intro hin
    simp [Network.inLoop] at hin
  | accept =>
    simp only [CommandGet.accept]
    split <;> exact h
  | peek | pop => exact h

theorem commandGet_beforeStop (h : (commandGet cfg).Reachable s) : BeforeStop s :=
  h.invariant (by rintro s ⟨slots, rfl⟩; exact fun _ => unstopped_nil)
    fun _ _ _ hi hs => step_beforeStop hi hs

-- ---------------------------------------------------------------------------
-- What a range of requests puts into the table
-- ---------------------------------------------------------------------------

theorem ttpRequestRetransmit_stores (hr : ∀ n, realloc n = true)
    (hroom : x.retransmit.entries.length < 32 * maxRetransmissionBuffer)
    (hmiss : gotBlock x b = false) (h : ttpRequestRetransmit realloc x b = some y) :
    b ∈ y.retransmit.entries := by
  rw [Retransmit.length_entries] at hroom
  simp only [ttpRequestRetransmit, hmiss, Bool.false_eq_true, if_false, hr, if_true] at h
  split at h
  · rename_i hlt
    cases h
    rw [Retransmit.entries_store]
    exact List.mem_append_right _ (List.mem_singleton_self b)
  · rw [if_neg (by omega)] at h
    cases h
    rw [Retransmit.entries_store]
    exact List.mem_append_right _ (List.mem_singleton_self b)

theorem requestRange_stores (hr : ∀ n, realloc n = true)
    (hroom : x.retransmit.entries.length < 32 * maxRetransmissionBuffer)
    (hmiss : gotBlock x first = false) (hlt : first < last)
    (h : requestRange realloc x first last = some y) : first ∈ y.retransmit.entries := by
  obtain ⟨k, hk⟩ : ∃ k, last - first = k + 1 := ⟨last - first - 1, by omega⟩
  rw [requestRange, hk, List.range'_succ, List.foldlM_cons] at h
  obtain ⟨z, hz, h⟩ := Option.bind_eq_some_iff.mp h
  exact (foldlM_queued h).keeps (ttpRequestRetransmit_stores hr hroom hmiss hz)

theorem Queued.length_le (h : Queued x y bs) (hnodup : bs.Nodup)
    (hbs : ∀ b ∈ bs, b ≤ x.blockCount) :
    y.retransmit.entries.length ≤ x.retransmit.entries.length + ((missing x).card + 1) := by
  obtain ⟨added, hadd, hsub, -⟩ := h.entries
  have hset : (bs.filter fun b => !gotBlock x b).toFinset ⊆ insert 0 (missing x) := by
    intro b hb
    obtain ⟨hmem, hmiss⟩ := List.mem_filter.mp (List.mem_toFinset.mp hb)
    rw [Finset.mem_insert, mem_missing]
    rcases Nat.eq_zero_or_pos b with h0 | hpos
    · exact .inl h0
    · exact .inr ⟨hpos, hbs b hmem, by simpa using hmiss⟩
  have hcard := Finset.card_le_card hset
  rw [List.toFinset_card_of_nodup (hnodup.filter _)] at hcard
  calc y.retransmit.entries.length
      = x.retransmit.entries.length + added.length := by rw [hadd, List.length_append]
    _ ≤ x.retransmit.entries.length + (insert 0 (missing x)).card :=
      Nat.add_le_add_left (hsub.length_le.trans hcard) _
    _ ≤ x.retransmit.entries.length + ((missing x).card + 1) :=
      Nat.add_le_add_left (Finset.card_insert_le ..) _

theorem requestRange_length_le (hlast : last ≤ x.blockCount)
    (h : requestRange realloc x first last = some y) :
    y.retransmit.entries.length ≤ x.retransmit.entries.length + ((missing x).card + 1) := by
  refine (requestRange_queued h).length_le List.nodup_range' fun b hb => ?_
  have hrange := List.mem_range'_1.mp hb
  omega

theorem requestRange_wants (hmore : x.retransmit.entries.length + 2 ≤ y.retransmit.entries.length)
    (h : requestRange realloc x first last = some y) :
    ∃ b ∈ y.retransmit.entries, b ≠ 0 ∧ gotBlock y b = false := by
  have hq := requestRange_queued h
  obtain ⟨added, hadd, hsub, -⟩ := hq.entries
  rw [hadd, List.length_append] at hmore
  have hnodup : added.Nodup := hsub.nodup (List.Nodup.filter _ List.nodup_range')
  obtain ⟨b, hb, hne⟩ : ∃ b ∈ added, b ≠ 0 := by
    by_contra hnone
    have hrep := List.eq_replicate_of_mem fun b hb => by_contra fun hne => hnone ⟨b, hb, hne⟩
    rw [hrep, List.nodup_replicate] at hnodup
    omega
  have hmiss := (List.mem_filter.mp (hsub.subset hb)).2
  refine ⟨b, by rw [hadd]; exact List.mem_append_right _ hb, hne, ?_⟩
  rw [hq.frame.gotBlock]
  simpa using hmiss

-- ---------------------------------------------------------------------------
-- The terminate block, with the last block there
-- ---------------------------------------------------------------------------

/-- The table before the requests are repeated: it has room for one that is
wanted, and at most two entries for each missing block were added. -/
structure Refilled (n : Nat) (x z : Transfer) : Prop where
  same : SameBlocks x z
  gapless : Gapless n z
  first : ¬(gotBlock z (u32 (z.gaplessToBlock + 1)) ∧ z.gaplessToBlock < z.blockCount)
  wants : x.retransmit.entries.length < maxRetransmissionBuffer →
    ∃ b, b ∈ wanted z z.retransmit.entries
  bound : z.retransmit.entries.length ≤
    x.retransmit.entries.length + 2 * ((missing x).card + 1)

theorem advanceHead_stops (x : Transfer) (b ty : Nat) :
    ¬(gotBlock (advanceHead x b ty) (u32 ((advanceHead x b ty).gaplessToBlock + 1)) ∧
      (advanceHead x b ty).gaplessToBlock < (advanceHead x b ty).blockCount) := by
  have hhead := SameBlocks.kept.advanceHead x b ty
  have hgapless : (advanceHead x b ty).gaplessToBlock =
      advanceLoop x (x.blockCount - x.gaplessToBlock) x.gaplessToBlock := by
    simp only [advanceHead, leaveRestart, expectNext]
    split <;> split <;> rfl
  rw [hhead.gotBlock, hhead.blockCount, hgapless]
  exact advanceLoop_stops x x.gaplessToBlock

theorem Gapless.first_missing (h : Gapless n x) (hn : n < 2 ^ 32)
    (hmax : ¬(gotBlock x (u32 (x.gaplessToBlock + 1)) ∧ x.gaplessToBlock < x.blockCount))
    (hb : b ∈ missing x) :
    IsLeast {b | b ∈ missing x} (x.gaplessToBlock + 1) := by
  have hleast := isLeast_missing h hn hmax hb
  have hlt : x.gaplessToBlock < x.blockCount := by
    obtain ⟨h₁, hle, hmiss⟩ := mem_missing.mp hb
    by_contra hge
    rw [h.got b h₁ (by omega)] at hmiss
    cases hmiss
  have hcount := h.blockCount
  rwa [u32_of_lt (by omega), Nat.min_eq_right hlt] at hleast

theorem refilled (hr : ∀ n, realloc n = true) (h : Gapless n x) (hn : n < 2 ^ 32)
    (hlast : gotBlock x n = true) (hmissing : b ∈ missing x)
    (hy : (if n > x.nextBlock then requestRange realloc x x.nextBlock n else some x) = some y)
    (hz : requestRange realloc (advanceHead y n ty)
      (u32 ((advanceHead y n ty).gaplessToBlock + 1)) (advanceHead y n ty).blockCount = some z) :
    Refilled n x z := by
  have hxy : SameProgress x y := by
    split at hy
    · exact SameProgress.kept.requestRange hy
    · cases hy
      exact .refl x
  have hyw := SameBlocks.kept.advanceHead y n ty
  have hw : Gapless n (advanceHead y n ty) := advanceHead_gapless (h.same hxy) hn n ty
  have hstops := advanceHead_stops y n ty
  have hsameTable := advanceHead_retransmit y n ty
  generalize advanceHead y n ty = w at hyw hw hstops hsameTable hz
  have hwz := SameProgress.kept.requestRange hz
  have hsame := (hxy.blocks.trans hyw).trans hwz.blocks
  have hxw := (hxy.blocks.trans hyw).missing
  have hfirst := hw.first_missing hn hstops (b := b) (by rw [hxw]; exact hmissing)
  obtain ⟨-, hle, hmiss⟩ := mem_missing.mp hfirst.1
  have hcount := hw.blockCount
  have hsucc : u32 (w.gaplessToBlock + 1) = w.gaplessToBlock + 1 := u32_of_lt (by omega)
  rw [hsucc] at hz
  refine ⟨hsame, hw.same hwz, ?_, fun hfew => ?_, ?_⟩
  · rw [hwz.blocks.gotBlock, hwz.gaplessToBlock, hwz.blocks.blockCount]
    exact hstops
  · by_cases hroom : w.retransmit.entries.length < 32 * maxRetransmissionBuffer
    · have hne : w.gaplessToBlock + 1 ≠ n := by
        intro heq
        rw [heq, (hxy.blocks.trans hyw).gotBlock, hlast] at hmiss
        cases hmiss
      have hstored := requestRange_stores hr hroom hmiss (by omega) hz
      refine ⟨_, mem_wanted.mpr ⟨hstored, Nat.succ_ne_zero _, ?_⟩⟩
      rw [hwz.blocks.gotBlock]
      exact hmiss
    · -- the gap before the terminate block has filled the table
      rw [hsameTable, maxRetransmissionBuffer] at hroom
      rw [maxRetransmissionBuffer] at hfew
      split at hy
      · obtain ⟨c, hc, hne, hmiss⟩ := requestRange_wants (by omega) hy
        refine ⟨c, mem_wanted.mpr ⟨(requestRange_queued hz).keeps (hsameTable ▸ hc), hne, ?_⟩⟩
        rw [hwz.blocks.gotBlock, hyw.gotBlock]
        exact hmiss
      · cases hy
        omega
  · have hsecond := requestRange_length_le (Nat.le_refl _) hz
    rw [hsameTable, hxw] at hsecond
    have hlen : y.retransmit.entries.length ≤
        x.retransmit.entries.length + ((missing x).card + 1) := by
      split at hy
      · exact requestRange_length_le (Nat.le_of_eq h.blockCount.symm) hy
      · cases hy
        omega
    omega

/-- What the client asks for at the terminate block, with something missing:
single blocks, or a restart from the first of them. -/
inductive AsksAgain (x y : Transfer) : List Retransmission → Prop
  | requests : y.retransmit.entries = bs → bs.length < maxRetransmissionBuffer →
      (∀ b ∈ bs, b ∈ missing x) →
      (x.retransmit.entries.length < maxRetransmissionBuffer → bs ≠ []) →
      AsksAgain x y (bs.map retransmitRequest)
  | restart : y.retransmit.entries = [] → IsLeast {b | b ∈ missing x} b →
      maxRetransmissionBuffer ≤ x.retransmit.entries.length + 2 * ((missing x).card + 1) →
      AsksAgain x y [restartRequest b]

theorem AsksAgain.counted (h : AsksAgain (countReceived x ty) y rs) : AsksAgain x y rs := by
  have hmissing := (countReceived_sameBlocks x ty).missing
  cases h with
  | requests hr hfew hall hsome => exact .requests hr hfew (by rwa [← hmissing]) hsome
  | restart hr hleast hmany =>
    rw [hmissing] at hleast hmany
    exact .restart hr hleast hmany

theorem Refilled.asksAgain (h : Refilled n x z) (hn : n < 2 ^ 32) :
    AsksAgain x (ttpRepeatRetransmit .ok z).xfer (ttpRepeatRetransmit .ok z).records := by
  have hmissing := h.same.missing
  have hwanted : ∀ b ∈ wanted z z.retransmit.entries, b ∈ missing x := by
    intro b hb
    obtain ⟨-, hne, hmiss⟩ := mem_wanted.mp hb
    rw [← hmissing, mem_missing]
    refine ⟨Nat.pos_of_ne_zero hne, ?_, hmiss⟩
    by_contra hgt
    rw [gotBlock_of_gt (by omega)] at hmiss
    cases hmiss
  rcases ttpRepeatRetransmit_cases z with ⟨r, st, hfew, hr, heq⟩ | ⟨r, st, lastidx, hmany, hr, heq⟩
  · rw [heq]
    refine .requests hr hfew hwanted fun hroom => ?_
    obtain ⟨b, hb⟩ := h.wants hroom
    exact List.ne_nil_of_mem hb
  · rw [heq]
    obtain ⟨b, hb⟩ := List.exists_mem_of_ne_nil _ (List.length_pos_iff.mp
      (Nat.lt_of_lt_of_le (Nat.zero_lt_succ 2047) hmany))
    refine .restart hr ?_ (hmany.trans ((List.length_filter_le ..).trans h.bound))
    have hleast := isLeast_missing h.gapless hn h.first (hmissing ▸ hwanted b hb)
    rwa [hmissing] at hleast

theorem quiet_terminate (hl : param.lossless = true) (h : Gapless n x) (hn : n < 2 ^ 32)
    (hlast : gotBlock x n = true) (hb : b ∈ missing x) (hleft : x.blocksLeft ≠ 0) (c : Int) :
    ∃ y records, controlAndStats param { quietOracle with countData := c } x n tsBlockTerminate =
      ⟨y, records, .next⟩ ∧ SameBlocks x y ∧ AsksAgain x y records := by
  have hall : ∀ n, quietOracle.realloc n = true := fun _ => rfl
  obtain ⟨y, hy⟩ : ∃ y, (if n > x.nextBlock then
      requestRange quietOracle.realloc x x.nextBlock n else some x) = some y := by
    split
    · exact Option.isSome_iff_exists.mp (requestRange_isSome hall ..)
    · exact ⟨x, rfl⟩
  obtain ⟨z, hz⟩ := Option.isSome_iff_exists.mp (requestRange_isSome hall
    (advanceHead y n tsBlockTerminate) (u32 ((advanceHead y n tsBlockTerminate).gaplessToBlock + 1))
    (advanceHead y n tsBlockTerminate).blockCount)
  have hrefilled := refilled hall h hn hlast hb hy hz
  have hwire : onWire x n tsBlockTerminate = false := by simp [onWire]
  have hstay : (advanceHead y n tsBlockTerminate).blocksLeft ≠ 0 := by
    have hz' := SameProgress.kept.requestRange hz
    rw [← hz'.blocks.blocksLeft, hrefilled.same.blocksLeft]
    exact hleft
  refine ⟨_, _, ?_, hrefilled.same.trans (ttpRepeatRetransmit_sameBlocks .ok z),
    hrefilled.asksAgain hn⟩
  rw [controlAndStats_quiet]
  have hqueue : (if n > x.nextBlock then
      queueMissing param { quietOracle with countData := c } x n else some x) = some y := by
    rw [queueMissing, if_pos hl]
    exact hy
  simp only [control, hwire, Bool.false_eq_true, if_false, hqueue, if_true, terminate, hstay, hl,
    not_true_eq_false, false_and, hz]
  rfl

theorem quiet_leaves (hl : param.lossless = true) (h0 : x.blocksLeft = 0) (b : Nat) (c : Int) :
    ∃ y, controlAndStats param { quietOracle with countData := c } x b tsBlockTerminate =
      ⟨y, [], .leave⟩ := by
  have hall : ∀ n, quietOracle.realloc n = true := fun _ => rfl
  have hwire : onWire x b tsBlockTerminate = false := by simp [onWire]
  obtain ⟨y, hqueue, hsame⟩ : ∃ y, (if b > x.nextBlock then
      queueMissing param { quietOracle with countData := c } x b else some x) = some y ∧
        SameBlocks x y := by
    split
    · obtain ⟨y, hy⟩ := Option.isSome_iff_exists.mp (requestRange_isSome hall x x.nextBlock b)
      refine ⟨y, ?_, SameBlocks.kept.requestRange hy⟩
      rw [queueMissing, if_pos hl]
      exact hy
    · exact ⟨x, rfl, .refl x⟩
  have hdone : (advanceHead y b tsBlockTerminate).blocksLeft = 0 := by
    rw [(SameBlocks.kept.advanceHead ..).blocksLeft, hsame.blocksLeft, h0]
  refine ⟨advanceHead y b tsBlockTerminate, ?_⟩
  rw [controlAndStats_quiet]
  simp only [control, hwire, Bool.false_eq_true, if_false, hqueue, if_true, terminate, hdone]

-- ---------------------------------------------------------------------------
-- One datagram
-- ---------------------------------------------------------------------------

theorem AtWork.settled_gapless (hl : cfg.param.lossless = true) (hn : cfg.blockCount < 2 ^ 32)
    (h : AtWork cfg l s) (hs : Settled s) : Gapless cfg.blockCount s.xfer :=
  receiveLoop_gapless hn hl (commandGet_receiveLoop h.fed.reachable hs.network)

theorem AtWork.receives (hc : cfg.For l) (hQ : ∀ d, Q d → Carries l d) (h : AtWork cfg l s)
    (hs : Settled s) (hd : Q d) :
    ∃ t, (commandGet cfg).Path (fun _ e => e.Fed Q) s t ∧ AtWork cfg l t ∧
      t = { s with localDatagram := d, network := .looking } ∧
      ringFull t.ring.ring = false := by
  obtain ⟨-, harrived⟩ := h.placed hc
  have hcarry := hQ d hd
  have hlen : d.length = 6 + cfg.param.blockSize := by rw [hcarry.length, hc.blockSize]
  have hblit : blit s.localDatagram 0 (d.take (6 + cfg.param.blockSize)) = d := by
    rw [List.take_of_length_le (Nat.le_of_eq hlen), blit_all (hlen.trans harrived.length.symm)]
  have hstep : s.step cfg (.recv d) = some { s with localDatagram := d, network := .looking } := by
    simp [CommandGet.step, hs.network, hblit]
  have hpath := fed_single (Q := Q) (e := .recv d) hd hstep
  refine ⟨_, hpath, h.path hQ hpath, rfl, ?_⟩
  have hidle := h.aligned
  simp only [hs.network, Aligned] at hidle
  have hprod := h.inv.producer
  simp only [hidle, ProducerOk] at hprod
  simp only [ringFull, Bool.not_eq_false']
  by_contra hfull
  have hspace := h.inv.spaceReady.mp (eq_false_of_ne_true hfull)
  rw [hs.empty, hprod] at hspace
  cases hspace

theorem AtWork.deliver (hc : cfg.For l) (hl : cfg.param.lossless = true)
    (hQ : ∀ d, Q d → Carries l d) (h : AtWork cfg l s) (hs : Settled s) (hd : Q d)
    (hmiss : blockNumber d ∈ missing s.xfer) :
    ∃ t, (commandGet cfg).Path (fun _ e => e.Fed Q) s t ∧ AtWork cfg l t ∧
      s.queued.length < t.queued.length ∧ (Settled t ∨ t.network = .stopping) := by
  obtain ⟨u, hpath, hu, heq, hroom⟩ := h.receives hc hQ hs hd
  obtain ⟨-, -, hnew⟩ := mem_missing.mp hmiss
  obtain ⟨v, hpath', hrest, -, hlen⟩ := looking_home hc hl hQ hu (by rw [heq])
  have hlen := hlen hroom (by rw [heq]; exact hnew)
  obtain ⟨t, hpath'', ht, hq, -, -, hend⟩ := (hu.path hQ hpath').rests hc hQ hrest
  refine ⟨t, (hpath.trans hpath').trans hpath'', ht, ?_, hend⟩
  rw [heq] at hlen
  rw [hq]
  exact hlen

/-- The terminate block, with the last block there already: the client leaves
the loop, or asks again. -/
theorem AtWork.deliver_last (hc : cfg.For l) (hl : cfg.param.lossless = true)
    (hn : cfg.blockCount < 2 ^ 32) (hQ : ∀ d, Q d → Carries l d) (h : AtWork cfg l s)
    (hs : Settled s) (hd : Q d) (hb : blockNumber d = cfg.blockCount)
    (hty : blockType d = tsBlockTerminate) (hlast : gotBlock s.xfer cfg.blockCount = true) :
    ∃ t, (commandGet cfg).Path (fun _ e => e.Fed Q) s t ∧ AtWork cfg l t ∧ t.queued = s.queued ∧
      (t.network = .stopping ∨ Settled t ∧ SameBlocks s.xfer t.xfer ∧
        ∃ records, t.sent = s.sent ++ records ∧ AsksAgain s.xfer t.xfer records) := by
  obtain ⟨u, hpath, hu, heq, hroom⟩ := h.receives hc hQ hs hd
  obtain ⟨hplaced, -⟩ := h.placed hc
  rw [hs.network] at hplaced
  have hcount := hplaced.counted.blockCount
  have hgapless := (h.settled_gapless hl hn hs).same
    (countReceived_sameProgress s.xfer tsBlockTerminate)
  have hnet : u.network = .looking := by rw [heq]
  have hlook : u.step cfg (.look quietOracle) = some (u.look cfg quietOracle) := if_pos hnet
  have hpath' := hpath.trans (fed_single (Q := Q) (e := .look quietOracle) trivial hlook)
  have hwork := h.path hQ hpath'
  have hrel : relevant (countReceived s.xfer tsBlockTerminate) cfg.blockCount tsBlockTerminate =
      true := by simp [relevant]
  have hgot : gotBlock (countReceived s.xfer tsBlockTerminate) cfg.blockCount = true := hlast
  have hturn : u.look cfg quietOracle = u.finish (controlAndStats cfg.param
      { quietOracle with countData := s.ring.ring.countData }
      (countReceived s.xfer tsBlockTerminate) cfg.blockCount tsBlockTerminate) := by
    subst heq
    simp only [CommandGet.look, hb, hty, hroom, hrel, hgot, and_self, if_true]
  by_cases hleft : s.xfer.blocksLeft = 0
  · obtain ⟨y, hy⟩ := quiet_leaves hl (x := countReceived s.xfer tsBlockTerminate) hleft
      cfg.blockCount s.ring.ring.countData
    rw [hturn, hy] at hpath' hwork
    refine ⟨_, hpath', hwork, ?_, .inl rfl⟩
    rw [heq]
    rfl
  · obtain ⟨b, hb⟩ : ∃ b, b ∈ missing s.xfer := by
      refine Finset.card_pos.mp ?_
      rw [← hplaced.counted.left]
      exact Nat.pos_of_ne_zero hleft
    have hcounted := countReceived_sameBlocks s.xfer tsBlockTerminate
    obtain ⟨y, records, hy, hsame, hasks⟩ := quiet_terminate hl hgapless hn hgot
      (by rw [hcounted.missing]; exact hb) hleft s.ring.ring.countData
    rw [hturn, hy] at hpath' hwork
    obtain ⟨t, hpath'', ht, hq, hsent, hx, hend⟩ := hwork.rests hc hQ rfl
    refine ⟨t, hpath'.trans hpath'', ht, ?_, ?_⟩
    · rw [hq, heq]
      rfl
    rcases hend with hsettled | hstop
    · refine .inr ⟨hsettled, ?_, records, ?_, ?_⟩
      · rw [hx]
        exact hcounted.trans hsame
      · rw [hsent, heq]
        rfl
      · rw [hx]
        exact hasks.counted
    · exact .inl hstop

end Tsunami.Client
