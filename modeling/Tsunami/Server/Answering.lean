import Tsunami.Server.Blocks

/-!
# A server that goes on serving

From any state in a transfer the server can read what the client has written
to the end, and send its blocks up to any that is still to come. The clock
stands meanwhile, at a time at which the client is not given up.
-/

namespace Tsunami.Server

open Bytes Transition

variable {cfg : Config} {l : Layout} {records : List Retransmission} {h : Handler} {i : Input}
  {v w u : Serving} {t : Nat}

-- ---------------------------------------------------------------------------
-- Single turns
-- ---------------------------------------------------------------------------

theorem unreported_heartbeat (cfg : Config) (hdue : h.reportDue i = false) :
    ∃ c, h.heartbeat cfg i = .running { h with deadconnectionCounter := c } := by
  rw [Handler.heartbeat, hdue, if_neg Bool.false_ne_true]
  split <;> exact ⟨_, rfl⟩

theorem served_unreported (cfg : Config) (h : Handler) (i : Input) :
    (h.served cfg i).reportDue i = false := by
  simp [Handler.reportDue, Handler.served]

structure Input.At (i : Input) (t : Nat) : Prop where
  now : i.now = t
  checkAt : i.checkAt = t
  reportAt : i.reportAt = t
  timeoutAt : i.timeoutAt = t

/-- At time `t` the last record is not further back than the timeout. -/
def InTime (cfg : Config) (t : Nat) (h : Handler) : Prop :=
  getUsecSince h.lastfeedback t ≤ 1000000 * cfg.hbTimeout

theorem inTime_of_lastfeedback (ht : h.lastfeedback = t) : InTime cfg t h := by
  simp [InTime, getUsecSince, ht]

/-- A loss may be reported, but the client is not given up. -/
theorem timely_heartbeat (ht : InTime cfg t h) (hi : i.timeoutAt = t) :
    ∃ h', h.heartbeat cfg i = .running h' ∧ Beat cfg i h h' ∧ InTime cfg t h' := by
  obtain ⟨h', hrun, hfeed⟩ : ∃ h', h.heartbeat cfg i = .running h' ∧
      h'.lastfeedback = h.lastfeedback := by
    have hearly : ¬getUsecSince h.lastfeedback i.timeoutAt > 1000000 * cfg.hbTimeout := by
      rw [hi]
      exact Nat.not_lt.mpr ht
    rw [Handler.heartbeat]
    split
    · split
      · exact ⟨_, if_neg hearly, rfl⟩
      · exact ⟨_, rfl, rfl⟩
    · exact ⟨_, rfl, rfl⟩
  refine ⟨h', hrun, heartbeat_beat (by rw [hrun]; rfl), ?_⟩
  rw [InTime, hfeed]
  exact ht

def restBytes (records : List Retransmission) (v : Serving) : List UInt8 :=
  ((stream records).drop v.consumed).take (sizeofRetransmission - v.handler.retransmitlen)

def restOf (t : Nat) (records : List Retransmission) (v : Serving) : Input :=
  ⟨t, .data (restBytes records v), true, t, t, t⟩

theorem restOf_at (t : Nat) (records : List Retransmission) (v : Serving) :
    (restOf t records v).At t :=
  ⟨rfl, rfl, rfl, rfl⟩

theorem idleAt_at (t : Nat) : (idleAt t).At t :=
  ⟨rfl, rfl, rfl, rfl⟩

def completed (records : List Retransmission) (v : Serving) : List UInt8 :=
  (v.handler.fill (.data (restBytes records v))).retransmission

/-- One record further, with nothing of the next one read. -/
structure Acted (cfg : Config) (t : Nat) (records : List Retransmission) (v w : Serving) :
    Prop where
  step : Serving.step cfg (stream records) v (restOf t records v) = some w
  running : w.running = true
  retransmitlen : w.handler.retransmitlen = 0
  lastfeedback : w.handler.lastfeedback = t
  acted : w.handler.acted.length = v.handler.acted.length + 1
  sender : w.handler.sender =
    (ttpAcceptRetransmit cfg true v.handler.sender (completed records v)).sender
  sent : w.handler.sent =
    v.handler.sent ++ (ttpAcceptRetransmit cfg true v.handler.sender (completed records v)).sent

theorem Honest.completes (t : Nat) (h : Honest l records v) (hrun : v.running = true)
    (hmore : v.handler.acted.length < records.length) :
    (restOf t records v).Valid v.handler ∧
      (v.handler.fill (.data (restBytes records v))).retransmitlen = sizeofRetransmission := by
  obtain ⟨hl, -, hcons, -⟩ := h.running hrun
  have hlen : (restBytes records v).length =
      sizeofRetransmission - v.handler.retransmitlen := by
    rw [restBytes, List.length_take, List.length_drop, length_stream, hcons]
    simp only [sizeofRetransmission] at hl ⊢
    omega
  constructor
  · simp only [Input.Valid, restOf, hlen]
    omega
  · rw [fill_size]
    simp only [ReadResult.size, hlen]
    omega

theorem served_iteration (hb : h.sender.block ≤ cfg.blockCount)
    (hfull : (h.fill (.data bytes)).retransmitlen = sizeofRetransmission)
    (hty : (Retransmission.decode (h.fill (.data bytes)).retransmission).requestType ≠ requestStop)
    (hread : i.read = .data bytes) :
    ∃ c, h.iteration cfg i = .running
      { (h.fill i.read).served cfg i with deadconnectionCounter := c } := by
  obtain ⟨c, hbeat⟩ := unreported_heartbeat cfg (served_unreported cfg (h.fill i.read) i)
  refine ⟨c, ?_⟩
  rw [← hbeat, Handler.iteration, if_pos hb]
  simp only [hread]
  rw [Handler.iteration.go, if_pos hfull, Handler.request]
  exact if_neg hty

theorem Honest.reads (t : Nat) (hc : cfg.For l) (hu : Unstopped records)
    (hsound : ∀ r ∈ records, r.Sound l.blockCount) (h : Honest l records v)
    (hrun : v.running = true) (hmore : v.handler.acted.length < records.length) :
    ∃ w, Acted cfg t records v w ∧
      (v.handler.retransmitlen = 0 →
        Retransmission.decode (completed records v) = records[v.handler.acted.length]) := by
  obtain ⟨hl, hb, hcons, hpart⟩ := h.running hrun
  obtain ⟨hvalid, hfull⟩ := h.completes t hrun hmore
  have hfollows : (restOf t records v).read.Follows (stream records) v.consumed :=
    List.take_prefix ..
  have hfill : Partial records v.handler.acted.length
      (v.handler.fill (.data (restBytes records v))) :=
    fill_partial hpart hvalid (hcons ▸ hfollows) hl
  have hty : (Retransmission.decode (completed records v)).requestType ≠ requestStop := by
    rcases hfill.bytes with hpend | ⟨-, hrate⟩
    · rw [completed, pending_whole hpend hfull (fun r hr => (hsound r hr).fits) hmore]
      exact hu _ (List.getElem_mem hmore)
    · rw [completed, Retransmission.decode, hrate, ofBe_be16]
      exact show requestErrorRate % 2 ^ 16 ≠ requestStop by decide
  obtain ⟨c, hiter⟩ := served_iteration (i := restOf t records v) (hc.blockCount ▸ hb) hfull hty
    rfl
  have hstep : Serving.step cfg (stream records) v (restOf t records v) = some
      ⟨{ (v.handler.fill (restOf t records v).read).served cfg (restOf t records v) with
        deadconnectionCounter := c }, v.consumed + (restOf t records v).read.size, true⟩ := by
    simp only [Serving.step, hrun, hvalid, hfollows, and_self, if_true, hiter]
  refine ⟨_, ⟨hstep, rfl, rfl, rfl, ?_, ?_, ?_⟩, fun h0 => ?_⟩
  · simp [Handler.served]
  · simp [Handler.served, completed, restOf]
  · simp [Handler.served, completed, restOf]
  · rcases hpart.bytes with hpend | ⟨h₂, -⟩
    · exact pending_whole (fill_pending hpend hvalid (hcons ▸ hfollows) hl) hfull
        (fun r hr => (hsound r hr).fits) hmore
    · omega

-- ---------------------------------------------------------------------------
-- Many turns
-- ---------------------------------------------------------------------------

/-- In the transfer, with all that has been written acted on. -/
structure CaughtUp (cfg : Config) (l : Layout) (t : Nat) (records : List Retransmission)
    (v : Serving) : Prop where
  honest : Honest l records v
  running : v.running = true
  inTime : InTime cfg t v.handler
  retransmitlen : v.handler.retransmitlen = 0
  acted : v.handler.acted.length = records.length

theorem Acted.path (h : Acted cfg t records v w) :
    (serving cfg records).Path (fun _ i => i.At t) v w :=
  .single (M := serving cfg records) (restOf_at ..) h.step

theorem Acted.inTime (h : Acted cfg t records v w) : InTime cfg t w.handler :=
  inTime_of_lastfeedback h.lastfeedback

theorem Honest.catchesUp (hc : cfg.For l) (hmax : l.blockCount < 2 ^ 32 - 1)
    (hu : Unstopped records) (hsound : ∀ r ∈ records, r.Sound l.blockCount)
    (h : Honest l records v) (hrun : v.running = true) (ht : InTime cfg t v.handler) :
    ∃ w, (serving cfg records).Path (fun _ i => i.At t) v w ∧ CaughtUp cfg l t records w ∧
      v.handler.sent <+: w.handler.sent := by
  obtain ⟨hl, -, hcons, -⟩ := h.running hrun
  have hall := h.consumed
  rw [length_stream, hcons] at hall
  generalize hm : records.length - v.handler.acted.length = m
  induction m generalizing v with
  | zero =>
    simp only [sizeofRetransmission] at hall
    exact ⟨v, .refl, ⟨h, hrun, ht, by omega, by omega⟩, List.prefix_refl _⟩
  | succ m ih =>
    obtain ⟨w, hw, -⟩ := h.reads t hc hu hsound hrun (by omega)
    have hwh : Honest l records w := step_honest hc hmax hsound h hw.step
    obtain ⟨hl', -, hcons', -⟩ := hwh.running hw.running
    have hacted := hw.acted
    have hall' := hwh.consumed
    rw [length_stream, hcons'] at hall'
    obtain ⟨u, hpath, hu', hsent⟩ := ih hwh hw.running hw.inTime hl' hcons' hall' (by omega)
    refine ⟨u, hw.path.trans hpath, hu', ?_⟩
    rw [hw.sent] at hsent
    exact (List.prefix_append ..).trans hsent

structure Blasted (cfg : Config) (l : Layout) (t : Nat) (records : List Retransmission)
    (v w : Serving) (d : List UInt8) (b : Nat) : Prop where
  caughtUp : CaughtUp cfg l t records w
  block : w.handler.sender.block = b
  sent : w.handler.sent = v.handler.sent ++ [d]
  number : blockNumber d = b
  type : blockType d = if b = l.blockCount then tsBlockTerminate else tsBlockOriginal

theorem CaughtUp.blasts (hc : cfg.For l) (hmax : l.blockCount < 2 ^ 32 - 1)
    (hsound : ∀ r ∈ records, r.Sound l.blockCount) (h : CaughtUp cfg l t records v) :
    ∃ w d, (serving cfg records).Path (fun _ i => i.At t) v w ∧
      Blasted cfg l t records v w d (min (v.handler.sender.block + 1) l.blockCount) := by
  obtain ⟨hl, hb, hcons, -⟩ := h.honest.running h.running
  have hnext : nextBlock cfg v.handler.sender = (min (v.handler.sender.block + 1) l.blockCount,
      if min (v.handler.sender.block + 1) l.blockCount = l.blockCount then tsBlockTerminate
      else tsBlockOriginal) := by
    rw [nextBlock, hc.blockCount, u32_of_lt (by omega)]
  generalize min (v.handler.sender.block + 1) l.blockCount = b at hnext ⊢
  let d := ((v.handler.blasted cfg).sender).packet cfg
  let u : Handler := { v.handler.blasted cfg with sent := v.handler.sent ++ [d] }
  have hut : InTime cfg t u := h.inTime
  obtain ⟨h', hbeat, hsame, hin⟩ := timely_heartbeat (i := idleAt t) hut rfl
  have hiter : v.handler.iteration cfg (idleAt t) = .running h' := by
    rw [← hbeat, Handler.iteration, if_pos (hc.blockCount ▸ hb)]
    simp only [idleAt, ne_eq, not_true_eq_false, if_false]
    rw [Handler.iteration.go, if_neg (Nat.ne_of_lt hl), if_pos hl]
    rfl
  have hstep : Serving.step cfg (stream records) v (idleAt t) =
      some ⟨h', v.consumed, true⟩ := by
    have hread : (idleAt t).read = .nothing eagain := rfl
    simp [Serving.step, h.running, hiter, Input.Valid, hread, ReadResult.Follows, ReadResult.size]
  have hblock : h'.sender.block = b := by
    obtain ⟨ipd, hsender⟩ := hsame.sender
    simp only [hsender, u, Handler.blasted, hnext]
    rfl
  have hle : cfg.blockSize ≤ maxBlockSize := hc.blockSize ▸ l.le
  have hwh := step_honest hc hmax hsound h.honest hstep
  have hlt : b < 2 ^ 32 := by
    obtain ⟨-, hb', -⟩ := hwh.running rfl
    simp only [hblock] at hb'
    omega
  obtain ⟨-, rest, hpacket, -⟩ := packet_eq
    (q := { v.handler.sender with block := b }) h.honest.sender.datagram hle b
    (if b = l.blockCount then tsBlockTerminate else tsBlockOriginal)
  have hd :
      d = header b (if b = l.blockCount then tsBlockTerminate else tsBlockOriginal) ++ rest := by
    simp only [d, Handler.blasted, hnext]
    exact hpacket
  refine ⟨_, d, .single (M := serving cfg records) (idleAt_at t) hstep,
    ⟨hwh, rfl, hin, hsame.retransmitlen.trans h.retransmitlen, hsame.acted ▸ h.acted⟩, hblock,
    hsame.sent, ?_, ?_⟩
  · rw [hd, blockNumber_header hlt]
  · rw [hd, blockType_header]
    split <;> decide

/-- Blocks are sent up to a given one, or to the last, which is sent again
after every round. -/
theorem CaughtUp.blastsTo (hc : cfg.For l) (hmax : l.blockCount < 2 ^ 32 - 1)
    (hsound : ∀ r ∈ records, r.Sound l.blockCount) (h : CaughtUp cfg l t records v)
    (hk : k ≤ l.blockCount) (hto : v.handler.sender.block < k ∨ k = l.blockCount) :
    ∃ w d new, (serving cfg records).Path (fun _ i => i.At t) v w ∧ CaughtUp cfg l t records w ∧
      w.handler.sent = v.handler.sent ++ new ∧ d ∈ new ∧ blockNumber d = k ∧
      blockType d = if k = l.blockCount then tsBlockTerminate else tsBlockOriginal := by
  obtain ⟨-, hb, -, -⟩ := h.honest.running h.running
  generalize hm : k - v.handler.sender.block = m
  induction m generalizing v with
  | zero =>
    obtain ⟨w, d, hpath, hw⟩ := h.blasts hc hmax hsound
    have hlast : min (v.handler.sender.block + 1) l.blockCount = k := by omega
    rw [hlast] at hw
    exact ⟨w, d, [d], hpath, hw.caughtUp, hw.sent, List.mem_singleton_self d, hw.number, hw.type⟩
  | succ m ih =>
    obtain ⟨w, d, hpath, hw⟩ := h.blasts hc hmax hsound
    have hnext : min (v.handler.sender.block + 1) l.blockCount = v.handler.sender.block + 1 := by
      omega
    rw [hnext] at hw
    by_cases hlast : v.handler.sender.block + 1 = k
    · rw [hlast] at hw
      exact ⟨w, d, [d], hpath, hw.caughtUp, hw.sent, List.mem_singleton_self d, hw.number, hw.type⟩
    · have hblock := hw.block
      obtain ⟨u, d', new, hpath', hu, hsent, hd', hnum, hty⟩ :=
        ih hw.caughtUp (by omega) (by omega) (by omega)
      refine ⟨u, d', d :: new, hpath.trans hpath', hu, ?_, List.mem_cons_of_mem _ hd', hnum, hty⟩
      rw [hsent, hw.sent, List.append_assoc]
      rfl

-- ---------------------------------------------------------------------------
-- What is written next
-- ---------------------------------------------------------------------------

theorem CaughtUp.reads (hc : cfg.For l) (hu : Unstopped (records ++ r :: rs))
    (hsound : ∀ r' ∈ records ++ r :: rs, r'.Sound l.blockCount) (h : CaughtUp cfg l t records v) :
    ∃ w, Acted cfg t (records ++ r :: rs) v w ∧
      Retransmission.decode (completed (records ++ r :: rs) v) = r := by
  have hgrow := h.honest.grow (List.prefix_append records (r :: rs))
  obtain ⟨w, hw, hdec⟩ := hgrow.reads t hc hu hsound h.running (by rw [h.acted]; simp)
  refine ⟨w, hw, ?_⟩
  rw [hdec h.retransmitlen]
  simp [h.acted]

theorem CaughtUp.answers (hc : cfg.For l) (hmax : l.blockCount < 2 ^ 32 - 1)
    (hu : Unstopped (records ++ ⟨requestRetransmit, b, 0⟩ :: rs))
    (hsound : ∀ r ∈ records ++ ⟨requestRetransmit, b, 0⟩ :: rs, r.Sound l.blockCount)
    (h : CaughtUp cfg l t records v) :
    ∃ w d, Acted cfg t (records ++ ⟨requestRetransmit, b, 0⟩ :: rs) v w ∧
      w.handler.sent = v.handler.sent ++ [d] ∧ blockNumber d = b := by
  obtain ⟨w, hw, hdec⟩ := h.reads hc hu hsound
  obtain ⟨-, hb⟩ := (hsound ⟨requestRetransmit, b, 0⟩ (by simp)).block rfl
  have hle : cfg.blockSize ≤ maxBlockSize := hc.blockSize ▸ l.le
  obtain ⟨-, rest, hpacket, -⟩ := packet_eq h.honest.sender.datagram hle b
    tsBlockRetransmission
  refine ⟨w, (buildDatagram cfg v.handler.sender b tsBlockRetransmission).packet cfg, hw, ?_, ?_⟩
  · rw [hw.sent]
    simp only [ttpAcceptRetransmit, hdec]
    rfl
  · rw [hpacket, blockNumber_header (Nat.lt_of_le_of_lt hb (by omega))]

theorem CaughtUp.restarts (hc : cfg.For l) (hmax : l.blockCount < 2 ^ 32 - 1)
    (hu : Unstopped (records ++ [⟨requestRestart, b, 0⟩]))
    (hsound : ∀ r ∈ records ++ [⟨requestRestart, b, 0⟩], r.Sound l.blockCount)
    (h : CaughtUp cfg l t records v) (h₁ : 1 ≤ b) (hb : b ≤ l.blockCount) :
    ∃ w, Acted cfg t (records ++ [⟨requestRestart, b, 0⟩]) v w ∧
      CaughtUp cfg l t (records ++ [⟨requestRestart, b, 0⟩]) w ∧ w.handler.sender.block = b ∧
      w.handler.sent = v.handler.sent := by
  obtain ⟨w, hw, hdec⟩ := h.reads hc hu hsound
  have hgrow := h.honest.grow (List.prefix_append records [⟨requestRestart, b, 0⟩])
  have hin : ¬(b = 0 ∨ b > cfg.blockCount) := by
    rw [hc.blockCount]
    omega
  have haccept : ttpAcceptRetransmit cfg true v.handler.sender
      (completed (records ++ [⟨requestRestart, b, 0⟩]) v) =
      ⟨{ v.handler.sender with block := b }, (ttpAcceptRetransmit cfg true v.handler.sender
        (completed (records ++ [⟨requestRestart, b, 0⟩]) v)).buffer, [], true⟩ := by
    simp only [ttpAcceptRetransmit, hdec]
    simp [requestRestart, requestErrorRate, hin]
  refine ⟨w, hw, ⟨step_honest hc hmax hsound hgrow hw.step, hw.running, hw.inTime, hw.retransmitlen,
    ?_⟩, ?_, ?_⟩
  · rw [hw.acted, h.acted]
    simp
  · rw [hw.sender, haccept]
  · rw [hw.sent, haccept, List.append_nil]

end Tsunami.Server
