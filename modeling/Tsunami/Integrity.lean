import Tsunami.Client.InOrder
import Tsunami.FileTransfer

/-!
# The integrity of a transfer

A file of fewer than 2³² - 1 blocks arrives as it is. With 2³² - 1 blocks the
server's block counter wraps around behind the last block: it sends a datagram
numbered 0, which the client counts as a block.
-/

namespace Tsunami

open Bytes Transition

variable {a : Agreement} {s t : FileTransfer}

/-- Every block has been put into the ring once, with the stop block behind
them, and the local file is the file. -/
structure Intact (a : Agreement) (s : FileTransfer) : Prop where
  once : s.client.numbers.Perm (List.range' 1 a.layout.blockCount)
  put : ∃ stop, blockNumber stop = 0 ∧ s.client.ring.confirmed = s.client.queued ++ [stop]
  file : s.client.file = a.layout.file

theorem returned_intact (hmax : a.layout.blockCount < 2 ^ 32 - 1)
    (h : (fileTransfer a.toEnds).ReachableBy Works s) (hd : s.client.disk = .returned) :
    Intact a s := by
  have hjoint := fileTransfer_joint hmax h
  obtain ⟨hperm, hput, hfile⟩ := Client.assembled a.fetches a.lossless hjoint.client hd
  exact ⟨hperm, hput, hfile⟩

-- ---------------------------------------------------------------------------
-- The server, left alone
-- ---------------------------------------------------------------------------

namespace Server

variable {cfg : Config} {h : Handler} {v w : Serving}

theorem idle_turn (hb : h.sender.block ≤ cfg.blockCount)
    (hl : h.retransmitlen < sizeofRetransmission) (h0 : h.lasthblostreport = 0) :
    ∃ h', h.iteration cfg (idleAt 0) = .running h' ∧ h'.sender = (h.blasted cfg).sender ∧
      h'.sent = h.sent ++ [(h.blasted cfg).sender.packet cfg] ∧
      h'.retransmitlen = h.retransmitlen ∧ h'.lasthblostreport = 0 ∧
      h'.lastfeedback = h.lastfeedback := by
  let u : Handler := { h.blasted cfg with sent := h.sent ++ [(h.blasted cfg).sender.packet cfg] }
  have hbeat : h.iteration cfg (idleAt 0) = u.heartbeat cfg (idleAt 0) := by
    simp [Handler.iteration, hb, idleAt, Handler.iteration.go, Nat.ne_of_lt hl, hl,
      Handler.transmit, u, Handler.blasted]
  have hdue : ¬u.reportDue (idleAt 0) = true := by
    simp [Handler.reportDue, u, Handler.blasted, h0, idleAt, getUsecSince]
  rw [hbeat, Handler.heartbeat, if_neg hdue]
  split <;> exact ⟨_, rfl, rfl, rfl, rfl, h0, rfl⟩

def Emitted (cfg : Config) (v : Serving) (b ty : Nat) : Prop :=
  ∃ d ∈ v.handler.sent, d.length = 6 + cfg.blockSize ∧ blockNumber d = b ∧ blockType d = ty

structure Swept (cfg : Config) (k : Nat) (v : Serving) : Prop where
  running : v.running = true
  retransmitlen : v.handler.retransmitlen = 0
  report : v.handler.lasthblostreport = 0
  feedback : v.handler.lastfeedback = 0
  block : v.handler.sender.block = k
  datagram : v.handler.sender.datagram.length = 6 + maxBlockSize
  sent : ∀ b, 1 ≤ b → b ≤ k → Emitted cfg v b (Client.inOrderType cfg.blockCount b)

theorem inOrderType_lt (n b : Nat) : Client.inOrderType n b < 2 ^ 16 := by
  simp only [Client.inOrderType]
  split <;> decide

theorem Swept.step (h : Swept cfg k v) (hbs : cfg.blockSize ≤ maxBlockSize)
    (hk : k ≤ cfg.blockCount) (hb : min (u32 (k + 1)) cfg.blockCount = b) (hlt : b < 2 ^ 32) :
    ∃ w, Serving.step cfg [] v (idleAt 0) = some w ∧ w.running = true ∧
      w.handler.retransmitlen = 0 ∧ w.handler.lasthblostreport = 0 ∧
      w.handler.lastfeedback = 0 ∧ w.handler.sender.block = b ∧
      w.handler.sender.datagram.length = 6 + maxBlockSize ∧
      Emitted cfg w b (Client.inOrderType cfg.blockCount b) ∧
      ∀ b' ty, Emitted cfg v b' ty → Emitted cfg w b' ty := by
  have hblock : v.handler.sender.block ≤ cfg.blockCount := by rw [h.block]; exact hk
  obtain ⟨h', hiter, hsend, hsent, hlen, hreport, hfeed⟩ := idle_turn hblock
    (by rw [h.retransmitlen]; decide) h.report
  have hnext : nextBlock cfg v.handler.sender = (b, Client.inOrderType cfg.blockCount b) := by
    rw [nextBlock, h.block, hb]
    rfl
  let u : Sender := { v.handler.sender with block := b }
  let built := buildDatagram cfg u b (Client.inOrderType cfg.blockCount b)
  have hsender : (v.handler.blasted cfg).sender = built := by rw [Handler.blasted, hnext]
  obtain ⟨hlength, rest, hpacket, hrest, -⟩ :=
    packet_eq (q := u) h.datagram hbs b (Client.inOrderType cfg.blockCount b)
  rw [hsender] at hsend hsent
  have hstep : Serving.step cfg [] v (idleAt 0) = some ⟨h', v.consumed, true⟩ := by
    have hread : (idleAt 0).read = .nothing eagain := rfl
    simp [Serving.step, h.running, hiter, Input.Valid, hread, ReadResult.Follows, ReadResult.size]
  refine ⟨_, hstep, rfl, hlen.trans h.retransmitlen, hreport, hfeed.trans h.feedback,
    by rw [hsend]; rfl, by rw [hsend]; exact hlength, ⟨built.packet cfg, ?_, ?_, ?_, ?_⟩, ?_⟩
  · rw [hsent]
    exact List.mem_append_right _ (List.mem_singleton.mpr rfl)
  · rw [hpacket, List.length_append, length_header, hrest]
  · rw [hpacket, blockNumber_header hlt]
  · rw [hpacket, blockType_header (inOrderType_lt ..)]
  · rintro b' ty ⟨d, hd, hprops⟩
    refine ⟨d, ?_, hprops⟩
    rw [hsent]
    exact List.mem_append_left _ hd

theorem Swept.next (h : Swept cfg k v) (hbs : cfg.blockSize ≤ maxBlockSize)
    (hk : k < cfg.blockCount) (hn : cfg.blockCount < 2 ^ 32) :
    ∃ w, Serving.step cfg [] v (idleAt 0) = some w ∧ Swept cfg (k + 1) w := by
  have hb : min (u32 (k + 1)) cfg.blockCount = k + 1 := by
    rw [u32_of_lt (by omega), Nat.min_eq_left hk]
  obtain ⟨w, hstep, hrun, hlen, hreport, hfeed, hblock, hdata, hnew, hold⟩ :=
    h.step hbs (Nat.le_of_lt hk) hb (by omega)
  refine ⟨w, hstep, hrun, hlen, hreport, hfeed, hblock, hdata, fun b h₁ hle => ?_⟩
  rcases Nat.lt_or_ge k b with hgt | hge
  · obtain rfl : b = k + 1 := by omega
    exact hnew
  · exact hold _ _ (h.sent b h₁ hge)

end Server

-- ---------------------------------------------------------------------------
-- The client and block 0
-- ---------------------------------------------------------------------------

namespace Client

variable {cfg : Config} {s t : CommandGet} {P : CommandGet → Event → Prop} {d : Datagram}

theorem Sequential.controlZero (h : Sequential n k x) (hk : k < n) (hn : n < 2 ^ 32)
    (param : Parameter) :
    ∃ y, (∀ c, controlAndStats param { quietOracle with countData := c }
      (markReceived x 0) 0 tsBlockOriginal =
        ⟨y, [], .next⟩) ∧
      y.blockCount = n ∧ y.blocksLeft = n - k - 1 ∧ y.restartPending = false ∧
      ∀ b, b ≤ n → gotBlock y b = decide (b ≤ k) := by
  have hcount : (markReceived x 0).blockCount = n := h.blockCount
  have hgapless : (markReceived x 0).gaplessToBlock = k := h.gapless
  have hpending : (markReceived x 0).restartPending = false := h.pending
  have hgot : ∀ b, b ≤ n → gotBlock (markReceived x 0) b = decide (b ≤ k) := by
    intro b hb
    rw [gotBlock_markReceived h.bitmap (Nat.zero_le _), h.got b hb, ← Bool.decide_or]
    exact decide_eq_decide.mpr (by omega)
  have hstay : advanceLoop (markReceived x 0) (n - k) k = k := by
    obtain ⟨f, hf⟩ : ∃ f, n - k = f + 1 := ⟨n - k - 1, by omega⟩
    rw [hf, advanceLoop, if_neg]
    rw [u32_of_lt (by omega), hgot _ (by omega)]
    simp
  have hhead : Client.advanceHead (markReceived x 0) 0 tsBlockOriginal =
      { markReceived x 0 with gaplessToBlock := k, nextBlock := 1 } := by
    simp [Client.advanceHead, advanceGapless, hcount, hgapless, hstay, expectNext, leaveRestart,
      hpending, u32]
  have hwire : onWire (markReceived x 0) 0 tsBlockOriginal = false := by simp [onWire, hpending]
  have hne : tsBlockOriginal ≠ tsBlockTerminate := by decide
  refine ⟨{ markReceived x 0 with gaplessToBlock := k, nextBlock := 1 }, fun c => ?_, hcount, ?_,
    hpending, hgot⟩
  · simp [controlAndStats, control, hwire, hhead, sendStats, quietOracle, hne]
  · have hleft := h.left
    simp only [markReceived]
    split <;> omega

theorem control_leaves (hl : param.lossless = true) (hp : x.restartPending = false)
    (h0 : x.blocksLeft = 0) (b : Nat) :
    ∃ y, ∀ c, controlAndStats param { quietOracle with countData := c } x b tsBlockTerminate =
      ⟨y, [], .leave⟩ := by
  have hwire : onWire x b tsBlockTerminate = false := by simp [onWire, hp]
  obtain ⟨y, hy, hsame⟩ : ∃ y, SameBlocks x y ∧ ∀ c,
      (if b > x.nextBlock then queueMissing param { quietOracle with countData := c } x b else some x) =
        some y := by
    by_cases hb : b > x.nextBlock
    · have hall : ∀ n, quietOracle.realloc n = true := fun _ => rfl
      obtain ⟨y, hy⟩ := Option.isSome_iff_exists.mp (requestRange_isSome hall x x.nextBlock b)
      exact ⟨y, SameBlocks.kept.requestRange hy,
        fun c => by rw [if_pos hb, queueMissing, if_pos hl]; exact hy⟩
    · exact ⟨x, .refl x, fun c => if_neg hb⟩
  have hdone : (Client.advanceHead y b tsBlockTerminate).blocksLeft = 0 :=
    (SameBlocks.kept.advanceHead ..).blocksLeft.trans (hy.blocksLeft.trans h0)
  refine ⟨Client.advanceHead y b tsBlockTerminate, fun c => ?_⟩
  simp [controlAndStats, control, hwire, hsame c, terminate, hdone]

theorem stop_path (ha : ∀ s, P s .peek ∧ P s (.accept .ok)) (hnet : s.network ≠ .aborted)
    (hd : s.disk = .running) (hinv : RingInv s.ring) (hc : s.ring.consumer = .idle)
    (hconf : s.ring.confirmed = s.ring.reads ++ [d]) (h0 : blockNumber d = 0) :
    ∃ t, (commandGet cfg).Path P s t ∧ SameNetwork s t ∧ RingInv t.ring ∧ t.disk = .returned ∧
      t.ring.ring.countData = s.ring.ring.countData := by
  have hpos : 0 < s.ring.ring.countData := by
    have hh := hinv.history
    rw [hconf, hc, List.append_cancel_left_eq] at hh
    by_contra hle
    have hzero : s.ring.ring.countData.toNat = 0 := by omega
    simp [unread, Ring.live, liveFrom, hzero] at hh
  obtain ⟨r₁, r₂, d', rest, hr₁, hc₁, hslot, hr₂, hinv₂, hc₂, hconf', hreads₂, hring₂,
      hconf₂, hp₂⟩ :=
    peek_read hinv hc hpos
  rw [hconf, List.append_cancel_left_eq, List.cons.injEq] at hconf'
  let t : CommandGet := { s with ring := r₁ }
  have h₁ : s.step cfg .peek = some t := by simp [CommandGet.step, hnet, hd, hr₁, t]
  have h₂ : t.step cfg (.accept .ok) = some (t.accept cfg .ok s.ring.ring.baseData r₂) := by
    simp [CommandGet.step, hnet, hd, hr₂, hc₁, t]
  have haccept :
      t.accept cfg .ok s.ring.ring.baseData r₂ = { t with ring := r₂, disk := .returned } := by
    simp only [CommandGet.accept, t, hslot, ← hconf'.1, h0, if_true]
  rw [haccept] at h₂
  refine ⟨_, (System.Path.single (M := commandGet cfg) (ha s).1 h₁).step (ha t).2 h₂, ?_⟩
  exact ⟨⟨rfl, rfl, rfl, rfl, rfl, hconf₂.trans rfl, hp₂⟩, hinv₂, rfl, by simp only [hring₂]⟩

/-- All but the last two blocks, a datagram numbered 0, the last block: the
loop is left, with the last but one missing and the disk thread gone. -/
theorem zero_path {block : Nat → Datagram} (hl : cfg.param.lossless = true)
    (hn : cfg.blockCount < 2 ^ 32) (htwo : 2 ≤ cfg.blockCount) (hs : Serves cfg block)
    (ha : ∀ b, 1 ≤ b → b ≤ cfg.blockCount → Allows P (block b)) (hdisk : ∀ i, AllowsDisk P i .ok)
    (hread : ∀ s, P s (.accept .ok)) (ha₀ : Allows P d₀)
    (hlen : d₀.length = 6 + cfg.param.blockSize) (h0 : blockNumber d₀ = 0)
    (hty : blockType d₀ = tsBlockOriginal) (slots : Int → Datagram) :
    ∃ t, (commandGet cfg).Path P (.create cfg slots) t ∧ t.network = .stopping ∧
    t.disk = .returned ∧
      0 ∈ t.numbers := by
  obtain ⟨s₁, hpath₁, h₁⟩ := keptUp hs hn ha (fun i _ => hdisk i) (k := cfg.blockCount - 2)
    (by omega) slots
  have hseq := h₁.inOrder.xfer
  -- the datagram numbered 0
  obtain ⟨y, hctl, hycount, hyleft, hypending, hygot⟩ :=
    (hseq.counted tsBlockOriginal).controlZero (by omega) hn cfg.param
  obtain ⟨s₂, hpath₂, hrec₂, hx₂, hnet₂⟩ := receive_control_path ha₀ h₁.inOrder.network hlen
    (h₁.inOrder.localDatagram.trans hlen.symm) h₁.inOrder.inv h₁.inOrder.producer
    (by rw [h₁.empty]; decide) (by rw [h0, hseq.got 0 (Nat.zero_le _)]; simp)
    (fun c => by rw [h0, hty]; exact hctl c)
  -- the disk thread has read all before it, and returns on it
  have hall : s₁.ring.confirmed = s₁.ring.reads := by
    have hh := h₁.inOrder.inv.history
    simpa [h₁.consumer, unread, Ring.live, liveFrom, h₁.empty] using hh
  obtain ⟨s₃, hpath₃, hsame, hinv₃, hd₃, hfill₃⟩ := stop_path
    (fun s => ⟨(hdisk 0).peek s, hread s⟩) (by rw [hnet₂]; decide) (hrec₂.disk.trans h₁.disk)
    hrec₂.inv
    (hrec₂.consumer.trans h₁.consumer) (by rw [hrec₂.confirmed, hrec₂.reads, hall]) h0
  -- the last block
  have hnumber := hs.number cfg.blockCount (by omega) (Nat.le_refl _)
  have htyN : blockType (block cfg.blockCount) = tsBlockTerminate := by
    rw [hs.type, inOrderType, if_pos rfl]
  have hx₃ : s₃.xfer = y := hsame.xfer.trans hx₂
  have hnew : gotBlock s₃.xfer (blockNumber (block cfg.blockCount)) = false := by
    rw [hx₃, hnumber, hygot _ (Nat.le_refl _), decide_eq_false_iff_not]
    omega
  have hleft :
      (markReceived (countReceived s₃.xfer tsBlockTerminate) cfg.blockCount).blocksLeft = 0 := by
    have hone : s₃.xfer.blocksLeft = 1 := by
      rw [hx₃, hyleft]
      omega
    simp [markReceived, countReceived, hone]
  obtain ⟨z, hz⟩ := control_leaves hl
    (x := markReceived (countReceived s₃.xfer tsBlockTerminate) cfg.blockCount)
    (by rw [hx₃]; exact hypending) hleft cfg.blockCount
  obtain ⟨s₄, hpath₄, hrec₄, -, hnet₄⟩ :=
    receive_control_path (ha cfg.blockCount (by omega) (Nat.le_refl _))
    (hsame.network.trans hnet₂) (hs.length _)
    (by rw [hsame.localDatagram, hrec₂.localDatagram, hlen, hs.length]) hinv₃
    (hsame.producer.trans hrec₂.producer) (by rw [hfill₃, hrec₂.fill, h₁.empty]; decide) hnew
    (fun c => by rw [hnumber, htyN]; exact hz c)
  refine ⟨s₄, ((hpath₁.trans hpath₂).trans hpath₃).trans hpath₄, hnet₄, hrec₄.disk.trans hd₃, ?_⟩
  rw [CommandGet.numbers, hrec₄.queued, hsame.queued, hrec₂.queued]
  simp [h0]

end Client

-- ---------------------------------------------------------------------------
-- Both together
-- ---------------------------------------------------------------------------

theorem client_path {c c' : Client.CommandGet} {v : Server.Serving}
    (h : (Client.commandGet a.client).Path (fun _ e => e.Fed (· ∈ v.handler.sent)) c c') :
    (fileTransfer a.toEnds).Path Works ⟨c, v⟩ ⟨c', v⟩ := by
  induction h with
  | refl => exact .refl
  | @step _ e _ _ hfed hs ih =>
    have hfrom : FileTransfer.FromServer v.handler.sent e := by
      cases e with
      | recv d => exact hfed
      | _ => trivial
    have hworks : ∀ s, Works s (.client e) := by
      intro s
      cases e with
      | recv d => trivial
      | _ => exact hfed
    refine ih.step (hworks _) ?_
    simp only [fileTransfer, FileTransfer.step, if_pos hfrom]
    exact congrArg _ hs

theorem server_path {c : Client.CommandGet} {v w : Server.Serving} (hc : c.sent = [])
    (h : Server.Serving.step a.server [] v i = some w) :
    (fileTransfer a.toEnds).Path Works ⟨c, v⟩ ⟨c, w⟩ := by
  refine .single (e := .server i) (show Works _ (.server i) from trivial) ?_
  simp only [fileTransfer, FileTransfer.step, hc]
  exact congrArg _ h

theorem swept_path (retransmission : List UInt8) {c : Client.CommandGet} (hc : c.sent = [])
    (hd : datagram.length = 6 + maxBlockSize) (hk : k ≤ a.layout.blockCount) :
    ∃ v, (fileTransfer a.toEnds).Path Works
      ⟨c, ⟨.create ipd datagram retransmission 0, 0, true⟩⟩ ⟨c, v⟩ ∧ Server.Swept a.server k v := by
  have hn := a.layout.fits
  have hbs : a.server.blockSize ≤ maxBlockSize := a.serves.blockSize ▸ a.layout.le
  have hcount := a.serves.blockCount
  induction k with
  | zero => exact ⟨_, .refl, rfl, rfl, rfl, rfl, rfl, hd, fun b h₁ h0 => absurd h₁ (by omega)⟩
  | succ k ih =>
    obtain ⟨v, hpath, hv⟩ := ih (Nat.le_of_succ_le hk)
    obtain ⟨w, hstep, hw⟩ := hv.next hbs (by omega) (hcount ▸ hn)
    exact ⟨w, hpath.trans (server_path hc hstep), hw⟩

theorem wraparound_run (hmax : a.layout.blockCount = 2 ^ 32 - 1) :
    ∃ s, (fileTransfer a.toEnds).ReachableBy Works s ∧ s.client.network = .stopping ∧
      s.client.disk = .returned ∧ 0 ∈ s.client.numbers := by
  have hcount : a.client.blockCount = 2 ^ 32 - 1 := a.fetches.blockCount.trans hmax
  have hscount : a.server.blockCount = 2 ^ 32 - 1 := a.serves.blockCount.trans hmax
  have hsize : a.client.param.blockSize = a.server.blockSize :=
    a.fetches.blockSize.trans a.serves.blockSize.symm
  have hbs : a.server.blockSize ≤ maxBlockSize := a.serves.blockSize ▸ a.layout.le
  -- the server
  let c : Client.CommandGet := .create a.client fun _ => []
  obtain ⟨v, hsweep, hv⟩ := swept_path (a := a) (c := c)
    (List.replicate sizeofRetransmission 0) rfl
      (List.length_replicate (n := 6 + maxBlockSize) (a := 0))
    (Nat.le_refl _)
  obtain ⟨w, hstep, -, -, -, -, -, -, hzero, hold⟩ := hv.step hbs (by rw [hscount, hmax]) (b := 0)
    (by rw [hmax]; rfl) (by decide)
  have hinit : (fileTransfer a.toEnds).ReachableBy Works
      ⟨c, ⟨.create 0 (List.replicate (6 + maxBlockSize) 0) (List.replicate sizeofRetransmission 0)
        0, 0, true⟩⟩ :=
    .init ⟨_, _, _, _, _, List.length_replicate, List.length_replicate, rfl⟩
  have hserved := (hinit.path hsweep).path (server_path rfl hstep)
  -- the datagrams
  obtain ⟨d₀, hd₀, hlen₀, hnum₀, hty₀⟩ := hzero
  have hty₀' : blockType d₀ = tsBlockOriginal := by
    rw [hty₀, hscount]
    rfl
  have hblocks : ∀ b, ∃ d, d.length = 6 + a.client.param.blockSize ∧
      blockType d = Client.inOrderType a.client.blockCount b ∧
      (1 ≤ b → b ≤ a.client.blockCount → blockNumber d = b ∧ d ∈ w.handler.sent) := by
    intro b
    by_cases hb : 1 ≤ b ∧ b ≤ a.client.blockCount
    · obtain ⟨d, hd, hlen, hnum, hty⟩ :=
        hold _ _ (hv.sent b hb.1 (by rw [hmax, ← hcount]; exact hb.2))
      exact ⟨d, hsize ▸ hlen, by rw [hty, hscount, hcount], fun _ _ => ⟨hnum, hd⟩⟩
    · exact ⟨header b (Client.inOrderType a.client.blockCount b) ++
        List.replicate a.client.param.blockSize 0, by simp,
        blockType_header (Server.inOrderType_lt ..), fun h₁ h₂ => absurd ⟨h₁, h₂⟩ hb⟩
  choose block hlen hty hsent using hblocks
  have hserves : Client.Serves a.client block := ⟨hlen, fun b h₁ hb => (hsent b h₁ hb).1, hty⟩
  let P : Client.CommandGet → Client.Event → Prop := fun _ e => e.Fed (· ∈ w.handler.sent)
  have hallow : ∀ d ∈ w.handler.sent, Client.Allows P d := fun d hd =>
    ⟨fun _ => hd, fun _ _ _ => trivial, fun _ => ⟨trivial, trivial, trivial⟩, fun _ _ => trivial⟩
  obtain ⟨t, hpath, hnet, hdisk, hmem⟩ :=
    Client.zero_path (P := P) a.lossless (by rw [hcount]; decide)
    (by rw [hcount]; decide) ⟨hlen, fun b h₁ hb => (hsent b h₁ hb).1, hty⟩
    (fun b h₁ hb => hallow _ (hsent b h₁ hb).2)
      (fun i => ⟨fun _ => trivial, fun _ _ => rfl, fun _ => trivial⟩)
    (fun _ => rfl) (hallow d₀ hd₀) (hsize ▸ hlen₀) hnum₀ hty₀' fun _ => []
  exact ⟨_, hserved.path (client_path hpath), hnet, hdisk, hmem⟩

-- ---------------------------------------------------------------------------
-- Exactly when
-- ---------------------------------------------------------------------------

def Client.Network.left : Client.Network → Bool
  | .stopping | .reserving .stop | .copying .stop | .confirming .stop | .joining | .counting _ _
  | .returned => true
  | _ => false

theorem wraparound_damages (hmax : a.layout.blockCount = 2 ^ 32 - 1) :
    ∃ s, (fileTransfer a.toEnds).ReachableBy Works s ∧ s.client.network.left = true ∧
      s.client.disk = .returned ∧ ¬Intact a s := by
  obtain ⟨s, hs, hnet, hdisk, hmem⟩ := wraparound_run hmax
  refine ⟨s, hs, by rw [hnet]; rfl, hdisk, fun hintact => ?_⟩
  have hrange := List.mem_range'_1.mp (hintact.once.mem_iff.mp hmem)
  omega

/-- A transfer whose loop has been left and whose disk thread has returned has
brought the whole file, for every file but those of 2³² - 1 blocks. -/
theorem transfer_intact_iff (a : Agreement) :
    (∀ s, (fileTransfer a.toEnds).ReachableBy Works s → s.client.network.left = true →
      s.client.disk = .returned → Intact a s) ↔ a.layout.blockCount ≠ 2 ^ 32 - 1 := by
  constructor
  · intro hall hmax
    obtain ⟨s, hs, hleft, hdisk, hbad⟩ := wraparound_damages hmax
    exact hbad (hall s hs hleft hdisk)
  · intro hmax s hs _ hdisk
    have hfits : a.layout.blockCount < 2 ^ 32 := a.layout.fits
    exact returned_intact (by omega) hs hdisk

def singleBytes (n : Nat) (h₁ : 1 ≤ n) (hn : n < 2 ^ 32) : Layout where
  file := List.replicate n 7
  blockSize := 1
  nonempty := by simp; omega
  pos := Nat.one_pos
  le := one_le_maxBlockSize
  fits := by simpa [Nat.mod_one] using hn

theorem blockCount_singleBytes (h₁ : 1 ≤ n) (hn : n < 2 ^ 32) :
    (singleBytes n h₁ hn).blockCount = n := by
  simp [singleBytes, Layout.blockCount, Nat.mod_one]

def defaultAgreement (l : Layout) : Agreement where
  layout := l
  server :=
    { file := l.file, blockSize := l.blockSize, blockCount := l.blockCount, errorRate := 7500
      slowerNum := 25, slowerDen := 24, fasterNum := 5, fasterDen := 6, ipdTime := 0,
      hbTimeout := 15
      bigEndian := false }
  client := ⟨Client.defaultParameter l.blockSize, l.file.length, l.blockCount⟩
  serves := ⟨rfl, rfl, rfl⟩
  fetches := ⟨rfl, rfl, rfl⟩
  lossless := rfl

/-- 4 GB less one byte, one byte to a block. -/
theorem four_gigabytes_damaged :
    ∃ s, (fileTransfer
      (defaultAgreement (singleBytes (2 ^ 32 - 1) (by decide) (by decide))).toEnds).ReachableBy
        Works s ∧
      s.client.network.left = true ∧ s.client.disk = .returned ∧
      ¬Intact (defaultAgreement (singleBytes (2 ^ 32 - 1) (by decide) (by decide))) s :=
  wraparound_damages (a := defaultAgreement (singleBytes (2 ^ 32 - 1) (by decide) (by decide)))
    (blockCount_singleBytes (by decide) (by decide))

end Tsunami
