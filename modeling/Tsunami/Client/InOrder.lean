import Tsunami.Client.Books

/-!
# A transfer without loss

The run of the client in which the blocks arrive in order, with nothing due
besides. It is the run on which what goes wrong later goes wrong.
-/

namespace Tsunami.Client

open Bytes Transition

-- ---------------------------------------------------------------------------
-- The transfer object
-- ---------------------------------------------------------------------------

structure Sequential (n k : Nat) (x : Transfer) : Prop where
  blockCount : x.blockCount = n
  bitmap : BitmapFits x
  got : ∀ b, b ≤ n → gotBlock x b = decide (1 ≤ b ∧ b ≤ k)
  left : x.blocksLeft = n - k
  nextBlock : x.nextBlock = k + 1
  gapless : x.gaplessToBlock = k
  pending : x.restartPending = false

theorem create_sequential (param : Parameter) (size n : Nat) :
    Sequential n 0 (.create param size n) where
  blockCount := rfl
  bitmap := by simp [BitmapFits, Transfer.create]
  got b hb := by
    rw [gotBlock_create hb, eq_comm, decide_eq_false_iff_not]
    omega
  left := rfl
  nextBlock := rfl
  gapless := rfl
  pending := rfl

theorem Sequential.new (h : Sequential n k x) (hk : k < n) : gotBlock x (k + 1) = false := by
  rw [h.got _ (by omega)]
  simp

theorem Sequential.marked (h : Sequential n k x) (hk : k < n) (b : Nat) (hb : b ≤ n) :
    gotBlock (markReceived x (k + 1)) b = decide (1 ≤ b ∧ b ≤ k + 1) := by
  rw [gotBlock_markReceived h.bitmap (by rw [h.blockCount]; omega), h.got b hb, ← Bool.decide_or]
  exact decide_eq_decide.mpr (by omega)

theorem Sequential.advance (h : Sequential n k x) (hk : k < n) (hn : n < 2 ^ 32) :
    advanceLoop (markReceived x (k + 1)) (n - k) k = k + 1 := by
  obtain ⟨f, hf⟩ : ∃ f, n - k = f + 1 := ⟨n - k - 1, by omega⟩
  have hcount : (markReceived x (k + 1)).blockCount = n := h.blockCount
  have hnow : gotBlock (markReceived x (k + 1)) (u32 (k + 1)) = true := by
    rw [u32_of_lt (by omega), h.marked hk _ (by omega)]
    simp
  rw [hf, advanceLoop, if_pos ⟨hnow, by omega⟩]
  cases f with
  | zero => rfl
  | succ f =>
    have hafter : gotBlock (markReceived x (k + 1)) (u32 (k + 2)) = false := by
      rw [u32_of_lt (by omega), h.marked hk _ (by omega)]
      simp
    rw [advanceLoop, if_neg]
    rw [hafter]
    simp

theorem Sequential.advanceHead (h : Sequential n k x) (hk : k < n) (hn : n < 2 ^ 32) (ty : Nat) :
    advanceHead (markReceived x (k + 1)) (k + 1) ty = { markReceived x (k + 1) with
      gaplessToBlock := k + 1
      nextBlock := if ty = tsBlockOriginal then u32 (k + 2) else k + 1 } := by
  have hcount : (markReceived x (k + 1)).blockCount = n := h.blockCount
  have hgapless : (markReceived x (k + 1)).gaplessToBlock = k := h.gapless
  have hpending : (markReceived x (k + 1)).restartPending = false := h.pending
  have hnext : (markReceived x (k + 1)).nextBlock = k + 1 := h.nextBlock
  simp only [Client.advanceHead, advanceGapless, hcount, hgapless, h.advance hk hn, expectNext]
  split
  · simp [leaveRestart, hpending]
  · simp [leaveRestart, hpending, hnext]

/-- The type the server gives to the `b`-th of `n` blocks. -/
def inOrderType (n b : Nat) : Nat := if b = n then tsBlockTerminate else tsBlockOriginal

theorem Sequential.headUnmoved (h : Sequential n k x) (ty : Nat) :
    onWire (markReceived x (k + 1)) (k + 1) ty = false ∧
      ¬k + 1 > (markReceived x (k + 1)).nextBlock := by
  have hpending : (markReceived x (k + 1)).restartPending = false := h.pending
  have hnext : (markReceived x (k + 1)).nextBlock = k + 1 := h.nextBlock
  exact ⟨by simp [onWire, hpending], by omega⟩

theorem Sequential.controlNext (h : Sequential n k x) (hk : k + 1 < n) (hn : n < 2 ^ 32)
    (param : Parameter) :
    ∃ y, (∀ o : Oracle, o.timeUp = false →
      controlAndStats param o (markReceived x (k + 1)) (k + 1) tsBlockOriginal = ⟨y, [], .next⟩) ∧
      Sequential n (k + 1) y := by
  have hlt : k < n := Nat.lt_of_succ_lt hk
  obtain ⟨hwire, hhead⟩ := h.headUnmoved tsBlockOriginal
  have hne : tsBlockOriginal ≠ tsBlockTerminate := by decide
  refine ⟨{ markReceived x (k + 1) with gaplessToBlock := k + 1, nextBlock := k + 2 }, ?_, ?_⟩
  · intro o ho
    simp [controlAndStats, control, hwire, hhead, h.advanceHead hlt hn, sendStats, ho,
      u32_of_lt (show k + 2 < 2 ^ 32 by omega), hne]
  · have hl := h.bitmap
    have hleft := h.left
    simp only [BitmapFits] at hl
    exact {
      blockCount := h.blockCount
      bitmap := by simp [BitmapFits, markReceived, hl]
      got := fun b hb => h.marked hlt b hb
      left := by
        simp only [markReceived]
        split <;> omega
      nextBlock := rfl
      gapless := rfl
      pending := h.pending }

theorem Sequential.controlLast (h : Sequential n k x) (hk : k + 1 = n) (hn : n < 2 ^ 32)
    (param : Parameter) :
    ∃ y, ∀ o : Oracle, o.timeUp = false →
      controlAndStats param o (markReceived x (k + 1)) (k + 1) tsBlockTerminate =
        ⟨y, [], .leave⟩ := by
  obtain ⟨hwire, hhead⟩ := h.headUnmoved tsBlockTerminate
  have hleft : (markReceived x (k + 1)).blocksLeft = 0 := by
    have hx := h.left
    simp only [markReceived]
    split <;> omega
  refine ⟨Client.advanceHead (markReceived x (k + 1)) (k + 1) tsBlockTerminate, fun o _ => ?_⟩
  simp [controlAndStats, control, hwire, hhead, h.advanceHead (show k < n by omega) hn,
    terminate, hleft]

-- ---------------------------------------------------------------------------
-- Paths of the two threads
-- ---------------------------------------------------------------------------

variable {cfg : Config} {s : CommandGet} {P : CommandGet → Event → Prop} {d : Datagram}

structure Allows (P : CommandGet → Event → Prop) (d : Datagram) : Prop where
  recv : ∀ s, P s (.recv d)
  look : ∀ s o, s.localDatagram = d → P s (.look o)
  insert : ∀ s, P s .reserve ∧ P s .copy ∧ P s .confirm
  control : ∀ s o, P s (.control o)

theorem receive_steps (hnet : s.network = .receiving)
    (hlen : d.length = 6 + cfg.param.blockSize) (hlocal : s.localDatagram.length = d.length)
    (hinv : RingInv s.ring) (hp : s.ring.producer = .idle)
    (hc : s.ring.ring.countData < maxBlocksQueued)
    (hnew : gotBlock s.xfer (blockNumber d) = false) :
    ∃ s₂ s₃ s₄ r,
      s.step cfg (.recv d) = some { s with localDatagram := d, network := .looking } ∧
      CommandGet.step cfg { s with localDatagram := d, network := .looking }
        (.look quietOracle) = some s₂ ∧
      s₂.step cfg .reserve = some s₃ ∧ s₃.step cfg .copy = some s₄ ∧
      s₄.step cfg .confirm = some { s with
        network := .controlling
        localDatagram := d
        xfer := countReceived s.xfer (blockType d)
        ring := r
        queued := s.queued ++ [d] } ∧
      RingInv r ∧ r.producer = .idle ∧ r.ring.countData = s.ring.ring.countData + 1 ∧
      r.confirmed = s.ring.confirmed ++ [d] ∧ r.consumer = s.ring.consumer ∧
      r.reads = s.ring.reads := by
  obtain ⟨r₁, hr₁, hinv₁, hp₁, hc₁, hconf₁, hcons₁, hreads₁⟩ := reserve_ready hinv hp hc
  obtain ⟨r₂, r₃, hr₂, hp₂, hslot, hr₃, hinv₃, hp₃, hc₃, hconf₃, hcons₃, hreads₃⟩ :=
    write_confirm hinv₁ hp₁ d
  have hfull : ringFull s.ring.ring = false := by
    simp only [ringFull, Bool.not_eq_false']
    by_contra hsp
    have hroom := hinv.spaceReady.mp (eq_false_of_ne_true hsp)
    have hres := hinv.producer
    simp only [hp, ProducerOk] at hres
    omega
  have hgot : gotBlock (countReceived s.xfer (blockType d)) (blockNumber d) = false := hnew
  have hrecv : blit s.localDatagram 0 (d.take (6 + cfg.param.blockSize)) = d := by
    rw [List.take_of_length_le (Nat.le_of_eq hlen), blit_all hlocal.symm]
  let s₁ : CommandGet := { s with localDatagram := d, network := .looking }
  let s₂ : CommandGet := { s₁ with
    xfer := countReceived s.xfer (blockType d), network := .reserving .received }
  let s₃ : CommandGet := { s₂ with ring := r₁, network := .copying .received }
  let s₄ : CommandGet := { s₃ with ring := r₂, network := .confirming .received }
  refine ⟨s₂, s₃, s₄, r₃, ?_, ?_, ?_, ?_, ?_, hinv₃, hp₃, by rw [hc₃, hc₁], by rw [hconf₃, hconf₁],
    by rw [hcons₃, hcons₁], by rw [hreads₃, hreads₁]⟩
  · simp [CommandGet.step, hnet, hrecv]
  · simp [CommandGet.step, CommandGet.look, s₁, s₂, hfull, hgot, relevant]
  · simp [CommandGet.step, s₁, s₂, s₃, hr₁, CommandGet.reserved, hp₁, Producer.holds]
  · simp [CommandGet.step, s₁, s₂, s₃, s₄, hp₁, CommandGet.insertion, hr₂]
  · simp [CommandGet.step, s₁, s₂, s₃, s₄, hp₂, hr₃, hslot]

theorem receive_path (ha : Allows P d) (hnet : s.network = .receiving)
    (hlen : d.length = 6 + cfg.param.blockSize) (hlocal : s.localDatagram.length = d.length)
    (hinv : RingInv s.ring) (hp : s.ring.producer = .idle)
    (hc : s.ring.ring.countData < maxBlocksQueued)
    (hnew : gotBlock s.xfer (blockNumber d) = false) :
    ∃ r, (commandGet cfg).Path P s { s with
        network := .controlling
        localDatagram := d
        xfer := countReceived s.xfer (blockType d)
        ring := r
        queued := s.queued ++ [d] } ∧
      RingInv r ∧ r.producer = .idle ∧ r.ring.countData = s.ring.ring.countData + 1 ∧
      r.confirmed = s.ring.confirmed ++ [d] ∧ r.consumer = s.ring.consumer ∧
      r.reads = s.ring.reads := by
  obtain ⟨s₂, s₃, s₄, r, h₁, h₂, h₃, h₄, h₅, hr⟩ := receive_steps hnet hlen hlocal hinv hp hc hnew
  exact ⟨r,
    ((((System.Path.single (M := commandGet cfg) (ha.recv s) h₁).step (ha.look _ _ rfl) h₂).step
    (ha.insert s₂).1 h₃).step (ha.insert s₃).2.1 h₄).step (ha.insert s₄).2.2 h₅, hr⟩

structure Received (s t : CommandGet) (d : Datagram) : Prop where
  inv : RingInv t.ring
  producer : t.ring.producer = .idle
  fill : t.ring.ring.countData = s.ring.ring.countData + 1
  confirmed : t.ring.confirmed = s.ring.confirmed ++ [d]
  consumer : t.ring.consumer = s.ring.consumer
  reads : t.ring.reads = s.ring.reads
  accepts : t.accepts = s.accepts
  disk : t.disk = s.disk
  sent : t.sent = s.sent
  queued : t.queued = s.queued ++ [d]
  localDatagram : t.localDatagram = d

theorem receive_control_path (ha : Allows P d) (hnet : s.network = .receiving)
    (hlen : d.length = 6 + cfg.param.blockSize) (hlocal : s.localDatagram.length = d.length)
    (hinv : RingInv s.ring) (hp : s.ring.producer = .idle)
    (hc : s.ring.ring.countData < maxBlocksQueued) (hnew : gotBlock s.xfer (blockNumber d) = false)
    (hr : ∀ c, controlAndStats cfg.param { quietOracle with countData := c }
      (markReceived (countReceived s.xfer (blockType d)) (blockNumber d)) (blockNumber d)
        (blockType d) =
        ⟨y, [], v⟩) :
    ∃ t, (commandGet cfg).Path P s t ∧ Received s t d ∧ t.xfer = y ∧
      t.network = v.network := by
  obtain ⟨r, hpath, hinv', hp', hc', hconf, hcons, hreads⟩ :=
    receive_path ha hnet hlen hlocal hinv hp hc hnew
  let u : CommandGet := { s with
    network := .controlling
    localDatagram := d
    xfer := countReceived s.xfer (blockType d)
    ring := r
    queued := s.queued ++ [d] }
  have hstep : u.step cfg (.control quietOracle) = some (u.control cfg quietOracle) := by
    simp [CommandGet.step, u]
  refine ⟨_, hpath.step (ha.control u quietOracle) hstep, ?_⟩
  simp only [CommandGet.control, u, hr r.ring.countData]
  exact ⟨⟨hinv', hp', hc', hconf, hcons, hreads, rfl, rfl, List.append_nil _, rfl, rfl⟩, rfl, rfl⟩

structure InOrder (cfg : Config) (k : Nat) (s : CommandGet) : Prop where
  network : s.network = .receiving
  xfer : Sequential cfg.blockCount k s.xfer
  localDatagram : s.localDatagram.length = 6 + cfg.param.blockSize
  inv : RingInv s.ring
  producer : s.ring.producer = .idle

theorem create_inOrder (cfg : Config) (slots : Int → Datagram) :
    InOrder cfg 0 (.create cfg slots) where
  network := rfl
  xfer := create_sequential ..
  localDatagram := by simp [CommandGet.create]
  inv := create_inv slots
  producer := rfl

theorem Sequential.counted (h : Sequential n k x) (ty : Nat) :
    Sequential n k (countReceived x ty) :=
  ⟨h.blockCount, h.bitmap, h.got, h.left, h.nextBlock, h.gapless, h.pending⟩

theorem InOrder.next (h : InOrder cfg k s) (hn : cfg.blockCount < 2 ^ 32)
    (hk : k + 1 < cfg.blockCount) (ha : Allows P d) (hlen : d.length = 6 + cfg.param.blockSize)
    (hb : blockNumber d = k + 1) (hty : blockType d = tsBlockOriginal)
    (hc : s.ring.ring.countData < maxBlocksQueued) :
    ∃ t, (commandGet cfg).Path P s t ∧ InOrder cfg (k + 1) t ∧ Received s t d := by
  obtain ⟨y, hctl, hy⟩ := (h.xfer.counted tsBlockOriginal).controlNext hk hn cfg.param
  obtain ⟨t, hpath, hrec, hxt, hnet⟩ := receive_control_path ha h.network hlen
    (h.localDatagram.trans hlen.symm) h.inv h.producer hc (by rw [hb]; exact h.xfer.new (by omega))
    (fun c => by rw [hb, hty]; exact hctl _ rfl)
  exact ⟨t, hpath, ⟨hnet, hxt ▸ hy, by rw [hrec.localDatagram, hlen], hrec.inv, hrec.producer⟩,
    hrec⟩

theorem InOrder.last (h : InOrder cfg k s) (hn : cfg.blockCount < 2 ^ 32)
    (hk : k + 1 = cfg.blockCount) (ha : Allows P d) (hlen : d.length = 6 + cfg.param.blockSize)
    (hb : blockNumber d = k + 1) (hty : blockType d = tsBlockTerminate)
    (hc : s.ring.ring.countData < maxBlocksQueued) :
    ∃ t, (commandGet cfg).Path P s t ∧ t.network = .stopping ∧ Received s t d := by
  obtain ⟨y, hctl⟩ := (h.xfer.counted tsBlockTerminate).controlLast hk hn cfg.param
  obtain ⟨t, hpath, hrec, -, hnet⟩ := receive_control_path ha h.network hlen
    (h.localDatagram.trans hlen.symm) h.inv h.producer hc (by rw [hb]; exact h.xfer.new (by omega))
    (fun c => by rw [hb, hty]; exact hctl _ rfl)
  exact ⟨t, hpath, hnet, hrec⟩

-- ---------------------------------------------------------------------------
-- The disk thread
-- ---------------------------------------------------------------------------

structure AllowsDisk (P : CommandGet → Event → Prop) (i : Nat) (res : DiskResult) : Prop where
  peek : ∀ s, P s .peek
  accept : ∀ s, s.accepts.length = i → P s (.accept res)
  pop : ∀ s, P s .pop

structure SameNetwork (s t : CommandGet) : Prop where
  xfer : t.xfer = s.xfer
  network : t.network = s.network
  localDatagram : t.localDatagram = s.localDatagram
  queued : t.queued = s.queued
  sent : t.sent = s.sent
  confirmed : t.ring.confirmed = s.ring.confirmed
  producer : t.ring.producer = s.ring.producer

theorem InOrder.same (h : InOrder cfg k s) (hs : SameNetwork s t) (hinv : RingInv t.ring) :
    InOrder cfg k t where
  network := hs.network.trans h.network
  xfer := hs.xfer ▸ h.xfer
  localDatagram := by rw [hs.localDatagram, h.localDatagram]
  inv := hinv
  producer := hs.producer.trans h.producer

theorem accept_path (ha : AllowsDisk P s.accepts.length res) (hnet : s.network ≠ .aborted)
    (hd : s.disk = .running) (hinv : RingInv s.ring) (hc : s.ring.consumer = .idle)
    (hpos : 0 < s.ring.ring.countData)
    (h0 : ∀ d ∈ s.ring.confirmed, blockNumber d ≠ 0) :
    ∃ t d slot, (commandGet cfg).Path P s t ∧ SameNetwork s t ∧ RingInv t.ring ∧
      t.ring.consumer = .read slot ∧ t.ring.ring.countData = s.ring.ring.countData ∧
      t.accepts = s.accepts ++ [(d, res)] ∧
      t.disk = if res = .ok then .running else .returned := by
  obtain ⟨r₁, r₂, d, rest, hr₁, hc₁, hslot, hr₂, hinv₂, hc₂, hconf, hreads₂, hring₂, hconf₂, hp₂⟩ :=
    peek_read hinv hc hpos
  have hne : blockNumber d ≠ 0 := h0 d (by simp [hconf])
  let t : CommandGet := { s with ring := r₁ }
  have h₁ : s.step cfg .peek = some t := by simp [CommandGet.step, hnet, hd, hr₁, t]
  have h₂ : t.step cfg (.accept res) = some (t.accept cfg res s.ring.ring.baseData r₂) := by
    simp [CommandGet.step, hnet, hd, hr₂, hc₁, t]
  refine ⟨_, d, s.ring.ring.baseData,
    (System.Path.single (M := commandGet cfg) (ha.peek s) h₁).step (ha.accept t rfl) h₂, ?_⟩
  simp only [CommandGet.accept, t, hslot, if_neg hne]
  refine ⟨⟨rfl, rfl, rfl, rfl, rfl, hconf₂, hp₂⟩, hinv₂, hc₂, by rw [hring₂], trivial, ?_⟩
  cases res <;> simp [acceptBlock]

theorem disk_path (ha : AllowsDisk P s.accepts.length .ok) (hnet : s.network ≠ .aborted)
    (hd : s.disk = .running) (hinv : RingInv s.ring) (hc : s.ring.consumer = .idle)
    (hpos : 0 < s.ring.ring.countData) (h0 : ∀ d ∈ s.ring.confirmed, blockNumber d ≠ 0) :
    ∃ t, (commandGet cfg).Path P s t ∧ SameNetwork s t ∧ RingInv t.ring ∧ t.ring.consumer = .idle ∧
      t.ring.ring.countData = s.ring.ring.countData - 1 ∧ t.disk = .running ∧
      t.accepts.length = s.accepts.length + 1 := by
  obtain ⟨t, d, slot, hpath, hsame, hinv', hc', hcount, hacc, hdisk⟩ :=
    accept_path ha hnet hd hinv hc hpos h0
  obtain ⟨r, hr, hinvr, hcr, hcountr, hconfr, hpr, -⟩ := pop_ready hinv' hc'
  simp only [if_true] at hdisk
  have hstep : t.step cfg .pop = some { t with ring := r } := by
    simp [CommandGet.step, hsame.network, hnet, hdisk, hr]
  refine ⟨_, hpath.step (ha.pop t) hstep, ?_, hinvr, hcr, by rw [hcountr, hcount],
    hdisk, by simp [hacc]⟩
  exact ⟨hsame.xfer, hsame.network, hsame.localDatagram, hsame.queued, hsame.sent,
    hconfr.trans hsame.confirmed, hpr.trans hsame.producer⟩

-- ---------------------------------------------------------------------------
-- Many blocks
-- ---------------------------------------------------------------------------

/-- The datagrams of the transfer, as the server numbers and labels them. -/
structure Serves (cfg : Config) (block : Nat → Datagram) : Prop where
  length : ∀ b, (block b).length = 6 + cfg.param.blockSize
  number : ∀ b, 1 ≤ b → b ≤ cfg.blockCount → blockNumber (block b) = b
  type : ∀ b, blockType (block b) = inOrderType cfg.blockCount b

def OnlyBlocks (s : CommandGet) : Prop := ∀ d ∈ s.ring.confirmed, blockNumber d ≠ 0

/-- Blocks `k + 1` to `m` received, with the disk thread standing still. -/
theorem fill_path {block : Nat → Datagram} (hs : Serves cfg block) (hn : cfg.blockCount < 2 ^ 32)
    (ha : ∀ b, 1 ≤ b → b ≤ cfg.blockCount → Allows P (block b)) (h : InOrder cfg k s)
    (h0 : OnlyBlocks s) (hm : k + m < cfg.blockCount)
    (hc : s.ring.ring.countData + m ≤ maxBlocksQueued) :
    ∃ t, (commandGet cfg).Path P s t ∧ InOrder cfg (k + m) t ∧ OnlyBlocks t ∧
      t.ring.ring.countData = s.ring.ring.countData + m ∧ t.ring.consumer = s.ring.consumer ∧
      t.accepts = s.accepts ∧ t.disk = s.disk := by
  induction m with
  | zero => exact ⟨s, .refl, h, h0, by simp, rfl, rfl, rfl⟩
  | succ m ih =>
    obtain ⟨t, hpath, ht, ht0, hcount, hcons, hacc, hdisk⟩ := ih (by omega) (by omega)
    have hnumber := hs.number (k + m + 1) (by omega) (by omega)
    have hty : blockType (block (k + m + 1)) = tsBlockOriginal := by
      rw [hs.type, inOrderType, if_neg (by omega)]
    obtain ⟨u, hstep, hu, hrec⟩ := ht.next hn (by omega) (ha _ (by omega) (by omega)) (hs.length _)
      hnumber hty (by omega)
    refine ⟨u, hpath.trans hstep, hu, ?_, by rw [hrec.fill, hcount]; push_cast; ring,
      hrec.consumer.trans hcons, hrec.accepts.trans hacc, hrec.disk.trans hdisk⟩
    intro d hd
    rw [hrec.confirmed, List.mem_append, List.mem_singleton] at hd
    rcases hd with hd | rfl
    · exact ht0 d hd
    · omega

structure KeptUp (cfg : Config) (k : Nat) (s : CommandGet) : Prop where
  inOrder : InOrder cfg k s
  only : OnlyBlocks s
  empty : s.ring.ring.countData = 0
  consumer : s.ring.consumer = .idle
  disk : s.disk = .running
  accepts : s.accepts.length = k
  queued : s.numbers = List.range' 1 k

/-- The first `k` blocks received and written, one after the other. -/
theorem keptUp {block : Nat → Datagram} (hs : Serves cfg block) (hn : cfg.blockCount < 2 ^ 32)
    (ha : ∀ b, 1 ≤ b → b ≤ cfg.blockCount → Allows P (block b))
    (hd : ∀ i < k, AllowsDisk P i .ok) (hk : k < cfg.blockCount) (slots : Int → Datagram) :
    ∃ s, (commandGet cfg).Path P (.create cfg slots) s ∧ KeptUp cfg k s := by
  induction k with
  | zero =>
    exact ⟨_, .refl, create_inOrder cfg slots, fun _ hd => absurd hd (List.not_mem_nil),
      rfl, rfl, rfl, rfl, rfl⟩
  | succ k ih =>
    obtain ⟨s, hpath, h⟩ := ih (fun i hi => hd i (by omega)) (by omega)
    have hnumber := hs.number (k + 1) (by omega) (by omega)
    have hty : blockType (block (k + 1)) = tsBlockOriginal := by
      rw [hs.type, inOrderType, if_neg (by omega)]
    have hroom : s.ring.ring.countData < maxBlocksQueued := by
      rw [h.empty]
      decide
    obtain ⟨t, hrecv, ht, hrec⟩ := h.inOrder.next hn hk (ha _ (by omega) (by omega)) (hs.length _)
      hnumber hty hroom
    have hfill := hrec.fill
    rw [h.empty] at hfill
    have ht0 : OnlyBlocks t := by
      intro d hd
      rw [hrec.confirmed, List.mem_append, List.mem_singleton] at hd
      rcases hd with hd | rfl
      · exact h.only d hd
      · omega
    have hacc : t.accepts.length = k := by rw [hrec.accepts, h.accepts]
    have hnet : t.network ≠ .aborted := by
      rw [ht.network]
      decide
    obtain ⟨u, hdisk, hsame, hinv, hcons, hcount, hrun, hlen⟩ := disk_path
      (hacc.symm ▸ hd k (by omega)) hnet (hrec.disk.trans h.disk) ht.inv
      (hrec.consumer.trans h.consumer) (by omega) ht0
    refine ⟨u, (hpath.trans hrecv).trans hdisk, ht.same hsame hinv, ?_, by omega, hcons,
      hrun, by omega, ?_⟩
    · intro d hd
      rw [hsame.confirmed] at hd
      exact ht0 d hd
    · have hq := h.queued
      simp only [CommandGet.numbers] at hq ⊢
      rw [hsame.queued, hrec.queued, List.map_append, hq, List.map_singleton, hnumber,
        List.range'_concat]
      simp [Nat.add_comm]

end Tsunami.Client
