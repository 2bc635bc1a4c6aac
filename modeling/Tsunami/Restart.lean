import Tsunami.Client.ProtocolLaws
import Tsunami.Server.HandlerLaws

/-!
# Where a restart resumes

The client asks for a restart at its first missing block. The server sets its
position counter to that block and advances the counter before it builds the
next one, so that the first block it builds is the one after.
-/

namespace Tsunami

open Bytes Transition Server

-- ---------------------------------------------------------------------------
-- The client's request
-- ---------------------------------------------------------------------------

theorem restart_block (h : (Client.ttpRepeatRetransmit w x).records = [Client.restartRequest b]) :
    b = min x.blockCount (u32 (x.gaplessToBlock + 1)) ∧
      Client.maxRetransmissionBuffer ≤ (Client.wanted x x.retransmit.entries).length := by
  have hreq := Client.discard_requests x
  simp only [Client.ttpRepeatRetransmit, hreq, ge_iff_le] at h
  split at h
  · rename_i hmany
    rw [List.length_take] at hmany
    split at h
    · simp at h
    · simp only [List.cons.injEq, and_true, Client.restartRequest, Retransmission.mk.injEq,
        true_and] at h
      exact ⟨h.symm, by omega⟩
  · -- these are requests for single blocks
    simp only at h
    have hmem : Client.restartRequest b ∈ w.taken (((Client.wanted x x.retransmit.entries).take
        Client.maxRetransmissionBuffer).map Client.retransmitRequest) := by
      rw [h]
      exact List.mem_singleton_self _
    obtain ⟨c, -, hc⟩ := List.mem_map.mp (Client.WriteResult.mem_of_mem_taken hmem)
    simp [Client.retransmitRequest, Client.restartRequest, requestRetransmit, requestRestart] at hc

theorem restartRequest_fits (hb : b < 2 ^ 32) : (Client.restartRequest b).Fits where
  requestType := show 1 < 2 ^ 16 by decide
  block := hb
  errorRate := show 0 < 2 ^ 32 by decide

-- ---------------------------------------------------------------------------
-- The server after it
-- ---------------------------------------------------------------------------

variable {cfg : Server.Config} {h h' : Handler} {i : Input}

theorem restart_block_set (hb : 1 ≤ b) (hn : b ≤ cfg.blockCount) (hN : cfg.blockCount < 2 ^ 32)
    (hl : h.retransmitlen ≤ sizeofRetransmission) (hv : i.Valid h)
    (hrec : (h.fill i.read).retransmission = (Client.restartRequest b).encode)
    (hlen : (h.fill i.read).retransmitlen = sizeofRetransmission)
    (hh : h.iteration cfg i = .running h') : h'.sender.block = b := by
  have hdec : Retransmission.decode (h.fill i.read).retransmission = Client.restartRequest b := by
    rw [hrec, Retransmission.decode_encode (restartRequest_fits (by omega))]
  rcases running_cases hl hv hh with ⟨-, hbeat⟩ | ⟨hpart, -⟩ | ⟨hpart, -⟩
  · obtain ⟨ipd, hs⟩ := hbeat.sender
    have hrange : ¬(b = 0 ∨ b > cfg.blockCount) := by omega
    rw [hs]
    simp [Handler.served, ttpAcceptRetransmit, hdec, Client.restartRequest, requestRestart,
      requestErrorRate, hrange]
  · omega
  · omega

/-- The first `n` new blocks, as they should be from block `b` on: up to the
last one, which is then repeated. -/
def resumedAt (cfg : Server.Config) (b n : Nat) : List (Nat × Nat) :=
  (List.range n).map fun k =>
    let block := min (b + k) cfg.blockCount
    (block, if block = cfg.blockCount then tsBlockTerminate else tsBlockOriginal)

/-- From `h` on, until a further request arrives, the new blocks are `b` and
its successors, and the datagram in the buffer is the last of them. -/
def ResumesAt (cfg : Server.Config) (b : Nat) (h : Handler) : Prop :=
  ∀ inputs h', (transferLoop cfg).run h inputs = some h' → h'.acted = h.acted →
    h'.built = h.built ++ resumedAt cfg b inputs.length ∧
      ∀ d ∈ (resumedAt cfg b inputs.length).getLast?, h'.sender.heading = d

theorem resumedAt_last (cfg : Server.Config) (n : Nat) :
    resumedAt cfg cfg.blockCount n = List.replicate n (cfg.blockCount, tsBlockTerminate) := by
  simp [resumedAt, List.map_const']

theorem transferLoop_run_acted (hl : h.retransmitlen ≤ sizeofRetransmission)
    (hr : (transferLoop cfg).run h inputs = some h') : h.acted <+: h'.acted := by
  induction inputs generalizing h with
  | nil =>
    cases hr
    exact List.prefix_refl _
  | cons i inputs ih =>
    obtain ⟨h₁, h₁s, hr⟩ := System.run_cons.mp hr
    obtain ⟨hv, hh⟩ := transferLoop_step h₁s
    exact (running_acted hl hv hh).trans (ih (Nat.le_of_lt (running_retransmitlen hl hv hh)) hr)

theorem resumes_at_last (hb : h.sender.block = cfg.blockCount) (hN : cfg.blockCount < 2 ^ 32 - 1)
    (hl : h.retransmitlen ≤ sizeofRetransmission) : ResumesAt cfg cfg.blockCount h := by
  intro inputs h' hr hq
  simp only [resumedAt_last, List.getLast?_replicate]
  induction inputs generalizing h with
  | nil =>
    cases hr
    simp
  | cons i inputs ih =>
    obtain ⟨h₁, h₁s, hr⟩ := System.run_cons.mp hr
    obtain ⟨hv, hh⟩ := transferLoop_step h₁s
    have hl₁ := Nat.le_of_lt (running_retransmitlen hl hv hh)
    -- nothing was acted on at the first turn, nor at any later one
    have hq₁ : h₁.acted = h.acted := by
      have hlater := transferLoop_run_acted hl₁ hr
      rw [hq] at hlater
      exact hlater.eq_of_length_le (running_acted hl hv hh).length_le
    obtain ⟨hbuilt, hblock, hheading⟩ := quiet_turn hl hv hh hq₁
    have hnext : nextBlock cfg h.sender = (cfg.blockCount, tsBlockTerminate) := by
      simp only [nextBlock, hb, u32_of_lt (show cfg.blockCount + 1 < 2 ^ 32 by omega),
        Nat.min_eq_right (Nat.le_succ _), if_true]
    rw [hnext] at hbuilt hblock hheading
    obtain ⟨hrest, hlast⟩ := ih hblock hl₁ hr (hq.trans hq₁.symm)
    constructor
    · rw [hrest, hbuilt]
      simp [List.replicate_succ]
    · cases inputs with
      | nil =>
        cases hr
        simpa using hheading
      | cons j inputs => simpa using hlast

def idleInput : Input := ⟨0, .nothing eagain, false, 0, 0, 0⟩

theorem resumes_next (hb : h.sender.block ≤ cfg.blockCount)
    (hl : h.retransmitlen < sizeofRetransmission) (hres : ResumesAt cfg b h) :
    min (u32 (h.sender.block + 1)) cfg.blockCount = min b cfg.blockCount := by
  have hrun : (transferLoop cfg).run h [idleInput] = some (h.blasted cfg) := by
    simp [System.run, transferLoop, Input.Valid, idleInput, Handler.iteration, hb,
      Handler.iteration.go, Nat.ne_of_lt hl, hl, Handler.transmit, Handler.blasted]
  have hbuilt := (hres [idleInput] _ hrun rfl).1
  simp [Handler.blasted, nextBlock, resumedAt] at hbuilt
  exact hbuilt.1

/-- A restart resumes at the requested block exactly when that is the last
block, in a file whose block numbers do not wrap around. -/
theorem restart_resumes_iff (hN : cfg.blockCount < 2 ^ 32) (hx : x.blockCount = cfg.blockCount)
    (hreq : (Client.ttpRepeatRetransmit w x).records = [Client.restartRequest b]) (hb : 1 ≤ b)
    (hl : h.retransmitlen ≤ sizeofRetransmission) (hv : i.Valid h)
    (hrec : (h.fill i.read).retransmission = (Client.restartRequest b).encode)
    (hlen : (h.fill i.read).retransmitlen = sizeofRetransmission)
    (hh : h.iteration cfg i = .running h') :
    ResumesAt cfg b h' ↔ b = cfg.blockCount ∧ cfg.blockCount ≠ 2 ^ 32 - 1 := by
  have hn : b ≤ cfg.blockCount := by
    rw [(restart_block hreq).1, hx]
    exact Nat.min_le_left ..
  have hblock := restart_block_set hb hn hN hl hv hrec hlen hh
  have hl' := running_retransmitlen hl hv hh
  constructor
  · intro hres
    have hnext := resumes_next (by omega) hl' hres
    rw [hblock, Nat.min_eq_left hn] at hnext
    simp only [u32] at hnext
    omega
  · rintro ⟨rfl, hmax⟩
    exact resumes_at_last hblock (by omega) (Nat.le_of_lt hl')

-- ---------------------------------------------------------------------------
-- A lost burst
-- ---------------------------------------------------------------------------

def burstLost : Client.Transfer :=
  let x := Client.Transfer.create ⟨1024, 650000000, 25, true, 0⟩ 3072000 3000
  { x with
    nextBlock := 2050
    received := setBit x.received 2049
    blocksLeft := 2999
    retransmit := {
      table := List.range' 1 2048 ++ List.replicate 2048 0
      indexMax := 2048
      allocated := by rw [List.length_append, List.length_range', List.length_replicate]; decide
      fits := by rw [List.length_append, List.length_range', List.length_replicate]; decide } }

theorem burstLost_wanted :
    Client.wanted burstLost burstLost.retransmit.entries = List.range' 1 2048 := by
  have hentries : burstLost.retransmit.entries = List.range' 1 2048 :=
    List.take_left' List.length_range'
  rw [hentries, Client.wanted, List.filter_eq_self]
  intro b hb
  rw [List.mem_range'_1] at hb
  have hgot : Client.gotBlock burstLost b = false := by
    rw [Client.gotBlock_of_le (show b ≤ 3000 by omega)]
    refine (getBit_setBit ?_ b).trans ?_
    · rw [Client.Transfer.create, List.length_replicate]
      decide
    · rw [Bool.or_eq_false_iff, decide_eq_false_iff_not]
      exact ⟨by omega, getBit_replicate_zero ..⟩
  simp only [hgot, ne_eq, decide_eq_true_eq, and_true]
  omega

theorem burstLost_request :
    (Client.ttpRepeatRetransmit .ok burstLost).records = [Client.restartRequest 1] := by
  rcases Client.ttpRepeatRetransmit_cases burstLost with ⟨r, st, hfew, -⟩ | ⟨r, st, l, -, -, hrep⟩
  · rw [burstLost_wanted, List.length_range'] at hfew
    exact absurd hfew (by decide)
  · rw [hrep]
    rfl

def serverConfig (blockSize blockCount : Nat) (file : List UInt8) : Server.Config where
  file := file
  blockSize := blockSize
  blockCount := blockCount
  errorRate := 7500
  slowerNum := 25
  slowerDen := 24
  fasterNum := 5
  fasterDen := 6
  ipdTime := 0
  hbTimeout := 15
  bigEndian := false

def atBlock2100 : Handler :=
  let h := Handler.create 0 [] (List.replicate 12 0) 0
  { h with sender := { h.sender with block := 2100 } }

def restartInput : Input := ⟨0, .data (Client.restartRequest 1).encode, true, 0, 0, 0⟩

/-- The restart that the client asks for at block 1 resumes at block 2. -/
theorem restart_resumes_iff_burst_lost :
    ∃ h', atBlock2100.iteration (serverConfig 1024 3000 []) restartInput = .running h' ∧
      ¬ResumesAt (serverConfig 1024 3000 []) 1 h' := by
  obtain ⟨h', hh⟩ : ∃ h', atBlock2100.iteration (serverConfig 1024 3000 []) restartInput =
      .running h' := ⟨_, rfl⟩
  refine ⟨h', hh, ?_⟩
  rw [restart_resumes_iff (by decide) rfl burstLost_request (by decide) (by decide)
    (by decide) rfl rfl hh]
  decide

theorem restart_skips_first_block :
    (Client.ttpRepeatRetransmit .ok burstLost).records = [Client.restartRequest 1] ∧
    ∃ h' h'', atBlock2100.iteration (serverConfig 1024 3000 []) restartInput = .running h' ∧
      (transferLoop (serverConfig 1024 3000 [])).run h' [idleInput] = some h'' ∧
      h''.acted = h'.acted ∧ h''.built = h'.built ++ [(2, tsBlockOriginal)] ∧
      h''.sender.heading = (2, tsBlockOriginal) ∧
      ¬ResumesAt (serverConfig 1024 3000 []) 1 h' := by
  refine ⟨burstLost_request, _, _, rfl, rfl, rfl, rfl, rfl, fun hres => ?_⟩
  have hbuilt := (hres [idleInput] _ rfl rfl).1
  simp only [List.append_cancel_left_eq] at hbuilt
  exact absurd hbuilt (by decide)

end Tsunami
