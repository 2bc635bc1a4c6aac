import Tsunami.Lib.Transition
import Tsunami.Realtime.Handler

/-!
# The local backup

A recording is kept whole whatever becomes of the client: the backup holds every
block that the loop has come by, the client can only make the loop leave by a
stop request, and a silent client is given up behind the last block.
-/

namespace Tsunami.Realtime

open Bytes Server Transition

variable {c : Config} {p : Parameter} {device : Nat → UInt8} {s : Sender} {x : Transfer}
  {h h' : Handler} {i : Input} {is : List Input}

-- ---------------------------------------------------------------------------
-- The recording
-- ---------------------------------------------------------------------------

theorem deviceBytes_append (device : Nat → UInt8) (offset m n : Nat) :
    deviceBytes device offset m ++ deviceBytes device (offset + m) n =
      deviceBytes device offset (m + n) := by
  simp [deviceBytes, List.range_add, Nat.add_assoc, Function.comp_def]

theorem backup_whole (hp : 1 ≤ p.blockSize) (hf : 0 < p.fileSize)
    (hc : p.blockCount = wholeCount p.fileSize p.blockSize) :
    backup p device p.blockCount = deviceBytes device 0 p.fileSize := by
  have hbefore : ∀ m, m < p.blockCount →
      backup p device m = deviceBytes device 0 (p.blockSize * m) := by
    intro m hm
    induction m with
    | zero => rfl
    | succ m ih =>
      have hsize : writeSize p (m + 1) = p.blockSize := by
        rw [writeSize, if_neg (Nat.ne_of_lt hm), if_neg (by omega)]
      rw [backup_succ, ih (Nat.lt_of_succ_lt hm), hsize, Nat.mul_succ, ← deviceBytes_append,
        Nat.zero_add]
  have hpos : 1 ≤ p.blockCount := hc ▸ (wholeCount_spec hp hf).1
  obtain ⟨m, hm⟩ : ∃ m, p.blockCount = m + 1 := ⟨p.blockCount - 1, by omega⟩
  have hends := backup_ends hp hf hc
  rw [hm, Nat.add_sub_cancel] at hends
  rw [hm, backup_succ, hbefore m (by omega), ← hends, ← deviceBytes_append, Nat.zero_add]

-- ---------------------------------------------------------------------------
-- One call
-- ---------------------------------------------------------------------------

theorem buildDatagram_datagram (device : Nat → UInt8) (s : Sender) (hw : b.fwrite = .whole) :
    (buildDatagram p device s b).1.datagram =
      blit (blit s.datagram 6 (deviceBytes device (readAt p s b.index) p.blockSize)) 0
        (header b.index b.type) := by
  by_cases hnext : NextInBackup p s b.index
  · rw [buildDatagram_stored hw hnext]
  · rw [buildDatagram_kept hnext]

theorem buildDatagram_ok (p : Parameter) (device : Nat → UInt8) (s : Sender)
    (hw : b.fwrite = .whole) : (buildDatagram p device s b).2 = true := by
  have hstore : ∀ s : Sender, (s.store p b).2 = true := by
    intro s
    simp only [Sender.store, hw]
    split <;> rfl
  simp only [buildDatagram, hstore, if_true]

def Carries (p : Parameter) (device : Nat → UInt8) (d : List UInt8) : Prop :=
  ∃ b t, 1 ≤ b ∧ b ≤ p.blockCount ∧
    d = header b t ++ deviceBytes device (p.blockSize * (b - 1)) p.blockSize

theorem packet_carries (hw : b.fwrite = .whole) (hd : 6 ≤ s.datagram.length) (h₁ : 1 ≤ b.index)
    (hle : b.index ≤ p.blockCount) (hread : readAt p s b.index = p.blockSize * (b.index - 1)) :
    Carries p device ((buildDatagram p device s b).1.packet p) := by
  refine ⟨b.index, b.type, h₁, hle, ?_⟩
  rw [Sender.packet, buildDatagram_datagram device s hw, hread]
  exact packet_full hd (length_deviceBytes ..) ..

theorem InStep.again (h : InStep p device m s) (hp : 1 ≤ p.blockSize)
    (hn : p.blockCount < 2 ^ 32 - 1) (htwo : 2 ≤ b.index) (hle : b.index ≤ p.blockCount)
    (hw : b.fwrite = .whole) :
    (∃ m', m ≤ m' ∧ (b.index ≤ m + 1 → b.index ≤ m') ∧
        InStep p device m' (buildDatagram p device s b).1) ∧
      Carries p device ((buildDatagram p device s b).1.packet p) := by
  have hone : b.index ≠ 1 := by omega
  refine ⟨⟨_, ?_, ?_, (h.build hp (by omega) (by omega) hle hone hw).2⟩,
    packet_carries hw h.datagram (by omega) hle
      (readAt_later h.lastBlock (by omega) (by omega) hone)⟩
  · split <;> omega
  · split <;> omega

-- ---------------------------------------------------------------------------
-- The transfer
-- ---------------------------------------------------------------------------

/-- Before the first block, or with every block up to the one just built in the
backup. -/
inductive InHand (c : Config) (device : Nat → UInt8) (x : Transfer) : Prop
  | fresh : x.block = 0 → x.sender.position = 0 → x.sender.file = [] →
      6 ≤ x.sender.datagram.length → InHand c device x
  | going (m : Nat) : 1 ≤ x.block → x.block ≤ m → InStep c.toParameter device m x.sender →
      InHand c device x

/-- The request does not come before the first block, does not ask for block 1
again, and goes on only from a block that is in the backup. -/
structure Modest (c : Config) (x : Transfer) (r : Retransmission) : Prop where
  retransmit : r.requestType = requestRetransmit →
    1 ≤ x.block ∧ 2 ≤ r.block ∧ r.block ≤ c.blockCount
  restart : r.requestType = requestRestart →
    1 ≤ x.block ∧ r.block ≤ x.sender.lastWrittenVsibBlock

theorem InHand.next (hx : InHand c device x) (hp : 1 ≤ c.blockSize) (hc : 2 ≤ c.blockCount)
    (hn : c.blockCount < 2 ^ 32 - 1) (hle : x.block ≤ c.blockCount) (hw : b.fwrite = .whole)
    (hb : b.index = min (u32 (x.block + 1)) c.blockCount) :
    InHand c device { x with
        block := b.index
        sender := (buildDatagram c.toParameter device x.sender b).1 } ∧
      Carries c.toParameter device
        ((buildDatagram c.toParameter device x.sender b).1.packet c.toParameter) := by
  rw [u32] at hb
  cases hx with
  | fresh h₀ hpos hfile hd =>
    have hfirst : b.index = 1 := by omega
    have hbuilt := first_inStep device hp (by omega) hd hpos hfile hfirst hw
    have hread : readAt c.toParameter x.sender b.index = c.blockSize * (b.index - 1) := by
      rw [readAt, if_pos hfirst, hpos, hfirst]
      rfl
    exact ⟨.going 1 (by rw [hfirst]) (by rw [hfirst]) hbuilt.2,
      packet_carries hw hd (by omega) (by omega) hread⟩
  | going m h₁ hm hstep =>
    have hmle := hstep.le
    obtain ⟨⟨m', -, hm', hstored⟩, hcarries⟩ :=
      hstep.again hp hn (b := b) (by omega) (by omega) hw
    have hpos : 1 ≤ b.index := by omega
    exact ⟨.going m' hpos (hm' (by omega)) hstored, hcarries⟩

theorem InHand.accept (hx : InHand c device x) (hp : 1 ≤ c.blockSize)
    (hn : c.blockCount < 2 ^ 32 - 1) (hout : c.fileout) (hi : i.fwrite = .whole)
    (hr : Modest c x (Retransmission.decode buffer)) :
    let a := ttpAcceptRetransmit c device i x buffer
    InHand c device a.transfer ∧ (a.transfer.block ≤ c.blockCount ∨ a.transfer.block = x.block) ∧
      ∀ d ∈ a.sent, Carries c.toParameter device d := by
  simp only [ttpAcceptRetransmit]
  split
  · refine ⟨?_, .inr rfl, by simp⟩
    cases hx with
    | fresh h₀ hpos hfile hd => exact .fresh h₀ hpos hfile hd
    | going m h₁ hm hstep => exact .going m h₁ hm hstep
  · split
    · rename_i hrestart
      obtain ⟨hstarted, hwritten⟩ := hr.restart hrestart
      split
      · exact ⟨hx, .inr rfl, by simp⟩
      · rename_i hrange
        rw [not_or, Nat.not_lt] at hrange
        refine ⟨?_, .inl hrange.2, by simp⟩
        cases hx with
        | fresh h₀ => omega
        | going m h₁ hm hstep =>
          refine .going m (Nat.pos_of_ne_zero hrange.1) ?_ hstep
          rw [← (hstep.written hout).1]
          exact hwritten
    · split
      · rename_i hretransmit
        obtain ⟨hstarted, htwo, hle⟩ := hr.retransmit hretransmit
        cases hx with
        | fresh h₀ => omega
        | going m h₁ hm hstep =>
          let b : Build := ⟨(Retransmission.decode buffer).block, tsBlockRetransmission, i.fwrite⟩
          obtain ⟨⟨m', hm', -, hstored⟩, hcarries⟩ := hstep.again hp hn (b := b) htwo hle hi
          have hgoing : InHand c device
              { x with sender := (buildDatagram c.toParameter device x.sender b).1 } :=
            .going m' h₁ (Nat.le_trans hm hm') hstored
          split
          · refine ⟨hgoing, .inr rfl, ?_⟩
            intro d hd
            rw [List.mem_singleton.mp hd]
            exact hcarries
          · exact ⟨hgoing, .inr rfl, by simp⟩
      · exact ⟨hx, .inr rfl, by simp⟩

-- ---------------------------------------------------------------------------
-- The loop
-- ---------------------------------------------------------------------------

def Outcome.handler : Outcome → Option Handler
  | .running h | .stopped h | .timedOut h => some h
  | .fatal => none

def transferLoop (c : Config) (device : Nat → UInt8) : System Handler Input where
  init h := ∃ ipd lastBlock lastWritten datagram retransmission start, 6 ≤ datagram.length ∧
    h = .create ipd lastBlock lastWritten datagram retransmission start
  step h i :=
    match h.iteration c device i with
    | .running h' => some h'
    | _ => none

theorem transferLoop_step (hs : (transferLoop c device).step h i = some h') :
    h.iteration c device i = .running h' := by
  simp only [transferLoop] at hs
  split at hs
  · rename_i ho
    cases hs
    exact ho
  · cases hs

/-- `read` returns no more than it was asked for, the disk takes everything,
and what the client asks for can be had. -/
structure Undisturbed (c : Config) (h : Handler) (i : Input) : Prop where
  fits : (h.fill i.read).retransmitlen ≤ sizeofRetransmission
  stored : i.fwrite = .whole
  modest : (h.fill i.read).retransmitlen = sizeofRetransmission →
    Modest c h.transfer (Retransmission.decode (h.fill i.read).retransmission)

instance (c : Config) (x : Transfer) (r : Retransmission) : Decidable (Modest c x r) :=
  decidable_of_iff ((r.requestType = requestRetransmit →
      1 ≤ x.block ∧ 2 ≤ r.block ∧ r.block ≤ c.blockCount) ∧
      (r.requestType = requestRestart →
        1 ≤ x.block ∧ r.block ≤ x.sender.lastWrittenVsibBlock))
    ⟨fun h => ⟨h.1, h.2⟩, fun h => ⟨h.retransmit, h.restart⟩⟩

instance (c : Config) (h : Handler) (i : Input) : Decidable (Undisturbed c h i) :=
  decidable_of_iff ((h.fill i.read).retransmitlen ≤ sizeofRetransmission ∧ i.fwrite = .whole ∧
      ((h.fill i.read).retransmitlen = sizeofRetransmission →
        Modest c h.transfer (Retransmission.decode (h.fill i.read).retransmission)))
    ⟨fun h => ⟨h.1, h.2.1, h.2.2⟩, fun h => ⟨h.fits, h.stored, h.modest⟩⟩

structure Backed (c : Config) (device : Nat → UInt8) (h : Handler) : Prop where
  transfer : InHand c device h.transfer
  block : h.transfer.block ≤ c.blockCount
  retransmitlen : h.retransmitlen < sizeofRetransmission
  counter : h.deadconnectionCounter ≤ 2049
  sent : ∀ d ∈ h.sent, Carries c.toParameter device d

/-- Whatever comes of a turn; behind a timeout, the last block has been built. -/
structure Kept (c : Config) (device : Nat → UInt8) (o : Outcome) : Prop where
  goes : o ≠ .fatal
  transfer : ∀ t, o.handler = some t → InHand c device t.transfer
  sent : ∀ t, o.handler = some t → ∀ d ∈ t.sent, Carries c.toParameter device d
  running : ∀ t, o = .running t → Backed c device t
  timedOut : ∀ t, o = .timedOut t → t.transfer.block = c.blockCount

theorem Backed.kept (hb : Backed c device h) : Kept c device (.running h) where
  goes := nofun
  transfer := by
    rintro t ⟨⟩
    exact hb.transfer
  sent := by
    rintro t ⟨⟩
    exact hb.sent
  running := by
    rintro t ⟨⟩
    exact hb
  timedOut := nofun

theorem Backed.heartbeat (hb : Backed c device h) (hout : c.fileout) {type : Nat}
    (ht : type = tsBlockTerminate → h.transfer.block = c.blockCount) :
    Kept c device (h.heartbeat c type i) := by
  simp only [Handler.heartbeat, hout, not_true_eq_false, if_false]
  split
  · split
    · exact Backed.kept ⟨hb.transfer, hb.block, hb.retransmitlen, Nat.zero_le _, hb.sent⟩
    · split
      · split
        · rename_i hlast
          refine ⟨nofun, ?_, ?_, nofun, ?_⟩
          · rintro t ⟨⟩
            exact hb.transfer
          · rintro t ⟨⟩
            exact hb.sent
          · rintro t ⟨⟩
            exact ht hlast.2
        · exact Backed.kept ⟨hb.transfer, hb.block, hb.retransmitlen, Nat.zero_le _, hb.sent⟩
      · exact Backed.kept ⟨hb.transfer, hb.block, hb.retransmitlen, Nat.zero_le _, hb.sent⟩
  · rename_i hfew
    exact Backed.kept ⟨hb.transfer, hb.block, hb.retransmitlen,
      Nat.succ_le_succ (Nat.not_lt.mp hfew), hb.sent⟩

/-- What a transfer with a local backup takes for granted: there is more than one
block, and the number of blocks is that of `ttp_open_transfer`. -/
structure Recording (c : Config) : Prop where
  fileout : c.fileout
  blockSize : 1 ≤ c.blockSize
  several : 2 ≤ c.blockCount
  fits : c.blockCount < 2 ^ 32 - 1
  fileSize : 0 < c.fileSize
  blockCount : c.blockCount = wholeCount c.fileSize c.blockSize

theorem Backed.request (hc : Recording c) (hb : Backed c device h) (hi : i.fwrite = .whole)
    (hr : Modest c h.transfer (Retransmission.decode buffer)) :
    Kept c device ({ h with
      retransmission := buffer, retransmitlen := n }.request c device i) := by
  simp only [Handler.request]
  split
  · refine ⟨nofun, ?_, ?_, nofun, nofun⟩
    · rintro t ⟨⟩
      exact hb.transfer
    · rintro t ⟨⟩
      exact hb.sent
  · obtain ⟨htransfer, hblock, hsent⟩ :=
      hb.transfer.accept hc.blockSize hc.fits hc.fileout hi hr
    refine Backed.heartbeat ?_ hc.fileout nofun
    refine ⟨htransfer, ?_, Nat.zero_lt_succ 11, Nat.zero_le _, ?_⟩
    · rcases hblock with hle | heq
      · exact hle
      · exact Nat.le_trans (Nat.le_of_eq heq) hb.block
    · intro d hd
      exact (List.mem_append.mp hd).elim (hb.sent d) (hsent d)

def nextBuild (c : Config) (x : Transfer) (i : Input) : Build :=
  let block := min (u32 (x.block + 1)) c.blockCount
  ⟨block, if block = c.blockCount then tsBlockTerminate else tsBlockOriginal, i.fwrite⟩

def Handler.blasted (c : Config) (device : Nat → UInt8) (h : Handler) (i : Input) : Handler :=
  let b := nextBuild c h.transfer i
  { h with transfer := { h.transfer with
    block := b.index
    sender := (buildDatagram c.toParameter device h.transfer.sender b).1 } }

theorem transmit_eq (c : Config) (device : Nat → UInt8) (h : Handler) (i : Input) :
    h.transmit c device i =
      if (buildDatagram c.toParameter device h.transfer.sender (nextBuild c h.transfer i)).2 then
        if i.sendOk then { h.blasted c device i with
            sent := h.sent ++ [(h.blasted c device i).transfer.sender.packet c.toParameter]
          }.heartbeat c (nextBuild c h.transfer i).type i
        else .running (h.blasted c device i)
      else .fatal := rfl

theorem transmit_whole (c : Config) (device : Nat → UInt8) (h : Handler) (hi : i.fwrite = .whole) :
    h.transmit c device i = if i.sendOk then { h.blasted c device i with
        sent := h.sent ++ [(h.blasted c device i).transfer.sender.packet c.toParameter]
      }.heartbeat c (nextBuild c h.transfer i).type i
      else .running (h.blasted c device i) :=
  if_pos
    (buildDatagram_ok c.toParameter device h.transfer.sender (b := nextBuild c h.transfer i) hi)

theorem nextBuild_terminate (ht : (nextBuild c x i).type = tsBlockTerminate) :
    (nextBuild c x i).index = c.blockCount := by
  by_contra hne
  simp only [nextBuild] at ht hne
  rw [if_neg hne] at ht
  cases ht

theorem Backed.transmit (hc : Recording c) (hb : Backed c device h) (hi : i.fwrite = .whole) :
    Kept c device (h.transmit c device i) := by
  obtain ⟨htransfer, hcarries⟩ := hb.transfer.next hc.blockSize hc.several hc.fits hb.block
    (b := nextBuild c h.transfer i) hi rfl
  rw [transmit_whole c device h hi]
  split
  · refine Backed.heartbeat ?_ hc.fileout nextBuild_terminate
    refine ⟨htransfer, Nat.min_le_right .., hb.retransmitlen, hb.counter, ?_⟩
    intro d hd
    rcases List.mem_append.mp hd with hd | hd
    · exact hb.sent d hd
    · rw [List.mem_singleton.mp hd]
      exact hcarries
  · exact Backed.kept
      ⟨htransfer, Nat.min_le_right .., hb.retransmitlen, hb.counter, hb.sent⟩

theorem Backed.iteration (hc : Recording c) (hb : Backed c device h) (hu : Undisturbed c h i) :
    Kept c device (h.iteration c device i) := by
  have hgo : Kept c device (Handler.iteration.go c device i (h.fill i.read)) := by
    have hfits := hu.fits
    rw [Handler.iteration.go]
    split
    · rename_i hfull
      have hmodest := hu.modest hfull
      cases hread : i.read with
      | data bytes =>
        rw [hread] at hmodest
        exact hb.request hc hu.stored hmodest
      | nothing errno =>
        rw [hread] at hmodest
        exact hb.request hc hu.stored hmodest
    · rename_i hpart
      have hlt : (h.fill i.read).retransmitlen < sizeofRetransmission := by omega
      rw [if_pos hlt]
      cases hread : i.read with
      | data bytes =>
        rw [hread] at hlt
        exact Backed.transmit hc ⟨hb.transfer, hb.block, hlt, hb.counter, hb.sent⟩ hu.stored
      | nothing errno => exact hb.transmit hc hu.stored
  rw [Handler.iteration, if_pos hb.block]
  cases hread : i.read with
  | data bytes =>
    rw [hread] at hgo
    exact hgo
  | nothing errno =>
    rw [hread] at hgo
    have hsurvives : ¬(errno ≠ eagain ∧ ¬c.fileout = true) := fun h => h.2 hc.fileout
    simp only [if_neg hsurvives]
    exact hgo

theorem reachable_backed (hc : Recording c)
    (hr : (transferLoop c device).ReachableBy (Undisturbed c) h) : Backed c device h := by
  refine hr.invariant ?_ ?_
  · rintro h ⟨ipd, lastBlock, lastWritten, datagram, retransmission, start, hd, rfl⟩
    exact ⟨.fresh rfl rfl rfl hd, Nat.zero_le _, Nat.zero_lt_succ 11, Nat.zero_le _, nofun⟩
  · intro h i h' _ hb hu hs
    exact (hb.iteration hc hu).running h' (transferLoop_step hs)

theorem InHand.file (hx : InHand c device x) (hout : c.fileout) :
    ∃ m, x.block ≤ m ∧ x.sender.file = backup c.toParameter device m ∧
      (m ≤ c.blockCount ∨ x.block = 0) := by
  cases hx with
  | fresh h₀ hpos hfile hd => exact ⟨0, by omega, hfile, .inr h₀⟩
  | going m h₁ hm hstep => exact ⟨m, hm, (hstep.written hout).2, .inl hstep.le⟩

theorem Kept.whole (hk : Kept c device o) (hc : Recording c) (ho : o = .timedOut t) :
    t.transfer.sender.file = deviceBytes device 0 c.fileSize := by
  have hlast := hk.timedOut t ho
  obtain ⟨m, hm, hfile, hle⟩ := (hk.transfer t (by rw [ho]; rfl)).file hc.fileout
  have hm' : m = c.blockCount := by
    have := hc.several
    omega
  rw [hfile, hm', backup_whole hc.blockSize hc.fileSize hc.blockCount]

/-- In every turn of a transfer that is recorded, the server goes on or leaves in
order, every datagram it has sent carries its block, and the backup holds the
blocks of the recording up to the one built last. Where a silent client is given
up, the backup is the whole recording. -/
theorem backup_keeps_up (hc : Recording c)
    (hr : (transferLoop c device).ReachableBy (Undisturbed c) h) (hu : Undisturbed c h i) :
    ∃ t, (h.iteration c device i).handler = some t ∧
      (∀ d ∈ t.sent, Carries c.toParameter device d) ∧
      (∃ m, t.transfer.block ≤ m ∧ t.transfer.sender.file = backup c.toParameter device m) ∧
      (h.iteration c device i = .timedOut t →
        t.transfer.sender.file = deviceBytes device 0 c.fileSize) := by
  have hkept := (reachable_backed hc hr).iteration hc hu
  generalize h.iteration c device i = o at hkept
  obtain ⟨t, ht⟩ : ∃ t, o.handler = some t := by
    cases o with
    | fatal => exact absurd rfl hkept.goes
    | running t | stopped t | timedOut t => exact ⟨t, rfl⟩
  obtain ⟨m, hm, hfile, hle⟩ := (hkept.transfer t ht).file hc.fileout
  exact ⟨t, ht, hkept.sent t ht, ⟨m, hm, hfile⟩, hkept.whole hc⟩

def fiveBytesRecorded : Config where
  toParameter := fiveBytes
  errorRate := 7500
  slowerNum := 25
  slowerDen := 24
  fasterNum := 5
  fasterDen := 6
  ipdTime := 200
  hbTimeout := 15
  bigEndian := false

theorem fiveBytesRecorded_recording : Recording fiveBytesRecorded :=
  ⟨rfl, by decide, by decide, by decide, by decide, by decide⟩

def justCreated : Handler :=
  .create 600 7 7 (List.replicate 8 0) (List.replicate 12 0) 0

def quiet : Input := ⟨⟨0, .nothing eagain, true, 0, 0, 0⟩, .whole⟩

/-- Two blocks, then the client asks for the second again. -/
theorem backup_keeps_up_two_again :
    ∃ t : Handler, (∀ d ∈ t.sent, Carries fiveBytes counting d) ∧
      (∃ m, t.transfer.block ≤ m ∧ t.transfer.sender.file = backup fiveBytes counting m) := by
  let again : Input := ⟨⟨0, .data (Retransmission.encode ⟨requestRetransmit, 2, 0⟩), true, 0, 0, 0⟩,
    .whole⟩
  have hrun : (((transferLoop fiveBytesRecorded counting).checkedRun
      (Undisturbed fiveBytesRecorded) justCreated [quiet, quiet]).map fun h =>
        decide (Undisturbed fiveBytesRecorded h again)) = some true := by decide +kernel
  obtain ⟨h, hpath, hdec⟩ := Option.map_eq_some_iff.mp hrun
  have hinit : (transferLoop fiveBytesRecorded counting).init justCreated :=
    ⟨_, _, _, _, _, _, by decide, rfl⟩
  have hr := (System.ReachableBy.init hinit).path (.checkedRun hpath)
  obtain ⟨t, -, hsent, hfile, -⟩ :=
    backup_keeps_up fiveBytesRecorded_recording hr (of_decide_eq_true hdec)
  exact ⟨t, hsent, hfile⟩

-- ---------------------------------------------------------------------------
-- A client that has gone
-- ---------------------------------------------------------------------------

/-- Nothing arrives, be it that the connection has failed. -/
structure Silent (i : Input) : Prop where
  read : ∃ errno, i.read = .nothing errno
  stored : i.fwrite = .whole

theorem Silent.undisturbed (hi : Silent i) (hb : Backed c device h) : Undisturbed c h i := by
  obtain ⟨errno, hread⟩ := hi.read
  have hpart := hb.retransmitlen
  refine ⟨?_, hi.stored, ?_⟩
  · rw [hread]
    exact Nat.le_of_lt hpart
  · rw [hread]
    intro hfull
    exact absurd hfull (Nat.ne_of_lt hpart)

theorem silent_iteration (hc : Recording c) (hb : Backed c device h) (hi : Silent i) :
    h.iteration c device i = h.transmit c device i := by
  obtain ⟨errno, hread⟩ := hi.read
  have hpart := hb.retransmitlen
  have hsurvives : ¬(errno ≠ eagain ∧ ¬c.fileout = true) := fun h => h.2 hc.fileout
  rw [Handler.iteration, if_pos hb.block]
  simp only [hread, if_neg hsurvives, Handler.iteration.go]
  rw [if_neg (Nat.ne_of_lt hpart), if_pos hpart]

structure Since (h : Handler) (u : Nat) : Prop where
  feedback : h.lastfeedback ≤ u
  report : h.lasthblostreport ≤ u

theorem heartbeat_since (hs : Since h u) (hnow : i.now ≤ u) (hreport : i.reportAt ≤ u)
    (hout : c.fileout) :
    (∃ t, h.heartbeat c type i = .timedOut t) ∨
    ∃ h', h.heartbeat c type i = .running h' ∧ h'.transfer = h.transfer ∧ Since h' u := by
  simp only [Handler.heartbeat, hout, not_true_eq_false, if_false]
  split
  · split
    · exact .inr ⟨_, rfl, rfl, hs.feedback, hs.report⟩
    · split
      · split
        · exact .inl ⟨_, rfl⟩
        · exact .inr ⟨_, rfl, rfl, hnow, hreport⟩
      · exact .inr ⟨_, rfl, rfl, hs.feedback, hreport⟩
  · exact .inr ⟨_, rfl, rfl, hs.feedback, hs.report⟩

theorem silent_turn (hc : Recording c) (hb : Backed c device h) (hi : Silent i) (hs : Since h u)
    (hnow : i.now ≤ u) (hreport : i.reportAt ≤ u) :
    (∃ t, h.iteration c device i = .timedOut t) ∨
    ∃ h', h.iteration c device i = .running h' ∧ Since h' u ∧
      h'.transfer.block = min (h.transfer.block + 1) c.blockCount := by
  have hnext : (nextBuild c h.transfer i).index = min (h.transfer.block + 1) c.blockCount := by
    have hblock := hb.block
    have hfits := hc.fits
    simp only [nextBuild, u32]
    omega
  rw [silent_iteration hc hb hi, transmit_whole c device h hi.stored]
  split
  · rcases heartbeat_since (h := { h.blasted c device i with sent := _ })
      ⟨hs.feedback, hs.report⟩ hnow hreport hc.fileout with htime | ⟨h', ho, htransfer, hs'⟩
    · exact .inl htime
    · refine .inr ⟨h', ho, hs', ?_⟩
      rw [htransfer]
      exact hnext
  · exact .inr ⟨_, rfl, ⟨hs.feedback, hs.report⟩, hnext⟩

theorem serve_cons (h : Handler) (i : Input) (is : List Input) : h.serve c device (i :: is) =
    match h.iteration c device i with
    | .running h' => h'.serve c device is
    | o => o := rfl

theorem silent_serve (hc : Recording c) (hb : Backed c device h) (hs : Since h u)
    (hi : ∀ i ∈ is, Silent i ∧ i.now ≤ u ∧ i.reportAt ≤ u) (js : List Input) :
    (∃ t, h.serve c device (is ++ js) = .timedOut t ∧
      t.transfer.sender.file = deviceBytes device 0 c.fileSize) ∨
    ∃ h', h.serve c device (is ++ js) = h'.serve c device js ∧ Backed c device h' ∧ Since h' u ∧
      min (h.transfer.block + is.length) c.blockCount ≤ h'.transfer.block := by
  induction is generalizing h with
  | nil => exact .inr ⟨h, rfl, hb, hs, Nat.min_le_left ..⟩
  | cons i is ih =>
    obtain ⟨hsilent, hnow, hreport⟩ := hi i (List.mem_cons_self ..)
    have hkept := hb.iteration hc (hsilent.undisturbed hb)
    rw [List.cons_append, serve_cons]
    rcases silent_turn hc hb hsilent hs hnow hreport with ⟨t, ho⟩ | ⟨h₁, ho, hs₁, hblock⟩
    · rw [ho] at hkept ⊢
      exact .inl ⟨t, rfl, hkept.whole hc rfl⟩
    · rw [ho] at hkept ⊢
      have hrest := ih (hkept.running h₁ rfl) hs₁ fun i hi' => hi i (List.mem_cons_of_mem _ hi')
      rcases hrest with ⟨t, ht, hwhole⟩ | ⟨h', ho', hb', hs', hle⟩
      · exact .inl ⟨t, ht, hwhole⟩
      · refine .inr ⟨h', ho', hb', hs', ?_⟩
        rw [List.length_cons]
        omega

/-- A turn more than the timeout, and half a second, after the time `u`. -/
structure Late (c : Config) (u : Nat) (i : Input) : Prop extends Silent i where
  check : u + 500000 ≤ i.checkAt ∧ i.checkAt < 2 ^ 64
  timeout : u + 1000000 * c.hbTimeout < i.timeoutAt ∧ i.timeoutAt < 2 ^ 64

/-- At the last block, the first look at the heartbeat is the last. -/
theorem late_turn (hc : Recording c) (hb : Backed c device h)
    (hlast : h.transfer.block = c.blockCount) (hs : Since h u) (hi : Late c u i) :
    if i.sendOk = true ∧ 2048 < h.deadconnectionCounter then
      ∃ t, h.iteration c device i = .timedOut t
    else ∃ h', h.iteration c device i = .running h' ∧ h'.transfer.block = c.blockCount ∧
      Since h' u ∧
      h'.deadconnectionCounter = h.deadconnectionCounter + (if i.sendOk then 1 else 0) := by
  have hindex : (nextBuild c h.transfer i).index = c.blockCount := by
    have hfits := hc.fits
    simp only [nextBuild, hlast, u32]
    omega
  have htype : (nextBuild c h.transfer i).type = tsBlockTerminate := if_pos hindex
  have hcheck : ¬getUsecSince h.lasthblostreport i.checkAt < 500000 := by
    have := hs.report
    have := hi.check
    rw [getUsecSince_later (by omega) hi.check.2]
    omega
  have htimeout : getUsecSince h.lastfeedback i.timeoutAt > 1000000 * c.hbTimeout := by
    have := hs.feedback
    have := hi.timeout
    rw [getUsecSince_later (by omega) hi.timeout.2]
    omega
  rw [silent_iteration hc hb hi.toSilent, transmit_whole c device h hi.stored, htype]
  cases hsend : i.sendOk with
  | false => exact ⟨_, rfl, hindex, ⟨hs.feedback, hs.report⟩, rfl⟩
  | true =>
    have hcounter : (h.blasted c device i).deadconnectionCounter = h.deadconnectionCounter := rfl
    have hreport : (h.blasted c device i).lasthblostreport = h.lasthblostreport := rfl
    have hfeedback : (h.blasted c device i).lastfeedback = h.lastfeedback := rfl
    simp only [if_true, true_and, Handler.heartbeat, hc.fileout, and_self, hcounter, hreport,
      hfeedback, if_neg hcheck, if_pos htimeout]
    split
    · exact ⟨_, rfl⟩
    · exact ⟨_, rfl, hindex, ⟨hs.feedback, hs.report⟩, rfl⟩

theorem late_serve (hc : Recording c) (hb : Backed c device h)
    (hlast : h.transfer.block = c.blockCount) (hs : Since h u) (hi : ∀ i ∈ is, Late c u i)
    (hsends : 2050 ≤ h.deadconnectionCounter + is.countP (·.sendOk)) :
    ∃ t, h.serve c device is = .timedOut t ∧
      t.transfer.sender.file = deviceBytes device 0 c.fileSize := by
  induction is generalizing h with
  | nil =>
    have hcounter := hb.counter
    rw [List.countP_nil] at hsends
    omega
  | cons i is ih =>
    have hlate := hi i (List.mem_cons_self ..)
    have hkept := hb.iteration hc (hlate.undisturbed hb)
    have hturn := late_turn hc hb hlast hs hlate
    rw [serve_cons]
    split at hturn
    · obtain ⟨t, ho⟩ := hturn
      rw [ho] at hkept ⊢
      exact ⟨t, rfl, hkept.whole hc rfl⟩
    · obtain ⟨h₁, ho, hlast₁, hs₁, hcounter⟩ := hturn
      rw [ho] at hkept ⊢
      refine ih (hkept.running h₁ rfl) hlast₁ hs₁
        (fun i hi' => hi i (List.mem_cons_of_mem _ hi')) ?_
      rw [hcounter]
      rw [List.countP_cons] at hsends
      omega

/-- A client that falls silent at any time, its connection closed or not, does
not cost the recording: the loop goes on to the last block, is left once the
timeout has passed there, and the backup is the whole recording. -/
theorem backup_outlives_client (hc : Recording c)
    (hr : (transferLoop c device).ReachableBy (Undisturbed c) h) (hs : Since h u)
    (hfirst : ∀ i ∈ is, Silent i ∧ i.now ≤ u ∧ i.reportAt ≤ u)
    (hlong : c.blockCount ≤ h.transfer.block + is.length) (hlater : ∀ j ∈ js, Late c u j)
    (hsends : 2050 ≤ js.countP (·.sendOk)) :
    ∃ t, h.serve c device (is ++ js) = .timedOut t ∧
      t.transfer.sender.file = deviceBytes device 0 c.fileSize := by
  rcases silent_serve hc (reachable_backed hc hr) hs hfirst js with
    hgiven | ⟨h', ho, hb, hs', hle⟩
  · exact hgiven
  · have hlast : h'.transfer.block = c.blockCount := by
      have := hb.block
      omega
    rw [ho]
    exact late_serve hc hb hlast hs' hlater (Nat.le_trans hsends (Nat.le_add_left ..))

/-- The client never writes anything, and closes the connection. -/
theorem backup_outlives_client_at_once :
    ∃ t, justCreated.serve fiveBytesRecorded counting
        (List.replicate 3 quiet ++
          List.replicate 2050 ⟨⟨20000000, .nothing 0, true, 20000000, 20000000, 20000000⟩, .whole⟩) =
        .timedOut t ∧
      t.transfer.sender.file = deviceBytes counting 0 5 := by
  refine backup_outlives_client fiveBytesRecorded_recording
    (.init ⟨_, _, _, _, _, _, by decide, rfl⟩) (u := 0) ⟨Nat.le_refl 0, Nat.le_refl 0⟩ ?_
    (by decide) ?_ ?_
  · intro i hi
    rw [List.eq_of_mem_replicate hi]
    exact ⟨⟨⟨_, rfl⟩, rfl⟩, Nat.le_refl 0, Nat.le_refl 0⟩
  · intro j hj
    rw [List.eq_of_mem_replicate hj]
    exact ⟨⟨⟨_, rfl⟩, rfl⟩, by decide, by decide⟩
  · rw [List.countP_replicate, if_pos rfl]

end Tsunami.Realtime
