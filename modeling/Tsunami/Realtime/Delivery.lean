import Tsunami.FileTransfer
import Tsunami.Realtime.Framing

/-!
# A recording is delivered

The client of the file server and the realtime server together: what the client
has on its disk at the end is the recording, unless block 1 is asked for again.
-/

namespace Tsunami.Realtime

open Bytes Pieces Transition
open Server (stream length_stream)

-- ---------------------------------------------------------------------------
-- The two ends
-- ---------------------------------------------------------------------------

structure Ends where
  server : Config
  device : Nat → UInt8
  client : Client.Config

structure Delivery where
  client : Client.CommandGet
  server : Serving

namespace Delivery

inductive Event
  | client (e : Client.Event)
  | server (i : Input)

def step (a : Ends) (s : Delivery) : Event → Option Delivery
  | .client e =>
    if FileTransfer.FromServer s.server.handler.sent e then
      (s.client.step a.client e).map fun c => { s with client := c }
    else none
  | .server i =>
    (s.server.step a.server a.device (stream s.client.sent) i).map fun v => { s with server := v }

end Delivery

def delivery (a : Ends) : System Delivery Delivery.Event where
  init s := ∃ slots ipd lastBlock lastWritten datagram retransmission start,
    6 ≤ datagram.length ∧ retransmission.length = sizeofRetransmission ∧
    s = ⟨.create a.client slots,
      ⟨.create ipd lastBlock lastWritten datagram retransmission start, 0, true⟩⟩
  step := Delivery.step a

/-- What is sent to the client arrives or does not, its disk and that of the
server take everything, and the server is not asked for block 1 again. -/
def Favours (s : Delivery) : Delivery.Event → Prop
  | .client e => e.Fed fun _ => True
  | .server i => i.fwrite = .whole ∧
      ∀ r ∈ s.client.sent, r.requestType = requestRetransmit → r.block ≠ 1

instance (s : Delivery) (e : Delivery.Event) : Decidable (Favours s e) :=
  match e with
  | .client e => inferInstanceAs (Decidable (e.Fed fun _ => True))
  | .server i => inferInstanceAs (Decidable (i.fwrite = .whole ∧
      ∀ r ∈ s.client.sent, r.requestType = requestRetransmit → r.block ≠ 1))

structure Agreement (a : Ends) (l : Layout) : Prop where
  file : l.file = deviceBytes a.device 0 a.server.fileSize
  blockSize : a.server.blockSize = l.blockSize
  blockCount : a.server.blockCount = l.blockCount
  fetches : a.client.For l
  lossless : a.client.param.lossless = true
  several : 2 ≤ l.blockCount
  fits : l.blockCount < 2 ^ 32 - 1

variable {a : Ends} {l : Layout} {c : Config} {device : Nat → UInt8} {x : Transfer} {i : Input}
  {s t : Serving} {records : List Retransmission} {h' : Handler}

-- ---------------------------------------------------------------------------
-- The blocks on the wire
-- ---------------------------------------------------------------------------

theorem drop_deviceBytes (device : Nat → UInt8) (hm : m ≤ size) :
    (deviceBytes device offset size).drop m = deviceBytes device (offset + m) (size - m) := by
  obtain ⟨n, rfl⟩ : ∃ n, size = m + n := ⟨size - m, by omega⟩
  rw [← deviceBytes_append, List.drop_left' (length_deviceBytes ..), Nat.add_sub_cancel_left]

theorem Agreement.carries (ha : Agreement a l) (hd : Carries a.server.toParameter a.device d) :
    Tsunami.Carries l d := by
  obtain ⟨b, type, h₁, hle, rfl⟩ := hd
  have hle' : b ≤ l.blockCount := ha.blockCount ▸ hle
  have hfits := ha.fits
  have hnumber : blockNumber (header b type ++ deviceBytes a.device (a.server.blockSize * (b - 1))
      a.server.blockSize) = b := blockNumber_header (by omega)
  refine ⟨?_, by rw [hnumber]; exact h₁, by rw [hnumber]; exact hle', ?_⟩
  · rw [List.length_append, length_header, length_deviceBytes, ha.blockSize]
  · have hoff := Nat.le_of_lt (Layout.offset_lt hle')
    have hlen : l.file.length = a.server.fileSize := by rw [ha.file, length_deviceBytes]
    rw [hnumber, List.drop_left' (length_header ..), Layout.block, ha.file,
      drop_deviceBytes a.device (hlen ▸ hoff), Nat.zero_add, ha.blockSize]
    rcases Nat.le_total l.blockSize (a.server.fileSize - l.offset b) with hwhole | hshort
    · rw [take_deviceBytes hwhole]
      exact List.prefix_refl _
    · rw [List.take_of_length_le (by rw [length_deviceBytes]; exact hshort),
        ← take_deviceBytes hshort]
      exact List.take_prefix ..

inductive Sought (x : Transfer) : Prop
  | fresh : x.block = 0 → x.sender.position = 0 → 6 ≤ x.sender.datagram.length → Sought x
  | going : 1 ≤ x.block → x.sender.lastBlock = 0 → 6 ≤ x.sender.datagram.length → Sought x

variable (device) in
theorem sought_build {s : Sender} {b : Build} (hp : 1 ≤ c.blockSize)
    (hn : c.blockCount < 2 ^ 32 - 1) (hlast : s.lastBlock = 0) (hd : 6 ≤ s.datagram.length)
    (htwo : 2 ≤ b.index) (hle : b.index ≤ c.blockCount) (hw : b.fwrite = .whole) :
    (buildDatagram c.toParameter device s b).1.lastBlock = 0 ∧
      6 ≤ (buildDatagram c.toParameter device s b).1.datagram.length ∧
      Carries c.toParameter device
        ((buildDatagram c.toParameter device s b).1.packet c.toParameter) := by
  have hbuilt := buildDatagram_built device hp hd hw
  have hreset : s.reset b.index = s := if_neg (by omega)
  exact ⟨hbuilt.lastBlock.trans (by rw [hreset, hlast]), hbuilt.datagram, packet_carries hw hd
    (by omega) hle (readAt_later hlast (by omega) (by omega) (by omega))⟩

variable (device) in
theorem Sought.next {b : Build} (hx : Sought x) (hp : 1 ≤ c.blockSize) (hc : 2 ≤ c.blockCount)
    (hn : c.blockCount < 2 ^ 32 - 1) (hle : x.block ≤ c.blockCount) (hw : b.fwrite = .whole)
    (hb : b.index = min (u32 (x.block + 1)) c.blockCount) :
    1 ≤ b.index ∧ Sought { x with
        block := b.index
        sender := (buildDatagram c.toParameter device x.sender b).1 } ∧
      Carries c.toParameter device
        ((buildDatagram c.toParameter device x.sender b).1.packet c.toParameter) := by
  rw [u32] at hb
  cases hx with
  | fresh h₀ hpos hd =>
    have hfirst : b.index = 1 := by omega
    have hbuilt := buildDatagram_built device hp hd hw
    have hread : readAt c.toParameter x.sender b.index = c.blockSize * (b.index - 1) := by
      rw [readAt, if_pos hfirst, hpos, hfirst]
      rfl
    refine ⟨by omega, .going (by rw [hfirst]) ?_ hbuilt.datagram,
      packet_carries hw hd (by omega) (by omega) hread⟩
    rw [hbuilt.lastBlock, Sender.reset, if_pos hfirst]
  | going h₁ hlast hd =>
    have htwo : 2 ≤ b.index := by omega
    obtain ⟨hlast', hd', hcarries⟩ :=
      sought_build device hp hn hlast hd htwo (by omega) hw
    have hone : 1 ≤ b.index := by omega
    exact ⟨hone, .going hone hlast' hd', hcarries⟩

variable (device) in
theorem Sought.accept (hx : Sought x) (hstarted : 1 ≤ x.block) (hp : 1 ≤ c.blockSize)
    (hn : c.blockCount < 2 ^ 32 - 1) (hi : i.fwrite = .whole)
    (hr : (Retransmission.decode buffer).requestType = requestRetransmit →
      2 ≤ (Retransmission.decode buffer).block ∧
        (Retransmission.decode buffer).block ≤ c.blockCount) :
    1 ≤ (ttpAcceptRetransmit c device i x buffer).transfer.block ∧
      Sought (ttpAcceptRetransmit c device i x buffer).transfer ∧
      ∀ d ∈ (ttpAcceptRetransmit c device i x buffer).sent, Carries c.toParameter device d := by
  cases hx with
  | fresh h₀ => omega
  | going h₁ hlast hd =>
    simp only [ttpAcceptRetransmit]
    split
    · exact ⟨h₁, .going h₁ hlast hd, List.forall_mem_nil _⟩
    · split
      · split
        · exact ⟨h₁, .going h₁ hlast hd, List.forall_mem_nil _⟩
        · rename_i hrange
          rw [not_or] at hrange
          have hpos := Nat.pos_of_ne_zero hrange.1
          exact ⟨hpos, .going hpos hlast hd, List.forall_mem_nil _⟩
      · split
        · rename_i hretransmit
          obtain ⟨htwo, hle⟩ := hr hretransmit
          let b : Build := ⟨(Retransmission.decode buffer).block, tsBlockRetransmission, i.fwrite⟩
          obtain ⟨hlast', hd', hcarries⟩ :=
            sought_build device hp hn hlast hd (b := b) htwo hle hi
          split
          · refine ⟨h₁, .going h₁ hlast' hd', ?_⟩
            intro d hmem
            rw [List.mem_singleton.mp hmem]
            exact hcarries
          · exact ⟨h₁, .going h₁ hlast' hd', List.forall_mem_nil _⟩
        · exact ⟨h₁, .going h₁ hlast hd, List.forall_mem_nil _⟩

-- ---------------------------------------------------------------------------
-- The server of a recording
-- ---------------------------------------------------------------------------

/-- The invariant of the server: only blocks of the recording have been sent, and
none before the first. -/
structure Honest (c : Config) (device : Nat → UInt8) (records : List Retransmission)
    (s : Serving) : Prop where
  framed : Framed c records s
  sought : Sought s.handler.transfer
  sent : ∀ d ∈ s.handler.sent, Carries c.toParameter device d
  silent : s.handler.transfer.block = 0 → s.handler.sent = []

theorem turned_honest (ha : Agreement a l) (hs : Honest a.server a.device records s)
    (hrun : s.running = true) (hv : i.Valid s.handler)
    (hf : i.read.Follows (stream records) s.consumed) (hi : i.fwrite = .whole)
    (hquiet : s.handler.sent = [] → records = [])
    (hsound : ∀ r ∈ records, r.Sound l.blockCount)
    (hone : ∀ r ∈ records, r.requestType = requestRetransmit → r.block ≠ 1)
    (ho : (s.handler.iteration a.server a.device i).handler = some h')
    (hgoes : running = true → s.handler.iteration a.server a.device i = .running h') :
    Honest a.server a.device records ⟨h', s.consumed + i.read.size, running⟩ := by
  have hp : 1 ≤ a.server.blockSize := ha.blockSize ▸ l.pos
  have hn : a.server.blockCount < 2 ^ 32 - 1 := ha.blockCount ▸ ha.fits
  have hc : 2 ≤ a.server.blockCount := ha.blockCount ▸ ha.several
  obtain ⟨hb, hl, -, -⟩ := hs.framed.running hrun
  have hframed := turn_framed (fun r hr => (hsound r hr).fits) hs.framed hrun hv hf running ho hgoes
  have hturn := turn_turned hb hv (Nat.le_of_lt hl) ho
  cases hturn with
  | stopped _ _ _ hx hsent =>
    refine ⟨hframed, ?_, ?_, ?_⟩
    · rw [hx]
      exact hs.sought
    · rw [hsent]
      exact hs.sent
    · rw [hx, hsent]
      exact hs.silent
  | served hfull hacted _ _ hx hsent =>
    -- the record is one of the client's
    have hmem : Retransmission.decode (s.handler.fill i.read).retransmission ∈ records := by
      have htake := hframed.acted
      refine List.mem_of_mem_take (i := h'.acted.length) ?_
      rw [← htake, hacted]
      simp
    have hstarted : 1 ≤ s.handler.transfer.block := by
      by_contra hzero
      rw [hquiet (hs.silent (by omega))] at hmem
      cases hmem
    have hrecord := (hsound _ hmem).block
    obtain ⟨hpos, hsought, hcarries⟩ := hs.sought.accept a.device hstarted hp hn hi
      fun htype => by
        have hne := hone _ hmem htype
        have hrange := hrecord htype
        rw [ha.blockCount]
        omega
    refine ⟨hframed, ?_, ?_, ?_⟩
    · rw [hx]
      exact hsought
    · rw [hsent]
      exact List.forall_mem_append.mpr ⟨hs.sent, hcarries⟩
    · rw [hx]
      intro hzero
      omega
  | built _ _ _ _ hx hsent =>
    obtain ⟨hpos, hsought, hcarries⟩ := hs.sought.next a.device hp hc hn hb
      (b := nextBuild a.server s.handler.transfer i) hi rfl
    refine ⟨hframed, ?_, ?_, ?_⟩
    · rw [hx]
      exact hsought
    · rcases hsent with hsent | hsent
      · rw [hsent]
        exact hs.sent
      · rw [hsent]
        refine List.forall_mem_append.mpr ⟨hs.sent, fun d hd => ?_⟩
        rw [List.mem_singleton.mp hd]
        exact hcarries
    · rw [hx]
      intro hzero
      exact absurd hzero (Nat.ne_of_gt hpos)

theorem step_honest (ha : Agreement a l) (hs : Honest a.server a.device records s)
    (hi : i.fwrite = .whole) (hquiet : s.handler.sent = [] → records = [])
    (hsound : ∀ r ∈ records, r.Sound l.blockCount)
    (hone : ∀ r ∈ records, r.requestType = requestRetransmit → r.block ≠ 1)
    (hstep : s.step a.server a.device (stream records) i = some t) :
    Honest a.server a.device records t ∧ (t.handler.sent = [] → s.handler.sent = []) := by
  have hframed := step_framed (fun r hr => (hsound r hr).fits) hs.framed hstep
  simp only [Serving.step, Option.ite_none_right_eq_some] at hstep
  obtain ⟨⟨hrun, hv, hf⟩, hstep⟩ := hstep
  obtain ⟨hb, hl, -, -⟩ := hs.framed.running hrun
  have hgrows : ∀ h', (s.handler.iteration a.server a.device i).handler = some h' →
      h'.sent = [] → s.handler.sent = [] := by
    intro h' ho hnil
    cases turn_turned hb hv (Nat.le_of_lt hl) ho with
    | stopped _ _ _ _ hsent => rwa [hsent] at hnil
    | served _ _ _ _ _ hsent =>
      rw [hsent] at hnil
      exact (List.append_eq_nil_iff.mp hnil).1
    | built _ _ _ _ _ hsent =>
      rcases hsent with hsent | hsent
      · rwa [hsent] at hnil
      · rw [hsent] at hnil
        exact (List.append_eq_nil_iff.mp hnil).1
  split at hstep <;> cases hstep
  · rename_i h₁ ho
    have hsome : (s.handler.iteration a.server a.device i).handler = some h₁ := by rw [ho]; rfl
    exact ⟨turned_honest ha hs hrun hv hf hi hquiet hsound hone hsome fun _ => ho, hgrows h₁ hsome⟩
  · rename_i h₁ ho
    have hsome : (s.handler.iteration a.server a.device i).handler = some h₁ := by rw [ho]; rfl
    exact ⟨turned_honest ha hs hrun hv hf hi hquiet hsound hone hsome
      (absurd · Bool.false_ne_true), hgrows h₁ hsome⟩
  · rename_i h₁ ho
    have hsome : (s.handler.iteration a.server a.device i).handler = some h₁ := by rw [ho]; rfl
    exact ⟨turned_honest ha hs hrun hv hf hi hquiet hsound hone hsome
      (absurd · Bool.false_ne_true), hgrows h₁ hsome⟩
  · exact ⟨⟨hframed, hs.sought, hs.sent, hs.silent⟩, id⟩

-- ---------------------------------------------------------------------------
-- Both ends
-- ---------------------------------------------------------------------------

/-- The client is fed with blocks of the recording and has nothing to say before
the first. -/
structure Joint (a : Ends) (l : Layout) (s : Delivery) : Prop where
  client : (Client.commandGet a.client).ReachableBy (fun _ e => e.Fed (Tsunami.Carries l)) s.client
  talks : Client.Talks a.client s.client
  quiet : s.server.handler.sent = [] → s.client.sent = [] ∧ s.client.network = .receiving
  server : Honest a.server a.device s.client.sent s.server

theorem waits_quiet {s t : Client.CommandGet} {e : Client.Event} (hs : s.sent = [])
    (hnet : s.network = .receiving) (hfed : e.Fed fun _ => False) (h : s.step cfg e = some t) :
    t.sent = [] ∧ t.network = .receiving := by
  cases Client.step_cases h with
  | recv | recvFails => exact hfed.elim
  | peek | pop => exact ⟨hs, hnet⟩
  | accept =>
    simp only [Client.CommandGet.accept]
    split <;> exact ⟨hs, hnet⟩
  | look hnet' | reserve hnet' | wake hnet' | copy hnet' | confirm hnet' | confirmStop hnet'
  | control hnet' | requestStop hnet' | join hnet' | count hnet' | counted hnet' =>
    rw [hnet] at hnet'
    cases hnet'

theorem step_joint {s t : Delivery} {e : Delivery.Event} (ha : Agreement a l) (h : Joint a l s)
    (hw : Favours s e) (hs : s.step a e = some t) : Joint a l t := by
  have hcount := ha.fetches.blockCount
  have hfits := ha.fits
  cases e with
  | client e =>
    simp only [Delivery.step, Option.ite_none_right_eq_some, Option.map_eq_some_iff] at hs
    obtain ⟨hfrom, c, hc, rfl⟩ := hs
    have hfed : e.Fed (Tsunami.Carries l) := by
      cases e with
      | recv d => exact ha.carries (h.server.sent d hfrom)
      | _ => exact hw
    refine ⟨h.client.step hfed hc, Client.step_talks (by omega) h.talks hc, fun hnil => ?_,
      ⟨h.server.framed.grow (Client.step_sent hc), h.server.sought, h.server.sent,
        h.server.silent⟩⟩
    obtain ⟨hsent, hnet⟩ := h.quiet hnil
    have hnone : e.Fed fun _ => False := by
      cases e with
      | recv d =>
        rw [show s.server.handler.sent = [] from hnil] at hfrom
        cases hfrom
      | _ => exact hw
    exact waits_quiet hsent hnet hnone hc
  | server i =>
    simp only [Delivery.step, Option.map_eq_some_iff] at hs
    obtain ⟨v, hv, rfl⟩ := hs
    have hsound : ∀ r ∈ s.client.sent, r.Sound l.blockCount := hcount ▸ h.talks.sent
    obtain ⟨hhonest, hgrows⟩ := step_honest ha h.server hw.1 (fun hnil => (h.quiet hnil).1) hsound
      hw.2 hv
    exact ⟨h.client, h.talks, fun hnil => h.quiet (hgrows hnil), hhonest⟩

theorem delivery_joint {s : Delivery} (ha : Agreement a l)
    (h : (delivery a).ReachableBy Favours s) : Joint a l s := by
  refine h.invariant ?_ fun _ _ _ _ hi hw hs => step_joint ha hi hw hs
  rintro s ⟨slots, ipd, lastBlock, lastWritten, datagram, retransmission, start, hd, hr, rfl⟩
  refine ⟨.init ⟨slots, rfl⟩, Client.create_talks a.client slots, fun _ => ⟨rfl, rfl⟩,
    ⟨⟨rfl, (Nat.zero_div _).symm, Nat.zero_le _, fun _ => ⟨Nat.zero_le _, Nat.zero_lt_succ 11, rfl,
      .start hr⟩⟩, .fresh rfl rfl hd, List.forall_mem_nil _, fun _ => rfl⟩⟩

/-- Whatever is lost, repeated or reordered on the way: a recording whose block 1
is not asked for again has every block put into the ring of the client once, and
its local file is the recording once its disk thread has returned. -/
theorem recording_delivered {s : Delivery} (ha : Agreement a l)
    (h : (delivery a).ReachableBy Favours s) (hd : s.client.disk = .returned) :
    s.client.numbers.Perm (List.range' 1 a.server.blockCount) ∧
      s.client.file = deviceBytes a.device 0 a.server.fileSize := by
  have hjoint := delivery_joint ha h
  obtain ⟨hperm, -, hfile⟩ := Client.assembled ha.fetches ha.lossless hjoint.client hd
  exact ⟨ha.blockCount ▸ hperm, hfile.trans ha.file⟩

def fiveBytesFetched : Ends where
  server := fiveBytesRecorded
  device := counting
  client := ⟨⟨2, 650000000, 25, true, 1000⟩, 5, 3⟩

def threeBlocks : List Delivery.Event :=
  let block (b ty : Nat) : List Delivery.Event :=
    [.client (.recv (header b ty ++ deviceBytes counting (2 * (b - 1)) 2)),
      .client (.look Client.quietOracle), .client .reserve, .client .copy, .client .confirm,
      .client (.control Client.quietOracle), .client .peek, .client (.accept .ok), .client .pop]
  [.server quiet, .server quiet, .server quiet] ++ block 1 tsBlockOriginal ++
    block 2 tsBlockOriginal ++ block 3 tsBlockTerminate ++
    [.client (.requestStop .ok), .client .reserve, .client .copy, .client .confirm, .client .peek,
      .client (.accept .ok)]

theorem recording_delivered_three_blocks :
    ∃ s : Delivery, s.client.disk = .returned ∧ s.client.file = deviceBytes counting 0 5 := by
  let l : Layout :=
    ⟨deviceBytes counting 0 5, 2, by decide, by decide, by decide, by decide⟩
  have ha : Agreement fiveBytesFetched l :=
    ⟨rfl, rfl, by decide, ⟨rfl, by decide, by decide⟩, rfl, by decide, by decide⟩
  have hrun : (((delivery fiveBytesFetched).checkedRun Favours
      ⟨.create fiveBytesFetched.client fun _ => [], ⟨justCreated, 0, true⟩⟩ threeBlocks).map
        fun s => s.client.disk) = some .returned := by decide +kernel
  obtain ⟨s, hs, hd⟩ := Option.map_eq_some_iff.mp hrun
  have hinit : (delivery fiveBytesFetched).init
      ⟨.create fiveBytesFetched.client fun _ => [], ⟨justCreated, 0, true⟩⟩ :=
    ⟨_, _, _, _, _, _, _, by decide, by decide, rfl⟩
  exact ⟨s, hd, (recording_delivered ha
    ((System.ReachableBy.init hinit).path (.checkedRun hs)) hd).2⟩

end Tsunami.Realtime
