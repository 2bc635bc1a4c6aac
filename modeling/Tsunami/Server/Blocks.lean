import Tsunami.Blocks
import Tsunami.Server.Framing

/-!
# What the server sends

Every datagram carries a block of the file, whichever requests are read and
however they arrive in pieces: a loss report written over part of a record
makes it an error rate notification, which sends nothing. The number of blocks
must leave room for one more in 32 bits.
-/

namespace Tsunami.Server

open Bytes Transition

structure Config.For (cfg : Config) (l : Layout) : Prop where
  file : cfg.file = l.file
  blockSize : cfg.blockSize = l.blockSize
  blockCount : cfg.blockCount = l.blockCount

variable {cfg : Config} {l : Layout} {h h' : Handler} {s t : Serving} {i : Input} {q : Sender}
  {records : List Retransmission}

-- ---------------------------------------------------------------------------
-- build_datagram
-- ---------------------------------------------------------------------------

def seek (cfg : Config) (q : Sender) (b : Nat) : Nat :=
  if b ≠ u32 (q.lastBlock + 1) then cfg.blockSize * u32 (b + (2 ^ 32 - 1)) else q.position

theorem buildDatagram_eq (cfg : Config) (q : Sender) (b ty : Nat) :
    let data := (cfg.file.drop (seek cfg q b)).take cfg.blockSize
    buildDatagram cfg q b ty = { q with
      position := seek cfg q b + data.length
      datagram := blit (blit q.datagram 6 data) 0 (header b ty)
      lastBlock := b } := rfl

theorem packet_eq (hd : q.datagram.length = 6 + maxBlockSize) (hbs : cfg.blockSize ≤ maxBlockSize)
    (b ty : Nat) :
    (buildDatagram cfg q b ty).datagram.length = 6 + maxBlockSize ∧
      ∃ rest, (buildDatagram cfg q b ty).packet cfg = header b ty ++ rest ∧
      rest.length = cfg.blockSize ∧
        (cfg.file.drop (seek cfg q b)).take cfg.blockSize <+: rest := by
  rw [Sender.packet, buildDatagram_eq]
  generalize hdata : (cfg.file.drop (seek cfg q b)).take cfg.blockSize = data
  have hlen : data.length ≤ cfg.blockSize := by
    rw [← hdata]
    exact List.length_take_le ..
  have hinner : (blit q.datagram 6 data).length = 6 + maxBlockSize := by
    rw [length_blit (by omega), hd]
  have houter : blit (blit q.datagram 6 data) 0 (header b ty) =
      header b ty ++ (data ++ q.datagram.drop (6 + data.length)) := blit_datagram (by omega) b ty
  refine ⟨?_, (data ++ q.datagram.drop (6 + data.length)).take cfg.blockSize, ?_, ?_, ?_⟩
  · simp only
    rw [length_blit (by rw [hinner, length_header]; omega), hinner]
  · simp only [houter]
    rw [List.take_append, length_header, List.take_of_length_le (by rw [length_header]; omega)]
    congr 2
    omega
  · rw [List.length_take, List.length_append, List.length_drop, hd]
    omega
  · rw [List.take_append, List.take_of_length_le hlen]
    exact List.prefix_append ..

structure Positioned (l : Layout) (q : Sender) : Prop where
  lastBlock : q.lastBlock ≤ l.blockCount
  position : q.position = min (l.offset (q.lastBlock + 1)) l.file.length
  datagram : q.datagram.length = 6 + maxBlockSize

theorem seek_eq (hc : cfg.For l) (hq : Positioned l q)
    (hmax : l.blockCount < 2 ^ 32 - 1) (h₁ : 1 ≤ b) (hb : b ≤ l.blockCount) :
    seek cfg q b = l.offset b := by
  have hlast := hq.lastBlock
  have hback : u32 (b + (2 ^ 32 - 1)) = b - 1 := by
    simp only [u32]
    omega
  rw [seek, hc.blockSize]
  split
  · rw [hback, Layout.offset]
  · rename_i hnext
    have heq : b = q.lastBlock + 1 := by
      simp only [ne_eq, not_not, u32] at hnext
      omega
    rw [hq.position, ← heq, Nat.min_eq_left (Nat.le_of_lt (l.offset_lt hb))]

theorem buildDatagram_carries (hc : cfg.For l) (hq : Positioned l q)
    (hmax : l.blockCount < 2 ^ 32 - 1) (h₁ : 1 ≤ b) (hb : b ≤ l.blockCount) (ty : Nat) :
    Positioned l (buildDatagram cfg q b ty) ∧
    Carries l ((buildDatagram cfg q b ty).packet cfg) := by
  have hle : cfg.blockSize ≤ maxBlockSize := hc.blockSize ▸ l.le
  have hseek := seek_eq hc hq hmax h₁ hb
  obtain ⟨hlen, rest, hpacket, hrest, hdata⟩ := packet_eq hq.datagram hle b ty
  have hblock : (cfg.file.drop (seek cfg q b)).take cfg.blockSize = l.block b := by
    rw [hseek, hc.file, hc.blockSize]
    rfl
  have hlt := l.offset_lt hb
  refine ⟨⟨hb, ?_, hlen⟩, ?_⟩
  · have hoff := Layout.offset_succ (l := l) h₁
    have hposition : (buildDatagram cfg q b ty).position =
        seek cfg q b + ((cfg.file.drop (seek cfg q b)).take cfg.blockSize).length := rfl
    have hlast : (buildDatagram cfg q b ty).lastBlock = b := rfl
    rw [hposition, hblock, hseek, Layout.length_block, hlast, hoff]
    omega
  · have hnumber : blockNumber ((buildDatagram cfg q b ty).packet cfg) = b := by
      rw [hpacket, blockNumber_header (by omega)]
    refine ⟨?_, hnumber.symm ▸ h₁, hnumber.symm ▸ hb, ?_⟩
    · rw [hpacket, List.length_append, length_header, hrest, hc.blockSize]
    · rw [hnumber, ← hblock, hpacket, List.drop_left' (length_header b ty)]
      exact hdata

theorem Positioned.congr (hq : Positioned l q) (hlast : q'.lastBlock = q.lastBlock)
    (hpos : q'.position = q.position) (hdata : q'.datagram = q.datagram) : Positioned l q' :=
  ⟨hlast ▸ hq.lastBlock, by rw [hpos, hlast]; exact hq.position, hdata ▸ hq.datagram⟩

theorem ttpAcceptRetransmit_carries (hc : cfg.For l) (hq : Positioned l q)
    (hmax : l.blockCount < 2 ^ 32 - 1)
    (hr : (Retransmission.decode buffer).requestType = requestRetransmit →
      1 ≤ (Retransmission.decode buffer).block ∧
      (Retransmission.decode buffer).block ≤ l.blockCount)
    (ok : Bool) :
    Positioned l (ttpAcceptRetransmit cfg ok q buffer).sender ∧
      ∀ d ∈ (ttpAcceptRetransmit cfg ok q buffer).sent, Carries l d := by
  have hnone : ∀ d ∈ ([] : List (List UInt8)), Carries l d := fun d hd => absurd hd List.not_mem_nil
  have hretransmit : (Retransmission.decode buffer).requestType = requestRetransmit →
      Positioned l (buildDatagram cfg q (Retransmission.decode buffer).block tsBlockRetransmission) ∧
        Carries l ((buildDatagram cfg q (Retransmission.decode buffer).block
          tsBlockRetransmission).packet cfg) := by
    intro hty
    obtain ⟨h₁, hb⟩ := hr hty
    exact buildDatagram_carries hc hq hmax h₁ hb tsBlockRetransmission
  have hanswer := ttpAcceptRetransmit_answers cfg ok q buffer
  generalize ttpAcceptRetransmit cfg ok q buffer = a at hanswer ⊢
  obtain ⟨sender, record, sent, status⟩ := a
  cases hanswer with
  | errorRate => exact ⟨hq.congr rfl rfl rfl, hnone⟩
  | refused => exact ⟨hq, hnone⟩
  | restart => exact ⟨hq.congr rfl rfl rfl, hnone⟩
  | retransmit hty =>
    obtain ⟨hq', hd⟩ := hretransmit hty
    exact ⟨hq', fun d hmem => List.mem_singleton.mp hmem ▸ hd⟩
  | unsent hty => exact ⟨(hretransmit hty).1, hnone⟩
  | unknown => exact ⟨hq, hnone⟩

theorem blasted_carries (hc : cfg.For l) (hq : Positioned l h.sender)
    (hmax : l.blockCount < 2 ^ 32 - 1) (hb : h.sender.block ≤ l.blockCount) :
    Positioned l (h.blasted cfg).sender ∧ Carries l ((h.blasted cfg).sender.packet cfg) := by
  have hone := Layout.blockCount_pos (l := l)
  have hnext : 1 ≤ (nextBlock cfg h.sender).1 ∧ (nextBlock cfg h.sender).1 ≤ l.blockCount := by
    simp only [nextBlock, hc.blockCount, u32]
    omega
  have hq' : Positioned l { h.sender with block := (nextBlock cfg h.sender).1 } :=
    hq.congr rfl rfl rfl
  exact buildDatagram_carries hc hq' hmax hnext.1 hnext.2 _

-- ---------------------------------------------------------------------------
-- A record that is there in part
-- ---------------------------------------------------------------------------

/-- The first bytes of the next record, or those of a loss report. -/
structure Partial (records : List Retransmission) (k : Nat) (h : Handler) : Prop where
  length : h.retransmission.length = sizeofRetransmission
  bytes : Pending records k h ∨
    2 ≤ h.retransmitlen ∧ h.retransmission.take 2 = be16 requestErrorRate

theorem partial_start (hlen : h.retransmission.length = sizeofRetransmission)
    (h0 : h.retransmitlen = 0) :
    Partial records k h :=
  ⟨hlen, .inl ⟨hlen, by simp [h0]⟩⟩

theorem fill_partial (hp : Partial records k h) (hv : i.Valid h)
    (hf : i.read.Follows (stream records) (sizeofRetransmission * k + h.retransmitlen))
    (hl : h.retransmitlen < sizeofRetransmission) : Partial records k (h.fill i.read) := by
  rcases hp.bytes with hpend | ⟨h₂, hty⟩
  · have hfill := fill_pending hpend hv hf hl
    exact ⟨hfill.length, .inl hfill⟩
  · have hlen := hp.length
    cases hr : i.read with
    | nothing errno => exact hp
    | data bytes =>
      simp only [Input.Valid, hr] at hv
      refine ⟨?_, .inr ⟨?_, ?_⟩⟩
      · simp only [Handler.fill]
        rw [length_blit (by omega), hlen]
      · simp only [Handler.fill]
        omega
      · simp only [Handler.fill]
        rw [take_blit h₂ (by omega), hty]

theorem partial_whole (hp : Partial records k h) (hl : h.retransmitlen = sizeofRetransmission)
    (hsound : ∀ r ∈ records, r.Sound n) (hk : k < records.length)
    (hty : (Retransmission.decode h.retransmission).requestType = requestRetransmit) :
    1 ≤ (Retransmission.decode h.retransmission).block ∧
      (Retransmission.decode h.retransmission).block ≤ n := by
  rcases hp.bytes with hpend | ⟨-, hrate⟩
  · have hdec := pending_whole hpend hl (fun r hr => (hsound r hr).fits) hk
    rw [hdec] at hty ⊢
    exact (hsound _ (List.getElem_mem hk)).block hty
  · rw [Retransmission.decode, hrate, ofBe_be16] at hty
    have hne : requestErrorRate % 2 ^ 16 = requestRetransmit := hty
    exact absurd hne (by decide)

theorem first_byte (hp : Pending records k h) (hl : h.retransmitlen = 1)
    (hsound : ∀ r ∈ records, r.Sound n) :
    ((stream records).drop (sizeofRetransmission * k)).take 1 = [0] := by
  have hbytes := hp.bytes
  rw [hl] at hbytes
  have hlen := congrArg List.length hbytes
  rw [List.length_take, List.length_take, List.length_drop, hp.length, length_stream] at hlen
  simp only [sizeofRetransmission] at hlen
  have hk : k < records.length := by omega
  have hwhole := take_stream hk
  have htake :
      ((stream records).drop (sizeofRetransmission * k)).take 1 = records[k].encode.take 1 := by
    rw [← hwhole, List.take_take]
    rfl
  have hty := (hsound _ (List.getElem_mem hk)).type
  have hzero : records[k].requestType / 2 ^ 8 = 0 := Nat.div_eq_of_lt hty
  rw [htake, Retransmission.encode, be16, hzero]
  rfl

/-- The heartbeat check of a turn that sent a block: it keeps what is there, or
makes it a loss report. -/
theorem partial_beat (hp : Partial records k h) (hsound : ∀ r ∈ records, r.Sound n)
    (hbeat : Beat cfg i u h') (hrec : u.retransmission = h.retransmission)
    (hlen : u.retransmitlen = h.retransmitlen) : Partial records k h' := by
  have hrec' := hbeat.record
  rw [hrec, reported_buffer _ _ hp.length] at hrec'
  have hlen' : h'.retransmitlen = h.retransmitlen := hbeat.retransmitlen.trans hlen
  by_cases hdue : u.reportDue i = true
  · rw [if_pos hdue] at hrec'
    have hlength : h'.retransmission.length = sizeofRetransmission := by
      rw [hrec']
      exact length_lossRecord cfg hp.length
    have htype : h'.retransmission.take 2 = be16 requestErrorRate := by
      rw [hrec']
      rfl
    refine ⟨hlength, ?_⟩
    by_cases h₂ : 2 ≤ h.retransmitlen
    · exact .inr ⟨by omega, htype⟩
    · left
      rcases hp.bytes with hpend | ⟨hge, -⟩
      · refine ⟨hlength, ?_⟩
        rcases Nat.lt_or_ge h.retransmitlen 1 with h0 | h₁
        · simp [show h'.retransmitlen = 0 by omega]
        · have hone : h.retransmitlen = 1 := by omega
          rw [hlen', hone, first_byte hpend hone hsound, hrec']
          rfl
      · exact absurd hge h₂
  · rw [if_neg hdue] at hrec'
    refine ⟨hrec' ▸ hp.length, ?_⟩
    rcases hp.bytes with hpend | hrate
    · exact .inl ⟨hrec' ▸ hp.length, by rw [hrec', hlen']; exact hpend.bytes⟩
    · exact .inr (by rw [hrec', hlen']; exact hrate)

-- ---------------------------------------------------------------------------
-- Serving a client
-- ---------------------------------------------------------------------------

structure Honest (l : Layout) (records : List Retransmission) (s : Serving) : Prop where
  sender : Positioned l s.handler.sender
  sent : ∀ d ∈ s.handler.sent, Carries l d
  consumed : s.consumed ≤ (stream records).length
  running : s.running = true → s.handler.retransmitlen < sizeofRetransmission ∧
    s.handler.sender.block ≤ l.blockCount ∧
    s.consumed = sizeofRetransmission * s.handler.acted.length + s.handler.retransmitlen ∧
    Partial records s.handler.acted.length s.handler

theorem create_honest (hd : datagram.length = 6 + maxBlockSize)
    (hr : retransmission.length = sizeofRetransmission) (records : List Retransmission) :
    Honest l records ⟨.create ipd datagram retransmission start, 0, true⟩ where
  sender := ⟨Nat.zero_le _, by simp [Handler.create, Layout.offset], hd⟩
  sent d hd := absurd hd List.not_mem_nil
  consumed := Nat.zero_le _
  running _ := ⟨Nat.zero_lt_succ 11, Nat.zero_le _, rfl, partial_start hr rfl⟩

theorem Honest.grow (h : Honest l records s) (hpre : records <+: records') :
    Honest l records' s := by
  obtain ⟨more, rfl⟩ := hpre
  have happ : stream (records ++ more) = stream records ++ stream more := by
    simp [stream]
  have hlen : (stream records).length ≤ (stream (records ++ more)).length := by
    rw [happ, List.length_append]
    exact Nat.le_add_right ..
  refine ⟨h.sender, h.sent, Nat.le_trans h.consumed hlen, fun hrun => ?_⟩
  obtain ⟨hl, hb, hcons, hp⟩ := h.running hrun
  refine ⟨hl, hb, hcons, hp.length, hp.bytes.imp_left fun hpend => ⟨hpend.length, ?_⟩⟩
  have hle := h.consumed
  rw [hpend.bytes, happ, List.drop_append_of_le_length (by omega),
    List.take_append_of_le_length (by rw [List.length_drop]; omega)]

theorem request_honest (hc : cfg.For l) (hmax : l.blockCount < 2 ^ 32 - 1) (h : Honest l records s)
    (hl : (s.handler.fill i.read).retransmission.length = sizeofRetransmission)
    (hreq : (Retransmission.decode (s.handler.fill i.read).retransmission).requestType =
      requestRetransmit →
      1 ≤ (Retransmission.decode (s.handler.fill i.read).retransmission).block ∧
        (Retransmission.decode (s.handler.fill i.read).retransmission).block ≤ l.blockCount)
    (hbeat : Beat cfg i ((s.handler.fill i.read).served cfg i) h')
    (hn : c ≤ (stream records).length)
    (hcons : c = sizeofRetransmission * (s.handler.acted.length + 1))
    (hblock : b = true → h'.sender.block ≤ l.blockCount) : Honest l records ⟨h', c, b⟩ := by
  obtain ⟨hq, hd⟩ := ttpAcceptRetransmit_carries hc
    (q := s.handler.sender) h.sender hmax hreq i.sendOk
  obtain ⟨ipd, hsend⟩ := hbeat.sender
  have hlen : h'.retransmitlen = 0 := hbeat.retransmitlen
  have hacted : h'.acted.length = s.handler.acted.length + 1 := by
    rw [hbeat.acted]
    simp [Handler.served]
  have hserved :
      ((s.handler.fill i.read).served cfg i).retransmission.length = sizeofRetransmission :=
    length_accepted cfg i.sendOk _ hl
  have hrec : h'.retransmission.length = sizeofRetransmission := by
    rw [hbeat.record]
    split
    · rw [reported_buffer _ _ hserved]
      exact length_lossRecord cfg hserved
    · exact hserved
  refine ⟨?_, ?_, hn, fun hr => ⟨?_, hblock hr, ?_, partial_start hrec hlen⟩⟩
  · rw [hsend]
    simp only [Handler.served, fill_sender]
    exact hq.congr rfl rfl rfl
  · rw [hbeat.sent]
    simp only [Handler.served, fill_sender, fill_sent]
    exact List.forall_mem_append.mpr ⟨h.sent, hd⟩
  · rw [hlen]
    decide
  · rw [hlen, hacted]
    exact hcons

theorem block_honest (hc : cfg.For l) (hmax : l.blockCount < 2 ^ 32 - 1) (h : Honest l records s)
    (hrun : s.running = true) (hsend : ∃ ipd, h'.sender =
      { ((s.handler.fill i.read).blasted cfg).sender with ipdCurrent := ipd })
    (hsent : h'.sent = s.handler.sent ∨
      h'.sent = s.handler.sent ++ [((s.handler.fill i.read).blasted cfg).sender.packet cfg])
    (hacted : h'.acted = s.handler.acted)
    (hlen : h'.retransmitlen = s.handler.retransmitlen + i.read.size)
    (hpart : h'.retransmitlen < sizeofRetransmission)
    (hp : Partial records s.handler.acted.length h')
    (hn : s.consumed + i.read.size ≤ (stream records).length)
    (hblock : b = true → h'.sender.block ≤ l.blockCount) :
    Honest l records ⟨h', s.consumed + i.read.size, b⟩ := by
  obtain ⟨-, hb, hcons, -⟩ := h.running hrun
  obtain ⟨hq, hd⟩ := blasted_carries hc (h := s.handler.fill i.read) (by simpa using h.sender) hmax
    (by simpa using hb)
  obtain ⟨ipd, hsend⟩ := hsend
  refine ⟨?_, ?_, hn, fun hr => ⟨hpart, hblock hr, ?_, hacted.symm ▸ hp⟩⟩
  · rw [hsend]
    exact hq.congr rfl rfl rfl
  · rcases hsent with hsent | hsent
    · exact hsent ▸ h.sent
    · rw [hsent]
      exact List.forall_mem_append.mpr ⟨h.sent, fun d hmem => List.mem_singleton.mp hmem ▸ hd⟩
  · show s.consumed + i.read.size = _
    rw [hlen, hacted, hcons, Nat.add_assoc]

theorem turn_honest (hc : cfg.For l) (hmax : l.blockCount < 2 ^ 32 - 1)
    (hsound : ∀ r ∈ records, r.Sound l.blockCount) (h : Honest l records s)
    (hrun : s.running = true) (hv : i.Valid s.handler)
    (hf : i.read.Follows (stream records) s.consumed)
    (ho : (s.handler.iteration cfg i).handler = some h')
    (hb : b = true → s.handler.iteration cfg i = .running h') :
    Honest l records ⟨h', s.consumed + i.read.size, b⟩ := by
  obtain ⟨hl, hle, hcons, hp⟩ := h.running hrun
  have hn := follows_length hf h.consumed
  have hfill := fill_partial hp hv (hcons ▸ hf) hl
  have hsize := fill_size s.handler i.read
  have hl' := Nat.le_of_lt hl
  have hblock : b = true → h'.sender.block ≤ l.blockCount := fun hr =>
    hc.blockCount ▸ running_block hl' hv (hb hr)
  rcases handler_cases (hc.blockCount ▸ hle) hl' hv ho with ⟨hfull, -, hreq⟩ | ⟨hpart, -, hbeat⟩ |
    ⟨hpart, -, heq⟩
  · have hk : s.handler.acted.length < records.length := by
      simp only [sizeofRetransmission] at hn hcons hfull
      omega
    rw [← length_stream] at hn
    rcases hreq with ⟨hsend, hsent, -, hstop⟩ | hbeat
    · refine ⟨hsend ▸ h.sender, hsent ▸ h.sent, hn, fun hr => ?_⟩
      rw [hb hr] at hstop
      simp at hstop
    · refine request_honest hc hmax h hfill.length
        (partial_whole hfill hfull hsound hk) hbeat hn ?_ hblock
      simp only [sizeofRetransmission] at hcons hfull ⊢
      omega
  · rw [← length_stream] at hn
    have hacted : h'.acted = s.handler.acted := hbeat.acted.trans (by simp [Handler.blasted])
    have hlen : h'.retransmitlen = (s.handler.fill i.read).retransmitlen := hbeat.retransmitlen
    exact block_honest hc hmax h hrun hbeat.sender (.inr hbeat.sent) hacted (hlen.trans hsize)
      (hlen ▸ hpart) (partial_beat hfill hsound hbeat rfl rfl) hn hblock
  · rw [← length_stream] at hn
    subst heq
    exact block_honest hc hmax h hrun ⟨_, rfl⟩ (.inl (by simp [Handler.blasted]))
      (by simp [Handler.blasted]) hsize hpart
      ⟨hfill.length, hfill.bytes.imp_left fun hpend => ⟨hpend.length, hpend.bytes⟩⟩ hn hblock

theorem step_honest (hc : cfg.For l) (hmax : l.blockCount < 2 ^ 32 - 1)
    (hsound : ∀ r ∈ records, r.Sound l.blockCount) (h : Honest l records s)
    (hs : s.step cfg (stream records) i = some t) : Honest l records t := by
  simp only [Serving.step, Option.ite_none_right_eq_some] at hs
  obtain ⟨⟨hrun, hv, hf⟩, hs⟩ := hs
  split at hs <;> cases hs
  · rename_i h₁ ho
    exact turn_honest hc hmax hsound h hrun hv hf (by rw [ho]; rfl) fun _ => ho
  · rename_i h₁ ho
    exact turn_honest hc hmax hsound h hrun hv hf (by rw [ho]; rfl) (by simp)
  · rename_i h₁ ho
    exact turn_honest hc hmax hsound h hrun hv hf (by rw [ho]; rfl) (by simp)
  · exact ⟨h.sender, h.sent, h.consumed, by simp⟩

end Tsunami.Server
