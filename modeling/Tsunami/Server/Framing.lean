import Tsunami.Server.HandlerLaws

/-!
# Framing of the control channel

The client writes 12-byte records; the server reads them in whatever pieces
arrive, into one buffer. What it acts on is what was sent as long as its own
loss report, which is written into the same buffer, changes no byte of a
record that is there in part.
-/

namespace Tsunami.Server

open Bytes Transition

-- ---------------------------------------------------------------------------
-- The stream of records
-- ---------------------------------------------------------------------------

def stream (records : List Retransmission) : List UInt8 := records.flatMap Retransmission.encode

theorem length_stream (records : List Retransmission) :
    (stream records).length = sizeofRetransmission * records.length := by
  induction records with
  | nil => rfl
  | cons r records ih =>
    have hlen := Retransmission.length_encode r
    simp only [stream, List.flatMap_cons, List.length_append, List.length_cons,
      sizeofRetransmission]
      at ih hlen ⊢
    omega

theorem drop_stream (records : List Retransmission) (k : Nat) :
    (stream records).drop (sizeofRetransmission * k) = stream (records.drop k) := by
  induction k generalizing records with
  | zero => simp
  | succ k ih =>
    cases records with
    | nil => simp [stream]
    | cons r records =>
      have hk : sizeofRetransmission * (k + 1) = r.encode.length + sizeofRetransmission * k := by
        rw [Retransmission.length_encode]
        simp only [sizeofRetransmission]
        omega
      rw [hk, stream, List.flatMap_cons, List.drop_length_add_append]
      exact ih records

theorem take_stream (hk : k < records.length) :
    ((stream records).drop (sizeofRetransmission * k)).take sizeofRetransmission =
      records[k].encode := by
  rw [drop_stream, List.drop_eq_getElem_cons hk, stream, List.flatMap_cons]
  exact List.take_left' (Retransmission.length_encode _)

-- ---------------------------------------------------------------------------
-- The loss report in the record
-- ---------------------------------------------------------------------------

/-- The record after a loss report: type 3, the padding, block 0, and the error
rate in the order of the host. -/
def lossRecord (cfg : Config) (buffer : List UInt8) : List UInt8 :=
  be16 requestErrorRate ++ (buffer.drop 2).take 2 ++ be32 0 ++ hostBytes cfg 100000

theorem reported_buffer (cfg : Config) (s : Sender) (hb : buffer.length = sizeofRetransmission) :
    (reported cfg s buffer).buffer = lossRecord cfg buffer := by
  have hpad : ((buffer.drop 2).take 2).length = 2 := by
    rw [List.length_take, List.length_drop, hb]
    rfl
  obtain ⟨p, q, hpq⟩ := List.length_eq_two.mp hpad
  obtain ⟨ipd, hrep⟩ := reported_eq cfg s buffer
  have hform : reportLoss buffer = [0, 3, p, q, 0, 0, 0, 0, 0, 1, 134, 160] := by
    rw [reportLoss, hpq]
    rfl
  have hdec : Retransmission.decode (reportLoss buffer) = ⟨requestErrorRate, 0, 100000⟩ := by
    rw [hform]
    rfl
  have hzero : hostBytes cfg 0 = be32 0 := by
    simp only [hostBytes]
    split <;> rfl
  have hhost : (hostBytes cfg 100000).length = 4 := by
    simp only [hostBytes]
    split <;> rfl
  obtain ⟨a, b, c, d, hbytes⟩ := List.length_eq_four.mp hhost
  rw [hrep, hdec]
  simp only [hzero, hbytes, lossRecord, hpq, hform]
  rfl

@[simp] theorem length_lossRecord (cfg : Config) (hb : buffer.length = sizeofRetransmission) :
    (lossRecord cfg buffer).length = sizeofRetransmission := by
  have hhost : (hostBytes cfg 100000).length = 4 := by
    simp only [hostBytes]
    split <;> rfl
  simp only [lossRecord, List.length_append, length_be16, length_be32, hhost, List.length_take,
    List.length_drop, hb, sizeofRetransmission]
  rfl

@[simp] theorem length_hostBytes (cfg : Config) (n : Nat) : (hostBytes cfg n).length = 4 := by
  simp only [hostBytes]
  split <;> simp

theorem length_accepted (cfg : Config) (ok : Bool) (s : Sender)
    (hb : buffer.length = sizeofRetransmission) :
    (ttpAcceptRetransmit cfg ok s buffer).buffer.length = sizeofRetransmission := by
  have hlen : ∀ m n, (blit (blit buffer 4 (hostBytes cfg m)) 8 (hostBytes cfg n)).length =
      sizeofRetransmission := by
    intro m n
    have h₁ : (blit buffer 4 (hostBytes cfg m)).length = sizeofRetransmission := by
      rw [length_blit (by rw [length_hostBytes, hb]; decide), hb]
    rw [length_blit (by rw [length_hostBytes, h₁]; decide), h₁]
  simp only [ttpAcceptRetransmit]
  split
  · exact hlen ..
  · split
    · split <;> exact hlen ..
    · split
      · split <;> exact hlen ..
      · exact hlen ..

-- ---------------------------------------------------------------------------
-- Serving a stream
-- ---------------------------------------------------------------------------

/-- The server's loop, with the number of bytes it has read from the control
channel, and whether it is still in the transfer. -/
structure Serving where
  handler : Handler
  consumed : Nat
  running : Bool
  deriving DecidableEq, Repr

def ReadResult.size : ReadResult → Nat
  | .data bytes => bytes.length
  | .nothing _ => 0

def ReadResult.Follows (control : List UInt8) (consumed : Nat) : ReadResult → Prop
  | .data bytes => bytes <+: control.drop consumed
  | .nothing _ => True

instance (control : List UInt8) (consumed : Nat) (r : ReadResult) :
    Decidable (r.Follows control consumed) :=
  match r with
  | .data bytes => inferInstanceAs (Decidable (bytes <+: control.drop consumed))
  | .nothing _ => isTrue trivial

def Serving.step (cfg : Config) (control : List UInt8) (s : Serving) (i : Input) : Option Serving :=
  if s.running ∧ i.Valid s.handler ∧ i.read.Follows control s.consumed then
    match s.handler.iteration cfg i with
    | .running h => some ⟨h, s.consumed + i.read.size, true⟩
    | .stopped h | .timedOut h => some ⟨h, s.consumed + i.read.size, false⟩
    | .fatal => some { s with running := false }
  else none

def serving (cfg : Config) (records : List Retransmission) : System Serving Input where
  init s := ∃ ipd datagram retransmission start, retransmission.length = sizeofRetransmission ∧
    s = ⟨.create ipd datagram retransmission start, 0, true⟩
  step := Serving.step cfg (stream records)

/-- No loss report changes a byte of a record that is there in part: none is
made at the end of an iteration that leaves one, or it writes what is there. -/
def KeepsPending (cfg : Config) (s : Serving) (i : Input) : Prop :=
  let h := s.handler.fill i.read
  h.retransmitlen < sizeofRetransmission → i.sendOk = true → h.reportDue i = true →
    (lossRecord cfg h.retransmission).take h.retransmitlen = h.retransmission.take h.retransmitlen

instance (cfg : Config) (s : Serving) (i : Input) : Decidable (KeepsPending cfg s i) :=
  inferInstanceAs (Decidable (_ → _))

structure Pending (records : List Retransmission) (k : Nat) (h : Handler) : Prop where
  length : h.retransmission.length = sizeofRetransmission
  bytes : h.retransmission.take h.retransmitlen =
    ((stream records).drop (sizeofRetransmission * k)).take h.retransmitlen

/-- The invariant: so many records have been acted on as have been read whole,
they are the client's, and the rest is in the buffer. -/
structure Framed (cfg : Config) (records : List Retransmission) (s : Serving) : Prop where
  acted : s.handler.acted = records.take s.handler.acted.length
  whole : s.handler.acted.length = s.consumed / sizeofRetransmission
  running : s.running = true → s.handler.retransmitlen < sizeofRetransmission ∧
    s.handler.sender.block ≤ cfg.blockCount ∧
    s.consumed = sizeofRetransmission * s.handler.acted.length + s.handler.retransmitlen ∧
    Pending records s.handler.acted.length s.handler

variable {cfg : Config} {records : List Retransmission} {h h' : Handler} {s t : Serving} {i : Input}

theorem fill_pending (hp : Pending records k h) (hv : i.Valid h)
    (hf : i.read.Follows (stream records) (sizeofRetransmission * k + h.retransmitlen))
    (hl : h.retransmitlen < sizeofRetransmission) : Pending records k (h.fill i.read) := by
  cases hr : i.read with
  | nothing errno => exact hp
  | data bytes =>
    simp only [Input.Valid, hr] at hv
    simp only [hr, ReadResult.Follows] at hf
    have hlen := hp.length
    refine ⟨?_, ?_⟩
    · simp only [Handler.fill]
      rw [length_blit (by omega), hlen]
    · simp only [Handler.fill]
      rw [take_blit_append (by omega), hp.bytes, List.take_add, List.drop_drop,
        List.prefix_iff_eq_take.mp hf]
      simp

theorem pending_whole (hp : Pending records k h) (hl : h.retransmitlen = sizeofRetransmission)
    (hfits : ∀ r ∈ records, r.Fits) (hk : k < records.length) :
    Retransmission.decode h.retransmission = records[k] := by
  have hb := hp.bytes
  rw [hl, take_stream hk, List.take_of_length_le (Nat.le_of_eq hp.length)] at hb
  rw [hb, Retransmission.decode_encode (hfits _ (List.getElem_mem hk))]

theorem follows_length {r : ReadResult} (hf : r.Follows (stream records) n)
    (hn : n ≤ (stream records).length) :
    n + r.size ≤ sizeofRetransmission * records.length := by
  rw [← length_stream]
  cases r with
  | nothing => exact hn
  | data bytes =>
    have hle := hf.length_le
    rw [List.length_drop] at hle
    simp only [ReadResult.size]
    omega

theorem fill_size (h : Handler) (r : ReadResult) :
    (h.fill r).retransmitlen = h.retransmitlen + r.size := by
  cases r <;> rfl

theorem request_framed (hfits : ∀ r ∈ records, r.Fits) (hfr : Framed cfg records s)
    (hp : Pending records s.handler.acted.length (s.handler.fill i.read))
    (hfull : (s.handler.fill i.read).retransmitlen = sizeofRetransmission)
    (hc : c = sizeofRetransmission * s.handler.acted.length + sizeofRetransmission)
    (hle : c ≤ sizeofRetransmission * records.length)
    (hacted : h'.acted = s.handler.acted ++
      [Retransmission.decode (s.handler.fill i.read).retransmission]) :
    h'.acted = records.take h'.acted.length ∧ h'.acted.length = c / sizeofRetransmission ∧
      c = sizeofRetransmission * h'.acted.length := by
  simp only [sizeofRetransmission] at hc hle ⊢
  have hk : s.handler.acted.length < records.length := by omega
  have hlen : h'.acted.length = s.handler.acted.length + 1 := by simp [hacted]
  refine ⟨?_, by omega, by omega⟩
  rw [hlen, ← List.take_append_getElem hk, hacted, pending_whole hp hfull hfits hk]
  exact congrArg (· ++ _) hfr.acted

theorem block_pending (hp : Pending records k h) (hbeat : Beat cfg i u h')
    (hrec : u.retransmission = h.retransmission) (hlen : u.retransmitlen = h.retransmitlen)
    (hdue : u.reportDue i = h.reportDue i)
    (hk : h.reportDue i = true →
      (lossRecord cfg h.retransmission).take h.retransmitlen =
        h.retransmission.take h.retransmitlen) :
    Pending records k h' := by
  have hrec' := hbeat.record
  rw [hdue, hrec, reported_buffer _ _ hp.length] at hrec'
  refine ⟨?_, ?_⟩
  · rw [hrec']
    split
    · exact length_lossRecord cfg hp.length
    · exact hp.length
  · rw [hbeat.retransmitlen, hlen, hrec', ← hp.bytes]
    split
    · rename_i hd
      exact hk hd
    · rfl

theorem part_framed (hfr : Framed cfg records s) (hrun : s.running = true)
    (hacted : h'.acted = s.handler.acted) (hlen : h'.retransmitlen = s.handler.retransmitlen + n)
    (hpart : h'.retransmitlen < sizeofRetransmission)
    (hblock : b = true → h'.sender.block ≤ cfg.blockCount)
    (hp : Pending records s.handler.acted.length h') : Framed cfg records
      ⟨h', s.consumed + n, b⟩ := by
  have hcons := (hfr.running hrun).2.2.1
  have hwhole := hfr.whole
  simp only [sizeofRetransmission] at hcons hwhole hpart
  refine ⟨by rw [hacted]; exact hfr.acted, ?_,
    fun hr => ⟨hpart, hblock hr, ?_, by rw [hacted]; exact hp⟩⟩
  · rw [hacted]
    simp only [sizeofRetransmission]
    omega
  · rw [hacted, hlen]
    simp only [sizeofRetransmission]
    omega

theorem turn_framed (hfits : ∀ r ∈ records, r.Fits) (hfr : Framed cfg records s)
    (hrun : s.running = true) (hn : s.consumed ≤ (stream records).length)
    (hk : KeepsPending cfg s i) (hv : i.Valid s.handler)
    (hf : i.read.Follows (stream records) s.consumed) (b : Bool)
    (ho : (s.handler.iteration cfg i).handler = some h')
    (hb : b = true → s.handler.iteration cfg i = .running h') :
    Framed cfg records ⟨h', s.consumed + i.read.size, b⟩ := by
  obtain ⟨hl, hblock, hcons, hp⟩ := hfr.running hrun
  have hle := follows_length hf hn
  have hsize := fill_size s.handler i.read
  have hfill := fill_pending hp hv (hcons ▸ hf) hl
  have hl' := Nat.le_of_lt hl
  rcases handler_cases hblock hl' hv ho
    with ⟨hfull, hacted, hreq⟩ | ⟨hpart, hsend, hbeat⟩ | ⟨hpart, -, heq⟩
  · obtain ⟨htake, hwhole, hc⟩ :=
      request_framed (c := s.consumed + i.read.size) hfits hfr hfill hfull
      (by omega) hle hacted
    refine ⟨htake, hwhole, fun hr => ?_⟩
    rcases hreq with ⟨-, -, -, hstop⟩ | hbeat
    · rw [hb hr] at hstop
      simp at hstop
    · have hlen : h'.retransmitlen = 0 := hbeat.retransmitlen
      have hserved :
          ((s.handler.fill i.read).served cfg i).retransmission.length = sizeofRetransmission :=
        length_accepted cfg i.sendOk _ hfill.length
      refine ⟨by rw [hlen]; decide, running_block hl' hv (hb hr), by rw [hlen]; exact hc, ?_,
        by simp [hlen]⟩
      rw [hbeat.record]
      split
      · rw [reported_buffer _ _ hserved]
        exact length_lossRecord cfg hserved
      · exact hserved
  · have hacted : h'.acted = s.handler.acted := hbeat.acted.trans (by simp [Handler.blasted])
    have hlen : h'.retransmitlen = (s.handler.fill i.read).retransmitlen := hbeat.retransmitlen
    exact part_framed hfr hrun hacted (hlen.trans hsize) (hlen ▸ hpart)
      (fun hr => running_block hl' hv (hb hr))
        (block_pending hfill hbeat rfl rfl rfl (hk hpart hsend))
  · subst heq
    exact part_framed hfr hrun (by simp [Handler.blasted]) hsize hpart
      (fun hr => running_block hl' hv (hb hr)) ⟨hfill.length, hfill.bytes⟩

theorem step_framed (hfits : ∀ r ∈ records, r.Fits) (hfr : Framed cfg records s)
    (hn : s.consumed ≤ (stream records).length) (hk : KeepsPending cfg s i)
    (hs : s.step cfg (stream records) i = some t) :
    Framed cfg records t ∧ t.consumed ≤ (stream records).length := by
  simp only [Serving.step, Option.ite_none_right_eq_some] at hs
  obtain ⟨⟨hrun, hv, hf⟩, hs⟩ := hs
  have hle := follows_length hf hn
  rw [← length_stream] at hle
  split at hs <;> cases hs
  · rename_i h₁ ho
    exact ⟨turn_framed hfits hfr hrun hn hk hv hf true (by rw [ho]; rfl) fun _ => ho, hle⟩
  · rename_i h₁ ho
    exact ⟨turn_framed hfits hfr hrun hn hk hv hf false (by rw [ho]; rfl) (by simp), hle⟩
  · rename_i h₁ ho
    exact ⟨turn_framed hfits hfr hrun hn hk hv hf false (by rw [ho]; rfl) (by simp), hle⟩
  · exact ⟨⟨hfr.acted, hfr.whole, by simp⟩, hn⟩

/-- The requests acted on are the records of which every byte has been read,
in every run in which no loss report changes a record that is there in part. -/
theorem requests_are_records (hfits : ∀ r ∈ records, r.Fits)
    (h : (serving cfg records).ReachableBy (KeepsPending cfg) s) :
    s.handler.acted = records.take (s.consumed / sizeofRetransmission) := by
  have hfr : Framed cfg records s ∧ s.consumed ≤ (stream records).length := by
    refine h.invariant ?_ fun s i t _ hi hk hs => step_framed hfits hi.1 hi.2 hk hs
    rintro s ⟨ipd, datagram, retransmission, start, hlen, rfl⟩
    exact ⟨⟨rfl, (Nat.zero_div _).symm, fun _ =>
      ⟨Nat.zero_lt_succ 11, Nat.zero_le _, rfl, hlen, rfl⟩⟩, Nat.zero_le _⟩
  rw [hfr.1.acted, hfr.1.whole]

def oneByte : Config where
  file := [7]
  blockSize := 1
  blockCount := 1
  errorRate := 7500
  slowerNum := 25
  slowerDen := 24
  fasterNum := 5
  fasterDen := 6
  ipdTime := 0
  hbTimeout := 15
  bigEndian := false

/-- A request for block 1 and a stop request, in three pieces. -/
theorem requests_are_records_three_pieces :
    ∃ s : Serving, s.consumed = 24 ∧ s.handler.acted =
      [⟨requestRetransmit, 1, 0⟩, ⟨requestStop, 0, 0⟩] := by
  let records : List Retransmission := [⟨requestRetransmit, 1, 0⟩, ⟨requestStop, 0, 0⟩]
  let piece (m n : Nat) : Input := ⟨0, .data (((stream records).drop m).take n), true, 0, 0, 0⟩
  have hrun : ((serving oneByte records).checkedRun (KeepsPending oneByte)
      ⟨.create 0 (List.replicate 8 0) (List.replicate 12 0) 0, 0, true⟩
      [piece 0 5, piece 5 7, piece 12 12]).map (fun s => s.consumed) = some 24 := by decide +kernel
  obtain ⟨s, hs, hconsumed⟩ := Option.map_eq_some_iff.mp hrun
  have hfits : ∀ r ∈ records, r.Fits := by
    simp only [records, List.forall_mem_cons, List.not_mem_nil, false_implies,
      implies_true, and_true]
    exact ⟨⟨by decide, by decide, by decide⟩, by decide, by decide, by decide⟩
  have hinit : (serving oneByte records).ReachableBy (KeepsPending oneByte)
      ⟨.create 0 (List.replicate 8 0) (List.replicate 12 0) 0, 0, true⟩ :=
    .init ⟨_, _, _, _, rfl, rfl⟩
  refine ⟨s, hconsumed, ?_⟩
  rw [requests_are_records hfits (hinit.path (.checkedRun hs)), hconsumed]
  rfl

-- ---------------------------------------------------------------------------
-- A stop request that is lost
-- ---------------------------------------------------------------------------

def idleAt (time : Nat) : Input := ⟨time, .nothing eagain, true, time, time, time⟩

theorem idle_run (hrun : s.running = true) (hl : s.handler.retransmitlen < sizeofRetransmission)
    (hb : s.handler.sender.block ≤ cfg.blockCount)
    (hc : s.handler.deadconnectionCounter + n ≤ 2049) :
    ∃ t, (serving cfg records).run s (List.replicate n (idleAt 0)) = some t ∧ t.running = true ∧
      t.consumed = s.consumed ∧ t.handler.retransmission = s.handler.retransmission ∧
      t.handler.retransmitlen = s.handler.retransmitlen ∧ t.handler.acted = s.handler.acted ∧
      t.handler.sender.block ≤ cfg.blockCount ∧
      t.handler.deadconnectionCounter = s.handler.deadconnectionCounter + n ∧
      t.handler.lastfeedback = s.handler.lastfeedback ∧
      t.handler.lasthblostreport = s.handler.lasthblostreport := by
  induction n generalizing s with
  | zero => exact ⟨s, rfl, hrun, rfl, rfl, rfl, rfl, hb, rfl, rfl, rfl⟩
  | succ n ih =>
    let h : Handler := { s.handler.blasted cfg with
      sent := s.handler.sent ++ [(s.handler.blasted cfg).sender.packet cfg]
      deadconnectionCounter := s.handler.deadconnectionCounter + 1 }
    have hnot : ¬s.handler.deadconnectionCounter > 2048 := by omega
    have hiter : s.handler.iteration cfg (idleAt 0) = .running h := by
      simp [Handler.iteration, hb, idleAt, Handler.iteration.go, Nat.ne_of_lt hl, hl,
        Handler.transmit, Handler.heartbeat, hnot, h, Handler.blasted]
    have hread : (idleAt 0).read = .nothing eagain := rfl
    have hstep : (serving cfg records).step s (idleAt 0) = some ⟨h, s.consumed, true⟩ := by
      simp [serving, Serving.step, hrun, hiter, Input.Valid, hread, ReadResult.Follows,
        ReadResult.size]
    have hblock : h.sender.block ≤ cfg.blockCount := Nat.min_le_right ..
    obtain ⟨t, ht, hrest⟩ := ih (s := ⟨h, s.consumed, true⟩) rfl hl hblock (by simp only [h]; omega)
    refine ⟨t, System.run_cons.mpr ⟨_, hstep, ht⟩, ?_⟩
    simp only [h, Handler.blasted] at hrest
    obtain ⟨h₁, h₂, h₃, h₄, h₅, h₆, h₇, h₈, h₉⟩ := hrest
    exact ⟨h₁, h₂, h₃, h₄, h₅, h₆, by omega, h₈, h₉⟩

theorem report_turn (time : Nat) (hl : h.retransmitlen < sizeofRetransmission)
    (hb : h.sender.block ≤ cfg.blockCount) (hlen : h.retransmission.length = sizeofRetransmission)
    (hc : h.deadconnectionCounter = 2049) (hdue : ¬getUsecSince h.lasthblostreport time < 500000)
    (htime : ¬getUsecSince h.lastfeedback time > 1000000 * cfg.hbTimeout) :
    ∃ h', h.iteration cfg (idleAt time) = .running h' ∧
    h'.retransmission = lossRecord cfg h.retransmission ∧
      h'.retransmitlen = h.retransmitlen ∧ h'.acted = h.acted ∧
      h'.sender.block ≤ cfg.blockCount := by
  let u : Handler := { h.blasted cfg with
    sent := h.sent ++ [(h.blasted cfg).sender.packet cfg] }
  have hblock : u.sender.block ≤ cfg.blockCount := Nat.min_le_right ..
  obtain ⟨ipd, hrep⟩ := reported_eq cfg u.sender h.retransmission
  have hbuffer := reported_buffer cfg u.sender hlen
  have hdue' : u.reportDue (idleAt time) = true := by
    simpa [Handler.reportDue, u, Handler.blasted, hc, idleAt] using hdue
  have hbeat : h.iteration cfg (idleAt time) = u.heartbeat cfg (idleAt time) := by
    simp [Handler.iteration, hb, idleAt, Handler.iteration.go, Nat.ne_of_lt hl, hl,
      Handler.transmit, u, Handler.blasted]
  have hcount : u.deadconnectionCounter > 2048 := by
    simp only [u, Handler.blasted, hc]
    decide
  rw [hbeat, Handler.heartbeat, if_pos hcount, if_pos hdue']
  refine ⟨_, if_neg htime, hbuffer, rfl, rfl, ?_⟩
  simp only [show u.retransmission = h.retransmission from rfl, hrep]
  exact hblock

theorem complete_turn (hb : h.sender.block ≤ cfg.blockCount) (hi : i.read = .data bytes)
    (hfull : h.retransmitlen + bytes.length = sizeofRetransmission)
    (hdec : Retransmission.decode (blit h.retransmission h.retransmitlen bytes) = r)
    (hr : r.requestType ≠ requestStop) :
    ∃ h', h.iteration cfg i = .running h' ∧ h'.acted = h.acted ++ [r] := by
  let u := h.fill i.read
  have hu : u.retransmitlen = sizeofRetransmission := by simp only [u, hi, Handler.fill, hfull]
  have hur : Retransmission.decode u.retransmission = r := by simp only [u, hi, Handler.fill, hdec]
  have hiter : h.iteration cfg i = (u.served cfg i).heartbeat cfg i := by
    have hgo : h.iteration cfg i = Handler.iteration.go cfg u i := by
      simp only [Handler.iteration, if_pos hb, hi, u]
    rw [hgo, Handler.iteration.go, if_pos hu, Handler.request, if_neg (by rw [hur]; exact hr)]
    rfl
  have hcount : ¬(u.served cfg i).deadconnectionCounter > 2048 := Nat.not_lt_zero 2048
  refine ⟨_, hiter.trans (by rw [Handler.heartbeat, if_neg hcount]), ?_⟩
  simp only [Handler.served, hur, u, fill_acted]

def restOfStop : Input :=
  ⟨600000, .data [0, 0, 0, 0, 0, 0, 0, 0, 0, 0], true, 600000, 600000, 600000⟩

/-- Two bytes of a stop request are there when the loss report is made: the
request is never acted on, a notification is in its place. -/
theorem stop_request_overwritten :
    ∃ s : Serving, (serving oneByte [⟨requestStop, 0, 0⟩]).Reachable s ∧ s.consumed = 12 ∧
      s.handler.acted = [⟨requestErrorRate, 0, 0⟩] ∧
      s.handler.acted ≠ [(⟨requestStop, 0, 0⟩ : Retransmission)].take (s.consumed / 12) := by
  let records : List Retransmission := [⟨requestStop, 0, 0⟩]
  have hinit : (serving oneByte records).Reachable
      ⟨.create 0 (List.replicate 8 0) (List.replicate 12 0) 0, 0, true⟩ :=
    .init ⟨_, _, _, _, rfl, rfl⟩
  -- the first two bytes
  obtain ⟨s₁, hs₁, hrun₁, hcons₁, hret₁, hlen₁, hact₁, hb₁, hc₁, hfb₁, hhb₁⟩ : ∃ s₁,
      (serving oneByte records).step
        ⟨.create 0 (List.replicate 8 0) (List.replicate 12 0) 0, 0, true⟩
        ⟨0, .data [0, 2], true, 0, 0, 0⟩ = some s₁ ∧ s₁.running = true ∧ s₁.consumed = 2 ∧
      s₁.handler.retransmission = [0, 2, 0, 0, 0, 0, 0, 0, 0, 0, 0, 0] ∧
      s₁.handler.retransmitlen = 2 ∧
      s₁.handler.acted = [] ∧ s₁.handler.sender.block ≤ oneByte.blockCount ∧
      s₁.handler.deadconnectionCounter = 1 ∧ s₁.handler.lastfeedback = 0 ∧
      s₁.handler.lasthblostreport = 0 :=
    ⟨_, rfl, rfl, rfl, rfl, rfl, rfl, Nat.le_refl 1, rfl, rfl, rfl⟩
  -- 2048 turns with nothing to read
  obtain ⟨s₂, hs₂, hrun₂, hcons₂, hret₂, hlen₂, hact₂, hb₂, hc₂, hfb₂, hhb₂⟩ :=
    idle_run (n := 2048) hrun₁ (by rw [hlen₁]; decide) hb₁ (by rw [hc₁])
  rw [hret₁] at hret₂
  -- 0.6 s after the start
  obtain ⟨h₃, hiter₃, hret₃, hlen₃, hact₃, hb₃⟩ := report_turn 600000
    (by rw [hlen₂, hlen₁]; decide) hb₂ (by rw [hret₂]; rfl) (by rw [hc₂, hc₁])
    (by rw [hhb₂, hhb₁]; decide) (by rw [hfb₂, hfb₁]; decide)
  rw [hret₂] at hret₃
  have hs₃ : (serving oneByte records).step s₂ (idleAt 600000) = some ⟨h₃, s₂.consumed, true⟩ := by
    have hread : (idleAt 600000).read = .nothing eagain := rfl
    simp [serving, Serving.step, hrun₂, hiter₃, Input.Valid, hread, ReadResult.Follows,
      ReadResult.size]
  -- the other ten bytes
  obtain ⟨h₄, hiter₄, hact₄⟩ := complete_turn (i := restOfStop)
    (r := ⟨requestErrorRate, 0, 0⟩) hb₃ rfl (by rw [hlen₃, hlen₂, hlen₁]; rfl)
    (by rw [hret₃, hlen₃, hlen₂, hlen₁]; decide) (by decide)
  have hs₄ : (serving oneByte records).step ⟨h₃, s₂.consumed, true⟩ restOfStop =
      some ⟨h₄, s₂.consumed + 10, true⟩ := by
    have hguard : restOfStop.Valid h₃ ∧ restOfStop.read.Follows (stream records) s₂.consumed := by
      have hvalid : 2 + 10 ≤ sizeofRetransmission := by decide
      refine ⟨⟨Nat.zero_lt_succ 9, ?_⟩, ?_⟩
      · rw [hlen₃, hlen₂, hlen₁]
        exact hvalid
      · rw [hcons₂, hcons₁]
        decide
    show (if _ then _ else _) = _
    rw [if_pos ⟨rfl, hguard⟩, hiter₄]
    rfl
  have hacted : h₄.acted = [⟨requestErrorRate, 0, 0⟩] := by rw [hact₄, hact₃, hact₂, hact₁]; rfl
  have hconsumed : s₂.consumed + 10 = 12 := by rw [hcons₂, hcons₁]
  refine ⟨⟨h₄, s₂.consumed + 10, true⟩, ?_, hconsumed, hacted, ?_⟩
  · exact (((hinit.step hs₁).run hs₂).step hs₃).step hs₄
  · show h₄.acted ≠ records.take ((s₂.consumed + 10) / 12)
    rw [hconsumed, hacted]
    decide

end Tsunami.Server
