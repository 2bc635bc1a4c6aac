import Tsunami.Lib.Pieces
import Tsunami.Realtime.Backup
import Tsunami.Server.Framing

/-!
# Framing of the realtime server's control channel

The realtime server reads the records of its client as the file server does. It
reports no loss into the record, so nothing but what is read is in the buffer,
and it acts on the records of the client in every run.
-/

namespace Tsunami.Realtime

open Bytes Pieces Transition
open Server (ReadResult stream length_stream take_stream follows_length hostBytes length_hostBytes)

variable {c : Config} {device : Nat → UInt8} {h h' : Handler} {i : Input}
  {records : List Retransmission}

-- ---------------------------------------------------------------------------
-- The record in a turn
-- ---------------------------------------------------------------------------

def Input.Valid (h : Handler) (i : Input) : Prop :=
  match i.read with
  | .data bytes => 0 < bytes.length ∧ h.retransmitlen + bytes.length ≤ sizeofRetransmission
  | .nothing _ => True

instance (h : Handler) (i : Input) : Decidable (i.Valid h) :=
  match hr : i.read with
  | .data bytes => decidable_of_iff
      (0 < bytes.length ∧ h.retransmitlen + bytes.length ≤ sizeofRetransmission)
        (by simp [Input.Valid, hr])
  | .nothing _ => isTrue (by simp [Input.Valid, hr])

theorem fill_size (h : Handler) (r : ReadResult) :
    (h.fill r).retransmitlen = h.retransmitlen + r.size := by
  cases r <;> rfl

theorem fill_le (hv : i.Valid h) (hl : h.retransmitlen ≤ sizeofRetransmission) :
    (h.fill i.read).retransmitlen ≤ sizeofRetransmission := by
  cases hr : i.read with
  | data bytes =>
    simp only [Input.Valid, hr] at hv
    exact hv.2
  | nothing errno => exact hl

theorem heartbeat_leaves (ho : (h.heartbeat c type i).handler = some h') :
    h'.acted = h.acted ∧ h'.retransmission = h.retransmission ∧
      h'.retransmitlen = h.retransmitlen ∧ h'.transfer = h.transfer ∧ h'.sent = h.sent := by
  simp only [Handler.heartbeat] at ho
  split at ho
  · split at ho
    · cases ho
      exact ⟨rfl, rfl, rfl, rfl, rfl⟩
    · split at ho
      · split at ho
        · cases ho
          exact ⟨rfl, rfl, rfl, rfl, rfl⟩
        · split at ho <;>
          · cases ho
            exact ⟨rfl, rfl, rfl, rfl, rfl⟩
      · cases ho
        exact ⟨rfl, rfl, rfl, rfl, rfl⟩
  · cases ho
    exact ⟨rfl, rfl, rfl, rfl, rfl⟩

theorem length_accepted (hb : buffer.length = sizeofRetransmission) :
    (ttpAcceptRetransmit c device i x buffer).buffer.length = sizeofRetransmission := by
  have hlen : ∀ m n, (blit (blit buffer 4 (hostBytes c.rates m)) 8
      (hostBytes c.rates n)).length = sizeofRetransmission := by
    intro m n
    have h₁ : (blit buffer 4 (hostBytes c.rates m)).length = sizeofRetransmission := by
      rw [length_blit (by rw [length_hostBytes, hb]; decide), hb]
    rw [length_blit (by rw [length_hostBytes, h₁]; decide), h₁]
  simp only [ttpAcceptRetransmit]
  split
  · exact hlen ..
  · split
    · split <;> exact hlen ..
    · split
      · split <;> exact hlen ..
      · exact hlen ..

theorem accept_block_le (hx : x.block ≤ c.blockCount) :
    (ttpAcceptRetransmit c device i x buffer).transfer.block ≤ c.blockCount := by
  simp only [ttpAcceptRetransmit]
  split
  · exact hx
  · split
    · split
      · exact hx
      · rename_i hrange
        rw [not_or, Nat.not_lt] at hrange
        exact hrange.2
    · split
      · split <;> exact hx
      · exact hx

/-- What a turn that does not end the server does: it stops on the record that
has become whole, or serves it and empties the buffer, or builds the next block
and leaves what is there in part. -/
inductive Turned (c : Config) (device : Nat → UInt8) (h : Handler) (i : Input) (o : Outcome)
    (h' : Handler) : Prop
  | stopped : (h.fill i.read).retransmitlen = sizeofRetransmission → o = .stopped h' →
      h'.acted = h.acted ++ [Retransmission.decode (h.fill i.read).retransmission] →
      h'.transfer = h.transfer → h'.sent = h.sent → Turned c device h i o h'
  | served : (h.fill i.read).retransmitlen = sizeofRetransmission →
      h'.acted = h.acted ++ [Retransmission.decode (h.fill i.read).retransmission] →
      h'.retransmitlen = 0 →
      h'.retransmission = (ttpAcceptRetransmit c device i h.transfer
        (h.fill i.read).retransmission).buffer →
      h'.transfer = (ttpAcceptRetransmit c device i h.transfer
        (h.fill i.read).retransmission).transfer →
      h'.sent = h.sent ++ (ttpAcceptRetransmit c device i h.transfer
        (h.fill i.read).retransmission).sent → Turned c device h i o h'
  | built : (h.fill i.read).retransmitlen < sizeofRetransmission → h'.acted = h.acted →
      h'.retransmitlen = (h.fill i.read).retransmitlen →
      h'.retransmission = (h.fill i.read).retransmission →
      h'.transfer = (h.blasted c device i).transfer →
      (h'.sent = h.sent ∨ h'.sent = h.sent ++
        [(h.blasted c device i).transfer.sender.packet c.toParameter]) → Turned c device h i o h'

theorem go_turned (hr : h.acted = g.acted ∧ h.transfer = g.transfer ∧ h.sent = g.sent)
    (hg : g.fill i.read = h) (hl : h.retransmitlen ≤ sizeofRetransmission)
    (ho : (Handler.iteration.go c device i h).handler = some h') :
    Turned c device g i (Handler.iteration.go c device i h) h' := by
  obtain ⟨hacted, htransfer, hsent⟩ := hr
  subst hg
  simp only [Handler.iteration.go] at ho ⊢
  split at ho
  · rename_i hfull
    rw [if_pos hfull]
    simp only [Handler.request] at ho ⊢
    split at ho
    · rename_i hstop
      cases ho
      rw [if_pos hstop]
      exact .stopped hfull rfl (by rw [← hacted]) htransfer hsent
    · rename_i hstop
      obtain ⟨ha, hbuffer, hlen, hx, hs⟩ := heartbeat_leaves ho
      rw [htransfer] at hbuffer hx hs
      rw [hsent] at hs
      exact .served hfull (ha.trans (by rw [← hacted])) hlen hbuffer hx hs
  · rename_i hne
    have hpart : (g.fill i.read).retransmitlen < sizeofRetransmission := by omega
    have hblasted :
        ((g.fill i.read).blasted c device i).transfer = (g.blasted c device i).transfer := by
      simp only [Handler.blasted, htransfer]
    rw [if_pos hpart, transmit_eq] at ho
    split at ho
    · split at ho
      · obtain ⟨ha, hbuffer, hlen, hx, hs⟩ := heartbeat_leaves ho
        rw [hblasted, hsent] at hs
        exact .built hpart (ha.trans hacted) hlen hbuffer (hx.trans hblasted) (.inr hs)
      · cases ho
        exact .built hpart hacted rfl rfl hblasted (.inl hsent)
    · cases ho

theorem turn_turned (hb : h.transfer.block ≤ c.blockCount) (hv : i.Valid h)
    (hl : h.retransmitlen ≤ sizeofRetransmission)
    (ho : (h.iteration c device i).handler = some h') :
    Turned c device h i (h.iteration c device i) h' := by
  have hfill := fill_le hv hl
  have hsame : (h.fill i.read).acted = h.acted ∧ (h.fill i.read).transfer = h.transfer ∧
      (h.fill i.read).sent = h.sent := by
    cases i.read <;> exact ⟨rfl, rfl, rfl⟩
  have hgo : h.iteration c device i = .fatal ∨
      h.iteration c device i = Handler.iteration.go c device i (h.fill i.read) := by
    rw [Handler.iteration, if_pos hb]
    cases i.read with
    | data bytes => exact .inr rfl
    | nothing errno =>
      simp only
      split
      · exact .inl rfl
      · exact .inr rfl
  rcases hgo with hfatal | hgo
  · rw [hfatal] at ho
    cases ho
  · rw [hgo] at ho ⊢
    exact go_turned hsame rfl hfill ho

theorem Turned.block_le (ht : Turned c device h i o h') (hb : h.transfer.block ≤ c.blockCount) :
    h'.transfer.block ≤ c.blockCount := by
  cases ht with
  | stopped _ _ _ hx =>
    rw [hx]
    exact hb
  | served _ _ _ _ hx =>
    rw [hx]
    exact accept_block_le hb
  | built _ _ _ _ hx =>
    rw [hx]
    exact Nat.min_le_right ..

-- ---------------------------------------------------------------------------
-- Serving a stream
-- ---------------------------------------------------------------------------

/-- The loop, with the number of bytes it has read from the control channel, and
whether it is still in the transfer. -/
structure Serving where
  handler : Handler
  consumed : Nat
  running : Bool
  deriving DecidableEq, Repr

def Serving.step (c : Config) (device : Nat → UInt8) (control : List UInt8) (s : Serving)
    (i : Input) : Option Serving :=
  if s.running ∧ i.Valid s.handler ∧ i.read.Follows control s.consumed then
    match s.handler.iteration c device i with
    | .running h => some ⟨h, s.consumed + i.read.size, true⟩
    | .stopped h | .timedOut h => some ⟨h, s.consumed + i.read.size, false⟩
    | .fatal => some { s with running := false }
  else none

def serving (c : Config) (device : Nat → UInt8) (records : List Retransmission) :
    System Serving Input where
  init s := ∃ ipd lastBlock lastWritten datagram retransmission start,
    retransmission.length = sizeofRetransmission ∧
    s = ⟨.create ipd lastBlock lastWritten datagram retransmission start, 0, true⟩
  step := Serving.step c device (stream records)

/-- So many records have been acted on as have been read whole, they are the
client's, and the rest is in the buffer. -/
structure Framed (c : Config) (records : List Retransmission) (s : Serving) : Prop where
  acted : s.handler.acted = records.take s.handler.acted.length
  whole : s.handler.acted.length = s.consumed / sizeofRetransmission
  consumed : s.consumed ≤ (stream records).length
  running : s.running = true → s.handler.transfer.block ≤ c.blockCount ∧
    s.handler.retransmitlen < sizeofRetransmission ∧
    s.consumed = sizeofRetransmission * s.handler.acted.length + s.handler.retransmitlen ∧
    Part sizeofRetransmission (stream records) s.handler.acted.length s.handler.retransmitlen
      s.handler.retransmission

variable {s t : Serving}

theorem fill_part (hp : Part sizeofRetransmission (stream records) k h.retransmitlen
      h.retransmission) (hv : i.Valid h)
    (hf : i.read.Follows (stream records) (sizeofRetransmission * k + h.retransmitlen)) :
    Part sizeofRetransmission (stream records) k (h.fill i.read).retransmitlen
      (h.fill i.read).retransmission := by
  cases hr : i.read with
  | data bytes =>
    simp only [Input.Valid, hr] at hv
    rw [hr] at hf
    exact hp.fill hf hv.2
  | nothing errno => exact hp

theorem acted_next {buffer : List UInt8} (hfits : ∀ r ∈ records, r.Fits)
    (hbefore : h.acted = records.take h.acted.length) (hk : h.acted.length < records.length)
    (hfill : Part sizeofRetransmission (stream records) h.acted.length sizeofRetransmission buffer)
    (hacted : h'.acted = h.acted ++ [Retransmission.decode buffer]) :
    h'.acted = records.take h'.acted.length ∧ h'.acted.length = h.acted.length + 1 := by
  have hrecord : Retransmission.decode buffer = records[h.acted.length] := by
    rw [hfill.whole, take_stream hk]
    exact Retransmission.decode_encode (hfits _ (List.getElem_mem hk))
  have hlength : h'.acted.length = h.acted.length + 1 := by
    rw [hacted, List.length_append, List.length_singleton]
  refine ⟨?_, hlength⟩
  rw [hlength, ← List.take_append_getElem hk, ← hbefore, hacted, hrecord]

theorem turn_framed (hfits : ∀ r ∈ records, r.Fits) (hs : Framed c records s)
    (hrun : s.running = true) (hv : i.Valid s.handler)
    (hf : i.read.Follows (stream records) s.consumed) (running : Bool)
    (ho : (s.handler.iteration c device i).handler = some h')
    (hgoes : running = true → s.handler.iteration c device i = .running h') :
    Framed c records ⟨h', s.consumed + i.read.size, running⟩ := by
  obtain ⟨hb, hl, hcons, hpart⟩ := hs.running hrun
  have hle := follows_length hf hs.consumed
  have hsize := fill_size s.handler i.read
  have hfill := fill_part hpart hv (hcons ▸ hf)
  have hturn := turn_turned hb hv (Nat.le_of_lt hl) ho
  have hblock := hturn.block_le hb
  have hwhole := hs.whole
  simp only [sizeofRetransmission] at *
  have h12 : sizeofRetransmission = 12 := rfl
  have hacts : (s.handler.fill i.read).retransmitlen = 12 →
      h'.acted = s.handler.acted ++
        [Retransmission.decode (s.handler.fill i.read).retransmission] →
      h'.acted = records.take h'.acted.length ∧
        h'.acted.length = s.handler.acted.length + 1 := by
    intro hfull hacted
    rw [hfull] at hfill
    exact acted_next hfits hs.acted (by omega) hfill hacted
  cases hturn with
  | stopped hfull hstop hacted _ _ =>
    obtain ⟨htake, hlength⟩ := hacts hfull hacted
    refine ⟨htake, ?_, length_stream records ▸ hle, fun hr => ?_⟩
    · simp only [sizeofRetransmission]
      omega
    · rw [hgoes hr] at hstop
      cases hstop
  | served hfull hacted hzero hbuffer _ _ =>
    obtain ⟨htake, hlength⟩ := hacts hfull hacted
    refine ⟨htake, ?_, length_stream records ▸ hle, fun _ => ⟨hblock, ?_, ?_, ?_⟩⟩
    · simp only [sizeofRetransmission]
      omega
    · rw [hzero]
      decide
    · simp only [sizeofRetransmission]
      omega
    · rw [hzero, hbuffer]
      exact .start (length_accepted hfill.length)
  | built hless hacted hlen hbuffer _ _ =>
    refine ⟨by rw [hacted]; exact hs.acted, ?_, length_stream records ▸ hle,
      fun _ => ⟨hblock, ?_, ?_, ?_⟩⟩
    · simp only [hacted, sizeofRetransmission]
      omega
    · simp only [sizeofRetransmission]
      omega
    · simp only [hacted, sizeofRetransmission]
      omega
    · rw [hacted, hlen, hbuffer]
      exact hfill

theorem step_framed (hfits : ∀ r ∈ records, r.Fits) (h : Framed c records s)
    (hs : s.step c device (stream records) i = some t) : Framed c records t := by
  simp only [Serving.step, Option.ite_none_right_eq_some] at hs
  obtain ⟨⟨hrun, hv, hf⟩, hs⟩ := hs
  split at hs <;> cases hs
  · rename_i h₁ ho
    exact turn_framed hfits h hrun hv hf true (by rw [ho]; rfl) fun _ => ho
  · rename_i h₁ ho
    exact turn_framed hfits h hrun hv hf false (by rw [ho]; rfl) nofun
  · rename_i h₁ ho
    exact turn_framed hfits h hrun hv hf false (by rw [ho]; rfl) nofun
  · exact ⟨h.acted, h.whole, h.consumed, nofun⟩

theorem Framed.grow {more : List Retransmission} (h : Framed c records s)
    (hpre : records <+: more) : Framed c more s := by
  have hle := h.consumed
  have hwhole := h.whole
  have hlength := length_stream records
  simp only [sizeofRetransmission] at hlength hwhole
  have hpre' : stream records <+: stream more := by
    obtain ⟨tail, rfl⟩ := hpre
    exact ⟨stream tail, by simp [stream]⟩
  refine ⟨?_, h.whole, Nat.le_trans hle hpre'.length_le, fun hrun => ?_⟩
  · obtain ⟨tail, rfl⟩ := hpre
    rw [List.take_append_of_le_length (by omega)]
    exact h.acted
  · obtain ⟨hb, hl, hcons, hpart⟩ := h.running hrun
    exact ⟨hb, hl, hcons, hpart.grow hpre' (by omega)⟩

/-- The requests acted on are the records of which every byte has been read, in
every run: there is no loss report to fall into a record. -/
theorem realtime_requests_are_records (hfits : ∀ r ∈ records, r.Fits)
    (h : (serving c device records).Reachable s) :
    s.handler.acted = records.take (s.consumed / sizeofRetransmission) := by
  have hframed : Framed c records s := by
    refine h.invariant ?_ fun _ _ _ hi hs => step_framed hfits hi hs
    rintro s ⟨ipd, lastBlock, lastWritten, datagram, retransmission, start, hlen, rfl⟩
    exact ⟨rfl, (Nat.zero_div _).symm, Nat.zero_le _,
      fun _ => ⟨Nat.zero_le _, Nat.zero_lt_succ 11, rfl, .start hlen⟩⟩
  rw [← hframed.whole]
  exact hframed.acted

/-- A report of the error rate and a stop request, in three pieces. -/
theorem realtime_requests_are_records_three_pieces :
    ∃ s : Serving, s.consumed = 24 ∧ s.handler.acted =
      [⟨requestErrorRate, 0, 500⟩, ⟨requestStop, 0, 0⟩] := by
  let records : List Retransmission := [⟨requestErrorRate, 0, 500⟩, ⟨requestStop, 0, 0⟩]
  let piece (m n : Nat) : Input :=
    ⟨⟨0, .data (((stream records).drop m).take n), true, 0, 0, 0⟩, .whole⟩
  have hrun : ((serving fiveBytesRecorded counting records).run ⟨justCreated, 0, true⟩
      [piece 0 5, piece 5 7, piece 12 12]).map (fun s => s.consumed) = some 24 := by
    decide +kernel
  obtain ⟨s, hs, hconsumed⟩ := Option.map_eq_some_iff.mp hrun
  have hinit : (serving fiveBytesRecorded counting records).Reachable ⟨justCreated, 0, true⟩ :=
    .init ⟨_, _, _, _, _, _, by decide, rfl⟩
  have hfits : ∀ r ∈ records, r.Fits := by
    simp only [records, List.forall_mem_cons]
    exact ⟨⟨by decide, by decide, by decide⟩, ⟨by decide, by decide, by decide⟩, nofun⟩
  have hacted := realtime_requests_are_records hfits (hinit.run hs)
  rw [hconsumed] at hacted
  exact ⟨s, hconsumed, hacted⟩

end Tsunami.Realtime
