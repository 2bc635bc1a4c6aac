import Tsunami.Mark5
import Tsunami.Server.Framing

/-!
# Requests to the Mark5 server

The loop of `mk5server/main.c` keeps no part of a record from one turn to the
next. A record that does not come with one read is read to its end and thrown
away: the records after it are not shifted, but its request is lost.
-/

namespace Tsunami.Mark5

open Bytes Transition
open Realtime (deviceBytes)
open Server (eagain stream length_stream take_stream)

structure Config where
  blockSize : Nat
  blockCount : Nat
  errorRate : Nat
  slowerNum : Nat
  slowerDen : Nat
  fasterNum : Nat
  fasterDen : Nat
  ipdTime : Nat

structure Transfer where
  block : Nat
  ipdCurrent : ℚ
  sender : Sender
  deriving DecidableEq, Repr

structure Accepted where
  transfer : Transfer
  sent : List (List UInt8)
  ok : Bool
  deriving DecidableEq, Repr

/-- A delay that is lowered becomes a whole number. -/
def adjustIpd (c : Config) (ipd : ℚ) (errorRate : Nat) : ℚ :=
  let ipd : ℚ :=
    if errorRate > c.errorRate then
      let factor1 : ℚ := c.slowerNum / c.slowerDen - 1
      let factor2 : ℚ := (1 + errorRate - c.errorRate) / (100000 - c.errorRate)
      ipd * (1 + factor1 * factor2)
    else (ipd * c.fasterNum / c.fasterDen).floor
  max (min ipd 10000) c.ipdTime

def Sender.packet (c : Config) (s : Sender) : List UInt8 := s.datagram.take (6 + c.blockSize)

def ttpAcceptRetransmit (c : Config) (xlrRead : XLRRead) (device : Nat → UInt8) (sendOk : Bool)
    (x : Transfer) (r : Retransmission) : Accepted :=
  if r.requestType = requestErrorRate then
    ⟨{ x with ipdCurrent := adjustIpd c x.ipdCurrent r.errorRate }, [], true⟩
  else if r.requestType = requestRestart then
    if r.block = 0 ∨ r.block > c.blockCount then ⟨x, [], false⟩
    else ⟨{ x with block := r.block }, [], true⟩
  else if r.requestType = requestRetransmit then
    let (s, ok) := buildDatagram xlrRead c.blockSize device x.sender
      ⟨r.block, tsBlockRetransmission⟩
    let x := { x with sender := s }
    if ok ∧ sendOk then ⟨x, [s.packet c], true⟩ else ⟨x, [], false⟩
  else ⟨x, [], false⟩

/-- `read`: at least one byte, none on a closed channel, with an `errno` that is
left from before, or -1. -/
inductive ReadResult
  | data (bytes : List UInt8)
  | closed (errno : Nat)
  | failed (errno : Nat)
  deriving DecidableEq, Repr

structure Input where
  read : ReadResult
  sendOk : Bool
  deriving DecidableEq, Repr

/-- At the head of the loop, or in the inner one, with so many bytes of a broken
message. -/
inductive Place
  | head
  | clearing (sofar : Nat)
  deriving DecidableEq, Repr

def Place.sofar : Place → Nat
  | head => 0
  | clearing sofar => sofar

/-- The last two fields are histories: the records taken from the channel, with
those that were acted on, and the datagrams sent. -/
structure Handler where
  transfer : Transfer
  place : Place
  taken : List (Option Retransmission)
  sent : List (List UInt8)
  deriving DecidableEq, Repr

inductive Outcome
  | running (h : Handler)
  | stopped (h : Handler)
  | fatal
  deriving DecidableEq, Repr

def Transfer.next (c : Config) (x : Transfer) : Build :=
  let block := min (u32 (x.block + 1)) c.blockCount
  ⟨block, if block = c.blockCount then tsBlockTerminate else tsBlockOriginal⟩

section

variable (c : Config) (xlrRead : XLRRead) (device : Nat → UInt8)

def Handler.request (h : Handler) (i : Input) (record : List UInt8) : Outcome :=
  let r := Retransmission.decode record
  let h := { h with taken := h.taken ++ [some r] }
  if r.requestType = requestStop then .stopped h
  else
    let a := ttpAcceptRetransmit c xlrRead device i.sendOk h.transfer r
    .running { h with transfer := a.transfer, sent := h.sent ++ a.sent }

def Handler.transmit (h : Handler) (i : Input) : Outcome :=
  let b := h.transfer.next c
  let (s, ok) := buildDatagram xlrRead c.blockSize device h.transfer.sender b
  let h := { h with transfer := { h.transfer with block := b.index, sender := s } }
  if ok then
    if i.sendOk then .running { h with sent := h.sent ++ [s.packet c] } else .running h
  else .fatal

def Handler.iteration (h : Handler) (i : Input) : Outcome :=
  match h.place with
  | .head =>
    if h.transfer.block ≤ c.blockCount then
      match i.read with
      | .data bytes =>
        if bytes.length = sizeofRetransmission then h.request c xlrRead device i bytes
        else .running { h with place := .clearing bytes.length }
      | .closed errno | .failed errno =>
        if errno ≠ eagain then .fatal else h.transmit c xlrRead device i
    else .stopped h
  | .clearing sofar =>
    match i.read with
    | .data bytes =>
      if sofar + bytes.length < sizeofRetransmission then
        .running { h with place := .clearing (sofar + bytes.length) }
      else .running { h with place := .head, taken := h.taken ++ [none] }
    | .closed _ => .running h
    | .failed errno => if errno ≠ eagain then .fatal else .running h

end

-- ---------------------------------------------------------------------------
-- Serving a stream
-- ---------------------------------------------------------------------------

/-- The loop, with the number of bytes it has read, the places in the stream at
which reads have ended, and whether it is still in the transfer. -/
structure Serving where
  handler : Handler
  consumed : Nat
  cuts : List Nat
  running : Bool
  deriving DecidableEq, Repr

def ReadResult.Follows (control : List UInt8) (s : Serving) : ReadResult → Prop
  | .data bytes => bytes <+: control.drop s.consumed ∧ 0 < bytes.length ∧
      s.handler.place.sofar + bytes.length ≤ sizeofRetransmission
  | .closed _ | .failed _ => True

instance (control : List UInt8) (s : Serving) (r : ReadResult) : Decidable (r.Follows control s) :=
  match r with
  | .data _ => inferInstanceAs (Decidable (_ ∧ _))
  | .closed _ | .failed _ => isTrue trivial

def Serving.after (s : Serving) (h : Handler) (running : Bool) : ReadResult → Serving
  | .data bytes => ⟨h, s.consumed + bytes.length, s.cuts ++ [s.consumed + bytes.length], running⟩
  | .closed _ | .failed _ => ⟨h, s.consumed, s.cuts, running⟩

def Serving.step (c : Config) (xlrRead : XLRRead) (device : Nat → UInt8) (control : List UInt8)
    (s : Serving) (i : Input) : Option Serving :=
  if s.running ∧ i.read.Follows control s then
    match s.handler.iteration c xlrRead device i with
    | .running h => some (s.after h true i.read)
    | .stopped h => some (s.after h false i.read)
    | .fatal => some { s with running := false }
  else none

def serving (c : Config) (xlrRead : XLRRead) (device : Nat → UInt8)
    (records : List Retransmission) : System Serving Input where
  init s := ∃ ipd lastBlock datagram,
    s = ⟨⟨⟨0, ipd, opened lastBlock datagram⟩, .head, [], []⟩, 0, [], true⟩
  step := Serving.step c xlrRead device (stream records)

def Split (cuts : List Nat) (k : Nat) : Prop :=
  ∃ cut ∈ cuts, sizeofRetransmission * k < cut ∧ cut < sizeofRetransmission * (k + 1)

instance (cuts : List Nat) (k : Nat) : Decidable (Split cuts k) :=
  inferInstanceAs (Decidable (∃ cut ∈ cuts, _))

/-- Every record that has been read is accounted for, and the part of the next
one that has been read is being cleared. -/
structure Framed (records : List Retransmission) (s : Serving) : Prop where
  taken : ∀ k r, records[k]? = some r → k < s.handler.taken.length →
    s.handler.taken[k]? = some (if Split s.cuts k then none else some r)
  whole : s.handler.taken.length = s.consumed / sizeofRetransmission
  consumed : s.consumed ≤ (stream records).length
  cuts : ∀ cut ∈ s.cuts, cut ≤ s.consumed
  place : s.running = true →
    s.consumed = sizeofRetransmission * s.handler.taken.length + s.handler.place.sofar ∧
      s.handler.place.sofar < sizeofRetransmission ∧
      (s.handler.place ≠ .head → Split s.cuts s.handler.taken.length)

variable {c : Config} {xlrRead : XLRRead} {device : Nat → UInt8} {records : List Retransmission}
  {h h' : Handler} {s t : Serving} {i : Input}

-- ---------------------------------------------------------------------------
-- A turn
-- ---------------------------------------------------------------------------

inductive Turned (h : Handler) (read : ReadResult) (h' : Handler) : Prop
  | idle : (∀ bytes, read ≠ .data bytes) → h'.place = h.place → h'.taken = h.taken →
      Turned h read h'
  | acted : read = .data bytes → h.place = .head → bytes.length = sizeofRetransmission →
      h'.place = .head → h'.taken = h.taken ++ [some (Retransmission.decode bytes)] →
      Turned h read h'
  | part : read = .data bytes → h.place.sofar + bytes.length < sizeofRetransmission →
      h'.place = .clearing (h.place.sofar + bytes.length) → h'.taken = h.taken → Turned h read h'
  | cleared : read = .data bytes → h.place ≠ .head →
      sizeofRetransmission ≤ h.place.sofar + bytes.length → h'.place = .head →
      h'.taken = h.taken ++ [none] → Turned h read h'

def Outcome.handler : Outcome → Option Handler
  | .running h | .stopped h => some h
  | .fatal => none

theorem transmit_turned (ho : (h.transmit c xlrRead device i).handler = some h') :
    h'.place = h.place ∧ h'.taken = h.taken := by
  simp only [Handler.transmit] at ho
  split at ho
  · split at ho <;>
    · cases ho
      exact ⟨rfl, rfl⟩
  · cases ho

theorem request_turned (ho : (h.request c xlrRead device i record).handler = some h') :
    h'.place = h.place ∧ h'.taken = h.taken ++ [some (Retransmission.decode record)] := by
  simp only [Handler.request] at ho
  split at ho <;>
  · cases ho
    exact ⟨rfl, rfl⟩

theorem turn_turned (hb : h.place = .head → h.transfer.block ≤ c.blockCount)
    (hf : ∀ bytes, i.read = .data bytes →
      h.place.sofar + bytes.length ≤ sizeofRetransmission)
    (ho : (h.iteration c xlrRead device i).handler = some h') : Turned h i.read h' := by
  unfold Handler.iteration at ho
  cases hplace : h.place with
  | head =>
    simp only [hplace, if_pos (hb hplace)] at ho
    cases hread : i.read with
    | data bytes =>
      have hle := hf bytes hread
      simp only [hread] at ho
      split at ho
      · rename_i hfull
        obtain ⟨hp, ht⟩ := request_turned ho
        exact .acted rfl hplace hfull (hp.trans hplace) ht
      · rename_i hne
        cases ho
        have hzero : h.place.sofar = 0 := by rw [hplace]; rfl
        rw [hzero, Nat.zero_add] at hle
        exact .part rfl (by omega) (by rw [hzero, Nat.zero_add]) rfl
    | closed errno | failed errno =>
      simp only [hread] at ho
      split at ho
      · cases ho
      · obtain ⟨hp, ht⟩ := transmit_turned ho
        exact .idle (by simp) hp ht
  | clearing sofar =>
    have hsofar : h.place.sofar = sofar := by rw [hplace]; rfl
    simp only [hplace] at ho
    cases hread : i.read with
    | data bytes =>
      simp only [hread] at ho
      split at ho
      · rename_i hless
        cases ho
        exact .part rfl (by rwa [hsofar]) (by rw [hsofar]) rfl
      · rename_i hfull
        cases ho
        exact .cleared rfl (by simp [hplace]) (by omega) rfl rfl
    | closed errno =>
      simp only [hread] at ho
      cases ho
      exact .idle (by simp) rfl rfl
    | failed errno =>
      simp only [hread] at ho
      split at ho <;> cases ho
      exact .idle (by simp) rfl rfl

-- ---------------------------------------------------------------------------
-- A run
-- ---------------------------------------------------------------------------

theorem split_concat : Split (cuts ++ [v]) k ↔
    Split cuts k ∨ sizeofRetransmission * k < v ∧ v < sizeofRetransmission * (k + 1) := by
  constructor
  · rintro ⟨cut, hcut, hin⟩
    rcases List.mem_append.mp hcut with hcut | hcut
    · exact .inl ⟨cut, hcut, hin⟩
    · rw [List.mem_singleton.mp hcut] at hin
      exact .inr hin
  · rintro (⟨cut, hcut, hin⟩ | hin)
    · exact ⟨cut, List.mem_append_left _ hcut, hin⟩
    · exact ⟨v, List.mem_append_right _ (List.mem_singleton_self v), hin⟩

theorem split_later (hv : sizeofRetransmission * (k + 1) ≤ v) :
    Split (cuts ++ [v]) k ↔ Split cuts k := by
  rw [split_concat, or_iff_left]
  omega

theorem cuts_le (h : ∀ cut ∈ cuts, cut ≤ v) (n : Nat) : ∀ cut ∈ cuts ++ [v + n], cut ≤ v + n := by
  intro cut hcut
  rcases List.mem_append.mp hcut with hcut | hcut
  · exact Nat.le_add_right_of_le (h cut hcut)
  · exact Nat.le_of_eq (List.mem_singleton.mp hcut)

theorem Framed.take (hs : Framed records s)
    (hlen : s.consumed + n = sizeofRetransmission * (s.handler.taken.length + 1))
    (hle : s.consumed + n ≤ (stream records).length)
    (htaken : h'.taken = s.handler.taken ++ [x]) (hhead : h'.place = .head)
    (hx : ∀ r, records[s.handler.taken.length]? = some r →
      x = if Split s.cuts s.handler.taken.length then none else some r) (running : Bool) :
    Framed records ⟨h', s.consumed + n, s.cuts ++ [s.consumed + n], running⟩ := by
  have hlength : h'.taken.length = s.handler.taken.length + 1 := by
    rw [htaken, List.length_append, List.length_singleton]
  refine ⟨fun k r hr hk => ?_, ?_, hle, cuts_le hs.cuts n,
    fun _ => ⟨?_, ?_, fun hne => absurd hhead hne⟩⟩
  · have hk' : k ≤ s.handler.taken.length := by
      simp only [hlength] at hk
      omega
    have hsplit : Split (s.cuts ++ [s.consumed + n]) k ↔ Split s.cuts k := by
      refine split_later ?_
      rw [hlen]
      exact Nat.mul_le_mul_left _ (by omega)
    simp only [hsplit, htaken]
    rcases Nat.lt_or_eq_of_le hk' with hlt | rfl
    · rw [List.getElem?_append_left hlt]
      exact hs.taken k r hr hlt
    · rw [List.getElem?_concat_length, hx r hr]
  · simp only [hlength, hlen]
    rw [Nat.mul_div_cancel_left _ (by decide)]
  · simp only [hhead, hlength, hlen]
    rfl
  · simp only [hhead]
    decide

theorem Framed.clear (hs : Framed records s)
    (hnext : s.consumed + n = sizeofRetransmission * s.handler.taken.length + sofar)
    (hpos : 0 < sofar) (hless : sofar < sizeofRetransmission)
    (hle : s.consumed + n ≤ (stream records).length) (htaken : h'.taken = s.handler.taken)
    (hplace : h'.place = .clearing sofar) (running : Bool) :
    Framed records ⟨h', s.consumed + n, s.cuts ++ [s.consumed + n], running⟩ := by
  refine ⟨fun k r hr hk => ?_, ?_, hle, cuts_le hs.cuts n, fun _ => ⟨?_, ?_, fun _ => ?_⟩⟩
  · have hk' : k < s.handler.taken.length := by rwa [← htaken]
    have hsplit : Split (s.cuts ++ [s.consumed + n]) k ↔ Split s.cuts k := by
      refine split_later (Nat.le_trans (Nat.mul_le_mul_left _ hk') ?_)
      omega
    simp only [hsplit, htaken]
    exact hs.taken k r hr hk'
  · simp only [htaken, hnext]
    rw [Nat.mul_add_div (by decide), Nat.div_eq_of_lt hless, Nat.add_zero]
  · simp only [hplace, htaken]
    exact hnext
  · simp only [hplace]
    exact hless
  · simp only [htaken]
    refine split_concat.mpr (.inr ?_)
    rw [hnext, Nat.mul_succ]
    omega

theorem turn_framed (hfits : ∀ r ∈ records, r.Fits) (hs : Framed records s)
    (hrun : s.running = true) (hf : i.read.Follows (stream records) s)
    (ht : Turned s.handler i.read h') (running : Bool) :
    Framed records (s.after h' running i.read) := by
  obtain ⟨hcons, hsofar, hsplit⟩ := hs.place hrun
  have hlen := length_stream records
  have h12 : sizeofRetransmission = 12 := rfl
  cases ht with
  | idle hread hplace htaken =>
    have hafter : s.after h' running i.read = ⟨h', s.consumed, s.cuts, running⟩ := by
      cases hr : i.read with
      | data bytes => exact absurd hr (hread bytes)
      | closed errno | failed errno => rfl
    rw [hafter]
    exact ⟨htaken ▸ hs.taken, htaken ▸ hs.whole, hs.consumed, hs.cuts,
      fun _ => by rw [hplace, htaken]; exact ⟨hcons, hsofar, hsplit⟩⟩
  | @acted bytes hread hhead hfull hplace htaken =>
    rw [hread] at hf ⊢
    obtain ⟨hpre, -, -⟩ := hf
    have hle := hpre.length_le
    rw [List.length_drop] at hle
    rw [hhead] at hcons
    have hconsumed : s.consumed = sizeofRetransmission * s.handler.taken.length := hcons
    have hnext : s.consumed + bytes.length =
        sizeofRetransmission * (s.handler.taken.length + 1) := by
      rw [hconsumed, hfull, Nat.mul_succ]
    refine hs.take hnext (by omega) htaken hplace ?_ running
    intro r hr
    obtain ⟨hk, rfl⟩ := List.getElem?_eq_some_iff.mp hr
    have hbytes : bytes = (records[s.handler.taken.length]).encode := by
      rw [← take_stream hk, ← hconsumed, ← hfull]
      exact List.prefix_iff_eq_take.mp hpre
    have hwhole : ¬Split s.cuts s.handler.taken.length := by
      rintro ⟨cut, hcut, hlt, -⟩
      have hcut' := hs.cuts cut hcut
      omega
    rw [if_neg hwhole, hbytes, Retransmission.decode_encode (hfits _ (List.getElem_mem hk))]
  | @part bytes hread hless hplace htaken =>
    rw [hread] at hf ⊢
    obtain ⟨hpre, hpos, -⟩ := hf
    have hle := hpre.length_le
    rw [List.length_drop] at hle
    exact hs.clear (by omega) (Nat.add_pos_right _ hpos) hless (by omega) htaken hplace running
  | @cleared bytes hread hne hfull hplace htaken =>
    rw [hread] at hf ⊢
    obtain ⟨hpre, -, hle'⟩ := hf
    have hle := hpre.length_le
    rw [List.length_drop] at hle
    have hnext : s.consumed + bytes.length =
        sizeofRetransmission * (s.handler.taken.length + 1) := by
      rw [Nat.mul_succ]
      omega
    refine hs.take hnext (by omega) htaken hplace ?_ running
    intro r hr
    rw [if_pos (hsplit hne)]

theorem accept_block_le (hx : x.block ≤ c.blockCount) :
    (ttpAcceptRetransmit c xlrRead device ok x r).transfer.block ≤ c.blockCount := by
  unfold ttpAcceptRetransmit
  split
  · exact hx
  · split
    · split
      · exact hx
      · rename_i hrange
        rw [not_or, Nat.not_lt] at hrange
        exact hrange.2
    · split
      · simp only
        split <;> exact hx
      · exact hx

theorem transmit_block_le (ho : (h.transmit c xlrRead device i).handler = some h') :
    h'.transfer.block ≤ c.blockCount := by
  simp only [Handler.transmit] at ho
  split at ho
  · split at ho <;>
    · cases ho
      exact Nat.min_le_right ..
  · cases ho

theorem request_block_le (hb : h.transfer.block ≤ c.blockCount)
    (ho : (h.request c xlrRead device i record).handler = some h') :
    h'.transfer.block ≤ c.blockCount := by
  simp only [Handler.request] at ho
  split at ho <;> cases ho
  · exact hb
  · exact accept_block_le hb

theorem iteration_block_le (hb : h.transfer.block ≤ c.blockCount)
    (ho : (h.iteration c xlrRead device i).handler = some h') :
    h'.transfer.block ≤ c.blockCount := by
  unfold Handler.iteration at ho
  cases hplace : h.place with
  | head =>
    simp only [hplace, if_pos hb] at ho
    cases hread : i.read with
    | data bytes =>
      simp only [hread] at ho
      split at ho
      · exact request_block_le hb ho
      · cases ho
        exact hb
    | closed errno | failed errno =>
      simp only [hread] at ho
      split at ho
      · cases ho
      · exact transmit_block_le ho
  | clearing sofar =>
    simp only [hplace] at ho
    cases hread : i.read with
    | data bytes =>
      simp only [hread] at ho
      split at ho <;>
      · cases ho
        exact hb
    | closed errno =>
      simp only [hread] at ho
      cases ho
      exact hb
    | failed errno =>
      simp only [hread] at ho
      split at ho <;> cases ho
      exact hb

theorem step_framed (hfits : ∀ r ∈ records, r.Fits)
    (h : s.handler.transfer.block ≤ c.blockCount ∧ Framed records s)
    (hs : s.step c xlrRead device (stream records) i = some t) :
    t.handler.transfer.block ≤ c.blockCount ∧ Framed records t := by
  obtain ⟨hb, hframed⟩ := h
  simp only [Serving.step, Option.ite_none_right_eq_some] at hs
  obtain ⟨⟨hrun, hf⟩, hs⟩ := hs
  have hfollows : ∀ bytes, i.read = .data bytes →
      s.handler.place.sofar + bytes.length ≤ sizeofRetransmission := by
    intro bytes hread
    rw [hread] at hf
    exact hf.2.2
  have hafter : ∀ (h : Handler) running, (s.after h running i.read).handler = h := by
    intro h running
    cases i.read <;> rfl
  split at hs <;> cases hs
  · rename_i h₁ ho
    have hsome : (s.handler.iteration c xlrRead device i).handler = some h₁ := by rw [ho]; rfl
    rw [hafter]
    exact ⟨iteration_block_le hb hsome,
      turn_framed hfits hframed hrun hf (turn_turned (fun _ => hb) hfollows hsome) true⟩
  · rename_i h₁ ho
    have hsome : (s.handler.iteration c xlrRead device i).handler = some h₁ := by rw [ho]; rfl
    rw [hafter]
    exact ⟨iteration_block_le hb hsome,
      turn_framed hfits hframed hrun hf (turn_turned (fun _ => hb) hfollows hsome) false⟩
  · refine ⟨hb, hframed.taken, hframed.whole, hframed.consumed, hframed.cuts, ?_⟩
    intro hrun'
    cases hrun'

/-- The requests that are acted on are those that one read has brought: every
record that has been read whole is served in its turn if no read ended inside
it, and is lost without a trace if one did. -/
theorem mark5_loses_split_requests (hfits : ∀ r ∈ records, r.Fits)
    (h : (serving c xlrRead device records).Reachable s) :
    s.handler.taken.length = s.consumed / sizeofRetransmission ∧
      ∀ k r, records[k]? = some r → k < s.consumed / sizeofRetransmission →
        s.handler.taken[k]? = some (if Split s.cuts k then none else some r) := by
  have hframed : s.handler.transfer.block ≤ c.blockCount ∧ Framed records s := by
    refine h.invariant ?_ fun _ _ _ hi hs => step_framed hfits hi hs
    rintro s ⟨ipd, lastBlock, datagram, rfl⟩
    refine ⟨Nat.zero_le _, ?_, (Nat.zero_div _).symm, Nat.zero_le _, ?_, fun _ => ⟨rfl, ?_, ?_⟩⟩
    · intro k r _ hk
      cases hk
    · intro cut hcut
      cases hcut
    · exact Nat.zero_lt_succ 11
    · intro hne
      exact absurd rfl hne
  exact ⟨hframed.2.whole, fun k r hr hk => hframed.2.taken k r hr (hframed.2.whole ▸ hk)⟩

def oneBlock : Config := ⟨2, 1, 7500, 25, 24, 5, 6, 10⟩

/-- A request for the block in two pieces, and a stop request in one. -/
theorem mark5_loses_split_requests_first :
    ∃ s : Serving, s.consumed = 24 ∧
      s.handler.taken[0]? = some none ∧ s.handler.taken[1]? = some (some ⟨requestStop, 0, 0⟩) := by
  let xlrRead : XLRRead := fun device desc =>
    (true, deviceBytes device desc.address desc.xferLength, desc)
  let records : List Retransmission := [⟨requestRetransmit, 1, 0⟩, ⟨requestStop, 0, 0⟩]
  let piece (m n : Nat) : Input := ⟨.data (((stream records).drop m).take n), true⟩
  let start : Serving := ⟨⟨⟨0, 30, opened 0 (List.replicate 8 0)⟩, .head, [], []⟩, 0, [], true⟩
  have hrun : ((serving oneBlock xlrRead (fun _ => 7) records).run start
      [piece 0 5, piece 5 7, piece 12 12]).map (fun s => (s.consumed, s.cuts)) =
        some (24, [5, 12, 24]) := by
    decide +kernel
  obtain ⟨s, hs, hend⟩ := Option.map_eq_some_iff.mp hrun
  obtain ⟨hconsumed, hcuts⟩ := Prod.mk.inj hend
  have hinit : (serving oneBlock xlrRead (fun _ => 7) records).Reachable start :=
    .init ⟨_, _, _, rfl⟩
  have hfits : ∀ r ∈ records, r.Fits := by
    simp only [records, List.forall_mem_cons]
    exact ⟨⟨by decide, by decide, by decide⟩, ⟨by decide, by decide, by decide⟩, nofun⟩
  obtain ⟨-, htaken⟩ := mark5_loses_split_requests hfits (hinit.run hs)
  rw [hconsumed, hcuts] at htaken
  refine ⟨s, hconsumed, ?_, ?_⟩
  · rw [htaken 0 _ rfl (by decide), if_pos (by decide)]
  · rw [htaken 1 _ rfl (by decide), if_neg (by decide)]

end Tsunami.Mark5
