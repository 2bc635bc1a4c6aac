import Tsunami.Lib.Transition
import Tsunami.Server.Handler
import Tsunami.Server.ProtocolLaws

/-!
# What an iteration of the server does

The heartbeat check touches the delay, the timers and, where it reports a
loss, the record; a whole record is one request; anything else is one block.
-/

namespace Tsunami.Server

open Bytes Transition

variable {cfg : Config} {h h' : Handler} {i : Input} {o : Outcome}

def Outcome.handler : Outcome → Option Handler
  | .running h | .stopped h | .timedOut h => some h
  | .fatal => none

/-- `read` returns at least one byte, and no more than it was asked for. -/
def Input.Valid (h : Handler) (i : Input) : Prop :=
  match i.read with
  | .data bytes => 0 < bytes.length ∧ h.retransmitlen + bytes.length ≤ sizeofRetransmission
  | .nothing _ => True

instance (h : Handler) (i : Input) : Decidable (i.Valid h) :=
  match hr : i.read with
  | .data bytes => decidable_of_iff
      (0 < bytes.length ∧ h.retransmitlen + bytes.length ≤ sizeofRetransmission)
        (by simp [Input.Valid, hr])
  | .nothing _ => isTrue (by simp [Input.Valid, hr])

def transferLoop (cfg : Config) : System Handler Input where
  init h := ∃ ipd datagram retransmission start, h = .create ipd datagram retransmission start
  step h i :=
    if i.Valid h then
      match h.iteration cfg i with
      | .running h' => some h'
      | _ => none
    else none

theorem transferLoop_step (hs : (transferLoop cfg).step h i = some h') :
    i.Valid h ∧ h.iteration cfg i = .running h' := by
  simp only [transferLoop, Option.ite_none_right_eq_some] at hs
  obtain ⟨hv, hs⟩ := hs
  split at hs
  · rename_i hh
    cases hs
    exact ⟨hv, hh⟩
  · simp at hs

-- ---------------------------------------------------------------------------
-- The datagram in the buffer
-- ---------------------------------------------------------------------------

/-- The number and the type in the header of the datagram that was built last. -/
def Sender.heading (s : Sender) : Nat × Nat := (blockNumber s.datagram, blockType s.datagram)

theorem buildDatagram_heading (cfg : Config) (s : Sender) (hb : b < 2 ^ 32) (ht : ty < 2 ^ 16) :
    (buildDatagram cfg s b ty).heading = (b, ty) := by
  obtain ⟨rest, hdatagram⟩ : ∃ rest, (buildDatagram cfg s b ty).datagram = header b ty ++ rest :=
    ⟨_, rfl⟩
  rw [Sender.heading, hdatagram, blockNumber_header hb, blockType_header ht]

theorem nextBlock_fits (cfg : Config) (s : Sender) :
    (nextBlock cfg s).1 < 2 ^ 32 ∧ (nextBlock cfg s).2 < 2 ^ 16 := by
  refine ⟨Nat.lt_of_le_of_lt (Nat.min_le_left ..) (Nat.mod_lt _ (by decide)), ?_⟩
  simp only [nextBlock]
  split <;> decide

-- ---------------------------------------------------------------------------
-- The heartbeat check
-- ---------------------------------------------------------------------------

@[simp] theorem decode_reportLoss_type (buffer : List UInt8) :
    (Retransmission.decode (reportLoss buffer)).requestType = requestErrorRate := ofBe_be16 _

theorem reported_eq (cfg : Config) (s : Sender) (buffer : List UInt8) :
    ∃ ipd, reported cfg s buffer = ⟨{ s with ipdCurrent := ipd },
      blit (blit (reportLoss buffer) 4
        (hostBytes cfg (Retransmission.decode (reportLoss buffer)).block)) 8
        (hostBytes cfg (Retransmission.decode (reportLoss buffer)).errorRate), [], true⟩ :=
  ⟨adjustIpd cfg s.ipdCurrent (Retransmission.decode (reportLoss buffer)).errorRate, by
    simp only [reported, ttpAcceptRetransmit, decode_reportLoss_type, if_true]⟩

/-- What the heartbeat check leaves alone. The record changes only where a
loss is reported. -/
structure Beat (cfg : Config) (i : Input) (h h' : Handler) : Prop where
  sender : ∃ ipd, h'.sender = { h.sender with ipdCurrent := ipd }
  retransmitlen : h'.retransmitlen = h.retransmitlen
  acted : h'.acted = h.acted
  built : h'.built = h.built
  sent : h'.sent = h.sent
  record : h'.retransmission =
    if h.reportDue i then (reported cfg h.sender h.retransmission).buffer else h.retransmission

theorem heartbeat_beat (ho : (h.heartbeat cfg i).handler = some h') : Beat cfg i h h' := by
  obtain ⟨ipd, hrep⟩ := reported_eq cfg h.sender h.retransmission
  simp only [Handler.heartbeat] at ho
  split at ho
  · split at ho
    · rename_i hdue
      split at ho <;>
      · simp only [Outcome.handler, Option.some.injEq] at ho
        subst ho
        exact ⟨⟨ipd, by rw [hrep]⟩, rfl, rfl, rfl, rfl, by rw [if_pos hdue]⟩
    · rename_i hdue
      simp only [Outcome.handler, Option.some.injEq] at ho
      subst ho
      exact ⟨⟨_, rfl⟩, rfl, rfl, rfl, rfl, by rw [if_neg hdue]⟩
  · rename_i hfew
    simp only [Outcome.handler, Option.some.injEq] at ho
    subst ho
    have hdue : ¬h.reportDue i := by simp [Handler.reportDue, hfew]
    exact ⟨⟨_, rfl⟩, rfl, rfl, rfl, rfl, by rw [if_neg hdue]⟩

theorem heartbeat_isSome (cfg : Config) (h : Handler) (i : Input) :
    (h.heartbeat cfg i).handler ≠ none := by
  simp only [Handler.heartbeat]
  split
  · split
    · split <;> simp [Outcome.handler]
    · simp [Outcome.handler]
  · simp [Outcome.handler]

-- ---------------------------------------------------------------------------
-- The turns of the loop
-- ---------------------------------------------------------------------------

/-- The state before the heartbeat check, after a record that is not a stop. -/
def Handler.served (cfg : Config) (h : Handler) (i : Input) : Handler :=
  let a := ttpAcceptRetransmit cfg i.sendOk h.sender h.retransmission
  { h with
    lastfeedback := i.now
    lasthblostreport := i.now
    deadconnectionCounter := 0
    acted := h.acted ++ [Retransmission.decode h.retransmission]
    sender := a.sender
    retransmission := a.buffer
    retransmitlen := 0
    sent := h.sent ++ a.sent }

def Handler.blasted (cfg : Config) (h : Handler) : Handler :=
  let b := nextBlock cfg h.sender
  { h with
    sender := buildDatagram cfg { h.sender with block := b.1 } b.1 b.2
    built := h.built ++ [b] }

inductive Turn (cfg : Config) (h : Handler) (i : Input) : Outcome → Prop
  | left : cfg.blockCount < h.sender.block → Turn cfg h i (.stopped h)
  | fatal : i.read = .nothing errno → errno ≠ eagain → Turn cfg h i .fatal
  | stop : (h.fill i.read).retransmitlen = sizeofRetransmission →
      (Retransmission.decode (h.fill i.read).retransmission).requestType = requestStop →
      Turn cfg h i (.stopped { h.fill i.read with
        lastfeedback := i.now
        lasthblostreport := i.now
        deadconnectionCounter := 0
        acted := h.acted ++ [Retransmission.decode (h.fill i.read).retransmission] })
  | request : (h.fill i.read).retransmitlen = sizeofRetransmission →
      (Retransmission.decode (h.fill i.read).retransmission).requestType ≠ requestStop →
      Turn cfg h i (((h.fill i.read).served cfg i).heartbeat cfg i)
  | block : (h.fill i.read).retransmitlen < sizeofRetransmission → i.sendOk = true →
      Turn cfg h i ({ (h.fill i.read).blasted cfg with
        sent := h.sent ++ [((h.fill i.read).blasted cfg).sender.packet cfg] }.heartbeat cfg i)
  | unsent : (h.fill i.read).retransmitlen < sizeofRetransmission → i.sendOk = false →
      Turn cfg h i (.running ((h.fill i.read).blasted cfg))

@[simp] theorem fill_sender (h : Handler) (r : ReadResult) : (h.fill r).sender = h.sender := by
  cases r <;> rfl

@[simp] theorem fill_acted (h : Handler) (r : ReadResult) : (h.fill r).acted = h.acted := by
  cases r <;> rfl

@[simp] theorem fill_built (h : Handler) (r : ReadResult) : (h.fill r).built = h.built := by
  cases r <;> rfl

@[simp] theorem fill_sent (h : Handler) (r : ReadResult) : (h.fill r).sent = h.sent := by
  cases r <;> rfl

theorem fill_retransmitlen_le (hl : h.retransmitlen ≤ sizeofRetransmission) (hv : i.Valid h) :
    (h.fill i.read).retransmitlen ≤ sizeofRetransmission := by
  cases hr : i.read with
  | data bytes =>
    simp only [Input.Valid, hr] at hv
    exact hv.2
  | nothing errno => exact hl

theorem go_turn (hl : (h.fill i.read).retransmitlen ≤ sizeofRetransmission) :
    Turn cfg h i (Handler.iteration.go cfg (h.fill i.read) i) := by
  simp only [Handler.iteration.go]
  split
  · rename_i hfull
    simp only [Handler.request]
    split
    · rename_i hstop
      have hturn : Turn cfg h i _ := .stop hfull hstop
      simpa using hturn
    · rename_i hstop
      exact .request hfull hstop
  · split
    · rename_i hpart
      simp only [Handler.transmit]
      split
      · rename_i hsend
        have hturn : Turn cfg h i _ := .block hpart hsend
        simpa [Handler.blasted] using hturn
      · rename_i hsend
        exact .unsent hpart (eq_false_of_ne_true hsend)
    · omega

theorem iteration_turn (hl : h.retransmitlen ≤ sizeofRetransmission) (hv : i.Valid h) :
    Turn cfg h i (h.iteration cfg i) := by
  have hfill := fill_retransmitlen_le hl hv
  simp only [Handler.iteration]
  split
  · split
    · rename_i errno hread
      split
      · rename_i herr
        exact .fatal hread herr
      · have hgo : Turn cfg h i _ := go_turn hfill
        rwa [hread] at hgo
    · exact go_turn hfill
  · exact .left (by omega)

theorem fatal_of_handler (ho : o.handler = none) : o = .fatal := by
  cases o with
  | fatal => rfl
  | _ => simp [Outcome.handler] at ho

theorem iteration_fatal_iff (hb : h.sender.block ≤ cfg.blockCount)
    (hl : h.retransmitlen ≤ sizeofRetransmission) (hv : i.Valid h) :
    h.iteration cfg i = .fatal ↔ ∃ errno, i.read = .nothing errno ∧ errno ≠ eagain := by
  constructor
  · intro ho
    have hturn : Turn cfg h i (h.iteration cfg i) := iteration_turn hl hv
    have hnone : (h.iteration cfg i).handler = none := by rw [ho, Outcome.handler]
    generalize h.iteration cfg i = out at hturn hnone
    cases hturn with
    | fatal hr herr => exact ⟨_, hr, herr⟩
    | request => exact absurd hnone (heartbeat_isSome _ _ _)
    | block => exact absurd hnone (heartbeat_isSome _ _ _)
    | _ => cases hnone
  · rintro ⟨errno, hr, herr⟩
    simp [Handler.iteration, hb, hr, herr]

def Blasts (cfg : Config) (h : Handler) (i : Input) (h' : Handler) : Prop :=
  ((h.fill i.read).retransmitlen < sizeofRetransmission ∧ i.sendOk = true ∧
    Beat cfg i { (h.fill i.read).blasted cfg with
      sent := h.sent ++ [((h.fill i.read).blasted cfg).sender.packet cfg] } h') ∨
  ((h.fill i.read).retransmitlen < sizeofRetransmission ∧ i.sendOk = false ∧
    h' = (h.fill i.read).blasted cfg)

theorem handler_cases (hb : h.sender.block ≤ cfg.blockCount)
    (hl : h.retransmitlen ≤ sizeofRetransmission) (hv : i.Valid h)
    (ho : (h.iteration cfg i).handler = some h') :
    ((h.fill i.read).retransmitlen = sizeofRetransmission ∧
      h'.acted = h.acted ++ [Retransmission.decode (h.fill i.read).retransmission] ∧
      (h'.sender = h.sender ∧ h'.sent = h.sent ∧ h'.built = h.built ∧
        h.iteration cfg i = .stopped h' ∨ Beat cfg i ((h.fill i.read).served cfg i) h')) ∨
    Blasts cfg h i h' := by
  have hturn : Turn cfg h i (h.iteration cfg i) := iteration_turn hl hv
  generalize hout : h.iteration cfg i = out at hturn ho
  cases hturn with
  | left hgt => omega
  | fatal => simp [Outcome.handler] at ho
  | stop hfull hstop =>
    simp only [Outcome.handler, Option.some.injEq] at ho
    subst ho
    exact .inl ⟨hfull, rfl, .inl ⟨by simp, by simp, by simp, rfl⟩⟩
  | request hfull hstop =>
    have hbeat := heartbeat_beat ho
    exact .inl ⟨hfull, hbeat.acted.trans (by simp [Handler.served]), .inr hbeat⟩
  | block hpart hsend => exact .inr (.inl ⟨hpart, hsend, heartbeat_beat ho⟩)
  | unsent hpart hsend =>
    simp only [Outcome.handler, Option.some.injEq] at ho
    exact .inr (.inr ⟨hpart, hsend, ho.symm⟩)

theorem running_block_le (ho : h.iteration cfg i = .running h') :
    h.sender.block ≤ cfg.blockCount := by
  by_contra hgt
  rw [Handler.iteration, if_neg hgt] at ho
  simp at ho

theorem running_cases (hl : h.retransmitlen ≤ sizeofRetransmission) (hv : i.Valid h)
    (ho : h.iteration cfg i = .running h') :
    ((h.fill i.read).retransmitlen = sizeofRetransmission ∧
      Beat cfg i ((h.fill i.read).served cfg i) h') ∨
    Blasts cfg h i h' := by
  rcases handler_cases (running_block_le ho) hl hv (by rw [ho]; rfl) with ⟨hfull, -, hreq⟩ | hpart
  · rcases hreq with ⟨-, -, -, hstop⟩ | hbeat
    · simp [ho] at hstop
    · exact .inl ⟨hfull, hbeat⟩
  · exact .inr hpart

theorem running_retransmitlen (hl : h.retransmitlen ≤ sizeofRetransmission) (hv : i.Valid h)
    (ho : h.iteration cfg i = .running h') : h'.retransmitlen < sizeofRetransmission := by
  rcases running_cases hl hv ho with ⟨-, hbeat⟩ | ⟨hpart, -, hbeat⟩ | ⟨hpart, -, rfl⟩
  · rw [hbeat.retransmitlen]
    exact Nat.zero_lt_succ 11
  · rw [hbeat.retransmitlen]
    exact hpart
  · exact hpart

theorem running_acted (hl : h.retransmitlen ≤ sizeofRetransmission) (hv : i.Valid h)
    (ho : h.iteration cfg i = .running h') : h.acted <+: h'.acted := by
  rcases running_cases hl hv ho with ⟨-, hbeat⟩ | ⟨-, -, hbeat⟩ | ⟨-, -, rfl⟩
  · rw [hbeat.acted]
    simp [Handler.served]
  · rw [hbeat.acted]
    simp [Handler.blasted]
  · simp [Handler.blasted]

theorem quiet_turn (hl : h.retransmitlen ≤ sizeofRetransmission) (hv : i.Valid h)
    (ho : h.iteration cfg i = .running h') (hq : h'.acted = h.acted) :
    h'.built = h.built ++ [nextBlock cfg h.sender] ∧
    h'.sender.block = (nextBlock cfg h.sender).1 ∧
    h'.sender.heading = nextBlock cfg h.sender := by
  obtain ⟨hb, ht⟩ := nextBlock_fits cfg h.sender
  rcases running_cases hl hv ho with ⟨-, hbeat⟩ | ⟨-, -, hbeat⟩ | ⟨-, -, rfl⟩
  · have hacted := hbeat.acted
    rw [hq] at hacted
    simp [Handler.served] at hacted
  · obtain ⟨ipd, hs⟩ := hbeat.sender
    rw [hbeat.built, hs]
    simp only [Handler.blasted, fill_sender, fill_built]
    exact ⟨trivial, rfl, buildDatagram_heading cfg { h.sender with block := _ } hb ht⟩
  · simp only [Handler.blasted, fill_sender, fill_built]
    exact ⟨trivial, rfl, buildDatagram_heading cfg _ hb ht⟩

theorem running_block (hl : h.retransmitlen ≤ sizeofRetransmission) (hv : i.Valid h)
    (ho : h.iteration cfg i = .running h') : h'.sender.block ≤ cfg.blockCount := by
  have hb := running_block_le ho
  rcases running_cases hl hv ho with ⟨-, hbeat⟩ | ⟨-, -, hbeat⟩ | ⟨-, -, rfl⟩
  · obtain ⟨ipd, hs⟩ := hbeat.sender
    rw [hs]
    have hanswers := ttpAcceptRetransmit_answers cfg i.sendOk (h.fill i.read).sender
      (h.fill i.read).retransmission
    exact hanswers.block_le (by rwa [fill_sender])
  · obtain ⟨ipd, hs⟩ := hbeat.sender
    rw [hs]
    exact Nat.min_le_right ..
  · exact Nat.min_le_right ..

-- ---------------------------------------------------------------------------
-- At the head of the loop
-- ---------------------------------------------------------------------------

structure Starts (h : Handler) : Prop where
  block : h.sender.block = 0
  retransmitlen : h.retransmitlen = 0

structure AtHead (cfg : Config) (h : Handler) : Prop where
  block : h.sender.block ≤ cfg.blockCount
  retransmitlen : h.retransmitlen < sizeofRetransmission

theorem step_atHead (hh : AtHead cfg h) (hs : (transferLoop cfg).step h i = some h') :
    AtHead cfg h' := by
  obtain ⟨hv, ho⟩ := transferLoop_step hs
  have hl := Nat.le_of_lt hh.retransmitlen
  exact ⟨running_block hl hv ho, running_retransmitlen hl hv ho⟩

theorem run_atHead (hh : AtHead cfg h₀) (hr : (transferLoop cfg).run h₀ is = some h) :
    AtHead cfg h := by
  induction is generalizing h₀ with
  | nil =>
    cases hr
    exact hh
  | cons i is ih =>
    obtain ⟨h₁, hs, hr⟩ := System.run_cons.mp hr
    exact ih (step_atHead hh hs) hr

theorem Starts.atHead (hs : Starts h₀) (cfg : Config) : AtHead cfg h₀ :=
  ⟨hs.block ▸ Nat.zero_le _, hs.retransmitlen ▸ Nat.zero_lt_succ 11⟩

end Tsunami.Server
