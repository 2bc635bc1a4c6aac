import Mathlib.Tactic.Positivity
import Tsunami.Lib.Pacing
import Tsunami.Server.Framing

/-!
# The rate of the server

The delay between the datagrams: `ipd_current` adapts to the client's error
rate, never below the `ipd_time` of the target rate, and the loop sleeps off
what it has not lost elsewhere. A turn that goes to `continue` does not sleep.
-/

namespace Tsunami.Server

open Bytes Transition Pacing

/-- The loop with its clock. `wake` is not in the source: the next turn does
not begin before, since `usleep_that_works` waits at least as long as it is
told to. -/
structure Paced where
  handler : Handler
  prevpacketT : Nat
  ipdTime : Int
  ipdTimeMax : Int
  wake : Nat

/-- The turn gets to its end: `sendto` has not failed, and no report of a lost
heartbeat has been held back. -/
def Handler.sleeps (h : Handler) (i : Input) : Bool :=
  let h := h.fill i.read
  if h.retransmitlen = sizeofRetransmission then true
  else
    (h.retransmitlen > sizeofRetransmission || i.sendOk) &&
      !(h.deadconnectionCounter > 2048 && !h.reportDue i)

def Handler.lastType (cfg : Config) (h : Handler) (i : Input) : Nat :=
  if (h.fill i.read).retransmitlen < sizeofRetransmission then (nextBlock cfg h.sender).2
  else tsBlockRetransmission

def Paced.step (cfg : Config) (s : Paced) (i : Input) : Option Paced :=
  if i.Valid s.handler ∧ s.wake ≤ i.now then
    let ipdTime := wait s.handler.sender.ipdCurrent (i.now - s.prevpacketT) s.ipdTime
    let ipdTimeMax := max ipdTime s.ipdTimeMax
    match s.handler.iteration cfg i with
    | .running h => some
      { handler := h
        prevpacketT := i.now
        ipdTime := ipdTime
        ipdTimeMax := ipdTimeMax
        wake := i.now + if s.handler.sleeps i then
          (if s.handler.lastType cfg i = tsBlockTerminate then (10 * ipdTimeMax).toNat else 0) +
            ipdTime.toNat else 0 }
    | _ => none
  else none

def pacedLoop (cfg : Config) (start : Nat) : System Paced Input where
  init s := ∃ datagram retransmission, s =
    ⟨.create (u32 (3 * cfg.ipdTime) : Nat) datagram retransmission start, start, 0, 0, start⟩
  step := Paced.step cfg

-- ---------------------------------------------------------------------------
-- One turn
-- ---------------------------------------------------------------------------

variable {cfg : Config} {h h' : Handler} {i : Input} {s t : Paced} {start : Nat}

theorem ipdTime_le_adjustIpd (cfg : Config) (ipd : ℚ) (errorRate : Nat) :
    (cfg.ipdTime : ℚ) ≤ adjustIpd cfg ipd errorRate := le_max_right ..

theorem accepted_ipd (ok : Bool) (q : Sender) (buffer : List UInt8)
    (hq : (cfg.ipdTime : ℚ) ≤ q.ipdCurrent) :
    (cfg.ipdTime : ℚ) ≤ (ttpAcceptRetransmit cfg ok q buffer).sender.ipdCurrent ∧
      (ttpAcceptRetransmit cfg ok q buffer).sent.length ≤ 1 := by
  have hanswer := ttpAcceptRetransmit_answers cfg ok q buffer
  generalize ttpAcceptRetransmit cfg ok q buffer = a at hanswer
  obtain ⟨sender, record, sent, status⟩ := a
  cases hanswer with
  | errorRate => exact ⟨ipdTime_le_adjustIpd .., Nat.zero_le _⟩
  | refused | restart | unsent | unknown => exact ⟨hq, Nat.zero_le _⟩
  | retransmit => exact ⟨hq, Nat.le_refl _⟩

theorem heartbeat_pace (hq : (cfg.ipdTime : ℚ) ≤ h.sender.ipdCurrent)
    (ho : h.heartbeat cfg i = .running h') :
    (cfg.ipdTime : ℚ) ≤ h'.sender.ipdCurrent ∧ h'.sent = h.sent ∧
      (h.deadconnectionCounter > 2048 → h.reportDue i = false → h'.deadconnectionCounter = 0) := by
  simp only [Handler.heartbeat] at ho
  split at ho
  · rename_i hmany
    split at ho
    · rename_i hdue
      split at ho
      · cases ho
      · cases ho
        have hipd := (accepted_ipd true h.sender (reportLoss h.retransmission) hq).1
        exact ⟨hipd, rfl, fun _ _ => rfl⟩
    · cases ho
      exact ⟨hq, rfl, fun _ _ => rfl⟩
  · rename_i hfew
    cases ho
    exact ⟨hq, rfl, fun hmany => absurd hmany hfew⟩

/-- What a turn means for the rate: one datagram at most, and none without a
sleep behind it but where a report has been held back. -/
structure Turned (cfg : Config) (h : Handler) (i : Input) (h' : Handler) : Prop where
  ipd : (cfg.ipdTime : ℚ) ≤ h'.sender.ipdCurrent
  sent : h'.sent.length ≤ h.sent.length + 1
  sleepless : h.sleeps i = false →
    h'.sent = h.sent ∧ h'.deadconnectionCounter = h.deadconnectionCounter ∨
      h.deadconnectionCounter ≠ 0 ∧ h'.deadconnectionCounter = 0

theorem iteration_turned (hl : h.retransmitlen ≤ sizeofRetransmission) (hv : i.Valid h)
    (hq : (cfg.ipdTime : ℚ) ≤ h.sender.ipdCurrent) (ho : h.iteration cfg i = .running h') :
    Turned cfg h i h' := by
  have hturn : Turn cfg h i (h.iteration cfg i) := iteration_turn hl hv
  rw [ho] at hturn
  generalize hout : Outcome.running h' = out at hturn
  cases hturn with
  | left | fatal | stop => cases hout
  | request hfull hstop =>
    obtain ⟨hipd, hsent⟩ := accepted_ipd i.sendOk (h.fill i.read).sender
      (h.fill i.read).retransmission (by rw [fill_sender]; exact hq)
    obtain ⟨hipd', hsent', -⟩ := heartbeat_pace (h := (h.fill i.read).served cfg i) hipd hout.symm
    refine ⟨hipd', ?_, fun hno => ?_⟩
    · rw [hsent']
      simp only [Handler.served, fill_sent, List.length_append]
      omega
    · simp [Handler.sleeps, hfull] at hno
  | block hpart hsend =>
    obtain ⟨hipd', hsent', hskip⟩ := heartbeat_pace (by
      simp only [Handler.blasted, buildDatagram, fill_sender]
      exact hq) hout.symm
    refine ⟨hipd', ?_, fun hno => .inr ?_⟩
    · rw [hsent', List.length_append]
      exact Nat.le_refl _
    · have hcount : (h.fill i.read).deadconnectionCounter = h.deadconnectionCounter := by
        cases i.read <;> rfl
      simp only [Handler.sleeps, if_neg (Nat.ne_of_lt hpart), hsend, Bool.or_true, Bool.true_and,
        Bool.not_eq_false', Bool.and_eq_true, decide_eq_true_eq, Bool.not_eq_true'] at hno
      obtain ⟨hmany, hdue⟩ := hno
      exact ⟨by omega, hskip hmany hdue⟩
  | unsent hpart hsend =>
    cases hout
    refine ⟨?_, ?_, fun _ => .inl ⟨?_, ?_⟩⟩
    · simp only [Handler.blasted, buildDatagram, fill_sender]
      exact hq
    · simp [Handler.blasted]
    · simp [Handler.blasted]
    · cases i.read <;> rfl

-- ---------------------------------------------------------------------------
-- Every run
-- ---------------------------------------------------------------------------

/-- What is known at the head of a turn. Where the counter of the heartbeat
check stands at 0, a turn may have ended without a sleep. -/
structure OnTime (cfg : Config) (start : Nat) (s : Paced) : Prop where
  retransmitlen : s.handler.retransmitlen < sizeofRetransmission
  ipd : (cfg.ipdTime : ℚ) ≤ s.handler.sender.ipdCurrent
  metered : ∃ n, Metered cfg.ipdTime start n s.prevpacketT s.ipdTime ∧ s.handler.sent.length ≤ n
  prev : start ≤ s.prevpacketT ∧ s.prevpacketT ≤ s.wake
  rate : s.handler.sent.length * cfg.ipdTime + start ≤
    s.wake + if s.handler.deadconnectionCounter = 0 then cfg.ipdTime else 0

theorem Paced.step_running (hs : s.step cfg i = some t) :
    i.Valid s.handler ∧ s.wake ≤ i.now ∧ s.handler.iteration cfg i = .running t.handler ∧
      t.prevpacketT = i.now ∧
      t.ipdTime = wait s.handler.sender.ipdCurrent (i.now - s.prevpacketT) s.ipdTime ∧
      i.now ≤ t.wake ∧ (s.handler.sleeps i = true → i.now + t.ipdTime ≤ t.wake) := by
  simp only [Paced.step, Option.ite_none_right_eq_some] at hs
  obtain ⟨⟨hv, hwake⟩, hs⟩ := hs
  split at hs
  · rename_i ho
    cases hs
    refine ⟨hv, hwake, ho, rfl, rfl, Nat.le_add_right .., fun hsleep => ?_⟩
    simp only [hsleep, if_true]
    omega
  · cases hs

theorem step_onTime (h : OnTime cfg start s) (hs : s.step cfg i = some t) : OnTime cfg start t := by
  obtain ⟨hv, hwake, ho, hprev, hipd, hnow, hsleep⟩ := Paced.step_running hs
  have hl := Nat.le_of_lt h.retransmitlen
  have hturned := iteration_turned hl hv h.ipd ho
  obtain ⟨n, hmetered, hn⟩ := h.metered
  have hmetered' := hmetered.turn h.ipd i.now
  rw [← hipd] at hmetered'
  have hstart := h.prev
  have hrate := h.rate
  refine ⟨running_retransmitlen hl hv ho, hturned.ipd, ⟨n + 1, ?_, ?_⟩, ?_, ?_⟩
  · rw [hprev]
    exact hmetered'
  · exact hturned.sent.trans (Nat.succ_le_succ hn)
  · rw [hprev]
    exact ⟨by omega, hnow⟩
  · cases hslept : s.handler.sleeps i with
    | true =>
      -- all that was due has passed
      have hdue := hmetered'.waited (hsleep hslept)
      have hsent : (t.handler.sent.length * cfg.ipdTime : Int) ≤ (n + 1 : Nat) * cfg.ipdTime := by
        exact_mod_cast Nat.mul_le_mul_right _ (hturned.sent.trans (Nat.succ_le_succ hn))
      have hbound : t.handler.sent.length * cfg.ipdTime + start ≤ t.wake := by
        zify
        omega
      omega
    | false =>
      rcases hturned.sleepless hslept with ⟨hsent, hcount⟩ | ⟨hbefore, hafter⟩
      · rw [hsent, hcount]
        omega
      · rw [if_neg hbefore] at hrate
        rw [if_pos hafter]
        have hmul := Nat.mul_le_mul_right cfg.ipdTime hturned.sent
        rw [Nat.add_mul, Nat.one_mul] at hmul
        omega

theorem pacedLoop_onTime (hfits : 3 * cfg.ipdTime < 2 ^ 32)
    (h : (pacedLoop cfg start).Reachable s) : OnTime cfg start s := by
  refine h.invariant ?_ fun _ _ _ hi hs => step_onTime hi hs
  rintro s ⟨datagram, retransmission, rfl⟩
  refine ⟨Nat.zero_lt_succ 11, ?_, ⟨0, metered_start .., Nat.le_refl _⟩,
    ⟨Nat.le_refl _, Nat.le_refl _⟩, ?_⟩
  · simp only [Handler.create, u32_of_lt hfits]
    exact_mod_cast Nat.le_mul_of_pos_left _ (by decide)
  · simp [Handler.create]

/-- The server keeps to the target rate: since the start of the transfer it has
sent no more than one datagram for every `ipd_time` that has passed, and two. -/
theorem server_keeps_rate (hfits : 3 * cfg.ipdTime < 2 ^ 32)
    (h : (pacedLoop cfg start).Reachable s) (hs : (pacedLoop cfg start).step s i = some t) :
    t.handler.sent.length * cfg.ipdTime ≤ (i.now - start) + 2 * cfg.ipdTime := by
  have hontime := pacedLoop_onTime hfits h
  obtain ⟨hv, hwake, ho, -⟩ := Paced.step_running hs
  have hturned := iteration_turned (Nat.le_of_lt hontime.retransmitlen) hv hontime.ipd ho
  have hrate := hontime.rate
  have hstart := hontime.prev
  have hslack : (if s.handler.deadconnectionCounter = 0 then cfg.ipdTime else 0) ≤ cfg.ipdTime := by
    split <;> omega
  have hmul := Nat.mul_le_mul_right cfg.ipdTime hturned.sent
  rw [Nat.add_mul, Nat.one_mul] at hmul
  omega

/-- The second turn comes 1.5 ms late, the third and the fourth make up for it
without a sleep, and the fifth sends the fifth datagram. -/
theorem server_keeps_rate_late_turn :
    ∃ t : Paced, t.handler.sent.length = 5 ∧
      t.handler.sent.length * 200 ≤ (2405 - 5) + 2 * 200 := by
  let cfg : Config :=
    { oneByte with file := [7, 7, 7, 7, 7], blockCount := 5, ipdTime := 200 }
  let s : Paced := ⟨.create (600 : Nat) (List.replicate 16 0) (List.replicate 12 0) 5, 5, 0, 0, 5⟩
  have hrun : ((pacedLoop cfg 5).run s ([5, 2105, 2105, 2105].map idleAt)).map
      (fun u => ((pacedLoop cfg 5).step u (idleAt 2405)).map fun t => t.handler.sent.length) =
      some (some 5) := by
    decide +kernel
  obtain ⟨u, hu, hlast⟩ := Option.map_eq_some_iff.mp hrun
  obtain ⟨t, ht, hsent⟩ := Option.map_eq_some_iff.mp hlast
  have hinit : (pacedLoop cfg 5).Reachable s :=
    .init ⟨List.replicate 16 0, List.replicate 12 0, rfl⟩
  exact ⟨t, hsent, server_keeps_rate (by decide) (hinit.run hu) ht⟩

end Tsunami.Server
