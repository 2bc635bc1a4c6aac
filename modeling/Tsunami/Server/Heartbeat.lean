import Tsunami.Server.Framing

/-!
# When the server gives a client up

The heartbeat is looked at once in 2050 turns. A client that has gone is given
up at the first look behind the timeout, a client that has sent a record within
the timeout never is. Turns whose `sendto` fails do not come to the check.
-/

namespace Tsunami.Server

open Bytes Transition

def Handler.serve (cfg : Config) : Handler → List Input → Outcome
  | h, [] => .running h
  | h, i :: is =>
    match h.iteration cfg i with
    | .running h' => h'.serve cfg is
    | o => o

variable {cfg : Config} {h h' h₁ h₂ h₃ : Handler} {i j last : Input} {is mid : List Input}

theorem serve_cons_running (ho : h.iteration cfg i = .running h') :
    h.serve cfg (i :: is) = h'.serve cfg is := by
  rw [Handler.serve, ho]

-- ---------------------------------------------------------------------------
-- A client that has gone
-- ---------------------------------------------------------------------------

/-- Nothing arrives, at a time when half a second has passed since the last
report, and more than the timeout since the last record. -/
structure Late (cfg : Config) (h : Handler) (i : Input) : Prop where
  silent : i.read = .nothing eagain
  report : ¬getUsecSince h.lasthblostreport i.checkAt < 500000
  timeout : 1000000 * cfg.hbTimeout < getUsecSince h.lastfeedback i.timeoutAt

theorem Late.congr (hl : Late cfg h i) (hr : h'.lasthblostreport = h.lasthblostreport)
    (hf : h'.lastfeedback = h.lastfeedback) : Late cfg h' i :=
  ⟨hl.silent, by rw [hr]; exact hl.report, by rw [hf]; exact hl.timeout⟩

theorem late_iteration (hh : AtHead cfg h) (hl : Late cfg h i) :
    h.iteration cfg i = if i.sendOk then { h.blasted cfg with
      sent := h.sent ++ [(h.blasted cfg).sender.packet cfg] }.heartbeat cfg i
      else .running (h.blasted cfg) := by
  simp [Handler.iteration, hh.block, hl.silent, Handler.iteration.go, hh.retransmitlen,
    Nat.ne_of_lt hh.retransmitlen, Handler.transmit, Handler.blasted]

theorem blasted_atHead (hh : AtHead cfg h) : AtHead cfg (h.blasted cfg) where
  block := Nat.min_le_right ..
  retransmitlen := hh.retransmitlen

theorem late_goesOn (hh : AtHead cfg h) (hl : Late cfg h i)
    (hearly : i.sendOk = true → h.deadconnectionCounter ≤ 2048) :
    ∃ h', h.iteration cfg i = .running h' ∧ AtHead cfg h' ∧
      h'.deadconnectionCounter = h.deadconnectionCounter + (if i.sendOk then 1 else 0) ∧
      h'.lasthblostreport = h.lasthblostreport ∧ h'.lastfeedback = h.lastfeedback := by
  have hblasted := blasted_atHead hh
  rw [late_iteration hh hl]
  cases hsend : i.sendOk with
  | false => exact ⟨h.blasted cfg, rfl, hblasted, rfl, rfl, rfl⟩
  | true =>
    have hfew := hearly hsend
    simp only [if_true]
    rw [Handler.heartbeat, if_neg (by simp only [Handler.blasted]; omega)]
    exact ⟨_, rfl, ⟨hblasted.block, hblasted.retransmitlen⟩, rfl, rfl, rfl⟩

theorem late_timedOut (hh : AtHead cfg h) (hl : Late cfg h i) (hsend : i.sendOk = true)
    (hmany : 2048 < h.deadconnectionCounter) : ∃ h', h.iteration cfg i = .timedOut h' := by
  rw [late_iteration hh hl, hsend, if_pos rfl, Handler.heartbeat,
    if_pos (by simp only [Handler.blasted]; exact hmany)]
  have hdue : ({ h.blasted cfg with
      sent := h.sent ++ [(h.blasted cfg).sender.packet cfg] } : Handler).reportDue i = true :=
    decide_eq_true ⟨hmany, hl.report⟩
  rw [if_pos hdue]
  exact ⟨_, if_pos hl.timeout⟩

/-- A client that has gone for good is given up in the turn in which the
counter of sent datagrams has run up, and not before: failed sends do not
count, and a server that cannot send at all never gives it up. -/
theorem dead_client_given_up_iff (hh : AtHead cfg h) (hc : h.deadconnectionCounter ≤ 2049)
    (hl : ∀ i ∈ is, Late cfg h i) :
    ((∃ h', h.serve cfg is = .timedOut h') ↔
      2049 - h.deadconnectionCounter < is.countP (·.sendOk)) ∧
    ((∃ h', h.serve cfg is = .running h') ↔
      is.countP (·.sendOk) ≤ 2049 - h.deadconnectionCounter) := by
  induction is generalizing h with
  | nil => simp [Handler.serve]
  | cons i is ih =>
    have hi := hl i (List.mem_cons_self ..)
    rw [List.countP_cons]
    by_cases hearly : i.sendOk = true → h.deadconnectionCounter ≤ 2048
    · obtain ⟨h', ho, hh', hcount, hrep, hfeed⟩ := late_goesOn hh hi hearly
      have hrest := ih hh' (by rw [hcount]; split <;> [have := hearly ‹_›; skip] <;> omega)
        fun i hi => (hl i (List.mem_cons_of_mem _ hi)).congr hrep hfeed
      rw [serve_cons_running ho, hrest.1, hrest.2, hcount]
      split <;> [have := hearly ‹_›; skip] <;> constructor <;> omega
    · rw [Classical.not_imp] at hearly
      obtain ⟨hsend, hmany⟩ := hearly
      obtain ⟨h', ho⟩ := late_timedOut hh hi hsend (by omega)
      have hserve : h.serve cfg (i :: is) = .timedOut h' := by rw [Handler.serve, ho]
      rw [hserve, if_pos hsend]
      refine ⟨⟨fun _ => by omega, fun _ => ⟨h', rfl⟩⟩, ⟨?_, fun _ => by omega⟩⟩
      rintro ⟨h'', hrun⟩
      cases hrun

theorem late_run (hh : AtHead cfg h) (hl : ∀ i ∈ is, Late cfg h i)
    (hc : h.deadconnectionCounter + is.countP (·.sendOk) ≤ 2049) :
    ∃ h', (transferLoop cfg).run h is = some h' ∧ AtHead cfg h' ∧
      h'.deadconnectionCounter = h.deadconnectionCounter + is.countP (·.sendOk) ∧
      h'.lasthblostreport = h.lasthblostreport ∧ h'.lastfeedback = h.lastfeedback := by
  induction is generalizing h with
  | nil => exact ⟨h, rfl, hh, rfl, rfl, rfl⟩
  | cons i is ih =>
    have hi := hl i (List.mem_cons_self ..)
    rw [List.countP_cons] at hc ⊢
    obtain ⟨h₁, ho, hh₁, hcount, hrep, hfeed⟩ :=
      late_goesOn hh hi (by intro hsend; rw [hsend, if_pos rfl] at hc; omega)
    have hv : i.Valid h := by
      rw [Input.Valid, hi.silent]
      trivial
    have hs : (transferLoop cfg).step h i = some h₁ := by simp only [transferLoop, if_pos hv, ho]
    obtain ⟨h', hr, hh', hcount', hrep', hfeed'⟩ := ih hh₁
      (fun i hi => (hl i (List.mem_cons_of_mem _ hi)).congr hrep hfeed) (by rw [hcount]; omega)
    refine ⟨h', System.run_cons.mpr ⟨h₁, hs, hr⟩, hh', ?_, hrep'.trans hrep, hfeed'.trans hfeed⟩
    rw [hcount', hcount]
    omega

/-- A block is sent in each of 2050 turns, a second after the last record. -/
theorem dead_client_given_up_2050 :
    ∃ h', (Handler.create 0 (List.replicate 7 0) (List.replicate 12 0) 0).serve
      { oneByte with hbTimeout := 0 }
      (List.replicate 2050 ⟨0, .nothing eagain, true, 1000000, 1000000, 1000000⟩) =
        .timedOut h' := by
  refine (dead_client_given_up_iff (Starts.atHead ⟨rfl, rfl⟩ _) (Nat.zero_le _) ?_).1.mpr ?_
  · intro i hi
    rw [List.eq_of_mem_replicate hi]
    exact ⟨rfl, by decide, by decide⟩
  · rw [List.countP_replicate, if_pos rfl]
    exact Nat.lt_succ_self 2049

-- ---------------------------------------------------------------------------
-- A client that answers
-- ---------------------------------------------------------------------------

theorem heartbeat_goesOn (ho : h.heartbeat cfg i = .running h') :
    h'.acted = h.acted ∧ h'.lastfeedback = h.lastfeedback ∧
      h'.deadconnectionCounter ≤ h.deadconnectionCounter + 1 := by
  simp only [Handler.heartbeat] at ho
  split at ho
  · split at ho
    · split at ho
      · cases ho
      · cases ho
        exact ⟨rfl, rfl, Nat.zero_le _⟩
    · cases ho
      exact ⟨rfl, rfl, Nat.zero_le _⟩
  · cases ho
    exact ⟨rfl, rfl, Nat.le_refl _⟩

theorem heartbeat_gives_up (ho : h.heartbeat cfg i = .timedOut h') :
    2048 < h.deadconnectionCounter ∧
      1000000 * cfg.hbTimeout < getUsecSince h.lastfeedback i.timeoutAt := by
  simp only [Handler.heartbeat] at ho
  split at ho
  · rename_i hmany
    split at ho
    · split at ho
      · rename_i hlate
        exact ⟨hmany, hlate⟩
      · cases ho
    · cases ho
  · cases ho

theorem running_heard (hl : h.retransmitlen ≤ sizeofRetransmission) (hv : i.Valid h)
    (ho : h.iteration cfg i = .running h') :
    (h'.lastfeedback = i.now ∧ h'.deadconnectionCounter ≤ 1) ∨
    (h'.acted = h.acted ∧ h'.lastfeedback = h.lastfeedback ∧
      h'.deadconnectionCounter ≤ h.deadconnectionCounter + (if i.sendOk then 1 else 0)) := by
  have hturn : Turn cfg h i (h.iteration cfg i) := iteration_turn hl hv
  rw [ho] at hturn
  generalize hout : Outcome.running h' = out at hturn
  cases hturn with
  | left | fatal | stop => cases hout
  | request =>
    obtain ⟨-, hfeed, hcount⟩ := heartbeat_goesOn hout.symm
    exact .inl ⟨hfeed, hcount⟩
  | block _ hsend =>
    obtain ⟨hacted, hfeed, hcount⟩ := heartbeat_goesOn hout.symm
    rw [hsend]
    cases hr : i.read <;> rw [hr] at hacted hfeed hcount <;>
      exact .inr ⟨hacted, hfeed, hcount⟩
  | unsent =>
    cases hout
    cases hr : i.read <;> exact .inr ⟨rfl, rfl, Nat.le_add_right ..⟩

theorem timedOut_unheard (hl : h.retransmitlen ≤ sizeofRetransmission) (hv : i.Valid h)
    (ho : h.iteration cfg i = .timedOut h') : i.sendOk = true ∧ 2048 < h.deadconnectionCounter ∧
      1000000 * cfg.hbTimeout < getUsecSince h.lastfeedback i.timeoutAt := by
  have hturn : Turn cfg h i (h.iteration cfg i) := iteration_turn hl hv
  rw [ho] at hturn
  generalize hout : Outcome.timedOut h' = out at hturn
  cases hturn with
  | left | fatal | stop | unsent => cases hout
  | request =>
    have hgiven := heartbeat_gives_up hout.symm
    exact absurd hgiven.1 (Nat.not_lt_zero _)
  | block _ hsend =>
    have hgiven := heartbeat_gives_up hout.symm
    cases hr : i.read <;> rw [hr] at hgiven <;> exact ⟨hsend, hgiven⟩

/-- Since the turn at the time `t` in which a record was last acted on at the
earliest. -/
structure Waiting (h : Handler) (t sends latest : Nat) : Prop where
  since : t ≤ h.lastfeedback
  latest : h.lastfeedback ≤ latest
  counter : h.deadconnectionCounter ≤ 1 + sends

theorem run_waiting (hh : AtHead cfg h) (hw : Waiting h t n u)
    (hr : (transferLoop cfg).run h is = some h')
    (hclock : ∀ i ∈ is, t ≤ i.now ∧ i.now ≤ u) :
    Waiting h' t (n + is.countP (·.sendOk)) u := by
  induction is generalizing h n with
  | nil =>
    cases hr
    exact hw
  | cons i is ih =>
    obtain ⟨h₁, hs, hr⟩ := System.run_cons.mp hr
    obtain ⟨hv, ho⟩ := transferLoop_step hs
    have hi := hclock i (List.mem_cons_self ..)
    have hw₁ : Waiting h₁ t (n + if i.sendOk then 1 else 0) u := by
      rcases running_heard (Nat.le_of_lt hh.retransmitlen) hv ho with
        ⟨hfeed, hcount⟩ | ⟨-, hfeed, hcount⟩
      · exact ⟨hfeed ▸ hi.1, hfeed ▸ hi.2, Nat.le_trans hcount (Nat.le_add_right ..)⟩
      · have := hw.counter
        exact ⟨hfeed ▸ hw.since, hfeed ▸ hw.latest, by omega⟩
    have hrest := ih (step_atHead hh hs) hw₁ hr fun i hi => hclock i (List.mem_cons_of_mem _ hi)
    have hcount : n + (i :: is).countP (·.sendOk) =
        n + (if i.sendOk then 1 else 0) + is.countP (·.sendOk) := by
      rw [List.countP_cons]
      omega
    rwa [hcount]

/-- Where the clock does not go back, a client is given up only more than the
timeout, and more than 2048 blocks, behind each of its records. -/
theorem given_up_only_after_silence (hh : AtHead cfg h) (hj : j.Valid h)
    (ho : h.iteration cfg j = .running h₁) (hacts : h₁.acted ≠ h.acted)
    (hmid : (transferLoop cfg).run h₁ mid = some h₂) (hlast : last.Valid h₂)
    (hgiven : h₂.iteration cfg last = .timedOut h₃)
    (hclock : ∀ i ∈ j :: mid, j.now ≤ i.now ∧ i.now ≤ last.timeoutAt)
    (hfit : last.timeoutAt < 2 ^ 64) :
    j.now + 1000000 * cfg.hbTimeout < last.timeoutAt ∧
      2048 < (mid ++ [last]).countP (·.sendOk) := by
  have hl := Nat.le_of_lt hh.retransmitlen
  have hstart : Waiting h₁ j.now 0 last.timeoutAt := by
    rcases running_heard hl hj ho with ⟨hfeed, hcount⟩ | ⟨hacted, -, -⟩
    · have hnow := hclock j (List.mem_cons_self ..)
      exact ⟨hfeed ▸ hnow.1, hfeed ▸ hnow.2, hcount⟩
    · exact absurd hacted hacts
  have hh₁ : AtHead cfg h₁ := ⟨running_block hl hj ho, running_retransmitlen hl hj ho⟩
  have hw := run_waiting hh₁ hstart hmid fun i hi => hclock i (List.mem_cons_of_mem _ hi)
  obtain ⟨hsend, hmany, hlate⟩ :=
    timedOut_unheard (Nat.le_of_lt (run_atHead hh₁ hmid).retransmitlen) hlast hgiven
  have hsince : getUsecSince h₂.lastfeedback last.timeoutAt =
      last.timeoutAt - h₂.lastfeedback :=
    getUsecSince_later hw.latest hfit
  have hcount : (mid ++ [last]).countP (·.sendOk) = mid.countP (·.sendOk) + 1 := by
    rw [List.countP_append, List.countP_singleton, hsend]
    rfl
  rw [hsince] at hlate
  have hfew := hw.counter
  have ht := hw.since
  constructor
  · omega
  · omega

/-- A report of the error rate, then 2049 blocks a second later. -/
theorem given_up_only_after_silence_second :
    ∃ (mid : List Input) (last : Input), mid.length = 2048 ∧
      0 + 1000000 * 0 < last.timeoutAt ∧ 2048 < (mid ++ [last]).countP (·.sendOk) := by
  let cfg : Config := { oneByte with hbTimeout := 0 }
  let later : Input := ⟨1000000, .nothing eagain, true, 1000000, 1000000, 1000000⟩
  let record : Retransmission := ⟨requestErrorRate, 0, 0⟩
  let h : Handler := .create 0 (List.replicate 7 0) (List.replicate 12 0) 0
  obtain ⟨mid, hmid⟩ : ∃ mid, mid = List.replicate 2048 later := ⟨_, rfl⟩
  have hlater : ∀ i ∈ mid, i = later := fun i hi => List.eq_of_mem_replicate (hmid ▸ hi)
  have hsends : mid.countP (·.sendOk) = 2048 := by rw [hmid, List.countP_replicate, if_pos rfl]
  have hh : AtHead cfg h := Starts.atHead ⟨rfl, rfl⟩ cfg
  have hact : ((transferLoop cfg).step h ⟨0, .data record.encode, true, 0, 0, 0⟩).map
      (fun h => (h.acted, h.deadconnectionCounter, h.lasthblostreport, h.lastfeedback)) =
      some ([record], 1, 0, 0) := by decide +kernel
  obtain ⟨h₁, hs, heq⟩ := Option.map_eq_some_iff.mp hact
  simp only [Prod.mk.injEq] at heq
  obtain ⟨hacted, hcount, hrep, hfeed⟩ := heq
  obtain ⟨hv, ho⟩ := transferLoop_step hs
  have hlate : Late cfg h₁ later := ⟨rfl, by rw [hrep]; decide, by rw [hfeed]; decide⟩
  obtain ⟨h₂, hr, hh₂, hcount₂, hrep₂, hfeed₂⟩ :=
    late_run (step_atHead hh hs) (fun i hi => hlater i hi ▸ hlate) (by rw [hcount, hsends])
  obtain ⟨h₃, hgiven⟩ := late_timedOut hh₂ (hlate.congr hrep₂ hfeed₂) rfl
    (by rw [hcount₂, hcount, hsends]; exact Nat.lt_succ_self _)
  have hlast : later.Valid h₂ := trivial
  refine ⟨mid, later, by rw [hmid, List.length_replicate], given_up_only_after_silence hh hv ho
    (by rw [hacted]; decide) hr hlast hgiven ?_ (by decide)⟩
  intro i hi
  rcases List.mem_cons.mp hi with rfl | hi
  · exact ⟨Nat.le_refl _, by decide⟩
  · rw [hlater i hi]
    exact ⟨by decide, Nat.le_refl _⟩

end Tsunami.Server
