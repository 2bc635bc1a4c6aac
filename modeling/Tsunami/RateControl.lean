import Tsunami.Client.Calm
import Tsunami.Integrity
import Tsunami.Server.Calm

/-!
# The rate is regained

The client filters the error rate and the server the delay between its packets.
When the network and the disk have come to rest, the delay is that of the
negotiated rate again after a number of reports that can be told beforehand.
-/

namespace Tsunami

open Transition

variable {a : Agreement} {s t u : FileTransfer} {e : FileTransfer.Event}

/-- The ring is not full where the client can report, and the heartbeat of the
client is heard. -/
def Calm (s : FileTransfer) : FileTransfer.Event → Prop
  | .client e => e.Fed (fun _ => True) ∧ Client.Roomy s.client e
  | .server i => s.server.handler.reportDue i = false

instance (s : FileTransfer) (e : FileTransfer.Event) : Decidable (Calm s e) :=
  match e with
  | .client e => inferInstanceAs (Decidable (e.Fed (fun _ => True) ∧ Client.Roomy s.client e))
  | .server i => inferInstanceAs (Decidable (s.server.handler.reportDue i = false))

theorem Calm.works (h : Calm s e) : Works s e := by
  cases e with
  | client e => exact h.1
  | server i => trivial

/-- What is known since `s`: what the client has reported, and where the server
stands in what it has been told. -/
structure Since (a : Agreement) (start : ℚ) (n : Nat) (s t : FileTransfer) : Prop where
  sent : s.client.sent <+: t.client.sent
  eased : Client.OnlyReports (t.client.sent.drop s.client.sent.length) →
    Client.Easing a.client.param start (t.client.sent.drop s.client.sent.length)
      t.client.xfer.stats.errorRate
  regaining : Client.OnlyReports (t.client.sent.drop s.client.sent.length) →
    t.server.running = true →
    Server.Regaining a.server t.client.sent s.client.sent.length (s.client.sent.length + n)
      t.server.handler

theorem Since.quiet (hh : a.client.param.history ≤ 100) (hstart : 0 ≤ start)
    (hn : a.client.param.feedback ^ n * start < a.server.errorRate + 1) (h : Since a start n s t)
    (hr : Client.OnlyReports (t.client.sent.drop s.client.sent.length)) :
    Server.Quiet a.server t.client.sent (s.client.sent.length + n) := by
  intro k r hk hget
  have hnew : (t.client.sent.drop s.client.sent.length)[k - s.client.sent.length]? = some r := by
    rw [List.getElem?_drop, Nat.add_sub_cancel' (by omega), hget]
  refine ⟨hr r (List.mem_of_getElem? hnew), ?_⟩
  have hrate := (h.eased hr).reports _ r hnew
  have hlow := Damping.pow_mul_anti a.client.param.feedback_nonneg
    (Client.Parameter.feedback_le_one hh) hstart
    (show n ≤ k - s.client.sent.length + 1 by omega)
  have hfloor : ⌊a.client.param.feedback ^ (k - s.client.sent.length + 1) * start⌋ <
      (a.server.errorRate : Int) + 1 :=
    Int.floor_lt.mpr (by push_cast; exact hlow.trans_lt hn)
  omega

section
variable (hmax : a.layout.blockCount < 2 ^ 32 - 1)
include hmax

theorem since_start (hs : (fileTransfer a.toEnds).ReachableBy Works s)
    (hstart : s.client.xfer.stats.errorRate ≤ start) : Since a start n s s := by
  have hjoint := fileTransfer_joint hmax hs
  refine ⟨List.prefix_refl _, fun _ => ?_, fun _ hrun => ?_⟩
  · rw [List.drop_length]
    exact Client.easing_nil hstart
  · -- a record that has been written over has been written before
    obtain ⟨hl, -, hcons, hpart⟩ := hjoint.server.running hrun
    have hle := hjoint.server.consumed
    rw [Server.length_stream, hcons] at hle
    simp only [sizeofRetransmission] at hle
    refine ⟨fun hk => ?_, fun hk => by omega, fun m hk => by omega⟩
    rcases hpart.bytes with hpend | ⟨h₂, -⟩
    · exact hpend
    · omega

theorem since_client (hh : a.client.param.history ≤ 100) (hstart : 0 ≤ start)
    (hu : (fileTransfer a.toEnds).ReachableBy Works u) (h : Since a start n s u)
    {c : Client.CommandGet} {d : Client.Event} (hroom : Client.Roomy u.client d)
    (hc : u.client.step a.client d = some c) : Since a start n s ⟨c, u.server⟩ := by
  have hjoint := fileTransfer_joint hmax hu
  obtain ⟨rs, hrs⟩ := Client.step_sent hc
  have hdrop : c.sent.drop s.client.sent.length =
      u.client.sent.drop s.client.sent.length ++ rs := by
    rw [← hrs, List.drop_append_of_le_length h.sent.length_le]
  have hring := Client.ring_inv (Client.commandGet_ring hjoint.client.reachable)
  refine ⟨h.sent.trans (Client.step_sent hc), fun hr => ?_, fun hr hrun => ?_⟩
  · rw [hdrop] at hr ⊢
    obtain ⟨hold, hnew⟩ := hr.of_append
    exact (h.eased hold).step hh hstart (Client.step_eased hring hroom hc hrs.symm hnew)
  · rw [hdrop] at hr
    have hregaining := h.regaining hr.of_append.1 hrun
    obtain ⟨-, -, hcons, -⟩ := hjoint.server.running hrun
    have hle := hjoint.server.consumed
    rw [hcons] at hle
    exact ⟨fun hk => (hregaining.pending hk).grow (Client.step_sent hc) hle, hregaining.low,
      hregaining.high⟩

theorem since_server (hh : a.client.param.history ≤ 100) (hstart : 0 ≤ start)
    (hn : a.client.param.feedback ^ n * start < a.server.errorRate + 1) (hsteady : a.server.Steady)
    (hu : (fileTransfer a.toEnds).ReachableBy Works u) (h : Since a start n s u)
    {v : Server.Serving} {i : Server.Input} (hdue : u.server.handler.reportDue i = false)
    (hv : u.server.step a.server (Server.stream u.client.sent) i = some v)
    (ht : (fileTransfer a.toEnds).ReachableBy Works ⟨u.client, v⟩) :
    Since a start n s ⟨u.client, v⟩ := by
  have hjoint := fileTransfer_joint hmax hu
  have hjoint' := fileTransfer_joint hmax ht
  have hsound : ∀ r ∈ u.client.sent, r.Sound a.layout.blockCount :=
    a.fetches.blockCount ▸ hjoint.talks.sent
  refine ⟨h.sent, h.eased, fun hr hrun => ?_⟩
  obtain ⟨-, -, -, hpart⟩ := hjoint'.server.running hrun
  simp only [Server.Serving.step, Option.ite_none_right_eq_some] at hv
  obtain ⟨⟨hbefore, hvalid, hfollows⟩, hv⟩ := hv
  obtain ⟨hl, -, hcons, -⟩ := hjoint.server.running hbefore
  have hquiet := h.quiet hh hstart hn hr
  split at hv <;> cases hv
  · rename_i h' ho
    exact (h.regaining hr hbefore).heard hsteady (fun r hr => (hsound r hr).fits)
      (Nat.le_add_right ..) hquiet hl hvalid hcons hjoint.server.consumed
      hfollows (Server.heard_turn (Nat.le_of_lt hl) hvalid hdue ho) hpart.length
  all_goals cases hrun

theorem since_calm (hh : a.client.param.history ≤ 100) (hstart : 0 ≤ start)
    (hn : a.client.param.feedback ^ n * start < a.server.errorRate + 1) (hsteady : a.server.Steady)
    (hs : (fileTransfer a.toEnds).ReachableBy Works s)
    (hrate : s.client.xfer.stats.errorRate ≤ start)
    (h : (fileTransfer a.toEnds).Path Calm s t) :
    (fileTransfer a.toEnds).ReachableBy Works t ∧ Since a start n s t := by
  induction h with
  | refl => exact ⟨hs, since_start hmax hs hrate⟩
  | @step u e t _ hcalm hstep ih =>
    obtain ⟨hu, hsince⟩ := ih
    have ht := hu.step hcalm.works hstep
    refine ⟨ht, ?_⟩
    cases e with
    | client d =>
      simp only [fileTransfer, FileTransfer.step, Option.ite_none_right_eq_some,
        Option.map_eq_some_iff] at hstep
      obtain ⟨-, c, hc, rfl⟩ := hstep
      exact since_client hmax hh hstart hu hsince hcalm.2 hc
    | server i =>
      simp only [fileTransfer, FileTransfer.step, Option.map_eq_some_iff] at hstep
      obtain ⟨v, hv, rfl⟩ := hstep
      exact since_server hmax hh hstart hn hsteady hu hsince hcalm hv ht

end

/-- From any state a transfer can get into: once the client asks for nothing
again, its ring is not full and it is heard, `n` reports of what is left of the
error rate and `m + 1` more bring the delay down to that of the target rate. -/
theorem target_rate_regained (hmax : a.layout.blockCount < 2 ^ 32 - 1)
    (hsteady : a.server.Steady) (hh : a.client.param.history ≤ 100)
    (hs : (fileTransfer a.toEnds).ReachableBy Works s)
    (hcalm : (fileTransfer a.toEnds).Path Calm s t)
    (hasks : Client.OnlyReports (t.client.sent.drop s.client.sent.length))
    (hn : a.client.param.feedback ^ n * s.client.xfer.stats.errorRate < a.server.errorRate + 1)
    (hm : 10000 * a.server.faster ^ m ≤ a.server.ipdTime) (hrun : t.server.running = true)
    (hacted : s.client.sent.length + n + m < t.server.handler.acted.length) :
    t.server.handler.sender.ipdCurrent = a.server.ipdTime := by
  -- a rate below 0 is reported as 0
  let start := max s.client.xfer.stats.errorRate 0
  have hstart : a.client.param.feedback ^ n * start < a.server.errorRate + 1 := by
    rcases max_choice s.client.xfer.stats.errorRate 0 with hmost | hmost
    · rwa [show start = _ from hmost]
    · rw [show start = 0 from hmost, mul_zero]
      positivity
  obtain ⟨-, hsince⟩ :=
    since_calm hmax hh (le_max_right ..) hstart hsteady hs (le_max_left ..) hcalm
  have hregaining := hsince.regaining hasks hrun
  refine le_antisymm ?_ (hregaining.low (by omega))
  have hhigh := hregaining.high m hacted
  rwa [max_eq_right hm] at hhigh

def nineMilliseconds : Agreement :=
  let a := defaultAgreement (singleBytes 3 (by decide) (by decide))
  { a with server := { a.server with ipdTime := 9000 }, serves := ⟨rfl, rfl, rfl⟩ }

/-- Block 1 is sent, arrives fifty times, and the client reports; and again. -/
def twoReports : List FileTransfer.Event :=
  let seen : List FileTransfer.Event :=
    [.client (.recv (header 1 tsBlockOriginal ++ [7])), .client (.look Client.quietOracle)]
  let timeUp : FileTransfer.Event := .client (.look { Client.quietOracle with timeUp := true })
  let report : FileTransfer.Event :=
    .server ⟨0, .data (Retransmission.encode ⟨requestErrorRate, 0, 0⟩), true, 0, 0, 0⟩
  [.server (Server.idleAt 0)] ++ seen ++
    ([.reserve, .copy, .confirm, .control Client.quietOracle] : List Client.Event).map .client ++
    (List.replicate 48 seen).flatten ++ seen.take 1 ++ [timeUp] ++
    (List.replicate 49 seen).flatten ++ seen.take 1 ++ [timeUp, report, report]

/-- From 30 ms, through 10. -/
theorem target_rate_regained_two_reports :
    ∃ t, (fileTransfer nineMilliseconds.toEnds).Path Calm
        (.create nineMilliseconds.toEnds (fun _ => []) 30000
          (List.replicate (6 + maxBlockSize) 0) (List.replicate sizeofRetransmission 0) 0) t ∧
      t.server.handler.acted.length = 2 ∧ t.server.handler.sender.ipdCurrent = 9000 := by
  let a := nineMilliseconds
  let s : FileTransfer := .create a.toEnds (fun _ => []) 30000
    (List.replicate (6 + maxBlockSize) 0) (List.replicate sizeofRetransmission 0) 0
  have hrun : ((fileTransfer a.toEnds).checkedRun Calm s twoReports).map
      (fun t => (t.server.running, t.server.handler.acted.length, t.client.sent)) =
        some (true, 2, [⟨requestErrorRate, 0, 0⟩, ⟨requestErrorRate, 0, 0⟩]) := by decide +kernel
  obtain ⟨t, ht, hview⟩ := Option.map_eq_some_iff.mp hrun
  simp only [Prod.mk.injEq] at hview
  obtain ⟨hrunning, hacted, hsent⟩ := hview
  have hs : (fileTransfer a.toEnds).ReachableBy Works s :=
    .init ⟨_, _, _, _, _, List.length_replicate, List.length_replicate, rfl⟩
  have hsteady : a.server.Steady := ⟨by decide, by decide, by decide, by decide, by decide⟩
  have hasks : Client.OnlyReports (t.client.sent.drop 0) := by
    simp [hsent, Client.OnlyReports]
  have hrate : a.client.param.feedback ^ 0 * s.client.xfer.stats.errorRate <
      a.server.errorRate + 1 := by decide +kernel
  have hfaster : 10000 * a.server.faster ^ 1 ≤ a.server.ipdTime := by decide +kernel
  exact ⟨t, .checkedRun ht, hacted, target_rate_regained (a := a) (s := s) (n := 0) (m := 1)
    (by decide) hsteady (by decide) hs (.checkedRun ht) hasks hrate hfaster hrunning
    (by rw [hacted]; decide)⟩

end Tsunami
