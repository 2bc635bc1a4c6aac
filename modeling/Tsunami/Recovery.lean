import Tsunami.Client.EndOfFile
import Tsunami.Integrity
import Tsunami.Server.Answering

/-!
# A transfer can always be finished

Whatever has been lost, repeated, delayed or reordered so far, and whatever has
been asked for, read in part and written over: while the server is in the
transfer and has heard the client within the timeout, the two ends can go on
until the client returns with the whole file. They need nothing for it but
datagrams that are sent from here on, and no time.
-/

namespace Tsunami

open Bytes Transition

variable {a : Agreement} {s t u : FileTransfer} {n now : Nat}

-- ---------------------------------------------------------------------------
-- Going on without the datagrams of the past
-- ---------------------------------------------------------------------------

/-- What arrives is not among the first `n` datagrams that were sent. -/
def Recent (n : Nat) (s : FileTransfer) : FileTransfer.Event → Prop
  | .client e => FileTransfer.FromServer (s.server.handler.sent.drop n) e
  | .server _ => True

def Timely (now : Nat) : FileTransfer.Event → Prop
  | .client _ => True
  | .server i => i.At now

structure WorksAfresh (n now : Nat) (s : FileTransfer) (e : FileTransfer.Event) : Prop where
  works : Works s e
  recent : Recent n s e
  timely : Timely now e

abbrev GoesOn (a : Agreement) (n now : Nat) (s t : FileTransfer) : Prop :=
  (fileTransfer a.toEnds).Path (WorksAfresh n now) s t

theorem client_goesOn {c c' : Client.CommandGet} {v : Server.Serving}
    (h : (Client.commandGet a.client).Path (fun _ e => e.Fed (· ∈ v.handler.sent.drop n)) c c') :
    GoesOn a n now ⟨c, v⟩ ⟨c', v⟩ := by
  induction h with
  | refl => exact .refl
  | @step c₁ e c₂ _ hfed hs ih =>
    have hrecent : Recent n ⟨c₁, v⟩ (.client e) := by
      cases e with
      | recv d => exact hfed
      | _ => trivial
    have hfrom : FileTransfer.FromServer v.handler.sent e := by
      cases e with
      | recv d => exact List.mem_of_mem_drop hfed
      | _ => trivial
    have hworks : Works ⟨c₁, v⟩ (.client e) := by
      cases e with
      | recv d => trivial
      | _ => exact hfed
    refine ih.step ⟨hworks, hrecent, trivial⟩ ?_
    simp only [fileTransfer, FileTransfer.step, if_pos hfrom]
    exact congrArg _ hs

theorem server_goesOn {c : Client.CommandGet} {v w : Server.Serving}
    (h : (Server.serving a.server c.sent).Path (fun _ i => i.At now) v w) :
    GoesOn a n now ⟨c, v⟩ ⟨c, w⟩ := by
  induction h with
  | refl => exact .refl
  | @step v₁ i _ _ hat hs ih =>
    have hworks : WorksAfresh n now ⟨c, v₁⟩ (.server i) := ⟨trivial, trivial, hat⟩
    refine ih.step (e := .server i) hworks ?_
    simp only [fileTransfer, FileTransfer.step]
    exact congrArg _ hs

theorem GoesOn.reachable (h : GoesOn a n now s t)
    (hs : (fileTransfer a.toEnds).ReachableBy Works s) :
    (fileTransfer a.toEnds).ReachableBy Works t :=
  hs.path (h.mono fun _ _ hp => hp.works)

-- ---------------------------------------------------------------------------
-- Both ends at rest
-- ---------------------------------------------------------------------------

/-- The server is in the transfer and has heard the client within the timeout,
the client is at rest in its loop. -/
structure Ready (a : Agreement) (n now : Nat) (s : FileTransfer) : Prop where
  reachable : (fileTransfer a.toEnds).ReachableBy Works s
  settled : Client.Settled s.client
  running : s.server.running = true
  inTime : Server.InTime a.server now s.server.handler
  sent : n ≤ s.server.handler.sent.length

structure Done (a : Agreement) (s : FileTransfer) : Prop where
  reachable : (fileTransfer a.toEnds).ReachableBy Works s
  left : s.client.network.inLoop = false
  working : s.client.network ≠ .aborted

def Progress (a : Agreement) (n now : Nat) (s : FileTransfer) : Prop :=
  ∃ t, GoesOn a n now s t ∧
    (Done a t ∨ Ready a n now t ∧ s.client.queued.length < t.client.queued.length)

theorem Progress.after (hgo : GoesOn a n now s t)
    (hq : t.client.queued.length = s.client.queued.length) (h : Progress a n now t) : Progress a n now s := by
  obtain ⟨u, hgo', hend⟩ := h
  exact ⟨u, hgo.trans hgo', hend.imp_right fun ⟨hu, hlen⟩ => ⟨hu, hq ▸ hlen⟩⟩

section
variable (hmax : a.layout.blockCount < 2 ^ 32 - 1)
include hmax

theorem joint_atWork (hs : (fileTransfer a.toEnds).ReachableBy Works s) :
    Client.AtWork a.client a.layout s.client :=
  .of_fed (fileTransfer_joint hmax hs).client

theorem recent_carries (hs : (fileTransfer a.toEnds).ReachableBy Works s) (n : Nat) :
    ∀ d ∈ s.server.handler.sent.drop n, Carries a.layout d :=
  fun d hd => (fileTransfer_joint hmax hs).server.sent d (List.mem_of_mem_drop hd)

theorem Ready.unstopped (h : Ready a n now s) : Unstopped s.client.sent :=
  Client.commandGet_beforeStop (fileTransfer_joint hmax h.reachable).client.reachable
    (.inl (by rw [h.settled.network]; rfl))

theorem sent_sound (hs : (fileTransfer a.toEnds).ReachableBy Works s) :
    ∀ r ∈ s.client.sent, r.Sound a.layout.blockCount :=
  a.fetches.blockCount ▸ (fileTransfer_joint hmax hs).talks.sent

theorem Ready.deliver (h : Ready a n now s) (hd : d ∈ s.server.handler.sent.drop n)
    (hmiss : blockNumber d ∈ Client.missing s.client.xfer) : Progress a n now s := by
  have hwork := joint_atWork hmax h.reachable
  obtain ⟨c, hpath, -, hlen, hend⟩ := hwork.deliver a.fetches a.lossless
    (recent_carries hmax h.reachable n) h.settled hd hmiss
  have hgo : GoesOn a n now s ⟨c, s.server⟩ := client_goesOn hpath
  refine ⟨_, hgo, ?_⟩
  rcases hend with hsettled | hstop
  · exact .inr ⟨⟨hgo.reachable h.reachable, hsettled, h.running, h.inTime, h.sent⟩, hlen⟩
  · exact .inl ⟨hgo.reachable h.reachable, by rw [hstop]; rfl, by rw [hstop]; decide⟩

-- ---------------------------------------------------------------------------
-- One round
-- ---------------------------------------------------------------------------

theorem Ready.blasted (h : Ready a n now s) (hk : k ≤ a.layout.blockCount)
    (hto : s.server.handler.sender.block < k ∨ k = a.layout.blockCount)
    (hcaught : Server.CaughtUp a.server a.layout now s.client.sent s.server) :
    ∃ w d, GoesOn a n now s ⟨s.client, w⟩ ∧ Ready a n now ⟨s.client, w⟩ ∧
      Server.CaughtUp a.server a.layout now s.client.sent w ∧ d ∈ w.handler.sent.drop n ∧
      blockNumber d = k ∧
      blockType d = if k = a.layout.blockCount then tsBlockTerminate else tsBlockOriginal := by
  obtain ⟨w, d, new, hpath, hw, hsent, hd, hnum, hty⟩ :=
    hcaught.blastsTo a.serves hmax (sent_sound hmax h.reachable) hk hto
  have hgo : GoesOn a n now s ⟨s.client, w⟩ := server_goesOn hpath
  have hsome := h.sent
  refine ⟨w, d, hgo, ⟨hgo.reachable h.reachable, h.settled, hw.running, hw.inTime, ?_⟩, hw, ?_,
    hnum, hty⟩
  · simp only [hsent, List.length_append]
    omega
  · rw [hsent, List.drop_append_of_le_length hsome]
    exact List.mem_append_right _ hd

theorem Ready.caughtUp (h : Ready a n now s) :
    ∃ w, GoesOn a n now s ⟨s.client, w⟩ ∧ Ready a n now ⟨s.client, w⟩ ∧
      Server.CaughtUp a.server a.layout now s.client.sent w := by
  obtain ⟨w, hpath, hw, hsent⟩ := (fileTransfer_joint hmax h.reachable).server.catchesUp a.serves
    hmax (h.unstopped hmax) (sent_sound hmax h.reachable) h.running h.inTime
  have hgo : GoesOn a n now s ⟨s.client, w⟩ := server_goesOn hpath
  exact ⟨w, hgo, ⟨hgo.reachable h.reachable, h.settled, hw.running, hw.inTime,
    h.sent.trans hsent.length_le⟩, hw⟩

structure Asked (a : Agreement) (n now : Nat) (s t : FileTransfer) (rs : List Retransmission) :
    Prop where
  goesOn : GoesOn a n now s t
  ready : Ready a n now t
  queued : t.client.queued = s.client.queued
  same : Client.SameBlocks s.client.xfer t.client.xfer
  sent : t.client.sent = s.client.sent ++ rs
  caughtUp : Server.CaughtUp a.server a.layout now s.client.sent t.server
  last : a.layout.blockCount ∉ Client.missing s.client.xfer
  asks : Client.AsksAgain s.client.xfer t.client.xfer rs

theorem Ready.asks (h : Ready a n now s) : Progress a n now s ∨ ∃ t rs, Asked a n now s t rs := by
  obtain ⟨w, hgo, hready, hcaught⟩ := h.caughtUp hmax
  obtain ⟨w', d, hgo', hready', hcaught', hd, hnum, hty⟩ :=
    hready.blasted hmax (Nat.le_refl _) (.inr rfl) hcaught
  rw [if_pos rfl] at hty
  have hcount := a.fetches.blockCount
  have hall := hgo.trans hgo'
  by_cases hlast : a.layout.blockCount ∈ Client.missing s.client.xfer
  · refine .inl (Progress.after hall rfl (hready'.deliver hmax hd ?_))
    rw [hnum]
    exact hlast
  · have hwork := joint_atWork hmax h.reachable
    obtain ⟨hplaced, -⟩ := hwork.placed a.fetches
    rw [h.settled.network] at hplaced
    have hgot : Client.gotBlock s.client.xfer a.client.blockCount = true := by
      by_contra hmiss
      refine hlast (Client.mem_missing.mpr ⟨Layout.blockCount_pos, ?_, ?_⟩)
      · rw [hplaced.counted.blockCount, hcount]
      · rw [← hcount]
        exact eq_false_of_ne_true hmiss
    obtain ⟨c, hpath, -, hq, hend⟩ := hwork.deliver_last (Q := (· ∈ w'.handler.sent.drop n))
      a.fetches a.lossless (by omega) (recent_carries hmax hready'.reachable n) h.settled hd
      (hnum.trans hcount.symm) hty hgot
    have hgo'' : GoesOn a n now ⟨s.client, w'⟩ ⟨c, w'⟩ := client_goesOn hpath
    have hreach := hgo''.reachable hready'.reachable
    rcases hend with hstop | ⟨hsettled, hsame, rs, hsent, hasks⟩
    · exact .inl ⟨_, hall.trans hgo'', .inl ⟨hreach, by rw [hstop]; rfl, by rw [hstop]; decide⟩⟩
    · exact .inr ⟨⟨c, w'⟩, rs, hall.trans hgo'', ⟨hreach, hsettled, hready'.running,
        hready'.inTime, hready'.sent⟩,
        hq, hsame, hsent, hcaught', hlast, hasks⟩

theorem Asked.answered (h : Asked a n now s t (.map Client.retransmitRequest (b :: bs)))
    (hb : b ∈ Client.missing s.client.xfer) : Progress a n now s := by
  have hrecords := h.sent
  rw [List.map_cons] at hrecords
  have hu := h.ready.unstopped hmax
  have hsound := sent_sound hmax h.ready.reachable
  rw [hrecords] at hu hsound
  obtain ⟨w, d, hw, hsent, hnum⟩ := h.caughtUp.answers a.serves hmax hu hsound
  have hgo : GoesOn a n now t ⟨t.client, w⟩ := server_goesOn (by rw [hrecords]; exact hw.path)
  have hsome := h.ready.sent
  refine Progress.after (h.goesOn.trans hgo) (by rw [h.queued]) ?_
  refine Ready.deliver hmax (d := d)
    ⟨hgo.reachable h.ready.reachable, h.ready.settled, hw.running, hw.inTime, ?_⟩ ?_ ?_
  · simp only [hsent, List.length_append]
    omega
  · rw [hsent, List.drop_append_of_le_length hsome]
    exact List.mem_append_right _ (List.mem_singleton_self d)
  · rw [hnum, h.same.missing]
    exact hb

/-- After a restart the blocks behind the first missing one are sent: one of
them is missing, or only that one is. -/
theorem Asked.restarted (h : Asked a n now s t [Client.restartRequest b])
    (hleast : IsLeast {b | b ∈ Client.missing s.client.xfer} b) :
    Progress a n now s ∨ Client.missing s.client.xfer = {b} := by
  by_cases honly : ∃ c ∈ Client.missing s.client.xfer, c ≠ b
  · left
    obtain ⟨c, hc, hne⟩ := honly
    have hlt : b < c := Nat.lt_of_le_of_ne (hleast.2 hc) (Ne.symm hne)
    obtain ⟨h₁, -, -⟩ := Client.mem_missing.mp hleast.1
    obtain ⟨-, hle, -⟩ := Client.mem_missing.mp hc
    obtain ⟨hplaced, -⟩ := (joint_atWork hmax h.ready.reachable).placed a.fetches
    rw [h.ready.settled.network] at hplaced
    have hcount : s.client.xfer.blockCount = a.layout.blockCount := by
      rw [← h.same.blockCount, hplaced.counted.blockCount, a.fetches.blockCount]
    have hlast : c ≠ a.layout.blockCount := fun heq => h.last (heq ▸ hc)
    have hu := h.ready.unstopped hmax
    have hsound := sent_sound hmax h.ready.reachable
    rw [h.sent] at hu hsound
    obtain ⟨w, hw, hcaught, hblock, hsent⟩ :=
      h.caughtUp.restarts a.serves hmax hu hsound h₁ (by omega)
    have hgo : GoesOn a n now t ⟨t.client, w⟩ := server_goesOn (by rw [h.sent]; exact hw.path)
    have hready : Ready a n now ⟨t.client, w⟩ :=
      ⟨hgo.reachable h.ready.reachable, h.ready.settled, hw.running, hw.inTime,
        hsent ▸ h.ready.sent⟩
    rw [← Client.restartRequest, ← h.sent] at hcaught
    obtain ⟨w', d, hgo', hready', -, hd, hnum, -⟩ :=
      hready.blasted hmax (k := c) (by omega) (.inl (hblock ▸ hlt)) hcaught
    refine Progress.after ((h.goesOn.trans hgo).trans hgo') (by rw [h.queued])
      (hready'.deliver hmax hd ?_)
    rw [hnum, h.same.missing]
    exact hc
  · right
    refine Finset.eq_singleton_iff_unique_mem.mpr ⟨hleast.1, fun c hc => ?_⟩
    by_contra hne
    exact honly ⟨c, hc, hne⟩

/-- One terminate block: progress, or a table that has become small, and empty
with one block missing where it was small before. -/
theorem Ready.round (h : Ready a n now s) : Progress a n now s ∨
    ∃ t, GoesOn a n now s t ∧ Ready a n now t ∧ t.client.queued = s.client.queued ∧
      t.client.xfer.retransmit.entries.length < Client.maxRetransmissionBuffer ∧
      (s.client.xfer.retransmit.entries.length < Client.maxRetransmissionBuffer →
        t.client.xfer.retransmit.entries = [] ∧ (Client.missing t.client.xfer).card = 1 ∧
        Client.maxRetransmissionBuffer ≤ s.client.xfer.retransmit.entries.length +
          2 * ((Client.missing s.client.xfer).card + 1)) := by
  rcases h.asks hmax with hdone | ⟨t, rs, hasked⟩
  · exact .inl hdone
  · have hasks := hasked.asks
    cases hasks with
    | @requests bs hr hfew hall hsome =>
      cases bs with
      | nil => 
        refine .inr ⟨t, hasked.goesOn, hasked.ready, hasked.queued, hr ▸ hfew, fun hroom => ?_⟩
        exact absurd rfl (hsome hroom)
      | cons b bs => exact .inl (hasked.answered hmax (hall b (List.mem_cons_self ..)))
    | restart hr hleast hmany =>
      rcases hasked.restarted hmax hleast with hdone | hone
      · exact .inl hdone
      · refine .inr ⟨t, hasked.goesOn, hasked.ready, hasked.queued, ?_, fun _ => ⟨hr, ?_, hmany⟩⟩
        · rw [hr]
          exact Nat.zero_lt_succ _
        · rw [hasked.same.missing, hone, Finset.card_singleton]

theorem Ready.progress (h : Ready a n now s) : Progress a n now s := by
  rcases h.round hmax with hdone | ⟨t₁, hgo₁, h₁, hq₁, hfew, -⟩
  · exact hdone
  refine Progress.after hgo₁ (by rw [hq₁]) ?_
  rcases h₁.round hmax with hdone | ⟨t₂, hgo₂, h₂, hq₂, hfew₂, hone⟩
  · exact hdone
  obtain ⟨hnone, hcard, -⟩ := hone hfew
  refine Progress.after hgo₂ (by rw [hq₂]) ?_
  rcases h₂.round hmax with hdone | ⟨t₃, -, -, -, -, hmany⟩
  · exact hdone
  obtain ⟨-, -, hmany⟩ := hmany hfew₂
  rw [hnone, hcard] at hmany
  exact absurd hmany (by decide)

-- ---------------------------------------------------------------------------
-- To the end
-- ---------------------------------------------------------------------------

theorem Ready.queued_le (h : Ready a n now s) :
    s.client.queued.length ≤ a.layout.blockCount := by
  obtain ⟨hplaced, -⟩ := (joint_atWork hmax h.reachable).placed a.fetches
  rw [h.settled.network] at hplaced
  have hsub : s.client.numbers.toFinset ⊆ Finset.Icc 1 a.client.blockCount := fun b hb =>
    Finset.mem_Icc.mpr (hplaced.counted.range b (List.mem_toFinset.mp hb))
  have hcard := Finset.card_le_card hsub
  rw [List.toFinset_card_of_nodup hplaced.counted.nodup, Nat.card_Icc, Client.CommandGet.numbers,
    List.length_map, a.fetches.blockCount] at hcard
  omega

theorem Ready.finishes (h : Ready a n now s) : ∃ t, GoesOn a n now s t ∧ Done a t := by
  generalize hm : a.layout.blockCount - s.client.queued.length = m
  induction m using Nat.strong_induction_on generalizing s with
  | _ m ih =>
    obtain ⟨t, hgo, hdone | ⟨ht, hlen⟩⟩ := h.progress hmax
    · exact ⟨t, hgo, hdone⟩
    · have hle := ht.queued_le hmax
      obtain ⟨u, hgo', hu⟩ := ih _ (by omega) ht rfl
      exact ⟨u, hgo.trans hgo', hu⟩

theorem Done.returns (h : Done a s) (n now : Nat) :
    ∃ t, GoesOn a n now s t ∧ t.client.network = .returned ∧ Intact a t := by
  have hcount : a.client.blockCount + 1 < 2 ^ 32 := by
    rw [a.fetches.blockCount]
    omega
  obtain ⟨c, hpath, hret⟩ := (joint_atWork hmax h.reachable).returns a.fetches
    (recent_carries hmax h.reachable n) hcount h.left h.working
  have hgo : GoesOn a n now s ⟨c, s.server⟩ := client_goesOn hpath
  have hreach := hgo.reachable h.reachable
  have haligned := (joint_atWork hmax hreach).aligned
  simp only [hret, Client.Aligned] at haligned
  exact ⟨_, hgo, hret, returned_intact hmax hreach haligned⟩

end

/-- From every state of a transfer, as long as the server has not left it and
has heard the client within the timeout, the client can still return with the
whole file, without any datagram that was sent before, and before the server's
clock moves on. -/
theorem transfer_recovers (hmax : a.layout.blockCount < 2 ^ 32 - 1)
    (hs : (fileTransfer a.toEnds).ReachableBy Works s) (hab : s.client.network ≠ .aborted)
    (hrun : s.client.network.inLoop = true →
      s.server.running = true ∧ Server.InTime a.server now s.server.handler) :
    ∃ t, (fileTransfer a.toEnds).Path (WorksAfresh s.server.handler.sent.length now) s t ∧
      t.client.network = .returned ∧ Intact a t := by
  cases hloop : s.client.network.inLoop with
  | false => exact Done.returns hmax ⟨hs, hloop, hab⟩ _ now
  | true =>
    obtain ⟨c, hpath, -, -, hend⟩ := (joint_atWork hmax hs).settles a.fetches a.lossless
      (recent_carries hmax hs s.server.handler.sent.length) hloop
    have hgo : GoesOn a s.server.handler.sent.length now s ⟨c, s.server⟩ := client_goesOn hpath
    have hreach := hgo.reachable hs
    obtain ⟨t, hgo', hdone⟩ : ∃ t, GoesOn a s.server.handler.sent.length now ⟨c, s.server⟩ t ∧
        Done a t := by
      rcases hend with hsettled | hstop
      · obtain ⟨hserving, hin⟩ := hrun hloop
        exact Ready.finishes hmax ⟨hreach, hsettled, hserving, hin, Nat.le_refl _⟩
      · exact ⟨_, .refl, hreach, by rw [hstop]; rfl, by rw [hstop]; decide⟩
    obtain ⟨u, hgo'', hu⟩ := hdone.returns hmax s.server.handler.sent.length now
    exact ⟨u, (hgo.trans hgo').trans hgo'', hu⟩

/-- Two of three blocks have been sent and are lost, ten seconds ago. -/
theorem transfer_recovers_two_lost :
    ∃ s t, s.server.handler.sender.block = 2 ∧ s.client.queued = [] ∧
      (fileTransfer (defaultAgreement (singleBytes 3 (by decide) (by decide))).toEnds).Path
        (WorksAfresh s.server.handler.sent.length 10000000) s t ∧
      t.client.network = .returned ∧
      Intact (defaultAgreement (singleBytes 3 (by decide) (by decide))) t := by
  let a := defaultAgreement (singleBytes 3 (by decide) (by decide))
  have hcount : a.layout.blockCount = 3 := blockCount_singleBytes (by decide) (by decide)
  let c : Client.CommandGet := .create a.client fun _ => []
  have hd : (List.replicate (6 + maxBlockSize) (0 : UInt8)).length = 6 + maxBlockSize :=
    List.length_replicate
  obtain ⟨v, hpath, hv⟩ := swept_path (a := a) (c := c) (k := 2)
    (List.replicate sizeofRetransmission 0) rfl hd (by rw [hcount]; decide)
  have hinit : (fileTransfer a.toEnds).ReachableBy Works
      ⟨c, ⟨.create 0 (List.replicate (6 + maxBlockSize) 0) (List.replicate sizeofRetransmission 0)
        0, 0, true⟩⟩ :=
    .init ⟨_, _, _, _, _, List.length_replicate, List.length_replicate, rfl⟩
  have hin : Server.InTime a.server 10000000 v.handler := by
    rw [Server.InTime, hv.feedback]
    decide
  obtain ⟨t, hgo, hret, hintact⟩ := transfer_recovers (a := a) (s := ⟨c, v⟩)
    (by rw [hcount]; decide) (hinit.path hpath) (show Client.Network.receiving ≠ .aborted by decide)
    fun _ => ⟨hv.running, hin⟩
  exact ⟨_, t, hv.block, rfl, hgo, hret, hintact⟩

end Tsunami
