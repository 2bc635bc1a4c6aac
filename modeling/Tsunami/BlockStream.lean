import Tsunami.Restart
import Tsunami.Server.ProtocolLaws

/-!
# The stream of new blocks

What the server builds in each turn of its loop, and which blocks follow each
other while nobody asks for a restart. The counter is 32 bits wide: with as
many blocks as that, the block after the last one is block 0.
-/

namespace Tsunami

open Bytes Transition Server

variable {cfg : Server.Config} {h h' : Handler} {i : Input}

/-- The request a turn of the loop finds complete. -/
def Server.Handler.record (h : Handler) (i : Input) : Option Retransmission :=
  if (h.fill i.read).retransmitlen = sizeofRetransmission then
    some (.decode (h.fill i.read).retransmission)
  else none

def asked (r : Retransmission) : List (Nat × Nat) :=
  if r.requestType = requestRetransmit then [(r.block, tsBlockRetransmission)] else []

/-- The datagrams a turn of the loop builds, with their numbers and types. -/
def Server.Handler.builds (cfg : Server.Config) (h : Handler) (i : Input) : List (Nat × Nat) :=
  if h.sender.block ≤ cfg.blockCount then
    match i.read with
    | .nothing errno => if errno ≠ eagain then [] else go cfg h
    | .data _ => go cfg (h.fill i.read)
  else []
where
  go (cfg : Server.Config) (h : Handler) : List (Nat × Nat) :=
    if h.retransmitlen = sizeofRetransmission then asked (.decode h.retransmission)
    else if h.retransmitlen < sizeofRetransmission then [nextBlock cfg h.sender]
    else []

def builtAll (cfg : Server.Config) (s : Sender) (ds : List (Nat × Nat)) : Sender :=
  ds.foldl (fun s d => buildDatagram cfg s d.1 d.2) s

-- ---------------------------------------------------------------------------
-- One turn
-- ---------------------------------------------------------------------------

theorem builds_of_handler (ho : (h.iteration cfg i).handler = some h')
    (hb : h.sender.block ≤ cfg.blockCount) :
    h.builds cfg i = Handler.builds.go cfg (h.fill i.read) := by
  simp only [Handler.builds, if_pos hb]
  cases hr : i.read with
  | data bytes => rfl
  | nothing errno =>
    simp only [Handler.iteration, if_pos hb, hr] at ho
    split at ho
    · simp [Outcome.handler] at ho
    · rename_i herr
      exact if_neg herr

theorem record_some (h : Handler) (i : Input)
    (hfull : (h.fill i.read).retransmitlen = sizeofRetransmission) :
    h.record i = some (.decode (h.fill i.read).retransmission) := if_pos hfull

theorem record_none (h : Handler) (i : Input)
    (hpart : (h.fill i.read).retransmitlen < sizeofRetransmission) : h.record i = none :=
  if_neg (Nat.ne_of_lt hpart)

def Restarts (cfg : Server.Config) (r : Retransmission) : Prop :=
  r.requestType = requestRestart ∧ ¬cfg.Outside r.block

instance (cfg : Server.Config) (r : Retransmission) : Decidable (Restarts cfg r) :=
  inferInstanceAs (Decidable (_ ∧ _))

structure Answered (cfg : Server.Config) (h : Handler) (i : Input) (h' : Handler)
    (r : Retransmission) : Prop where
  builds : h.builds cfg i = asked r
  built : h'.built = h.built
  sender : ∃ ipd, h'.sender = { builtAll cfg h.sender (h.builds cfg i) with
    ipdCurrent := ipd
    block := if Restarts cfg r then r.block else h.sender.block }

structure Blasted (cfg : Server.Config) (h : Handler) (i : Input) (h' : Handler) : Prop where
  builds : h.builds cfg i = [nextBlock cfg h.sender]
  built : h'.built = h.built ++ [nextBlock cfg h.sender]
  sender : ∃ ipd, h'.sender = { builtAll cfg h.sender (h.builds cfg i) with
    ipdCurrent := ipd
    block := (nextBlock cfg h.sender).1 }

theorem asked_other (h : r.requestType = ty) (hne : ty ≠ requestRetransmit) : asked r = [] :=
  if_neg (h ▸ hne)

theorem not_restarts (h : r.requestType = ty) (hne : ty ≠ requestRestart) : ¬Restarts cfg r :=
  fun hr => hne (h.symm.trans hr.1)

theorem answers_sender (ha : Answers cfg ok s r s' sent status) :
    s' = { builtAll cfg s (asked r) with
      ipdCurrent := s'.ipdCurrent
      block := if Restarts cfg r then r.block else s.block } := by
  cases ha with
  | errorRate hty =>
    rw [asked_other hty (by decide), if_neg (not_restarts hty (by decide))]
    rfl
  | refused hty hout =>
    rw [asked_other hty (by decide), if_neg fun hr : Restarts cfg r => hr.2 hout]
    rfl
  | restart hty hin =>
    rw [asked_other hty (by decide), if_pos ⟨hty, hin⟩]
    rfl
  | retransmit hty =>
    rw [asked, if_pos hty, if_neg (not_restarts hty (by decide))]
    rfl
  | unsent hty =>
    rw [asked, if_pos hty, if_neg (not_restarts hty (by decide))]
    rfl
  | unknown _ hrestart hretransmit =>
    rw [asked, if_neg hretransmit, if_neg fun hr : Restarts cfg r => hrestart hr.1]
    rfl

theorem turn_law (hb : h.sender.block ≤ cfg.blockCount)
    (hl : h.retransmitlen ≤ sizeofRetransmission) (hv : i.Valid h)
    (ho : (h.iteration cfg i).handler = some h') :
    (∃ r, h.record i = some r ∧ Answered cfg h i h' r) ∨
      h.record i = none ∧ Blasted cfg h i h' := by
  have hbuilds := builds_of_handler ho hb
  have hturn : Turn cfg h i (h.iteration cfg i) := iteration_turn hl hv
  generalize h.iteration cfg i = out at hturn ho
  cases hturn with
  | left hgt => omega
  | fatal => simp [Outcome.handler] at ho
  | stop hfull hstop =>
    simp only [Outcome.handler, Option.some.injEq] at ho
    subst ho
    have hgo := hbuilds.trans (if_pos hfull)
    refine .inl ⟨_, record_some h i hfull, hgo, by simp, h.sender.ipdCurrent, ?_⟩
    rw [hgo, asked_other hstop (by decide), if_neg (not_restarts hstop (by decide))]
    simp [builtAll]
  | request hfull hstop =>
    have hgo := hbuilds.trans (if_pos hfull)
    have hbeat := heartbeat_beat ho
    obtain ⟨ipd, hs⟩ := hbeat.sender
    have hanswer := answers_sender (ttpAcceptRetransmit_answers cfg i.sendOk
      (h.fill i.read).sender (h.fill i.read).retransmission)
    refine .inl ⟨_, record_some h i hfull, hgo, by rw [hbeat.built]; simp [Handler.served], ipd, ?_⟩
    rw [hs, hgo]
    simp only [Handler.served]
    rw [hanswer]
    simp only [fill_sender]
  | block hpart hsend =>
    have hgo := hbuilds.trans ((if_neg (Nat.ne_of_lt hpart)).trans (if_pos hpart))
    have hbeat := heartbeat_beat ho
    obtain ⟨ipd, hs⟩ := hbeat.sender
    rw [fill_sender] at hgo
    refine .inr ⟨record_none h i hpart, hgo, by rw [hbeat.built]; simp [Handler.blasted], ipd, ?_⟩
    rw [hs, hgo]
    simp [Handler.blasted, builtAll, buildDatagram]
  | unsent hpart hsend =>
    simp only [Outcome.handler, Option.some.injEq] at ho
    subst ho
    have hgo := hbuilds.trans ((if_neg (Nat.ne_of_lt hpart)).trans (if_pos hpart))
    rw [fill_sender] at hgo
    refine .inr ⟨record_none h i hpart, hgo, by simp [Handler.blasted], h.sender.ipdCurrent, ?_⟩
    rw [hgo]
    simp [Handler.blasted, builtAll, buildDatagram]

-- ---------------------------------------------------------------------------
-- The shape of a run
-- ---------------------------------------------------------------------------

structure Flagged (cfg : Server.Config) (d : Nat × Nat) : Prop where
  kind : d.2 = tsBlockTerminate ∨ d.2 = tsBlockOriginal
  terminate : d.2 = tsBlockTerminate ↔ d.1 = cfg.blockCount
  original : d.2 = tsBlockOriginal → 1 ≤ d.1 ∧ d.1 ≤ cfg.blockCount - 1

/-- What a turn leaves: a sender that has built what the turn builds, with the
header of that in its buffer, and the new block among those built. -/
structure Leaves (cfg : Server.Config) (h : Handler) (i : Input) (h' : Handler) : Prop where
  bounded : h'.sender.block ≤ cfg.blockCount
  sender : ∃ ipd block, h'.sender = { builtAll cfg h.sender (h.builds cfg i) with
    ipdCurrent := ipd
    block := block }
  heading : ∀ d ∈ h.builds cfg i, h'.sender.heading = d
  built : h'.built = h.built ++ if h.record i = none then h.builds cfg i else []

structure Shape (cfg : Server.Config) (h : Handler) (i : Input) : Prop where
  leaves : ∀ h', (h.iteration cfg i).handler = some h' → Leaves cfg h i h'
  new : h.record i = none → ∀ d ∈ h.builds cfg i,
    Flagged cfg d ∧ d.1 = min (h.sender.block + 1) cfg.blockCount
  retransmission : ∀ r, h.record i = some r → ∀ d ∈ h.builds cfg i,
    r.requestType = requestRetransmit ∧ d = (r.block, tsBlockRetransmission)

/-- Turns from `h` on without a restart, `n` of them without a request. -/
inductive Stretch (cfg : Server.Config) (h : Handler) : Nat → Handler → Prop
  | refl : Stretch cfg h 0 h
  | request {j : Input} : Stretch cfg h n t → (transferLoop cfg).step t j = some u →
      t.record j = some r → ¬Restarts cfg r → Stretch cfg h n u
  | block {j : Input} : Stretch cfg h n t → (transferLoop cfg).step t j = some u →
      t.record j = none → Stretch cfg h (n + 1) u

structure WellShaped (cfg : Server.Config) : Prop where
  turns : ∀ h₀ is h, Starts h₀ → (transferLoop cfg).run h₀ is = some h →
    ∀ i, i.Valid h → Shape cfg h i
  stretches : ∀ h₀ is h, Starts h₀ → (transferLoop cfg).run h₀ is = some h →
    ∀ n h', Stretch cfg h n h' → h'.built = h.built ++ resumedAt cfg (h.sender.block + 1) n

theorem nextBlock_of_lt (hN : cfg.blockCount < 2 ^ 32 - 1) (hb : s.block ≤ cfg.blockCount) :
    nextBlock cfg s = (min (s.block + 1) cfg.blockCount,
      if min (s.block + 1) cfg.blockCount = cfg.blockCount then tsBlockTerminate
      else tsBlockOriginal) := by
  simp only [nextBlock, u32_of_lt (show s.block + 1 < 2 ^ 32 by omega)]

theorem nextBlock_flagged (hN : cfg.blockCount < 2 ^ 32 - 1) (h₁ : 1 ≤ cfg.blockCount)
    (hb : s.block ≤ cfg.blockCount) : Flagged cfg (nextBlock cfg s) := by
  rw [nextBlock_of_lt hN hb]
  by_cases hlast : min (s.block + 1) cfg.blockCount = cfg.blockCount
  · rw [if_pos hlast]
    have hkind : tsBlockTerminate ≠ tsBlockOriginal := by decide
    exact ⟨.inl rfl, ⟨fun _ => hlast, fun _ => rfl⟩, fun h => absurd h hkind⟩
  · rw [if_neg hlast]
    have hkind : tsBlockOriginal ≠ tsBlockTerminate := by decide
    refine ⟨.inr rfl, ⟨fun h => absurd h hkind, fun h => absurd h hlast⟩, fun _ => ?_⟩
    simp only
    omega

theorem builds_of_fatal (hb : h.sender.block ≤ cfg.blockCount)
    (hl : h.retransmitlen ≤ sizeofRetransmission) (hv : i.Valid h)
    (ho : (h.iteration cfg i).handler = none) : h.builds cfg i = [] := by
  obtain ⟨errno, hr, herr⟩ := (iteration_fatal_iff hb hl hv).mp (fatal_of_handler ho)
  simp [Handler.builds, hb, hr, herr]

theorem Answered.leaves (hlaw : Answered cfg h i h' r) (hrec : h.record i = some r)
    (hb : h.sender.block ≤ cfg.blockCount) : Leaves cfg h i h' := by
  obtain ⟨ipd, hs⟩ := hlaw.sender
  have hlt : r.block < 2 ^ 32 := by
    rw [Handler.record, Option.ite_none_right_eq_some] at hrec
    obtain ⟨-, hrec⟩ := hrec
    cases hrec
    exact Retransmission.decode_block_lt _
  refine ⟨?_, ⟨_, _, hs⟩, fun d hd => ?_, ?_⟩
  · rw [hs]
    simp only
    split
    · rename_i hrestart
      exact Nat.le_of_not_lt fun hgt => hrestart.2 (.inr hgt)
    · exact hb
  · rw [hlaw.builds, asked] at hs hd
    split at hd
    · rename_i hty
      obtain rfl := List.mem_singleton.mp hd
      rw [hs, if_pos hty]
      exact buildDatagram_heading cfg h.sender hlt (show tsBlockRetransmission < 2 ^ 16 by decide)
    · cases hd
  · rw [hlaw.built, hrec]
    simp

theorem Blasted.leaves (hlaw : Blasted cfg h i h') (hrec : h.record i = none) :
    Leaves cfg h i h' := by
  obtain ⟨ipd, hs⟩ := hlaw.sender
  obtain ⟨hb, ht⟩ := nextBlock_fits cfg h.sender
  refine ⟨?_, ⟨_, _, hs⟩, fun d hd => ?_, ?_⟩
  · rw [hs]
    exact Nat.min_le_right ..
  · rw [hlaw.builds] at hs hd
    obtain rfl := List.mem_singleton.mp hd
    rw [hs]
    exact buildDatagram_heading cfg h.sender hb ht
  · rw [hlaw.built, if_pos hrec, hlaw.builds]

theorem turn_shape (hN : cfg.blockCount < 2 ^ 32 - 1) (h₁ : 1 ≤ cfg.blockCount)
    (hh : AtHead cfg h) (hv : i.Valid h) : Shape cfg h i := by
  have hl := Nat.le_of_lt hh.retransmitlen
  have hflag := nextBlock_flagged hN h₁ hh.block
  cases ho : (h.iteration cfg i).handler with
  | none =>
    have hnone := builds_of_fatal hh.block hl hv ho
    exact {
      leaves := fun h' ho' => by simp [ho] at ho'
      new := fun _ d hd => by simp [hnone] at hd
      retransmission := fun _ _ d hd => by simp [hnone] at hd }
  | some h' =>
    rcases turn_law hh.block hl hv ho with ⟨r, hrec, hlaw⟩ | ⟨hrec, hlaw⟩
    · refine {
        leaves := fun h'' ho' => ?_
        new := fun hnone => by simp [hrec] at hnone
        retransmission := fun r' hr' d hd => ?_ }
      · obtain rfl : h' = h'' := Option.some.inj (ho.symm.trans ho')
        exact hlaw.leaves hrec hh.block
      · obtain rfl : r = r' := Option.some.inj (hrec.symm.trans hr')
        rw [hlaw.builds, asked] at hd
        split at hd
        · rename_i hty
          exact ⟨hty, List.mem_singleton.mp hd⟩
        · simp at hd
    · refine {
        leaves := fun h'' ho' => ?_
        new := fun _ d hd => ?_
        retransmission := fun r' hr' => by simp [hrec] at hr' }
      · obtain rfl : h' = h'' := Option.some.inj (ho.symm.trans ho')
        exact hlaw.leaves hrec
      · rw [hlaw.builds] at hd
        obtain rfl := List.mem_singleton.mp hd
        exact ⟨hflag, by rw [nextBlock_of_lt hN hh.block]⟩

theorem resumedAt_succ (cfg : Server.Config) (b n : Nat) :
    resumedAt cfg b (n + 1) = resumedAt cfg b n ++ [(min (b + n) cfg.blockCount,
      if min (b + n) cfg.blockCount = cfg.blockCount then tsBlockTerminate else tsBlockOriginal)] := by
  simp [resumedAt, List.range_succ]

theorem Stretch.law (hN : cfg.blockCount < 2 ^ 32 - 1) (hh : AtHead cfg h)
    (hst : Stretch cfg h n h') :
    AtHead cfg h' ∧ h'.sender.block = min (h.sender.block + n) cfg.blockCount ∧
      h'.built = h.built ++ resumedAt cfg (h.sender.block + 1) n := by
  induction hst with
  | refl => exact ⟨hh, by have := hh.block; omega, by simp [resumedAt]⟩
  | request _ hs hrec hno ih =>
    obtain ⟨hat, hblock, hbuilt⟩ := ih
    obtain ⟨hv, ho⟩ := transferLoop_step hs
    have hlaw := turn_law hat.block (Nat.le_of_lt hat.retransmitlen) hv (by rw [ho]; rfl)
    rcases hlaw with ⟨r', hrec', hlaw⟩ | ⟨hnone, -⟩
    · obtain rfl := Option.some.inj (hrec.symm.trans hrec')
      obtain ⟨ipd, hsend⟩ := hlaw.sender
      exact ⟨step_atHead hat hs, by rw [hsend, if_neg hno]; exact hblock, hlaw.built.trans hbuilt⟩
    · simp [hrec] at hnone
  | @block n t u j _ hs hrec ih =>
    obtain ⟨hat, hblock, hbuilt⟩ := ih
    obtain ⟨hv, ho⟩ := transferLoop_step hs
    have hlaw := turn_law hat.block (Nat.le_of_lt hat.retransmitlen) hv (by rw [ho]; rfl)
    rcases hlaw with ⟨r', hrec', -⟩ | ⟨-, hlaw⟩
    · simp [hrec] at hrec'
    · obtain ⟨ipd, hsend⟩ := hlaw.sender
      have hnext := nextBlock_of_lt hN hat.block
      have hmin : min (t.sender.block + 1) cfg.blockCount =
          min (h.sender.block + 1 + n) cfg.blockCount := by omega
      refine ⟨step_atHead hat hs, ?_, ?_⟩
      · rw [hsend, hnext]
        exact hmin.trans (by rw [Nat.add_right_comm, Nat.add_assoc])
      · rw [hlaw.built, hbuilt, hnext, hmin, List.append_assoc, ← resumedAt_succ]

theorem wellShaped (hN : cfg.blockCount < 2 ^ 32 - 1) (h₁ : 1 ≤ cfg.blockCount) :
    WellShaped cfg where
  turns _ _ _ hs hr _ hv := turn_shape hN h₁ (run_atHead (hs.atHead cfg) hr) hv
  stretches _ _ _ hs hr _ _ hst := (hst.law hN (run_atHead (hs.atHead cfg) hr)).2.2

-- ---------------------------------------------------------------------------
-- As many blocks as 32 bits can count
-- ---------------------------------------------------------------------------

def asksRestart (b : Nat) : Input := ⟨0, .data (Client.restartRequest b).encode, true, 0, 0, 0⟩

theorem asksRestart_decode (hb : b < 2 ^ 32) :
    Retransmission.decode ((Handler.create 0 [] [] 0).fill (asksRestart b).read).retransmission =
      Client.restartRequest b := by
  rw [← Retransmission.decode_encode (restartRequest_fits hb)]
  rfl

theorem restart_run (h₁ : 1 ≤ b) (hb : b ≤ cfg.blockCount) (hN : cfg.blockCount < 2 ^ 32) :
    ∃ h, (transferLoop cfg).run (.create 0 [] [] 0) [asksRestart b] = some h ∧
      h.sender.block = b := by
  have hdec := asksRestart_decode (b := b) (by omega)
  have hv : (asksRestart b).Valid (.create 0 [] [] 0) := ⟨Nat.zero_lt_succ 11, Nat.le_refl 12⟩
  have hrun : ∃ h, (Handler.create 0 [] [] 0).iteration cfg (asksRestart b) = .running h := by
    have hturn : Turn cfg _ _ ((Handler.create 0 [] [] 0).iteration cfg (asksRestart b)) :=
      iteration_turn (Nat.zero_le _) hv
    generalize (Handler.create 0 [] [] 0).iteration cfg (asksRestart b) = out at hturn
    cases hturn with
    | left hgt => exact absurd hgt (Nat.not_lt_zero _)
    | fatal hr => exact absurd hr (by simp [asksRestart])
    | stop _ hstop =>
      rw [hdec] at hstop
      exact absurd hstop (show requestRestart ≠ requestStop by decide)
    | request => exact ⟨_, if_neg (by simp [Handler.served])⟩
    | block hpart => exact absurd hpart (Nat.lt_irrefl 12)
    | unsent hpart => exact absurd hpart (Nat.lt_irrefl 12)
  obtain ⟨h, hh⟩ := hrun
  refine ⟨h, ?_, restart_block_set h₁ hb hN (Nat.zero_le _) hv rfl rfl hh⟩
  simp [System.run, transferLoop, hv, hh]

theorem block_zero_built (hN : cfg.blockCount = 2 ^ 32 - 1) :
    ∃ h, (transferLoop cfg).run (.create 0 [] [] 0) [asksRestart cfg.blockCount] = some h ∧
      h.record idleInput = none ∧ h.builds cfg idleInput = [(0, tsBlockOriginal)] := by
  obtain ⟨h, hr, hb⟩ : ∃ h, (transferLoop cfg).run (.create 0 [] [] 0)
      [asksRestart cfg.blockCount] = some h ∧ h.sender.block = cfg.blockCount :=
    restart_run (by omega) (Nat.le_refl _) (by omega)
  have hstart : Starts (.create 0 [] [] 0) := ⟨rfl, rfl⟩
  have hat := run_atHead (hstart.atHead cfg) hr
  have hnext : nextBlock cfg h.sender = (0, tsBlockOriginal) := by
    simp [nextBlock, hb, hN, u32]
  refine ⟨h, hr, record_none h idleInput hat.retransmitlen, ?_⟩
  rw [← hnext]
  simp [Handler.builds, Handler.builds.go, idleInput, hat.block, hat.retransmitlen,
    Nat.ne_of_lt hat.retransmitlen]

theorem not_wellShaped (hN : cfg.blockCount = 2 ^ 32 - 1) : ¬WellShaped cfg := by
  intro hw
  obtain ⟨h, hr, hrec, hbuilds⟩ := block_zero_built hN
  have hshape := hw.turns _ _ _ ⟨rfl, rfl⟩ hr idleInput trivial
  have hflag := (hshape.new hrec (0, tsBlockOriginal) (hbuilds ▸ List.mem_singleton_self _)).1
  exact absurd (hflag.original rfl).1 (Nat.not_succ_le_zero 0)

/-- The stream of blocks has its shape in every run, unless the blocks are as
many as 32 bits can count. -/
theorem block_stream_well_shaped_iff (h₁ : 1 ≤ cfg.blockCount) (hN : cfg.blockCount < 2 ^ 32) :
    WellShaped cfg ↔ cfg.blockCount ≠ 2 ^ 32 - 1 :=
  ⟨fun hw heq => not_wellShaped heq hw, fun hne => wellShaped (by omega) h₁⟩

theorem block_stream_well_shaped_iff_three_thousand : WellShaped (serverConfig 1024 3000 []) :=
  (block_stream_well_shaped_iff (by decide) (by decide)).mpr (by decide)

def oneByteBlocks : Server.Config :=
  serverConfig 1 (2 ^ 32 - 1) (List.replicate (2 ^ 32 - 1) 0)

theorem block_zero_after_last :
    ¬WellShaped oneByteBlocks ∧
    ∃ h, (transferLoop oneByteBlocks).run (.create 0 [] [] 0) [asksRestart (2 ^ 32 - 1)] = some h ∧
      h.builds oneByteBlocks idleInput = [(0, tsBlockOriginal)] := by
  have hcount : oneByteBlocks.blockCount = 2 ^ 32 - 1 := rfl
  obtain ⟨h, hr, -, hbuilds⟩ := block_zero_built hcount
  exact ⟨not_wellShaped hcount, h, hr, hbuilds⟩

end Tsunami
