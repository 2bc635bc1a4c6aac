import Tsunami.Client.Books
import Tsunami.Client.Records

/-!
# The lossy mode

Without a time window nothing is ever asked for again: the table stays empty, no
restart is pending, and so the first terminate block that is looked at ends the
transfer. What is missing then is what is reported as lost.
-/

namespace Tsunami.Client

open Bytes Transition

structure Parameter.Lossy (p : Parameter) : Prop where
  lossless : p.lossless = false
  losswindowMs : p.losswindowMs = 0

variable {param : Parameter} {cfg : Config} {o : Oracle} {x : Transfer} {b ty : Nat}
  {s t : CommandGet} {e : Event}

-- ---------------------------------------------------------------------------
-- The control logic
-- ---------------------------------------------------------------------------

structure Resigned (x : Transfer) : Prop where
  entries : x.retransmit.entries = []
  restartPending : x.restartPending = false

def AsksNothing (rs : List Retransmission) : Prop :=
  ∀ q ∈ rs, q.requestType ≠ requestRetransmit ∧ q.requestType ≠ requestRestart

theorem asksNothing_nil : AsksNothing [] := fun _ hq => absurd hq List.not_mem_nil

theorem AsksNothing.append (h : AsksNothing rs) (h' : AsksNothing rs') : AsksNothing (rs ++ rs') :=
  List.forall_mem_append.mpr ⟨h, h'⟩

theorem repeat_resigned (h : Resigned x) (w : WriteResult) :
    Resigned (ttpRepeatRetransmit w x).xfer ∧ (ttpRepeatRetransmit w x).records = [] := by
  have hreq := discard_requests x
  have hent := entries_compact x
  rw [h.entries] at hreq hent
  have hfew : ¬(discard x x.retransmit.indexMax).2.length ≥ maxRetransmissionBuffer := by
    rw [hreq]
    exact Nat.not_le.mpr (show 0 < maxRetransmissionBuffer by decide)
  unfold ttpRepeatRetransmit
  simp only [if_neg hfew]
  refine ⟨⟨hent, h.restartPending⟩, ?_⟩
  rw [hreq]
  exact w.taken_nil

theorem sendErrorRate_resigned (h : Resigned x) (param : Parameter) (c : Int) (w : WriteResult) :
    Resigned (sendErrorRate param c w x).xfer ∧
      AsksNothing (sendErrorRate param c w x).records := by
  constructor
  · simp only [sendErrorRate]
    split <;> exact ⟨h.entries, h.restartPending⟩
  · intro q hq
    obtain ⟨rate, rfl⟩ := sendErrorRate_records hq
    exact ⟨show requestErrorRate ≠ requestRetransmit by decide,
      show requestErrorRate ≠ requestRestart by decide⟩

/-- The law of a part of the iteration that may end it, but not the loop. -/
structure Stays (r : Result) : Prop where
  resigned : Resigned r.xfer
  records : AsksNothing r.records
  verdict : r.verdict ≠ .leave

theorem sendStats_stays (h : Resigned x) (param : Parameter) (o : Oracle) :
    Stays (sendStats param o x) := by
  obtain ⟨hrep, hnone⟩ := repeat_resigned h o.atRepeat
  rcases sendStats_cases param o x with heq | ⟨-, heq⟩ | heq
  · exact heq ▸ ⟨h, asksNothing_nil, by simp⟩
  · obtain ⟨hstats, hrecords⟩ := sendErrorRate_resigned hrep param o.countData o.atStats
    rw [hnone, List.nil_append] at heq
    exact heq ▸ ⟨hstats, hrecords, by simp⟩
  · rw [hnone] at heq
    exact heq ▸ ⟨hrep, asksNothing_nil, by simp⟩

theorem advanceHead_resigned (h : Resigned x) (b ty : Nat) : Resigned (advanceHead x b ty) := by
  simp only [advanceHead, leaveRestart, expectNext]
  split <;> split
  · exact ⟨h.entries, rfl⟩
  · exact ⟨h.entries, h.restartPending⟩
  · exact ⟨h.entries, rfl⟩
  · exact ⟨h.entries, h.restartPending⟩

theorem terminate_leaves (hp : param.Lossy) (h : Resigned x) (o : Oracle) :
    terminate param o x = ⟨x, [], .leave⟩ := by
  have hmax : x.retransmit.indexMax = 0 := by
    rw [← Retransmit.length_entries, h.entries, List.length_nil]
  simp [terminate, hp.lossless, hmax, h.restartPending]

theorem control_resigned (hp : param.Lossy) (h : Resigned x) (o : Oracle) (b ty : Nat) :
    Resigned (control param o x b ty).xfer ∧ (control param o x b ty).records = [] ∧
      (control param o x b ty).verdict = if ty = tsBlockTerminate then .leave else .next := by
  have hwire : onWire x b ty = false := by simp [onWire, h.restartPending]
  have hqueue : ∃ y, Resigned y ∧
      (if b > x.nextBlock then queueMissing param o x b else some x) = some y := by
    split
    · exact ⟨{ x with gaplessToBlock := b }, ⟨h.entries, h.restartPending⟩, by
        simp [queueMissing, hp.lossless, hp.losswindowMs]⟩
    · exact ⟨x, h, rfl⟩
  obtain ⟨y, hy, heq⟩ := hqueue
  have hhead := advanceHead_resigned hy b ty
  simp only [control, hwire, Bool.false_eq_true, if_false, heq]
  split
  · rw [terminate_leaves hp hhead]
    exact ⟨hhead, rfl, rfl⟩
  · exact ⟨hhead, rfl, rfl⟩

structure Controls (ty : Nat) (r : Result) : Prop where
  resigned : Resigned r.xfer
  records : AsksNothing r.records
  verdict : r.verdict = .leave ↔ ty = tsBlockTerminate

theorem controlAndStats_controls (hp : param.Lossy) (h : Resigned x) (o : Oracle) (b ty : Nat) :
    Controls ty (controlAndStats param o x b ty) := by
  obtain ⟨hres, hnone, hverdict⟩ := control_resigned hp h o b ty
  simp only [controlAndStats]
  split
  · rename_i hnext
    have hstats := sendStats_stays hres param o
    have hty : ty ≠ tsBlockTerminate := by
      rintro rfl
      rw [if_pos rfl, hnext] at hverdict
      cases hverdict
    exact ⟨hstats.resigned, by rw [hnone]; exact hstats.records,
      fun hleave => absurd hleave hstats.verdict, fun heq => absurd heq hty⟩
  · rename_i hnext
    have hty : ty = tsBlockTerminate := by
      by_contra hne
      rw [if_neg hne] at hverdict
      exact hnext hverdict
    exact ⟨hres, hnone ▸ asksNothing_nil, fun _ => hty, fun _ => hverdict.trans (if_pos hty)⟩

-- ---------------------------------------------------------------------------
-- Every step
-- ---------------------------------------------------------------------------

structure NeverAsked (s : CommandGet) : Prop where
  resigned : Resigned s.xfer
  sent : AsksNothing s.sent

theorem verdict_network {v : Verdict} : v.network = .stopping ↔ v = .leave := by
  cases v <;> simp [Verdict.network]

theorem finish_neverAsked {r : Result} (h : NeverAsked s) (hx : Resigned r.xfer)
    (hr : AsksNothing r.records) : NeverAsked (s.finish r) := ⟨hx, h.sent.append hr⟩

theorem countReceived_resigned (h : Resigned x) (ty : Nat) : Resigned (countReceived x ty) :=
  ⟨h.entries, h.restartPending⟩

/-- A datagram that is looked at is passed over, or it is an old one that the
control logic handles at once, or a new one that goes into the ring first. -/
inductive Looks (s : CommandGet) : CommandGet → Prop
  | passed {r : Result} : Stays r →
      (ringFull s.ring.ring = true ∨ gotBlock s.xfer (blockNumber s.localDatagram) = true ∧
        blockType s.localDatagram ≠ tsBlockTerminate) → Looks s (s.finish r)
  | old {r : Result} : ringFull s.ring.ring = false →
      gotBlock s.xfer (blockNumber s.localDatagram) = true →
      Controls (blockType s.localDatagram) r → Looks s (s.finish r)
  | new {x : Transfer} : ringFull s.ring.ring = false →
      gotBlock s.xfer (blockNumber s.localDatagram) = false → Resigned x →
      Looks s { s with xfer := x, network := .reserving .received }

theorem look_looks (hp : cfg.param.Lossy) (h : NeverAsked s) (o : Oracle) :
    Looks s (s.look cfg o) := by
  have hcount := countReceived_resigned h.resigned (blockType s.localDatagram)
  have hgot : gotBlock (countReceived s.xfer (blockType s.localDatagram))
      (blockNumber s.localDatagram) = gotBlock s.xfer (blockNumber s.localDatagram) := rfl
  simp only [CommandGet.look]
  split
  · rename_i hroom
    split
    · rename_i hold
      exact .old hroom.1 (hgot ▸ hold) (controlAndStats_controls hp hcount _ _ _)
    · rename_i hnew
      exact .new hroom.1 (eq_false_of_ne_true (hgot ▸ hnew)) hcount
  · rename_i hidle
    refine .passed (sendStats_stays hcount _ _) ?_
    cases hfull : ringFull s.ring.ring with
    | true => exact .inl rfl
    | false =>
      simp only [hfull, true_and, relevant, hgot, Bool.or_eq_true, Bool.not_eq_true',
        decide_eq_true_eq, not_or, Bool.not_eq_false] at hidle
      exact .inr ⟨hidle.1.1, hidle.1.2⟩

theorem look_neverAsked (hp : cfg.param.Lossy) (h : NeverAsked s) (o : Oracle) :
    NeverAsked (s.look cfg o) ∧
      ((s.look cfg o).network = .stopping ↔
        (ringFull s.ring.ring = false ∧ gotBlock s.xfer (blockNumber s.localDatagram) = true) ∧
          blockType s.localDatagram = tsBlockTerminate) := by
  have hlooks := look_looks hp h o
  generalize s.look cfg o = t at hlooks ⊢
  cases hlooks with
  | passed hstats hidle =>
    refine ⟨finish_neverAsked h hstats.resigned hstats.records, ?_⟩
    rw [CommandGet.finish, verdict_network]
    refine ⟨fun hleave => absurd hleave hstats.verdict, ?_⟩
    rintro ⟨⟨hroom, -⟩, hty⟩
    rcases hidle with hfull | ⟨-, hne⟩
    · exact absurd (hroom.symm.trans hfull) Bool.false_ne_true
    · exact absurd hty hne
  | old hroom hold hctl =>
    refine ⟨finish_neverAsked h hctl.resigned hctl.records, ?_⟩
    rw [CommandGet.finish, verdict_network, hctl.verdict]
    exact ⟨fun hty => ⟨⟨hroom, hold⟩, hty⟩, And.right⟩
  | new hroom hnew hx =>
    refine ⟨⟨hx, h.sent⟩, ⟨fun hnet => ?_, ?_⟩⟩
    · cases hnet
    · rintro ⟨⟨-, hold⟩, -⟩
      exact absurd (hnew.symm.trans hold) Bool.false_ne_true

theorem control_controls (hp : cfg.param.Lossy) (h : NeverAsked s) (o : Oracle) :
    ∃ r, Controls (blockType s.localDatagram) r ∧ s.control cfg o = s.finish r := by
  have hmark : Resigned (markReceived s.xfer (blockNumber s.localDatagram)) :=
    ⟨h.resigned.entries, h.resigned.restartPending⟩
  exact ⟨_, controlAndStats_controls hp hmark _ _ _, rfl⟩

theorem control_neverAsked (hp : cfg.param.Lossy) (h : NeverAsked s) (o : Oracle) :
    NeverAsked (s.control cfg o) ∧
      ((s.control cfg o).network = .stopping ↔ blockType s.localDatagram = tsBlockTerminate) := by
  obtain ⟨r, hctl, heq⟩ := control_controls hp h o
  rw [heq]
  refine ⟨finish_neverAsked h hctl.resigned hctl.records, ?_⟩
  rw [CommandGet.finish, verdict_network, hctl.verdict]

theorem requestStop_asksNothing (w : WriteResult) (x : Transfer) :
    AsksNothing (ttpRequestStop w x).records := by
  intro q hq
  rw [List.mem_singleton.mp (WriteResult.mem_of_mem_taken hq)]
  exact ⟨show requestStop ≠ requestRetransmit by decide,
    show requestStop ≠ requestRestart by decide⟩

/-- The control logic handles a datagram in this step: at once where the block
has been received before, else when it has been put into the ring. -/
def Handles (s : CommandGet) : Event → Prop
  | .look _ => s.network = .looking ∧ ringFull s.ring.ring = false ∧
      gotBlock s.xfer (blockNumber s.localDatagram) = true
  | .control _ => s.network = .controlling
  | _ => False

def Leaves (s t : CommandGet) : Prop := s.network ≠ .stopping ∧ t.network = .stopping

theorem step_neverAsked (hp : cfg.param.Lossy) (h : NeverAsked s) (hs : s.step cfg e = some t) :
    NeverAsked t ∧
      (Leaves s t ↔ Handles s e ∧ blockType s.localDatagram = tsBlockTerminate) := by
  cases step_cases hs with
  | look hnet =>
    obtain ⟨hasked, hleave⟩ := look_neverAsked hp h ‹_›
    refine ⟨hasked, ?_⟩
    rw [Leaves, hleave, hnet]
    simp [Handles, hnet]
  | control hnet =>
    obtain ⟨hasked, hleave⟩ := control_neverAsked hp h ‹_›
    refine ⟨hasked, ?_⟩
    rw [Leaves, hleave, hnet]
    simp [Handles, hnet]
  | @recvFails w hnet =>
    obtain ⟨hrep, hnone⟩ := repeat_resigned h.resigned w
    refine ⟨⟨hrep, h.sent.append (hnone ▸ asksNothing_nil)⟩, ?_⟩
    simp only [Leaves, Handles]
    split <;> simp
  | reserve hnet | wake hnet =>
    refine ⟨⟨h.resigned, h.sent⟩, ?_⟩
    simp only [Leaves, Handles, CommandGet.reserved]
    split <;> simp
  | requestStop hnet =>
    refine ⟨⟨h.resigned, h.sent.append (requestStop_asksNothing _ _)⟩, ?_⟩
    simp [Leaves, Handles, hnet]
  | accept =>
    simp only [CommandGet.accept]
    split <;> exact ⟨⟨h.resigned, h.sent⟩, by simp [Leaves, Handles]⟩
  | recv | copy | confirm | confirmStop | join | count | counted | peek | pop =>
    exact ⟨⟨h.resigned, h.sent⟩, by simp [Leaves, Handles]⟩

-- ---------------------------------------------------------------------------
-- Counting the lost blocks
-- ---------------------------------------------------------------------------

structure Tallied (cfg : Config) (x : Transfer) (block lost : Nat) : Prop where
  pos : 1 ≤ block
  le : block ≤ cfg.blockCount + 1
  count : lost = ((missing x).filter (· < block)).card

theorem tallied_start (cfg : Config) (x : Transfer) : Tallied cfg x 1 0 where
  pos := Nat.le_refl 1
  le := Nat.le_add_left ..
  count := by
    rw [eq_comm, Finset.card_eq_zero, Finset.filter_eq_empty_iff]
    intro b hb
    have hpos := (mem_missing.mp hb).1
    omega

variable {block lost : Nat}

theorem Tallied.next (h : Tallied cfg x block lost) (hn : cfg.blockCount ≤ 2 ^ 32 - 2)
    (hx : x.blockCount = cfg.blockCount) (hb : block ≤ x.blockCount) :
    Tallied cfg x (u32 (block + 1)) (if gotBlock x block then lost else lost + 1) := by
  have hwrap : u32 (block + 1) = block + 1 := u32_of_lt (by omega)
  have hpos := h.pos
  rw [hwrap]
  refine ⟨by omega, by omega, ?_⟩
  cases hgot : gotBlock x block with
  | true =>
    simp only [if_true, h.count]
    congr 1
    refine Finset.filter_congr fun b hmem => ?_
    have hne : b ≠ block := by
      rintro rfl
      exact Bool.false_ne_true ((mem_missing.mp hmem).2.2.symm.trans hgot)
    omega
  | false =>
    have hmem : block ∈ missing x := mem_missing.mpr ⟨hpos, hb, hgot⟩
    have hinsert : (missing x).filter (· < block + 1) =
        insert block ((missing x).filter (· < block)) := by
      ext b
      simp only [Finset.mem_filter, Finset.mem_insert]
      constructor
      · rintro ⟨hb, hlt⟩
        by_cases heq : b = block
        · exact .inl heq
        · exact .inr ⟨hb, by omega⟩
      · rintro (rfl | ⟨hb, hlt⟩)
        · exact ⟨hmem, Nat.lt_succ_self b⟩
        · exact ⟨hb, Nat.lt_succ_of_lt hlt⟩
    simp only [Bool.false_eq_true, if_false, h.count]
    rw [hinsert, Finset.card_insert_of_notMem (by simp)]

theorem Tallied.all (h : Tallied cfg x block lost) (hx : x.blockCount = cfg.blockCount)
    (hb : cfg.blockCount < block) : lost = (missing x).card := by
  rw [h.count, Finset.filter_true_of_mem]
  intro b hmem
  have hle := (mem_missing.mp hmem).2.1
  omega

def Counting (cfg : Config) (s : CommandGet) : Prop :=
  ∀ block lost, s.network = .counting block lost → Tallied cfg s.xfer block lost

theorem finish_not_counting (s : CommandGet) (r : Result) :
    (s.finish r).network ≠ .counting block lost := by
  cases hv : r.verdict <;> simp [CommandGet.finish, hv, Verdict.network]

theorem look_not_counting (cfg : Config) (o : Oracle) (s : CommandGet) :
    (s.look cfg o).network ≠ .counting block lost := by
  simp only [CommandGet.look]
  split
  · split
    · exact finish_not_counting _ _
    · simp
  · exact finish_not_counting _ _

theorem step_counting (h : Counting cfg s) (hx : s.xfer.blockCount = cfg.blockCount)
    (hn : cfg.blockCount ≤ 2 ^ 32 - 2) (hs : s.step cfg e = some t) : Counting cfg t := by
  intro block lost hnet'
  cases step_cases hs with
  | join =>
    cases hnet'
    exact tallied_start ..
  | count hnet hb =>
    cases hnet'
    exact (h _ _ hnet).next hn hx hb
  | peek | pop => exact h block lost hnet'
  | accept =>
    simp only [CommandGet.accept] at hnet' ⊢
    split at hnet' <;> rename_i hzero
    · rw [if_pos hzero]
      exact h block lost hnet'
    · rw [if_neg hzero]
      exact h block lost hnet'
  | look => exact absurd hnet' (look_not_counting cfg _ s)
  | control => exact absurd hnet' (finish_not_counting _ _)
  | recvFails | requestStop =>
    simp only at hnet'
    split at hnet' <;> cases hnet'
  | reserve | wake =>
    simp only [CommandGet.reserved] at hnet'
    split at hnet' <;> cases hnet'
  | recv | copy | confirm | confirmStop | counted => cases hnet'

-- ---------------------------------------------------------------------------
-- What arrives
-- ---------------------------------------------------------------------------

def CommandGet.heard (s : CommandGet) : Event → List Datagram
  | .look _ => if s.network = .looking ∧ ringFull s.ring.ring = false then [s.localDatagram] else []
  | _ => []

def heardOver (cfg : Config) : CommandGet → List Event → List Datagram
  | _, [] => []
  | s, e :: es => s.heard e ++ (s.step cfg e).elim [] fun t => heardOver cfg t es

def Terminated (heard : List Datagram) : Prop := ∃ d ∈ heard, blockType d = tsBlockTerminate

theorem not_terminated_nil : ¬Terminated [] := by simp [Terminated]

theorem terminated_append :
    Terminated (heard ++ heard') ↔ Terminated heard ∨ Terminated heard' := by
  simp only [Terminated, List.mem_append, or_and_right, exists_or]

theorem terminated_singleton : Terminated [d] ↔ blockType d = tsBlockTerminate := by
  simp [Terminated]

/-- What the place of the network thread, which has a datagram of type `ty` in
its buffer, says about the terminate blocks among what has been heard. -/
def Heeds (heard : List Datagram) (ty : Nat) : Network → Prop
  | .receiving | .looking => ¬Terminated heard
  | .reserving .received | .copying .received | .confirming .received | .controlling =>
    Terminated heard ↔ ty = tsBlockTerminate
  | .stopping | .reserving .stop | .copying .stop | .confirming .stop | .joining | .counting _ _
  | .returned => Terminated heard
  | .aborted => True

theorem verdict_heeds {v : Verdict} (h : v = .leave ↔ Terminated heard) :
    Heeds heard ty v.network := by
  cases v with
  | next => exact fun hterm => by simpa using h.mpr hterm
  | leave => exact h.mp rfl
  | abort => trivial

theorem look_heeds (hp : cfg.param.Lossy) (ha : NeverAsked s) (hnet : s.network = .looking)
    (h : ¬Terminated heard) (o : Oracle) :
    Heeds (heard ++ s.heard (.look o)) (blockType s.localDatagram) (s.look cfg o).network := by
  have hheard : ringFull s.ring.ring = false → s.heard (.look o) = [s.localDatagram] := by
    intro hroom
    simp [CommandGet.heard, hnet, hroom]
  have hterm : Terminated (heard ++ [s.localDatagram]) ↔
      blockType s.localDatagram = tsBlockTerminate := by
    rw [terminated_append, terminated_singleton, or_iff_right h]
  have hlooks := look_looks hp ha o
  generalize s.look cfg o = t at hlooks ⊢
  cases hlooks with
  | passed hstats hidle =>
    refine verdict_heeds ⟨fun hleave => absurd hleave hstats.verdict, fun hall => ?_⟩
    cases hfull : ringFull s.ring.ring with
    | true =>
      simp only [CommandGet.heard, hfull, Bool.true_eq_false, and_false, if_false,
        List.append_nil] at hall
      exact absurd hall h
    | false =>
      rw [hheard hfull, hterm] at hall
      rw [hfull] at hidle
      exact absurd hall (hidle.resolve_left Bool.false_ne_true).2
  | old hroom _ hctl =>
    rw [hheard hroom]
    exact verdict_heeds (hctl.verdict.trans hterm.symm)
  | new hroom =>
    rw [hheard hroom]
    exact hterm

theorem step_heeds (hp : cfg.param.Lossy) (ha : NeverAsked s)
    (h : Heeds heard (blockType s.localDatagram) s.network) (hs : s.step cfg e = some t) :
    Heeds (heard ++ s.heard e) (blockType t.localDatagram) t.network := by
  cases step_cases hs with
  | look hnet =>
    rw [hnet] at h
    have hlocal : ∀ o, (s.look cfg o).localDatagram = s.localDatagram := by
      intro o
      simp only [CommandGet.look]
      split <;> [split; skip] <;> rfl
    rw [hlocal]
    exact look_heeds hp ha hnet h _
  | @control o hnet =>
    rw [hnet] at h
    obtain ⟨r, hctl, heq⟩ := control_controls hp ha o
    simp only [heq, CommandGet.heard, List.append_nil]
    exact verdict_heeds (hctl.verdict.trans h.symm)
  | recv hnet | confirm hnet | confirmStop hnet | join hnet | count hnet | counted hnet =>
    rw [hnet] at h
    simp only [CommandGet.heard, List.append_nil]
    exact h
  | recvFails hnet | requestStop hnet =>
    rw [hnet] at h
    simp only [CommandGet.heard, List.append_nil]
    split
    · exact h
    · trivial
  | @reserve i _ hnet | @wake i _ hnet =>
    rw [hnet] at h
    simp only [CommandGet.heard, List.append_nil, CommandGet.reserved]
    cases i <;> split <;> exact h
  | @copy i _ _ hnet =>
    rw [hnet] at h
    simp only [CommandGet.heard, List.append_nil]
    cases i <;> exact h
  | peek | pop =>
    simp only [CommandGet.heard, List.append_nil]
    exact h
  | accept =>
    simp only [CommandGet.heard, List.append_nil, CommandGet.accept]
    split <;> exact h

-- ---------------------------------------------------------------------------
-- What is put into the ring
-- ---------------------------------------------------------------------------

def Network.pending (b : Nat) : Network → List Nat
  | .reserving .received | .copying .received | .confirming .received => [b]
  | _ => []

def CommandGet.kept (s : CommandGet) : List Nat :=
  s.numbers ++ s.network.pending (blockNumber s.localDatagram)

def InRange (cfg : Config) (heard : List Datagram) : Prop :=
  ∀ d ∈ heard, 1 ≤ blockNumber d ∧ blockNumber d ≤ cfg.blockCount

def Keeps (heard : List Datagram) (numbers : List Nat) : Prop :=
  ∀ b, b ∈ heard.map blockNumber ↔ b ∈ numbers

theorem Keeps.silent (h : Keeps heard numbers) (heq : numbers' = numbers) :
    Keeps (heard ++ []) numbers' := by
  rw [List.append_nil, heq]
  exact h

theorem finish_kept (s : CommandGet) (r : Result) : (s.finish r).kept = s.numbers := by
  have hnone : ∀ b, r.verdict.network.pending b = [] := fun _ => by cases r.verdict <;> rfl
  simp only [CommandGet.kept, CommandGet.finish, hnone, List.append_nil]
  rfl

theorem InRange.noBlockZero (h : InRange cfg (s.heard e)) (hs : s.step cfg e = some t) :
    NoBlockZero s e := by
  intro hlooks
  cases step_cases hs with
  | look hnet =>
    cases hfull : ringFull s.ring.ring with
    | true => exact .inl rfl
    | false =>
      have hpos := (h s.localDatagram (by simp [CommandGet.heard, hnet, hfull])).1
      exact .inr (Nat.one_le_iff_ne_zero.mp hpos)
  | _ => cases hlooks

theorem look_keeps (hp : cfg.param.Lossy) (ha : NeverAsked s) (h : Keeps heard s.kept)
    (hplaced : Placed cfg s .looking) (hnet : s.network = .looking)
    (hr : InRange cfg (s.heard (.look o))) :
    Keeps (heard ++ s.heard (.look o)) (s.look cfg o).kept := by
  have hkept : s.kept = s.numbers := by simp [CommandGet.kept, Network.pending, hnet]
  have hheard : ringFull s.ring.ring = false → s.heard (.look o) = [s.localDatagram] := by
    intro hroom
    simp [CommandGet.heard, hnet, hroom]
  rw [hkept] at h
  -- a block that has been received before is among the numbers already
  have hold : ringFull s.ring.ring = false →
      gotBlock s.xfer (blockNumber s.localDatagram) = true →
        Keeps (heard ++ s.heard (.look o)) s.numbers := by
    intro hroom hmarked b
    rw [hheard hroom] at hr ⊢
    obtain ⟨hpos, hle⟩ := hr s.localDatagram List.mem_cons_self
    have hmem := (hplaced.counted.marked _ hpos hle).mp hmarked
    rw [List.map_append, List.mem_append, h b, List.map_singleton, List.mem_singleton]
    refine ⟨?_, .inl⟩
    rintro (hb | rfl)
    · exact hb
    · exact hmem
  have hlooks := look_looks hp ha o
  generalize s.look cfg o = t at hlooks ⊢
  cases hlooks with
  | passed _ hidle =>
    rw [finish_kept]
    cases hfull : ringFull s.ring.ring with
    | true =>
      simp only [CommandGet.heard, hfull, Bool.true_eq_false, and_false, if_false]
      exact h.silent rfl
    | false =>
      rw [hfull] at hidle
      exact hold hfull (hidle.resolve_left Bool.false_ne_true).1
  | old hroom hgot =>
    rw [finish_kept]
    exact hold hroom hgot
  | new hroom =>
    intro b
    rw [hheard hroom, List.map_append, List.mem_append, h b]
    exact List.mem_append.symm

theorem step_keeps (hp : cfg.param.Lossy) (ha : NeverAsked s) (h : Keeps heard s.kept)
    (hplaced : Placed cfg s s.network) (hr : InRange cfg (s.heard e))
    (hs : s.step cfg e = some t) : Keeps (heard ++ s.heard e) t.kept := by
  cases step_cases hs with
  | look hnet =>
    rw [hnet] at hplaced
    exact look_keeps hp ha h hplaced hnet hr
  | control hnet =>
    refine h.silent ?_
    rw [CommandGet.control, finish_kept]
    simp [CommandGet.kept, Network.pending, hnet]
  | confirm hnet hholding hring =>
    rw [hnet] at hplaced
    have hslot := hplaced.2.2 _ hholding
    refine h.silent ?_
    simp [CommandGet.kept, Network.pending, CommandGet.numbers, hnet, hslot]
  | recvFails hnet | requestStop hnet =>
    refine h.silent ?_
    simp only [CommandGet.kept, CommandGet.numbers, hnet]
    split <;> rfl
  | @reserve i _ hnet | @wake i _ hnet =>
    refine h.silent ?_
    simp only [CommandGet.kept, CommandGet.numbers, CommandGet.reserved, hnet]
    cases i <;> split <;> rfl
  | @copy i _ _ hnet =>
    refine h.silent ?_
    simp only [CommandGet.kept, CommandGet.numbers, hnet]
    cases i <;> rfl
  | recv hnet | confirmStop hnet | join hnet | count hnet | counted hnet =>
    refine h.silent ?_
    simp [CommandGet.kept, Network.pending, CommandGet.numbers, hnet]
  | peek | pop => exact h.silent rfl
  | accept =>
    refine h.silent ?_
    simp only [CommandGet.accept]
    split <;> rfl

-- ---------------------------------------------------------------------------
-- Every run
-- ---------------------------------------------------------------------------

theorem InRange.of_append (h : InRange cfg (heard ++ heard')) :
    InRange cfg heard ∧ InRange cfg heard' := List.forall_mem_append.mp h

structure Along (cfg : Config) (heard : List Datagram) (s : CommandGet) : Prop where
  talks : Talks cfg s
  asked : NeverAsked s
  heeds : Heeds heard (blockType s.localDatagram) s.network
  counting : Counting cfg s
  placed : InRange cfg heard → Placed cfg s s.network ∧ Keeps heard s.kept

theorem create_along (cfg : Config) (slots : Int → Datagram) :
    Along cfg [] (.create cfg slots) where
  talks := create_talks cfg slots
  asked := ⟨⟨rfl, rfl⟩, asksNothing_nil⟩
  heeds := not_terminated_nil
  counting _ _ hnet := by simp [CommandGet.create] at hnet
  placed _ := ⟨create_placed cfg slots, fun _ => Iff.rfl⟩

theorem step_along (hp : cfg.param.Lossy) (hn : cfg.blockCount ≤ 2 ^ 32 - 2)
    (h : Along cfg heard s) (hs : s.step cfg e = some t) :
    Along cfg (heard ++ s.heard e) t where
  talks := step_talks (by omega) h.talks hs
  asked := (step_neverAsked hp h.asked hs).1
  heeds := step_heeds hp h.asked h.heeds hs
  counting := step_counting h.counting h.talks.blockCount hn hs
  placed hr := by
    obtain ⟨hbefore, hnow⟩ := hr.of_append
    obtain ⟨hplaced, hkeeps⟩ := h.placed hbefore
    exact ⟨step_placed hplaced (hnow.noBlockZero hs) hs,
      step_keeps hp h.asked hkeeps hplaced hnow hs⟩

theorem run_along (hp : cfg.param.Lossy) (hn : cfg.blockCount ≤ 2 ^ 32 - 2)
    (h : Along cfg heard s) (hr : (commandGet cfg).run s es = some t) :
    Along cfg (heard ++ heardOver cfg s es) t := by
  induction es generalizing s heard with
  | nil =>
    simp only [System.run_nil, Option.some.injEq] at hr
    subst hr
    simpa [heardOver] using h
  | cons e es ih =>
    obtain ⟨u, hu, ht⟩ := System.run_cons.mp hr
    have hstep : s.step cfg e = some u := hu
    simp only [heardOver, hstep, Option.elim_some, ← List.append_assoc]
    exact ih (step_along hp hn h hu) ht

def unheard (cfg : Config) (heard : List Datagram) : Finset Nat :=
  (Finset.Icc 1 cfg.blockCount).filter (· ∉ heard.map blockNumber)

theorem missing_unheard (h : Counted cfg x numbers) (hk : Keeps heard numbers) :
    missing x = unheard cfg heard := by
  ext b
  rw [mem_missing, unheard, Finset.mem_filter, Finset.mem_Icc, hk b, h.blockCount]
  constructor
  · rintro ⟨hpos, hle, hmiss⟩
    refine ⟨⟨hpos, hle⟩, fun hmem => ?_⟩
    exact Bool.false_ne_true (hmiss.symm.trans ((h.marked b hpos hle).mpr hmem))
  · rintro ⟨⟨hpos, hle⟩, hmem⟩
    exact ⟨hpos, hle, eq_false_of_ne_true fun hgot => hmem ((h.marked b hpos hle).mp hgot)⟩

theorem Along.reported (h : Along cfg heard s) (hr : InRange cfg heard)
    (hnet : s.network = .counting block lost) (hb : cfg.blockCount < block) :
    lost = s.xfer.blocksLeft ∧ lost = (unheard cfg heard).card := by
  obtain ⟨hplaced, hkeeps⟩ := h.placed hr
  have hkept : s.kept = s.numbers := by simp [CommandGet.kept, Network.pending, hnet]
  rw [hnet] at hplaced
  rw [hkept] at hkeeps
  have hcount := hplaced.1.counted
  have hlost := (h.counting _ _ hnet).all hcount.blockCount hb
  exact ⟨hlost.trans hcount.left.symm, hlost.trans (congrArg _ (missing_unheard hcount hkeeps))⟩

/-- What a run without a time window comes to: nothing is asked for, the loop is
left on the first terminate block that is heard, and, once all is counted, what
is reported as lost is what was never heard. -/
structure ResignedRun (cfg : Config) (heard : List Datagram) (s : CommandGet) : Prop where
  asksNothing : AsksNothing s.sent
  heeds : Heeds heard (blockType s.localDatagram) s.network
  leaves : ∀ e t, s.step cfg e = some t →
    (Leaves s t ↔ Handles s e ∧ blockType s.localDatagram = tsBlockTerminate)
  reported : InRange cfg heard → ∀ block lost, s.network = .counting block lost →
    cfg.blockCount < block → lost = s.xfer.blocksLeft ∧ lost = (unheard cfg heard).card

theorem lossy_resigns (hp : cfg.param.Lossy) (hn : cfg.blockCount ≤ 2 ^ 32 - 2)
    (hr : (commandGet cfg).run (.create cfg slots) es = some s) :
    ResignedRun cfg (heardOver cfg (.create cfg slots) es) s := by
  have h := run_along hp hn (create_along cfg slots) hr
  rw [List.nil_append] at h
  exact {
    asksNothing := h.asked.sent
    heeds := h.heeds
    leaves := fun _ _ hs => (step_neverAsked hp h.asked hs).2
    reported := fun hrange _ _ hnet hb => h.reported hrange hnet hb }

def lossyConfig : Config := ⟨⟨4, 650000000, 25, false, 0⟩, 8, 2⟩

def secondOfTwo : List Event :=
  [.recv (sampleDatagram 4 2 tsBlockTerminate), .look quietOracle, .reserve, .copy, .confirm,
    .control quietOracle, .requestStop .ok, .reserve, .copy, .confirm, .peek, .accept .ok, .pop,
    .peek, .accept .ok, .join, .count, .count]

theorem lossy_resigns_second_of_two :
    ∃ s, s.network = .counting 3 1 ∧ ResignedRun lossyConfig
      (heardOver lossyConfig (.create lossyConfig fun _ => []) secondOfTwo) s := by
  have hrun : ((commandGet lossyConfig).run (.create lossyConfig fun _ => []) secondOfTwo).map
      (·.network) = some (.counting 3 1) := by decide +kernel
  obtain ⟨s, hs, hnet⟩ := Option.map_eq_some_iff.mp hrun
  exact ⟨s, hnet, lossy_resigns ⟨rfl, rfl⟩ (by decide) hs⟩

end Tsunami.Client
