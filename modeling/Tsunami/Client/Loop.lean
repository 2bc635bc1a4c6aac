import Tsunami.Client.Books
import Tsunami.Client.Reception

/-!
# The loop, turn by turn

Between `recvfrom` and the head of the next turn the network thread stops at
every locked section of the ring, and the disk thread goes on meanwhile. Seen
from head to head the two threads make turns of the receive loop: what is known
of those is known of the client.
-/

namespace Tsunami.Client

open Bytes Transition

-- ---------------------------------------------------------------------------
-- Turns
-- ---------------------------------------------------------------------------

/-- The head of a turn: the transfer object, the local buffer, and what the
turns before have put into the ring and written to the server. -/
structure Head where
  xfer : Transfer
  buffer : Datagram
  queued : List Datagram
  sent : List Retransmission

structure Turn where
  oracle : Oracle
  full : Bool
  reception : Reception

def Head.pass (param : Parameter) (h : Head) (a : Turn) : Pass :=
  Client.pass param a.oracle a.full h.xfer h.buffer a.reception

def Head.after (h : Head) (p : Pass) : Head where
  xfer := p.result.xfer
  buffer := p.buffer
  queued := h.queued ++ p.queued.toList
  sent := h.sent ++ p.result.records

def turns (cfg : Config) : System Head Turn where
  init h := h = ⟨.create cfg.param cfg.fileSize cfg.blockCount,
    List.replicate (6 + cfg.param.blockSize) 0, [], []⟩
  step h a :=
    let p := h.pass cfg.param a
    if p.result.verdict = .next then some (h.after p) else none

def opening (w : WriteResult) (x : Transfer) (r : Reception) : Sent :=
  if r.failed then ttpRepeatRetransmit w x else ⟨x, [], true⟩

theorem opening_sameBlocks (w : WriteResult) (x : Transfer) (r : Reception) :
    SameBlocks x (opening w x r).xfer := by
  rw [opening]
  split
  · exact ttpRepeatRetransmit_sameBlocks w x
  · exact .refl x

variable {param : Parameter} {cfg : Config} {o : Oracle} {x : Transfer} {buf : Datagram}
  {r : Reception}
  {w : WriteResult}

theorem givesUp_of_ok (hok : (opening o.atFrozen x r).ok = true) : givesUp o x r = false := by
  cases r with
  | error => simpa [givesUp, Reception.failed, opening] using hok
  | datagram d => rfl

theorem pass_result (full : Bool) (hok : (opening o.atFrozen x r).ok = true) :
    (pass param o full x buf r).result =
      let t := iteration param o full (opening o.atFrozen x r).xfer (blockNumber (r.buffer buf))
        (blockType (r.buffer buf))
      { t with records := (opening o.atFrozen x r).records ++ t.records } := by
  cases r with
  | error =>
    simp only [opening, Reception.failed, if_true] at hok
    simp only [pass, receive, opening, Reception.failed, if_true, hok]
  | datagram d => rfl

theorem pass_queued (full : Bool) (hok : (opening o.atFrozen x r).ok = true) :
    (pass param o full x buf r).queued =
      if full = false ∧ gotBlock x (blockNumber (r.buffer buf)) = false then some (r.buffer buf)
      else none := by
  simp only [pass, givesUp_of_ok hok, true_and]

-- ---------------------------------------------------------------------------
-- Within a turn
-- ---------------------------------------------------------------------------

def CommandGet.head (s : CommandGet) : Head := ⟨s.xfer, s.localDatagram, s.queued, s.sent⟩

structure Took (h : Head) (r : Reception) (w : WriteResult) (s : CommandGet) : Prop where
  ok : (opening w h.xfer r).ok = true
  buffer : s.localDatagram = r.buffer h.buffer
  sent : s.sent = h.sent ++ (opening w h.xfer r).records

structure Found (h : Head) (r : Reception) (w : WriteResult) (s : CommandGet) : Prop
    extends Took h r w s where
  xfer : s.xfer = countReceived (opening w h.xfer r).xfer (blockType s.localDatagram)
  missing : gotBlock s.xfer (blockNumber s.localDatagram) = false

/-- Where the network thread is in the turn that began at `h`. Out of the loop
there is nothing more to say. -/
def Within (h : Head) (s : CommandGet) : Network → Prop
  | .receiving => s.head = h
  | .looking => ∃ r w, Took h r w s ∧ s.xfer = (opening w h.xfer r).xfer ∧ s.queued = h.queued
  | .reserving .received | .copying .received => (∃ r w, Found h r w s) ∧ s.queued = h.queued
  | .confirming .received =>
    (∃ r w, Found h r w s) ∧ s.queued = h.queued ∧ s.Held (· = s.localDatagram)
  | .controlling => (∃ r w, Found h r w s) ∧ s.queued = h.queued ++ [s.localDatagram]
  | .reserving .stop | .copying .stop | .confirming .stop | .stopping | .joining | .counting _ _
  | .returned | .aborted => True

variable {h : Head} {s t : CommandGet}

theorem Within.congr {n : Network} (hw : Within h s n) (hhead : t.head = s.head)
    (hp : t.ring.producer = s.ring.producer) (hd : t.ring.ring.datagrams = s.ring.ring.datagrams) :
    Within h t n := by
  obtain ⟨hx, hl, hq, hs⟩ := Head.mk.inj hhead
  have hrec : ∀ {r w}, Took h r w s → Took h r w t := fun hr =>
    ⟨hr.ok, hl.trans hr.buffer, hs.trans hr.sent⟩
  have hfound : (∃ r w, Found h r w s) → ∃ r w, Found h r w t := by
    rintro ⟨r, w, hf⟩
    exact ⟨r, w, hrec hf.toTook, by rw [hx, hl]; exact hf.xfer, by rw [hx, hl]; exact hf.missing⟩
  cases n with
  | receiving => exact hhead.trans hw
  | looking =>
    obtain ⟨r, w, hr, hxfer, hqueued⟩ := hw
    exact ⟨r, w, hrec hr, hx.trans hxfer, hq.trans hqueued⟩
  | reserving i | copying i =>
    cases i
    · exact ⟨hfound hw.1, hq.trans hw.2⟩
    · trivial
  | confirming i =>
    cases i
    · refine ⟨hfound hw.1, hq.trans hw.2.1, fun slot hslot => ?_⟩
      rw [hd, hl]
      exact hw.2.2 slot (hp ▸ hslot)
    · trivial
  | controlling => exact ⟨hfound hw.1, by rw [hq, hl]; exact hw.2⟩
  | stopping | joining | counting | returned | aborted => trivial

theorem turns_step {a : Turn} (hv : (h.pass cfg.param a).result.verdict = .next) :
    (turns cfg).run h [a] = some (h.after (h.pass cfg.param a)) := by
  rw [System.run_cons]
  exact ⟨_, if_pos hv, rfl⟩

theorem iteration_frozen (o : Oracle) (w : WriteResult) (full : Bool) (x : Transfer) (b ty : Nat) :
    iteration param { o with atFrozen := w } full x b ty = iteration param o full x b ty := rfl

theorem Took.finish (full : Bool) (hr : Took h r w s)
    (hq : s.queued = h.queued ++ (if full = false ∧ gotBlock h.xfer (blockNumber s.localDatagram) = false
      then some s.localDatagram else none).toList)
    (hres : iteration cfg.param o full (opening w h.xfer r).xfer (blockNumber s.localDatagram)
      (blockType s.localDatagram) = res) :
    ∃ fs b, (turns cfg).run h fs = some b ∧ Within b (s.finish res) (s.finish res).network := by
  let a : Turn := ⟨{ o with atFrozen := w }, full, r⟩
  have hresult : (h.pass cfg.param a).result =
      { res with records := (opening w h.xfer r).records ++ res.records } := by
    rw [← hres, hr.buffer, ← iteration_frozen o w]
    exact pass_result full hr.ok
  have hafter : h.after (h.pass cfg.param a) = (s.finish res).head := by
    have hqueued : s.queued = h.queued ++ (h.pass cfg.param a).queued.toList := by
      rw [hq, hr.buffer]
      exact congrArg _ (congrArg _ (pass_queued full hr.ok).symm)
    rw [Head.after, hresult, ← hqueued]
    simp only [CommandGet.head, CommandGet.finish, hr.sent, hr.buffer, List.append_assoc]
    rfl
  cases hv : res.verdict with
  | next =>
    refine ⟨[a], _, turns_step (by rw [hresult]; exact hv), ?_⟩
    rw [hafter]
    simp only [CommandGet.finish, hv, Verdict.network]
    rfl
  | leave | abort =>
    refine ⟨[], h, rfl, ?_⟩
    simp only [CommandGet.finish, hv, Verdict.network]
    trivial

theorem look_within (hw : Within h s .looking) :
    ∃ fs b, (turns cfg).run h fs = some b ∧ Within b (s.look cfg o) (s.look cfg o).network := by
  obtain ⟨r, w, hr, hxfer, hqueued⟩ := hw
  have hsame :
      gotBlock (countReceived s.xfer (blockType s.localDatagram)) (blockNumber s.localDatagram) =
      gotBlock h.xfer (blockNumber s.localDatagram) := by
    rw [(countReceived_sameBlocks ..).gotBlock, hxfer, (opening_sameBlocks ..).gotBlock]
  let o' : Oracle := { o with countData := s.ring.ring.countData }
  simp only [CommandGet.look]
  split
  · rename_i hroom
    split
    · -- looked at again: a terminate block, or a block of a restart
      rename_i hgot
      refine hr.finish (o := o') false ?_ ?_
      · rw [if_neg (fun hnew => Bool.noConfusion ((hsame.symm.trans hgot).symm.trans hnew.2)),
          hqueued]
        exact (List.append_nil _).symm
      · simp only [iteration, ← hxfer, hroom.2, hgot, and_self, if_true]
        rfl
    · rename_i hnew
      exact ⟨[], h, rfl,
        ⟨r, w, ⟨hr.ok, hr.buffer, hr.sent⟩, by rw [hxfer], eq_false_of_ne_true hnew⟩, hqueued⟩
  · rename_i hidle
    refine hr.finish (o := o') (ringFull s.ring.ring) ?_ ?_
    · have hold :
          ¬(ringFull s.ring.ring = false ∧
            gotBlock h.xfer (blockNumber s.localDatagram) = false) := by
        rintro ⟨hroom, hmiss⟩
        refine hidle ⟨hroom, ?_⟩
        simp only [relevant, hsame, hmiss, Bool.not_false, Bool.true_or]
      rw [if_neg hold, hqueued]
      exact (List.append_nil _).symm
    · simp only [iteration, ← hxfer]
      exact if_neg hidle

theorem control_within (hw : Within h s .controlling) :
    ∃ fs b, (turns cfg).run h fs = some b ∧
    Within b (s.control cfg o) (s.control cfg o).network := by
  obtain ⟨⟨r, w, hf⟩, hqueued⟩ := hw
  have hmiss : gotBlock h.xfer (blockNumber s.localDatagram) = false := by
    have hmissing := hf.missing
    rwa [hf.xfer, (countReceived_sameBlocks ..).gotBlock,
      (opening_sameBlocks ..).gotBlock] at hmissing
  refine hf.toTook.finish (o := { o with countData := s.ring.ring.countData }) false ?_ ?_
  · rw [if_pos ⟨rfl, hmiss⟩, hqueued]
    rfl
  · have hrel :
        relevant s.xfer (blockNumber s.localDatagram) (blockType s.localDatagram) = true := by
      simp only [relevant, hf.missing, Bool.not_false, Bool.true_or]
    simp only [iteration, ← hf.xfer, hrel, hf.missing, and_self, if_true,
      Bool.false_eq_true, if_false]

theorem reserved_within {i : Insertion} {u : RingState Datagram} (hw : Within h s (.reserving i)) :
    Within h (s.reserved i u) (s.reserved i u).network := by
  simp only [CommandGet.reserved]
  cases i with
  | stop => split <;> trivial
  | received =>
    obtain ⟨⟨r, w, hf⟩, hqueued⟩ := hw
    split <;> exact ⟨⟨r, w, ⟨hf.ok, hf.buffer, hf.sent⟩, hf.xfer, hf.missing⟩, hqueued⟩

theorem copy_within {i : Insertion} {u : RingState Datagram} (hw : Within h s (.copying i))
    (hp : s.ring.producer = .holding slot)
    (hu : s.ring.step (.write (s.insertion slot i)) = some u) :
    Within h { s with ring := u, network := .confirming i } (.confirming i) := by
  have hu := step_write hp hu
  subst hu
  cases i with
  | stop => trivial
  | received =>
    obtain ⟨⟨r, w, hf⟩, hqueued⟩ := hw
    refine ⟨⟨r, w, ⟨hf.ok, hf.buffer, hf.sent⟩, hf.xfer, hf.missing⟩, hqueued,
      fun slot' hslot => ?_⟩
    have heq : slot = slot' := by simpa [hp] using hslot
    simp [heq, CommandGet.insertion]

-- ---------------------------------------------------------------------------
-- Every run
-- ---------------------------------------------------------------------------

/-- The two threads make the turns of the loop, one after the other. -/
theorem commandGet_simulates_turns (cfg : Config) :
    System.Simulates (commandGet cfg) (turns cfg) fun s h => Within h s s.network where
  init := by
    rintro s ⟨slots, rfl⟩
    exact ⟨_, rfl, rfl⟩
  step := by
    intro s e t h hw hs
    cases step_cases hs with
    | @recv d hnet =>
      rw [hnet] at hw
      obtain rfl : s.head = h := hw
      exact ⟨[], s.head, rfl, .datagram (d.take (6 + cfg.param.blockSize)), .ok,
        ⟨rfl, rfl, (List.append_nil _).symm⟩, rfl, rfl⟩
    | @recvFails w hnet =>
      rw [hnet] at hw
      obtain rfl : s.head = h := hw
      refine ⟨[], s.head, rfl, ?_⟩
      simp only
      split
      · rename_i hok
        exact ⟨.error, w, ⟨hok, rfl, rfl⟩, rfl, rfl⟩
      · trivial
    | look hnet =>
      rw [hnet] at hw
      exact look_within hw
    | control hnet =>
      rw [hnet] at hw
      exact control_within hw
    | reserve hnet | wake hnet =>
      rw [hnet] at hw
      exact ⟨[], h, rfl, reserved_within hw⟩
    | copy hnet hp hu =>
      rw [hnet] at hw
      exact ⟨[], h, rfl, copy_within hw hp hu⟩
    | confirm hnet hp =>
      rw [hnet] at hw
      obtain ⟨⟨r, w, hf⟩, hqueued, hheld⟩ := hw
      refine ⟨[], h, rfl, ⟨r, w, ⟨hf.ok, hf.buffer, hf.sent⟩, hf.xfer, hf.missing⟩, ?_⟩
      rw [hheld _ hp, hqueued]
    | requestStop =>
      refine ⟨[], h, rfl, ?_⟩
      simp only
      split <;> trivial
    | confirmStop | join | count | counted => exact ⟨[], h, rfl, trivial⟩
    | peek _ _ hu =>
      obtain ⟨slot, rfl⟩ := step_peek hu
      exact ⟨[], h, rfl, hw.congr rfl rfl rfl⟩
    | accept hc _ _ hu =>
      have hu := step_read hc hu
      subst hu
      refine ⟨[], h, rfl, ?_⟩
      simp only [CommandGet.accept]
      split <;> exact hw.congr rfl rfl rfl
    | pop _ _ hu =>
      have hu := step_pop hu
      subst hu
      exact ⟨[], h, rfl, hw.congr rfl rfl rfl⟩

theorem commandGet_turns (h : (commandGet cfg).Reachable s) (hn : s.network = .receiving) :
    (turns cfg).Reachable s.head := by
  obtain ⟨b, hb, hw⟩ := (commandGet_simulates_turns cfg).reachable h
  rw [hn] at hw
  exact (show s.head = b from hw) ▸ hb

def Head.arrival (h : Head) (a : Turn) : Arrival where
  frozen := a.reception.failed
  full := a.full
  oracle := a.oracle
  thisBlock := blockNumber (a.reception.buffer h.buffer)
  thisType := blockType (a.reception.buffer h.buffer)

theorem turns_step_receiveLoop (hs : (turns cfg).step h a = some k) :
    (receiveLoop cfg.param cfg.fileSize cfg.blockCount).step h.xfer (h.arrival a) =
      some k.xfer := by
  simp only [turns, Option.ite_none_right_eq_some, Option.some.injEq] at hs
  obtain ⟨hv, rfl⟩ := hs
  exact if_pos hv

/-- The transfer object at the head of a turn of the client is one the receive
loop comes to. -/
theorem commandGet_receiveLoop (h : (commandGet cfg).Reachable s) (hn : s.network = .receiving) :
    (receiveLoop cfg.param cfg.fileSize cfg.blockCount).Reachable s.xfer :=
  (commandGet_turns h hn).component (f := Head.xfer) (by rintro h rfl; rfl)
    fun _ _ _ _ hs => .inr ⟨_, turns_step_receiveLoop hs⟩

def Undisturbed (n : Nat) (s : CommandGet) : Event → Prop
  | .recvFails w => w = .ok
  | .look o | .control o => blockNumber s.localDatagram ≤ n ∧ o.atTerminate = .ok ∧ o.atRepeat = .ok
  | _ => True

theorem step_tracked {n : Nat} (hn : n < 2 ^ 32) (hl : cfg.param.lossless = true)
    (h : Tracked n s.xfer) (hu : Undisturbed n s e) (hs : s.step cfg e = some t) :
    Tracked n t.xfer := by
  cases step_cases hs with
  | recvFails =>
    cases hu
    exact ttpRepeatRetransmit_tracked h
  | look =>
    obtain ⟨hb, hterminate, hrepeat⟩ := hu
    have hcount := countReceived_tracked h (blockType s.localDatagram)
    simp only [CommandGet.look]
    split
    · split
      · rename_i hgot
        exact controlAndStats_tracked hcount hn hl hb hgot hterminate hrepeat
      · exact hcount
    · exact sendStats_tracked hcount hrepeat
  | control =>
    obtain ⟨hb, hterminate, hrepeat⟩ := hu
    have hgot := gotBlock_markReceived h.bitmap (h.blockCount.symm ▸ hb)
      (blockNumber s.localDatagram)
    rw [decide_eq_true rfl, Bool.true_or] at hgot
    exact controlAndStats_tracked (markReceived_tracked h hb) hn hl hb hgot hterminate hrepeat
  | accept =>
    simp only [CommandGet.accept]
    split <;> exact h
  | recv | reserve | wake | copy | confirm | confirmStop | requestStop | join | count | counted
  | peek | pop => exact h

/-- The client forgets no missing block, whatever the disk thread does
meanwhile: what is behind `gapless_to_block` has been received, and a missing
block behind the head of the stream stands in the table. -/
theorem commandGet_tracked (hn : cfg.blockCount < 2 ^ 32) (hl : cfg.param.lossless = true)
    (h : (commandGet cfg).ReachableBy (Undisturbed cfg.blockCount) s) :
    Tracked cfg.blockCount s.xfer :=
  h.invariant (by rintro s ⟨slots, rfl⟩; exact create_tracked ..)
    fun _ _ _ _ hi hu hs => step_tracked hn hl hi hu hs

end Tsunami.Client
