import Tsunami.Client.InOrder

/-!
# When a disk failure goes unnoticed

The disk thread returns on a failed `accept_block` and tells nobody. The
network thread finds out only by being stuck: the ring fills up behind the
block that failed. Where what is left of the file fits into the ring together
with the stop block, `command_get` returns 0.
-/

namespace Tsunami.Client

open Bytes Transition

variable {cfg : Config} {s t : CommandGet} {e : Event} {disk : Nat → DiskResult}

/-- A transfer whose disk answers as `disk` says: the `i`-th call of
`accept_block` gets `disk i`. Every datagram looked at is a block of the file. -/
structure Faulty (cfg : Config) (disk : Nat → DiskResult) (s : CommandGet) (e : Event) : Prop where
  block : e.looks → 1 ≤ blockNumber s.localDatagram ∧ blockNumber s.localDatagram ≤ cfg.blockCount
  result : ∀ res, e = .accept res → res = disk s.accepts.length

theorem Faulty.noBlockZero (h : Faulty cfg disk s e) : NoBlockZero s e :=
  fun hl => .inr (Nat.one_le_iff_ne_zero.mp (h.block hl).1)

-- ---------------------------------------------------------------------------
-- The calls of accept_block
-- ---------------------------------------------------------------------------

structure Answered (disk : Nat → DiskResult) (s : CommandGet) : Prop where
  block : ∀ a ∈ s.accepts, blockNumber a.1 ≠ 0
  result : ∀ i a, s.accepts[i]? = some a → a.2 = disk i

theorem step_answered (h : Answered disk s) (hf : Faulty cfg disk s e)
    (hs : s.step cfg e = some t) :
    Answered disk t := by
  rcases step_disk hs with ⟨-, hacc, -⟩ | ⟨res, slot, rfl, -, -, rfl⟩
  · exact ⟨by rw [hacc]; exact h.block, by rw [hacc]; exact h.result⟩
  · simp only [CommandGet.accept]
    split
    · exact ⟨h.block, h.result⟩
    · rename_i hne
      refine ⟨?_, fun i a hi => ?_⟩
      · simp only [List.forall_mem_append, List.forall_mem_singleton]
        exact ⟨h.block, hne⟩
      · by_cases hlt : i < s.accepts.length
        · rw [List.getElem?_append_left hlt] at hi
          exact h.result i a hi
        · have hi' : i = s.accepts.length := by
            have := (List.getElem?_eq_some_iff.mp hi).1
            simp only [List.length_append, List.length_singleton] at this
            omega
          subst hi'
          simp only [List.getElem?_concat_length, Option.some.injEq] at hi
          exact hi ▸ hf.result res rfl

-- ---------------------------------------------------------------------------
-- After the join
-- ---------------------------------------------------------------------------

def Joined (s : CommandGet) : Network → Prop
  | .counting block _ => s.disk = .returned ∧ block < 2 ^ 32
  | .returned => s.disk = .returned ∧ s.xfer.blockCount < 2 ^ 32 - 1
  | _ => True

theorem finish_joined (s : CommandGet) (r : Result) : Joined (s.finish r) (s.finish r).network := by
  cases hv : r.verdict <;> simp [CommandGet.finish, hv, Verdict.network, Joined]

theorem look_joined (s : CommandGet) (o : Oracle) :
    Joined (s.look cfg o) (s.look cfg o).network := by
  simp only [CommandGet.look]
  split
  · split
    · exact finish_joined ..
    · trivial
  · exact finish_joined ..

theorem step_joined (h : Joined s s.network) (hs : s.step cfg e = some t) : Joined t t.network := by
  cases step_cases hs with
  | recv => trivial
  | recvFails | requestStop =>
    simp only
    split <;> trivial
  | look => exact look_joined ..
  | control => exact finish_joined ..
  | reserve | wake =>
    simp only [CommandGet.reserved]
    split <;> trivial
  | copy | confirm | confirmStop => trivial
  | join _ hdisk => exact ⟨hdisk, by decide⟩
  | count hnet =>
    rw [hnet] at h
    exact ⟨h.1, u32_lt _⟩
  | counted hnet hlt =>
    rw [hnet] at h
    have hb := h.2
    exact ⟨h.1, by simp only; omega⟩
  | peek | pop => exact h
  | @accept slot r res _ _ hrun =>
    -- the thread is still running: it has not been joined
    have hnet : (s.accept cfg res slot r).network = s.network := by
      simp only [CommandGet.accept]
      split <;> rfl
    rw [hnet]
    cases hn : s.network with
    | counting block lost =>
      rw [hn] at h
      exact absurd (h.1.symm.trans hrun) (by decide)
    | returned =>
      rw [hn] at h
      exact absurd (h.1.symm.trans hrun) (by decide)
    | receiving | looking | reserving i | copying i | confirming i | controlling | stopping
    | joining | aborted => trivial

-- ---------------------------------------------------------------------------
-- Success means that everything was written
-- ---------------------------------------------------------------------------

theorem failed_fits (hinv : RingInv s.ring) (hc : s.ring.consumer = .read slot)
    (hreads : s.ring.reads.length = p + 1) : s.ring.confirmed.length ≤ p + 4096 := by
  have hh := congrArg List.length hinv.history
  have hcons := hinv.consumer
  have hroom := hinv.room
  have hres := hinv.reserved
  simp only [hc, ConsumerOk] at hcons
  simp only [hc, unread, List.length_append, List.length_tail, length_live] at hh
  simp only [maxBlocksQueued] at hroom
  omega

structure AllWritten (cfg : Config) (s : CommandGet) : Prop where
  blocks : ∀ b, 1 ≤ b → b ≤ cfg.blockCount → ∃ a ∈ s.accepts, blockNumber a.1 = b ∧ a.2 = .ok
  noFailure : ∀ a ∈ s.accepts, a.2 = .ok

theorem Left.length (h : Left cfg s) (hl : cfg.param.lossless = true) :
    s.queued.length = cfg.blockCount := by
  have hlen := (h.perm hl).length_eq
  rwa [CommandGet.numbers, List.length_map, List.length_range'] at hlen

theorem failed_early (hans : Answered disk s) (hinv : RingInv s.ring)
    (hacc : s.accepts = before ++ [a]) (hc : s.ring.consumer = .read slot)
    (hreads : s.ring.reads = s.accepts.map Prod.fst) (hbefore : ∀ b ∈ before, b.2 = .ok)
    (hconf : s.ring.confirmed = s.queued ++ [stop]) (hstop : blockNumber stop = 0) :
    before.length < s.queued.length ∧ s.queued.length - before.length < 4096 ∧
      (∀ i < before.length, disk i = .ok) ∧ disk before.length = a.2 := by
  have hlen : s.ring.reads.length = before.length + 1 := by simp [hreads, hacc]
  have hfits := failed_fits hinv hc hlen
  have hh := hinv.history
  have hle : before.length < s.queued.length := by
    by_contra hge
    have hlens := congrArg List.length hh
    rw [hconf, List.length_append, List.length_append, hlen, List.length_singleton] at hlens
    -- the stop block would have been read as well
    have hnil : unread s.ring.ring s.ring.consumer = [] := List.length_eq_zero_iff.mp (by omega)
    rw [hnil, List.append_nil, hconf, hreads] at hh
    have hmem : stop ∈ s.accepts.map Prod.fst := by
      rw [← hh]
      simp
    obtain ⟨b, hb, rfl⟩ := List.mem_map.mp hmem
    exact hans.block b hb hstop
  refine ⟨hle, ?_, fun i hi => ?_, ?_⟩
  · rw [hconf, List.length_append, List.length_singleton] at hfits
    omega
  · rw [← hans.result i before[i]
      (by rw [hacc, List.getElem?_append_left hi, List.getElem?_eq_getElem hi])]
    exact hbefore _ (List.getElem_mem hi)
  · exact (hans.result _ a (by simp [hacc])).symm

theorem returned_written (hl : cfg.param.lossless = true)
    (h : (commandGet cfg).ReachableBy (Faulty cfg disk) s) (hret : s.network = .returned)
    (hcond : ∀ p, p < cfg.blockCount → (∀ i < p, disk i = .ok) → disk p ≠ .ok →
      4096 ≤ cfg.blockCount - p) : AllWritten cfg s := by
  have hplaced := commandGet_placed h fun _ _ hp => hp.noBlockZero
  have hjoined : Joined s s.network :=
    h.invariant (by rintro s ⟨slots, rfl⟩; trivial) fun _ _ _ _ hi _ hs => step_joined hi hs
  have hans : Answered disk s :=
    h.invariant
      (by rintro s ⟨slots, rfl⟩; exact ⟨by simp [CommandGet.create], by simp [CommandGet.create]⟩)
      fun _ _ _ _ hi hp hs => step_answered hi hp hs
  have hdisk := commandGet_diskPlaced h.reachable
  have hinv := ring_inv (commandGet_ring h.reachable)
  rw [hret] at hplaced hjoined
  obtain ⟨hleft, stop, hstop, hconf⟩ := hplaced
  rw [hjoined.1] at hdisk
  rcases hdisk with ⟨last, h0, hreads, hall⟩ | ⟨a, before, slot, hne, hacc, hc, hreads, hbefore⟩
  · have hq : ∀ d ∈ s.queued, blockNumber d ≠ 0 := fun d hd h0 => by
      have hpos := (hleft.counted.range _ (List.mem_map_of_mem hd)).1
      omega
    have heq := accepted_all hreads h0 hinv.history hconf hq
    refine ⟨fun b h₁ hb => ?_, hall⟩
    have hmem := hleft.counted.complete (hleft.done hl) h₁ hb
    obtain ⟨d, hd, hdb⟩ := List.mem_map.mp hmem
    obtain ⟨a, ha, rfl⟩ := List.mem_map.mp (heq ▸ hd)
    exact ⟨a, ha, hdb, hall a ha⟩
  · obtain ⟨hlt, hfew, hok, hp⟩ := failed_early hans hinv hacc hc hreads hbefore hconf hstop
    rw [hleft.length hl] at hlt hfew
    have hmany := hcond _ hlt hok (hp ▸ hne)
    omega

-- ---------------------------------------------------------------------------
-- The run that reports success
-- ---------------------------------------------------------------------------

theorem count_path (hnet : s.network = .counting block lost) (hx : s.xfer.blockCount + 1 < 2 ^ 32)
    (hb : block ≤ s.xfer.blockCount + 1) :
    ∃ t, (commandGet cfg).Path (Faulty cfg disk) s t ∧ t.network = .returned ∧
    t.accepts = s.accepts := by
  have hP : ∀ s, Faulty cfg disk s .count := fun s => ⟨by simp [Event.looks], by simp⟩
  generalize hm : s.xfer.blockCount + 1 - block = m
  induction m generalizing s block lost with
  | zero =>
    have hstep : s.step cfg .count = some { s with network := .returned } := by
      simp only [CommandGet.step, hnet, if_neg (show ¬block ≤ s.xfer.blockCount by omega)]
    exact ⟨_, .single (M := commandGet cfg) (hP s) hstep, rfl, rfl⟩
  | succ m ih =>
    let lost' := if gotBlock s.xfer block then lost else lost + 1
    let u : CommandGet := { s with network := .counting (block + 1) lost' }
    have hstep : s.step cfg .count = some u := by
      simp only [CommandGet.step, hnet, if_pos (show block ≤ s.xfer.blockCount by omega),
        u32_of_lt (show block + 1 < 2 ^ 32 by omega), u, lost']
    obtain ⟨t, hpath, ht, hacc⟩ :=
      ih (s := u) rfl hx (by simp only [u]; omega) (by simp only [u]; omega)
    exact ⟨t, (System.Path.single (M := commandGet cfg) (hP s) hstep).trans hpath, ht, hacc⟩

theorem finish_path (hnet : s.network = .stopping) (hd : s.disk = .returned) (hinv : RingInv s.ring)
    (hp : s.ring.producer = .idle) (hc : s.ring.ring.countData < maxBlocksQueued)
    (hx : s.xfer.blockCount + 1 < 2 ^ 32) :
    ∃ t, (commandGet cfg).Path (Faulty cfg disk) s t ∧ t.network = .returned ∧
    t.accepts = s.accepts := by
  have hP : ∀ s e, e.looks = false → (∀ res, e ≠ .accept res) → Faulty cfg disk s e :=
    fun s e hl hr => ⟨by simp [hl], fun res he => absurd he (hr res)⟩
  obtain ⟨r₁, hr₁, hinv₁, hp₁, -⟩ := reserve_ready hinv hp hc
  let stop := blit (r₁.ring.datagrams s.ring.ring.tail) 0 (be32 0)
  obtain ⟨r₂, r₃, hr₂, hp₂, -, hr₃, -⟩ := write_confirm hinv₁ hp₁ stop
  let s₁ : CommandGet := { s with
    sent := s.sent ++ (ttpRequestStop .ok s.xfer).records, network := .reserving .stop }
  let s₂ : CommandGet := { s₁ with ring := r₁, network := .copying .stop }
  let s₃ : CommandGet := { s₂ with ring := r₂, network := .confirming .stop }
  let s₄ : CommandGet := { s₃ with ring := r₃, network := .joining }
  let s₅ : CommandGet := { s₄ with network := .counting 1 0 }
  have h₁ : s.step cfg (.requestStop .ok) = some s₁ := by
    simp [CommandGet.step, hnet, ttpRequestStop, s₁]
  have h₂ : s₁.step cfg .reserve = some s₂ := by
    simp [CommandGet.step, s₁, s₂, hr₁, CommandGet.reserved, hp₁, Producer.holds]
  have h₃ : s₂.step cfg .copy = some s₃ := by
    simp [CommandGet.step, s₁, s₂, s₃, hp₁, CommandGet.insertion, hr₂, stop]
  have h₄ : s₃.step cfg .confirm = some s₄ := by
    simp [CommandGet.step, s₁, s₂, s₃, s₄, hp₂, hr₃]
  have h₅ : s₄.step cfg .join = some s₅ := by
    simp [CommandGet.step, s₁, s₂, s₃, s₄, s₅, hd]
  obtain ⟨t, hpath, ht, hacc⟩ := count_path (s := s₅) rfl hx (by simp)
  have hstart := System.Path.single (M := commandGet cfg) (hP s (.requestStop .ok) rfl (by simp)) h₁
  have hreserve := hstart.step (hP s₁ .reserve rfl (by simp)) h₂
  have hcopy := hreserve.step (hP s₂ .copy rfl (by simp)) h₃
  have hconfirm := hcopy.step (hP s₃ .confirm rfl (by simp)) h₄
  have hjoin := hconfirm.step (hP s₄ .join rfl (by simp)) h₅
  exact ⟨t, hjoin.trans hpath, ht, hacc⟩

def sampleBlock (cfg : Config) (b : Nat) : Datagram :=
  sampleDatagram cfg.param.blockSize b (inOrderType cfg.blockCount b)

theorem sampleBlock_serves (hn : cfg.blockCount < 2 ^ 32) : Serves cfg (sampleBlock cfg) where
  length b := by simp [sampleBlock, sampleDatagram]
  number b _ hb := blockNumber_header (by omega)
  type b := by
    refine blockType_header ?_
    simp only [inOrderType]
    split <;> decide

theorem sampleBlock_allows (hn : cfg.blockCount < 2 ^ 32) (h₁ : 1 ≤ b) (hb : b ≤ cfg.blockCount) :
    Allows (Faulty cfg disk) (sampleBlock cfg b) where
  recv s := ⟨by simp [Event.looks], by simp⟩
  look s o hl := ⟨fun _ => by rw [hl, (sampleBlock_serves hn).number b h₁ hb]; exact ⟨h₁, hb⟩, by simp⟩
  insert s := ⟨⟨by simp [Event.looks], by simp⟩, ⟨by simp [Event.looks], by simp⟩,
    by simp [Event.looks], by simp⟩
  control s o := ⟨by simp [Event.looks], by simp⟩

theorem faulty_allowsDisk (h : disk i = res) : AllowsDisk (Faulty cfg disk) i res where
  peek s := ⟨by simp [Event.looks], by simp⟩
  accept s hi := ⟨by simp [Event.looks], fun r hr => by
    simp only [Event.accept.injEq] at hr
    rw [hi, h, hr]⟩
  pop s := ⟨by simp [Event.looks], by simp⟩

/-- The blocks arrive in order, the disk keeps up until its first failure, and
what is left of the file fits into the ring with the stop block. -/
theorem false_success (hn : cfg.blockCount < 2 ^ 32 - 1) (hp : p < cfg.blockCount)
    (hok : ∀ i < p, disk i = .ok) (hbad : disk p ≠ .ok) (hfew : cfg.blockCount - p < 4096) :
    ∃ s, (commandGet cfg).ReachableBy (Faulty cfg disk) s ∧ s.network = .returned ∧
    ¬AllWritten cfg s := by
  have hn' : cfg.blockCount < 2 ^ 32 := by omega
  have hserves : Serves cfg (sampleBlock cfg) := sampleBlock_serves hn'
  have hallow : ∀ b, 1 ≤ b → b ≤ cfg.blockCount → Allows (Faulty cfg disk) (sampleBlock cfg b) :=
    fun b h₁ hb => sampleBlock_allows hn' h₁ hb
  obtain ⟨s, hpath, hs⟩ := keptUp hserves hn' hallow (fun i hi => faulty_allowsDisk (hok i hi)) hp
    fun _ => []
  obtain ⟨t, hfill, ht, ht0, htc, htcons, htacc, htdisk⟩ :=
    fill_path hserves hn' hallow hs.inOrder hs.only
    (m := cfg.blockCount - 1 - p) (by omega) (by rw [hs.empty, maxBlocksQueued]; omega)
  rw [hs.empty] at htc
  rw [show p + (cfg.blockCount - 1 - p) = cfg.blockCount - 1 by omega] at ht
  have hlast : cfg.blockCount - 1 + 1 = cfg.blockCount := by omega
  have hnumber := hserves.number cfg.blockCount (by omega) (Nat.le_refl _)
  obtain ⟨u, hrecv, hunet, hrec⟩ :=
    ht.last hn' hlast (hallow cfg.blockCount (by omega) (Nat.le_refl _))
    (hserves.length _) (hnumber.trans hlast.symm) (by rw [hserves.type, inOrderType, if_pos rfl])
    (by rw [htc, maxBlocksQueued]; omega)
  have hu0 : OnlyBlocks u := by
    intro d hd
    rw [hrec.confirmed, List.mem_append, List.mem_singleton] at hd
    rcases hd with hd | rfl
    · exact ht0 d hd
    · omega
  have hcount : u.ring.ring.countData = cfg.blockCount - p := by
    rw [hrec.fill, htc]
    omega
  have hres : disk u.accepts.length = disk p := by rw [hrec.accepts, htacc, hs.accepts]
  obtain ⟨v, d, slot, haccept, hsame, hvinv, -, hvc, hvacc, hvdisk⟩ := accept_path
    (faulty_allowsDisk hres) (by rw [hunet]; decide) (hrec.disk.trans (htdisk.trans hs.disk))
    hrec.inv
    (hrec.consumer.trans (htcons.trans hs.consumer)) (by omega) hu0
  rw [if_neg hbad] at hvdisk
  have hreach : (commandGet cfg).ReachableBy (Faulty cfg disk) v :=
    .path (.init ⟨_, rfl⟩) (((hpath.trans hfill).trans hrecv).trans haccept)
  have hvnet : v.network = .stopping := hsame.network.trans hunet
  have hplaced := commandGet_placed hreach fun _ _ hf => hf.noBlockZero
  rw [hvnet] at hplaced
  obtain ⟨w, hfinish, hwnet, hwacc⟩ := finish_path hvnet hvdisk hvinv
    (hsame.producer.trans hrec.producer) (by rw [hvc, hcount, maxBlocksQueued]; omega)
    (by rw [hplaced.1.counted.blockCount]; omega)
  refine ⟨w, hreach.path hfinish, hwnet, fun hall => hbad ?_⟩
  exact hall.noFailure (d, disk p) (by simp [hwacc, hvacc])

/-- `command_get` never returns 0 over a failed write, for exactly these disks:
those whose first failure, if they have one, leaves 4096 blocks or more still
to be accepted. The loop that counts the lost blocks of a file of 2³² - 1
blocks never ends, so that there it returns for no disk. -/
theorem no_false_success_iff (hl : cfg.param.lossless = true) (hn : cfg.blockCount < 2 ^ 32)
    (disk : Nat → DiskResult) :
    (∀ s, (commandGet cfg).ReachableBy (Faulty cfg disk) s → s.network = .returned →
      AllWritten cfg s) ↔
        (cfg.blockCount = 2 ^ 32 - 1 ∨ ∀ p, p < cfg.blockCount → (∀ i < p, disk i = .ok) →
        disk p ≠ .ok → 4096 ≤ cfg.blockCount - p) := by
  constructor
  · intro hall
    by_contra hcond
    simp only [not_or, not_forall, Nat.not_le] at hcond
    obtain ⟨hmax, p, hp, hok, hbad, hfew⟩ := hcond
    obtain ⟨s, hs, hret, hnot⟩ := false_success (by omega) hp hok hbad hfew
    exact hnot (hall s hs hret)
  · rintro (hmax | hcond) s hs hret
    · have hjoined : Joined s s.network :=
        hs.invariant (by rintro s ⟨slots, rfl⟩; trivial) fun _ _ _ _ hi _ h => step_joined hi h
      have hplaced := commandGet_placed hs fun _ _ hp => hp.noBlockZero
      rw [hret] at hjoined hplaced
      have hcount := hplaced.1.counted.blockCount
      have hlt := hjoined.2
      omega
    · exact returned_written hl hs hret hcond

theorem no_false_success_iff_late_failure :
    ¬∀ s, (commandGet ⟨defaultParameter 1024, 5120000, 5000⟩).ReachableBy
      (Faulty ⟨defaultParameter 1024, 5120000, 5000⟩ fun i => if i = 4999 then .seekFails else .ok) s →
        s.network = .returned → AllWritten ⟨defaultParameter 1024, 5120000, 5000⟩ s := by
  rw [no_false_success_iff rfl (by decide)]
  intro h
  rcases h with h | h
  · exact absurd h (by decide)
  · have hfew := h 4999 (by decide) (fun i hi => if_neg (Nat.ne_of_lt hi)) (by simp)
    simp at hfew

/-- A file of one block whose only write fails: `command_get` returns 0. -/
theorem one_block_failure_unnoticed :
    ∃ s, (commandGet ⟨defaultParameter 4, 4, 1⟩).ReachableBy
        (Faulty ⟨defaultParameter 4, 4, 1⟩ fun _ => .short 0) s ∧
      s.network = .returned ∧ ¬AllWritten ⟨defaultParameter 4, 4, 1⟩ s :=
  false_success (p := 0) (by decide) (by decide) (by simp) (by simp) (by decide)

end Tsunami.Client
