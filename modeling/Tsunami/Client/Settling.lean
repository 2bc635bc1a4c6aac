import Tsunami.Client.Assembly
import Tsunami.Client.InOrder

/-!
# Both threads come to rest

From wherever they are the two threads can go on without another datagram:
the disk thread until the ring is empty, the network thread until it is back
at `recvfrom` or, once out of the loop, until `command_get` returns.
-/

namespace Tsunami.Client

open Bytes Transition

variable {cfg : Config} {s t u : CommandGet} {e : Event} {Q : Datagram → Prop}

-- ---------------------------------------------------------------------------
-- The places of the two threads
-- ---------------------------------------------------------------------------

def Aligned (s : CommandGet) : Network → Prop
  | .reserving _ => s.ring.producer.holds = false
  | .copying _ | .confirming _ => s.ring.producer.holds = true
  | .receiving | .looking | .controlling | .stopping | .joining => s.ring.producer = .idle
  | .counting _ _ | .returned => s.disk = .returned
  | .aborted => True

theorem Aligned.congr (h : Aligned s n) (hp : t.ring.producer = s.ring.producer)
    (hd : s.disk = .running ∨ t.disk = s.disk) : Aligned t n := by
  cases n with
  | counting _ _ | returned =>
    rcases hd with hrun | hsame
    · rw [show s.disk = .returned from h] at hrun
      cases hrun
    · exact hsame.trans h
  | aborted => trivial
  | receiving | looking | controlling | stopping | joining | reserving _ | copying _
  | confirming _ =>
    rw [Aligned, hp]
    exact h

theorem finish_aligned (r : Result) (hp : s.ring.producer = .idle) :
    Aligned (s.finish r) (s.finish r).network := by
  simp only [CommandGet.finish]
  cases r.verdict with
  | next | leave => exact hp
  | abort => trivial

theorem reserved_aligned (i : Insertion) (r : RingState Datagram) :
    Aligned (s.reserved i r) (s.reserved i r).network := by
  simp only [CommandGet.reserved]
  split
  · rename_i hholds
    exact hholds
  · rename_i hholds
    exact eq_false_of_ne_true hholds

theorem step_aligned (h : Aligned s s.network) (hs : s.step cfg e = some t) :
    Aligned t t.network := by
  cases step_cases hs with
  | recv hnet =>
    rw [hnet] at h
    exact h
  | recvFails hnet =>
    rw [hnet] at h
    simp only
    split
    · exact h
    · trivial
  | look hnet =>
    rw [hnet] at h
    simp only [CommandGet.look]
    split
    · split
      · exact finish_aligned _ h
      · simp only [Aligned, show s.ring.producer = .idle from h, Producer.holds]
    · exact finish_aligned _ h
  | reserve hnet hr | wake hnet hr => exact reserved_aligned _ _
  | copy hnet hp hr =>
    have hw := step_write hp hr
    subst hw
    simp only [Aligned, hp, Producer.holds]
  | confirm hnet hp hr | confirmStop hnet hp hr =>
    obtain ⟨ring, rfl⟩ := step_confirm hp hr
    rfl
  | control hnet =>
    rw [hnet] at h
    exact finish_aligned _ h
  | requestStop hnet =>
    rw [hnet] at h
    simp only
    split
    · simp only [Aligned, show s.ring.producer = .idle from h, Producer.holds]
    · trivial
  | join hnet hdisk => exact hdisk
  | count hnet | counted hnet =>
    rw [hnet] at h
    exact h
  | peek _ _ hr =>
    obtain ⟨slot, rfl⟩ := step_peek hr
    exact h.congr rfl (.inr rfl)
  | accept hc _ hrun hr =>
    have hread := step_read hc hr
    subst hread
    simp only [CommandGet.accept]
    split <;> exact h.congr rfl (.inl hrun)
  | pop _ _ hr =>
    have hpop := step_pop hr
    subst hpop
    exact h.congr rfl (.inr rfl)

def Reading (s : CommandGet) : Prop :=
  s.disk = .running → ∀ d ∈ s.ring.reads, blockNumber d ≠ 0

theorem step_reading (h : Reading s) (hs : s.step cfg e = some t) : Reading t := by
  rcases step_disk hs with ⟨hreads, -, hdisk, -, -⟩ | ⟨res, slot, rfl, -, hrun, rfl⟩
  · rw [Reading, hreads, hdisk]
    exact h
  · simp only [CommandGet.accept]
    split
    · intro hret
      cases hret
    · rename_i hne
      intro _ d hd
      rcases List.mem_append.mp hd with hd | hd
      · exact h hrun d hd
      · exact List.mem_singleton.mp hd ▸ hne

/-- What is known of a client that is fed with blocks, wherever its threads
are. -/
structure AtWork (cfg : Config) (l : Layout) (s : CommandGet) : Prop where
  fed : (commandGet cfg).ReachableBy (fun _ e => e.Fed (Carries l)) s
  aligned : Aligned s s.network
  reading : Reading s

theorem AtWork.of_fed (h : (commandGet cfg).ReachableBy (fun _ e => e.Fed (Carries l)) s) :
    AtWork cfg l s where
  fed := h
  aligned := h.invariant (by rintro s ⟨slots, rfl⟩; rfl)
    fun _ _ _ _ hi _ hs => step_aligned hi hs
  reading := h.invariant
    (by rintro s ⟨slots, rfl⟩; exact fun _ d hd => absurd hd List.not_mem_nil)
    fun _ _ _ _ hi _ hs => step_reading hi hs

theorem AtWork.path (h : AtWork cfg l s) (hQ : ∀ d, Q d → Carries l d)
    (hp : (commandGet cfg).Path (fun _ e => e.Fed Q) s t) : AtWork cfg l t := by
  refine .of_fed (h.fed.path (hp.mono fun _ e he => ?_))
  cases e with
  | recv d => exact hQ d he
  | _ => exact he

theorem AtWork.inv (h : AtWork cfg l s) : RingInv s.ring :=
  ring_inv (commandGet_ring h.fed.reachable)

variable {l : Layout}

theorem AtWork.placed (hc : cfg.For l) (h : AtWork cfg l s) :
    Placed cfg s s.network ∧ Arrived cfg (Carries l) s :=
  fed_arrived (carries_sized hc) h.fed

theorem AtWork.disk_running (hc : cfg.For l) (h : AtWork cfg l s)
    (hconf : s.ring.confirmed = s.queued) : s.disk = .running := by
  obtain ⟨hplaced, -⟩ := h.placed hc
  cases hd : s.disk with
  | running => rfl
  | returned =>
    have hdisk := commandGet_diskPlaced h.fed.reachable
    rw [hd] at hdisk
    obtain ⟨stop, -, hstop⟩ := returned_on_stop hplaced hdisk
      (commandGet_allAccepted h.fed fun _ _ hf => hf.diskWorks) h.inv
    simp [hconf] at hstop

-- ---------------------------------------------------------------------------
-- The disk thread
-- ---------------------------------------------------------------------------

theorem SameNetwork.refl (s : CommandGet) : SameNetwork s s := ⟨rfl, rfl, rfl, rfl, rfl, rfl, rfl⟩

theorem SameNetwork.trans (h : SameNetwork s t) (h' : SameNetwork t u) : SameNetwork s u where
  xfer := h'.xfer.trans h.xfer
  network := h'.network.trans h.network
  localDatagram := h'.localDatagram.trans h.localDatagram
  queued := h'.queued.trans h.queued
  sent := h'.sent.trans h.sent
  confirmed := h'.confirmed.trans h.confirmed
  producer := h'.producer.trans h.producer

theorem fed_single (he : e.Fed Q) (hs : s.step cfg e = some t) :
    (commandGet cfg).Path (fun _ e => e.Fed Q) s t := .single (M := commandGet cfg) he hs

structure Took₁ (s t : CommandGet) : Prop where
  same : SameNetwork s t
  inv : RingInv t.ring
  disk : t.disk = .returned ∨
    t.disk = .running ∧ t.ring.ring.countData = s.ring.ring.countData - 1

theorem pop_path (hnet : s.network ≠ .aborted) (hd : s.disk = .running) (hinv : RingInv s.ring)
    (hc : s.ring.consumer = .read slot) :
    ∃ t, (commandGet cfg).Path (fun _ e => e.Fed Q) s t ∧ Took₁ s t := by
  obtain ⟨r, hr, hinvr, -, hcount, hconf, hp, -⟩ := pop_ready hinv hc
  have hstep : s.step cfg .pop = some { s with ring := r } := by
    simp [CommandGet.step, hnet, hd, hr]
  exact ⟨{ s with ring := r }, fed_single (e := .pop) trivial hstep,
    ⟨rfl, rfl, rfl, rfl, rfl, hconf, hp⟩, hinvr, .inr ⟨hd, hcount⟩⟩

theorem accept_pop_path (hnet : s.network ≠ .aborted) (hd : s.disk = .running)
    (hinv : RingInv s.ring) (hc : s.ring.consumer = .peeked slot) :
    ∃ t, (commandGet cfg).Path (fun _ e => e.Fed Q) s t ∧ Took₁ s t := by
  let r : RingState Datagram := { s.ring with
    consumer := .read slot, reads := s.ring.reads ++ [s.ring.ring.datagrams slot] }
  have hr : s.ring.step .read = some r := by simp only [RingState.step, hc, r]
  have hinvr : RingInv r := (hinv.step hr).1
  have hstep : s.step cfg (.accept .ok) = some (s.accept cfg .ok slot r) := by
    simp [CommandGet.step, hnet, hd, hc, hr]
  have hpath : (commandGet cfg).Path (fun _ e => e.Fed Q) s (s.accept cfg .ok slot r) :=
    fed_single (e := .accept .ok) rfl hstep
  obtain ⟨hsame, hring, hend⟩ : SameNetwork s (s.accept cfg .ok slot r) ∧
      (s.accept cfg .ok slot r).ring = r ∧
      ((s.accept cfg .ok slot r).disk = .returned ∨ (s.accept cfg .ok slot r).disk = .running) := by
    simp only [CommandGet.accept]
    split
    · exact ⟨⟨rfl, rfl, rfl, rfl, rfl, rfl, rfl⟩, rfl, .inl rfl⟩
    · exact ⟨⟨rfl, rfl, rfl, rfl, rfl, rfl, rfl⟩, rfl, .inr rfl⟩
  generalize s.accept cfg .ok slot r = t at hpath hsame hring hend
  have hinvt : RingInv t.ring := by
    rw [hring]
    exact hinvr
  rcases hend with hret | hrun
  · exact ⟨t, hpath, hsame, hinvt, .inl hret⟩
  · obtain ⟨u, hpop, htook⟩ := pop_path (Q := Q)
      (by rw [hsame.network]; exact hnet) hrun hinvt (by rw [hring])
    have hdisk := htook.disk
    rw [hring] at hdisk
    exact ⟨u, hpath.trans hpop, hsame.trans htook.same, htook.inv, hdisk⟩

theorem block_path (hnet : s.network ≠ .aborted) (hd : s.disk = .running)
    (hinv : RingInv s.ring) (hpos : 0 < s.ring.ring.countData) :
    ∃ t, (commandGet cfg).Path (fun _ e => e.Fed Q) s t ∧ Took₁ s t := by
  cases hc : s.ring.consumer with
  | read slot => exact pop_path hnet hd hinv hc
  | peeked slot => exact accept_pop_path hnet hd hinv hc
  | idle =>
    obtain ⟨r, -, -, -, hr, hc₁, -⟩ := peek_read hinv hc hpos
    have hinvr : RingInv r := (hinv.step hr).1
    obtain ⟨slot, hslot⟩ := step_peek hr
    have hstep : s.step cfg .peek = some { s with ring := r } := by
      simp [CommandGet.step, hnet, hd, hr]
    have hsame : SameNetwork s { s with ring := r } :=
      ⟨rfl, rfl, rfl, rfl, rfl, congrArg (·.confirmed) hslot, congrArg (·.producer) hslot⟩
    obtain ⟨t, hpath, htook⟩ := accept_pop_path (Q := Q)
      (s := { s with ring := r }) hnet hd hinvr hc₁
    have hdisk := htook.disk
    simp only [hslot] at hdisk
    exact ⟨t, (fed_single (e := .peek) trivial hstep).trans hpath, hsame.trans htook.same,
      htook.inv, hdisk⟩

structure Drained (s t : CommandGet) : Prop where
  same : SameNetwork s t
  inv : RingInv t.ring
  disk : t.disk = .returned ∨ t.disk = .running ∧ t.ring.ring.countData = 0

theorem drain_path (hnet : s.network ≠ .aborted) (hinv : RingInv s.ring) :
    ∃ t, (commandGet cfg).Path (fun _ e => e.Fed Q) s t ∧ Drained s t := by
  obtain ⟨n, hn⟩ := Int.eq_ofNat_of_zero_le hinv.data
  induction n generalizing s with
  | zero =>
    refine ⟨s, .refl, .refl s, hinv, ?_⟩
    cases hd : s.disk with
    | running => exact .inr ⟨rfl, hn⟩
    | returned => exact .inl rfl
  | succ n ih =>
    cases hd : s.disk with
    | returned => exact ⟨s, .refl, .refl s, hinv, .inl hd⟩
    | running =>
      obtain ⟨t, hpath, htook⟩ := block_path (Q := Q) hnet hd hinv (by omega)
      rcases htook.disk with hret | ⟨hrun, hcount⟩
      · exact ⟨t, hpath, htook.same, htook.inv, .inl hret⟩
      · obtain ⟨u, hpath', hdrained⟩ := ih (by rw [htook.same.network]; exact hnet) htook.inv
          (by omega)
        exact ⟨u, hpath.trans hpath', htook.same.trans hdrained.same, hdrained.inv,
          hdrained.disk⟩

theorem AtWork.emptied (hc : cfg.For l) (h : AtWork cfg l s) (hQ : ∀ d, Q d → Carries l d)
    (hnet : s.network ≠ .aborted) (hconf : s.ring.confirmed = s.queued) :
    ∃ t, (commandGet cfg).Path (fun _ e => e.Fed Q) s t ∧ AtWork cfg l t ∧ SameNetwork s t ∧
      t.disk = .running ∧ t.ring.ring.countData = 0 := by
  obtain ⟨t, hpath, hdrained⟩ := drain_path (Q := Q) hnet h.inv
  have ht := h.path hQ hpath
  have hrun := ht.disk_running hc
    (hdrained.same.confirmed.trans (hconf.trans hdrained.same.queued.symm))
  rcases hdrained.disk with hret | ⟨-, hempty⟩
  · rw [hrun] at hret
    cases hret
  · exact ⟨t, hpath, ht, hdrained.same, hrun, hempty⟩

-- ---------------------------------------------------------------------------
-- The network thread in the loop
-- ---------------------------------------------------------------------------

def Network.atRest : Network → Bool
  | .receiving | .stopping => true
  | _ => false

theorem sendStats_quiet (param : Parameter) (c : Int) (x : Transfer) :
    sendStats param { quietOracle with countData := c } x = ⟨x, [], .next⟩ := by
  simp [sendStats, quietOracle]

theorem controlAndStats_quiet (param : Parameter) (c : Int) (x : Transfer) (b ty : Nat) :
    controlAndStats param { quietOracle with countData := c } x b ty =
      control param { quietOracle with countData := c } x b ty := by
  simp only [controlAndStats, sendStats_quiet, List.append_nil]
  split
  · rename_i hnext
    rw [← hnext]
  · rfl

theorem terminate_goesOn (param : Parameter) (hr : ∀ n, o.realloc n = true) (x : Transfer) :
    (terminate param o x).verdict ≠ .abort := by
  obtain ⟨y, hy⟩ := Option.isSome_iff_exists.mp
    (requestRange_isSome hr x (u32 (x.gaplessToBlock + 1)) x.blockCount)
  simp only [terminate, hy]
  split
  · simp
  · split <;> simp

theorem quiet_goesOn (hl : param.lossless = true) (c : Int) (x : Transfer) (b ty : Nat) :
    (controlAndStats param { quietOracle with countData := c } x b ty).verdict ≠ .abort := by
  have hall : ∀ n, quietOracle.realloc n = true := fun _ => rfl
  obtain ⟨y, hy⟩ := Option.isSome_iff_exists.mp (requestRange_isSome hall x x.nextBlock b)
  have hqueue : queueMissing param { quietOracle with countData := c } x b = some y := by
    rw [queueMissing, if_pos hl]
    exact hy
  rw [controlAndStats_quiet]
  simp only [control, hqueue]
  split
  · simp
  · split
    · rename_i hnone
      split at hnone <;> cases hnone
    · split
      · exact terminate_goesOn param hall _
      · simp

theorem finish_atRest (hv : r.verdict ≠ .abort) : (s.finish r).network.atRest = true := by
  simp only [CommandGet.finish]
  cases hr : r.verdict with
  | next | leave => rfl
  | abort => exact absurd hr hv

def Network.inserting (i : Insertion) (n : Network) : Prop :=
  n = .reserving i ∨ n = .copying i ∨ n = .confirming i

theorem AtWork.copied (hQ : ∀ d, Q d → Carries l d) (h : AtWork cfg l s)
    (hnet : s.network = .copying i) :
    ∃ t, (commandGet cfg).Path (fun _ e => e.Fed Q) s t ∧ AtWork cfg l t ∧
      t.network = .confirming i ∧ t.queued = s.queued := by
  have hholds := h.aligned
  simp only [hnet, Aligned] at hholds
  cases hp : s.ring.producer with
  | idle | waiting next => simp [hp, Producer.holds] at hholds
  | holding slot =>
    have hstep : ∃ r, s.step cfg .copy = some { s with ring := r, network := .confirming i } := by
      simp [CommandGet.step, hnet, hp, RingState.step]
    obtain ⟨r, hr⟩ := hstep
    have hpath : (commandGet cfg).Path (fun _ e => e.Fed Q) s
        { s with ring := r, network := .confirming i } := fed_single (e := .copy) trivial hr
    exact ⟨_, hpath, h.path hQ hpath, rfl, rfl⟩

theorem ring_reserves {r : RingState α} (hinv : RingInv r)
    (hroom : r.ring.countData < maxBlocksQueued) (hp : r.producer.holds = false) :
    ∃ e u, (e = .reserve ∨ e = .wake) ∧ r.step e = some u ∧ u.producer.holds = true := by
  cases hc : r.producer with
  | holding slot => simp [hc, Producer.holds] at hp
  | idle =>
    obtain ⟨u, hu, -, hhold, -⟩ := reserve_ready hinv hc hroom
    exact ⟨.reserve, u, .inl rfl, hu, by rw [hhold]; rfl⟩
  | waiting next =>
    have hok := hinv.producer
    simp only [hc, ProducerOk] at hok
    obtain ⟨hres, rfl⟩ := hok
    have hsp : r.ring.spaceReady = true := by
      by_contra hsp
      have := hinv.spaceReady.mp (eq_false_of_ne_true hsp)
      omega
    obtain ⟨u, hu, -⟩ := ringReserve_ok hinv hres hsp
    refine ⟨.wake, { r with ring := u, producer := .holding r.ring.tail }, .inr rfl, ?_, rfl⟩
    simp only [RingState.step, hc, hsp, if_true, hu, Option.map_some]

theorem AtWork.reserved (hc : cfg.For l) (hQ : ∀ d, Q d → Carries l d) (h : AtWork cfg l s)
    (hnet : s.network = .reserving i) (hconf : s.ring.confirmed = s.queued) :
    ∃ t, (commandGet cfg).Path (fun _ e => e.Fed Q) s t ∧ AtWork cfg l t ∧
      t.network = .copying i ∧ t.queued = s.queued := by
  obtain ⟨t, hpath, ht, hsame, -, hempty⟩ := h.emptied hc hQ (by simp [hnet]) hconf
  have hnet : t.network = .reserving i := hsame.network.trans hnet
  have hholds := ht.aligned
  simp only [hnet, Aligned] at hholds
  obtain ⟨_, r, he, hr, hhold⟩ := ring_reserves ht.inv (by rw [hempty]; decide) hholds
  have hstep : ∃ e : Event, e.Fed Q ∧
      t.step cfg e = some { t with ring := r, network := .copying i } := by
    rcases he with rfl | rfl
    · exact ⟨.reserve, trivial, by simp [CommandGet.step, hnet, hr, CommandGet.reserved, hhold]⟩
    · exact ⟨.wake, trivial, by simp [CommandGet.step, hnet, hr, CommandGet.reserved, hhold]⟩
  obtain ⟨e, hfed, he⟩ := hstep
  have hpath' := hpath.trans (fed_single (Q := Q) hfed he)
  exact ⟨_, hpath', h.path hQ hpath', rfl, hsame.queued⟩

theorem AtWork.inserted (hc : cfg.For l) (hQ : ∀ d, Q d → Carries l d) (h : AtWork cfg l s)
    (hnet : s.network.inserting i) (hconf : s.ring.confirmed = s.queued) :
    ∃ t, (commandGet cfg).Path (fun _ e => e.Fed Q) s t ∧ AtWork cfg l t ∧
      t.network = .confirming i ∧ t.queued = s.queued := by
  rcases hnet with hnet | hnet | hnet
  · obtain ⟨t, hpath, ht, hcopy, hq⟩ := h.reserved hc hQ hnet hconf
    obtain ⟨u, hpath', hu, hconfirm, hq'⟩ := ht.copied hQ hcopy
    exact ⟨u, hpath.trans hpath', hu, hconfirm, hq'.trans hq⟩
  · exact h.copied hQ hnet
  · exact ⟨s, .refl, h, hnet, rfl⟩

theorem controlling_home (hl : cfg.param.lossless = true) (hnet : s.network = .controlling) :
    ∃ t, (commandGet cfg).Path (fun _ e => e.Fed Q) s t ∧ t.network.atRest = true ∧
      t.queued = s.queued := by
  refine ⟨s.control cfg quietOracle,
    fed_single (e := .control quietOracle) trivial (if_pos hnet), ?_, rfl⟩
  exact finish_atRest (quiet_goesOn hl _ _ _ _)

theorem confirming_home (hl : cfg.param.lossless = true) (h : AtWork cfg l s)
    (hnet : s.network = .confirming .received) :
    ∃ t, (commandGet cfg).Path (fun _ e => e.Fed Q) s t ∧ t.network.atRest = true ∧
      t.queued.length = s.queued.length + 1 := by
  have hholds := h.aligned
  simp only [hnet, Aligned] at hholds
  cases hp : s.ring.producer with
  | idle | waiting next => simp [hp, Producer.holds] at hholds
  | holding slot =>
    obtain ⟨r, hr, -⟩ := ringConfirm_ok h.inv hp
    have hstep : ∃ r', s.step cfg .confirm = some { s with
        ring := r', network := .controlling
        queued := s.queued ++ [s.ring.ring.datagrams slot] } := by
      simp [CommandGet.step, hnet, hp, RingState.step, hr]
    obtain ⟨r', hr'⟩ := hstep
    obtain ⟨t, hpath, hrest, hq⟩ := controlling_home (Q := Q) hl (s := { s with
      ring := r', network := .controlling, queued := s.queued ++ [s.ring.ring.datagrams slot] }) rfl
    exact ⟨t, (fed_single (e := .confirm) trivial hr').trans hpath, hrest, by simp [hq]⟩

/-- A new block on its way into the ring gets there, and the network thread
back to `recvfrom` or out of the loop. -/
theorem AtWork.insert_home (hc : cfg.For l) (hl : cfg.param.lossless = true)
    (hQ : ∀ d, Q d → Carries l d) (h : AtWork cfg l s) (hnet : s.network.inserting .received)
    (hconf : s.ring.confirmed = s.queued) :
    ∃ t, (commandGet cfg).Path (fun _ e => e.Fed Q) s t ∧ t.network.atRest = true ∧
      t.queued.length = s.queued.length + 1 := by
  obtain ⟨t, hpath, ht, hnet, hq⟩ := h.inserted hc hQ hnet hconf
  obtain ⟨u, hpath', hrest, hlen⟩ := confirming_home hl ht hnet
  exact ⟨u, hpath.trans hpath', hrest, by rw [hlen, hq]⟩

theorem looking_home (hc : cfg.For l) (hl : cfg.param.lossless = true)
    (hQ : ∀ d, Q d → Carries l d) (h : AtWork cfg l s) (hnet : s.network = .looking) :
    ∃ t, (commandGet cfg).Path (fun _ e => e.Fed Q) s t ∧ t.network.atRest = true ∧
      s.queued.length ≤ t.queued.length ∧
      (ringFull s.ring.ring = false → gotBlock s.xfer (blockNumber s.localDatagram) = false →
        s.queued.length < t.queued.length) := by
  obtain ⟨hplaced, -⟩ := h.placed hc
  rw [hnet] at hplaced
  have hstep : s.step cfg (.look quietOracle) = some (s.look cfg quietOracle) := if_pos hnet
  have hpath : (commandGet cfg).Path (fun _ e => e.Fed Q) s (s.look cfg quietOracle) :=
    fed_single (e := .look quietOracle) trivial hstep
  have hwork := h.path hQ hpath
  have hgot : gotBlock (countReceived s.xfer (blockType s.localDatagram))
      (blockNumber s.localDatagram) = gotBlock s.xfer (blockNumber s.localDatagram) := rfl
  simp only [CommandGet.look, hgot] at hpath hwork
  split at hpath
  · rename_i hroom
    rw [if_pos hroom] at hwork
    split at hpath
    · rename_i hold
      refine ⟨_, hpath, ?_, Nat.le_refl _, fun _ hmiss => ?_⟩
      · exact finish_atRest (quiet_goesOn hl _ _ _ _)
      · rw [hold] at hmiss
        cases hmiss
    · rename_i hnew
      rw [if_neg hnew] at hwork
      obtain ⟨t, hpath', hrest, hlen⟩ := hwork.insert_home hc hl hQ (.inl rfl) hplaced.confirmed
      simp only at hlen
      exact ⟨t, hpath.trans hpath', hrest, by omega, fun _ _ => by omega⟩
  · rename_i hnot
    refine ⟨_, hpath, ?_, Nat.le_refl _, fun hroom hmiss => absurd ⟨hroom, ?_⟩ hnot⟩
    · rw [sendStats_quiet]
      rfl
    · have hmiss' : gotBlock (countReceived s.xfer (blockType s.localDatagram))
          (blockNumber s.localDatagram) = false := hmiss
      simp [relevant, hmiss']

def Network.inLoop : Network → Bool
  | .receiving | .looking | .reserving .received | .copying .received | .confirming .received
  | .controlling => true
  | _ => false

/-- At the head of the loop, with all that has been received written. -/
structure Settled (s : CommandGet) : Prop where
  network : s.network = .receiving
  disk : s.disk = .running
  empty : s.ring.ring.countData = 0

theorem AtWork.rests (hc : cfg.For l) (hQ : ∀ d, Q d → Carries l d) (h : AtWork cfg l s)
    (hrest : s.network.atRest = true) :
    ∃ t, (commandGet cfg).Path (fun _ e => e.Fed Q) s t ∧ AtWork cfg l t ∧
      t.queued = s.queued ∧ t.sent = s.sent ∧ t.xfer = s.xfer ∧
      (Settled t ∨ t.network = .stopping) := by
  obtain ⟨hplaced, -⟩ := h.placed hc
  cases hnet : s.network with
  | receiving =>
    rw [hnet] at hplaced
    obtain ⟨t, hpath, ht, hsame, hrun, hempty⟩ := h.emptied hc hQ (by simp [hnet]) hplaced.confirmed
    exact ⟨t, hpath, ht, hsame.queued, hsame.sent, hsame.xfer,
      .inl ⟨hsame.network.trans hnet, hrun, hempty⟩⟩
  | stopping => exact ⟨s, .refl, h, rfl, rfl, rfl, .inr hnet⟩
  | _ => simp [hnet, Network.atRest] at hrest

/-- In the loop the two threads come to rest without another datagram. -/
theorem AtWork.settles (hc : cfg.For l) (hl : cfg.param.lossless = true)
    (hQ : ∀ d, Q d → Carries l d) (h : AtWork cfg l s) (hloop : s.network.inLoop = true) :
    ∃ t, (commandGet cfg).Path (fun _ e => e.Fed Q) s t ∧ AtWork cfg l t ∧
      s.queued.length ≤ t.queued.length ∧ (Settled t ∨ t.network = .stopping) := by
  obtain ⟨hplaced, -⟩ := h.placed hc
  obtain ⟨t, hpath, hrest, hlen⟩ : ∃ t, (commandGet cfg).Path (fun _ e => e.Fed Q) s t ∧
      t.network.atRest = true ∧ s.queued.length ≤ t.queued.length := by
    have hinsert : s.network.inserting .received → s.ring.confirmed = s.queued →
        ∃ t, (commandGet cfg).Path (fun _ e => e.Fed Q) s t ∧ t.network.atRest = true ∧
          s.queued.length ≤ t.queued.length := by
      intro hnet hconf
      obtain ⟨t, hpath, hrest, hlen⟩ := h.insert_home hc hl hQ hnet hconf
      exact ⟨t, hpath, hrest, by omega⟩
    cases hnet : s.network with
    | receiving => exact ⟨s, .refl, by rw [hnet]; rfl, Nat.le_refl _⟩
    | looking =>
      obtain ⟨t, hpath, hrest, hlen, -⟩ := looking_home (Q := Q) hc hl hQ h hnet
      exact ⟨t, hpath, hrest, hlen⟩
    | controlling =>
      obtain ⟨t, hpath, hrest, hq⟩ := controlling_home (Q := Q) hl hnet
      exact ⟨t, hpath, hrest, by rw [hq]⟩
    | reserving i =>
      cases i with
      | stop => simp [hnet, Network.inLoop] at hloop
      | received =>
        rw [hnet] at hplaced
        exact hinsert (.inl hnet) hplaced.1.confirmed
    | copying i =>
      cases i with
      | stop => simp [hnet, Network.inLoop] at hloop
      | received =>
        rw [hnet] at hplaced
        exact hinsert (.inr (.inl hnet)) hplaced.1.confirmed
    | confirming i =>
      cases i with
      | stop => simp [hnet, Network.inLoop] at hloop
      | received =>
        rw [hnet] at hplaced
        exact hinsert (.inr (.inr hnet)) hplaced.1.confirmed
    | stopping | joining | counting b lost | returned | aborted =>
      simp [hnet, Network.inLoop] at hloop
  obtain ⟨u, hpath', hu, hq, -, -, hend⟩ := (h.path hQ hpath).rests hc hQ hrest
  exact ⟨u, hpath.trans hpath', hu, by rw [hq]; exact hlen, hend⟩

-- ---------------------------------------------------------------------------
-- Out of the loop
-- ---------------------------------------------------------------------------

theorem counted_path (hnet : s.network = .counting block lost)
    (hx : s.xfer.blockCount + 1 < 2 ^ 32) :
    ∃ t, (commandGet cfg).Path (fun _ e => e.Fed Q) s t ∧ t.network = .returned := by
  generalize hm : s.xfer.blockCount + 1 - block = m
  induction m generalizing s block lost with
  | zero =>
    have hstep : s.step cfg .count = some { s with network := .returned } := by
      simp only [CommandGet.step, hnet, if_neg (show ¬block ≤ s.xfer.blockCount by omega)]
    exact ⟨{ s with network := .returned }, fed_single (e := .count) trivial hstep, rfl⟩
  | succ m ih =>
    have hstep : ∃ lost', s.step cfg .count =
        some { s with network := .counting (block + 1) lost' } := by
      simp only [CommandGet.step, hnet, if_pos (show block ≤ s.xfer.blockCount by omega),
        u32_of_lt (show block + 1 < 2 ^ 32 by omega)]
      exact ⟨_, rfl⟩
    obtain ⟨lost', hcount⟩ := hstep
    obtain ⟨t, hpath, ht⟩ := ih (s := { s with network := .counting (block + 1) lost' }) rfl hx
      (by simp only; omega)
    exact ⟨t, (fed_single (e := .count) trivial hcount).trans hpath, ht⟩

theorem AtWork.joined (hc : cfg.For l) (hQ : ∀ d, Q d → Carries l d)
    (hn : cfg.blockCount + 1 < 2 ^ 32) (h : AtWork cfg l s) (hnet : s.network = .joining) :
    ∃ t, (commandGet cfg).Path (fun _ e => e.Fed Q) s t ∧ t.network = .returned := by
  obtain ⟨t, hpath, hdrained⟩ := drain_path (Q := Q) (by simp [hnet]) h.inv
  have ht := h.path hQ hpath
  have hnet : t.network = .joining := hdrained.same.network.trans hnet
  obtain ⟨hplaced, -⟩ := ht.placed hc
  rw [hnet] at hplaced
  obtain ⟨hleft, stop, h0, hconf⟩ := hplaced
  have hret : t.disk = .returned := by
    rcases hdrained.disk with hret | ⟨hrun, hempty⟩
    · exact hret
    · have hhist := ht.inv.history
      have hnone : unread t.ring.ring t.ring.consumer = [] := by
        cases t.ring.consumer <;> simp [unread, Ring.live, liveFrom, hempty]
      rw [hnone, List.append_nil, hconf] at hhist
      exact absurd h0 (ht.reading hrun stop (by rw [← hhist]; simp))
  have hjoin : t.step cfg .join = some { t with network := .counting 1 0 } := if_pos ⟨hnet, hret⟩
  have hcount : t.xfer.blockCount + 1 < 2 ^ 32 := by
    rw [hleft.counted.blockCount]
    exact hn
  obtain ⟨u, hpath', hu⟩ := counted_path (Q := Q)
    (s := { t with network := .counting 1 0 }) rfl hcount
  exact ⟨u, (hpath.trans (fed_single (e := .join) trivial hjoin)).trans hpath', hu⟩

theorem AtWork.stop_put (hc : cfg.For l) (hQ : ∀ d, Q d → Carries l d)
    (hn : cfg.blockCount + 1 < 2 ^ 32) (h : AtWork cfg l s) (hnet : s.network.inserting .stop)
    (hconf : s.ring.confirmed = s.queued) :
    ∃ t, (commandGet cfg).Path (fun _ e => e.Fed Q) s t ∧ t.network = .returned := by
  obtain ⟨t, hpath, ht, hnet, -⟩ := h.inserted hc hQ hnet hconf
  have hholds := ht.aligned
  simp only [hnet, Aligned] at hholds
  cases hp : t.ring.producer with
  | idle | waiting next => simp [hp, Producer.holds] at hholds
  | holding slot =>
    obtain ⟨r, hr, -⟩ := ringConfirm_ok ht.inv hp
    have hstep : ∃ r', t.step cfg .confirm = some { t with ring := r', network := .joining } := by
      simp [CommandGet.step, hnet, hp, RingState.step, hr]
    obtain ⟨r', hr'⟩ := hstep
    have hpath' := hpath.trans (fed_single (Q := Q) (e := .confirm) trivial hr')
    obtain ⟨u, hpath'', hu⟩ := (h.path hQ hpath').joined hc hQ hn rfl
    exact ⟨u, hpath'.trans hpath'', hu⟩

theorem AtWork.returns (hc : cfg.For l) (hQ : ∀ d, Q d → Carries l d)
    (hn : cfg.blockCount + 1 < 2 ^ 32) (h : AtWork cfg l s) (hloop : s.network.inLoop = false)
    (hab : s.network ≠ .aborted) :
    ∃ t, (commandGet cfg).Path (fun _ e => e.Fed Q) s t ∧ t.network = .returned := by
  obtain ⟨hplaced, -⟩ := h.placed hc
  cases hnet : s.network with
  | receiving | looking | controlling => simp [hnet, Network.inLoop] at hloop
  | aborted => exact absurd hnet hab
  | returned => exact ⟨s, .refl, hnet⟩
  | joining => exact h.joined hc hQ hn hnet
  | counting block lost =>
    rw [hnet] at hplaced
    exact counted_path hnet (by rw [hplaced.1.counted.blockCount]; exact hn)
  | stopping =>
    rw [hnet] at hplaced
    have hstep : s.step cfg (.requestStop .ok) = some { s with
        sent := s.sent ++ [⟨requestStop, 0, 0⟩], network := .reserving .stop } := by
      simp [CommandGet.step, hnet, ttpRequestStop]
    have hpath := fed_single (Q := Q) (e := .requestStop .ok) trivial hstep
    obtain ⟨t, hpath', ht⟩ := (h.path hQ hpath).stop_put hc hQ hn (.inl rfl) hplaced.2
    exact ⟨t, hpath.trans hpath', ht⟩
  | reserving i =>
    cases i with
    | received => simp [hnet, Network.inLoop] at hloop
    | stop =>
      rw [hnet] at hplaced
      exact h.stop_put hc hQ hn (.inl hnet) hplaced.2
  | copying i =>
    cases i with
    | received => simp [hnet, Network.inLoop] at hloop
    | stop =>
      rw [hnet] at hplaced
      exact h.stop_put hc hQ hn (.inr (.inl hnet)) hplaced.2
  | confirming i =>
    cases i with
    | received => simp [hnet, Network.inLoop] at hloop
    | stop =>
      rw [hnet] at hplaced
      exact h.stop_put hc hQ hn (.inr (.inr hnet)) hplaced.2.1

end Tsunami.Client
