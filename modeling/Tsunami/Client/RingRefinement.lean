import Tsunami.Client.Ring

/-!
# The ring refines a bounded queue

The `count_data` slots from `base_data` on, read in order, are the items of a
bounded FIFO queue. `RingInv` says what the two flags, the two counters and
the two threads' slots have to do with each other; every operation keeps it,
and with it each locked section is a step of the queue or no step at all.
-/

namespace Tsunami.Client

open Transition

variable {α : Type u}

-- ---------------------------------------------------------------------------
-- Live slots
-- ---------------------------------------------------------------------------

def liveFrom (d : Int → α) (base : Int) (n : Nat) : List α :=
  (List.range n).map fun i : Nat => d ((base + (i : Int)) % maxBlocksQueued)

def Ring.live (r : Ring α) : List α := liveFrom r.datagrams r.baseData r.countData.toNat

@[simp] theorem length_liveFrom (d : Int → α) (base : Int) (n : Nat) :
    (liveFrom d base n).length = n := by
  simp [liveFrom]

@[simp] theorem length_live (r : Ring α) : r.live.length = r.countData.toNat := length_liveFrom ..

theorem liveFrom_succ (d : Int → α) (base : Int) (n : Nat) :
    liveFrom d base (n + 1) = liveFrom d base n ++ [d ((base + n) % maxBlocksQueued)] := by
  simp [liveFrom, List.range_succ]

theorem liveFrom_cons (d : Int → α) (base : Int) (n : Nat) :
    liveFrom d base (n + 1) =
      d (base % maxBlocksQueued) :: liveFrom d ((base + 1) % maxBlocksQueued) n := by
  simp only [liveFrom, List.range_succ_eq_map, List.map_cons, List.map_map, Int.cast_ofNat_Int,
    Int.add_zero, List.cons.injEq, true_and]
  apply List.map_congr_left
  intro i _
  have h : (base + ((i + 1 : Nat) : Int)) % maxBlocksQueued =
      ((base + 1) % maxBlocksQueued + i) % maxBlocksQueued := by
    simp only [maxBlocksQueued]
    omega
  simpa using congrArg d h

theorem liveFrom_update (d : Int → α) (v : α) {n : Nat}
    (h : ∀ i < n, (base + (i : Int)) % maxBlocksQueued ≠ slot) :
    liveFrom (Function.update d slot v) base n = liveFrom d base n := by
  apply List.map_congr_left
  intro i hi
  exact Function.update_of_ne (h i (List.mem_range.mp hi)) ..

-- ---------------------------------------------------------------------------
-- The invariant
-- ---------------------------------------------------------------------------

def Ring.tail (r : Ring α) : Int := (r.baseData + r.countData) % maxBlocksQueued

def ProducerOk (r : Ring α) : Producer → Prop
  | .idle => r.countReserved = 0
  | .waiting next => r.countReserved = 0 ∧ next = r.tail
  | .holding slot => r.countReserved = 1 ∧ slot = r.tail

def ConsumerOk (r : Ring α) : Consumer → Prop
  | .idle => True
  | .peeked slot | .read slot => slot = r.baseData ∧ 0 < r.countData

def unread (r : Ring α) : Consumer → List α
  | .idle | .peeked _ => r.live
  | .read _ => r.live.tail

structure RingInv (s : RingState α) : Prop where
  base : 0 ≤ s.ring.baseData ∧ s.ring.baseData < maxBlocksQueued
  data : 0 ≤ s.ring.countData
  room : s.ring.countData + s.ring.countReserved ≤ maxBlocksQueued
  dataReady : s.ring.dataReady = true ↔ 0 < s.ring.countData
  spaceReady : s.ring.spaceReady = false ↔ s.ring.countData + s.ring.countReserved = maxBlocksQueued
  producer : ProducerOk s.ring s.producer
  consumer : ConsumerOk s.ring s.consumer
  history : s.confirmed = s.reads ++ unread s.ring s.consumer

variable {s : RingState α}

theorem RingInv.reserved (h : RingInv s) : 0 ≤ s.ring.countReserved ∧ s.ring.countReserved ≤ 1 := by
  have hp := h.producer
  cases hs : s.producer <;> simp only [hs, ProducerOk] at hp <;> omega

theorem create_inv (d : Int → α) : RingInv (RingState.create d) where
  base := by simp [RingState.create, ringCreate, maxBlocksQueued]
  data := by simp [RingState.create, ringCreate]
  room := by simp [RingState.create, ringCreate, maxBlocksQueued]
  dataReady := by simp [RingState.create, ringCreate]
  spaceReady := by simp [RingState.create, ringCreate, maxBlocksQueued]
  producer := by simp [RingState.create, ringCreate, ProducerOk]
  consumer := by simp [RingState.create, ConsumerOk]
  history := by simp [RingState.create, ringCreate, unread, Ring.live, liveFrom]

theorem RingInv.disjoint (h : RingInv s) (hs : s.producer = .holding slot) :
    ∀ i < s.ring.countData.toNat, (s.ring.baseData + (i : Int)) % maxBlocksQueued ≠ slot := by
  intro i hi
  have hp := h.producer
  have hd := h.data
  have hr := h.room
  simp only [hs, ProducerOk, Ring.tail] at hp
  obtain ⟨hres, rfl⟩ := hp
  simp only [maxBlocksQueued] at hr ⊢
  omega

theorem unread_congr {r r' : Ring α} (hd : r'.datagrams = r.datagrams)
    (hb : r'.baseData = r.baseData) (hc : r'.countData = r.countData) (c : Consumer) :
    unread r' c = unread r c := by
  have hl : r'.live = r.live := by simp [Ring.live, hd, hb, hc]
  cases c <;> simp [unread, hl]

theorem ConsumerOk.mono {r r' : Ring α} (h : ConsumerOk r c) (hb : r'.baseData = r.baseData)
    (hc : r.countData ≤ r'.countData) : ConsumerOk r' c := by
  cases c with
  | idle => trivial
  | peeked slot | read slot => exact ⟨by rw [hb]; exact h.1, by have := h.2; omega⟩

-- ---------------------------------------------------------------------------
-- What each section can do
-- ---------------------------------------------------------------------------

/-- A reservation with the slot after the last live one succeeds: the process
does not exit, and exactly one slot becomes reserved. -/
theorem ringReserve_ok (h : RingInv s) (hres : s.ring.countReserved = 0)
    (hsp : s.ring.spaceReady = true) :
    ∃ r, ringReserve s.ring s.ring.tail = some r ∧
      RingInv { s with ring := r, producer := .holding s.ring.tail } ∧
      r.live = s.ring.live := by
  have hroom := h.room
  have hne : s.ring.countData ≠ maxBlocksQueued := by
    intro hc
    have := h.spaceReady.mpr (by omega)
    simp [this] at hsp
  refine ⟨_, if_neg (by omega), ?_, rfl⟩
  have hspace : (if (s.ring.tail + 1) % maxBlocksQueued = s.ring.baseData then false
      else s.ring.spaceReady) = false ↔ s.ring.countData + 1 = maxBlocksQueued := by
    have hb := h.base
    have hd := h.data
    simp only [Ring.tail, maxBlocksQueued] at *
    simp only [hsp, Bool.ite_eq_false_distrib, if_true_left, Bool.true_eq_false, imp_false, not_not]
    omega
  exact {
    base := h.base
    data := h.data
    room := by simp only [hres]; omega
    dataReady := h.dataReady
    spaceReady := by simpa only [hres, Int.zero_add] using hspace
    producer := ⟨by simp only [hres]; rfl, rfl⟩
    consumer := h.consumer.mono rfl (Int.le_refl _)
    history := h.history.trans (congrArg _ (unread_congr rfl rfl rfl _).symm) }

theorem write_inv (h : RingInv s) (hs : s.producer = .holding slot) (d : α) :
    RingInv
      { s with ring := { s.ring with datagrams := Function.update s.ring.datagrams slot d } } := by
  have hl : Ring.live { s.ring with datagrams := Function.update s.ring.datagrams slot d } =
      s.ring.live := liveFrom_update _ _ (h.disjoint hs)
  have hu : unread { s.ring with datagrams := Function.update s.ring.datagrams slot d } s.consumer =
      unread s.ring s.consumer := by
    cases s.consumer <;> simp [unread, hl]
  exact {
    base := h.base, data := h.data, room := h.room, dataReady := h.dataReady
    spaceReady := h.spaceReady
    producer := by
      have hp := h.producer
      rw [hs] at hp ⊢
      exact hp
    consumer := h.consumer.mono rfl (Int.le_refl _)
    history := h.history.trans (congrArg _ hu.symm) }

theorem ringConfirm_ok (h : RingInv s) (hs : s.producer = .holding slot) :
    ∃ r, ringConfirm s.ring = some r ∧
      RingInv { s with
        ring := r, producer := .idle, confirmed := s.confirmed ++ [s.ring.datagrams slot] } ∧
      r.live = s.ring.live ++ [s.ring.datagrams slot] := by
  have hp := h.producer
  simp only [hs, ProducerOk] at hp
  obtain ⟨hres, hslot⟩ := hp
  have hd := h.data
  let confirmed : Ring α := { s.ring with
    countData := s.ring.countData + 1, countReserved := s.ring.countReserved - 1,
    dataReady := true }
  have hlive : confirmed.live = s.ring.live ++ [s.ring.datagrams slot] := by
    have hn : (s.ring.countData + 1).toNat = s.ring.countData.toNat + 1 := by omega
    have ht :
        s.ring.baseData + (s.ring.countData.toNat : Int) = s.ring.baseData + s.ring.countData := by
      omega
    simp only [confirmed, Ring.live, hn, liveFrom_succ, ht, hslot, Ring.tail]
  refine ⟨confirmed, if_neg (by omega), ?_, hlive⟩
  exact {
    base := h.base
    data := by simp only [confirmed]; omega
    room := by have := h.room; simp only [confirmed]; omega
    dataReady := by simp only [confirmed, true_iff]; omega
    spaceReady := by
      simp only [confirmed, h.spaceReady]
      omega
    producer := by simp only [ProducerOk, confirmed]; omega
    consumer := h.consumer.mono rfl (by simp only [confirmed]; omega)
    history := by
      rw [h.history, List.append_assoc]
      have hc := h.consumer
      cases hcs : s.consumer with
      | idle | peeked _ => simp only [unread, hlive]
      | read _ =>
        -- the slot that was read is still live, so the appended one is not it
        simp only [hcs, ConsumerOk] at hc
        have hne : s.ring.live ≠ [] := by
          intro he
          have := congrArg List.length he
          simp only [length_live, List.length_nil] at this
          omega
        simp only [unread, hlive, List.tail_append_of_ne_nil hne] }

theorem ringCancel_ok (h : RingInv s) (hs : s.producer = .holding slot) :
    ∃ r, ringCancel s.ring = some r ∧ RingInv { s with ring := r, producer := .idle } ∧
      r.live = s.ring.live := by
  have hp := h.producer
  simp only [hs, ProducerOk] at hp
  have hroom := h.room
  refine ⟨_, if_neg (by omega), ?_, rfl⟩
  exact {
    base := h.base
    data := h.data
    room := by simp only; omega
    dataReady := h.dataReady
    spaceReady := by simp only [Bool.true_eq_false, false_iff]; omega
    producer := by simp only [ProducerOk]; omega
    consumer := h.consumer.mono rfl (Int.le_refl _)
    history := h.history.trans (congrArg _ (unread_congr rfl rfl rfl _).symm) }

theorem live_of_pos (h : RingInv s) (hc : 0 < s.ring.countData) :
    s.ring.live = s.ring.datagrams s.ring.baseData :: (ringPop s.ring).live := by
  have hn : s.ring.countData.toNat = (s.ring.countData - 1).toNat + 1 := by omega
  have hb : s.ring.baseData % maxBlocksQueued = s.ring.baseData :=
    Int.emod_eq_of_lt h.base.1 h.base.2
  simp only [Ring.live, ringPop, hn, liveFrom_cons, hb]

theorem ringPop_ok (h : RingInv s) (hs : s.consumer = .read slot) :
    RingInv { s with ring := ringPop s.ring, consumer := .idle } := by
  have hc := h.consumer
  simp only [hs, ConsumerOk] at hc
  have hb := h.base
  have hroom := h.room
  exact {
    base := by simp only [ringPop, maxBlocksQueued]; omega
    data := by simp only [ringPop]; omega
    room := by simp only [ringPop]; omega
    dataReady := by
      simp only [ringPop]
      split
      · simp only [Bool.false_eq_true, false_iff]; omega
      · rw [h.dataReady]; omega
    spaceReady := by simp only [ringPop, Bool.true_eq_false, false_iff]; omega
    producer := by
      have hp := h.producer
      have ht : (ringPop s.ring).tail = s.ring.tail := by
        simp only [Ring.tail, ringPop, maxBlocksQueued]
        omega
      cases hps : s.producer <;> simp only [hps, ProducerOk, ht] at hp ⊢ <;> exact hp
    consumer := trivial
    history := by
      have hh := h.history
      simp only [hs, unread, live_of_pos h hc.2, List.tail_cons] at hh
      exact hh }

theorem read_inv (h : RingInv s) (hs : s.consumer = .peeked slot) :
    RingInv { s with consumer := .read slot, reads := s.reads ++ [s.ring.datagrams slot] } := by
  have hc := h.consumer
  simp only [hs, ConsumerOk] at hc
  obtain ⟨rfl, hpos⟩ := hc
  exact {
    base := h.base, data := h.data, room := h.room, dataReady := h.dataReady
    spaceReady := h.spaceReady, producer := h.producer
    consumer := ⟨rfl, hpos⟩
    history := by
      have hh := h.history
      simp only [hs, unread, live_of_pos h hpos] at hh
      simp only [unread, live_of_pos h hpos, List.tail_cons, List.append_assoc,
        List.singleton_append]
      exact hh }

-- ---------------------------------------------------------------------------
-- What each section leaves alone
-- ---------------------------------------------------------------------------

def Reserves (s t : RingState α) : Prop :=
  ∃ r p, t = { s with ring := r, producer := p } ∧ r.datagrams = s.ring.datagrams

theorem ringReserve_datagrams (h : ringReserve r next = some r') :
    r'.datagrams = (r : Ring α).datagrams := by
  simp only [ringReserve, Option.ite_none_left_eq_some, Option.some.injEq] at h
  obtain ⟨-, rfl⟩ := h
  rfl

theorem map_ringReserve (h : ((ringReserve s.ring next).map fun r =>
      { s with ring := r, producer := .holding next }) = some t) : Reserves (α := α) s t := by
  simp only [Option.map_eq_some_iff] at h
  obtain ⟨r, hr, rfl⟩ := h
  exact ⟨r, _, rfl, ringReserve_datagrams hr⟩

theorem step_reserve (h : s.step .reserve = some t) : Reserves (α := α) s t := by
  simp only [RingState.step] at h
  split at h
  · split at h
    · exact map_ringReserve h
    · cases h
      exact ⟨s.ring, _, rfl, rfl⟩
  · simp at h

theorem step_wake (h : s.step .wake = some t) : Reserves (α := α) s t := by
  simp only [RingState.step] at h
  split at h
  · split at h
    · exact map_ringReserve h
    · simp at h
  · simp at h

theorem step_write (hp : s.producer = .holding slot) (h : s.step (.write d) = some t) :
    t = { s with ring := { s.ring with
      datagrams := Function.update s.ring.datagrams slot (d : α) } } := by
  simp only [RingState.step, hp, Option.some.injEq] at h
  rw [← h, hp]

theorem step_confirm (hp : s.producer = .holding slot) (h : s.step .confirm = some t) :
    ∃ r : Ring α, t = { s with
      ring := r, producer := .idle, confirmed := s.confirmed ++ [s.ring.datagrams slot] } := by
  simp only [RingState.step, hp, Option.map_eq_some_iff] at h
  obtain ⟨r, -, rfl⟩ := h
  exact ⟨r, rfl⟩

theorem step_peek (h : s.step .peek = some t) :
    ∃ slot, t = { (s : RingState α) with consumer := .peeked slot } := by
  simp only [RingState.step] at h
  split at h
  · simp only [Option.ite_none_right_eq_some, Option.some.injEq] at h
    obtain ⟨-, rfl⟩ := h
    exact ⟨_, rfl⟩
  · simp at h

theorem step_read (hc : s.consumer = .peeked slot) (h : s.step .read = some t) :
    t = { (s : RingState α) with
      consumer := .read slot, reads := s.reads ++ [s.ring.datagrams slot] } := by
  simp only [RingState.step, hc, Option.some.injEq] at h
  exact h.symm

theorem step_pop (h : s.step .pop = some t) :
    t = { (s : RingState α) with ring := ringPop s.ring, consumer := .idle } := by
  simp only [RingState.step] at h
  split at h
  · simp only [Option.ite_none_right_eq_some, Option.some.injEq] at h
    exact h.2.symm
  · simp at h

-- ---------------------------------------------------------------------------
-- A thread that does not have to wait
-- ---------------------------------------------------------------------------

theorem reserve_ready (h : RingInv s) (hp : s.producer = .idle)
    (hc : s.ring.countData < maxBlocksQueued) :
    ∃ t, s.step .reserve = some t ∧ RingInv t ∧ t.producer = .holding s.ring.tail ∧
      t.ring.countData = s.ring.countData ∧ t.confirmed = s.confirmed ∧ t.consumer = s.consumer ∧
      t.reads = s.reads := by
  have hres := h.producer
  simp only [hp, ProducerOk] at hres
  have hsp : s.ring.spaceReady = true := by
    by_contra hsp
    have := h.spaceReady.mp (eq_false_of_ne_true hsp)
    omega
  obtain ⟨r, hr, hinv, -⟩ := ringReserve_ok h hres hsp
  have hnext : ringReserveNext s.ring = s.ring.tail := by simp [ringReserveNext, Ring.tail, hres]
  have hcount : r.countData = s.ring.countData := by
    simp only [ringReserve, Option.ite_none_left_eq_some, Option.some.injEq] at hr
    obtain ⟨-, rfl⟩ := hr
    rfl
  exact ⟨_, by simp only [RingState.step, hp, hnext, hsp, hr, if_true, Option.map_some], hinv, rfl,
    hcount, rfl, rfl, rfl⟩

theorem write_confirm (h : RingInv s) (hp : s.producer = .holding slot) (d : α) :
    ∃ t u, s.step (.write d) = some t ∧ t.producer = .holding slot ∧ t.ring.datagrams slot = d ∧
      t.step .confirm = some u ∧ RingInv u ∧ u.producer = .idle ∧
      u.ring.countData = s.ring.countData + 1 ∧ u.confirmed = s.confirmed ++ [d] ∧
      u.consumer = s.consumer ∧ u.reads = s.reads := by
  let t : RingState α :=
    { s with ring := { s.ring with datagrams := Function.update s.ring.datagrams slot d } }
  have hslot : t.ring.datagrams slot = d := Function.update_self ..
  obtain ⟨r, hr, hinv, -⟩ := ringConfirm_ok (s := t) (write_inv h hp d) hp
  have hcount : r.countData = s.ring.countData + 1 := by
    simp only [ringConfirm, Option.ite_none_left_eq_some, Option.some.injEq] at hr
    obtain ⟨-, rfl⟩ := hr
    rfl
  refine ⟨t,
    { t with ring := r, producer := .idle, confirmed := t.confirmed ++ [t.ring.datagrams slot] },
    ?_, hp, hslot, ?_, hinv, rfl, hcount, by rw [hslot], rfl, rfl⟩
  · simp only [RingState.step, hp, t]
  · simp only [RingState.step, show t.producer = .holding slot from hp, hr, Option.map_some]

theorem peek_read (h : RingInv s) (hc : s.consumer = .idle) (hpos : 0 < s.ring.countData) :
    ∃ t u d rest, s.step .peek = some t ∧ t.consumer = .peeked s.ring.baseData ∧
      t.ring.datagrams s.ring.baseData = d ∧ t.step .read = some u ∧ RingInv u ∧
      u.consumer = .read s.ring.baseData ∧ s.confirmed = s.reads ++ d :: rest ∧
      u.reads = s.reads ++ [d] ∧ u.ring = s.ring ∧ u.confirmed = s.confirmed ∧
      u.producer = s.producer := by
  have hready := h.dataReady.mpr hpos
  have hh := h.history
  simp only [hc, unread, live_of_pos h hpos] at hh
  let t : RingState α := { s with consumer := .peeked s.ring.baseData }
  have ht : RingInv t :=
    { h with consumer := ⟨rfl, hpos⟩, history := h.history.trans (by simp only [hc, unread, t]) }
  refine ⟨t, _, _, _, ?_, rfl, rfl, rfl, read_inv ht rfl, rfl, hh, rfl, rfl, rfl, rfl⟩
  simp only [RingState.step, hc, hready, if_true, ringPeek, t]

theorem pop_ready (h : RingInv s) (hc : s.consumer = .read slot) :
    ∃ t, s.step .pop = some t ∧ RingInv t ∧ t.consumer = .idle ∧
      t.ring.countData = s.ring.countData - 1 ∧ t.confirmed = s.confirmed ∧
      t.producer = s.producer ∧ t.reads = s.reads := by
  have hcons := h.consumer
  simp only [hc, ConsumerOk] at hcons
  have hready := h.dataReady.mpr hcons.2
  exact ⟨_, by simp only [RingState.step, hc, hready, if_true], ringPop_ok h hc, rfl, rfl,
    rfl, rfl, rfl⟩

-- ---------------------------------------------------------------------------
-- Every interleaving
-- ---------------------------------------------------------------------------

def QueueStep (s t : RingState α) : Prop :=
  t.ring.live = s.ring.live ∧ t.confirmed = s.confirmed ∨
  (∃ d, t.ring.live = s.ring.live ++ [d] ∧ t.confirmed = s.confirmed ++ [d] ∧
    s.ring.live.length < maxBlocksQueued.toNat) ∨
  ∃ d, s.ring.live = d :: t.ring.live ∧ t.confirmed = s.confirmed

theorem reserve_step (h : RingInv s) (hres : s.ring.countReserved = 0)
    (hs : (ringReserve s.ring s.ring.tail).map
      (fun r => { s with ring := r, producer := .holding s.ring.tail }) = some t)
    (hsp : s.ring.spaceReady = true) : RingInv t ∧ QueueStep s t := by
  obtain ⟨r, hr, hinv, hlive⟩ := ringReserve_ok h hres hsp
  simp only [hr, Option.map_some, Option.some.injEq] at hs
  subst hs
  exact ⟨hinv, .inl ⟨hlive, rfl⟩⟩

theorem begin_step (h : RingInv s) (hp : s.producer = .idle) (hs : s.step .reserve = some t) :
    RingInv t ∧ QueueStep s t := by
  have hpo := h.producer
  simp only [hp, ProducerOk] at hpo
  have hnext : ringReserveNext s.ring = s.ring.tail := by simp [ringReserveNext, Ring.tail, hpo]
  simp only [RingState.step, hp, hnext] at hs
  split at hs
  · rename_i hsp
    exact reserve_step h hpo hs hsp
  · cases hs
    exact ⟨{ h with producer := ⟨hpo, rfl⟩ }, .inl ⟨rfl, rfl⟩⟩

theorem confirm_step (h : RingInv s) (hp : s.producer = .holding slot)
    (hs : s.step .confirm = some t) : RingInv t ∧ QueueStep s t := by
  obtain ⟨r, hr, hinv, hlive⟩ := ringConfirm_ok h hp
  simp only [RingState.step, hp, hr, Option.map_some, Option.some.injEq] at hs
  subst hs
  refine ⟨hinv, .inr (.inl ⟨_, hlive, rfl, ?_⟩)⟩
  have hpo := h.producer
  have hroom := h.room
  have hd := h.data
  simp only [hp, ProducerOk] at hpo
  simp only [length_live]
  omega

theorem peek_step (h : RingInv s) (hc : s.consumer = .idle) (hs : s.step .peek = some t) :
    RingInv t ∧ QueueStep s t := by
  simp only [RingState.step, hc, Option.ite_none_right_eq_some, Option.some.injEq] at hs
  obtain ⟨hready, rfl⟩ := hs
  have hh := h.history
  simp only [hc, unread] at hh
  exact ⟨{ h with consumer := ⟨rfl, h.dataReady.mp hready⟩, history := hh }, .inl ⟨rfl, rfl⟩⟩

theorem RingInv.step (h : RingInv s) (hs : s.step e = some t) : RingInv t ∧ QueueStep s t := by
  cases e with
  | reserve =>
    cases hp : s.producer with
    | idle => exact begin_step h hp hs
    | waiting next | holding slot => simp [RingState.step, hp] at hs
  | wake =>
    simp only [RingState.step] at hs
    split at hs
    · rename_i next hp
      have hpo := h.producer
      simp only [hp, ProducerOk] at hpo
      obtain ⟨hres, rfl⟩ := hpo
      simp only [Option.ite_none_right_eq_some] at hs
      exact reserve_step h hres hs.2 hs.1
    · simp at hs
  | write d =>
    simp only [RingState.step] at hs
    split at hs
    · rename_i slot hp
      simp only [Option.some.injEq] at hs
      subst hs
      exact ⟨write_inv h hp d, .inl ⟨liveFrom_update _ _ (h.disjoint hp), rfl⟩⟩
    · simp at hs
  | confirm =>
    cases hp : s.producer with
    | holding slot => exact confirm_step h hp hs
    | idle | waiting next => simp [RingState.step, hp] at hs
  | cancel =>
    simp only [RingState.step] at hs
    split at hs
    · rename_i slot hp
      obtain ⟨r, hr, hinv, hlive⟩ := ringCancel_ok h hp
      simp only [hr, Option.map_some, Option.some.injEq] at hs
      subst hs
      exact ⟨hinv, .inl ⟨hlive, rfl⟩⟩
    · simp at hs
  | peek =>
    cases hc : s.consumer with
    | idle => exact peek_step h hc hs
    | peeked slot | read slot => simp [RingState.step, hc] at hs
  | read =>
    simp only [RingState.step] at hs
    split at hs
    · rename_i slot hc
      simp only [Option.some.injEq] at hs
      subst hs
      exact ⟨read_inv h hc, .inl ⟨rfl, rfl⟩⟩
    · simp at hs
  | pop =>
    simp only [RingState.step] at hs
    split at hs
    · rename_i slot hc
      simp only [Option.ite_none_right_eq_some, Option.some.injEq] at hs
      obtain ⟨hready, rfl⟩ := hs
      exact ⟨ringPop_ok h hc, .inr (.inr ⟨_, live_of_pos h (h.dataReady.mp hready), rfl⟩)⟩
    · simp at hs

theorem ring_inv (h : (ringSystem α).Reachable s) : RingInv s :=
  h.invariant (by rintro s ⟨d, rfl⟩; exact create_inv d) fun _ _ _ hi hs => (hi.step hs).1

/-- The abstraction: the live slots are the items of the queue. -/
def RingAbs (s : RingState α) (q : BoundedQueue.State α) : Prop :=
  q.items = s.ring.live ∧ q.put = s.confirmed

theorem ring_simulates :
    System.Simulates (ringSystem α) (BoundedQueue.system maxBlocksQueued.toNat)
      (fun s q => RingInv s ∧ RingAbs s q) where
  init := by
    rintro s ⟨d, rfl⟩
    exact ⟨_, rfl, create_inv d, by simp [Ring.live, liveFrom, RingState.create, ringCreate], rfl⟩
  step := by
    rintro s e t q ⟨hinv, hitems, hput⟩ hs
    obtain ⟨hinv', hq⟩ := hinv.step hs
    rcases hq with ⟨hlive, hconf⟩ | ⟨d, hlive, hconf, hroom⟩ | ⟨d, hlive, hconf⟩
    · exact ⟨[], q, rfl, hinv', hitems.trans hlive.symm, hput.trans hconf.symm⟩
    · rw [← hitems] at hroom
      refine ⟨[.put d], ⟨q.items ++ [d], q.put ++ [d], q.got⟩, ?_, hinv', ?_, ?_⟩
      · simp only [System.run, BoundedQueue.system, BoundedQueue.step, if_pos hroom,
          Option.bind_some]
      · simp [hitems, hlive]
      · simp [hput, hconf]
    · refine ⟨[.get], ⟨t.ring.live, q.put, q.got ++ [d]⟩, ?_, hinv', rfl, hput.trans hconf.symm⟩
      simp [System.run, BoundedQueue.system, BoundedQueue.step, hitems, hlive]

/-- No thread ever makes the process exit: a section that runs is never one
the source answers with `error`. -/
theorem ring_never_exits (h : (ringSystem α).Reachable s) :
    (s.producer = .idle → s.ring.spaceReady = true →
      ringReserve s.ring (ringReserveNext s.ring) ≠ none) ∧
    (∀ next, s.producer = .waiting next → s.ring.spaceReady = true →
      ringReserve s.ring next ≠ none) ∧
    (∀ slot, s.producer = .holding slot → ringConfirm s.ring ≠ none ∧
      ringCancel s.ring ≠ none) := by
  have hinv := ring_inv h
  have hpo := hinv.producer
  refine ⟨fun hp _ => ?_, fun next hp _ => ?_, fun slot hp => ⟨?_, ?_⟩⟩
  all_goals
    simp only [hp, ProducerOk] at hpo
    simp only [ringReserve, ringConfirm, ringCancel, ne_eq, ite_eq_left_iff, not_forall]
    exact ⟨by omega, by simp⟩

/-- The ring is a bounded FIFO queue of capacity `MAX_BLOCKS_QUEUED`, for
every interleaving of the two threads: the counters and flags say what is in
it, the slot being filled is not one that is live, and what the disk thread
reads is what the network thread confirmed, in order. -/
theorem ring_refines_bounded_queue (h : (ringSystem α).Reachable s) :
    ((0 ≤ s.ring.countReserved ∧ s.ring.countReserved ≤ 1) ∧
      s.ring.countData + s.ring.countReserved ≤ 4096 ∧
      (0 ≤ s.ring.baseData ∧ s.ring.baseData < 4096) ∧
      (s.ring.dataReady = true ↔ 0 < s.ring.countData) ∧
      (s.ring.spaceReady = false ↔ s.ring.countData + s.ring.countReserved = 4096)) ∧
    (∀ slot, s.producer = .holding slot → (0 ≤ slot ∧ slot < 4096) ∧
      ∀ i : Nat, (i : Int) < s.ring.countData → (s.ring.baseData + i) % 4096 ≠ slot) ∧
    s.reads <+: s.confirmed ∧
    ∃ q, (BoundedQueue.system 4096).Reachable q ∧
      q.items = s.ring.live ∧ q.put = s.confirmed ∧ s.confirmed = q.got ++ s.ring.live := by
  have hinv := ring_inv h
  obtain ⟨q, hq, -, hitems, hput⟩ := ring_simulates.reachable h
  refine ⟨⟨hinv.reserved, hinv.room, hinv.base, hinv.dataReady, hinv.spaceReady⟩, ?_,
    ⟨_, hinv.history.symm⟩, q, hq, hitems, hput, ?_⟩
  · intro slot hp
    have hpo := hinv.producer
    simp only [hp, ProducerOk, Ring.tail, maxBlocksQueued] at hpo
    exact ⟨by omega, fun i hi => hinv.disjoint hp i (by omega)⟩
  · rw [← hput, (BoundedQueue.ordered hq).history, hitems]

/-- A run in which the second datagram is filled in while the first is read. -/
theorem ring_refines_bounded_queue_run :
    ∃ s, (ringSystem Nat).Reachable s ∧ s.reads = [7] ∧ s.confirmed = [7, 8] ∧
      s.reads <+: s.confirmed := by
  have hinit : (ringSystem Nat).Reachable (RingState.create fun _ => 0) := .init ⟨_, rfl⟩
  obtain ⟨s, hs, hreads, hconf⟩ : ∃ s, (ringSystem Nat).run (RingState.create fun _ => 0)
      [.reserve, .write 7, .confirm, .reserve, .peek, .write 8, .read, .confirm, .pop] = some s ∧
      s.reads = [7] ∧ s.confirmed = [7, 8] := ⟨_, rfl, rfl, rfl⟩
  have hreach := hinit.run hs
  exact ⟨s, hreach, hreads, hconf, (ring_refines_bounded_queue hreach).2.2.1⟩

end Tsunami.Client
