import Tsunami.Client.Receive

/-!
# What requests leave behind

One law for each function of `protocol.c` and for the loops of the receive
loop that call it: which fields it can change, and what the table then holds.
-/

namespace Tsunami.Client

open Bytes

-- ---------------------------------------------------------------------------
-- The bitmap
-- ---------------------------------------------------------------------------

theorem gotBlock_congr (hn : y.blockCount = x.blockCount) (hr : y.received = x.received) (b : Nat) :
    gotBlock y b = gotBlock x b := by
  rw [gotBlock, gotBlock, hn, hr]

theorem gotBlock_of_le (h : b ≤ x.blockCount) : gotBlock x b = getBit x.received b :=
  if_neg (by omega)

theorem gotBlock_of_gt (h : x.blockCount < b) : gotBlock x b = true := if_pos h

def BitmapFits (x : Transfer) : Prop := x.received.length = x.blockCount / 8 + 2

theorem gotBlock_markReceived (hx : BitmapFits x) (ht : t ≤ x.blockCount) (b : Nat) :
    gotBlock (markReceived x t) b = (decide (t = b) || gotBlock x b) := by
  by_cases hb : b ≤ x.blockCount
  · have hbit := getBit_setBit (m := x.received) (i := t) (by rw [hx]; omega) b
    rw [gotBlock_of_le (x := x) hb, ← hbit]
    exact gotBlock_of_le (x := markReceived x t) hb
  · rw [gotBlock_of_gt (x := x) (by omega), Bool.or_true]
    exact gotBlock_of_gt (x := markReceived x t) (show x.blockCount < b by omega)

-- ---------------------------------------------------------------------------
-- Queueing requests
-- ---------------------------------------------------------------------------

def SameButTable (x y : Transfer) : Prop :=
  y = { x with retransmit := y.retransmit, dropped := y.dropped }

theorem SameButTable.gotBlock (h : SameButTable x y) (b : Nat) : gotBlock y b = gotBlock x b := by
  rw [SameButTable] at h
  exact gotBlock_congr (by rw [h]) (by rw [h]) b

theorem SameButTable.trans (h : SameButTable x y) (h' : SameButTable y z) : SameButTable x z := by
  rw [SameButTable] at *
  rw [h', h]

/-- The law of queueing the blocks `bs`: unless a request was refused at the
cap, the missing ones among them are appended, in order. -/
structure Queued (x y : Transfer) (bs : List Nat) : Prop where
  frame : SameButTable x y
  entries : ∃ added, y.retransmit.entries = x.retransmit.entries ++ added ∧
    added.Sublist (bs.filter fun b => !Client.gotBlock x b) ∧
    (y.dropped = false → x.dropped = false ∧ added = bs.filter fun b => !Client.gotBlock x b)

theorem ttpRequestRetransmit_queued (h : ttpRequestRetransmit realloc x block = some y) :
    Queued x y [block] := by
  simp only [ttpRequestRetransmit] at h
  split at h
  · rename_i hgot
    cases h
    exact ⟨rfl, [], by simp, by simp, by simp [hgot]⟩
  · rename_i hgot
    have hmissing : [block].filter (fun b => !gotBlock x b) = [block] := by simp [hgot]
    split at h
    · rename_i hlt
      cases h
      exact ⟨rfl, [block], Retransmit.entries_store _ _ hlt, by rw [hmissing],
        fun hd => ⟨hd, hmissing.symm⟩⟩
    · split at h
      · cases h
        exact ⟨rfl, [], by simp, by simp, by simp⟩
      · split at h
        · cases h
          refine ⟨rfl, [block], ?_, by rw [hmissing], fun hd => ⟨hd, hmissing.symm⟩⟩
          have hstore := Retransmit.entries_store _ block x.retransmit.indexMax_lt_grow
          rwa [Retransmit.entries_grow] at hstore
        · simp at h

theorem Queued.nil (x : Transfer) : Queued x x [] := ⟨rfl, [], by simp, by simp, by simp⟩

theorem Queued.append (h : Queued x y bs) (h' : Queued y z cs) : Queued x z (bs ++ cs) := by
  obtain ⟨added, hadd, hsub, hall⟩ := h.entries
  obtain ⟨added', hadd', hsub', hall'⟩ := h'.entries
  have hgot : (fun b => !gotBlock y b) = fun b => !gotBlock x b := by
    funext b
    rw [h.frame.gotBlock]
  rw [hgot] at hsub' hall'
  refine ⟨h.frame.trans h'.frame, added ++ added', ?_, ?_, ?_⟩
  · rw [hadd', hadd, List.append_assoc]
  · rw [List.filter_append]
    exact hsub.append hsub'
  · intro hd
    obtain ⟨hy, heq'⟩ := hall' hd
    obtain ⟨hx, heq⟩ := hall hy
    exact ⟨hx, by rw [List.filter_append, heq, heq']⟩

theorem foldlM_queued (h : bs.foldlM (ttpRequestRetransmit realloc) x = some y) :
    Queued x y bs := by
  induction bs generalizing x with
  | nil =>
    simp only [List.foldlM_nil, pure, Option.some.injEq] at h
    exact h ▸ .nil x
  | cons b bs ih =>
    simp only [List.foldlM_cons, bind, Option.bind_eq_some_iff] at h
    obtain ⟨z, hz, hy⟩ := h
    exact (ttpRequestRetransmit_queued hz).append (ih hy)

theorem requestRange_queued (h : requestRange realloc x first last = some y) :
    Queued x y (List.range' first (last - first)) := foldlM_queued h

theorem Queued.keeps (h : Queued x y bs) (hb : b ∈ x.retransmit.entries) :
    b ∈ y.retransmit.entries := by
  obtain ⟨added, hadd, -⟩ := h.entries
  rw [hadd]
  exact List.mem_append_left _ hb

theorem Queued.covers (h : Queued x y bs) (hd : y.dropped = false) (hb : b ∈ bs)
    (hm : Client.gotBlock x b = false) : b ∈ y.retransmit.entries := by
  obtain ⟨added, hadd, -, hall⟩ := h.entries
  rw [hadd, (hall hd).2]
  exact List.mem_append_right _ (by simp [hb, hm])

theorem Queued.dropped (h : Queued x y bs) (hd : y.dropped = false) : x.dropped = false := by
  obtain ⟨added, hadd, hsub, hall⟩ := h.entries
  exact (hall hd).1

theorem ttpRequestRetransmit_isSome (hr : ∀ n, realloc n = true) (x : Transfer) (block : Nat) :
    (ttpRequestRetransmit realloc x block).isSome := by
  simp only [ttpRequestRetransmit, hr, if_true]
  split <;> [rfl; (split <;> [rfl; (split <;> rfl)])]

theorem requestRange_isSome (hr : ∀ n, realloc n = true) (x : Transfer) (first last : Nat) :
    (requestRange realloc x first last).isSome := by
  unfold requestRange
  induction List.range' first (last - first) generalizing x with
  | nil => rfl
  | cons b bs ih =>
    obtain ⟨y, hy⟩ := Option.isSome_iff_exists.mp (ttpRequestRetransmit_isSome hr x b)
    simp only [List.foldlM_cons, bind, hy, Option.bind_some]
    exact ih y

-- ---------------------------------------------------------------------------
-- Repeating requests
-- ---------------------------------------------------------------------------

theorem mem_wanted : b ∈ wanted x bs ↔ b ∈ bs ∧ b ≠ 0 ∧ gotBlock x b = false := by
  simp [wanted]

theorem discard_requests (x : Transfer) : (discard x x.retransmit.indexMax).2 =
    (wanted x x.retransmit.entries).take maxRetransmissionBuffer := (discarded x).requests

theorem entries_compact (x : Transfer) :
    (x.compact _ (discarded x).count).entries =
      (wanted x x.retransmit.entries).take maxRetransmissionBuffer :=
  (discarded x).bottom.trans (discard_requests x)

/-- The law of `ttp_repeat_retransmit` where its writes succeed: either the
table becomes the blocks still wanted and each is requested, or there are too
many, and one restart is sent from the first missing block. -/
theorem ttpRepeatRetransmit_cases (x : Transfer) :
    (∃ r st, (wanted x x.retransmit.entries).length < maxRetransmissionBuffer ∧
      r.entries = wanted x x.retransmit.entries ∧
      ttpRepeatRetransmit .ok x = ⟨{ x with retransmit := r, stats := st },
        (wanted x x.retransmit.entries).map retransmitRequest, true⟩) ∨
    ∃ r st lastidx, maxRetransmissionBuffer ≤ (wanted x x.retransmit.entries).length ∧
      r.entries = [] ∧
      ttpRepeatRetransmit .ok x = ⟨{ x with
          retransmit := r
          restartPending := true
          restartLastidx := lastidx
          restartWireclearidx := min x.blockCount (u32 (lastidx + x.onWireEstimate))
          nextBlock := min x.blockCount (u32 (x.gaplessToBlock + 1))
          stats := st },
        [restartRequest (min x.blockCount (u32 (x.gaplessToBlock + 1)))], true⟩ := by
  have hreq := discard_requests x
  have hent := entries_compact x
  by_cases hfew : (wanted x x.retransmit.entries).length < maxRetransmissionBuffer
  · left
    rw [List.take_of_length_le (Nat.le_of_lt hfew)] at hreq hent
    have hn : ¬(discard x x.retransmit.indexMax).2.length ≥ maxRetransmissionBuffer := by
      rw [hreq]; omega
    refine ⟨x.compact _ (discarded x).count, { x.stats with
      thisRetransmits := (discard x x.retransmit.indexMax).2.length
      totalRetransmits :=
        u32 (x.stats.totalRetransmits + (discard x x.retransmit.indexMax).2.length) },
      hfew, hent, ?_⟩
    unfold ttpRepeatRetransmit
    simp only [if_neg hn]
    simp [hreq]
  · right
    have hlen : (discard x x.retransmit.indexMax).2.length ≥ maxRetransmissionBuffer := by
      rw [hreq, List.length_take]; omega
    refine ⟨x.compact 0 (Nat.zero_le _),
      { x.stats with thisRetransmits := maxRetransmissionBuffer },
      (discard x x.retransmit.indexMax).1.getD (x.retransmit.indexMax - 1) 0, by omega, rfl, ?_⟩
    unfold ttpRepeatRetransmit
    simp only [if_pos hlen]
    simp

end Tsunami.Client
