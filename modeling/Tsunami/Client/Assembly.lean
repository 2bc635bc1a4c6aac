import Tsunami.Blocks
import Tsunami.Client.Books

/-!
# The file on the client's disk

If every datagram that arrives carries a block of a file, and no call of the
disk fails, the disk thread leaves that file behind: each block has gone
through the ring once, in whatever order.
-/

namespace Tsunami.Client

open Bytes Transition

structure Config.For (cfg : Config) (l : Layout) : Prop where
  blockSize : cfg.param.blockSize = l.blockSize
  fileSize : cfg.fileSize = l.file.length
  blockCount : cfg.blockCount = l.blockCount

variable {cfg : Config} {l : Layout} {s t : CommandGet} {e : Event} {Q : Datagram → Prop}

-- ---------------------------------------------------------------------------
-- What accept_block writes
-- ---------------------------------------------------------------------------

theorem writeSize_eq (hc : cfg.For l) (h₁ : 1 ≤ b) (hb : b ≤ l.blockCount) :
    writeSize cfg b = (l.block b).length := by
  rw [writeSize, hc.blockCount, hc.fileSize, hc.blockSize]
  split
  · rename_i hlast
    rw [hlast, Layout.length_block_last, lastSize]
  · rw [Layout.length_block_of_lt h₁ (by omega)]

theorem acceptBlock_carries (hc : cfg.For l) (hd : Carries l d) (file : List UInt8) :
    (acceptBlock cfg .ok file (blockNumber d) (d.drop 6)).1 =
      putPiece 0 l.file file (l.offset (blockNumber d), l.blockSize) := by
  have hdata : (d.drop 6).take (l.block (blockNumber d)).length = l.block (blockNumber d) :=
    (List.prefix_iff_eq_take.mp hd.data).symm
  simp only [acceptBlock, writeSize_eq hc hd.pos hd.le, hdata, hc.blockSize]
  rfl

def written (cfg : Config) (accepts : List (Datagram × DiskResult)) : List UInt8 :=
  accepts.foldl (fun file a => (acceptBlock cfg a.2 file (blockNumber a.1) (a.1.drop 6)).1) []

theorem step_written (h : s.file = written cfg s.accepts) (hs : s.step cfg e = some t) :
    t.file = written cfg t.accepts := by
  rcases step_disk hs with ⟨-, hacc, -, hfile, -⟩ | ⟨res, slot, rfl, -, -, rfl⟩
  · rw [hfile, hacc, h]
  · simp only [CommandGet.accept]
    split
    · exact h
    · simp only [written, List.foldl_append, List.foldl_cons, List.foldl_nil]
      rw [h, written]

theorem written_carries (hc : cfg.For l) (hd : ∀ a ∈ accepts, Carries l a.1 ∧ a.2 = .ok) :
    written cfg accepts =
      (accepts.map fun a => (l.offset (blockNumber a.1), l.blockSize)).foldl
        (putPiece 0 l.file) [] := by
  induction accepts using List.reverseRecOn with
  | nil => rfl
  | append_singleton accepts a ih =>
    obtain ⟨hcarry, hok⟩ := hd a (by simp)
    have hprev := ih fun b hb => hd b (List.mem_append_left _ hb)
    simp only [written] at hprev
    simp only [written, List.foldl_append, List.map_append, List.map_cons, List.map_nil,
      List.foldl_cons, List.foldl_nil, hok, acceptBlock_carries hc hcarry, hprev]

-- ---------------------------------------------------------------------------
-- What has arrived
-- ---------------------------------------------------------------------------

/-- What arrives satisfies `Q`, and neither `recvfrom` nor the disk fails. -/
def Event.Fed (Q : Datagram → Prop) : Event → Prop
  | .recv d => Q d
  | .recvFails _ => False
  | .accept res => res = .ok
  | _ => True

instance (e : Event) : Decidable (e.Fed fun _ => True) :=
  match e with
  | .recvFails _ => isFalse id
  | .accept res => inferInstanceAs (Decidable (res = .ok))
  | .recv _ | .look _ | .reserve | .wake | .copy | .confirm | .control _ | .requestStop _ | .join
  | .count | .peek | .pop => isTrue trivial

theorem Event.Fed.diskWorks (h : e.Fed Q) : DiskWorks e := by
  cases e <;> simp_all [Event.Fed, DiskWorks, Event.diskFails]

/-- What has arrived satisfies `Q`: the datagram in the local buffer, from the
first one on, and those put into the ring. -/
structure Arrived (cfg : Config) (Q : Datagram → Prop) (s : CommandGet) : Prop where
  length : s.localDatagram.length = 6 + cfg.param.blockSize
  local' : s.network ≠ .receiving → Q s.localDatagram
  queued : ∀ d ∈ s.queued, Q d

theorem Arrived.same (h : Arrived cfg Q s) (hl : t.localDatagram = s.localDatagram)
    (hq : t.queued = s.queued) (hn : s.network ≠ .receiving ∨ t.network = s.network) :
    Arrived cfg Q t where
  length := by rw [hl]; exact h.length
  local' hnet := by
    rw [hl]
    rcases hn with hn | hn
    · exact h.local' hn
    · exact h.local' (hn ▸ hnet)
  queued := by rw [hq]; exact h.queued

theorem step_arrived (hQ : ∀ d, Q d → d.length = 6 + cfg.param.blockSize)
    (hp : Placed cfg s s.network) (h : Arrived cfg Q s) (hf : e.Fed Q)
    (hs : s.step cfg e = some t) : Arrived cfg Q t := by
  cases step_cases hs with
  | @recv d hnet =>
    have hd : blit s.localDatagram 0 (d.take (6 + cfg.param.blockSize)) = d := by
      rw [List.take_of_length_le (Nat.le_of_eq (hQ d hf)), blit_all ((hQ d hf).trans h.length.symm)]
    refine ⟨?_, fun _ => ?_, h.queued⟩
    · rw [hd, hQ d hf]
    · rw [hd]
      exact hf
  | recvFails => exact hf.elim
  | look hnet =>
    have hne : s.network ≠ .receiving := by rw [hnet]; decide
    simp only [CommandGet.look]
    split <;> [split; skip] <;> exact h.same rfl rfl (.inl hne)
  | control hnet => exact h.same rfl rfl (.inl (by rw [hnet]; decide))
  | confirm hnet hp' hr =>
    have hne : s.network ≠ .receiving := by rw [hnet]; decide
    rw [hnet] at hp
    refine ⟨h.length, fun _ => h.local' hne, fun d hd => ?_⟩
    rcases List.mem_append.mp hd with hd | hd
    · exact h.queued d hd
    · rw [List.mem_singleton.mp hd, hp.2.2 _ hp']
      exact h.local' hne
  | reserve hnet | wake hnet => exact h.same rfl rfl (.inl (by rw [hnet]; simp))
  | copy hnet | confirmStop hnet | requestStop hnet | join hnet | count hnet | counted hnet =>
    exact h.same rfl rfl (.inl (by rw [hnet]; simp))
  | peek | pop => exact h.same rfl rfl (.inr rfl)
  | accept =>
    simp only [CommandGet.accept]
    split <;> exact h.same rfl rfl (.inr rfl)

theorem fed_arrived (hQ : ∀ d, Q d → d.length = 6 + cfg.param.blockSize ∧ blockNumber d ≠ 0)
    (h : (commandGet cfg).ReachableBy (fun _ e => e.Fed Q) s) :
    Placed cfg s s.network ∧ Arrived cfg Q s := by
  refine h.invariant (I := fun s => Placed cfg s s.network ∧ Arrived cfg Q s) ?_
    fun s e t _ hi hf hs => ?_
  · rintro s ⟨slots, rfl⟩
    refine ⟨create_placed cfg slots, ?_, fun hne => absurd rfl hne,
      fun d hd => absurd hd List.not_mem_nil⟩
    exact List.length_replicate
  · have hzero : NoBlockZero s e := by
      intro hl
      have hnet : s.network = .looking := by
        cases step_cases hs with
        | look hnet => exact hnet
        | _ => simp [Event.looks] at hl
      exact .inr (hQ _ (hi.2.local' (by rw [hnet]; decide))).2
    exact ⟨step_placed hi.1 hzero hs, step_arrived (fun d hd => (hQ d hd).1) hi.1 hi.2 hf hs⟩

-- ---------------------------------------------------------------------------
-- The whole file
-- ---------------------------------------------------------------------------

theorem carries_sized (hc : cfg.For l) (d : Datagram) (hd : Carries l d) :
    d.length = 6 + cfg.param.blockSize ∧ blockNumber d ≠ 0 :=
  ⟨by rw [hd.length, hc.blockSize], Nat.one_le_iff_ne_zero.mp hd.pos⟩

theorem assembled (hc : cfg.For l) (hl : cfg.param.lossless = true)
    (h : (commandGet cfg).ReachableBy (fun _ e => e.Fed (Carries l)) s) (hd : s.disk = .returned) :
    s.numbers.Perm (List.range' 1 l.blockCount) ∧
      (∃ stop, blockNumber stop = 0 ∧ s.ring.confirmed = s.queued ++ [stop]) ∧ s.file = l.file := by
  have hQ : ∀ d, Carries l d → d.length = 6 + cfg.param.blockSize ∧ blockNumber d ≠ 0 := fun d hd =>
    ⟨by rw [hd.length, hc.blockSize], Nat.one_le_iff_ne_zero.mp hd.pos⟩
  obtain ⟨hplaced, harrived⟩ := fed_arrived hQ h
  have hinv := ring_inv (commandGet_ring h.reachable)
  have hall := commandGet_allAccepted h fun _ _ hf => hf.diskWorks
  have hdisk := commandGet_diskPlaced h.reachable
  rw [hd] at hdisk
  obtain ⟨stop, hstop, hconf⟩ := returned_on_stop hplaced hdisk hall hinv
  have hleft : Left cfg s := hplaced.left_of_stop hconf
  have hperm := hleft.perm hl
  rw [hc.blockCount] at hperm
  have hacc : s.accepts.map Prod.fst = s.queued := by
    rcases hdisk with ⟨last, h0, hreads, -⟩ | ⟨a, before, slot, hne, hacc, -⟩
    · exact accepted_all hreads h0 hinv.history hconf fun d hd => (hQ d (harrived.queued d hd)).2
    · exact absurd (hall a (by simp [hacc])) hne
  have hfile : s.file = written cfg s.accepts :=
    h.reachable.invariant (by rintro s ⟨slots, rfl⟩; rfl) fun _ _ _ hi hs => step_written hi hs
  refine ⟨hperm, ⟨stop, hstop, hconf⟩, ?_⟩
  rw [hfile, written_carries hc fun a ha =>
    ⟨harrived.queued _ (hacc ▸ List.mem_map_of_mem ha), hall a ha⟩]
  refine foldl_putPiece 0 fun i hi => ?_
  obtain ⟨b, h₁, hb, hlo, hhi⟩ := Layout.exists_block hi
  have hmem : b ∈ s.numbers := hperm.mem_iff.mpr (List.mem_range'_1.mpr ⟨h₁, by omega⟩)
  rw [CommandGet.numbers, ← hacc, List.map_map, List.mem_map] at hmem
  obtain ⟨a, ha, rfl⟩ := hmem
  exact ⟨_, List.mem_map_of_mem ha, hlo, hhi⟩

end Tsunami.Client
