import Tsunami.Client.Assembly
import Tsunami.Client.DiskFailure
import Tsunami.Client.Lossy
import Tsunami.Lib.Endian

/-!
# The blockmap

`dump_blockmap` writes the bitmap of the received blocks to a file beside the
local one. At the end of a transfer, with losses or without, it says which bytes
of the local file are those of the file, and agrees with the blocks reported as
lost.
-/

namespace Tsunami.Client

open Bytes Endian Transition

variable {cfg : Config} {l : Layout} {s : CommandGet} {x : Transfer} {o : ByteOrder}
  {Q : Datagram → Prop}

/-- The number of blocks, in the order of the host, and the bitmap up to the byte
of the last block. -/
def dumpBlockmap (o : ByteOrder) (x : Transfer) : List UInt8 :=
  o.store 4 x.blockCount ++ x.received.take (x.blockCount / 8 + 1)

def inBlockmap (dump : List UInt8) (b : Nat) : Bool := getBit (dump.drop 4) b

theorem inBlockmap_dump (o : ByteOrder) (hb : b ≤ x.blockCount) :
    inBlockmap (dumpBlockmap o x) b = gotBlock x b := by
  have hbyte : b / 8 < x.blockCount / 8 + 1 := Nat.lt_succ_of_le (Nat.div_le_div_right hb)
  rw [inBlockmap, dumpBlockmap, List.drop_left' (length_store ..), getBit_take _ hbyte,
    gotBlock_of_le hb]

/-- What a reader of the blockmap relies on: the header, and that every byte of a
block is the file's where the bit is set, and a hole where it is not. -/
structure Truthful (o : ByteOrder) (l : Layout) (dump file : List UInt8) : Prop where
  count : o.load (dump.take 4) = l.blockCount
  length : dump.length = 4 + (l.blockCount / 8 + 1)
  bytes : ∀ b i, 1 ≤ b → b ≤ l.blockCount → l.offset b ≤ i → i < l.offset b + l.blockSize →
    i < l.file.length → file.getD i 0 = if inBlockmap dump b then l.file.getD i 0 else 0
  within : file.length ≤ l.file.length

-- ---------------------------------------------------------------------------
-- The books at the end
-- ---------------------------------------------------------------------------

theorem fed_counting (hQ : ∀ d, Q d → d.length = 6 + cfg.param.blockSize ∧ blockNumber d ≠ 0)
    (hn : cfg.blockCount ≤ 2 ^ 32 - 2) (h : (commandGet cfg).ReachableBy (fun _ e => e.Fed Q) s) :
    Counting cfg s := by
  induction h with
  | init h =>
    obtain ⟨slots, rfl⟩ := h
    exact nofun
  | step hr _ hs ih =>
    obtain ⟨numbers, hcount⟩ := (fed_arrived hQ hr).1.books.1
    exact step_counting ih hcount.blockCount hn hs

theorem reachable_joined (h : (commandGet cfg).Reachable s) : Joined s s.network :=
  h.invariant (by rintro s ⟨slots, rfl⟩; trivial) fun _ _ _ hi hs => step_joined hi hs

theorem returned_pieces (hc : cfg.For l)
    (h : (commandGet cfg).ReachableBy (fun _ e => e.Fed (Carries l)) s)
    (hd : s.disk = .returned) :
    s.file = (s.numbers.map fun b => (l.offset b, l.blockSize)).foldl (putPiece 0 l.file) [] := by
  obtain ⟨hplaced, harrived⟩ := fed_arrived (carries_sized hc) h
  have hinv := ring_inv (commandGet_ring h.reachable)
  have hall := commandGet_allAccepted h fun _ _ hf => hf.diskWorks
  have hdisk := commandGet_diskPlaced h.reachable
  rw [hd] at hdisk
  obtain ⟨stop, -, hconf⟩ := returned_on_stop hplaced hdisk hall hinv
  have hacc : s.accepts.map Prod.fst = s.queued := by
    rcases hdisk with ⟨last, h0, hreads, -⟩ | ⟨a, before, slot, hne, hacc, -⟩
    · exact accepted_all hreads h0 hinv.history hconf fun d hd =>
        (carries_sized hc d (harrived.queued d hd)).2
    · exact absurd (hall a (by simp [hacc])) hne
  have hfile : s.file = written cfg s.accepts :=
    h.reachable.invariant (by rintro s ⟨slots, rfl⟩; rfl) fun _ _ _ hi hs => step_written hi hs
  rw [hfile, written_carries hc fun a ha =>
    ⟨harrived.queued _ (hacc ▸ List.mem_map_of_mem ha), hall a ha⟩, CommandGet.numbers, ← hacc,
    List.map_map, List.map_map]
  rfl

theorem covered {numbers : List Nat} (hr : ∀ b ∈ numbers, 1 ≤ b ∧ b ≤ l.blockCount)
    (hlo : l.offset b ≤ i) (hhi : i < l.offset b + l.blockSize) (hpos : 1 ≤ b)
    (hin : ∃ p ∈ numbers.map fun b => (l.offset b, l.blockSize), p.1 ≤ i ∧ i < p.1 + p.2) :
    b ∈ numbers := by
  obtain ⟨p, hp, hplo, hphi⟩ := hin
  obtain ⟨b', hb', rfl⟩ := List.mem_map.mp hp
  have hpos' := (hr b' hb').1
  rcases Nat.lt_trichotomy b b' with hlt | rfl | hgt
  · have hnext : l.offset (b + 1) ≤ l.offset b' := Nat.mul_le_mul_left _ (by omega)
    rw [Layout.offset_succ hpos] at hnext
    omega
  · exact hb'
  · have hnext : l.offset (b' + 1) ≤ l.offset b := Nat.mul_le_mul_left _ (by omega)
    rw [Layout.offset_succ hpos'] at hnext
    omega

theorem dumpBlockmap_truthful {numbers : List Nat} (o : ByteOrder) (hn : l.blockCount < 2 ^ 32)
    (hcount : x.blockCount = l.blockCount) (hfits : BitmapFits x)
    (hrange : ∀ b ∈ numbers, 1 ≤ b ∧ b ≤ l.blockCount)
    (hmarked : ∀ b, 1 ≤ b → b ≤ l.blockCount → (gotBlock x b = true ↔ b ∈ numbers)) :
    Truthful o l (dumpBlockmap o x)
      ((numbers.map fun b => (l.offset b, l.blockSize)).foldl (putPiece 0 l.file) []) := by
  have hinmap : ∀ b, 1 ≤ b → b ≤ l.blockCount →
      (inBlockmap (dumpBlockmap o x) b = true ↔ b ∈ numbers) := by
    intro b h₁ hle
    rw [inBlockmap_dump o (by omega)]
    exact hmarked b h₁ hle
  refine ⟨?_, ?_, fun b i h₁ hle hlo hhi hi => ?_, (agrees_foldl 0 l.file _).length⟩
  · rw [dumpBlockmap, List.take_left' (length_store ..), load_store, hcount]
    exact Nat.mod_eq_of_lt (by omega)
  · rw [BitmapFits] at hfits
    rw [dumpBlockmap, List.length_append, length_store, List.length_take, hfits, hcount]
    omega
  · by_cases hmem : b ∈ numbers
    · rw [if_pos ((hinmap b h₁ hle).mpr hmem)]
      have hagrees := (agrees_foldl 0 l.file
        (numbers.map fun b => (l.offset b, l.blockSize))).bytes _ (List.mem_map_of_mem hmem) i
        hlo hhi hi
      rw [List.getD_eq_getElem?_getD, hagrees, ← List.getD_eq_getElem?_getD]
    · rw [if_neg fun hset => hmem ((hinmap b h₁ hle).mp hset)]
      exact foldl_putPiece_hole 0 fun p hp hin => hmem (covered hrange hlo hhi h₁ ⟨p, hp, hin⟩)

/-- Once the lost blocks are counted, in whatever mode, the blockmap is truthful
and has as many bits clear as blocks are reported lost; without losses allowed
none is. -/
theorem blockmap_truthful (hc : cfg.For l) (hn : l.blockCount ≤ 2 ^ 32 - 2)
    (h : (commandGet cfg).ReachableBy (fun _ e => e.Fed (Carries l)) s)
    (hnet : s.network = .counting block lost) (hb : l.blockCount < block) (o : ByteOrder) :
    Truthful o l (dumpBlockmap o s.xfer) s.file ∧
      lost = ((Finset.Icc 1 l.blockCount).filter
        fun b => inBlockmap (dumpBlockmap o s.xfer) b = false).card ∧
      (cfg.param.lossless = true → lost = 0) := by
  have hplaced := (fed_arrived (carries_sized hc) h).1
  have hjoined := reachable_joined h.reachable
  have hcounting := fed_counting (carries_sized hc) (hc.blockCount ▸ hn) h block lost hnet
  rw [hnet] at hplaced hjoined
  obtain ⟨hleft, -⟩ := hplaced
  have hcounted := hleft.counted
  have hcount : s.xfer.blockCount = l.blockCount := hcounted.blockCount.trans hc.blockCount
  have hlost : lost = (missing s.xfer).card :=
    hcounting.all hcounted.blockCount (by rw [hc.blockCount]; exact hb)
  refine ⟨?_, ?_, ?_⟩
  · rw [returned_pieces hc h hjoined.1]
    refine dumpBlockmap_truthful o (by omega) hcount hcounted.bitmap ?_ fun b h₁ hle => ?_
    · exact hc.blockCount ▸ hcounted.range
    · exact hcounted.marked b h₁ (by rw [hc.blockCount]; exact hle)
  · rw [hlost, missing, hcount]
    congr 1
    refine Finset.filter_congr fun b hb => ?_
    rw [inBlockmap_dump o (hcount ▸ (Finset.mem_Icc.mp hb).2)]
  · intro hl
    rw [hlost, ← hcounted.left]
    exact hleft.done hl

/-- Of two blocks of zeros the second has arrived. -/
theorem blockmap_truthful_second_of_two :
    ∃ s : CommandGet, dumpBlockmap .little s.xfer = [2, 0, 0, 0, 4] ∧
      ∃ l : Layout, Truthful .little l (dumpBlockmap .little s.xfer) s.file ∧
        1 = ((Finset.Icc 1 l.blockCount).filter
          fun b => inBlockmap (dumpBlockmap .little s.xfer) b = false).card := by
  let l : Layout := ⟨List.replicate 8 0, 4, by decide, by decide, by decide, by decide⟩
  have hc : lossyConfig.For l := ⟨rfl, by decide, by decide⟩
  have hd : Carries l (sampleDatagram 4 2 tsBlockTerminate) :=
    ⟨by decide, by decide, by decide, by decide⟩
  have hrun : ((commandGet lossyConfig).run (.create lossyConfig fun _ => []) secondOfTwo).map
      (fun s => (s.network, dumpBlockmap .little s.xfer)) =
        some (.counting 3 1, [2, 0, 0, 0, 4]) := by decide +kernel
  obtain ⟨s, hs, heq⟩ := Option.map_eq_some_iff.mp hrun
  obtain ⟨hnet, hdump⟩ := Prod.mk.injEq .. ▸ heq
  have hfed : ∀ e ∈ secondOfTwo, ∀ _ : CommandGet, e.Fed (Carries l) := by
    simp only [secondOfTwo, List.forall_mem_cons, Event.Fed]
    exact ⟨fun _ => hd, by simp⟩
  have hreach := (System.ReachableBy.init (M := commandGet lossyConfig) ⟨fun _ => [], rfl⟩).path
    (.run hs hfed)
  obtain ⟨htruth, hlost, -⟩ := blockmap_truthful hc (by decide) hreach hnet (by decide) .little
  exact ⟨s, hdump, l, htruth, hlost⟩

end Tsunami.Client
