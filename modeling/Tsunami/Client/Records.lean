import Tsunami.Client.CommandGet

/-!
# The records the client writes

Whatever the client receives and whatever its calls answer, it asks again for
blocks of the file only.
-/

namespace Tsunami.Client

open Transition

def AllSound (n : Nat) (records : List Retransmission) : Prop := ∀ r ∈ records, r.Sound n

theorem allSound_nil (n : Nat) : AllSound n [] := fun _ hr => absurd hr List.not_mem_nil

theorem AllSound.append (h : AllSound n rs) (h' : AllSound n rs') : AllSound n (rs ++ rs') :=
  List.forall_mem_append.mpr ⟨h, h'⟩

theorem retransmitRequest_sound (hn : x.blockCount < 2 ^ 32) (hb : b ∈ wanted x bs) :
    (retransmitRequest b).Sound x.blockCount := by
  obtain ⟨-, hne, hmissing⟩ := mem_wanted.mp hb
  have hle : b ≤ x.blockCount := by
    by_contra hgt
    rw [gotBlock_of_gt (by omega)] at hmissing
    simp at hmissing
  exact ⟨⟨Nat.zero_lt_succ _, Nat.lt_of_le_of_lt hle hn, Nat.zero_lt_succ _⟩, Nat.zero_lt_succ _,
    fun _ => ⟨Nat.one_le_iff_ne_zero.mpr hne, hle⟩⟩

theorem ttpRepeatRetransmit_sound (w : WriteResult) (hn : x.blockCount < 2 ^ 32) :
    AllSound x.blockCount (ttpRepeatRetransmit w x).records := by
  simp only [ttpRepeatRetransmit]
  split
  · split
    · exact allSound_nil _
    · intro r hr
      rw [List.mem_singleton.mp hr]
      exact .other (by decide) (by decide) (Nat.lt_of_le_of_lt (Nat.min_le_left ..) hn) (by decide)
  · intro r hr
    obtain ⟨b, hb, rfl⟩ := List.mem_map.mp (WriteResult.mem_of_mem_taken hr)
    rw [discard_requests] at hb
    exact retransmitRequest_sound hn (List.mem_of_mem_take hb)

theorem ttpRequestStop_sound (w : WriteResult) (x : Transfer) (n : Nat) :
    AllSound n (ttpRequestStop w x).records := by
  intro r hr
  rw [List.mem_singleton.mp (WriteResult.mem_of_mem_taken hr)]
  exact .other (by decide) (by decide) (by decide) (by decide)

theorem sendErrorRate_sound (param : Parameter) (c : Int) (w : WriteResult)
    (x : Transfer) (n : Nat) :
    AllSound n (sendErrorRate param c w x).records := by
  intro r hr
  obtain ⟨rate, rfl⟩ := sendErrorRate_records hr
  exact .other (by decide) (by decide) (by decide) (u32_lt rate)

theorem sendStats_sound (param : Parameter) (o : Oracle) (hn : x.blockCount < 2 ^ 32) :
    AllSound x.blockCount (sendStats param o x).records := by
  have hrep := ttpRepeatRetransmit_sound o.atRepeat hn
  rcases sendStats_cases param o x with heq | ⟨-, heq⟩ | heq
  · exact heq ▸ allSound_nil _
  · exact heq ▸ hrep.append (sendErrorRate_sound _ _ _ _ _)
  · exact heq ▸ hrep

theorem terminate_sound (param : Parameter) (o : Oracle) (hn : x.blockCount < 2 ^ 32) :
    AllSound x.blockCount (terminate param o x).records := by
  simp only [terminate]
  split
  · exact allSound_nil _
  · split
    · exact allSound_nil _
    · split
      · exact allSound_nil _
      · rename_i y hy
        have hcount := (SameBlocks.kept.requestRange hy).blockCount
        rw [← hcount] at hn ⊢
        exact ttpRepeatRetransmit_sound _ hn

theorem control_sound (param : Parameter) (o : Oracle) (b ty : Nat) (hn : x.blockCount < 2 ^ 32) :
    AllSound x.blockCount (control param o x b ty).records := by
  simp only [control]
  split
  · exact allSound_nil _
  · split
    · exact allSound_nil _
    · rename_i y hy
      have hxy : SameBlocks x y := by
        split at hy
        · exact SameBlocks.kept.queueMissing hy
        · cases hy
          exact .refl x
      have hcount := (hxy.trans (SameBlocks.kept.advanceHead y b ty)).blockCount
      split
      · rw [← hcount] at hn ⊢
        exact terminate_sound param o hn
      · exact allSound_nil _

theorem controlAndStats_sound (param : Parameter) (o : Oracle) (b ty : Nat)
    (hn : x.blockCount < 2 ^ 32) :
    AllSound x.blockCount (controlAndStats param o x b ty).records := by
  have hctl := control_sound param o b ty hn
  have hcount := (SameBlocks.kept.control param o x b ty).blockCount
  simp only [controlAndStats]
  split
  · refine hctl.append ?_
    rw [← hcount] at hn ⊢
    exact sendStats_sound param o hn
  · exact hctl

-- ---------------------------------------------------------------------------
-- Every run
-- ---------------------------------------------------------------------------

structure Talks (cfg : Config) (s : CommandGet) : Prop where
  blockCount : s.xfer.blockCount = cfg.blockCount
  sent : AllSound cfg.blockCount s.sent

variable {cfg : Config} {s t : CommandGet} {e : Event}

theorem Talks.finish (h : Talks cfg s) (hs : SameBlocks x r.xfer)
    (hx : x.blockCount = cfg.blockCount) (hr : AllSound x.blockCount r.records) :
    Talks cfg (s.finish r) :=
  ⟨hs.blockCount.trans hx, h.sent.append (hx ▸ hr)⟩

theorem step_talks (hn : cfg.blockCount < 2 ^ 32) (h : Talks cfg s) (hs : s.step cfg e = some t) :
    Talks cfg t := by
  have hx : s.xfer.blockCount < 2 ^ 32 := h.blockCount ▸ hn
  cases step_cases hs with
  | recvFails =>
    exact ⟨(ttpRepeatRetransmit_sameBlocks ..).blockCount.trans h.blockCount,
      h.sent.append (h.blockCount ▸ ttpRepeatRetransmit_sound _ hx)⟩
  | look =>
    simp only [CommandGet.look]
    split
    · split
      · exact h.finish (SameBlocks.kept.controlAndStats ..) h.blockCount
          (controlAndStats_sound (x := countReceived ..) _ _ _ _ hx)
      · exact ⟨h.blockCount, h.sent⟩
    · exact h.finish (SameBlocks.kept.sendStats ..) h.blockCount
        (sendStats_sound (x := countReceived ..) _ _ hx)
  | control =>
    exact h.finish (SameBlocks.kept.controlAndStats ..) h.blockCount
      (controlAndStats_sound (x := markReceived ..) _ _ _ _ hx)
  | requestStop => exact ⟨h.blockCount, h.sent.append (ttpRequestStop_sound _ _ _)⟩
  | accept =>
    simp only [CommandGet.accept]
    split <;> exact ⟨h.blockCount, h.sent⟩
  | recv | reserve | wake | copy | confirm | confirmStop | join | count | counted | peek | pop =>
    exact ⟨h.blockCount, h.sent⟩

theorem create_talks (cfg : Config) (slots : Int → Datagram) : Talks cfg (.create cfg slots) :=
  ⟨rfl, allSound_nil _⟩

theorem step_sent (hs : s.step cfg e = some t) : s.sent <+: t.sent := by
  cases step_cases hs with
  | recvFails | control | requestStop => exact List.prefix_append ..
  | look =>
    simp only [CommandGet.look]
    split <;> [split; skip]
    · exact List.prefix_append ..
    · exact List.prefix_refl _
    · exact List.prefix_append ..
  | accept =>
    simp only [CommandGet.accept]
    split <;> exact List.prefix_refl _
  | recv | reserve | wake | copy | confirm | confirmStop | join | count | counted | peek | pop =>
    exact List.prefix_refl _

theorem step_queued (hs : s.step cfg e = some t) :
    t.queued = s.queued ∨ e = .confirm ∧ ∃ d, t.queued = s.queued ++ [d] := by
  cases step_cases hs with
  | confirm => exact .inr ⟨rfl, _, rfl⟩
  | look =>
    left
    simp only [CommandGet.look]
    split <;> [split; skip] <;> rfl
  | accept =>
    left
    simp only [CommandGet.accept]
    split <;> rfl
  | recv | recvFails | control | requestStop | reserve | wake | copy | confirmStop | join | count
  | counted | peek | pop => exact .inl rfl

end Tsunami.Client
