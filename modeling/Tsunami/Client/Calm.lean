import Tsunami.Client.Books
import Tsunami.Client.Records
import Tsunami.Lib.Damping

/-!
# A client that asks for nothing

While nothing has to be asked for again and the ring is not full, every report
of the error rate is smaller by the factor of the filter.
-/

namespace Tsunami.Client

open Transition

/-- What is left of the rate from one report to the next. -/
def Parameter.feedback (param : Parameter) : ℚ := param.history / 100

def OnlyReports (records : List Retransmission) : Prop :=
  ∀ r ∈ records, r.requestType = requestErrorRate

/-- The rate goes from `e` to `e'`: no report, with or without a step of the
filter, or one report of the rate after it. -/
inductive Eased (param : Parameter) (e : ℚ) : List Retransmission → ℚ → Prop
  | silent : Eased param e [] e
  | unsent : Eased param e [] (param.feedback * e)
  | report : r.requestType = requestErrorRate → r.errorRate ≤ ⌊param.feedback * e⌋.toNat →
      Eased param e [r] (param.feedback * e)

variable {param : Parameter} {x y : Transfer} {o : Oracle} {b ty : Nat}

-- ---------------------------------------------------------------------------
-- The rate outside the statistics
-- ---------------------------------------------------------------------------

theorem SameButTable.stats (h : SameButTable x y) : y.stats = x.stats := by
  rw [SameButTable] at h
  rw [h]

theorem ttpRepeatRetransmit_rate (w : WriteResult) (x : Transfer) :
    (ttpRepeatRetransmit w x).xfer.stats.errorRate = x.stats.errorRate := by
  simp only [ttpRepeatRetransmit]
  split
  · split <;> rfl
  · rfl

theorem countReceived_rate (x : Transfer) (ty : Nat) :
    (countReceived x ty).stats.errorRate = x.stats.errorRate := by
  simp only [countReceived]
  split <;> rfl

theorem terminate_rate (param : Parameter) (o : Oracle) (x : Transfer) :
    (terminate param o x).xfer.stats.errorRate = x.stats.errorRate := by
  simp only [terminate]
  split
  · rfl
  · split
    · rfl
    · split
      · rfl
      · rename_i y hy
        rw [ttpRepeatRetransmit_rate, (requestRange_queued hy).frame.stats]

theorem queueMissing_stats (h : queueMissing param o x b = some y) : y.stats = x.stats := by
  simp only [queueMissing] at h
  split at h
  · exact (requestRange_queued h).frame.stats
  · split at h
    · cases h
      rfl
    · simp only [Option.map_eq_some_iff] at h
      obtain ⟨z, hz, rfl⟩ := h
      exact (requestRange_queued hz).frame.stats

theorem advanceHead_stats (x : Transfer) (b ty : Nat) : (advanceHead x b ty).stats = x.stats := by
  simp only [advanceHead, leaveRestart, expectNext]
  split <;> split <;> rfl

theorem control_rate (param : Parameter) (o : Oracle) (x : Transfer) (b ty : Nat) :
    (control param o x b ty).xfer.stats.errorRate = x.stats.errorRate := by
  simp only [control]
  split
  · rfl
  · split
    · rfl
    · rename_i y hy
      have hxy : y.stats = x.stats := by
        split at hy
        · exact queueMissing_stats hy
        · cases hy
          rfl
      split
      · rw [terminate_rate, advanceHead_stats, hxy]
      · simp only
        rw [advanceHead_stats, hxy]

-- ---------------------------------------------------------------------------
-- Requests that are not made
-- ---------------------------------------------------------------------------

theorem OnlyReports.of_append (h : OnlyReports (rs ++ rs')) : OnlyReports rs ∧ OnlyReports rs' :=
  List.forall_mem_append.mp h

theorem repeat_cases (w : WriteResult) (x : Transfer) :
    ((ttpRepeatRetransmit w x).records = [] ∧ ((ttpRepeatRetransmit w x).ok = true →
      (ttpRepeatRetransmit w x).xfer.stats.thisRetransmits = 0)) ∨
    ¬OnlyReports (ttpRepeatRetransmit w x).records := by
  unfold ttpRepeatRetransmit
  by_cases hmany : (discard x x.retransmit.indexMax).2.length ≥ maxRetransmissionBuffer
  · simp only [if_pos hmany]
    by_cases hw : w = .fwriteFails
    · rw [if_pos hw]
      exact .inl ⟨rfl, fun hok => absurd hok Bool.false_ne_true⟩
    · rw [if_neg hw]
      refine .inr fun h => ?_
      have htype : requestRestart = requestErrorRate := h _ (List.mem_singleton_self _)
      exact absurd htype (by decide)
  · simp only [if_neg hmany]
    cases hreq : (discard x x.retransmit.indexMax).2 with
    | nil => exact .inl ⟨w.taken_nil, fun _ => rfl⟩
    | cons block blocks =>
      by_cases hw : w = .fwriteFails
      · rw [hw]
        exact .inl ⟨rfl, fun hok => by simp [WriteResult.flushed] at hok⟩
      · refine .inr fun h => ?_
        have htype : requestRetransmit = requestErrorRate := h _ (WriteResult.head_mem_taken hw)
        exact absurd htype (by decide)

-- ---------------------------------------------------------------------------
-- The statistics
-- ---------------------------------------------------------------------------

theorem sendErrorRate_eased (w : WriteResult) (hnone : x.stats.thisRetransmits = 0)
    (h₀ : 0 ≤ c) (hc : c < maxBlocksQueued) :
    Eased param x.stats.errorRate (sendErrorRate param c w x).records
      (sendErrorRate param c w x).xfer.stats.errorRate := by
  have hfill : c / maxBlocksQueued = 0 := Int.ediv_eq_zero_of_lt h₀ hc
  have hrate : param.history / 100 * x.stats.errorRate + (1 - param.history / 100) * 500 * 100 *
      (0 / (1 + 0 + x.stats.totalBlocks - x.stats.thisBlocks) + 0) =
        param.feedback * x.stats.errorRate := by
    rw [Parameter.feedback]
    ring
  simp only [sendErrorRate, hfill, hnone, Nat.cast_zero, Int.cast_zero, hrate,
    WriteResult.taken_singleton]
  split
  · rename_i hflushed
    rw [if_neg (by rintro rfl; cases hflushed)]
    exact .report rfl (Nat.mod_le ..)
  · simp only
    split
    · exact .unsent
    · exact .report rfl (Nat.mod_le ..)

theorem sendStats_eased (h : OnlyReports (sendStats param o x).records) (h₀ : 0 ≤ o.countData)
    (hc : o.countData < maxBlocksQueued) :
    Eased param x.stats.errorRate (sendStats param o x).records
      (sendStats param o x).xfer.stats.errorRate := by
  have hrate := ttpRepeatRetransmit_rate o.atRepeat x
  have hcases := repeat_cases o.atRepeat x
  rcases sendStats_cases param o x with heq | ⟨hok, heq⟩ | heq
  · rw [heq]
    exact .silent
  · rw [heq] at h ⊢
    obtain ⟨hnone, hcount⟩ := hcases.resolve_right (not_not.mpr h.of_append.1)
    simp only [hnone, List.nil_append]
    rw [← hrate]
    exact sendErrorRate_eased _ (hcount hok) h₀ hc
  · rw [heq] at h ⊢
    obtain ⟨hnone, -⟩ := hcases.resolve_right (not_not.mpr h)
    simp only [hnone, hrate]
    exact .silent

theorem terminate_records (param : Parameter) (o : Oracle) (x : Transfer) :
    (terminate param o x).records = [] ∨
      ∃ y, (terminate param o x).records = (ttpRepeatRetransmit o.atTerminate y).records := by
  simp only [terminate]
  split
  · exact .inl rfl
  · split
    · exact .inl rfl
    · split
      · exact .inl rfl
      · exact .inr ⟨_, rfl⟩

theorem control_records (param : Parameter) (o : Oracle) (x : Transfer) (b ty : Nat) :
    (control param o x b ty).records = [] ∨
      ∃ y, (control param o x b ty).records = (ttpRepeatRetransmit o.atTerminate y).records := by
  simp only [control]
  split
  · exact .inl rfl
  · split
    · exact .inl rfl
    · split
      · exact terminate_records ..
      · exact .inl rfl

theorem control_silent (h : OnlyReports (control param o x b ty).records) :
    (control param o x b ty).records = [] := by
  rcases control_records param o x b ty with hnone | ⟨y, hrepeat⟩
  · exact hnone
  · rw [hrepeat] at h ⊢
    exact ((repeat_cases _ y).resolve_right (not_not.mpr h)).1

theorem controlAndStats_eased (h : OnlyReports (controlAndStats param o x b ty).records)
    (h₀ : 0 ≤ o.countData) (hc : o.countData < maxBlocksQueued) :
    Eased param x.stats.errorRate (controlAndStats param o x b ty).records
      (controlAndStats param o x b ty).xfer.stats.errorRate := by
  have hrate := control_rate param o x b ty
  simp only [controlAndStats] at h ⊢
  split at h
  · rename_i hnext
    rw [if_pos hnext]
    obtain ⟨hctl, hstats⟩ := h.of_append
    have heased := sendStats_eased hstats h₀ hc
    rw [hrate] at heased
    rw [control_silent hctl, List.nil_append]
    exact heased
  · rename_i hnext
    rw [if_neg hnext, control_silent h, hrate]
    exact .silent

-- ---------------------------------------------------------------------------
-- Every step
-- ---------------------------------------------------------------------------

def Roomy (s : CommandGet) : Event → Prop
  | .look _ | .control _ => s.ring.ring.countData < maxBlocksQueued
  | _ => True

instance (s : CommandGet) (e : Event) : Decidable (Roomy s e) :=
  match e with
  | .look _ | .control _ => inferInstanceAs (Decidable (s.ring.ring.countData < maxBlocksQueued))
  | .recv _ | .recvFails _ | .reserve | .wake | .copy | .confirm | .requestStop _ | .join | .count
  | .peek | .accept _ | .pop => isTrue trivial

variable {cfg : Config} {s t : CommandGet} {e : Event} {rs : List Retransmission}

theorem still_eased (hsent : t.sent = s.sent ++ rs) (hsame : t.sent = s.sent)
    (hrate : t.xfer.stats.errorRate = s.xfer.stats.errorRate) :
    Eased param s.xfer.stats.errorRate rs t.xfer.stats.errorRate := by
  rw [hsame, List.self_eq_append_right] at hsent
  rw [hsent, hrate]
  exact .silent

theorem finish_eased {r : Result} (hsent : (s.finish r).sent = s.sent ++ rs) (hr : OnlyReports rs)
    (h : OnlyReports r.records → Eased param rate r.records r.xfer.stats.errorRate) :
    Eased param rate rs (s.finish r).xfer.stats.errorRate := by
  rw [List.append_cancel_left hsent] at h
  exact h hr

theorem look_eased (hring : RingInv s.ring) (hroom : s.ring.ring.countData < maxBlocksQueued)
    (hsent : (s.look cfg o).sent = s.sent ++ rs) (hr : OnlyReports rs) :
    Eased cfg.param s.xfer.stats.errorRate rs (s.look cfg o).xfer.stats.errorRate := by
  have hrate := countReceived_rate s.xfer (blockType s.localDatagram)
  rw [← hrate]
  simp only [CommandGet.look] at hsent ⊢
  split at hsent
  · rename_i hnew
    rw [if_pos hnew]
    split at hsent
    · rename_i hgot
      rw [if_pos hgot]
      exact finish_eased hsent hr fun h => controlAndStats_eased h hring.data hroom
    · rename_i hgot
      rw [if_neg hgot]
      rw [List.self_eq_append_right.mp hsent]
      exact .silent
  · rename_i hnew
    rw [if_neg hnew]
    exact finish_eased hsent hr fun h => sendStats_eased h hring.data hroom

theorem step_eased (hring : RingInv s.ring) (hroom : Roomy s e) (hs : s.step cfg e = some t)
    (hsent : t.sent = s.sent ++ rs) (hr : OnlyReports rs) :
    Eased cfg.param s.xfer.stats.errorRate rs t.xfer.stats.errorRate := by
  cases step_cases hs with
  | recvFails =>
    rw [← List.append_cancel_left hsent] at hr ⊢
    rw [((repeat_cases _ _).resolve_right (not_not.mpr hr)).1, ttpRepeatRetransmit_rate]
    exact .silent
  | look => exact look_eased hring hroom hsent hr
  | control => exact finish_eased hsent hr fun h => controlAndStats_eased h hring.data hroom
  | requestStop =>
    have hstop := List.append_cancel_left hsent
    rw [← hstop] at hr ⊢
    simp only [ttpRequestStop, WriteResult.taken_singleton] at hr ⊢
    split at hr
    · rename_i hw
      rw [if_pos hw]
      exact .silent
    · have htype : requestStop = requestErrorRate := hr _ (List.mem_singleton_self _)
      exact absurd htype (by decide)
  | accept =>
    refine still_eased hsent ?_ ?_ <;>
    · simp only [CommandGet.accept]
      split <;> rfl
  | recv | reserve | wake | copy | confirm | confirmStop | join | count | counted | peek | pop =>
    exact still_eased hsent rfl rfl

-- ---------------------------------------------------------------------------
-- Many steps
-- ---------------------------------------------------------------------------

/-- From a rate of at most `start` on: every report has brought the rate down by
the factor, and has told it. -/
structure Easing (param : Parameter) (start : ℚ) (new : List Retransmission) (rate : ℚ) : Prop where
  low : rate ≤ param.feedback ^ new.length * start
  reports : ∀ j r, new[j]? = some r → r.errorRate ≤ ⌊param.feedback ^ (j + 1) * start⌋.toNat

theorem easing_nil (h : rate ≤ start) : Easing param start [] rate where
  low := by rwa [List.length_nil, pow_zero, one_mul]
  reports := by
    intro j r hr
    cases hr

theorem Parameter.feedback_nonneg (param : Parameter) : 0 ≤ param.feedback :=
  div_nonneg (Nat.cast_nonneg _) (by norm_num)

theorem Parameter.feedback_le_one (h : param.history ≤ 100) : param.feedback ≤ 1 := by
  refine div_le_one_of_le₀ ?_ (by norm_num)
  exact_mod_cast h

theorem Easing.step (hh : param.history ≤ 100) (hstart : 0 ≤ start)
    (h : Easing param start new rate) (he : Eased param rate rs rate') :
    Easing param start (new ++ rs) rate' := by
  have h₀ := param.feedback_nonneg
  have h₁ := Parameter.feedback_le_one hh
  have hstep := Damping.step_le h₀ h.low
  cases he with
  | silent => rwa [List.append_nil]
  | unsent =>
    rw [List.append_nil]
    exact ⟨hstep.trans (Damping.pow_mul_anti h₀ h₁ hstart (Nat.le_succ _)), h.reports⟩
  | @report r htype hrate =>
    refine ⟨?_, fun j q hq => ?_⟩
    · rwa [List.length_append, List.length_singleton]
    · rcases Nat.lt_or_ge j new.length with hlt | hge
      · rw [List.getElem?_append_left hlt] at hq
        exact h.reports j q hq
      · rw [List.getElem?_append_right hge, List.getElem?_singleton] at hq
        split at hq
        · rename_i hj
          obtain rfl : j = new.length := by omega
          cases hq
          exact hrate.trans (Int.toNat_le_toNat (Int.floor_le_floor hstep))
        · cases hq

end Tsunami.Client
