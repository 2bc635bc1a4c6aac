import Mathlib.Algebra.Order.Field.Rat
import Mathlib.Tactic.Linarith
import Tsunami.Server.ProtocolLaws

/-!
# Which way a loss report moves the delay

The delay between packets is multiplied, and then clamped between the
negotiated one and ten milliseconds. It starts at three times the negotiated
one, which need not lie in that range.
-/

namespace Tsunami.Server

variable {cfg : Config} {s : Sender} {ipd : ℚ} {losses : Nat}

section
variable {α : Type*} [LinearOrder α] {lo hi x y : α}

theorem le_clamp (hx : x ≤ max hi lo) (hy : x ≤ y) : x ≤ max (min y hi) lo := by
  rcases le_max_iff.mp hx with hhi | hlo
  · exact le_max_of_le_left (le_min hy hhi)
  · exact le_max_of_le_right hlo

theorem clamp_le (hx : lo ≤ x) (hy : y ≤ x) : max (min y hi) lo ≤ x :=
  max_le (min_le_of_left_le hy) hx

theorem clamp_le_max : max (min y hi) lo ≤ max hi lo := max_le_max_right lo (min_le_right y hi)

end

/-- The factors slow down and speed up as they say. -/
structure Config.Steady (cfg : Config) : Prop where
  slowerDen : 0 < cfg.slowerDen
  slower : cfg.slowerDen ≤ cfg.slowerNum
  fasterNum : 0 < cfg.fasterNum
  faster : cfg.fasterNum ≤ cfg.fasterDen
  errorRate : cfg.errorRate < 100000

def openedIpd (cfg : Config) : ℚ := u32 (cfg.ipdTime * 3)

structure InRange (cfg : Config) (ipd : ℚ) : Prop where
  low : cfg.ipdTime ≤ ipd
  high : ipd ≤ max 10000 (cfg.ipdTime : ℚ)

theorem InRange.nonneg (h : InRange cfg ipd) : 0 ≤ ipd := (Nat.cast_nonneg _).trans h.low

theorem adjustIpd_inRange (cfg : Config) (ipd : ℚ) (losses : Nat) :
    InRange cfg (adjustIpd cfg ipd losses) := ⟨le_max_right .., clamp_le_max⟩

theorem one_le_slower (hc : cfg.Steady) : (1 : ℚ) ≤ cfg.slowerNum / cfg.slowerDen := by
  have hpos : (0 : ℚ) < cfg.slowerDen := by exact_mod_cast hc.slowerDen
  rw [one_le_div₀ hpos]
  exact_mod_cast hc.slower

theorem one_le_factor (hc : cfg.Steady) (h : cfg.errorRate < losses) :
    (1 : ℚ) ≤ 1 + ((cfg.slowerNum / cfg.slowerDen : ℚ) - 1) *
      ((1 + losses - cfg.errorRate) / (100000 - cfg.errorRate)) := by
  have hslower := one_le_slower hc
  have hbelow : (cfg.errorRate : ℚ) < 100000 := by exact_mod_cast hc.errorRate
  have habove : (cfg.errorRate : ℚ) < losses := by exact_mod_cast h
  have hshare : (0 : ℚ) ≤ (1 + losses - cfg.errorRate) / (100000 - cfg.errorRate) :=
    div_nonneg (by linarith) (by linarith)
  have hmore := mul_nonneg (sub_nonneg.mpr hslower) hshare
  linarith

theorem faster_le_one (hc : cfg.Steady) : (cfg.fasterNum / cfg.fasterDen : ℚ) ≤ 1 := by
  refine div_le_one_of_le₀ ?_ (Nat.cast_nonneg _)
  exact_mod_cast hc.faster

theorem le_adjustIpd (hc : cfg.Steady) (h : cfg.errorRate < losses) (hipd : InRange cfg ipd) :
    ipd ≤ adjustIpd cfg ipd losses := by
  rw [adjustIpd, if_pos h]
  exact le_clamp hipd.high (le_mul_of_one_le_right hipd.nonneg (one_le_factor hc h))

theorem adjustIpd_le (hc : cfg.Steady) (h : ¬cfg.errorRate < losses) (hlow : cfg.ipdTime ≤ ipd) :
    adjustIpd cfg ipd losses ≤ ipd := by
  rw [adjustIpd, if_neg h]
  exact clamp_le hlow
    (mul_le_of_le_one_right ((Nat.cast_nonneg _).trans hlow) (faster_le_one hc))

-- ---------------------------------------------------------------------------
-- Requests one after the other
-- ---------------------------------------------------------------------------

structure Request where
  record : List UInt8
  sendOk : Bool
  deriving DecidableEq, Repr

def Request.rate (q : Request) : Nat := (Retransmission.decode q.record).errorRate

def Request.Reports (q : Request) : Prop :=
  (Retransmission.decode q.record).requestType = requestErrorRate

instance : DecidablePred Request.Reports := fun _ => inferInstanceAs (Decidable (_ = _))

def Sender.accept (cfg : Config) (s : Sender) (q : Request) : Sender :=
  (ttpAcceptRetransmit cfg q.sendOk s q.record).sender

structure MovesRightly (cfg : Config) (s : Sender) (q : Request) : Prop where
  slower : cfg.errorRate < q.rate → s.ipdCurrent ≤ (s.accept cfg q).ipdCurrent
  faster : ¬cfg.errorRate < q.rate → (s.accept cfg q).ipdCurrent ≤ s.ipdCurrent

def AllMoveRightly (cfg : Config) : Sender → List Request → Prop
  | _, [] => True
  | s, q :: qs => (q.Reports → MovesRightly cfg s q) ∧ AllMoveRightly cfg (s.accept cfg q) qs

theorem accept_report {q : Request} (h : q.Reports) :
    (s.accept cfg q).ipdCurrent = adjustIpd cfg s.ipdCurrent q.rate := by
  rw [Request.Reports] at h
  simp only [Sender.accept, ttpAcceptRetransmit, h, if_true]
  rfl

theorem accept_other {q : Request} (h : ¬q.Reports) :
    (s.accept cfg q).ipdCurrent = s.ipdCurrent := by
  have hanswer := ttpAcceptRetransmit_answers cfg q.sendOk s q.record
  rw [Sender.accept]
  generalize ttpAcceptRetransmit cfg q.sendOk s q.record = a at hanswer ⊢
  obtain ⟨sender, record, sent, ok⟩ := a
  cases hanswer with
  | errorRate herror => exact absurd herror h
  | _ => rfl

theorem accept_inRange (h : InRange cfg s.ipdCurrent) (q : Request) :
    InRange cfg (s.accept cfg q).ipdCurrent := by
  by_cases hq : q.Reports
  · rw [accept_report hq]
    exact adjustIpd_inRange ..
  · rwa [accept_other hq]

theorem allMoveRightly_of_inRange (hc : cfg.Steady) (h : InRange cfg s.ipdCurrent)
    (qs : List Request) : AllMoveRightly cfg s qs := by
  induction qs generalizing s with
  | nil => trivial
  | cons q qs ih =>
    refine ⟨fun hq => ⟨fun hrate => ?_, fun hrate => ?_⟩, ih (accept_inRange h q)⟩
    · rw [accept_report hq]
      exact le_adjustIpd hc hrate h
    · rw [accept_report hq]
      exact adjustIpd_le hc hrate h.low

/-- Above the range the first report decides: it brings the delay down. -/
theorem allMoveRightly_above_iff (hc : cfg.Steady) (hlow : cfg.ipdTime ≤ s.ipdCurrent)
    (h : max 10000 (cfg.ipdTime : ℚ) < s.ipdCurrent) (qs : List Request) :
    AllMoveRightly cfg s qs ↔
      ∀ q, qs.find? (fun q => q.Reports) = some q → ¬cfg.errorRate < q.rate := by
  induction qs generalizing s with
  | nil => simp [AllMoveRightly]
  | cons q qs ih =>
    by_cases hq : q.Reports
    · have hfind : (q :: qs).find? (fun q => q.Reports) = some q := by simp [hq]
      rw [hfind]
      have hipd : (s.accept cfg q).ipdCurrent = _ := accept_report hq
      constructor
      · rintro ⟨hmove, -⟩ p ⟨rfl⟩ hrate
        have hle := (hmove hq).slower hrate
        rw [hipd] at hle
        exact absurd (hle.trans (adjustIpd_inRange ..).high) (not_le.mpr h)
      · intro hfirst
        refine ⟨fun _ => ⟨fun hrate => absurd hrate (hfirst q rfl), fun hrate => ?_⟩, ?_⟩
        · rw [hipd]
          exact adjustIpd_le hc hrate hlow
        · refine allMoveRightly_of_inRange hc ?_ qs
          rw [hipd]
          exact adjustIpd_inRange ..
    · have hfind : (q :: qs).find? (fun q => q.Reports) = qs.find? fun q => q.Reports := by
        simp [hq]
      have hipd : (s.accept cfg q).ipdCurrent = _ := accept_other hq
      rw [hfind, ← ih (hipd ▸ hlow) (hipd ▸ h)]
      exact ⟨And.right, fun hrest => ⟨fun hyes => absurd hyes hq, hrest⟩⟩

def slowConfig : Config := ⟨[], 5000, 0, 7500, 25, 24, 5, 6, 4000, 15, false⟩

def slowSender : Sender := ⟨0, openedIpd slowConfig, 0, [], 0⟩

def report (losses : Nat) : Request := ⟨(Retransmission.mk requestErrorRate 0 losses).encode, true⟩

/-- From the delay a transfer starts with, every report moves it rightly where
that lies in the range of the clamp, or the first report is of few losses. -/
theorem loss_reports_move_rightly_iff (hc : cfg.Steady) (hwrap : cfg.ipdTime * 3 < 2 ^ 32)
    (hs : s.ipdCurrent = openedIpd cfg) (qs : List Request) :
    AllMoveRightly cfg s qs ↔
      cfg.ipdTime * 3 ≤ 10000 ∨
        ∀ q, qs.find? (fun q => q.Reports) = some q → ¬cfg.errorRate < q.rate := by
  have hopen : s.ipdCurrent = (cfg.ipdTime : ℚ) * 3 := by
    rw [hs, openedIpd, u32_of_lt hwrap]
    push_cast
    rfl
  have hpos : (0 : ℚ) ≤ cfg.ipdTime := Nat.cast_nonneg _
  have hlow : (cfg.ipdTime : ℚ) ≤ s.ipdCurrent := by
    rw [hopen]
    linarith
  by_cases hfits : cfg.ipdTime * 3 ≤ 10000
  · have hle : (cfg.ipdTime : ℚ) * 3 ≤ 10000 := by exact_mod_cast hfits
    have hrange : InRange cfg s.ipdCurrent := ⟨hlow, hopen ▸ le_max_of_le_left hle⟩
    exact ⟨fun _ => .inl hfits, fun _ => allMoveRightly_of_inRange hc hrange qs⟩
  · have hlt : (10000 : ℚ) < cfg.ipdTime * 3 := by exact_mod_cast Nat.lt_of_not_le hfits
    have habove : max 10000 (cfg.ipdTime : ℚ) < s.ipdCurrent := by
      rw [hopen]
      exact max_lt hlt (by linarith)
    rw [allMoveRightly_above_iff hc hlow habove, or_iff_right hfits]

/-- Three reports at a low target rate, of which only the second is of many
losses. -/
theorem loss_reports_move_rightly_iff_slow :
    AllMoveRightly slowConfig slowSender [report 0, report 100000, report 7500] :=
  (loss_reports_move_rightly_iff ⟨by decide, by decide, by decide, by decide, by decide⟩ (by decide)
    rfl [report 0, report 100000, report 7500]).mpr
    (.inr fun q hq => by
      obtain rfl : report 0 = q := Option.some.inj hq
      decide)

/-- The delay starts at twelve milliseconds; a report of total loss brings it
down to ten. -/
theorem loss_report_speeds_up :
    ¬AllMoveRightly slowConfig slowSender [report 100000] ∧
    slowSender.ipdCurrent = 12000 ∧
      (slowSender.accept slowConfig (report 100000)).ipdCurrent = 10000 := by
  have hafter : (slowSender.accept slowConfig (report 100000)).ipdCurrent = 10000 := by
    decide +kernel
  refine ⟨fun hall => ?_, by decide +kernel, hafter⟩
  have hle := (hall.1 (by decide)).slower (by decide)
  rw [hafter] at hle
  exact absurd hle (by decide +kernel)

end Tsunami.Server
