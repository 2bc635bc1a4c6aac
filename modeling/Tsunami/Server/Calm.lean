import Tsunami.Lib.Damping
import Tsunami.Server.Answering
import Tsunami.Server.LossReports

/-!
# A server whose client is heard

While no loss report of the server's own comes between, what is acted on is what
was written, and a delay that the reports bring down comes down to the one that
was negotiated.
-/

namespace Tsunami.Server

open Bytes Transition

variable {cfg : Config} {l : Layout} {records : List Retransmission} {h h' : Handler} {i : Input}
  {v w : Serving}

/-- A turn without a loss report: the next record is acted on, or read in part. -/
inductive Heard (cfg : Config) (h : Handler) (i : Input) (h' : Handler) : Prop
  | request : (h.fill i.read).retransmitlen = sizeofRetransmission →
      h'.acted = h.acted ++ [Retransmission.decode (h.fill i.read).retransmission] →
      h'.sender.ipdCurrent =
        (h.sender.accept cfg ⟨(h.fill i.read).retransmission, i.sendOk⟩).ipdCurrent →
      h'.retransmitlen = 0 → Heard cfg h i h'
  | part : h'.acted = h.acted → h'.sender.ipdCurrent = h.sender.ipdCurrent →
      h'.retransmission = (h.fill i.read).retransmission →
      h'.retransmitlen = (h.fill i.read).retransmitlen → Heard cfg h i h'

theorem fill_reportDue (h : Handler) (r : ReadResult) : (h.fill r).reportDue i = h.reportDue i := by
  cases r <;> rfl

theorem heard_turn (hl : h.retransmitlen ≤ sizeofRetransmission) (hv : i.Valid h)
    (hdue : h.reportDue i = false) (ho : h.iteration cfg i = .running h') : Heard cfg h i h' := by
  have hturn : Turn cfg h i (h.iteration cfg i) := iteration_turn hl hv
  rw [ho] at hturn
  generalize hout : Outcome.running h' = out at hturn
  cases hturn with
  | left | fatal | stop => cases hout
  | request hfull hstop =>
    obtain ⟨c, hbeat⟩ := unreported_heartbeat cfg (served_unreported cfg (h.fill i.read) i)
    rw [hbeat] at hout
    cases hout
    refine .request hfull ?_ ?_ rfl
    · simp [Handler.served]
    · simp [Handler.served, Sender.accept]
  | block hpart hsend =>
    let u : Handler := { (h.fill i.read).blasted cfg with
      sent := h.sent ++ [((h.fill i.read).blasted cfg).sender.packet cfg] }
    have hnot : u.reportDue i = false := (fill_reportDue h i.read).trans hdue
    obtain ⟨c, hbeat⟩ := unreported_heartbeat cfg hnot
    rw [hbeat] at hout
    cases hout
    exact .part (by simp [u, Handler.blasted]) (by simp [u, Handler.blasted, buildDatagram]) rfl rfl
  | unsent hpart hsend =>
    cases hout
    exact .part (by simp [Handler.blasted]) (by simp [Handler.blasted, buildDatagram]) rfl rfl

-- ---------------------------------------------------------------------------
-- Reports that bring the delay down
-- ---------------------------------------------------------------------------

def Config.faster (cfg : Config) : ℚ := cfg.fasterNum / cfg.fasterDen

theorem adjustIpd_few (ipd : ℚ) (h : losses ≤ cfg.errorRate) :
    adjustIpd cfg ipd losses = Damping.damp cfg.faster cfg.ipdTime 10000 ipd := by
  rw [adjustIpd, if_neg (Nat.not_lt.mpr h)]
  rfl

/-- Record `known` and those behind it are read as they are written. Record
`quiet` and those behind it have brought the delay down. -/
structure Regaining (cfg : Config) (records : List Retransmission) (known quiet : Nat)
    (h : Handler) : Prop where
  pending : known ≤ h.acted.length → Pending records h.acted.length h
  low : quiet < h.acted.length → cfg.ipdTime ≤ h.sender.ipdCurrent
  high : ∀ n, quiet + n < h.acted.length →
    h.sender.ipdCurrent ≤ max (10000 * cfg.faster ^ n) cfg.ipdTime

def Quiet (cfg : Config) (records : List Retransmission) (quiet : Nat) : Prop :=
  ∀ k r, quiet ≤ k → records[k]? = some r →
    r.requestType = requestErrorRate ∧ r.errorRate ≤ cfg.errorRate

theorem Pending.grow (h : Pending records k v.handler) (hpre : records <+: records')
    (hle : sizeofRetransmission * k + v.handler.retransmitlen ≤ (stream records).length) :
    Pending records' k v.handler := by
  obtain ⟨more, rfl⟩ := hpre
  have happ : stream (records ++ more) = stream records ++ stream more := by
    simp [stream]
  refine ⟨h.length, ?_⟩
  rw [h.bytes, happ, List.drop_append_of_le_length (by omega),
    List.take_append_of_le_length (by rw [List.length_drop]; omega)]

theorem Regaining.heard (hc : cfg.Steady) (hfits : ∀ r ∈ records, r.Fits) (hknown : known ≤ quiet)
    (hquiet : Quiet cfg records quiet) (h : Regaining cfg records known quiet v.handler)
    (hl : v.handler.retransmitlen < sizeofRetransmission) (hv : i.Valid v.handler)
    (hcons : v.consumed =
      sizeofRetransmission * v.handler.acted.length + v.handler.retransmitlen)
    (hn : v.consumed ≤ (stream records).length)
    (hf : i.read.Follows (stream records) v.consumed) (hheard : Heard cfg v.handler i h')
    (hlen : h'.retransmission.length = sizeofRetransmission) :
    Regaining cfg records known quiet h' := by
  have hle := follows_length hf hn
  have hsize := fill_size v.handler i.read
  have hfill : known ≤ v.handler.acted.length →
      Pending records v.handler.acted.length (v.handler.fill i.read) :=
    fun hk => fill_pending (h.pending hk) hv (hcons ▸ hf) hl
  cases hheard with
  | request hfull hacted hipd hzero =>
    have hlength : h'.acted.length = v.handler.acted.length + 1 := by
      rw [hacted, List.length_append, List.length_singleton]
    have hmore : v.handler.acted.length < records.length := by
      simp only [sizeofRetransmission] at hle hcons hfull
      omega
    have hdamped : quiet ≤ v.handler.acted.length → h'.sender.ipdCurrent =
        Damping.damp cfg.faster cfg.ipdTime 10000 v.handler.sender.ipdCurrent := by
      intro hk
      have hdec := pending_whole (hfill (hknown.trans hk)) hfull hfits hmore
      obtain ⟨htype, hrate⟩ := hquiet _ _ hk (List.getElem?_eq_getElem hmore)
      rw [← hdec] at htype hrate
      have hreports :
          Request.Reports ⟨(v.handler.fill i.read).retransmission, i.sendOk⟩ := htype
      rw [hipd, accept_report hreports]
      exact adjustIpd_few _ hrate
    refine ⟨fun _ => ⟨hlen, by simp [hzero]⟩, fun hk => ?_, fun n hk => ?_⟩
    · rw [hdamped (by omega)]
      exact Damping.le_damp ..
    · rw [hdamped (by omega)]
      cases n with
      | zero =>
        rw [pow_zero, mul_one]
        exact Damping.damp_le_max ..
      | succ n =>
        refine Damping.damp_le ?_ (faster_le_one hc) (Nat.cast_nonneg _) (h.high n (by omega))
        exact div_nonneg (Nat.cast_nonneg _) (Nat.cast_nonneg _)
  | part hacted hipd hrecord hlen' =>
    rw [← hacted] at hfill
    refine ⟨fun hk => ⟨hlen, ?_⟩, ?_, ?_⟩
    · rw [hrecord, hlen']
      exact (hfill hk).bytes
    · rw [hacted, hipd]
      exact h.low
    · rw [hacted, hipd]
      exact h.high

end Tsunami.Server
