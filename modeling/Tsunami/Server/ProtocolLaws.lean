import Tsunami.Server.Protocol

/-!
# What a request changes

One law for `ttp_accept_retransmit`: what each kind of request leaves behind,
what is sent for it, and what is returned.
-/

namespace Tsunami.Server

def Config.Outside (cfg : Config) (b : Nat) : Prop := b = 0 ∨ b > cfg.blockCount

instance (cfg : Config) (b : Nat) : Decidable (cfg.Outside b) := inferInstanceAs (Decidable (_ ∨ _))

inductive Answers (cfg : Config) (sendOk : Bool) (s : Sender) (r : Retransmission) :
    Sender → List (List UInt8) → Bool → Prop
  | errorRate : r.requestType = requestErrorRate →
      Answers cfg sendOk s r
        { s with ipdCurrent := adjustIpd cfg s.ipdCurrent r.errorRate } [] true
  | refused : r.requestType = requestRestart → cfg.Outside r.block → Answers cfg sendOk s r s [] false
  | restart : r.requestType = requestRestart → ¬cfg.Outside r.block →
      Answers cfg sendOk s r { s with block := r.block } [] true
  | retransmit : r.requestType = requestRetransmit → sendOk = true →
      Answers cfg sendOk s r (buildDatagram cfg s r.block tsBlockRetransmission)
        [(buildDatagram cfg s r.block tsBlockRetransmission).packet cfg] true
  | unsent : r.requestType = requestRetransmit → sendOk = false →
      Answers cfg sendOk s r (buildDatagram cfg s r.block tsBlockRetransmission) [] false
  | unknown : r.requestType ≠ requestErrorRate → r.requestType ≠ requestRestart →
      r.requestType ≠ requestRetransmit → Answers cfg sendOk s r s [] false

theorem ttpAcceptRetransmit_answers (cfg : Config) (sendOk : Bool) (s : Sender)
    (buffer : List UInt8) :
    Answers cfg sendOk s (.decode buffer) (ttpAcceptRetransmit cfg sendOk s buffer).sender
      (ttpAcceptRetransmit cfg sendOk s buffer).sent
      (ttpAcceptRetransmit cfg sendOk s buffer).ok := by
  unfold ttpAcceptRetransmit
  simp only
  split
  · rename_i herror
    exact .errorRate herror
  · rename_i herror
    split
    · rename_i hrestart
      split
      · rename_i hout
        exact .refused hrestart hout
      · rename_i hin
        exact .restart hrestart hin
    · rename_i hrestart
      split
      · rename_i hretransmit
        cases sendOk with
        | true => exact .retransmit hretransmit rfl
        | false => exact .unsent hretransmit rfl
      · rename_i hretransmit
        exact .unknown herror hrestart hretransmit

theorem Answers.block_le (h : Answers cfg sendOk s r s' sent ok) (hb : s.block ≤ cfg.blockCount) :
    s'.block ≤ cfg.blockCount := by
  cases h with
  | errorRate => exact hb
  | refused => exact hb
  | restart _ hin => exact Nat.not_lt.mp fun hgt => hin (.inr hgt)
  | retransmit => exact hb
  | unsent => exact hb
  | unknown => exact hb

end Tsunami.Server
