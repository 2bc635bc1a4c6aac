import Tsunami.Server.ProtocolLaws
import Tsunami.Server.Reading

/-!
# Requests that name no block

A restart is checked against the number of blocks before anything is done. A
retransmission is not: whatever number it names is looked up in the file, sent,
and remembered as the block built last.
-/

namespace Tsunami.Server

open Bytes

variable {cfg : Config} {f : Fread} {s s' : Sender} {buffer : List UInt8}

theorem readRetransmit_other
    (h : (Retransmission.decode buffer).requestType ≠ requestRetransmit) (cfg : Config) (f : Fread)
    (sendOk : Bool) (s : Sender) :
    readRetransmit cfg f sendOk s buffer = ttpAcceptRetransmit cfg sendOk s buffer := if_neg h

def Illegal (cfg : Config) (r : Retransmission) : Prop :=
  (r.requestType = requestRetransmit ∨ r.requestType = requestRestart) ∧ cfg.Outside r.block

/-- Refused for what the record says: however the read and the send end. -/
def Refused (cfg : Config) (s : Sender) (buffer : List UInt8) : Prop :=
  ∀ f sendOk, (readRetransmit cfg f sendOk s buffer).ok = false

structure Untouched (s s' : Sender) : Prop where
  block : s'.block = s.block
  ipdCurrent : s'.ipdCurrent = s.ipdCurrent
  position : s'.position = s.position
  lastBlock : s'.lastBlock = s.lastBlock

theorem Untouched.refl (s : Sender) : Untouched s s := ⟨rfl, rfl, rfl, rfl⟩

/-- The record is refused where it names no block, and a refusal changes
nothing and sends nothing. -/
structure Validated (cfg : Config) (s : Sender) (buffer : List UInt8) : Prop where
  illegal : Illegal cfg (.decode buffer) → Refused cfg s buffer
  atomic : Refused cfg s buffer → ∀ f sendOk,
    Untouched s (readRetransmit cfg f sendOk s buffer).sender ∧
      (readRetransmit cfg f sendOk s buffer).sent = []

/-- A read that brings nothing at all is no failed read, so the block is sent. -/
theorem retransmit_not_refused
    (h : (Retransmission.decode buffer).requestType = requestRetransmit) :
    ¬Refused cfg s buffer := by
  intro href
  have hok := href ⟨[], false⟩ true
  have hread : ¬(Fread.mk [] false).Negative := Nat.not_le.mpr (by decide)
  simp [readRetransmit, h, readDatagram_nonneg hread] at hok

theorem refused_of_illegal (h : Illegal cfg (.decode buffer))
    (hty : (Retransmission.decode buffer).requestType ≠ requestRetransmit) :
    Refused cfg s buffer := by
  intro f sendOk
  obtain ⟨hkind, hout⟩ := h
  have hrestart := hkind.resolve_left hty
  have hanswer := ttpAcceptRetransmit_answers cfg sendOk s buffer
  rw [readRetransmit_other hty]
  generalize ttpAcceptRetransmit cfg sendOk s buffer = a at hanswer ⊢
  obtain ⟨sender, record, sent, ok⟩ := a
  cases hanswer with
  | errorRate herror => exact absurd (herror.symm.trans hrestart) (by decide)
  | refused => rfl
  | restart _ hin => exact absurd hout hin
  | retransmit hretransmit => exact absurd hretransmit hty
  | unsent => rfl
  | unknown => rfl

theorem refused_atomic (h : Refused cfg s buffer) (f : Fread) (sendOk : Bool) :
    Untouched s (readRetransmit cfg f sendOk s buffer).sender ∧
      (readRetransmit cfg f sendOk s buffer).sent = [] := by
  have hty : (Retransmission.decode buffer).requestType ≠ requestRetransmit :=
    fun hty => retransmit_not_refused hty h
  have hok := h f sendOk
  have hanswer := ttpAcceptRetransmit_answers cfg sendOk s buffer
  rw [readRetransmit_other hty] at hok ⊢
  generalize ttpAcceptRetransmit cfg sendOk s buffer = a at hok hanswer ⊢
  obtain ⟨sender, record, sent, ok⟩ := a
  simp only at hok
  subst hok
  cases hanswer with
  | refused => exact ⟨.refl _, rfl⟩
  | unsent hretransmit => exact absurd hretransmit hty
  | unknown => exact ⟨.refl _, rfl⟩

/-- Records are validated, but for one kind: a retransmission of a block that
is not there. -/
theorem requests_validated_iff (cfg : Config) (s : Sender) (buffer : List UInt8) :
    Validated cfg s buffer ↔
      ¬((Retransmission.decode buffer).requestType = requestRetransmit ∧
        cfg.Outside (Retransmission.decode buffer).block) := by
  constructor
  · rintro hv ⟨hty, hout⟩
    exact retransmit_not_refused hty (hv.illegal ⟨.inl hty, hout⟩)
  · intro h
    exact {
      illegal := fun hill => refused_of_illegal hill fun hty => h ⟨hty, hill.2⟩
      atomic := refused_atomic }

def servedTwo : Sender := ⟨2, 0, 2, List.replicate 7 0, 2⟩

def twoBytes : Config := ⟨[5, 6], 1, 2, 7500, 25, 24, 5, 6, 10, 15, false⟩

def wholeRead (cfg : Config) (s : Sender) (b : Nat) : Fread :=
  ⟨(cfg.file.drop (seek cfg s b)).take cfg.blockSize, false⟩

/-- Block 0 is asked for: it is answered, and block 1, asked for next, follows
block 0, so that no byte of the file is sent for it. -/
theorem block_zero_retransmitted :
    let a := readRetransmit twoBytes (wholeRead twoBytes servedTwo 0) true servedTwo
      (Retransmission.mk requestRetransmit 0 0).encode
    let b := readRetransmit twoBytes (wholeRead twoBytes a.sender 1) true a.sender
      (Retransmission.mk requestRetransmit 1 0).encode
    ¬Validated twoBytes servedTwo (Retransmission.mk requestRetransmit 0 0).encode ∧
    (a.ok, a.sent, a.sender.position, a.sender.lastBlock) =
      (true, [header 0 tsBlockRetransmission ++ [0]], 2 ^ 32 - 1, 0) ∧
    (b.ok, b.sent) = (true, [header 1 tsBlockRetransmission ++ [0]]) := by
  refine ⟨fun hv => ?_, by decide +kernel, by decide +kernel⟩
  have href := hv.illegal ⟨.inl rfl, .inl rfl⟩ ⟨[], false⟩ true
  exact absurd href (by decide +kernel)

end Tsunami.Server
