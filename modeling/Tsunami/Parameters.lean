import Tsunami.BlockStream
import Tsunami.Control.Negotiation
import Tsunami.Server.Blocks

/-!
# Parameters of the client's choice

The server takes what the client submits. It divides by two of the numbers
while the transfer is opened, and one of them is the number of bytes that it
reads into a buffer of fixed size for every datagram.
-/

namespace Tsunami

open Bytes Transition Duplex Server Control.Negotiation

/-- What `build_datagram` writes for block `b`, header and data, stays inside the
`datagram` of `client_handler`. -/
def Inside (cfg : Server.Config) (s : Sender) (b : Nat) : Prop :=
  6 + ((cfg.file.drop (seek cfg s b)).take cfg.blockSize).length ≤ maxBlockSize + 6

/-- No division traps the server while it opens the transfer, and nothing is
written past the buffer in any run of its loop. -/
structure Unbroken (sp : Control.Server.Parameter) (p : Rates) (file : List UInt8) : Prop where
  untrapped : ∀ s : Setup, s.Fits → s.param = p → s.fileSize = file.length →
    ∀ q, (negotiation s).Reachable q → q.right.script ≠ .halt
  inside : ∀ h₀ is h, Starts h₀ → (transferLoop (p.config sp file)).run h₀ is = some h →
    ∀ i, i.Valid h → ∀ d ∈ h.builds (p.config sp file) i, Inside (p.config sp file) h.sender d.1

variable {cfg : Server.Config} {sp : Control.Server.Parameter} {p : Rates} {file : List UInt8}

theorem untrapped (hb : p.blockSize ≠ 0) (hr : p.targetRate ≠ 0) (s : Setup) (hs : s.Fits)
    (hp : s.param = p) (hq : (negotiation s).Reachable q) : q.right.script ≠ .halt := by
  obtain ⟨q', hq', hends⟩ := negotiation_ends s hs
  intro hhalt
  have hdone := hends.server (hp ▸ hb) (hp ▸ hr)
  exact no_right_result final_goto (reachable_iff.mp hq) hq' hhalt hdone

theorem inside_of_le (h : min cfg.blockSize cfg.file.length ≤ maxBlockSize) (s : Sender) (b : Nat) :
    Inside cfg s b := by
  rw [Inside, List.length_take, List.length_drop]
  omega

def asksFirst : Input :=
  ⟨0, .data (Client.retransmitRequest 1).encode, true, 0, 0, 0⟩

theorem asksFirst_builds (cfg : Server.Config) :
    (Handler.create 0 [] [] 0).builds cfg asksFirst = [(1, tsBlockRetransmission)] := rfl

theorem inside_first (cfg : Server.Config) :
    Inside cfg (Handler.create 0 [] [] 0).sender 1 ↔
      min cfg.blockSize cfg.file.length ≤ maxBlockSize := by
  have hseek : seek cfg (Handler.create 0 [] [] 0).sender 1 = 0 := rfl
  rw [Inside, hseek, List.drop_zero, List.length_take]
  omega

theorem Unbroken.fits (h : Unbroken sp p file) : min p.blockSize file.length ≤ maxBlockSize :=
  (inside_first _).mp (h.inside (.create 0 [] [] 0) [] _ ⟨rfl, rfl⟩ rfl asksFirst
    ⟨Nat.zero_lt_succ 11, Nat.le_refl 12⟩ (1, tsBlockRetransmission)
    (asksFirst_builds _ ▸ List.mem_singleton_self _))

theorem Unbroken.divides (h : Unbroken sp p file) (hp : p.Fits) (hfile : file.length < 2 ^ 64) :
    p.blockSize ≠ 0 ∧ p.targetRate ≠ 0 := by
  have hs : (Setup.mk .little .little p true file.length 0).Fits := ⟨hp, hfile, Nat.two_pow_pos 32⟩
  obtain ⟨q, hq, hends⟩ := negotiation_ends _ hs
  have hrun := h.untrapped _ hs rfl rfl q (reachable_iff.mpr hq)
  exact ⟨fun h₀ => hrun (hends.trapped (.inl h₀)), fun h₀ => hrun (hends.trapped (.inr h₀))⟩

/-- The parameters do not break the server exactly where neither number it
divides by is 0 and the blocks fit the buffer, or the whole file does. -/
theorem parameters_unbroken_iff (sp : Control.Server.Parameter) (hp : p.Fits)
    (hfile : file.length < 2 ^ 64) :
    Unbroken sp p file ↔ p.blockSize ≠ 0 ∧ p.targetRate ≠ 0 ∧
      (p.blockSize ≤ maxBlockSize ∨ file.length ≤ maxBlockSize) := by
  constructor
  · intro h
    obtain ⟨hblock, hrate⟩ := h.divides hp hfile
    exact ⟨hblock, hrate, min_le_iff.mp h.fits⟩
  · rintro ⟨hblock, hrate, hfits⟩
    exact {
      untrapped := fun s hs hp' _ q hq => untrapped hblock hrate s hs hp' hq
      inside := fun _ _ h _ _ _ _ d _ => inside_of_le (min_le_iff.mpr hfits) h.sender d.1 }

def plainServer : Control.Server.Parameter := ⟨[], false, 15, false⟩

theorem parameters_unbroken_iff_default :
    Unbroken plainServer defaultRates (List.replicate 3000 7) :=
  (parameters_unbroken_iff plainServer defaultRates_fits
    (by rw [List.length_replicate]; decide)).mpr ⟨by decide, by decide, .inl (by decide)⟩

/-- A block size of 0 traps the server; one of 65531, with a file that long,
writes a byte past the buffer. -/
theorem parameters_break :
    ¬Unbroken plainServer { defaultRates with blockSize := 0 } [7] ∧
    ¬Unbroken plainServer { defaultRates with blockSize := 65531 } (List.replicate 65531 7) := by
  have hfits : { defaultRates with blockSize := 0 }.Fits :=
    ⟨by decide, by decide, by decide, by decide, by decide, by decide, by decide⟩
  refine ⟨fun h => (h.divides hfits (by decide)).1 rfl, fun h => ?_⟩
  have hfit := h.fits
  rw [List.length_replicate] at hfit
  exact absurd hfit (by decide)

end Tsunami
