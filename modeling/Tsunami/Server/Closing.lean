import Tsunami.Server.HandlerLaws

/-!
# When the client has closed the connection

`read` then returns 0, and leaves `errno` as the last failing call has set it.
The loop looks at both.
-/

namespace Tsunami.Server

open Transition

/-- What `read` does on the non-blocking control socket. It returns 0 where the
client has closed the connection. -/
inductive ReadCall
  | data (bytes : List UInt8)
  | closed
  | failed (errno : Nat)
  deriving DecidableEq, Repr

/-- What the loop looks at afterwards, where `errno` was `e` before. -/
def ReadCall.result (e : Nat) : ReadCall → ReadResult
  | .data bytes => .data bytes
  | .closed => .nothing e
  | .failed errno => .nothing errno

/-- One iteration, with the calls as the system answers them: after the read
the calls that fail set `errno` to the values `failures`, one after the other. -/
structure Round where
  now : Nat
  read : ReadCall
  sendOk : Bool
  checkAt : Nat
  reportAt : Nat
  timeoutAt : Nat
  failures : List Nat
  deriving DecidableEq, Repr

def Round.input (r : Round) (e : Nat) : Input where
  now := r.now
  read := r.read.result e
  sendOk := r.sendOk
  checkAt := r.checkAt
  reportAt := r.reportAt
  timeoutAt := r.timeoutAt

def Round.errors (r : Round) : List Nat :=
  match r.read with
  | .failed errno => errno :: r.failures
  | _ => r.failures

structure Connection where
  handler : Handler
  errno : Nat
  deriving DecidableEq, Repr

def connectionLoop (cfg : Config) : System Connection Round where
  init c := Starts c.handler
  step c r :=
    ((transferLoop cfg).step c.handler (r.input c.errno)).map fun h =>
      ⟨h, r.errors.getLastD c.errno⟩

variable {cfg : Config} {c c' : Connection} {r : Round} {rs : List Round}

theorem connection_step (hs : (connectionLoop cfg).step c r = some c') :
    (transferLoop cfg).step c.handler (r.input c.errno) = some c'.handler ∧
      c'.errno = r.errors.getLastD c.errno := by
  simp only [connectionLoop, Option.map_eq_some_iff] at hs
  obtain ⟨h, hh, rfl⟩ := hs
  exact ⟨hh, rfl⟩

theorem getLastD_append (xs ys : List Nat) (e : Nat) :
    (xs ++ ys).getLastD e = ys.getLastD (xs.getLastD e) := by
  cases ys using List.reverseRecOn with
  | nil => simp
  | append_singleton => simp

theorem connection_errno (hr : (connectionLoop cfg).run c rs = some c') :
    c'.errno = (rs.flatMap Round.errors).getLastD c.errno := by
  induction rs generalizing c with
  | nil =>
    cases hr
    rfl
  | cons r rs ih =>
    obtain ⟨c₁, hs, hr⟩ := System.run_cons.mp hr
    rw [ih hr, (connection_step hs).2, List.flatMap_cons, getLastD_append]

theorem connection_atHead (hc : AtHead cfg c.handler)
    (hr : (connectionLoop cfg).run c rs = some c') : AtHead cfg c'.handler := by
  induction rs generalizing c with
  | nil =>
    cases hr
    exact hc
  | cons r rs ih =>
    obtain ⟨c₁, hs, hr⟩ := System.run_cons.mp hr
    exact ih (step_atHead hc (connection_step hs).1) hr

/-- In any run, a connection found closed ends it exactly where the last call
that has failed so far did not fail with `EAGAIN`. -/
theorem closed_is_fatal_iff (hc : Starts c.handler) (hr : (connectionLoop cfg).run c rs = some c')
    (hclosed : r.read = .closed) :
    c'.handler.iteration cfg (r.input c'.errno) = .fatal ↔
      (rs.flatMap Round.errors).getLastD c.errno ≠ eagain := by
  have hat := connection_atHead (hc.atHead cfg) hr
  have hread : (r.input c'.errno).read = .nothing c'.errno := by
    simp only [Round.input, hclosed, ReadCall.result]
  have hv : (r.input c'.errno).Valid c'.handler := by
    rw [Input.Valid, hread]
    trivial
  rw [iteration_fatal_iff hat.block (Nat.le_of_lt hat.retransmitlen) hv, hread,
    ← connection_errno hr]
  constructor
  · rintro ⟨errno, heq, herr⟩
    cases heq
    exact herr
  · exact fun herr => ⟨_, rfl, herr⟩

def threeBlocks : Config := ⟨[5, 6, 7], 1, 3, 7500, 25, 24, 5, 6, 10, 15, false⟩

def opened : Connection := ⟨.create 0 (List.replicate 7 0) (List.replicate 12 0) 0, 0⟩

def roundOf (read : ReadCall) (failures : List Nat) : Round :=
  ⟨0, read, failures.isEmpty, 0, 0, 0, failures⟩

/-- Nothing to read, no space to send (`ENOBUFS`); then the client is gone. -/
theorem closed_is_fatal_iff_after_enobufs :
    ∃ c, (connectionLoop threeBlocks).run opened [roundOf (.failed eagain) [105]] = some c ∧
      c.handler.iteration threeBlocks ((roundOf .closed []).input c.errno) = .fatal := by
  have hstart : Starts opened.handler := ⟨rfl, rfl⟩
  have hrun : ∃ c, (connectionLoop threeBlocks).run opened [roundOf (.failed eagain) [105]] =
    some c := ⟨_, rfl⟩
  obtain ⟨c, hr⟩ := hrun
  exact ⟨c, hr, (closed_is_fatal_iff hstart hr rfl).mpr (by decide)⟩

/-- Nothing to read; then the client is gone, and the next block is sent to it. -/
theorem closed_unnoticed :
    ∃ c h, (connectionLoop threeBlocks).run opened [roundOf (.failed eagain) []] = some c ∧
      c.handler.iteration threeBlocks ((roundOf .closed []).input c.errno) = .running h ∧
      h.sent = c.handler.sent ++ [header 2 tsBlockOriginal ++ [6]] :=
  ⟨_, _, rfl, rfl, by decide +kernel⟩

end Tsunami.Server
