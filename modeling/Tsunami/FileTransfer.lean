import Tsunami.Client.Assembly
import Tsunami.Client.Records
import Tsunami.Server.Blocks

/-!
# One transfer

Client and server together, from the end of the negotiation on. The control
channel hands the client's records to the server in order; the data channel
may lose, repeat, delay and reorder what the server sends.
-/

namespace Tsunami

open Transition

/-- What the negotiation of a transfer has left the two ends with. -/
structure Ends where
  server : Server.Config
  client : Client.Config

structure Agreement extends Ends where
  layout : Layout
  serves : server.For layout
  fetches : client.For layout
  lossless : client.param.lossless = true

structure FileTransfer where
  client : Client.CommandGet
  server : Server.Serving

namespace FileTransfer

inductive Event
  | client (e : Client.Event)
  | server (i : Server.Input)

def FromServer (sent : List Client.Datagram) : Client.Event → Prop
  | .recv d => d ∈ sent
  | _ => True

instance (sent : List Client.Datagram) (e : Client.Event) : Decidable (FromServer sent e) :=
  match e with
  | .recv d => inferInstanceAs (Decidable (d ∈ sent))
  | .recvFails _ | .look _ | .reserve | .wake | .copy | .confirm | .control _ | .requestStop _
  | .join | .count | .peek | .accept _ | .pop => isTrue trivial

def step (a : Ends) (s : FileTransfer) : Event → Option FileTransfer
  | .client e =>
    if FromServer s.server.handler.sent e then
      (s.client.step a.client e).map fun c => { s with client := c }
    else none
  | .server i =>
    (s.server.step a.server (Server.stream s.client.sent) i).map fun v => { s with server := v }

/-- The first transfer of a connection: nothing is set in the buffers yet. -/
def create (a : Ends) (slots : Int → Client.Datagram) (ipd : ℚ)
    (datagram retransmission : List UInt8) (start : Nat) : FileTransfer where
  client := .create a.client slots
  server := ⟨.create ipd datagram retransmission start, 0, true⟩

end FileTransfer

def fileTransfer (a : Ends) : System FileTransfer FileTransfer.Event where
  init s := ∃ slots ipd datagram retransmission start, datagram.length = 6 + maxBlockSize ∧
    retransmission.length = sizeofRetransmission ∧
    s = .create a slots ipd datagram retransmission start
  step := FileTransfer.step a

def Works (_ : FileTransfer) : FileTransfer.Event → Prop
  | .client e => e.Fed fun _ => True
  | .server _ => True

-- ---------------------------------------------------------------------------
-- The invariant of the two ends
-- ---------------------------------------------------------------------------

variable {a : Agreement} {s t : FileTransfer} {e : FileTransfer.Event}

/-- The client is fed with blocks and writes sound records; the server, which
reads those, sends nothing but blocks. -/
structure Joint (a : Agreement) (s : FileTransfer) : Prop where
  client : (Client.commandGet a.client).ReachableBy (fun _ e => e.Fed (Carries a.layout)) s.client
  talks : Client.Talks a.client s.client
  server : Server.Honest a.layout s.client.sent s.server

theorem create_joint (a : Agreement) (slots : Int → Client.Datagram) (ipd : ℚ) (start : Nat)
    (hd : datagram.length = 6 + maxBlockSize) (hr : retransmission.length = sizeofRetransmission) :
    Joint a (.create a.toEnds slots ipd datagram retransmission start) where
  client := .init ⟨slots, rfl⟩
  talks := Client.create_talks a.client slots
  server := Server.create_honest hd hr []

theorem step_joint (hmax : a.layout.blockCount < 2 ^ 32 - 1) (h : Joint a s) (hw : Works s e)
    (hs : s.step a.toEnds e = some t) : Joint a t := by
  have hcount := a.fetches.blockCount
  cases e with
  | client e =>
    simp only [FileTransfer.step, Option.ite_none_right_eq_some, Option.map_eq_some_iff] at hs
    obtain ⟨hfrom, c, hc, rfl⟩ := hs
    have hfed : e.Fed (Carries a.layout) := by
      cases e with
      | recv d => exact h.server.sent d hfrom
      | _ => exact hw
    exact ⟨h.client.step hfed hc, Client.step_talks (by omega) h.talks hc,
      h.server.grow (Client.step_sent hc)⟩
  | server i =>
    simp only [FileTransfer.step, Option.map_eq_some_iff] at hs
    obtain ⟨v, hv, rfl⟩ := hs
    have hsound : ∀ r ∈ s.client.sent, r.Sound a.layout.blockCount := hcount ▸ h.talks.sent
    exact ⟨h.client, h.talks, Server.step_honest a.serves hmax hsound h.server hv⟩

theorem fileTransfer_joint (hmax : a.layout.blockCount < 2 ^ 32 - 1)
    (h : (fileTransfer a.toEnds).ReachableBy Works s) : Joint a s :=
  h.invariant
    (by rintro s ⟨slots, ipd, datagram, retransmission, start, hd, hr, rfl⟩
        exact create_joint a slots ipd start hd hr)
    fun _ _ _ _ hi hw hs => step_joint hmax hi hw hs

end Tsunami
