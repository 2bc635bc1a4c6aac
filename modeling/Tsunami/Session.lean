import Tsunami.Integrity

/-!
# Transfers one after the other

A session of several transfers on one connection, each of which ends before
the next one is asked for. The client binds the same UDP port every time, and
a datagram says nothing of the transfer it belongs to: what keeps transfers
apart is only that nothing of an earlier one is left on the way.

A transfer that fails ends the session here, on either end: the client asks
the user to reconnect.
-/

namespace Tsunami

open Bytes Transition

/-- The start of a transfer on a connection that may have seen others: the
buffers and the static `last_block` are as they were left. -/
def Server.Handler.reopen (h : Handler) (cfg : Config) (start : Nat) : Handler where
  sender := { h.sender with block := 0, ipdCurrent := cfg.ipdTime * 3, position := 0 }
  retransmission := h.retransmission
  retransmitlen := 0
  deadconnectionCounter := 0
  lastfeedback := start
  lasthblostreport := start
  acted := []
  built := []
  sent := []

-- ---------------------------------------------------------------------------
-- The state
-- ---------------------------------------------------------------------------

namespace Session

/-- Where the client is in its command: before the next request, at the result
byte of `ttp_open_transfer`, or with its UDP socket bound, until `command_get`
returns. -/
inductive ClientAt
  | idle
  | requested
  | transferring (c : Client.CommandGet)

/-- Where `client_handler` is in its outer loop: at the file name, at the port
number of transfer `j`, in its loop with `consumed` bytes of its records read, or
no longer at the same place of the control channel as the client. -/
inductive ServerAt
  | waiting
  | accepted (j : Nat)
  | serving (j consumed : Nat)
  | gone
  deriving DecidableEq, Repr

def ServerAt.transfer : ServerAt → Option Nat
  | .accepted j | .serving j _ => some j
  | .waiting | .gone => none

end Session

/-- Both ends. `index` numbers the client's transfers, and every datagram on
the way is tagged with the transfer it was sent for; neither end sees a tag.
`request`, `reply` and `port` are what is in the control channel besides the
records, which are kept by transfer. `localTag` and `queuedTags` are the tags of
the datagram in the local buffer, which starts out empty, and of those put into
the ring. -/
structure Session where
  index : Nat
  client : Session.ClientAt
  server : Session.ServerAt
  handler : Server.Handler
  request : Bool
  reply : Option Bool
  port : Bool
  records : Nat → List Retransmission
  net : List (Nat × Client.Datagram)
  localTag : Nat
  queuedTags : List Nat

namespace Session

def create (ipd : ℚ) (datagram retransmission : List UInt8) : Session where
  index := 0
  client := .idle
  server := .waiting
  handler := .create ipd datagram retransmission 0
  request := false
  reply := none
  port := false
  records _ := []
  net := []
  localTag := 0
  queuedTags := []

-- ---------------------------------------------------------------------------
-- Steps
-- ---------------------------------------------------------------------------

/-- The client writes the file name; the server opens the file, or cannot; the
client binds its socket and writes the port number, or reads the failure signal;
the server reads the port number. A datagram on the way arrives at the bound
socket, or is lost, or will arrive twice. Otherwise either end takes a step of its
transfer, and `done` is where `command_get` returns 0 or goes on to the next file. -/
inductive Event
  | get
  | answer (found : Bool)
  | bind (slots : Int → Client.Datagram)
  | refused
  | start (time : Nat)
  | deliver (tag : Nat) (d : Client.Datagram)
  | client (e : Client.Event)
  | done
  | server (i : Server.Input)
  | drop (tag : Nat) (d : Client.Datagram)
  | duplicate (tag : Nat) (d : Client.Datagram)

def served (s : Session) (j : Nat) (server : ServerAt) (h : Server.Handler) : Session :=
  { s with
    server := server
    handler := h
    net := s.net ++ (h.sent.drop s.handler.sent.length).map fun d => (j, d) }

def transferred (s : Session) (c : Client.CommandGet) : Session :=
  { s with client := .transferring c, records := Function.update s.records s.index c.sent }

def step (plan : Nat → Ends) (s : Session) : Event → Option Session
  | .get =>
    match s.client with
    | .idle => some { s with client := .requested, request := true }
    | _ => none
  | .answer found =>
    if s.server = .waiting ∧ s.request then some { s with
      request := false
      reply := some found
      server := if found then .accepted s.index else .waiting }
    else none
  | .bind slots =>
    match s.client, s.reply with
    | .requested, some true => some { s with
        client := .transferring (.create (plan s.index).client slots)
        reply := none
        port := true
        localTag := s.index
        queuedTags := [] }
    | _, _ => none
  | .refused =>
    match s.client, s.reply with
    | .requested, some false => some { s with client := .idle, reply := none, index := s.index + 1 }
    | _, _ => none
  | .start time =>
    match s.server with
    | .accepted j =>
      if s.port then some { s with
        port := false
        server := .serving j 0
        handler := s.handler.reopen (plan j).server time }
      else none
    | _ => none
  | .deliver tag d =>
    match s.client with
    | .transferring c =>
      if (tag, d) ∈ s.net then
        (c.step (plan s.index).client (.recv d)).map fun c =>
          { s.transferred c with net := s.net.erase (tag, d), localTag := tag }
      else none
    | _ => none
  | .client e =>
    match s.client, e with
    | .transferring _, .recv _ => none
    | .transferring c, e =>
      (c.step (plan s.index).client e).map fun c' =>
        { s.transferred c' with
          queuedTags := if c'.queued.length = c.queued.length then s.queuedTags
            else s.queuedTags ++ [s.localTag] }
    | _, _ => none
  | .done =>
    match s.client with
    | .transferring c =>
      if c.network = .returned then some { s with client := .idle, index := s.index + 1, queuedTags := [] }
      else none
    | _ => none
  | .server i =>
    match s.server with
    | .serving j consumed =>
      if i.Valid s.handler ∧ i.read.Follows (Server.stream (s.records j)) consumed then
        match s.handler.iteration (plan j).server i with
        | .running h => some (s.served j (.serving j (consumed + i.read.size)) h)
        | .stopped h => some (s.served j .waiting h)
        | .timedOut h => some (s.served j .gone h)
        | .fatal => some { s with server := .gone }
      else none
    | _ => none
  | .drop tag d => if (tag, d) ∈ s.net then some { s with net := s.net.erase (tag, d) } else none
  | .duplicate tag d => if (tag, d) ∈ s.net then some { s with net := s.net ++ [(tag, d)] } else none

end Session

def session (plan : Nat → Ends) : System Session Session.Event where
  init s := ∃ ipd datagram retransmission, datagram.length = 6 + maxBlockSize ∧
    retransmission.length = sizeofRetransmission ∧ s = .create ipd datagram retransmission
  step := Session.step plan

-- ---------------------------------------------------------------------------
-- What a step can do
-- ---------------------------------------------------------------------------

namespace Session

def after (s : Session) (j n : Nat) : Server.Outcome → Session
  | .running h => s.served j (.serving j n) h
  | .stopped h => s.served j .waiting h
  | .timedOut h => s.served j .gone h
  | .fatal => { s with server := .gone }

@[simp] theorem after_client (s : Session) (j n : Nat) (o : Server.Outcome) :
    (s.after j n o).client = s.client := by
  cases o <;> rfl

@[simp] theorem after_queuedTags (s : Session) (j n : Nat) (o : Server.Outcome) :
    (s.after j n o).queuedTags = s.queuedTags := by
  cases o <;> rfl

inductive Step (plan : Nat → Ends) (s : Session) : Event → Session → Prop
  | get : s.client = .idle → Step plan s .get { s with client := .requested, request := true }
  | answer : s.server = .waiting → s.request = true →
      Step plan s (.answer found) { s with
        request := false
        reply := some found
        server := if found then .accepted s.index else .waiting }
  | bind : s.client = .requested → s.reply = some true →
      Step plan s (.bind slots) { s with
        client := .transferring (.create (plan s.index).client slots)
        reply := none
        port := true
        localTag := s.index
        queuedTags := [] }
  | refused : s.client = .requested → s.reply = some false →
      Step plan s .refused { s with client := .idle, reply := none, index := s.index + 1 }
  | start : s.server = .accepted j → s.port = true →
      Step plan s (.start time) { s with
        port := false
        server := .serving j 0
        handler := s.handler.reopen (plan j).server time }
  | deliver : s.client = .transferring c → (tag, d) ∈ s.net →
      c.step (plan s.index).client (.recv d) = some c' →
      Step plan s (.deliver tag d)
        { s.transferred c' with net := s.net.erase (tag, d), localTag := tag }
  | client : s.client = .transferring c → (∀ d, e ≠ .recv d) →
      c.step (plan s.index).client e = some c' →
      Step plan s (.client e) { s.transferred c' with
        queuedTags := if c'.queued.length = c.queued.length then s.queuedTags
          else s.queuedTags ++ [s.localTag] }
  | done : s.client = .transferring c → c.network = .returned →
      Step plan s .done { s with client := .idle, index := s.index + 1, queuedTags := [] }
  | server : s.server = .serving j n → i.Valid s.handler →
      i.read.Follows (Server.stream (s.records j)) n →
      Step plan s (.server i) (s.after j (n + i.read.size) (s.handler.iteration (plan j).server i))
  | drop : (tag, d) ∈ s.net → Step plan s (.drop tag d) { s with net := s.net.erase (tag, d) }
  | duplicate : (tag, d) ∈ s.net →
      Step plan s (.duplicate tag d) { s with net := s.net ++ [(tag, d)] }

theorem step_cases {s t : Session} {e : Event} (h : s.step plan e = some t) : Step plan s e t := by
  cases e with
  | get =>
    simp only [Session.step] at h
    split at h <;> cases h
    exact .get ‹_›
  | bind slots =>
    simp only [Session.step] at h
    split at h <;> cases h
    exact .bind ‹_› ‹_›
  | refused =>
    simp only [Session.step] at h
    split at h <;> cases h
    exact .refused ‹_› ‹_›
  | answer found =>
    simp only [Session.step, Option.ite_none_right_eq_some, Option.some.injEq] at h
    obtain ⟨⟨hserver, hreq⟩, rfl⟩ := h
    exact .answer hserver hreq
  | start time =>
    simp only [Session.step] at h
    split at h
    · simp only [Option.ite_none_right_eq_some, Option.some.injEq] at h
      obtain ⟨hport, rfl⟩ := h
      exact .start ‹_› hport
    · cases h
  | deliver tag d =>
    simp only [Session.step] at h
    split at h
    · simp only [Option.ite_none_right_eq_some, Option.map_eq_some_iff] at h
      obtain ⟨hmem, c', hc', rfl⟩ := h
      exact .deliver ‹_› hmem hc'
    · cases h
  | client e =>
    simp only [Session.step] at h
    split at h
    · cases h
    · rename_i hrecv
      simp only [Option.map_eq_some_iff] at h
      obtain ⟨c', hc', rfl⟩ := h
      exact .client ‹_› (fun d hd => hrecv d hd) hc'
    · cases h
  | done =>
    simp only [Session.step] at h
    split at h
    · simp only [Option.ite_none_right_eq_some, Option.some.injEq] at h
      obtain ⟨hret, rfl⟩ := h
      exact .done ‹_› hret
    · cases h
  | server i =>
    simp only [Session.step] at h
    split at h
    · simp only [Option.ite_none_right_eq_some] at h
      obtain ⟨⟨hvalid, hfollows⟩, h⟩ := h
      have hstep : Step plan s (.server i) _ := .server ‹_› hvalid hfollows
      split at h <;> cases h <;> rename_i hiter <;> rw [hiter] at hstep <;> exact hstep
    · cases h
  | drop tag d =>
    simp only [Session.step, Option.ite_none_right_eq_some, Option.some.injEq] at h
    obtain ⟨hmem, rfl⟩ := h
    exact .drop hmem
  | duplicate tag d =>
    simp only [Session.step, Option.ite_none_right_eq_some, Option.some.injEq] at h
    obtain ⟨hmem, rfl⟩ := h
    exact .duplicate hmem

end Session

-- ---------------------------------------------------------------------------
-- Isolation
-- ---------------------------------------------------------------------------

namespace Session

variable {plan : Nat → Ends} {s t : Session} {e : Event}

/-- The condition under which transfers are kept apart: nothing of another
transfer is on the way when a socket is bound. -/
def Quiet (s : Session) : Event → Prop
  | .bind _ => ∀ p ∈ s.net, p.1 = s.index
  | _ => True

instance (s : Session) (e : Event) : Decidable (Quiet s e) :=
  match e with
  | .bind _ => inferInstanceAs (Decidable (∀ p ∈ s.net, p.1 = s.index))
  | .get | .answer _ | .refused | .start _ | .deliver _ _ | .client _ | .done | .server _
  | .drop _ _ | .duplicate _ _ => isTrue trivial

/-- What holds where the client is. While its socket is bound, all that is on
the way or in the local buffer belongs to its transfer, and the server is in no
other. -/
def At (s : Session) : ClientAt → Prop
  | .idle => s.queuedTags = [] ∧ s.request = false ∧ s.reply = none
  | .requested => s.queuedTags = [] ∧ (s.request = true ∧ s.reply = none ∨ s.request = false ∧
      (s.reply = some false ∨ s.reply = some true ∧ s.server = .accepted s.index ∧ s.port = false))
  | .transferring _ => (∀ tag ∈ s.queuedTags, tag = s.index) ∧ s.request = false ∧ s.reply = none ∧
      (∀ p ∈ s.net, p.1 = s.index) ∧ (∀ j, s.server.transfer = some j → j = s.index) ∧
      s.localTag = s.index

structure Apart (s : Session) : Prop where
  port : s.port = true → ∃ j, s.server = .accepted j
  client : At s s.client

theorem Apart.noPort (h : Apart s) (hs : ∀ j, s.server ≠ .accepted j) : s.port = false := by
  by_contra hp
  obtain ⟨j, hj⟩ := h.port (eq_true_of_ne_false hp)
  exact hs j hj

theorem Apart.served (h : Apart s) (hs : s.server = .serving j n)
    (hw : ∀ k, w.transfer = some k → k = j) (u : Server.Handler) : Apart (s.served j w u) := by
  have hport := h.noPort fun k hk => by rw [hs] at hk; cases hk
  have hat := h.client
  refine ⟨fun hp => absurd (hport.symm.trans hp) (by decide), ?_⟩
  show At (s.served j w u) s.client
  cases hc : s.client with
  | idle =>
    rw [hc] at hat
    exact hat
  | requested =>
    rw [hc] at hat
    obtain ⟨hnil, hat | ⟨hreq, hat | ⟨-, hacc, -⟩⟩⟩ := hat
    · exact ⟨hnil, .inl hat⟩
    · exact ⟨hnil, .inr ⟨hreq, .inl hat⟩⟩
    · rw [hs] at hacc
      cases hacc
  | transferring c =>
    rw [hc] at hat
    obtain ⟨hqueued, hreq, hrep, hnet, hserver, htag⟩ := hat
    have hj : j = s.index := hserver j (by rw [hs]; rfl)
    refine ⟨hqueued, hreq, hrep, fun p hp => ?_, fun k hk => (hw k hk).trans hj, htag⟩
    rcases List.mem_append.mp hp with hp | hp
    · exact hnet p hp
    · obtain ⟨d, -, rfl⟩ := List.mem_map.mp hp
      exact hj

theorem Apart.onWay (h : Apart s) (hn : ∀ p ∈ way, p ∈ s.net) : Apart { s with net := way } := by
  have hat := h.client
  refine ⟨h.port, ?_⟩
  show At { s with net := way } s.client
  cases hc : s.client with
  | idle | requested =>
    rw [hc] at hat
    exact hat
  | transferring c =>
    rw [hc] at hat
    obtain ⟨hqueued, hreq, hrep, hnet, hrest⟩ := hat
    exact ⟨hqueued, hreq, hrep, fun p hp => hnet p (hn p hp), hrest⟩

theorem Apart.answered (h : Apart s) (hw : s.server = .waiting) (hreq : s.request = true)
    (found : Bool) :
    Apart { s with
      request := false
      reply := some found
      server := if found then .accepted s.index else .waiting } := by
  have hat := h.client
  have hport := h.noPort fun k hk => by rw [hw] at hk; cases hk
  refine ⟨fun hp => absurd (hport.symm.trans hp) (by decide), ?_⟩
  show At _ s.client
  cases hc : s.client with
  | requested =>
    rw [hc] at hat
    cases found
    · exact ⟨hat.1, .inr ⟨rfl, .inl rfl⟩⟩
    · exact ⟨hat.1, .inr ⟨rfl, .inr ⟨rfl, rfl, hport⟩⟩⟩
  | idle | transferring c =>
    rw [hc] at hat
    exact absurd (hat.2.1.symm.trans hreq) (by decide)

theorem Apart.started (h : Apart s) (hw : s.server = .accepted j) (hp : s.port = true)
    (u : Server.Handler) :
    Apart { s with port := false, server := .serving j 0, handler := u } := by
  have hat := h.client
  refine ⟨fun hp' => Bool.noConfusion hp', ?_⟩
  show At _ s.client
  cases hc : s.client with
  | idle =>
    rw [hc] at hat
    exact hat
  | requested =>
    rw [hc] at hat
    obtain ⟨hnil, hat | ⟨hreq, hat | ⟨-, -, hport⟩⟩⟩ := hat
    · exact ⟨hnil, .inl hat⟩
    · exact ⟨hnil, .inr ⟨hreq, .inl hat⟩⟩
    · exact absurd (hport.symm.trans hp) (by decide)
  | transferring c =>
    rw [hc] at hat
    obtain ⟨hqueued, hreq, hrep, hnet, hserver, htag⟩ := hat
    refine ⟨hqueued, hreq, hrep, hnet, fun k hk => hserver k ?_, htag⟩
    rw [hw]
    exact hk

theorem Apart.after (h : Apart s) (hs : s.server = .serving j m) (n : Nat) (o : Server.Outcome) :
    Apart (s.after j n o) := by
  cases o with
  | running u => exact h.served hs (fun k hk => by cases hk; rfl) u
  | stopped u | timedOut u => exact h.served hs (fun k hk => by cases hk) u
  | fatal =>
    have hgone := h.served hs (w := .gone) (fun k hk => by cases hk) s.handler
    simpa [Session.after, Session.served] using hgone

theorem step_apart (h : Apart s) (hq : Quiet s e) (hs : s.step plan e = some t) : Apart t := by
  have hat := h.client
  cases step_cases hs with
  | get hc =>
    rw [hc] at hat
    exact ⟨h.port, hat.1, .inl ⟨rfl, hat.2.2⟩⟩
  | answer hw hreq => exact h.answered hw hreq _
  | bind hc hrep =>
    rw [hc] at hat
    obtain ⟨-, ⟨-, hnone⟩ | ⟨hreq, hfalse | ⟨-, hacc, -⟩⟩⟩ := hat
    · rw [hrep] at hnone
      cases hnone
    · rw [hrep] at hfalse
      cases hfalse
    · refine ⟨fun _ => ⟨_, hacc⟩, fun tag ht => absurd ht List.not_mem_nil, hreq, rfl, hq,
        fun j hj => ?_, rfl⟩
      rw [hacc] at hj
      exact (Option.some.inj hj).symm
  | refused hc hrep =>
    rw [hc] at hat
    obtain ⟨hnil, ⟨-, hnone⟩ | ⟨hreq, -⟩⟩ := hat
    · rw [hrep] at hnone
      cases hnone
    · exact ⟨h.port, hnil, hreq, rfl⟩
  | start hw hp => exact h.started hw hp _
  | deliver hc hmem =>
    rw [hc] at hat
    obtain ⟨hqueued, hreq, hrep, hnet, hserver, -⟩ := hat
    exact ⟨h.port, hqueued, hreq, hrep, fun p hp => hnet p (List.mem_of_mem_erase hp),
      hserver, hnet _ hmem⟩
  | client hc =>
    rw [hc] at hat
    obtain ⟨hqueued, hreq, hrep, hnet, hserver, htag⟩ := hat
    refine ⟨h.port, ?_, hreq, hrep, hnet, hserver, htag⟩
    simp only [transferred]
    split
    · exact hqueued
    · exact List.forall_mem_append.mpr
        ⟨hqueued, fun tag ht => (List.mem_singleton.mp ht).trans htag⟩
  | done hc =>
    rw [hc] at hat
    exact ⟨h.port, rfl, hat.2.1, hat.2.2.1⟩
  | server hw => exact h.after hw ..
  | drop => exact h.onWay fun p hp => List.mem_of_mem_erase hp
  | duplicate hmem =>
    refine h.onWay fun p hp => ?_
    rcases List.mem_append.mp hp with hp | hp
    · exact hp
    · rw [List.mem_singleton.mp hp]
      exact hmem

-- ---------------------------------------------------------------------------
-- Every session
-- ---------------------------------------------------------------------------

def Tagged (s : Session) : Prop :=
  ∀ c, s.client = .transferring c → s.queuedTags.length = c.queued.length

theorem step_tagged (h : Tagged s) (hs : s.step plan e = some t) : Tagged t := by
  intro c hc
  cases step_cases hs with
  | get | refused | done => cases hc
  | bind =>
    cases hc
    rfl
  | answer | start | drop | duplicate => exact h c hc
  | deliver hc₀ _ hstep =>
    cases hc
    rcases Client.step_queued hstep with hq | ⟨he, -⟩
    · rw [hq]
      exact h _ hc₀
    · cases he
  | @client c₀ _ _ hc₀ _ hstep =>
    cases hc
    have hlen := h c₀ hc₀
    simp only
    rcases Client.step_queued hstep with hq | ⟨-, d, hq⟩
    · rw [if_pos (by rw [hq]), hq, hlen]
    · have hne : ¬(c₀.queued ++ [d]).length = c₀.queued.length := by simp
      rw [hq, if_neg hne, List.length_append, List.length_append, hlen]
      rfl
  | server =>
    rw [after_client] at hc
    rw [after_queuedTags]
    exact h c hc

/-- What the client looks at and puts into the ring, and with that all it marks
and writes, was sent for its own transfer. -/
structure Isolated (s : Session) : Prop where
  looked : ∀ c, s.client = .transferring c → s.localTag = s.index
  tagged : ∀ c, s.client = .transferring c → s.queuedTags.length = c.queued.length
  queued : ∀ tag ∈ s.queuedTags, tag = s.index

theorem session_apart (h : (session plan).ReachableBy Quiet s) : Apart s :=
  h.invariant
    (by rintro s ⟨ipd, datagram, retransmission, -, -, rfl⟩; exact ⟨by simp [create], rfl, rfl, rfl⟩)
    fun _ _ _ _ hi hq hs => step_apart hi hq hs

def oneByteFile (b : UInt8) : Ends :=
  (defaultAgreement ⟨[b], 1, by simp, Nat.one_pos, one_le_maxBlockSize, by simp⟩).toEnds

def oneBlock (tag : Nat) (b : UInt8) : List Event :=
  [.deliver tag (header 1 tsBlockTerminate ++ [b])] ++
    ([.look Client.quietOracle, .reserve, .copy, .confirm, .control Client.quietOracle,
      .peek, .accept .ok, .pop, .requestStop .ok, .reserve, .copy, .confirm, .peek, .accept .ok,
      .join, .count, .count] : List Client.Event).map .client ++ [.done]

def blasts (n : Nat) : List Event := List.replicate n (.server (Server.idleAt 0))

def stops : Event := .server ⟨0, .data (Retransmission.encode ⟨requestStop, 0, 0⟩), true, 0, 0, 0⟩

def view (s : Session) : Nat × List Nat × Option (List UInt8 × Bool) :=
  (s.index, s.queuedTags, match s.client with
    | .transferring c => some (c.file, Client.gotBlock c.xfer 1)
    | _ => none)

def twoFiles (k : Nat) : Ends := oneByteFile (if k = 0 then 7 else 9)

def clear : Session :=
  create 0 (List.replicate (6 + maxBlockSize) 0) (List.replicate sizeofRetransmission 0)

theorem clear_init (plan : Nat → Ends) : (session plan).init clear :=
  ⟨_, _, _, List.length_replicate, List.length_replicate, rfl⟩

/-- The first transfer, in which the only block is sent twice and arrives once,
and the request for the second. -/
def firstTransfer : List Event :=
  [.get, .answer true, .bind fun _ => [], .start 0] ++ blasts 2 ++ oneBlock 0 7 ++
    [stops, .get, .answer true]

/-- No datagram that was sent for one transfer is taken for a block of another,
in any session in which nothing of an earlier transfer is on the way when a
socket is bound. -/
theorem transfers_isolated (h : (session plan).ReachableBy Quiet s) : Isolated s := by
  have happ := session_apart h
  have htag : Tagged s := h.reachable.invariant
    (by rintro s ⟨ipd, datagram, retransmission, -, -, rfl⟩; exact fun c hc => by cases hc)
    fun _ _ _ hi hs => step_tagged hi hs
  have hat := happ.client
  refine ⟨fun c hc => ?_, htag, ?_⟩
  · rw [hc] at hat
    exact hat.2.2.2.2.2
  · cases hc : s.client with
    | idle | requested =>
      rw [hc] at hat
      rw [hat.1]
      exact fun tag ht => absurd ht List.not_mem_nil
    | transferring c =>
      rw [hc] at hat
      exact hat.1

/-- The second copy is lost before the second transfer begins. -/
theorem transfers_isolated_two_files :
    ∃ s, view s = (1, [1], some ([9], true)) ∧ Isolated s := by
  have hrun : ((session twoFiles).checkedRun Quiet clear
      (firstTransfer ++ [.drop 0 (header 1 tsBlockTerminate ++ [7]), .bind fun _ => [], .start 0] ++
        blasts 1 ++ (oneBlock 1 9).take 8)).map view = some (1, [1], some ([9], true)) := by
    decide +kernel
  obtain ⟨s, hs, hview⟩ := Option.map_eq_some_iff.mp hrun
  exact ⟨s, hview, transfers_isolated (.path (.init (clear_init _)) (.checkedRun hs))⟩

/-- The second copy arrives when the second transfer has begun: it is marked as
received, put into the ring and written to the second file. -/
theorem stale_block_written :
    ∃ s, (session twoFiles).Reachable s ∧ s.index = 1 ∧ s.queuedTags = [0] ∧
      (∃ c, s.client = .transferring c ∧ c.file = [7] ∧ Client.gotBlock c.xfer 1 = true) ∧
      ¬Isolated s := by
  have hrun : ((session twoFiles).run clear
      (firstTransfer ++ [.bind fun _ => []] ++ (oneBlock 0 7).take 8)).map view =
        some (1, [0], some ([7], true)) := by
    decide +kernel
  obtain ⟨s, hs, hview⟩ := Option.map_eq_some_iff.mp hrun
  simp only [view, Prod.mk.injEq] at hview
  obtain ⟨hindex, htags, hclient⟩ := hview
  refine ⟨s, (System.Reachable.init (clear_init _)).run hs, hindex, htags, ?_, fun hiso => ?_⟩
  · split at hclient
    · rename_i c hc
      simp only [Option.some.injEq, Prod.mk.injEq] at hclient
      exact ⟨c, hc, hclient⟩
    · cases hclient
  · have htag := hiso.queued 0 (by simp [htags])
    omega

end Session

end Tsunami
