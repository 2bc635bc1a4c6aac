import Tsunami.Control.Listing

/-!
# The client's side of the control channel

`ttp_open_transfer` and `ttp_open_port` of the client's `protocol.c`, and
`command_get` and `command_dir`, as a script of reads and writes. The feedback
of a transfer is what the rest of `command_get` makes of the datagrams that
come in; here it is any records that are no stop request.
-/

namespace Tsunami.Control.Client

open Bytes Duplex

structure Parameter where
  blockSize : Nat
  targetRate : Nat
  errorRate : Nat
  slowerNum : Nat
  slowerDen : Nat
  fasterNum : Nat
  fasterDen : Nat
  blockSize_lt : blockSize < 2 ^ 32
  targetRate_lt : targetRate < 2 ^ 32

/-- The server divides by them. -/
def Parameter.Traps (p : Parameter) : Prop := p.blockSize = 0 ∨ p.targetRate = 0

instance (p : Parameter) : Decidable p.Traps := inferInstanceAs (Decidable (_ ∨ _))

structure Record where
  record : Retransmission
  type_lt : record.requestType < 2 ^ 8
  notStop : record.requestType ≠ requestStop

/-- What is decided outside the control channel in one request for a file:
whether the local file and the UDP socket can be opened, the port, the
feedback, and whether the transfer ends with a stop request or is aborted. -/
structure Call where
  localOpens : Bool
  socketOpens : Bool
  port : Nat
  records : List Record
  stops : Bool

def stopRecord : Retransmission := ⟨requestStop, 0, 0⟩

def Call.feedback (c : Call) : List UInt8 := c.records.flatMap fun r => r.record.encode

def Call.written (c : Call) : List Retransmission :=
  c.records.map Record.record ++ if c.stops then [stopRecord] else []

variable {σ : Type}

def openLocal (p : Parameter) (c : Call) (fail succeed : Script Field σ) : Script Field σ :=
  .read .reply 8 fun _fileSize =>
  .read .reply 4 fun blockSize =>
  if ofBe blockSize ≠ p.blockSize then fail
  else
    .read .reply 4 fun _blockCount =>
    .read .reply 4 fun _epoch =>
    if c.localOpens then succeed else fail

def submit (p : Parameter) (c : Call) (fail succeed : Script Field σ) : Script Field σ :=
  .get .reply fun result =>
  if result ≠ 0 then fail
  else
    .write .parameters (be32 p.blockSize) <|
    .write .parameters (be32 p.targetRate) <|
    .write .parameters (be32 p.errorRate) <|
    .write .parameters (be16 p.slowerNum) <|
    .write .parameters (be16 p.slowerDen) <|
    .write .parameters (be16 p.fasterNum) <|
    .write .parameters (be16 p.fasterDen) <|
    openLocal p c fail succeed

def ttpOpenTransfer (p : Parameter) (c : Call) (remoteFilename : List UInt8)
    (fail succeed : Script Field σ) : Script Field σ :=
  .write .fileName (remoteFilename ++ [10]) <| submit p c fail succeed

def ttpOpenPort (c : Call) (fail succeed : Script Field σ) : Script Field σ :=
  if c.socketOpens then .write .port (be16 c.port) succeed else fail

/-- The transfers of the files in turn, from request `n` on, until one of them
fails. -/
def getFiles (p : Parameter) (calls : Nat → Call) (back : Nat → Script Field σ) :
    List (List UInt8) → Nat → Script Field σ
  | [], n => back n
  | name :: names, n =>
    ttpOpenTransfer p (calls n) name (back (n + 1)) <|
    ttpOpenPort (calls n) (back (n + 1)) <|
    .write .record (calls n).feedback <|
    if (calls n).stops then
      .write .record stopRecord.encode <| getFiles p calls back names (n + 1)
    else back (n + 1)

def requestNames (empty : Script Field σ) (next : List (List UInt8) → Script Field σ) :
    Script Field σ :=
  .write .fileName (text "*" ++ [10]) <|
  .read .reply 10 fun _filearraySize =>
  .read .reply 10 fun fileCount =>
  .write .acknowledgement (text "got size") <|
  if scanField fileCount = 0 then .read .reply 1 fun _ => empty
  else readLines .reply 1024 (scanField fileCount) fun names =>
    .write .acknowledgement (text "got list") <| next names

def commandGet (p : Parameter) (calls : Nat → Call) (name : List UInt8) (n : Nat)
    (back : Nat → Script Field σ) : Script Field σ :=
  if name = text "*" then requestNames (back (n + 1)) fun names => getFiles p calls back names n
  else getFiles p calls back [name] n

def commandDir (n : Nat) (back : Nat → Script Field σ) : Script Field σ :=
  .write .fileName (text "!#DIR??" ++ [10]) <|
  .get .reply fun result =>
  if result = 8 then back (n + 1)
  else readLine .reply 2046 fun rest =>
    readLines .reply 2047 (2 * (ofDecimal (result :: rest) % 2 ^ 16)) fun _ =>
    .put .acknowledgement 0 <| back (n + 1)

structure RemoteName where
  name : List UInt8
  line : IsLine name

inductive Command
  | get (remote : RemoteName)
  | dir

def command (p : Parameter) (calls : Nat → Call) (n : Nat) (back : Nat → Script Field σ) :
    Command → Script Field σ
  | .get remote => commandGet p calls remote.name n back
  | .dir => commandDir n back

/-- The commands of a session, one after the other. `n` counts the requests
the server answers with a call of `ttp_open_transfer`. -/
def session (p : Parameter) (calls : Nat → Call) : List Command → Nat → Script Field σ
  | [], _ => .halt
  | c :: rest, n => command p calls n (session p calls rest) c

end Tsunami.Control.Client
