import Tsunami.Control.Listing
import Tsunami.Server.Framing

/-!
# The server's side of the control channel

`ttp_open_transfer` and `ttp_open_port` of the server's `protocol.c`, and
`client_handler` from the end of the authentication on, as a script of reads
and writes. Of the transfer loop only its reads matter here.
-/

namespace Tsunami.Control.Server

open Bytes Duplex

def maxFilenameLength : Nat := 1024

def dirlistHackCmd : List UInt8 := text "!#DIR??"

def star : List UInt8 := text "*"

structure Parameter where
  files : List SharedFile
  allhook : Bool
  hbTimeout : Nat
  bigEndian : Bool

/-- A `u_int16_t`, like `file_name_size`. -/
def Parameter.totalFiles (p : Parameter) : Nat := p.files.length % 2 ^ 16

def Parameter.listed (p : Parameter) : List SharedFile := p.files.take p.totalFiles

def Parameter.fileNames (p : Parameter) : List (List UInt8) := p.listed.map SharedFile.name

def Parameter.fileNameSize (p : Parameter) : Nat := listSize (p.files.map SharedFile.name) % 2 ^ 16

/-- What is decided outside the source in one call of `ttp_open_transfer` and
the transfer after it: the output of `allhook`, the files that can be opened
with their contents, the clock, whether the UDP socket opens, after how many
bytes of feedback the heartbeat times out, after how many a loss is reported,
and what the `retransmission` variable holds before. -/
structure Call where
  printed : List UInt8
  fopen : List UInt8 → Option (List UInt8)
  epoch : Nat
  socketOpens : Bool
  timeout : Option Nat
  report : Nat → Bool
  retransmission : List UInt8
  length_retransmission : retransmission.length = sizeofRetransmission

variable {σ : Type}

def sendFileList (p : Parameter) (fail : Script Field σ) : Script Field σ :=
  .write .reply (cstrings [(decimal p.totalFiles).take 9]) <|
  .write .reply (cstrings (p.listed.flatMap fun f => [f.name, (decimal f.size).take 19])) <|
  .read .acknowledgement 1 fun _ => fail

def negotiate (p : Parameter) (c : Call) (file : List UInt8)
    (succeed : Tsunami.Server.Config → Script Field σ) : Script Field σ :=
  .read .parameters 4 fun blockSize =>
  .read .parameters 4 fun targetRate =>
  .read .parameters 4 fun errorRate =>
  .read .parameters 2 fun slowerNum =>
  .read .parameters 2 fun slowerDen =>
  .read .parameters 2 fun fasterNum =>
  .read .parameters 2 fun fasterDen =>
  -- the division by a block size of 0 traps, and so does that by a target rate of 0
  if ofBe blockSize = 0 then .halt else
  let cfg : Tsunami.Server.Config := {
    file := file
    blockSize := ofBe blockSize
    blockCount := u32 (file.length / ofBe blockSize + if file.length % ofBe blockSize ≠ 0 then 1 else 0)
    errorRate := ofBe errorRate
    slowerNum := ofBe slowerNum
    slowerDen := ofBe slowerDen
    fasterNum := ofBe fasterNum
    fasterDen := ofBe fasterDen
    ipdTime := u32 (1000000 * 8 * ofBe blockSize / ofBe targetRate)
    hbTimeout := p.hbTimeout
    bigEndian := p.bigEndian }
  .write .reply (be64 file.length) <|
  .write .reply (be32 cfg.blockSize) <|
  .write .reply (be32 cfg.blockCount) <|
  .write .reply (be32 c.epoch) <|
  if ofBe targetRate = 0 then .halt else succeed cfg

def serve (p : Parameter) (c : Call) (filename : List UInt8) (fail : Script Field σ)
    (succeed : Tsunami.Server.Config → Script Field σ) : Script Field σ :=
  match c.fopen filename with
  | none => .put .reply 8 fail
  | some file => .put .reply 0 <| negotiate p c file succeed

/-- The answer to `*`: the sizes of the list, the list, and then the name of
the first file. An empty list from `allhook` is not sent at all, and `*` is
then the name. -/
def sendNames (p : Parameter) (c : Call) (next : List UInt8 → Script Field σ) : Script Field σ :=
  if p.allhook then
    let fileList := hookNames c.printed
    .write .reply (sizeField (listSize fileList)) <|
    .write .reply (sizeField fileList.length) <|
    .read .acknowledgement 8 fun _ =>
    if 0 < fileList.length then
      .write .reply (cstrings fileList) <|
      .read .acknowledgement 8 fun _ =>
      readLine .fileName maxFilenameLength next
    else next star
  else
    .write .reply (sizeField p.fileNameSize) <|
    .write .reply (sizeField p.totalFiles) <|
    .read .acknowledgement 8 fun _ =>
    .write .reply (cstrings p.fileNames) <|
    .read .acknowledgement 8 fun _ =>
    readLine .fileName maxFilenameLength next

def ttpOpenTransfer (p : Parameter) (c : Call) (fail : Script Field σ)
    (succeed : Tsunami.Server.Config → Script Field σ) : Script Field σ :=
  readLine .fileName maxFilenameLength fun filename =>
    if filename = dirlistHackCmd then sendFileList p fail
    else if filename = star then sendNames p c fun filename => serve p c filename fail succeed
    else serve p c filename fail succeed

def ttpOpenPort (c : Call) (fail succeed : Script Field σ) : Script Field σ :=
  .read .port 2 fun _ => if c.socketOpens then succeed else fail

/-- The reads of the transfer loop: the parameters, the record being read, the
bytes of it that are there, and all the bytes read so far. -/
structure Feedback where
  cfg : Tsunami.Server.Config
  retransmission : List UInt8
  retransmitlen : Nat
  consumed : Nat

def Feedback.create (c : Call) (cfg : Tsunami.Server.Config) : Feedback :=
  ⟨cfg, c.retransmission, 0, 0⟩

/-- One byte more. The record after a whole one starts at the front of the
variable again; that `ttp_accept_retransmit` has converted fields of it does
not matter, since they are read anew before they are looked at. -/
def Feedback.take (f : Feedback) (b : UInt8) : Feedback where
  cfg := f.cfg
  retransmission := blit f.retransmission f.retransmitlen [b]
  retransmitlen := (f.retransmitlen + 1) % sizeofRetransmission
  consumed := f.consumed + 1

def Feedback.stops (f : Feedback) : Bool :=
  f.retransmitlen = 0 ∧ (Retransmission.decode f.retransmission).requestType = requestStop

/-- The server's own loss report is written over the record. -/
def Feedback.reported (c : Call) (f : Feedback) : Feedback :=
  if c.report f.consumed then
    { f with retransmission := Tsunami.Server.lossRecord f.cfg f.retransmission }
  else f

/-- Where `client_handler` is, in its call number `n` of `ttp_open_transfer`. -/
inductive Place
  | open (n : Nat)
  | transfer (n : Nat) (f : Feedback)

def clientHandler (p : Parameter) (calls : Nat → Call) : Place → Script Field Place
  | .open n =>
    ttpOpenTransfer p (calls n) (.goto (.open (n + 1))) fun cfg =>
    ttpOpenPort (calls n) (.goto (.open (n + 1))) (.goto (.transfer n (.create (calls n) cfg)))
  | .transfer n f =>
    if (calls n).timeout = some f.consumed then .goto (.open (n + 1))
    else .get .record fun b =>
      if (f.take b).stops then .goto (.open (n + 1))
      else .goto (.transfer n ((f.take b).reported (calls n)))

-- ---------------------------------------------------------------------------
-- The three answers to `*`
-- ---------------------------------------------------------------------------

section
variable {p : Parameter} {c : Call} {next : List UInt8 → Script Field σ}

theorem sendNames_none (hh : p.allhook = true) (hn : hookNames c.printed = []) :
    sendNames p c next = (.write .reply (sizeField 0) <| .write .reply (sizeField 0) <|
      .read .acknowledgement 8 fun _ => next star) := by
  simp [sendNames, hh, hn]

theorem sendNames_hook (hh : p.allhook = true) (hn : hookNames c.printed ≠ []) :
    sendNames p c next = (.write .reply (sizeField (listSize (hookNames c.printed))) <|
      .write .reply (sizeField (hookNames c.printed).length) <|
      .read .acknowledgement 8 fun _ =>
      .write .reply (cstrings (hookNames c.printed)) <|
      .read .acknowledgement 8 fun _ => readLine .fileName maxFilenameLength next) := by
  simp [sendNames, hh, List.length_pos_iff.mpr hn]

theorem sendNames_files (hh : p.allhook = false) :
    sendNames p c next = (.write .reply (sizeField p.fileNameSize) <|
      .write .reply (sizeField p.totalFiles) <|
      .read .acknowledgement 8 fun _ =>
      .write .reply (cstrings p.fileNames) <|
      .read .acknowledgement 8 fun _ => readLine .fileName maxFilenameLength next) := by
  simp [sendNames, hh]

end

theorem Parameter.totalFiles_lt (p : Parameter) : p.totalFiles < 10 ^ 9 := by
  have : p.totalFiles < 2 ^ 16 := Nat.mod_lt _ (by decide)
  omega

@[simp] theorem Parameter.length_fileNames (p : Parameter) : p.fileNames.length = p.totalFiles := by
  have : p.totalFiles ≤ p.files.length := Nat.mod_le _ _
  rw [fileNames, List.length_map, listed, List.length_take, Nat.min_eq_left this]

end Tsunami.Control.Server
