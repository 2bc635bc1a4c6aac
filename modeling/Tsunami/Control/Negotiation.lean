import Tsunami.Control.Client
import Tsunami.Control.Server
import Tsunami.Lib.Endian
import Tsunami.Tiling

/-!
# Agreement on the parameters

The numbers the two ends of `ttp_open_transfer` exchange, from the server's
result byte on, with the memory of either host: what stands in a variable, and
which bytes of it are written or read.
-/

namespace Tsunami.Control.Negotiation

open Bytes Duplex Endian

structure Rates where
  blockSize : Nat
  targetRate : Nat
  errorRate : Nat
  slowerNum : Nat
  slowerDen : Nat
  fasterNum : Nat
  fasterDen : Nat
  deriving DecidableEq, Repr

structure Rates.Fits (p : Rates) : Prop where
  blockSize : p.blockSize < 2 ^ 32
  targetRate : p.targetRate < 2 ^ 32
  errorRate : p.errorRate < 2 ^ 32
  slowerNum : p.slowerNum < 2 ^ 16
  slowerDen : p.slowerDen < 2 ^ 16
  fasterNum : p.fasterNum < 2 ^ 16
  fasterDen : p.fasterDen < 2 ^ 16

structure Answer where
  fileSize : Nat
  blockCount : Nat
  epoch : Nat
  deriving DecidableEq, Repr

-- ---------------------------------------------------------------------------
-- The conversions
-- ---------------------------------------------------------------------------

section
variable (host : ByteOrder)

def htons (value : Nat) : Nat := hton host 2 value

def htonl (value : Nat) : Nat := hton host 4 value

def ntohl (value : Nat) : Nat := ntoh host 4 value

/-- The source probes the byte order once and keeps the answer. -/
def htonll (value : Nat) : Nat :=
  if 5 ≠ htons host 5 then
    htonl host (value &&& 0x00000000ffffffff) <<< 32 ||| htonl host (value >>> 32)
  else value

def ntohll (value : Nat) : Nat := htonll host value

end

theorem le_eight (v : Nat) : le 8 v = le 4 (v % 2 ^ 32) ++ le 4 (v / 2 ^ 32) := by
  rw [le_add 4 4 v]
  exact congrArg (· ++ _) (le_mod 4 v).symm

theorem htonll_eq (host : ByteOrder) (h : value < 2 ^ 64) :
    htonll host value = hton host 8 value := by
  cases host with
  | little =>
    have hprobe : 5 ≠ htons .little 5 := by decide
    have hlow : value &&& 0x00000000ffffffff = value % 2 ^ 32 :=
      Nat.and_two_pow_sub_one_eq_mod value 32
    have hhigh : htonl .little (value / 2 ^ 32) < 2 ^ 32 := hton_lt .little 4 _
    have hbytes : hton .little 8 value =
        htonl .little (value / 2 ^ 32) + 2 ^ 32 * htonl .little (value % 2 ^ 32) := by
      simp only [htonl, hton, ByteOrder.store, ByteOrder.load, le_eight value, List.reverse_append,
        ofLe_append, List.length_reverse, length_le]
      rfl
    rw [htonll, if_pos hprobe, hlow, Nat.shiftRight_eq_div_pow,
      ← Nat.shiftLeft_add_eq_or_of_lt hhigh, Nat.shiftLeft_eq, hbytes, Nat.add_comm, Nat.mul_comm]
  | big =>
    have hprobe : ¬5 ≠ htons .big 5 := by decide
    rw [htonll, if_neg hprobe, hton_big]
    exact (Nat.mod_eq_of_lt h).symm

-- ---------------------------------------------------------------------------
-- The two scripts
-- ---------------------------------------------------------------------------

variable {σ : Type}

/-- `temp = htonl(value)`, or `htons`, and the variable written. -/
def submit (host : ByteOrder) (k : Field) (n value : Nat) (next : Script Field σ) :
    Script Field σ :=
  .write k (host.store n (hton host n value)) next

def fetch (host : ByteOrder) (k : Field) (n : Nat) (next : Nat → Script Field σ) : Script Field σ :=
  .read k n fun bytes => next (ntoh host n (host.load bytes))

/-- The four bytes of the `time_t` that are written. -/
def epochField (host : ByteOrder) (epoch : Nat) : List UInt8 :=
  (host.store 8 (htonl host epoch)).take 4

/-- The `time_t` cleared, four bytes of it read, and converted. -/
def scanEpoch (host : ByteOrder) (bytes : List UInt8) : Nat :=
  ntohl host (host.load (blit (List.replicate 8 0) 0 bytes))

/-- The server's side. Both divisions trap at 0. -/
def server (host : ByteOrder) (fileSize epoch : Nat) (succeed : Rates → Answer → Script Field σ) :
    Script Field σ :=
  .put .reply 0 <|
  fetch host .parameters 4 fun blockSize =>
  fetch host .parameters 4 fun targetRate =>
  fetch host .parameters 4 fun errorRate =>
  fetch host .parameters 2 fun slowerNum =>
  fetch host .parameters 2 fun slowerDen =>
  fetch host .parameters 2 fun fasterNum =>
  fetch host .parameters 2 fun fasterDen =>
  let param : Rates :=
    ⟨blockSize, targetRate, errorRate, slowerNum, slowerDen, fasterNum, fasterDen⟩
  if blockSize = 0 then .halt
  else
    let blockCount := Tsunami.Server.blockCount fileSize blockSize
    .write .reply (host.store 8 (htonll host fileSize)) <|
    submit host .reply 4 blockSize <|
    submit host .reply 4 blockCount <|
    .write .reply (epochField host epoch) <|
    if targetRate = 0 then .halt else succeed param ⟨fileSize, blockCount, epoch⟩

/-- The client's side, up to the local file. -/
def client (host : ByteOrder) (param : Rates) (localOpens : Bool) (fail : Script Field σ)
    (succeed : Answer → Script Field σ) : Script Field σ :=
  .get .reply fun result =>
  if result ≠ 0 then fail
  else
    submit host .parameters 4 param.blockSize <|
    submit host .parameters 4 param.targetRate <|
    submit host .parameters 4 param.errorRate <|
    submit host .parameters 2 param.slowerNum <|
    submit host .parameters 2 param.slowerDen <|
    submit host .parameters 2 param.fasterNum <|
    submit host .parameters 2 param.fasterDen <|
    .read .reply 8 fun fileSize =>
    .read .reply 4 fun temp =>
    -- `htonl` stands here for `ntohl`
    if htonl host (host.load temp) ≠ param.blockSize then fail
    else
      fetch host .reply 4 fun blockCount =>
      .read .reply 4 fun epoch =>
      if localOpens then succeed ⟨ntohll host (host.load fileSize), blockCount, scanEpoch host epoch⟩
      else fail

-- ---------------------------------------------------------------------------
-- What is on the wire
-- ---------------------------------------------------------------------------

theorem submit_eq (host : ByteOrder) (k : Field) (n value : Nat) (next : Script Field σ) :
    submit host k n value next = .write k (ByteOrder.big.store n value) next := by
  rw [submit, store_hton]

theorem fetch_eq (host : ByteOrder) (k : Field) (n : Nat) (next : Nat → Script Field σ) :
    fetch host k n next = .read k n fun bytes => next (ofBe bytes) := by
  refine Script.read_congr fun bytes hn => ?_
  rw [ntoh_load host hn, load_big]

theorem store_htonll (host : ByteOrder) (h : value < 2 ^ 64) :
    host.store 8 (htonll host value) = be64 value := by
  rw [htonll_eq host h, store_hton, store_big_eight]

theorem ntohll_load (host : ByteOrder) {bytes : List UInt8} (h : bytes.length = 8) :
    ntohll host (host.load bytes) = ofBe bytes := by
  have hlt : host.load bytes < 2 ^ 64 := by
    have := load_lt host bytes
    rwa [h] at this
  rw [ntohll, htonll_eq host hlt, hton_eq_ntoh, ntoh_load host h, load_big]

/-- A big-endian host writes the upper half of its `time_t`. -/
theorem epochField_eq (host : ByteOrder) (epoch : Nat) :
    epochField host epoch = be32 (if host = .little then epoch else 0) := by
  have hlt := hton_lt host 4 epoch
  rw [← store_big_four, epochField, htonl]
  cases host with
  | little =>
    have hstore := store_hton .little 4 epoch
    rw [if_pos rfl, ByteOrder.store, le_add 4 4, List.take_left' (length_le 4 _)]
    exact hstore
  | big =>
    have hhigh : hton .big 4 epoch / 256 ^ 4 = 0 := Nat.div_eq_of_lt hlt
    rw [if_neg (by decide), ByteOrder.store, le_add 4 4, hhigh, List.reverse_append,
      List.take_left' (by rw [List.length_reverse, length_le])]
    rfl

theorem scanEpoch_eq (host : ByteOrder) {bytes : List UInt8} (h : bytes.length = 4) :
    scanEpoch host bytes = if host = .little then ofBe bytes else 0 := by
  have hblit : blit (List.replicate 8 0) 0 bytes = bytes ++ List.replicate 4 0 := by
    rw [blit, h]
    rfl
  rw [scanEpoch, ntohl, hblit, ntoh]
  cases host with
  | little =>
    have hload :
        ByteOrder.little.load (bytes ++ List.replicate 4 0) = ByteOrder.little.load bytes := by
      rw [ByteOrder.load, ofLe_append, ofLe_replicate_zero]
      rfl
    rw [if_pos rfl, hload, store_load .little h, load_big]
  | big =>
    have hload :
        ByteOrder.big.load (bytes ++ List.replicate 4 0) = 256 ^ 4 * ofLe bytes.reverse := by
      rw [ByteOrder.load, List.reverse_append, ofLe_append, List.reverse_replicate,
        ofLe_replicate_zero, List.length_replicate, Nat.zero_add]
    rw [if_neg (by decide), hload, load_store, Nat.mul_mod_right]

/-- The byte order of the host is not seen on the wire, the epoch apart. -/
theorem server_eq (host : ByteOrder) (epoch : Nat) (succeed : Rates → Answer → Script Field σ)
    (hsize : fileSize < 2 ^ 64) :
    server host fileSize epoch succeed =
      .put .reply 0 (
      .read .parameters 4 fun blockSize =>
      .read .parameters 4 fun targetRate =>
      .read .parameters 4 fun errorRate =>
      .read .parameters 2 fun slowerNum =>
      .read .parameters 2 fun slowerDen =>
      .read .parameters 2 fun fasterNum =>
      .read .parameters 2 fun fasterDen =>
      if ofBe blockSize = 0 then .halt
      else
        .write .reply (be64 fileSize) <|
        .write .reply (be32 (ofBe blockSize)) <|
        .write .reply (be32 (Tsunami.Server.blockCount fileSize (ofBe blockSize))) <|
        .write .reply (be32 (if host = .little then epoch else 0)) <|
        if ofBe targetRate = 0 then .halt
        else
          succeed ⟨ofBe blockSize, ofBe targetRate, ofBe errorRate, ofBe slowerNum, ofBe slowerDen,
            ofBe fasterNum, ofBe fasterDen⟩
            ⟨fileSize, Tsunami.Server.blockCount fileSize (ofBe blockSize), epoch⟩) := by
  simp only [server, fetch_eq, submit_eq, store_htonll host hsize, epochField_eq, store_big_four]

theorem client_eq (host : ByteOrder) (param : Rates) (localOpens : Bool) (fail : Script Field σ)
    (succeed : Answer → Script Field σ) :
    client host param localOpens fail succeed =
      .get .reply fun result =>
      if result ≠ 0 then fail
      else
        .write .parameters (be32 param.blockSize) <|
        .write .parameters (be32 param.targetRate) <|
        .write .parameters (be32 param.errorRate) <|
        .write .parameters (be16 param.slowerNum) <|
        .write .parameters (be16 param.slowerDen) <|
        .write .parameters (be16 param.fasterNum) <|
        .write .parameters (be16 param.fasterDen) <|
        .read .reply 8 fun fileSize =>
        .read .reply 4 fun blockSize =>
        if ofBe blockSize ≠ param.blockSize then fail
        else
          .read .reply 4 fun blockCount =>
          .read .reply 4 fun epoch =>
          if localOpens then
            succeed ⟨ofBe fileSize, ofBe blockCount, if host = .little then ofBe epoch else 0⟩
          else fail := by
  simp only [client, submit_eq, fetch_eq, store_big_four, store_big_two]
  congr 1
  funext result
  split
  · rfl
  · iterate 7 refine congrArg (Script.write _ _) ?_
    refine Script.read_congr fun fileSize hsize => Script.read_congr fun temp htemp => ?_
    rw [htonl, hton_eq_ntoh, ntoh_load host htemp, load_big]
    split
    · rfl
    · refine Script.read_congr fun blockCount _ => Script.read_congr fun epoch hepoch => ?_
      rw [ntohll_load host hsize, scanEpoch_eq host hepoch]

/-- The client of the other modules is this one on any host. -/
theorem submit_client (host : ByteOrder) (p : Client.Parameter) (c : Client.Call)
    (fail succeed : Script Field σ) :
    Client.submit p c fail succeed =
      client host ⟨p.blockSize, p.targetRate, p.errorRate, p.slowerNum, p.slowerDen, p.fasterNum,
        p.fasterDen⟩ c.localOpens fail fun _ => succeed := by
  rw [client_eq]
  rfl

def Rates.config (p : Rates) (sp : Server.Parameter) (file : List UInt8) :
    Tsunami.Server.Config where
  file := file
  blockSize := p.blockSize
  blockCount := Tsunami.Server.blockCount file.length p.blockSize
  errorRate := p.errorRate
  slowerNum := p.slowerNum
  slowerDen := p.slowerDen
  fasterNum := p.fasterNum
  fasterDen := p.fasterDen
  ipdTime := u32 (1000000 * 8 * p.blockSize / p.targetRate)
  hbTimeout := sp.hbTimeout
  bigEndian := sp.bigEndian

/-- The server of the other modules is this one on a little-endian host. -/
theorem negotiate_server (sp : Server.Parameter) (c : Server.Call) (file : List UInt8)
    (succeed : Tsunami.Server.Config → Script Field σ) (hsize : file.length < 2 ^ 64) :
    .put .reply 0 (Server.negotiate sp c file succeed) =
      server .little file.length c.epoch fun p _ => succeed (p.config sp file) := by
  simp only [server_eq _ _ _ hsize, Server.negotiate, Rates.config,
    Tsunami.Server.blockCount, wholeCount, if_true, ne_eq, ite_not]

-- ---------------------------------------------------------------------------
-- Both sides
-- ---------------------------------------------------------------------------

structure Setup where
  serverHost : ByteOrder
  clientHost : ByteOrder
  param : Rates
  localOpens : Bool
  fileSize : Nat
  epoch : Nat

structure Setup.Fits (s : Setup) : Prop where
  param : s.param.Fits
  fileSize : s.fileSize < 2 ^ 64
  epoch : s.epoch < 2 ^ 32

/-- The client comes to `none` where it fails; the server does not get to a
result where it is trapped. -/
def negotiation (s : Setup) :
    Transition.System (Pair Field (Option Answer) (Rates × Answer)) Side :=
  duplex Script.goto Script.goto
    (client s.clientHost s.param s.localOpens (.goto none) fun a => .goto (some a))
    (server s.serverHost s.fileSize s.epoch fun p a => .goto (p, a))

theorem final_goto : Final (Script.goto : σ → Script Field σ) := fun _ => rfl

def Setup.offered (s : Setup) : Answer :=
  ⟨s.fileSize, Tsunami.Server.blockCount s.fileSize s.param.blockSize, s.epoch⟩

def Setup.taken (s : Setup) : Answer :=
  { s.offered with epoch := if s.clientHost = .little ∧ s.serverHost = .little then s.epoch else 0 }

/-- The end of the exchange: with a block size of 0 the server is trapped in it,
with a target rate of 0 behind it. -/
structure Setup.Ends (s : Setup) (p : Pair Field (Option Answer) (Rates × Answer)) : Prop where
  trapped : s.param.blockSize = 0 ∨ s.param.targetRate = 0 → p.right.script = .halt
  server : s.param.blockSize ≠ 0 → s.param.targetRate ≠ 0 →
    p.right.script = .goto (s.param, s.offered)
  client : s.param.blockSize ≠ 0 →
    p.left.script = .goto (if s.localOpens then some s.taken else none)

theorem negotiation_ends (s : Setup) (h : s.Fits) :
    Comes Script.goto Script.goto
      ⟨.start (client s.clientHost s.param s.localOpens (.goto none) fun a => .goto (some a)),
        .start (server s.serverHost s.fileSize s.epoch fun p a => .goto (p, a))⟩ s.Ends := by
  have hp := h.param
  rw [server_eq _ _ _ h.fileSize, client_eq]
  simp only [Party.start]
  refine .right (.single rfl) ?_
  simp only [Party.receive_mk, List.nil_append]
  refine .left (does_get ..) ?_
  simp only [Party.receive_nil, ne_eq, not_true, if_false]
  refine .toRight (length_be32 _) (.toRight (length_be32 _) (.toRight (length_be32 _)
    (.toRight (length_be16 _) (.toRight (length_be16 _) (.toRight (length_be16 _)
    (.toRight (length_be16 _) ?_))))))
  simp only [ofBe_be32, ofBe_be16, Nat.mod_eq_of_lt hp.blockSize, Nat.mod_eq_of_lt hp.targetRate,
    Nat.mod_eq_of_lt hp.errorRate, Nat.mod_eq_of_lt hp.slowerNum, Nat.mod_eq_of_lt hp.slowerDen,
    Nat.mod_eq_of_lt hp.fasterNum, Nat.mod_eq_of_lt hp.fasterDen]
  by_cases hblock : s.param.blockSize = 0
  · rw [if_pos hblock]
    exact .now ⟨fun _ => rfl, fun h => absurd hblock h, fun h => absurd hblock h⟩
  · rw [if_neg hblock]
    refine .toLeft (length_be64 _) (.toLeft (length_be32 _) ?_)
    simp only [ofBe_be32, Nat.mod_eq_of_lt hp.blockSize, not_true, if_false]
    refine .toLeft (length_be32 _) (.toLeft (length_be32 _) ?_)
    have hcount : Tsunami.Server.blockCount s.fileSize s.param.blockSize < 2 ^ 32 := u32_lt _
    have hepoch : (if s.serverHost = .little then s.epoch else 0) < 2 ^ 32 := by
      split
      · exact h.epoch
      · decide
    simp only [ofBe_be32, ofBe_be64, Nat.mod_eq_of_lt hcount, Nat.mod_eq_of_lt hepoch,
      Nat.mod_eq_of_lt h.fileSize]
    refine .now ⟨?_, ?_, ?_⟩
    · intro htrap
      exact if_pos (htrap.resolve_left hblock)
    · intro _ htarget
      exact if_neg htarget
    · intro _
      have htaken : s.taken = ⟨s.fileSize, Tsunami.Server.blockCount s.fileSize s.param.blockSize,
          if s.clientHost = .little then if s.serverHost = .little then s.epoch else 0 else 0⟩ := by
        rw [Setup.taken, Setup.offered, ite_and]
      rw [htaken]
      split <;> rfl

theorem negotiation_results (s : Setup) (h : s.Fits) (hr : (negotiation s).Reachable p)
    (hclient : p.left.script = .goto (some answer))
    (hserver : p.right.script = .goto (param, offered)) :
    answer = s.taken ∧ param = s.param ∧ offered = s.offered := by
  obtain ⟨q, hq, hends⟩ := negotiation_ends s h
  have hp := reachable_iff.mp hr
  have hblock : s.param.blockSize ≠ 0 := fun h₀ =>
    no_right_result final_goto hq hp (hends.trapped (.inl h₀)) hserver
  have htarget : s.param.targetRate ≠ 0 := fun h₀ =>
    no_right_result final_goto hq hp (hends.trapped (.inr h₀)) hserver
  have hleft := left_result final_goto hq hp (hends.client hblock) hclient
  have hright := right_result final_goto hq hp (hends.server hblock htarget) hserver
  obtain ⟨rfl, rfl⟩ := Prod.mk.inj hright
  refine ⟨?_, rfl, rfl⟩
  split at hleft
  · exact (Option.some.inj hleft).symm
  · cases hleft

/-- The parameters agree on both ends, and the answer does, if and only if both
hosts are little-endian or the epoch is 0. -/
theorem negotiation_agrees_iff (s : Setup) (h : s.Fits) (hr : (negotiation s).Reachable p)
    (hclient : p.left.script = .goto (some answer))
    (hserver : p.right.script = .goto (param, offered)) :
    (param = s.param ∧ answer = offered) ↔
      (s.serverHost = .little ∧ s.clientHost = .little ∨ s.epoch = 0) := by
  obtain ⟨rfl, rfl, rfl⟩ := negotiation_results s h hr hclient hserver
  have hagree : s.taken = s.offered ↔ (s.taken).epoch = s.epoch :=
    ⟨congrArg Answer.epoch, congrArg (Answer.mk _ _)⟩
  rw [hagree]
  simp only [true_and, Setup.taken]
  constructor
  · intro he
    split at he
    · rename_i hboth
      exact .inl ⟨hboth.2, hboth.1⟩
    · exact .inr he.symm
  · rintro (⟨hs, hc⟩ | he)
    · exact if_pos ⟨hc, hs⟩
    · rw [he]
      split <;> rfl

def defaultRates : Rates := ⟨1024, 650000000, 7500, 25, 24, 5, 6⟩

theorem defaultRates_fits : defaultRates.Fits :=
  ⟨by decide, by decide, by decide, by decide, by decide, by decide, by decide⟩

def threeBlocks (serverHost clientHost : ByteOrder) : Setup :=
  ⟨serverHost, clientHost, defaultRates, true, 3000, 1700000000⟩

theorem threeBlocks_fits (serverHost clientHost : ByteOrder) :
    (threeBlocks serverHost clientHost).Fits :=
  ⟨defaultRates_fits, show 3000 < 2 ^ 64 by decide, show 1700000000 < 2 ^ 32 by decide⟩

theorem little_hosts_agree :
    ∃ p answer param offered, (negotiation (threeBlocks .little .little)).Reachable p ∧
      p.left.script = .goto (some answer) ∧ p.right.script = .goto (param, offered) ∧
      param = (threeBlocks .little .little).param ∧ answer = offered := by
  obtain ⟨p, hp, hends⟩ := negotiation_ends _ (threeBlocks_fits .little .little)
  have hr := reachable_iff.mpr hp
  have hclient := hends.client (by decide)
  have hserver := hends.server (by decide) (by decide)
  exact ⟨p, _, _, _, hr, hclient, hserver,
    (negotiation_agrees_iff _ (threeBlocks_fits .little .little) hr hclient hserver).mpr
      (.inl ⟨rfl, rfl⟩)⟩

/-- From a big-endian server the client gets the epoch 0. -/
theorem big_server_loses_epoch :
    ∃ p, (negotiation (threeBlocks .big .little)).Reachable p ∧
      p.left.script = .goto (some ⟨3000, 3, 0⟩) ∧
      p.right.script = .goto ((threeBlocks .big .little).param, ⟨3000, 3, 1700000000⟩) := by
  obtain ⟨p, hp, hends⟩ := negotiation_ends _ (threeBlocks_fits .big .little)
  exact ⟨p, reachable_iff.mpr hp, hends.client (by decide), hends.server (by decide) (by decide)⟩

end Tsunami.Control.Negotiation
