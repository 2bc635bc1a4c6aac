import Tsunami.Control.Authentication
import Tsunami.Control.Negotiation
import Tsunami.Lib.Transfers

/-!
# Failures during the negotiation

`ttp_negotiate`, `ttp_authenticate`, `ttp_open_port` and `ttp_open_transfer` of
the server's `protocol.c`, over a control socket that answers as it likes.
`full_read` and `full_write` return the number of bytes they have moved, also
after an error, so that no caller ever finds a status below 0.
-/

namespace Tsunami.Control.Failures

open Bytes Transfers Authentication

structure Variable (n : Nat) where
  bytes : List UInt8
  length_bytes : bytes.length = n

instance : Inhabited (Variable n) := ⟨⟨List.replicate n 0, List.length_replicate ..⟩⟩

-- ---------------------------------------------------------------------------
-- The functions
-- ---------------------------------------------------------------------------

def protocolRevision : Nat := 0x20061025

def ttpNegotiate (clientRevision : Variable 4) : Program Int :=
  .write (be32 protocolRevision) fun status =>
  if status < 0 then .result (-1) else
  .read clientRevision.bytes fun status clientRevision =>
  if status < 0 then .result (-1) else
  .result (if clientRevision = be32 protocolRevision then 0 else -1)

/-- `random` is what `get_random_data` gives, if it does. -/
def ttpAuthenticate (random : Option (Variable 64)) (secret : Secret)
    (clientDigest : Variable 16) : Program Int :=
  match random with
  | none => .result (-1)
  | some random =>
    .write random.bytes fun status =>
    if status < 0 then .result (-1) else
    .read clientDigest.bytes fun status clientDigest =>
    if status < 0 then .result (-1) else
    match prepareProof random.bytes secret with
    | none => .traps
    | some serverDigest =>
      if clientDigest ≠ serverDigest then .write [1] fun _ => .result (-1)
      else .write [0] fun status => if status < 0 then .result (-1) else .result 0

structure PortOpened where
  status : Int
  port : Option (List UInt8)
  printed : List UInt8
  deriving DecidableEq, Repr

/-- `prepared` says whether the address structure can be had. -/
def ttpOpenPort (prepared verbose socketOpens : Bool) (port : Variable 2) : Program PortOpened :=
  if ¬prepared then .exits else
  .read port.bytes fun status port =>
  if status < 0 then .result ⟨-1, none, []⟩ else
  let printed := if verbose then decimal (ofBe port) else []
  if socketOpens then .result ⟨0, some port, printed⟩ else .result ⟨-1, none, printed⟩

structure Opened where
  status : Int
  param : Option Negotiation.Rates
  deriving DecidableEq, Repr

def warn : Program Opened := .result ⟨-1, none⟩

/-- What is decided outside the source: the output of `allhook`, whether there is
memory for the name, the files that can be opened, and the clock. -/
structure Opening where
  printed : List UInt8
  strdup : Bool
  fopen : List UInt8 → Option (List UInt8)
  epoch : Nat

/-- The variables that are read into, from `message` on the stack to the fields of
`ttp_parameter_t`, with what the last transfer has left in them. -/
structure Fields where
  message : Variable 1
  blockSize : Variable 4
  targetRate : Variable 4
  errorRate : Variable 4
  slowerNum : Variable 2
  slowerDen : Variable 2
  fasterNum : Variable 2
  fasterDen : Variable 2
  deriving Inhabited

def fetch (before : Variable n) (next : Nat → Program Opened) : Program Opened :=
  .read before.bytes fun status value => if status < 0 then warn else next (ofBe value)

def submit (bytes : List UInt8) (next : Program Opened) : Program Opened :=
  .write bytes fun status => if status < 0 then warn else next

/-- From the approval of the request on. Both divisions trap at 0. -/
def negotiate (o : Opening) (v : Fields) (file : List UInt8) : Program Opened :=
  submit [0] <|
  fetch v.blockSize fun blockSize =>
  fetch v.targetRate fun targetRate =>
  fetch v.errorRate fun errorRate =>
  fetch v.slowerNum fun slowerNum =>
  fetch v.slowerDen fun slowerDen =>
  fetch v.fasterNum fun fasterNum =>
  fetch v.fasterDen fun fasterDen =>
  if blockSize = 0 then .traps else
  submit (be64 file.length) <|
  submit (be32 blockSize) <|
  submit (be32 (Tsunami.Server.blockCount file.length blockSize)) <|
  submit (be32 o.epoch) <|
  if targetRate = 0 then .traps else
  .result ⟨0, some
    ⟨blockSize, targetRate, errorRate, slowerNum, slowerDen, fasterNum, fasterDen⟩⟩

def serve (o : Opening) (v : Fields) (filename : List UInt8) : Program Opened :=
  if ¬o.strdup then warn else
  match o.fopen filename with
  | none => .write [8] fun _ => warn
  | some file => negotiate o v file

def writeAll : List (List UInt8) → Program Opened → Program Opened
  | [], next => next
  | bytes :: rest, next => .write bytes fun _ => writeAll rest next

/-- `read_line`, into a buffer of `n + 1` bytes: the line, unless a call reads
nothing before its end. -/
def readLine : Nat → (Option (List UInt8) → Program Opened) → Program Opened
  | 0, next => .get fun b => next (b.map fun _ => [])
  | n + 1, next => .get fun
    | none => next none
    | some b => if endsLine b then next (some []) else readLine n fun line => next (line.map (b :: ·))

/-- A line that cannot be read ends the process. -/
def readName (next : List UInt8 → Program Opened) : Program Opened :=
  readLine (Server.maxFilenameLength - 1) fun
    | none => .exits
    | some filename => next filename

/-- What the client answers goes into a cleared `message`, and is only printed. -/
def acknowledge (next : Program Opened) : Program Opened :=
  .read (List.replicate 8 0) fun _ _ => next

def sendList (names : List (List UInt8)) (next : List UInt8 → Program Opened) : Program Opened :=
  writeAll (names.map (· ++ [0])) <| acknowledge <| readName next

def sendNames (p : Server.Parameter) (o : Opening) (next : List UInt8 → Program Opened) :
    Program Opened :=
  if p.allhook then
    let fileList := hookNames o.printed
    writeAll [sizeField (listSize fileList), sizeField fileList.length] <| acknowledge <|
    if 0 < fileList.length then sendList fileList next else next Server.star
  else
    writeAll [sizeField p.fileNameSize, sizeField p.totalFiles] <| acknowledge <|
    sendList p.fileNames next

def listing (p : Server.Parameter) : List (List UInt8) :=
  ((decimal p.totalFiles).take 9 ++ [0]) ::
    p.listed.flatMap fun f => [f.name ++ [0], (decimal f.size).take 19 ++ [0]]

def ttpOpenTransfer (p : Server.Parameter) (o : Opening) (v : Fields) : Program Opened :=
  readName fun filename =>
  if filename = Server.dirlistHackCmd then
    writeAll (listing p) <| .read v.message.bytes fun _ _ => warn
  else if filename = Server.star then sendNames p o (serve o v)
  else serve o v filename

-- ---------------------------------------------------------------------------
-- The condition
-- ---------------------------------------------------------------------------

/-- The revision is exchanged, or what comes of the client's differs already. -/
def NegotiateDetects (as : List Answer) : Prop :=
  FinishAll [4, 4] as ∧ (WholeAll [4, 4] as ∨ ¬moved 4 (rest 4 as) <+: be32 protocolRevision)

def AuthenticateDetects (random : Option (Variable 64)) (secret : Secret) (as : List Answer) :
    Prop :=
  match random with
  | none => True
  | some random =>
    match prepareProof random.bytes secret with
    | none => WholeAll [64, 16] as
    | some serverDigest => FinishAll [64, 16, 1] as ∧
        (WholeAll [64, 16, 1] as ∨ ¬moved 16 (rest 64 as) <+: serverDigest)

def OpenPortDetects (prepared verbose socketOpens : Bool) (as : List Answer) : Prop :=
  prepared = true → Finishes 2 as ∧ (Whole 2 as ∨ socketOpens = false ∧ verbose = false)

/-- The request is turned down, or everything is exchanged, up to a division by a
block size of 0. -/
def ServeDetects (o : Opening) (short : Bool) (filename : List UInt8) (as : List Answer) : Prop :=
  o.strdup = true →
    match o.fopen filename with
    | none => Finishes 1 as
    | some _ => short = false ∧ WholeAll [1, 4, 4, 4, 2, 2, 2, 2] as ∧
        (ofBe (moved 4 (rest 1 as)) ≠ 0 →
          WholeAll [8, 4, 4, 4] (restAll [1, 4, 4, 4, 2, 2, 2, 2] as))

def takeLine : Nat → List Answer → Option (List UInt8) × List Answer
  | 0, as => ((peek as).map fun _ => [], as.tail)
  | n + 1, as =>
    match peek as with
    | none => (none, as.tail)
    | some b =>
      if endsLine b then (some [], as.tail)
      else ((takeLine n as.tail).1.map (b :: ·), (takeLine n as.tail).2)

def takeName (as : List Answer) : Option (List UInt8) × List Answer :=
  takeLine (Server.maxFilenameLength - 1) as

def NameDetects (short : Bool) (as : List Answer)
    (next : Bool → List UInt8 → List Answer → Prop) : Prop :=
  match (takeName as).1 with
  | none => short = false
  | some filename => next short filename (takeName as).2

def ListDetects (short : Bool) (names : List (List UInt8)) (as : List Answer)
    (next : Bool → List UInt8 → List Answer → Prop) : Prop :=
  let counts := names.map (·.length + 1) ++ [8]
  FinishAll counts as ∧ NameDetects (short || fallsAll counts as) (restAll counts as) next

def NamesDetects (p : Server.Parameter) (o : Opening) (as : List Answer)
    (next : Bool → List UInt8 → List Answer → Prop) : Prop :=
  FinishAll [10, 10, 8] as ∧
    if p.allhook then
      if hookNames o.printed = [] then
        next (fallsAll [10, 10, 8] as) Server.star (restAll [10, 10, 8] as)
      else ListDetects (fallsAll [10, 10, 8] as) (hookNames o.printed) (restAll [10, 10, 8] as) next
    else ListDetects (fallsAll [10, 10, 8] as) p.fileNames (restAll [10, 10, 8] as) next

/-- Every transfer ends, and where one has not moved all of its bytes the request
is one for the list of files, or is turned down. -/
def OpenTransferDetects (p : Server.Parameter) (o : Opening) (as : List Answer) : Prop :=
  NameDetects false as fun short filename as =>
    if filename = Server.dirlistHackCmd then FinishAll ((listing p).map List.length ++ [1]) as
    else if filename = Server.star then NamesDetects p o as (ServeDetects o)
    else ServeDetects o short filename as

-- ---------------------------------------------------------------------------
-- What stands in a variable
-- ---------------------------------------------------------------------------

/-- A read that stops short leaves the value that is compared with, for some value
before, exactly if it has read a beginning of it. -/
theorem exists_completed {bs t : List UInt8} (ht : t.length = n) :
    (∃ v : Variable n, bs ++ v.bytes.drop bs.length = t) ↔ bs <+: t := by
  constructor
  · rintro ⟨v, hv⟩
    exact ⟨_, hv⟩
  · rintro ⟨r, rfl⟩
    refine ⟨⟨bs ++ r, ht⟩, ?_⟩
    rw [List.drop_left]

theorem decimal_injective : Function.Injective decimal := by
  intro m n h
  have hm : ofDecimal (decimal m ++ []) = m := ofDecimal_decimal m (by simp)
  have hn : ofDecimal (decimal n ++ []) = n := ofDecimal_decimal n (by simp)
  rw [← hm, ← hn, h]

theorem printed_differs {bs : List UInt8} (h : bs.length < 2) :
    ∃ v w : Variable 2, decimal (ofBe (bs ++ v.bytes.drop bs.length)) ≠
      decimal (ofBe (bs ++ w.bytes.drop bs.length)) := by
  refine ⟨⟨[0, 0], rfl⟩, ⟨[0, 1], rfl⟩, fun heq => ?_⟩
  have hval := decimal_injective heq
  rcases bs with _ | ⟨b, _ | ⟨c, bs⟩⟩
  · exact absurd hval (by decide)
  · have hzero : ofBe ([b] ++ [0]) = ofBe [b] * 256 + 0 := ofBe_append_singleton ..
    have hone : ofBe ([b] ++ [1]) = ofBe [b] * 256 + 1 := ofBe_append_singleton ..
    have hsame : ofBe ([b] ++ [0]) = ofBe ([b] ++ [1]) := hval
    omega
  · exact absurd h (by simp)

theorem length_prepareProof {buffer digest : List UInt8} {secret : Secret}
    (h : prepareProof buffer secret = some digest) : digest.length = 16 := by
  rw [prepareProof] at h
  split at h
  · cases h
  · cases h
    exact Md5.length_md5Digest _

-- ---------------------------------------------------------------------------
-- The three short functions
-- ---------------------------------------------------------------------------

variable {as : List Answer} {s : Bool}

theorem finishAll_pair {m n : Nat} :
    FinishAll [m, n] as ↔ Finishes m as ∧ Finishes n (rest m as) := by
  simp [FinishAll]

theorem falls_pair {m n : Nat} :
    (falls m as || falls n (rest m as)) = false ↔ WholeAll [m, n] as := by
  simp [WholeAll]

theorem ttpNegotiate_detects :
    Detects (· < 0) false ttpNegotiate as ↔ NegotiateDetects as := by
  have hcalls : Detects (· < 0) false ttpNegotiate as ↔ Finishes 4 as ∧ Finishes 4 (rest 4 as) ∧
      Detects (· < 0) (falls 4 as || falls 4 (rest 4 as)) (fun v : Variable 4 => .result
        (if moved 4 (rest 4 as) ++ v.bytes.drop (moved 4 (rest 4 as)).length =
          be32 protocolRevision then (0 : Int) else -1)) (rest 4 (rest 4 as)) := by
    refine (detects_write_checked (length_be32 _)).trans (and_congr_right fun _ => ?_)
    exact detects_read_checked Variable.length_bytes
  rw [hcalls, detects_result, ← and_assoc, ← finishAll_pair, NegotiateDetects]
  refine and_congr_right fun _ => ?_
  rw [← exists_completed (length_be32 _), ← falls_pair]
  constructor
  · intro hbad
    refine or_iff_not_imp_left.mpr fun hfall => ?_
    rintro ⟨v, hv⟩
    have hneg := (hbad (eq_true_of_ne_false hfall) v).1
    rw [if_pos hv] at hneg
    exact absurd hneg (by decide)
  · rintro (hwhole | hdiffers) hfall
    · exact absurd (hwhole.symm.trans hfall) Bool.false_ne_true
    · intro v
      have hne : ∀ w : Variable 4, ¬moved 4 (rest 4 as) ++
          w.bytes.drop (moved 4 (rest 4 as)).length = be32 protocolRevision :=
        fun w hw => hdiffers ⟨w, hw⟩
      simp only [if_neg (hne _)]
      exact ⟨by decide, fun _ => trivial⟩

theorem verdict_detects {got digest : List UInt8} (hlen : digest.length = 16) :
    Detects (· < 0) s (fun v : Variable 16 =>
        if got ++ v.bytes.drop got.length ≠ digest then .write [1] fun _ => .result (-1)
        else .write [0] fun status => if status < 0 then .result (-1) else .result (0 : Int)) as ↔
      Finishes 1 as ∧ ((s || falls 1 as) = false ∨ ¬got <+: digest) := by
  rw [← exists_completed hlen]
  by_cases hcompleted : ∃ v : Variable 16, got ++ v.bytes.drop got.length = digest
  · simp only [hcompleted, not_true, or_false]
    constructor
    · intro hd
      obtain ⟨v, hv⟩ := hcompleted
      have hat := hd.comp fun _ : Unit => v
      simp only [hv, ne_eq, not_true, if_false] at hat
      obtain ⟨hends, hzero⟩ := (detects_write_checked (n := 1) rfl).mp hat
      refine ⟨hends, ?_⟩
      by_contra hfall
      have hneg := (detects_result.mp hzero (eq_true_of_ne_false hfall) ()).1
      exact absurd hneg (by decide)
    · rintro ⟨-, hwhole⟩
      obtain ⟨hs, hone⟩ := Bool.or_eq_false_iff.mp hwhole
      refine detects_of_clean hs fun v => ?_
      split <;> rw [clean_write]
      · exact ⟨falls_eq_false.mp hone, clean_result⟩
      · refine ⟨falls_eq_false.mp hone, ?_⟩
        rw [if_neg (status_nonneg _)]
        exact clean_result
  · have hne : ∀ v : Variable 16, got ++ v.bytes.drop got.length ≠ digest :=
      fun v hv => hcompleted ⟨v, hv⟩
    simp only [hcompleted, not_false_eq_true, or_true, and_true]
    simp only [if_pos (hne _)]
    rw [detects_write (n := 1) rfl, detects_result]
    exact and_iff_left fun _ _ => ⟨by decide, fun _ => rfl⟩

theorem authenticate_calls (random : Variable 64) (secret : Secret) :
    Detects (· < 0) false (ttpAuthenticate (some random) secret) as ↔ FinishAll [64, 16] as ∧
      Detects (· < 0) (falls 64 as || falls 16 (rest 64 as)) (fun v : Variable 16 =>
        match prepareProof random.bytes secret with
        | none => .traps
        | some serverDigest =>
          if moved 16 (rest 64 as) ++ v.bytes.drop (moved 16 (rest 64 as)).length ≠ serverDigest then
            .write [1] fun _ => .result (-1)
          else .write [0] fun status => if status < 0 then .result (-1) else .result 0)
        (restAll [64, 16] as) := by
  rw [finishAll_pair, and_assoc]
  refine (detects_write_checked random.length_bytes).trans (and_congr_right fun _ => ?_)
  exact detects_read_checked Variable.length_bytes

theorem ttpAuthenticate_detects (random : Option (Variable 64)) (secret : Secret) :
    Detects (· < 0) false (ttpAuthenticate random secret) as ↔
      AuthenticateDetects random secret as := by
  cases random with
  | none =>
    refine iff_of_true ?_ trivial
    exact detects_result.mpr fun hs => absurd hs Bool.false_ne_true
  | some random =>
    rw [authenticate_calls, AuthenticateDetects]
    cases hproof : prepareProof random.bytes secret with
    | none =>
      rw [detects_traps, falls_pair]
      exact and_iff_right_of_imp WholeAll.finishAll
    | some digest =>
      have hlen : digest.length = 16 := length_prepareProof hproof
      rw [verdict_detects hlen, ← and_assoc]
      have hends :
          FinishAll [64, 16] as ∧ Finishes 1 (restAll [64, 16] as) ↔ FinishAll [64, 16, 1] as := by
        simp [FinishAll, restAll, and_assoc]
      have hwhole : ((falls 64 as || falls 16 (rest 64 as)) ||
          falls 1 (restAll [64, 16] as)) = false ↔ WholeAll [64, 16, 1] as := by
        simp [WholeAll, restAll, and_assoc]
      rw [hends, hwhole]

theorem ttpOpenPort_detects (prepared verbose socketOpens : Bool) :
    Detects (·.status < 0) false (ttpOpenPort prepared verbose socketOpens) as ↔
      OpenPortDetects prepared verbose socketOpens as := by
  cases prepared with
  | false =>
    refine iff_of_true ?_ fun h => absurd h Bool.false_ne_true
    exact detects_exits.mpr rfl
  | true =>
    have hcalls : Detects (·.status < 0) false (ttpOpenPort true verbose socketOpens) as ↔
        Finishes 2 as ∧ Detects (·.status < 0) (falls 2 as) (fun v : Variable 2 =>
          let port := moved 2 as ++ v.bytes.drop (moved 2 as).length
          let printed := if verbose then decimal (ofBe port) else []
          if socketOpens then .result (PortOpened.mk 0 (some port) printed)
          else .result ⟨-1, none, printed⟩) (rest 2 as) :=
      detects_read_checked Variable.length_bytes
    simp only [hcalls, OpenPortDetects, forall_const]
    refine and_congr_right fun _ => ?_
    cases socketOpens with
    | true =>
      simp only [if_true, Bool.true_eq_false, false_and, or_false]
      rw [detects_result, ← falls_eq_false]
      constructor
      · intro hbad
        by_contra hfall
        have hneg := (hbad (eq_true_of_ne_false hfall) default).1
        exact absurd hneg (show ¬(0 : Int) < 0 by decide)
      · exact fun hwhole hfall => absurd (hwhole.symm.trans hfall) Bool.false_ne_true
    | false =>
      simp only [Bool.false_eq_true, if_false, true_and]
      rw [detects_result, ← falls_eq_false]
      constructor
      · intro hbad
        refine or_iff_not_imp_left.mpr fun hfall => ?_
        have hfall := eq_true_of_ne_false hfall
        by_contra hverbose
        rw [eq_true_of_ne_false hverbose] at hbad
        have hshort : (moved 2 as).length < 2 :=
          length_moved_lt fun hw => Bool.false_ne_true ((falls_eq_false.mpr hw).symm.trans hfall)
        obtain ⟨v, w, hdiffer⟩ := printed_differs hshort
        exact hdiffer (congrArg PortOpened.printed ((hbad hfall w).2 v))
      · rintro (hwhole | rfl) hfall
        · exact absurd (hwhole.symm.trans hfall) Bool.false_ne_true
        · exact fun _ => ⟨show (-1 : Int) < 0 by decide, fun _ => rfl⟩

-- ---------------------------------------------------------------------------
-- Opening a transfer
-- ---------------------------------------------------------------------------

variable {short : Bool} {bad : Opened → Prop}

def Opened.Failed (r : Opened) : Prop := r.status < 0

theorem warn_failed {ι : Type} :
    Detects Opened.Failed s (fun _ : ι => warn) as := by
  refine detects_result.mpr fun _ _ => ⟨show (-1 : Int) < 0 by decide, fun _ => rfl⟩

theorem detects_writeAll {ι : Type} [Nonempty ι] {next : ι → Program Opened}
    (ws : List (List UInt8)) :
    Detects bad s (fun i => writeAll ws (next i)) as ↔ FinishAll (ws.map List.length) as ∧
      Detects bad (s || fallsAll (ws.map List.length) as) next
        (restAll (ws.map List.length) as) := by
  induction ws generalizing s as with
  | nil => simp [writeAll, FinishAll, fallsAll, restAll]
  | cons w ws ih =>
    have hfirst : Detects bad s (fun i => writeAll (w :: ws) (next i)) as ↔ Finishes w.length as ∧
        Detects bad (s || falls w.length as) (fun i => writeAll ws (next i)) (rest w.length as) :=
      detects_write rfl
    rw [hfirst, ih, Bool.or_assoc, ← and_assoc]
    rfl

theorem detects_readLine {ι : Type} (n : Nat)
    {next : ι → Option (List UInt8) → Program Opened} :
    Detects bad s (fun i => readLine n (next i)) as ↔
      Detects bad s (fun i => next i (takeLine n as).1) (takeLine n as).2 := by
  induction n generalizing as next with
  | zero => exact detects_get
  | succ n ih =>
    simp only [readLine]
    rw [detects_get]
    simp only [takeLine]
    cases peek as with
    | none => rfl
    | some b =>
      simp only
      split
      · rfl
      · exact ih

theorem detects_readName {ι : Type} [Nonempty ι] {next : ι → List UInt8 → Program Opened}
    {P : Bool → List UInt8 → List Answer → Prop}
    (h : ∀ filename as', Detects bad s (fun i => next i filename) as' ↔ P s filename as') :
    Detects bad s (fun i => readName (next i)) as ↔ NameDetects s as P := by
  simp only [readName]
  rw [detects_readLine, NameDetects, takeName]
  cases (takeLine (Server.maxFilenameLength - 1) as).1 with
  | none => exact detects_exits
  | some filename => exact h filename _

theorem detects_acknowledge {ι : Type} [Nonempty ι] {next : ι → Program Opened} :
    Detects bad s (fun i => acknowledge (next i)) as ↔
      Finishes 8 as ∧ Detects bad (s || falls 8 as) next (rest 8 as) :=
  detects_read fun _ => List.length_replicate ..

-- The parameters.

theorem never_submit {bytes : List UInt8} {next : Program Opened} (h : Never bad next) :
    Never bad (submit bytes next) := .write fun k => by
  rw [if_neg (status_nonneg k)]
  exact h

theorem never_fetch {before : Variable n} {next : Nat → Program Opened}
    (h : ∀ value, Never bad (next value)) : Never bad (fetch before next) := .read fun k v => by
  rw [if_neg (status_nonneg k)]
  exact h _

theorem clean_submit {bytes : List UInt8} {next : Program Opened} (hn : bytes.length = n) :
    Clean (submit bytes next) as ↔ Whole n as ∧ Clean next (rest n as) := by
  subst hn
  rw [submit, clean_write, if_neg (status_nonneg _)]

theorem clean_fetch {before : Variable n} {next : Nat → Program Opened} :
    Clean (fetch before next) as ↔
      Whole n as ∧ Clean (next (ofBe (moved n as))) (rest n as) := by
  rw [fetch, clean_read before.length_bytes, if_neg (status_nonneg _)]

theorem never_negotiate (o : Opening) (v : Fields) (file : List UInt8) :
    Never Opened.Failed (negotiate o v file) := by
  refine never_submit <| never_fetch fun blockSize => never_fetch fun targetRate =>
    never_fetch fun _ => never_fetch fun _ => never_fetch fun _ => never_fetch fun _ =>
    never_fetch fun _ => ?_
  split
  · exact .traps
  · refine never_submit <| never_submit <| never_submit <| never_submit ?_
    split
    · exact .traps
    · exact .result (show ¬(0 : Int) < 0 by decide)

theorem clean_negotiate (o : Opening) (v : Fields) (file : List UInt8) :
    Clean (negotiate o v file) as ↔ WholeAll [1, 4, 4, 4, 2, 2, 2, 2] as ∧
      (ofBe (moved 4 (rest 1 as)) ≠ 0 →
        WholeAll [8, 4, 4, 4] (restAll [1, 4, 4, 4, 2, 2, 2, 2] as)) := by
  have hone : ([0] : List UInt8).length = 1 := rfl
  simp only [negotiate, clean_submit hone, clean_fetch, WholeAll, restAll, List.foldl_cons,
    List.foldl_nil, and_true, and_assoc]
  repeat refine and_congr_right fun _ => ?_
  split
  · rename_i hzero
    exact iff_of_true clean_traps fun hne => absurd hzero hne
  · rename_i hne
    rw [clean_submit (length_be64 _), clean_submit (length_be32 _), clean_submit (length_be32 _),
      clean_submit (length_be32 _), imp_iff_right hne]
    repeat refine and_congr_right fun _ => ?_
    refine and_iff_left ?_
    split
    · exact clean_traps
    · exact clean_result

theorem detects_serve (o : Opening) (filename : List UInt8) :
    Detects Opened.Failed s (fun v => serve o v filename) as ↔ ServeDetects o s filename as := by
  simp only [serve, ServeDetects]
  cases o.strdup with
  | false => exact iff_of_true warn_failed fun h => absurd h Bool.false_ne_true
  | true =>
    simp only [not_true, if_false, forall_const]
    cases o.fopen filename with
    | none => exact (detects_write rfl).trans (and_iff_left warn_failed)
    | some file =>
      simp only [detects_never fun v => never_negotiate o v file, clean_negotiate, forall_const]

-- The lists.

theorem detects_sendList {ι : Type} [Nonempty ι] {next : ι → List UInt8 → Program Opened}
    {P : Bool → List UInt8 → List Answer → Prop}
    (h : ∀ s filename as', Detects bad s (fun i => next i filename) as' ↔ P s filename as')
    (names : List (List UInt8)) :
    Detects bad s (fun i => sendList names (next i)) as ↔ ListDetects s names as P := by
  have hcounts : (names.map (· ++ [0])).map List.length = names.map (·.length + 1) := by simp
  simp only [sendList, ListDetects]
  rw [detects_writeAll, hcounts, detects_acknowledge, detects_readName (h _), finishAll_append,
    fallsAll_append, restAll_append, and_assoc, Bool.or_assoc]
  simp [FinishAll, fallsAll, restAll]

theorem detects_sendNames {ι : Type} [Nonempty ι] {next : ι → List UInt8 → Program Opened}
    {P : Bool → List UInt8 → List Answer → Prop}
    (h : ∀ s filename as', Detects bad s (fun i => next i filename) as' ↔ P s filename as')
    (p : Server.Parameter) (o : Opening) :
    Detects bad false (fun i => sendNames p o (next i)) as ↔ NamesDetects p o as P := by
  have hstart : ∀ (a b : Nat) (rest' : ι → Program Opened),
      Detects bad false (fun i => writeAll [sizeField a, sizeField b] (acknowledge (rest' i))) as ↔
        FinishAll [10, 10, 8] as ∧
          Detects bad (fallsAll [10, 10, 8] as) rest' (restAll [10, 10, 8] as) := by
    intro a b rest'
    rw [detects_writeAll, detects_acknowledge]
    simp [FinishAll, fallsAll, restAll, and_assoc, Bool.or_assoc]
  simp only [sendNames, NamesDetects]
  cases p.allhook with
  | false =>
    simp only [Bool.false_eq_true, if_false]
    rw [hstart, detects_sendList h]
  | true =>
    simp only [if_true]
    rw [hstart]
    refine and_congr_right fun _ => ?_
    cases hnames : hookNames o.printed with
    | nil => exact h _ _ _
    | cons name names =>
      simp only [List.length_cons, Nat.zero_lt_succ, if_true, reduceCtorEq, if_false]
      exact detects_sendList h _

theorem ttpOpenTransfer_detects (p : Server.Parameter) (o : Opening) :
    Detects Opened.Failed false (ttpOpenTransfer p o) as ↔ OpenTransferDetects p o as := by
  refine detects_readName fun filename as' => ?_
  split
  · rw [detects_writeAll, detects_read fun v : Fields => v.message.length_bytes]
    rw [and_congr_right fun _ => and_iff_left warn_failed, finishAll_append]
    simp [FinishAll]
  · split
    · exact detects_sendNames (fun _ filename _ => detects_serve o filename) p o
    · exact detects_serve o filename

/-- Each of the four functions detects every failure of its transfers, and does
without what is missing, exactly under its condition. -/
theorem failures_detected_iff (as : List Answer) :
    (Detects (· < 0) false ttpNegotiate as ↔ NegotiateDetects as) ∧
    (∀ random secret, Detects (· < 0) false (ttpAuthenticate random secret) as ↔
      AuthenticateDetects random secret as) ∧
    (∀ prepared verbose socketOpens,
      Detects (·.status < 0) false (ttpOpenPort prepared verbose socketOpens) as ↔
        OpenPortDetects prepared verbose socketOpens as) ∧
    ∀ p o, Detects Opened.Failed false (ttpOpenTransfer p o) as ↔ OpenTransferDetects p o as :=
  ⟨ttpNegotiate_detects, ttpAuthenticate_detects, ttpOpenPort_detects, ttpOpenTransfer_detects⟩

def resetByPeer : List Answer := [.moves [0, 0, 0, 0], .fails]

def closedByPeer : List Answer := [.moves [0, 0, 0, 0], .moves [0x20, 0x06]]

/-- Where the variable on the stack happens to hold the revision, an error passes
for agreement; and an end of file is waited for without end. -/
theorem failures_undetected :
    ((ttpNegotiate ⟨be32 protocolRevision, rfl⟩).run resetByPeer).ending = .result 0 ∧
    ((ttpNegotiate default).run closedByPeer).ending = .hangs ∧
    ¬Detects (· < 0) false ttpNegotiate resetByPeer ∧
    ¬Detects (· < 0) false ttpNegotiate closedByPeer := by
  have hreset :
      ((ttpNegotiate ⟨be32 protocolRevision, rfl⟩).run resetByPeer).ending = .result 0 := by
    decide
  have hclosed : ((ttpNegotiate default).run closedByPeer).ending = .hangs := by decide
  refine ⟨hreset, hclosed, fun hd => ?_, fun hd => hd.ends default hclosed⟩
  obtain ⟨a, ha, hneg⟩ := hd.fails ⟨be32 protocolRevision, rfl⟩ (by decide)
  rw [hreset] at ha
  cases ha
  exact absurd hneg (by decide)

end Tsunami.Control.Failures
