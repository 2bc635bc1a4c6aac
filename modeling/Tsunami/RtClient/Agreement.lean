import Tsunami.Lib.Lockstep
import Tsunami.RtClient.ReceiveLaws

/-!
# Where the two clients agree

The receive loops of the file client and of the realtime client, on the same
datagrams and with the same timing. They do the same to the last field as long
as every number is one of the transfer's and no window reaches back below block
0 to where there is no bitmap.
-/

namespace Tsunami.RtClient

open Bytes Client Lockstep

-- ---------------------------------------------------------------------------
-- The two loops
-- ---------------------------------------------------------------------------

structure Turn where
  oracle : Oracle
  reception : Reception

def Turn.buffer (a : Turn) (h : Head) : List UInt8 := a.reception.buffer h.buffer

def Turn.thisBlock (a : Turn) (h : Head) : Nat := blockNumber (a.buffer h)

def Turn.thisType (a : Turn) (h : Head) : Nat := blockType (a.buffer h)

def start (cfg : Config) : Head where
  xfer := .create cfg.param cfg.fileSize cfg.blockCount
  buffer := List.replicate (6 + cfg.param.blockSize) 0
  queued := []
  sent := []

def fileLoop (param : Parameter) : Loop Head Turn where
  body h a :=
    let p := Client.pass param a.oracle false h.xfer h.buffer a.reception
    (h.after p, p.result.verdict = .next)

/-- A turn of the loop is one that the network thread of the file client makes. -/
theorem turns_step_fileLoop (cfg : Config) (h : Head) (a : Turn) :
    (turns cfg).step h ⟨a.oracle, false, a.reception⟩ =
      if ((fileLoop cfg.param).body h a).2 then some ((fileLoop cfg.param).body h a).1
      else none := by
  have hverdict : ((fileLoop cfg.param).body h a).2 = true ↔
      (h.pass cfg.param ⟨a.oracle, false, a.reception⟩).result.verdict = .next :=
    decide_eq_true_iff
  by_cases hv : (h.pass cfg.param ⟨a.oracle, false, a.reception⟩).result.verdict = .next
  · exact (if_pos hv).trans (if_pos (hverdict.mpr hv)).symm
  · exact (if_neg hv).trans (if_neg (mt hverdict.mp hv)).symm

def realtimeLoop (param : Parameter) : Risky Head Turn where
  body h a := (pass param a.oracle h.xfer h.buffer a.reception).map fun p =>
    (h.after p, p.result.verdict = .next)

structure Books where
  received : List UInt8
  blocksLeft : Nat
  nextBlock : Nat
  gaplessToBlock : Nat
  retransmit : Retransmit
  queued : List Datagram
  deriving DecidableEq

def books (h : Head) : Books :=
  ⟨h.xfer.received, h.xfer.blocksLeft, h.xfer.nextBlock, h.xfer.gaplessToBlock, h.xfer.retransmit,
    h.queued⟩

/-- The realtime client stays inside its bitmap, and keeps the books of the file
client. -/
def Agree (cfg : Config) (turns : List Turn) : Prop :=
  ((realtimeLoop cfg.param).run (start cfg) turns).map books =
    some (books ((fileLoop cfg.param).run (start cfg) turns))

-- ---------------------------------------------------------------------------
-- Where the condition stands
-- ---------------------------------------------------------------------------

/-- The gapless section has passed the block, and the window reaches back below
block 0: the source's subtraction wraps, or stops at the section. -/
structure WrapsOut (o : Oracle) (x : Transfer) (b : Nat) : Prop where
  passed : b < x.gaplessToBlock
  wide : b < o.window
  outside : ¬InBitmap x (u32 (max x.gaplessToBlock (2 ^ 32 + b - o.window) + 1))

theorem landsInside_iff (h : Sound n x) (hn : n < 2 ^ 32) (hb : b ≤ n) (o : Oracle) :
    LandsInside o x b ↔ ¬WrapsOut o x b := by
  have hcount := h.blockCount
  have hlt := h.gaplessLt
  have hinside : earliestBlock o x b ≤ b → LandsInside o x b := by
    intro hle
    have hwrap : u32 (earliestBlock o x b + 1) ≤ earliestBlock o x b + 1 := Nat.mod_le ..
    exact inBitmap_of_le (by omega)
  by_cases hg : x.gaplessToBlock ≤ b
  · have heq := earliestBlock_eq (o := o) (Nat.lt_of_le_of_lt hb hn) hg
    exact iff_of_true (hinside (by omega)) fun hw => Nat.not_le_of_lt hw.passed hg
  · have hmissing : u32 (b + 2 ^ 32 - x.gaplessToBlock) = b + 2 ^ 32 - x.gaplessToBlock := by
      rw [u32]
      omega
    by_cases hwide : b < o.window
    · have heq : earliestBlock o x b = max x.gaplessToBlock (2 ^ 32 + b - o.window) := by
        rw [earliestBlock, hmissing]
        omega
      rw [LandsInside, heq]
      constructor
      · intro hin hw
        exact hw.outside hin
      · intro hw
        by_contra hout
        exact hw ⟨Nat.lt_of_not_le hg, hwide, hout⟩
    · have heq : earliestBlock o x b = b - o.window := by
        rw [earliestBlock, hmissing]
        omega
      exact iff_of_true (hinside (by omega)) fun hw => hwide hw.wide

/-- The block is one of the transfer's, and if the semi-lossy mode hops over a
gap before it, it does not wrap out of the bitmap. -/
structure InStep (param : Parameter) (o : Oracle) (x : Transfer) (b ty : Nat) : Prop where
  le : b ≤ x.blockCount
  inside : Client.relevant x b ty = true → onWire x b ty = false → Hops param x b →
    ¬WrapsOut o x b

-- ---------------------------------------------------------------------------
-- One datagram
-- ---------------------------------------------------------------------------

theorem Sound.arrived (h : Sound n x) (hb : b ≤ n) (ty : Nat) : Sound n (arrived x b ty) := by
  rw [Client.arrived]
  split
  · exact h.counted ty
  · exact (h.counted ty).marked hb

theorem arrived_blockCount (x : Transfer) (b ty : Nat) :
    (arrived x b ty).blockCount = x.blockCount := by
  rw [Client.arrived]
  split <;> rfl

theorem arrived_hops (h : Hops param (arrived x b ty) b) : Hops param x b :=
  ⟨h.lossy, h.window, arrived_nextBlock x b ty ▸ h.ahead⟩

theorem arrived_wrapsOut : WrapsOut o (arrived x b ty) b ↔ WrapsOut o x b := by
  have hg := arrived_gapless x b ty
  have hc := arrived_blockCount x b ty
  constructor
  · intro hw
    exact ⟨hg ▸ hw.passed, hw.wide, by simpa only [InBitmap, hg, hc] using hw.outside⟩
  · intro hw
    exact ⟨hg ▸ hw.passed, hw.wide, by simpa only [InBitmap, hg, hc] using hw.outside⟩

theorem InStep.lands (hs : InStep param o x b ty) (h : Sound n x) (hn : n < 2 ^ 32) (hb : b ≤ n)
    (hrel : Client.relevant x b ty = true) :
    onWire (arrived x b ty) b ty = false → Hops param (arrived x b ty) b →
      LandsInside o (arrived x b ty) b := by
  intro hwire hop
  rw [landsInside_iff (h.arrived hb ty) hn hb, arrived_wrapsOut]
  exact hs.inside hrel (arrived_onWire x b ty ▸ hwire) (arrived_hops hop)

theorem relevant_same (h : Sound n x) (hb : b ≤ n) (ty : Nat) :
    relevant x b ty = some (Client.relevant x b ty) := by
  rw [relevant, gotBlock_same h hb]
  rfl

theorem iteration_eq (h : Sound n x) (hb : b ≤ n) (param : Parameter) (o : Oracle) (ty : Nat) :
    iteration param o x b ty =
      if Client.relevant x b ty = true then controlAndStats param o (arrived x b ty) b ty
      else some (Client.sendStats param o (countReceived x ty)) := by
  have hcnt := h.counted ty
  have hrel : Client.relevant (countReceived x ty) b ty = Client.relevant x b ty := rfl
  simp only [iteration, relevant_same hcnt hb, hrel, Option.bind_some, gotBlock_same hcnt hb,
    sendStats_same hcnt]
  rfl

theorem iteration_idle (h : Client.relevant x b ty = false) (param : Parameter) (o : Oracle) :
    Client.iteration param o false x b ty = Client.sendStats param o (countReceived x ty) := by
  have hrel : Client.relevant (countReceived x ty) b ty = false := h
  simp only [Client.iteration, hrel, Bool.false_eq_true, and_false, if_false]

theorem iteration_same (h : Sound n x) (hn : n < 2 ^ 32) (hs : InStep param o x b ty) :
    iteration param o x b ty = some (Client.iteration param o false x b ty) := by
  have hb : b ≤ n := h.blockCount ▸ hs.le
  rw [iteration_eq h hb]
  split
  · rename_i hrel
    rw [iteration_looked false ⟨rfl, hrel⟩,
      controlAndStats_same (h.arrived hb ty) hn hb ty (hs.lands h hn hb hrel)]
  · rename_i hrel
    rw [iteration_idle (eq_false_of_ne_true hrel)]

theorem Sound.iterated (h : Sound n x) (hn : n < 2 ^ 32) (hs : InStep param o x b ty) :
    Sound n (Client.iteration param o false x b ty).xfer := by
  have hb : b ≤ n := h.blockCount ▸ hs.le
  by_cases hrel : Client.relevant x b ty = true
  · rw [iteration_looked false ⟨rfl, hrel⟩]
    exact (h.arrived hb ty).steered hn hb ty (hs.lands h hn hb hrel)
  · rw [iteration_idle (eq_false_of_ne_true hrel)]
    exact (h.counted ty).reported param o

theorem iteration_outside (h : Sound n x) (hn : n < 2 ^ 32) (hb : b ≤ n)
    (hs : ¬InStep param o x b ty) : iteration param o x b ty = none := by
  have hwrong : Client.relevant x b ty = true ∧ onWire x b ty = false ∧ Hops param x b ∧
      WrapsOut o x b := by
    by_contra hno
    exact hs ⟨h.blockCount.symm ▸ hb, fun hrel hwire hop hw => hno ⟨hrel, hwire, hop, hw⟩⟩
  obtain ⟨hrel, hwire, hop, hw⟩ := hwrong
  have harr := h.arrived hb ty
  have hout : ¬LandsInside o (arrived x b ty) b := by
    rw [landsInside_iff harr hn hb, arrived_wrapsOut]
    exact not_not_intro hw
  have hop' : Hops param (arrived x b ty) b :=
    ⟨hop.lossy, hop.window, (arrived_nextBlock x b ty).symm ▸ hop.ahead⟩
  have hwire' : onWire (arrived x b ty) b ty = false := (arrived_onWire x b ty).trans hwire
  rw [iteration_eq h hb, if_pos hrel, controlAndStats, control_outside harr hb hwire' hop' hout]
  rfl

-- ---------------------------------------------------------------------------
-- One turn
-- ---------------------------------------------------------------------------

def Meets (param : Parameter) (h : Head) (a : Turn) : Prop :=
  Client.givesUp a.oracle h.xfer a.reception = true ∨
    InStep param a.oracle (opening a.oracle.atFrozen h.xfer a.reception).xfer (a.thisBlock h)
      (a.thisType h)

theorem Sound.opened (h : Sound n x) (w : WriteResult) (r : Reception) :
    Sound n (opening w x r).xfer := by
  rw [opening]
  split
  · exact h.repeated w
  · exact h

theorem failed_error : Reception.failed .error = true := rfl

theorem givesUp_same (h : Sound n x) (o : Oracle) (r : Reception) :
    givesUp o x r = some (Client.givesUp o x r) := by
  cases r with
  | error =>
    rw [givesUp, failed_error, if_pos rfl, ttpRepeatRetransmit_same h]
    rfl
  | datagram d => rfl

theorem receive_same (h : Sound n x) (hn : n < 2 ^ 32) (r : Reception)
    (hm : Client.givesUp o x r = true ∨ InStep param o (opening o.atFrozen x r).xfer b ty) :
    receive param o r.failed x b ty = some (Client.receive param o r.failed false x b ty) := by
  cases r with
  | error =>
    have hrep := h.repeated o.atFrozen
    simp only [receive, Client.receive, failed_error, if_true, ttpRepeatRetransmit_same h,
      Option.bind_some]
    cases hok : (Client.ttpRepeatRetransmit o.atFrozen x).ok with
    | true =>
      have hs := hm.resolve_left fun hup => by simp [Client.givesUp, hok] at hup
      rw [opening, failed_error, if_pos rfl] at hs
      rw [if_pos rfl, if_pos rfl, iteration_same hrep hn hs, Option.map_some]
    | false => rfl
  | datagram d => exact iteration_same h hn (hm.resolve_left Bool.false_ne_true)

theorem Sound.received (h : Sound n x) (hn : n < 2 ^ 32) (r : Reception)
    (hm : Client.givesUp o x r = true ∨ InStep param o (opening o.atFrozen x r).xfer b ty) :
    Sound n (Client.receive param o r.failed false x b ty).xfer := by
  cases r with
  | error =>
    have hrep := h.repeated o.atFrozen
    simp only [Client.receive, failed_error, if_true]
    split
    · rename_i hok
      have hs := hm.resolve_left fun hup => by simp [Client.givesUp, hok] at hup
      exact hrep.iterated hn hs
    · exact hrep
  | datagram d => exact h.iterated hn (hm.resolve_left Bool.false_ne_true)

theorem opening_blockCount (w : WriteResult) (x : Transfer) (r : Reception) :
    (opening w x r).xfer.blockCount = x.blockCount := (opening_sameBlocks w x r).blockCount

theorem queues_same (h : Sound n x) (r : Reception)
    (hb : Client.givesUp o x r = true ∨ b ≤ n) :
    queues o x r b = some (!Client.givesUp o x r && !Client.gotBlock x b) := by
  rw [queues, givesUp_same h, Option.bind_some]
  cases hup : Client.givesUp o x r with
  | true => rfl
  | false =>
    have hle := hb.resolve_left (by rw [hup]; exact Bool.false_ne_true)
    rw [if_neg Bool.false_ne_true, gotBlock_same h hle]
    rfl

theorem pass_same (h : Sound n k.xfer) (hn : n < 2 ^ 32) (hm : Meets param k a) :
    pass param a.oracle k.xfer k.buffer a.reception =
      some (Client.pass param a.oracle false k.xfer k.buffer a.reception) := by
  have hb : Client.givesUp a.oracle k.xfer a.reception = true ∨ a.thisBlock k ≤ n := by
    refine hm.imp_right fun hs => ?_
    have hle := hs.le
    rwa [opening_blockCount, h.blockCount] at hle
  have hrcv := receive_same h hn a.reception hm
  have hq := queues_same h a.reception hb
  simp only [Turn.thisBlock, Turn.thisType, Turn.buffer] at hrcv hq
  simp only [pass, hrcv, hq, Option.bind_some, Option.map_some, Client.pass, Option.some.injEq]
  cases Client.givesUp a.oracle k.xfer a.reception <;>
    cases Client.gotBlock k.xfer (blockNumber (a.reception.buffer k.buffer)) <;> rfl

theorem receive_outside (h : Sound n x) (hn : n < 2 ^ 32) (hb : b ≤ n) (r : Reception)
    (hup : Client.givesUp o x r = false) (hs : ¬InStep param o (opening o.atFrozen x r).xfer b ty) :
    receive param o r.failed x b ty = none := by
  cases r with
  | error =>
    have hok : (Client.ttpRepeatRetransmit o.atFrozen x).ok = true := by
      simpa [Client.givesUp, failed_error] using hup
    have hout : iteration param o (Client.ttpRepeatRetransmit o.atFrozen x).xfer b ty = none :=
      iteration_outside (h.repeated o.atFrozen) hn hb hs
    rw [receive, failed_error, if_pos rfl, ttpRepeatRetransmit_same h, Option.bind_some, if_pos hok,
      hout, Option.map_none]
  | datagram d => exact iteration_outside h hn hb hs

/-- A turn out of step goes outside the bitmap, or puts a block into the ring
that the transfer does not have. -/
theorem pass_apart (h : Sound n k.xfer) (hn : n < 2 ^ 32) (hm : ¬Meets param k a)
    (hp : pass param a.oracle k.xfer k.buffer a.reception = some p) :
    p.queued = some (a.buffer k) ∧ n < a.thisBlock k := by
  rw [Meets, not_or] at hm
  have hup := eq_false_of_ne_true hm.1
  have hbeyond : n < a.thisBlock k := by
    refine Nat.lt_of_not_le fun hb => ?_
    have hnone := receive_outside h hn hb a.reception hup hm.2
    simp only [Turn.thisBlock, Turn.thisType, Turn.buffer] at hnone
    simp only [pass, hnone, Option.bind_none] at hp
    cases hp
  refine ⟨?_, hbeyond⟩
  simp only [pass, Option.bind_eq_some_iff, Option.map_eq_some_iff] at hp
  obtain ⟨r, -, queued, hq, rfl⟩ := hp
  simp only [queues, givesUp_same h, hup, Option.bind_some, Bool.false_eq_true, if_false,
    Option.map_eq_some_iff] at hq
  obtain ⟨got, hgot, rfl⟩ := hq
  rw [gotBlock_beyond h hbeyond hgot]
  rfl

-- ---------------------------------------------------------------------------
-- Every run
-- ---------------------------------------------------------------------------

theorem fileLoop_follows (param : Parameter) (hn : n < 2 ^ 32) :
    Follows (fileLoop param) (realtimeLoop param) (fun h => Sound n h.xfer) (Meets param) where
  same h hm := by
    simp only [realtimeLoop, pass_same h hn hm, Option.map_some]
    rfl
  keeps h hm := h.received hn _ hm

structure Proper (n : Nat) (h : Head) : Prop where
  blockCount : h.xfer.blockCount = n
  queued : ∀ d ∈ h.queued, blockNumber d ≤ n

def Stray (n : Nat) (h : Head) : Prop := ∃ d ∈ h.queued, n < blockNumber d

theorem pass_blockCount (param : Parameter) (o : Oracle) (x : Transfer) (buf : List UInt8)
    (r : Reception) :
    (Client.pass param o false x buf r).result.xfer.blockCount = x.blockCount := by
  cases hup : Client.givesUp o x r with
  | true =>
    rw [pass_givesUp param false buf hup]
    exact (ttpRepeatRetransmit_sameBlocks o.atFrozen x).blockCount
  | false =>
    rw [(pass_sameBlocks param false buf hup).blockCount]
    split <;> rfl

theorem Proper.body (h : Proper n k) (param : Parameter) (a : Turn) :
    Proper n ((fileLoop param).body k a).1 where
  blockCount := (pass_blockCount ..).trans h.blockCount
  queued d hd := by
    rcases List.mem_append.mp hd with hold | hnew
    · exact h.queued d hold
    · simp only [Client.pass, Option.mem_toList] at hnew
      split at hnew
      · rename_i hq
        obtain rfl := Option.some.inj hnew
        refine Nat.le_of_not_lt fun hlt => ?_
        have hgot := gotBlock_of_gt (x := k.xfer) (h.blockCount.symm ▸ hlt)
        rw [hgot] at hq
        exact Bool.noConfusion hq.2.2
      · cases hnew

theorem fileLoop_parts (param : Parameter) (hn : n < 2 ^ 32) :
    Parts (fileLoop param) (realtimeLoop param) (fun h => Sound n h.xfer) (Proper n) (Stray n)
      (Meets param) where
  parts h hm ht := by
    obtain ⟨p, hp, rfl⟩ := Option.map_eq_some_iff.mp ht
    obtain ⟨hq, hbeyond⟩ := pass_apart h hn hm hp
    exact ⟨_, List.mem_append_right _ (Option.mem_toList.mpr hq), hbeyond⟩
  stays hd ht := by
    obtain ⟨p, -, rfl⟩ := Option.map_eq_some_iff.mp ht
    obtain ⟨d, hmem, hbeyond⟩ := hd
    exact ⟨d, List.mem_append_left _ hmem, hbeyond⟩
  never h := h.body param _

/-- The realtime client stays inside its bitmap and keeps the books of the file
client if and only if every datagram that the file client looks at is in step:
its number is not above `block_count`, and where the semi-lossy mode hops over a
gap before it, the window does not wrap to where there is no bitmap. -/
theorem receive_loops_agree_iff (cfg : Config) (hn : cfg.blockCount < 2 ^ 32) (turns : List Turn) :
    Agree cfg turns ↔ (fileLoop cfg.param).Throughout (Meets cfg.param) (start cfg) turns := by
  refine agree_iff (fileLoop_follows cfg.param hn) (fileLoop_parts cfg.param hn) ?_
    (create_sound cfg.param cfg.fileSize cfg.blockCount) ⟨rfl, fun _ hd => by cases hd⟩
  intro s t hs ht hbooks
  obtain ⟨d, hmem, hbeyond⟩ := ht
  have hqueued : t.queued = s.queued := congrArg Books.queued hbooks
  exact absurd (hs.queued d (hqueued ▸ hmem)) (Nat.not_le_of_lt hbeyond)

def windowed : Parameter := ⟨4, 650000000, 25, false, 1000⟩

def arrival (w b ty : Nat) : Turn := ⟨succeeding w, .datagram (header b ty ++ [1, 2, 3, 4])⟩

/-- The second of two blocks comes first, then the first. -/
theorem receive_loops_agree_iff_swapped :
    Agree ⟨defaultParameter 4, 8, 2⟩
      [arrival 0 2 tsBlockOriginal, arrival 0 1 tsBlockOriginal] := by
  refine (receive_loops_agree_iff ⟨defaultParameter 4, 8, 2⟩ (by decide) _).mpr
    ⟨.inr ⟨by decide, fun _ _ hop => ?_⟩, fun _ => ⟨.inr ⟨by decide +kernel, fun _ _ hop => ?_⟩,
      fun _ => trivial⟩⟩
  · cases hop.lossy
  · cases hop.lossy

/-- A datagram numbered above the only block finishes the transfer for the
realtime client; one numbered far above it, or block 2 of 3 with the mark of the
last, behind the gapless section, makes it look outside the bitmap. -/
theorem receive_loops_disagree :
    ¬Agree ⟨defaultParameter 4, 4, 1⟩ [arrival 0 2 tsBlockOriginal] ∧
    (realtimeLoop (defaultParameter 4)).run (start ⟨defaultParameter 4, 4, 1⟩)
      [arrival 0 4000000000 tsBlockOriginal] = none ∧
    (realtimeLoop windowed).run (start ⟨windowed, 12, 3⟩)
      [arrival 10 1 tsBlockOriginal, arrival 10 3 tsBlockRetransmission,
        arrival 10 2 tsBlockRetransmission, arrival 10 2 tsBlockTerminate] = none := by
  refine ⟨fun hagree => ?_, by decide +kernel, by decide +kernel⟩
  have hleft := congrArg (Option.map Books.blocksLeft) hagree
  exact absurd hleft (by decide +kernel)

end Tsunami.RtClient
