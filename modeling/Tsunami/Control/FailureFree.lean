import Tsunami.Control.Failures
import Tsunami.Lib.Following

/-!
# The scripts of the server's functions

On a control socket that does not fail, `ttp_authenticate`, `ttp_open_port` and
`ttp_open_transfer` do what their scripts say. Where a failure is detected, that
is so of every call that has not failed.
-/

namespace Tsunami.Control.Failures

open Bytes Transfers Duplex Authentication

variable {σ : Type} {as : List Answer}

-- ---------------------------------------------------------------------------
-- The two short functions
-- ---------------------------------------------------------------------------

theorem ttpAuthenticate_follows (random : Variable 64) (secret : Secret) (v : Variable 16) :
    Follows Eq (ttpAuthenticate (some random) secret v) (server random.bytes secret) := by
  refine .write ?_
  rw [if_neg (status_nonneg _)]
  refine .read v.length_bytes fun clientDigest _ => ?_
  rw [if_neg (status_nonneg _)]
  cases prepareProof random.bytes secret with
  | none => exact .traps
  | some serverDigest =>
    simp only
    split
    · exact .put (.result rfl)
    · exact .put (.result rfl)

theorem ttpOpenPort_follows (verbose : Bool) (c : Server.Call) (port : Variable 2) :
    Follows (fun r opened => r.status = if opened then 0 else -1)
      (ttpOpenPort true verbose c.socketOpens port)
      (Server.ttpOpenPort c (.goto false) (.goto true)) := by
  refine .read port.length_bytes fun value _ => ?_
  rw [if_neg (status_nonneg _)]
  cases c.socketOpens with
  | false => exact .result rfl
  | true => exact .result rfl

-- ---------------------------------------------------------------------------
-- Opening a transfer
-- ---------------------------------------------------------------------------

def Opening.of (c : Server.Call) : Opening := ⟨c.printed, true, c.fopen, c.epoch⟩

inductive Agrees (p : Server.Parameter) : Opened → Option Tsunami.Server.Config → Prop
  | failed : Agrees p ⟨-1, none⟩ none
  | opened (param : Negotiation.Rates) (file : List UInt8) :
      Agrees p ⟨0, some param⟩ (some (param.config p file))

variable {p : Server.Parameter}

theorem warn_follows : Follows (Agrees p) warn (.goto none : Script Field _) := .result .failed

theorem submit_follows {R : Opened → σ → Prop} {bytes : List UInt8} {next : Program Opened}
    {k : Field} {s : Script Field σ} (h : Follows R next s) :
    Follows R (submit bytes next) (.write k bytes s) := by
  refine .write ?_
  rw [if_neg (status_nonneg _)]
  exact h

theorem fetch_follows {R : Opened → σ → Prop} {before : Variable n} {next : Nat → Program Opened}
    {k : Field} {f : List UInt8 → Script Field σ} (h : ∀ bs, Follows R (next (ofBe bs)) (f bs)) :
    Follows R (fetch before next) (.read k n f) := by
  refine .read before.length_bytes fun bs _ => ?_
  rw [if_neg (status_nonneg _)]
  exact h bs

theorem writeAll_follows {R : Opened → σ → Prop} {next : Program Opened} {k : Field}
    {s : Script Field σ} (ws : List (List UInt8)) (h : Follows R next s) :
    Follows R (writeAll ws next) (.write k ws.flatten s) := by
  induction ws with
  | nil => exact h
  | cons w ws ih =>
    rw [List.flatten_cons, Script.write_append]
    exact .write ih

theorem readLine_follows {R : Opened → σ → Prop} {k : Field} (n : Nat)
    {next : Option (List UInt8) → Program Opened} {f : List UInt8 → Script Field σ}
    (hnone : next none = .exits) (h : ∀ line, Follows R (next (some line)) (f line)) :
    Follows R (readLine n next) (.readTo k endsLine n f) := by
  induction n generalizing next f with
  | zero => exact .get hnone fun _ => h []
  | succ n ih =>
    refine .get hnone fun b => ?_
    simp only
    split
    · exact h []
    · exact ih hnone fun line => h (b :: line)

theorem readName_follows {R : Opened → σ → Prop} {next : List UInt8 → Program Opened}
    {f : List UInt8 → Script Field σ} (h : ∀ filename, Follows R (next filename) (f filename)) :
    Follows R (readName next) (Control.readLine .fileName Server.maxFilenameLength f) :=
  readLine_follows _ rfl h

theorem acknowledge_follows {R : Opened → σ → Prop} {next : Program Opened} {s : Script Field σ}
    (h : Follows R next s) :
    Follows R (acknowledge next) (.read .acknowledgement 8 fun _ => s) :=
  .read (List.length_replicate ..) fun _ _ => h

theorem negotiate_follows (p : Server.Parameter) (c : Server.Call) (v : Fields)
    (file : List UInt8) :
    Follows (Agrees p) (negotiate (.of c) v file)
      (.put .reply 0 <| Server.negotiate p c file fun cfg => .goto (some cfg)) := by
  simp only [Server.negotiate, ne_eq, ite_not]
  refine .put ?_
  rw [if_neg (by decide)]
  refine fetch_follows fun blockSize => fetch_follows fun targetRate =>
    fetch_follows fun _ => fetch_follows fun _ => fetch_follows fun _ => fetch_follows fun _ =>
    fetch_follows fun _ => ?_
  split
  · exact .traps
  · refine submit_follows <| submit_follows <| submit_follows <| submit_follows ?_
    split
    · exact .traps
    · exact .result (.opened _ file)

theorem serve_follows (p : Server.Parameter) (c : Server.Call) (v : Fields)
    (filename : List UInt8) :
    Follows (Agrees p) (serve (.of c) v filename)
      (Server.serve p c filename (.goto none) fun cfg => .goto (some cfg)) := by
  have hmemory : ¬¬(Opening.of c).strdup := not_not.mpr rfl
  have hfopen : (Opening.of c).fopen = c.fopen := rfl
  rw [serve, if_neg hmemory, hfopen, Server.serve]
  cases c.fopen filename with
  | none => exact .put warn_follows
  | some file => exact negotiate_follows p c v file

theorem listing_flatten (p : Server.Parameter) :
    (listing p).flatten = cstrings [(decimal p.totalFiles).take 9] ++
      cstrings (p.listed.flatMap fun f => [f.name, (decimal f.size).take 19]) := by
  rw [listing, List.flatten_cons, cstrings, cstrings, List.flatMap_singleton, ← List.flatMap_id,
    List.flatMap_assoc, List.flatMap_assoc]
  simp

theorem sendFileList_follows (p : Server.Parameter) (v : Fields) :
    Follows (Agrees p) (writeAll (listing p) <| .read v.message.bytes fun _ _ => warn)
      (Server.sendFileList p (.goto none)) := by
  rw [Server.sendFileList, ← Script.write_append, ← listing_flatten]
  exact writeAll_follows _ <| .read v.message.length_bytes fun _ _ => warn_follows

theorem sendList_follows {R : Opened → σ → Prop} {next : List UInt8 → Program Opened}
    {f : List UInt8 → Script Field σ} (names : List (List UInt8))
    (h : ∀ filename, Follows R (next filename) (f filename)) :
    Follows R (sendList names next)
      (.write .reply (cstrings names) <| .read .acknowledgement 8 fun _ =>
        Control.readLine .fileName Server.maxFilenameLength f) := by
  rw [cstrings, List.flatMap_def]
  exact writeAll_follows _ <| acknowledge_follows <| readName_follows h

theorem sendNames_follows {R : Opened → σ → Prop} {next : List UInt8 → Program Opened}
    {f : List UInt8 → Script Field σ} (p : Server.Parameter) (c : Server.Call)
    (h : ∀ filename, Follows R (next filename) (f filename)) :
    Follows R (sendNames p (.of c) next) (Server.sendNames p c f) := by
  have hprinted : (Opening.of c).printed = c.printed := rfl
  rw [sendNames, Server.sendNames, hprinted]
  split
  · refine .write <| .write <| acknowledge_follows ?_
    by_cases hnames : 0 < (hookNames c.printed).length
    · rw [if_pos hnames, if_pos hnames]
      exact sendList_follows _ h
    · rw [if_neg hnames, if_neg hnames]
      exact h _
  · exact .write <| .write <| acknowledge_follows <| sendList_follows _ h

theorem ttpOpenTransfer_follows (p : Server.Parameter) (c : Server.Call) (v : Fields) :
    Follows (Agrees p) (ttpOpenTransfer p (.of c) v)
      (Server.ttpOpenTransfer p c (.goto none) fun cfg => .goto (some cfg)) := by
  refine readName_follows fun filename => ?_
  split
  · exact sendFileList_follows p v
  · split
    · exact sendNames_follows p c (serve_follows p c v)
    · exact serve_follows p c v filename

-- ---------------------------------------------------------------------------
-- What a result stands for
-- ---------------------------------------------------------------------------

/-- Where failures are detected, a client is let in only as the script lets it in. -/
theorem authenticated_plays (random : Variable 64) (secret : Secret) (v : Variable 16)
    (hdetects : AuthenticateDetects (some random) secret as)
    (hresult : ((ttpAuthenticate (some random) secret v).run as).ending = .result 0) :
    Plays Script.goto (server random.bytes secret) (.goto 0)
      ((ttpAuthenticate (some random) secret v).run as).written := by
  obtain ⟨_, rfl, hplays⟩ := (ttpAuthenticate_follows random secret v).detected
    ((ttpAuthenticate_detects _ secret).mpr hdetects) hresult (Int.lt_irrefl 0)
  exact hplays

theorem port_opened_plays (verbose : Bool) (c : Server.Call) (port : Variable 2)
    (hdetects : OpenPortDetects true verbose c.socketOpens as)
    (hresult : ((ttpOpenPort true verbose c.socketOpens port).run as).ending = .result r)
    (hgood : 0 ≤ r.status) :
    Plays Script.goto (Server.ttpOpenPort c (.goto false) (.goto true)) (.goto true)
      ((ttpOpenPort true verbose c.socketOpens port).run as).written := by
  obtain ⟨opened, hstatus, hplays⟩ := (ttpOpenPort_follows verbose c port).detected
    ((ttpOpenPort_detects true verbose _).mpr hdetects) hresult (Int.not_lt.mpr hgood)
  cases opened with
  | true => exact hplays
  | false =>
    rw [hstatus] at hgood
    exact absurd hgood (by decide)

theorem opened_plays (p : Server.Parameter) (c : Server.Call) (v : Fields)
    (hdetects : OpenTransferDetects p (.of c) as)
    (hresult : ((ttpOpenTransfer p (.of c) v).run as).ending = .result r) (hgood : 0 ≤ r.status) :
    ∃ param file, r = ⟨0, some param⟩ ∧
      Plays Script.goto (Server.ttpOpenTransfer p c (.goto none) fun cfg => .goto (some cfg))
        (.goto (some (param.config p file))) ((ttpOpenTransfer p (.of c) v).run as).written := by
  obtain ⟨_, hagrees, hplays⟩ := (ttpOpenTransfer_follows p c v).detected
    ((ttpOpenTransfer_detects p _).mpr hdetects) hresult (Int.not_lt.mpr hgood)
  cases hagrees with
  | failed => exact absurd hgood (by decide)
  | opened param file => exact ⟨param, file, rfl, hplays⟩

end Tsunami.Control.Failures
