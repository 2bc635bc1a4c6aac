import Tsunami.Control.Feedback
import Tsunami.Control.Handshake

/-!
# The phases of a session

A session of `get` and `dir` commands against `client_handler`. How a command
leaves the two ends depends on what fails at either of them: at rest, with the
server waiting for another kind of field than a name, or with bytes already
taken for something else.
-/

namespace Tsunami.Control

open Bytes Duplex

/-- How a command leaves the two ends: the server waits for the name of a file,
in call `n`; it waits for something else, with `more` telling whether the client
still has a file to ask for; it has taken a byte for something else than it is;
both wait for the other; or the server has been trapped. -/
inductive Ending
  | back (n : Nat)
  | astray (more : Bool)
  | crossed
  | stuck
  | trapped
  deriving DecidableEq, Repr

def Server.Call.leaves (s : Server.Call) : Option Nat := if s.socketOpens then s.timeout else some 0

def transferEnding (c : Client.Call) (s : Server.Call) (n : Nat) (more : Bool)
    (next : Ending) : Ending :=
  match s.leaves with
  | some k =>
    if k < 12 * c.written.length then .crossed
    else if Server.Heard c s ∨ k = 12 * c.written.length then if c.stops then next else .back (n + 1)
    else .astray (c.stops && more)
  | none => if Server.Heard c s then next else .astray (c.stops && more)

section
variable (sp : Server.Parameter) (cp : Client.Parameter) (cc : Nat → Client.Call)
  (sc : Nat → Server.Call)

/-- The end of the requests for these files, from request `n` on. `first` is
whether the server already waits for the name of the first, as after `*`. -/
def filesEnding : List (List UInt8) → Nat → Bool → Ending
  | [], n, _ => .back n
  | name :: names, n, first =>
    if first = false ∧ (name = Server.dirlistHackCmd ∨ name = Server.star) then .astray false
    else if (sc n).fopen name = none then .back (n + 1)
    else if cp.Traps then .trapped
    else if (cc n).localOpens ∧ (cc n).socketOpens then
      transferEnding (cc n) (sc n) n (!names.isEmpty) (filesEnding names (n + 1) false)
    else .astray false

def allEnding (n : Nat) : Ending :=
  if sp.allhook then
    if hookNames (sc n).printed = [] then
      if (sc n).fopen Server.star = none then .back (n + 1) else .astray false
    else filesEnding cp cc sc (hookNames (sc n).printed) n true
  else if sp.totalFiles = 0 then .stuck
  else filesEnding cp cc sc sp.fileNames n true

def commandEnding (n : Nat) : Client.Command → Ending
  | .get remote =>
    if remote.name = Server.star then allEnding sp cp cc sc n else filesEnding cp cc sc [remote.name] n false
  | .dir => .back (n + 1)

/-- Every command leaves the ends at rest, except that the last one may leave
the server waiting. -/
def InStep : List Client.Command → Nat → Prop
  | [], _ => True
  | command :: rest, n =>
    match commandEnding sp cp cc sc n command with
    | .back m => InStep rest m
    | .astray more => more = false ∧ rest = []
    | .crossed => False
    | .stuck | .trapped => True

/-- The lists that this command asks for, with `rest` to follow, hold names that
the client reads as they are. What is left of the list behind a `dir` meets the
command after it. -/
def ReadsBack (rest : List Client.Command) : Client.Command → Prop
  | .get remote =>
    remote.name = Server.star → sp.allhook = false → ∀ name ∈ sp.fileNames, IsLine name
  | .dir => rest ≠ [] → ∀ name ∈ sp.fileNames, FitsLine 2047 name

/-- So do those of all commands, as far as they stay in step. -/
def ListsRead : List Client.Command → Nat → Prop
  | [], _ => True
  | command :: rest, n => ReadsBack sp rest command ∧
    match commandEnding sp cp cc sc n command with
    | .back m => ListsRead rest m
    | _ => True

end

-- ---------------------------------------------------------------------------
-- A transfer
-- ---------------------------------------------------------------------------

section
variable {σ : Type} {l : σ → Script Field σ} {sp : Server.Parameter} {cp : Client.Parameter}
  {cc : Nat → Client.Call} {sc : Nat → Server.Call} {back : Nat → Script Field σ}

inductive Landed (cp : Client.Parameter) (cc : Nat → Client.Call) (back : Nat → Script Field σ) :
    Ending → Pair Field σ Server.Place → Prop
  | back : Landed cp cc back (.back m) ⟨⟨back m, [], t⟩, ⟨.goto (.open m), [], []⟩⟩
  | astray : k ≠ .fileName →
      Landed cp cc back (.astray false) ⟨⟨back m, i, t⟩, ⟨.get k next, [], []⟩⟩
  | more : k ≠ .fileName →
      Landed cp cc back (.astray true)
        ⟨⟨Client.getFiles cp cc back (name :: names) m, i, t⟩, ⟨.get k next, [], []⟩⟩
  | crossed : ¬ InPhase p → Landed cp cc back .crossed p
  | stuck : Deadlocked p → InPhase p → Landed cp cc back .stuck p
  | trapped : p.right.script = .halt → InPhase p → Landed cp cc back .trapped p

theorem record_crosses (p : Party Field σ) (b : UInt8) (rest : List (Field × UInt8)) :
    Comes l (Server.clientHandler sp sc) ⟨p, ⟨.goto (.open m), (.record, b) :: rest, []⟩⟩
      (Landed cp cc back .crossed) := by
  refine .right (.single rfl) (.right (.single rfl) (.now (.crossed ?_)))
  simp [InPhase]

theorem does_feedback (c : Client.Call) (next fail : Script Field σ) :
    Does l ⟨.write .record c.feedback <|
        if c.stops then .write .record Client.stopRecord.encode next else fail, i, t⟩
      ⟨if c.stops then next else fail, i, t⟩ ((Tsunami.Server.stream c.written).map (.record, ·)) := by
  have hrecords : c.feedback = Tsunami.Server.stream (c.records.map Client.Record.record) := by
    simp [Client.Call.feedback, Tsunami.Server.stream, List.flatMap_map]
  rw [Client.Call.written, Server.stream_append, List.map_append, ← hrecords]
  refine (does_write ..).trans ?_
  by_cases hstops : c.stops = true
  · simp only [hstops, ↓reduceIte]
    have := does_write (b := l) (i := i) (t := t) Field.record Client.stopRecord.encode next
    simpa [Tsunami.Server.stream] using this
  · simp only [hstops]
    exact .refl

theorem goes_on (hk : k ≠ .fileName) (names : List (List UInt8)) (stops : Bool) :
    Landed cp cc back (.astray (stops && !names.isEmpty))
      ⟨⟨if stops then Client.getFiles cp cc back names m else back m, i, t⟩, ⟨.get k next, [], []⟩⟩ := by
  cases stops with
  | false => exact .astray hk
  | true =>
    cases names with
    | nil => exact .astray hk
    | cons name names => exact .more hk

theorem late_lands (names : List (List UInt8)) (ht : (sc n).timeout = some k)
    (hlate : 12 * (cc n).written.length ≤ k)
    (hnext : Comes l (Server.clientHandler sp sc)
      ⟨⟨Client.getFiles cp cc back names (n + 1), [], t⟩, ⟨.goto (.open (n + 1)), [], []⟩⟩
      (Landed cp cc back next)) :
    Comes l (Server.clientHandler sp sc)
      ⟨⟨if (cc n).stops then Client.getFiles cp cc back names (n + 1) else back (n + 1), [], t⟩,
        ⟨.goto (.transfer n (.create (sc n) cfg)),
          (Tsunami.Server.stream (cc n).written).map (.record, ·), []⟩⟩
      (Landed cp cc back
        (if Server.Heard (cc n) (sc n) ∨ k = 12 * (cc n).written.length then
          if (cc n).stops then next else .back (n + 1)
        else .astray ((cc n).stops && !names.isEmpty))) := by
  have hw : (sc n).Waits (12 * (cc n).written.length) := by
    intro m hm
    rw [ht] at hm
    exact Option.some.inj hm ▸ hlate
  by_cases hh : Server.Heard (cc n) (sc n)
  · simp only [hh, hh.1, true_or, ↓reduceIte]
    exact .right (Server.does_stop hh hw) hnext
  · obtain ⟨f, hf, hall⟩ := Server.does_all (t := []) hh hw
    by_cases heq : k = 12 * (cc n).written.length
    · simp only [heq, or_true, ↓reduceIte]
      have hleave : (sc n).timeout = some f.consumed := by rw [ht, heq, hf.consumed]
      refine .right (hall.trans (Server.does_leave hleave)) ?_
      cases (cc n).stops with
      | true => exact hnext
      | false => exact .now .back
    · simp only [hh, heq, or_self, ↓reduceIte]
      have hstay : (sc n).timeout ≠ some f.consumed := by
        rw [ht, hf.consumed]
        exact fun h => heq (Option.some.inj h)
      exact .right (hall.trans (Server.does_wait hstay)) (.now (goes_on (by decide) ..))

theorem unserved_lands (names : List (List UInt8)) (next : Ending) :
    Comes l (Server.clientHandler sp sc)
      ⟨⟨if (cc n).stops then Client.getFiles cp cc back names (n + 1) else back (n + 1), [], t⟩,
        ⟨.goto (.open (n + 1)), (Tsunami.Server.stream (cc n).written).map (.record, ·), []⟩⟩
      (Landed cp cc back
        (if 0 < 12 * (cc n).written.length then .crossed
        else if Server.Heard (cc n) (sc n) ∨ 0 = 12 * (cc n).written.length then
          if (cc n).stops then next else .back (n + 1)
        else .astray ((cc n).stops && !names.isEmpty))) := by
  by_cases hsilent : (cc n).written = []
  · -- Nothing is written: the transfer is aborted before it begins.
    have hstops : ¬ (cc n).stops = true := fun h => by simp [Client.Call.written, h] at hsilent
    simp only [hsilent, hstops, List.length_nil, Nat.mul_zero, Nat.lt_irrefl, or_true,
      Bool.false_eq_true, ↓reduceIte]
    exact .now .back
  · have hpos : 0 < 12 * (cc n).written.length :=
      Nat.mul_pos (by decide) (List.length_pos_iff.mpr hsilent)
    simp only [hpos, ↓reduceIte]
    obtain ⟨r, rs, hrs⟩ := List.exists_cons_of_ne_nil hsilent
    rw [hrs]
    exact record_crosses ..

theorem transfer_lands (names : List (List UInt8))
    (hnext : Comes l (Server.clientHandler sp sc)
      ⟨⟨Client.getFiles cp cc back names (n + 1), [], t⟩, ⟨.goto (.open (n + 1)), [], []⟩⟩
      (Landed cp cc back next)) :
    Comes l (Server.clientHandler sp sc)
      ⟨⟨.write .record (cc n).feedback <|
          if (cc n).stops then
            .write .record Client.stopRecord.encode <| Client.getFiles cp cc back names (n + 1)
          else back (n + 1), [], t⟩,
        ⟨if (sc n).socketOpens then .goto (.transfer n (.create (sc n) cfg)) else .goto (.open (n + 1)),
          [], []⟩⟩
      (Landed cp cc back (transferEnding (cc n) (sc n) n (!names.isEmpty) next)) := by
  refine .left (does_feedback ..) ?_
  simp only [Party.receive_mk, List.nil_append]
  unfold transferEnding Server.Call.leaves
  by_cases hsocket : (sc n).socketOpens = true
  · simp only [hsocket, ↓reduceIte]
    cases ht : (sc n).timeout with
    | none =>
      have hw : (sc n).Waits (12 * (cc n).written.length) := fun m hm => by simp [ht] at hm
      by_cases hh : Server.Heard (cc n) (sc n)
      · simp only [hh, hh.1, ↓reduceIte]
        exact .right (Server.does_stop hh hw) hnext
      · simp only [hh, ↓reduceIte]
        obtain ⟨f, -, hall⟩ := Server.does_all (t := []) hh hw
        exact .right (hall.trans (Server.does_wait (by simp [ht]))) (.now (goes_on (by decide) ..))
    | some k =>
      by_cases hearly : k < 12 * (cc n).written.length
      · simp only [hearly, ↓reduceIte]
        obtain ⟨b, rest, hout⟩ := Server.does_timeout (t := []) ht hearly
        exact .right hout (record_crosses ..)
      · simp only [hearly, ↓reduceIte]
        exact late_lands names ht (Nat.le_of_not_lt hearly) hnext
  · simp only [hsocket, Bool.false_eq_true, ↓reduceIte]
    exact unserved_lands names next

-- ---------------------------------------------------------------------------
-- A request
-- ---------------------------------------------------------------------------

theorem negotiated {τ : Type} {r : τ → Script Field τ} {P : Pair Field σ τ → Prop} {c : Client.Call}
    {port : Tsunami.Server.Config → Script Field τ}
    (htrap : cp.Traps → ∀ p : Pair Field σ τ, p.right.script = .halt → p.right.strays = t' → P p)
    (h : ¬ cp.Traps → ∀ cfg,
      Comes l r ⟨⟨if c.localOpens then succeed else fail, [], t⟩, ⟨port cfg, [], t'⟩⟩ P) :
    Comes l r ⟨⟨Client.submit cp c fail succeed, [], t⟩,
      ⟨.put .reply 0 (Server.negotiate sp s file port), [], t'⟩⟩ P := by
  refine .right (.single rfl) (.left (.single rfl) ?_)
  simp only [Party.receive_nil, ne_eq, not_true_eq_false, ↓reduceIte]
  refine .toRight rfl
    (.toRight rfl (.toRight rfl (.toRight rfl (.toRight rfl (.toRight rfl (.toRight rfl
    ?_))))))
  simp only [ofBe_be32, Nat.mod_eq_of_lt cp.blockSize_lt, Nat.mod_eq_of_lt cp.targetRate_lt]
  by_cases hblock : cp.blockSize = 0
  · rw [if_pos hblock]
    exact .now (htrap (.inl hblock) _ rfl rfl)
  · rw [if_neg hblock]
    refine .toLeft (length_be64 _) (.toLeft (length_be32 _) ?_)
    simp only [ofBe_be32, Nat.mod_eq_of_lt cp.blockSize_lt, ne_eq, not_true_eq_false, ↓reduceIte]
    refine .toLeft (length_be32 _) (.toLeft (length_be32 _) ?_)
    by_cases htarget : cp.targetRate = 0
    · rw [if_pos htarget]
      exact .now (htrap (.inr htarget) _ rfl rfl)
    · rw [if_neg htarget]
      exact h (fun ht => ht.elim hblock htarget) _

theorem served_lands (name : List UInt8) (names : List (List UInt8))
    (hnext : ∀ t, Comes l (Server.clientHandler sp sc)
      ⟨⟨Client.getFiles cp cc back names (n + 1), [], t⟩, ⟨.goto (.open (n + 1)), [], []⟩⟩
      (Landed cp cc back next)) :
    Comes l (Server.clientHandler sp sc)
      ⟨⟨Client.submit cp (cc n) (back (n + 1)) <|
          Client.ttpOpenPort (cc n) (back (n + 1)) <|
          .write .record (cc n).feedback <|
          if (cc n).stops then
            .write .record Client.stopRecord.encode <| Client.getFiles cp cc back names (n + 1)
          else back (n + 1), [], t⟩,
        ⟨Server.serve sp (sc n) name (.goto (.open (n + 1))) fun cfg =>
          Server.ttpOpenPort (sc n) (.goto (.open (n + 1)))
            (.goto (.transfer n (.create (sc n) cfg))), [], []⟩⟩
      (Landed cp cc back
        (if (sc n).fopen name = none then .back (n + 1)
        else if cp.Traps then .trapped
        else if (cc n).localOpens ∧ (cc n).socketOpens then
          transferEnding (cc n) (sc n) n (!names.isEmpty) next
        else .astray false)) := by
  unfold Server.serve
  cases hopen : (sc n).fopen name with
  | none =>
    simp only [↓reduceIte]
    exact .right (.single rfl) (.left (.single rfl) (.now .back))
  | some file =>
    simp only [reduceCtorEq, ↓reduceIte]
    refine negotiated (fun htrap p hhalt hstrays => ?_) fun htrap cfg => ?_
    · rw [if_pos htrap]
      exact .trapped hhalt hstrays
    rw [if_neg htrap]
    have hport : Field.port ≠ .fileName := by decide
    unfold Client.ttpOpenPort
    by_cases hlocal : (cc n).localOpens = true
    · by_cases hsocket : (cc n).socketOpens = true
      · simp only [hlocal, hsocket, and_self, ↓reduceIte]
        exact .toRight rfl (transfer_lands names (hnext t))
      · simp only [hlocal, hsocket, Bool.false_eq_true, and_false, ↓reduceIte]
        exact .now (.astray hport)
    · simp only [hlocal, Bool.false_eq_true, false_and, ↓reduceIte]
      exact .now (.astray hport)

theorem name_arrives {τ : Type} {r : τ → Script Field τ} {P : Pair Field σ τ → Prop}
    {c : Client.Call} {f : List UInt8 → Script Field τ} (hline : IsLine name)
    (h : Comes l r ⟨⟨Client.submit cp c fail succeed, [], t⟩, ⟨f name, [], t'⟩⟩ P) :
    Comes l r ⟨⟨Client.ttpOpenTransfer cp c name fail succeed, [], t⟩,
      ⟨readLine .fileName Server.maxFilenameLength f, [], t'⟩⟩ P := by
  unfold Client.ttpOpenTransfer
  refine .left (does_write ..) ?_
  simp only [Party.receive_mk, List.nil_append]
  refine .right (does_readLine_all _ hline rfl (Nat.le_refl _) _) ?_
  rwa [Party.receive_nil]

theorem decimal_cons (n : Nat) : ∃ d ds, decimal n = d :: ds ∧ isDigit d = true := by
  obtain ⟨d, ds, hd⟩ := List.exists_cons_of_ne_nil (decimal_ne_nil n)
  exact ⟨d, ds, hd, isDigit_of_mem_decimal (n := n) (by simp [hd])⟩

theorem digit_ne {d : UInt8} (hd : isDigit d = true) (hc : isDigit c = false) : d ≠ c := by
  rintro rfl
  rw [hd] at hc
  cases hc

/-- A list in place of the answer: the client takes its first digit for a
refusal, and the server waits for an acknowledgement. -/
theorem misread {c : Client.Call} {s : Script Field Server.Place}
    (hs : Does (Server.clientHandler sp sc) ⟨s, [], []⟩ ⟨.get .acknowledgement next, [], []⟩ out)
    (hout : out.head? = some (Field.reply, d)) (hd : isDigit d = true) :
    Comes l (Server.clientHandler sp sc) ⟨⟨Client.submit cp c (back m) succeed, [], t⟩, ⟨s, [], []⟩⟩
      (Landed cp cc back (.astray false)) := by
  have hne : d ≠ 0 := digit_ne hd rfl
  obtain ⟨more, rfl⟩ := List.head?_eq_some_iff.mp hout
  refine .right hs (.left (does_get ..) ?_)
  rw [if_pos hne]
  exact .now (.astray (by decide))

theorem fileList_misread {c : Client.Call} :
    Comes l (Server.clientHandler sp sc) ⟨⟨Client.submit cp c (back m) succeed, [], t⟩,
      ⟨Server.sendFileList sp fail, [], []⟩⟩ (Landed cp cc back (.astray false)) := by
  obtain ⟨d, ds, hdec, hd⟩ := decimal_cons sp.totalFiles
  refine misread (d := d) ((does_write ..).trans (does_write ..)) ?_ hd
  simp [hdec, cstrings]

theorem names_misread {c : Client.Call} {next : List UInt8 → Script Field Server.Place} :
    Comes l (Server.clientHandler sp sc) ⟨⟨Client.submit cp c (back m) succeed, [], t⟩,
      ⟨Server.sendNames sp s next, [], []⟩⟩ (Landed cp cc back (.astray false)) := by
  have hsizes : ∃ a b f, Server.sendNames sp s next =
      .write .reply (sizeField a) (.write .reply (sizeField b) (.read .acknowledgement 8 f)) := by
    unfold Server.sendNames
    split <;> exact ⟨_, _, _, rfl⟩
  obtain ⟨a, b, f, hs⟩ := hsizes
  obtain ⟨d, ds, hdec, hd⟩ := decimal_cons a
  rw [hs]
  refine misread (d := d)
    ((does_write ..).trans (does_write ..)) ?_ hd
  simp [hdec, sizeField]

def waiting (sp : Server.Parameter) (sc : Nat → Server.Call) (n : Nat) (first : Bool) :
    Script Field Server.Place :=
  if first then
    readLine .fileName Server.maxFilenameLength fun filename =>
      Server.serve sp (sc n) filename (.goto (.open (n + 1))) fun cfg =>
      Server.ttpOpenPort (sc n) (.goto (.open (n + 1))) (.goto (.transfer n (.create (sc n) cfg)))
  else .goto (.open n)

theorem files_land (first : Bool) (hnames : ∀ name ∈ names, IsLine name)
    (hfirst : first = true → names ≠ []) :
    Comes l (Server.clientHandler sp sc)
      ⟨⟨Client.getFiles cp cc back names n, [], t⟩, ⟨waiting sp sc n first, [], []⟩⟩
      (Landed cp cc back (filesEnding cp cc sc names n first)) := by
  induction names generalizing n first t with
  | nil =>
    cases first with
    | true => exact absurd rfl (hfirst rfl)
    | false => exact .now .back
  | cons name names ih =>
    have hline := hnames name (by simp)
    have hnext := fun t => ih false (n := n + 1) (t := t) (fun m hm => hnames m (by simp [hm]))
      (by simp)
    unfold Client.getFiles filesEnding
    cases first with
    | true =>
      simp only [waiting, Bool.true_eq_false, false_and, ↓reduceIte]
      exact name_arrives hline (served_lands name names hnext)
    | false =>
      simp only [waiting, Bool.false_eq_true, true_and, ↓reduceIte]
      refine .right Server.does_open ?_
      rw [Party.receive_nil]
      unfold Server.ttpOpenTransfer
      refine name_arrives hline ?_
      by_cases hdir : name = Server.dirlistHackCmd
      · simp only [hdir, true_or, ↓reduceIte]
        exact fileList_misread
      · by_cases hstar : name = Server.star
        · simp only [hstar, or_true, ↓reduceIte]
          exact names_misread
        · simp only [hdir, hstar, or_self, ↓reduceIte]
          exact served_lands name names hnext

-- ---------------------------------------------------------------------------
-- A command
-- ---------------------------------------------------------------------------

theorem names_arrive {τ : Type} {r : τ → Script Field τ} {P : Pair Field σ τ → Prop}
    {next : List (List UInt8) → Script Field σ} {rest : Script Field τ}
    (hnames : ∀ name ∈ names, IsLine name)
    (h : Comes l r ⟨⟨next names, [], t⟩, ⟨rest, [], t'⟩⟩ P) :
    Comes l r
      ⟨⟨readLines .reply 1024 names.length fun names =>
          .write .acknowledgement (text "got list") <| next names, [], t⟩,
        ⟨.write .reply (cstrings names) <| .read .acknowledgement 8 fun _ => rest, [], t'⟩⟩ P := by
  refine .right (does_write ..) ?_
  simp only [Party.receive_mk, List.nil_append]
  have hread := does_readLines (b := l) (i := []) (t := t) .reply hnames (Nat.le_refl 1024) rfl
    fun names => .write .acknowledgement (text "got list") <| next names
  rw [List.append_nil] at hread
  refine .left hread ?_
  rw [Party.receive_nil]
  exact .toRight rfl h

theorem all_land (hfiles : sp.allhook = false → ∀ name ∈ sp.fileNames, IsLine name) :
    Comes l (Server.clientHandler sp sc)
      ⟨⟨Client.requestNames (back (n + 1)) fun names => Client.getFiles cp cc back names n, [], t⟩,
        ⟨.goto (.open n), [], []⟩⟩
      (Landed cp cc back (allEnding sp cp cc sc n)) := by
  refine .right Server.does_open ?_
  rw [Party.receive_nil]
  unfold allEnding
  cases hhook : sp.allhook with
  | true =>
    have hcount := (length_le_listSize _).trans (hookNames_size (sc n).printed)
    have hsmall : (hookNames (sc n).printed).length < 10 ^ 9 :=
      Nat.lt_of_le_of_lt hcount (by decide)
    by_cases hnone : hookNames (sc n).printed = []
    · simp only [hnone, ↓reduceIte]
      refine sizes_exchanged (Nat.zero_lt_succ _) (Server.sendNames_none hhook hnone) ?_
      rw [if_pos rfl]
      unfold Server.serve
      cases (sc n).fopen Server.star with
      | none => exact .right (.single rfl) (.left (.single rfl) (.now .back))
      | some file =>
        exact .right (.single rfl)
          (.left (.single rfl) (.now (.astray (k := .parameters) (by decide))))
    · simp only [hnone, ↓reduceIte]
      refine sizes_exchanged hsmall (Server.sendNames_hook hhook hnone) ?_
      rw [if_neg (mt List.length_eq_zero_iff.mp hnone)]
      refine names_arrive (fun name => hookNames_line) ?_
      exact files_land true (fun name => hookNames_line) fun _ => hnone
  | false =>
    simp only [Bool.false_eq_true, ↓reduceIte]
    refine sizes_exchanged sp.totalFiles_lt (Server.sendNames_files hhook) ?_
    by_cases hnone : sp.totalFiles = 0
    · have hnames : sp.fileNames = [] := List.length_eq_zero_iff.mp (by simpa using hnone)
      rw [if_pos hnone, if_pos hnone, hnames]
      exact .now (.stuck ⟨⟨⟨_, _, rfl⟩, rfl⟩, ⟨⟨_, _, rfl⟩, rfl⟩⟩ rfl)
    · have hne : sp.fileNames ≠ [] := fun hnil => hnone (by rw [← sp.length_fileNames, hnil]; rfl)
      rw [if_neg hnone, if_neg hnone, ← sp.length_fileNames]
      refine names_arrive (hfiles hhook) ?_
      exact files_land true (hfiles hhook) fun _ => hne

theorem decimal_line (n : Nat) (hk : k < 1024) : IsLine ((decimal n).take k) := by
  refine ⟨fun b hb => ?_, Nat.lt_of_le_of_lt (List.length_take_le k _) hk⟩
  have hd := isDigit_of_mem_decimal (List.mem_of_mem_take hb)
  simp [endsLine, digit_ne hd (c := 0) rfl, digit_ne hd (c := 10) rfl]

theorem entry_line (hfiles : ∀ name ∈ sp.fileNames, FitsLine 2047 name) :
    ∀ line ∈ sp.listed.flatMap fun f => [f.name, (decimal f.size).take 19],
      FitsLine 2047 line := by
  intro line hline
  obtain ⟨f, hf, hmem⟩ := List.mem_flatMap.mp hline
  rcases List.mem_cons.mp hmem with rfl | hmem
  · exact hfiles _ (List.mem_map_of_mem hf)
  · rw [List.mem_singleton.mp hmem]
    exact (decimal_line f.size (by decide)).fits (by decide)

theorem length_entries (sp : Server.Parameter) :
    (sp.listed.flatMap fun f => [f.name, (decimal f.size).take 19]).length = 2 * sp.totalFiles := by
  have hlisted : sp.listed.length = sp.totalFiles := by
    rw [← sp.length_fileNames, Server.Parameter.fileNames, List.length_map]
  rw [← hlisted]
  simp [List.length_flatMap, Nat.mul_comm]

theorem dir_exchanged {τ : Type} {r : τ → Script Field τ} {P : Pair Field σ τ → Prop}
    {refused : Script Field σ} (list : Nat → Script Field σ) {fail : Script Field τ}
    {succeed : Tsunami.Server.Config → Script Field τ} {c : Server.Call}
    (h : Comes l r ⟨⟨list sp.totalFiles,
        (cstrings (sp.listed.flatMap fun f => [f.name, (decimal f.size).take 19])).map
          (.reply, ·), t⟩,
      ⟨.read .acknowledgement 1 fun _ => fail, [], t'⟩⟩ P) :
    Comes l r
      ⟨⟨.write .fileName (text "!#DIR??" ++ [10]) <|
          .get .reply fun result =>
          if result = 8 then refused
          else readLine .reply 2046 fun rest => list (ofDecimal (result :: rest) % 2 ^ 16), [], t⟩,
        ⟨Server.ttpOpenTransfer sp c fail succeed, [], t'⟩⟩ P := by
  have hline : IsLine Server.dirlistHackCmd := isLine_of_all rfl (by decide)
  obtain ⟨d, ds, hdec, hd⟩ := decimal_cons sp.totalFiles
  have hlen : (decimal sp.totalFiles).length ≤ 9 := length_decimal_le (by decide) sp.totalFiles_lt
  have hcount : (decimal sp.totalFiles).take 9 = d :: ds := by
    rw [List.take_of_length_le hlen, hdec]
  have hfirst : IsLine (d :: ds) := hcount ▸ decimal_line sp.totalFiles (by decide)
  have hrest : IsLine ds :=
    ⟨fun b hb => hfirst.plain b (by simp [hb]), Nat.lt_of_succ_lt hfirst.short⟩
  have hval : ofDecimal (d :: ds) % 2 ^ 16 = sp.totalFiles := by
    have hread : ofDecimal (decimal sp.totalFiles ++ []) = sp.totalFiles :=
      ofDecimal_decimal sp.totalFiles (by simp)
    rw [List.append_nil, hdec] at hread
    rw [hread]
    exact Nat.mod_eq_of_lt (Nat.mod_lt _ (by decide))
  refine .left (does_write ..) ?_
  simp only [Party.receive_mk, List.nil_append]
  unfold Server.ttpOpenTransfer
  refine .right (does_readLine_all _ hline rfl (Nat.le_refl _) _) ?_
  simp only [↓reduceIte, Server.sendFileList, hcount]
  refine .right (does_write ..) (.right (does_write ..) ?_)
  have hbytes : (cstrings [d :: ds]).map (Field.reply, ·) =
      (Field.reply, d) :: (ds ++ [0]).map (Field.reply, ·) := by
    simp [cstrings]
  simp only [Party.receive_mk, Party.receive_nil, List.nil_append, hbytes, List.cons_append]
  refine .left (does_get ..) ?_
  rw [if_neg (digit_ne hd rfl), Party.receive_nil]
  refine .left (does_readLine _ hrest rfl (by decide) _) ?_
  rwa [Party.receive_nil, hval]

theorem dir_lands (hfiles : ∀ name ∈ sp.fileNames, FitsLine 2047 name) :
    Comes l (Server.clientHandler sp sc)
      ⟨⟨Client.commandDir n back, [], t⟩, ⟨.goto (.open n), [], []⟩⟩
      (Landed cp cc back (.back (n + 1))) := by
  have hread := does_readLines_fit (b := l) (i := []) (t := t) .reply (entry_line hfiles)
    (length_entries sp) fun _ =>
      .put .acknowledgement 0 <| back (n + 1)
  rw [List.append_nil] at hread
  refine .right Server.does_open ?_
  rw [Party.receive_nil]
  refine dir_exchanged (fun k => readLines .reply 2047 (2 * k) fun _ =>
    .put .acknowledgement 0 <| back (n + 1)) ?_
  exact .left hread (.left (.single rfl) (.right (.single rfl) (.now .back)))

theorem command_lands (hlists : ReadsBack sp rest command) (hlast : rest = [] → command ≠ .dir) :
    Comes l (Server.clientHandler sp sc)
      ⟨⟨Client.command cp cc n back command, [], t⟩, ⟨.goto (.open n), [], []⟩⟩
      (Landed cp cc back (commandEnding sp cp cc sc n command)) := by
  cases command with
  | dir => exact dir_lands (hlists fun hnil => hlast hnil rfl)
  | get remote =>
    have htext : text "*" = Server.star := rfl
    by_cases hstar : remote.name = Server.star
    · simp only [Client.command, Client.commandGet, commandEnding, htext, hstar, ↓reduceIte]
      exact all_land (hlists hstar)
    · simp only [Client.command, Client.commandGet, commandEnding, htext, hstar, ↓reduceIte]
      refine files_land false (fun name hname => ?_) (by simp)
      rw [List.mem_singleton.mp hname]
      exact remote.line

-- ---------------------------------------------------------------------------
-- A session
-- ---------------------------------------------------------------------------

theorem getFiles_writes (name : List UInt8) (names : List (List UInt8)) (n : Nat) :
    ∃ b next, Client.getFiles cp cc back (name :: names) n = .put .fileName b next := by
  cases name <;> exact ⟨_, _, rfl⟩

theorem session_lands (l : σ → Script Field σ) (cp : Client.Parameter) (cc : Nat → Client.Call)
    (hlists : ReadsBack sp rest command) (hlast : rest = [] → command ≠ .dir) (n : Nat)
    (t : List (Field × Field)) :
    Comes l (Server.clientHandler sp sc)
      ⟨⟨Client.session cp cc (command :: rest) n, [], t⟩, ⟨.goto (.open n), [], []⟩⟩
      (Landed cp cc (Client.session cp cc rest) (commandEnding sp cp cc sc n command)) :=
  command_lands hlists hlast

theorem session_writes (command : Client.Command) (rest : List Client.Command) (n : Nat) :
    ∃ b next, (Client.session cp cc (command :: rest) n : Script Field σ) =
      .put .fileName b next := by
  cases command with
  | dir => exact ⟨_, _, rfl⟩
  | get remote =>
    simp only [Client.session, Client.command, Client.commandGet]
    split
    · exact ⟨_, _, rfl⟩
    · exact getFiles_writes ..

theorem name_strays {k : Field} {script : Script Field σ} (hk : k ≠ .fileName)
    (hs : ∃ b next, script = .put .fileName b next) :
    Comes l (Server.clientHandler sp sc) ⟨⟨script, i, t⟩, ⟨.get k next, [], []⟩⟩
      fun p => ¬ InPhase p := by
  obtain ⟨b, rest, rfl⟩ := hs
  refine .left (.single rfl) (.right (.single rfl) (.now ?_))
  simp [InPhase, hk]

theorem over_waiting {next : UInt8 → Script Field Server.Place} :
    Over l (Server.clientHandler sp sc) ⟨⟨.halt, i, t⟩, ⟨.get k next, [], []⟩⟩ := by
  refine .inl fun side => ?_
  cases side <;> rfl

/-- A `dir` at the end: whatever it makes of the list, the client answers it. -/
theorem last_dir_ends (cp : Client.Parameter) (cc : Nat → Client.Call) :
    Comes l (Server.clientHandler sp sc)
      ⟨⟨Client.session cp cc [.dir] n, [], t⟩, ⟨.goto (.open n), [], []⟩⟩
      fun p => Over l (Server.clientHandler sp sc) p ∧ InPhase p := by
  have hends := lineEnds_cstrings Field.reply
    (sp.listed.flatMap fun f => [f.name, (decimal f.size).take 19])
  rw [length_entries] at hends
  obtain ⟨lines, rest, t', -, hread⟩ :
      ∃ (lines : List (List UInt8)) (rest : List (Field × UInt8)) (t' : List (Field × Field)),
        lines.length = 2 * sp.totalFiles ∧
        Does l ⟨readLines .reply 2047 (2 * sp.totalFiles) fun _ => .put .acknowledgement 0 .halt,
            (cstrings (sp.listed.flatMap fun f => [f.name, (decimal f.size).take 19])).map
              (.reply, ·), t⟩
          ⟨.put .acknowledgement 0 .halt, rest, t'⟩ [] :=
    does_readLines_any .reply hends fun _ => .put .acknowledgement 0 .halt
  refine .right Server.does_open ?_
  rw [Party.receive_nil]
  refine dir_exchanged (fun k => readLines .reply 2047 (2 * k) fun _ =>
    .put .acknowledgement 0 .halt) ?_
  refine .left hread (.left (.single rfl) (.right (.single rfl) ?_))
  refine .right Server.does_open (.now ⟨?_, rfl⟩)
  rw [Party.receive_nil]
  exact over_waiting (k := .fileName)

theorem session_ends (cp : Client.Parameter) (hlists : ListsRead sp cp cc sc commands n)
    (h : InStep sp cp cc sc commands n) :
    Comes l (Server.clientHandler sp sc)
      ⟨⟨Client.session cp cc commands n, [], t⟩, ⟨.goto (.open n), [], []⟩⟩
      fun p => Over l (Server.clientHandler sp sc) p ∧ InPhase p := by
  induction commands generalizing n t with
  | nil =>
    refine .right Server.does_open (.now ⟨?_, rfl⟩)
    rw [Party.receive_nil]
    exact over_waiting (k := .fileName)
  | cons command rest ih =>
    by_cases hlast : rest = [] ∧ command = .dir
    · obtain ⟨rfl, rfl⟩ := hlast
      exact last_dir_ends cp cc
    obtain ⟨hreads, hrest⟩ := hlists
    obtain ⟨p, hlead, hland⟩ :=
      session_lands l cp cc hreads (fun hnil hdir => hlast ⟨hnil, hdir⟩) n t
    refine .after hlead ?_
    unfold InStep at h
    generalize commandEnding sp cp cc sc n command = e at h hland hrest
    cases hland with
    | back => exact ih hrest h
    | astray hk =>
      obtain ⟨-, rfl⟩ := h
      exact .now ⟨over_waiting, rfl⟩
    | more => simp at h
    | crossed => exact h.elim
    | stuck hd hp => exact .now ⟨.inl hd.stuck, hp⟩
    | trapped hhalt hp => exact .now ⟨.inr hhalt, hp⟩

theorem session_crosses (cp : Client.Parameter) (hlists : ListsRead sp cp cc sc commands n)
    (h : ¬ InStep sp cp cc sc commands n) :
    Comes l (Server.clientHandler sp sc)
      ⟨⟨Client.session cp cc commands n, [], t⟩, ⟨.goto (.open n), [], []⟩⟩
      fun p => ¬ InPhase p := by
  induction commands generalizing n t with
  | nil => exact absurd trivial h
  | cons command rest ih =>
    have hlast : rest = [] → command ≠ .dir := by
      rintro rfl rfl
      exact h trivial
    obtain ⟨hreads, hrest⟩ := hlists
    obtain ⟨p, hlead, hland⟩ := session_lands l cp cc hreads hlast n t
    refine .after hlead ?_
    unfold InStep at h
    generalize commandEnding sp cp cc sc n command = e at h hland hrest
    cases hland with
    | back => exact ih hrest h
    | astray hk =>
      cases rest with
      | nil => simp at h
      | cons command rest => exact name_strays hk (session_writes ..)
    | more hk => exact name_strays hk (getFiles_writes ..)
    | crossed hp => exact .now hp
    | stuck | trapped => exact absurd trivial h

end

def controlSession (sp : Server.Parameter) (cp : Client.Parameter) (cc : Nat → Client.Call)
    (sc : Nat → Server.Call) (commands : List Client.Command) :
    Transition.System (Pair Field Empty Server.Place) Side :=
  duplex Empty.elim (Server.clientHandler sp sc) (Client.session cp cc commands 0) (.goto (.open 0))

/-- The server takes every byte for what it was written as, exactly if the
commands stay in step; where they list files, the client must read the names as
they are. -/
theorem phases_agree_iff (sp : Server.Parameter) (cp : Client.Parameter) (cc : Nat → Client.Call)
    (sc : Nat → Server.Call) (commands : List Client.Command)
    (hlists : ListsRead sp cp cc sc commands 0) :
    (∀ p, (controlSession sp cp cc sc commands).Reachable p → InPhase p) ↔
      InStep sp cp cc sc commands 0 := by
  constructor
  · intro hphase
    by_contra hout
    obtain ⟨p, hlead, hp⟩ := session_crosses (l := Empty.elim) (t := []) cp hlists hout
    exact hp (hphase p (reachable_iff.mpr hlead))
  · intro hin p hp
    obtain ⟨q, hlead, hover, hq⟩ := session_ends (l := Empty.elim) (t := []) cp hlists hin
    exact inPhase_of_over hlead hover hq (reachable_iff.mp hp)

-- ---------------------------------------------------------------------------
-- Two sessions
-- ---------------------------------------------------------------------------

def sharedFiles : Server.Parameter :=
  ⟨[⟨text "a", 5, by decide⟩, ⟨text "b", 7, by decide⟩], false, 15, false⟩

def plainCall : Client.Call :=
  ⟨true, true, 50000, [⟨⟨requestErrorRate, 0, 0⟩, by decide, by decide⟩], true⟩

/-- A call that serves any file; only the loss report after one byte of the
first record is made. -/
def servingCall : Server.Call :=
  { nothingShared.call with fopen := some, timeout := some 24, report := fun k => k == 1 }

def fileA : Client.RemoteName := ⟨text "a", isLine_of_all rfl (by decide)⟩

def allFiles : Client.RemoteName := ⟨text "*", isLine_of_all rfl (by decide)⟩

theorem sharedFiles_line : ∀ name ∈ sharedFiles.fileNames, IsLine name := by
  intro name hname
  have hmem : name ∈ [text "a", text "b"] := hname
  rcases List.mem_cons.mp hmem with rfl | hmem
  · exact isLine_of_all rfl (by decide)
  · rw [List.mem_singleton.mp hmem]
    exact isLine_of_all rfl (by decide)

def threeCalls (n : Nat) : Server.Call :=
  if n < 3 then servingCall else { servingCall with fopen := fun _ => none }

/-- All files, the list, and a file that is not there. -/
theorem phases_agree_iff_all_files :
    InStep sharedFiles nothingShared.wanted (fun _ => plainCall) threeCalls
      [.get allFiles, .dir, .get fileA] 0 ∧
      ∀ p, (controlSession sharedFiles nothingShared.wanted (fun _ => plainCall) threeCalls
        [.get allFiles, .dir, .get fileA]).Reachable p → InPhase p := by
  have hlists : ListsRead sharedFiles nothingShared.wanted (fun _ => plainCall) threeCalls
      [.get allFiles, .dir, .get fileA] 0 :=
    ⟨fun _ _ => sharedFiles_line, fun _ name hname => (sharedFiles_line name hname).fits (by decide),
      fun hstar => absurd hstar (by decide), trivial⟩
  exact ⟨trivial, (phases_agree_iff _ _ _ _ _ hlists).mpr trivial⟩

def firstFails (n : Nat) : Client.Call := if n = 0 then { plainCall with localOpens := false } else plainCall

/-- Another `get` follows: the server takes its name for the port. -/
theorem name_taken_for_port :
    ¬ ∀ p, (controlSession sharedFiles nothingShared.wanted firstFails (fun _ => servingCall)
      [.get fileA, .get fileA]).Reachable p → InPhase p := by
  intro hphase
  have hout : ¬ InStep sharedFiles nothingShared.wanted firstFails (fun _ => servingCall)
      [.get fileA, .get fileA] 0 :=
    fun hin => List.cons_ne_nil _ _ hin.2
  have hlists : ListsRead sharedFiles nothingShared.wanted firstFails (fun _ => servingCall)
      [.get fileA, .get fileA] 0 :=
    ⟨fun hstar => absurd hstar (by decide), trivial⟩
  obtain ⟨p, hlead, hp⟩ := session_crosses (l := Empty.elim)
    (t := []) nothingShared.wanted hlists hout
  exact hp (hphase p (reachable_iff.mpr hlead))

end Tsunami.Control
