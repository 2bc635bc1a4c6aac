import Tsunami.Control.Phases
import Tsunami.Control.Printed

/-!
# File lists on the wire

The list behind `get *`, of the files named on the server's command line or of
the names its `allhook` program prints, and the list with the sizes behind
`dir`: what the client makes of them, and when that is what the server has.
-/

namespace Tsunami.Control

open Bytes Duplex

-- ---------------------------------------------------------------------------
-- The list of a `dir`
-- ---------------------------------------------------------------------------

def isSpace (b : UInt8) : Bool := b = 32 ∨ (9 ≤ b ∧ b ≤ 13)

/-- `atol`, which saturates, into a `size_t`. -/
def atol (s : List UInt8) : Nat :=
  match s.dropWhile isSpace with
  | 45 :: digits => (2 ^ 64 - min (ofDecimal digits) (2 ^ 63)) % 2 ^ 64
  | 43 :: digits => min (ofDecimal digits) (2 ^ 63 - 1)
  | digits => min (ofDecimal digits) (2 ^ 63 - 1)

def listed : List (List UInt8) → List (List UInt8 × Nat)
  | name :: size :: rest => (name, atol size) :: listed rest
  | _ => []

/-- `command_dir`, with what it prints in the place of the prints. -/
def requestDir (refused : Script Field σ) (next : List (List UInt8 × Nat) → Script Field σ) :
    Script Field σ :=
  .write .fileName (text "!#DIR??" ++ [10]) <|
  .get .reply fun result =>
  if result = 8 then refused
  else readLine .reply 2046 fun rest =>
    readLines .reply 2047 (2 * (ofDecimal (result :: rest) % 2 ^ 16)) fun lines =>
    .put .acknowledgement 0 <| next (listed lines)

theorem commandDir_eq (n : Nat) (back : Nat → Script Field σ) :
    Client.commandDir n back = requestDir (back (n + 1)) fun _ => back (n + 1) := rfl

-- ---------------------------------------------------------------------------
-- The three exchanges
-- ---------------------------------------------------------------------------

inductive Reconstructed
  | names (ns : List (List UInt8))
  | entries (es : List (List UInt8 × Nat))

inductive Exchange
  | getFiles (files : List SharedFile)
  | getHook (names : List PrintedName)
  | dir (files : List SharedFile)

namespace Exchange

def shared : Exchange → Reconstructed
  | getFiles files => .names (files.map SharedFile.name)
  | getHook names => .names (names.map PrintedName.bytes)
  | dir files => .entries (files.map fun f => (f.name, f.size))

def parameter (p : Server.Parameter) : Exchange → Server.Parameter
  | getFiles files => { p with files := files, allhook := false }
  | getHook _ => { p with allhook := true }
  | dir files => { p with files := files }

def call (c : Server.Call) : Exchange → Server.Call
  | getHook names => { c with printed := printedText names }
  | _ => c

def client : Exchange → Script Field Reconstructed
  | dir _ => requestDir .halt fun es => .goto (.entries es)
  | _ => Client.requestNames .halt fun names => .goto (.names names)

def server (p : Server.Parameter) (c : Server.Call) (e : Exchange) : Script Field Empty :=
  Server.ttpOpenTransfer (e.parameter p) (e.call c) .halt fun _ => .halt

end Exchange

def exchange (p : Server.Parameter) (c : Server.Call) (e : Exchange) :
    Transition.System (Pair Field Reconstructed Empty) Side :=
  duplex Script.goto Empty.elim e.client (e.server p c)

/-- The client has the list of the server, and nothing that either has sent is
still under way. -/
structure Survived (e : Exchange) (q : Pair Field Reconstructed Empty) : Prop where
  list : q.left.script = .goto e.shared
  client : q.left.inbox = []
  server : q.right.inbox = []

def Exchange.Fits : Exchange → Prop
  | .getFiles files => files ≠ [] ∧ files.length < 2 ^ 16 ∧ ∀ f ∈ files, FitsLine 1024 f.name
  | .getHook names => names ≠ [] ∧ HookFits 0 names
  | .dir files => files.length < 2 ^ 16 ∧ ∀ f ∈ files, FitsLine 2047 f.name ∧ f.size < 2 ^ 63

theorem final_reconstructed :
    Final (Script.goto : Reconstructed → Script Field Reconstructed) := fun _ => rfl

structure Listed (a : Reconstructed) (q : Pair Field Reconstructed Empty) : Prop where
  settled : Settled Empty.elim a q
  client : q.left.inbox = []
  server : q.right.inbox = []

theorem Listed.survived (h : Listed e.shared q) : Survived e q :=
    ⟨h.settled.result, h.client, h.server⟩

-- ---------------------------------------------------------------------------
-- `get *`
-- ---------------------------------------------------------------------------

section
variable (sp : Server.Parameter) (c : Server.Call)

def asked (sp : Server.Parameter) (c : Server.Call) : Pair Field Reconstructed Empty :=
  ⟨.start (Client.requestNames .halt fun names => .goto (.names names)),
    .start (Server.ttpOpenTransfer sp c .halt fun _ => .halt)⟩

/-- A list of `n` names, at least one, that have been read from the wire. -/
def ReadNames (n : Nat) (a : Reconstructed) : Prop :=
  ∃ ns, a = .names ns ∧ ns.length = n ∧ n ≠ 0 ∧ ∀ name ∈ ns, FitsLine 1024 name

theorem requested_yields (n : Nat) :
    (if n = 0 then .read .reply 1 fun _ => .halt
      else readLines .reply 1024 n fun names => .write .acknowledgement (text "got list") <|
        .goto (.names names) : Script Field Reconstructed).Yields (ReadNames n) := by
  split
  · exact .read fun _ => .halt
  · rename_i hne
    refine yields_readLines (by decide) fun lines hlen hlines => .write (.goto ?_)
    exact ⟨lines, rfl, hlen, hne, hlines⟩

theorem hook_yields (hhook : sp.allhook = true) :
    Comes Script.goto Empty.elim (asked sp c) fun q =>
      q.left.script.Yields (ReadNames (hookNames c.printed).length) := by
  have hcount := (length_le_listSize _).trans (hookNames_size c.printed)
  have hsmall : (hookNames c.printed).length < 10 ^ 9 := Nat.lt_of_le_of_lt hcount (by decide)
  by_cases hnone : hookNames c.printed = []
  · rw [hnone]
    exact sizes_exchanged (by decide) (Server.sendNames_none hhook hnone)
      (.now (requested_yields 0))
  · exact sizes_exchanged hsmall (Server.sendNames_hook hhook hnone) (.now (requested_yields _))

theorem hook_listed (hhook : sp.allhook = true) (hne : hookNames c.printed ≠ []) :
    Comes Script.goto Empty.elim (asked sp c) (Listed (.names (hookNames c.printed))) := by
  have hcount := (length_le_listSize _).trans (hookNames_size c.printed)
  have hsmall : (hookNames c.printed).length < 10 ^ 9 := Nat.lt_of_le_of_lt hcount (by decide)
  refine sizes_exchanged hsmall (Server.sendNames_hook hhook hne) ?_
  rw [if_neg (mt List.length_eq_zero_iff.mp hne)]
  exact names_arrive (fun name => hookNames_line) (.now ⟨⟨rfl, rfl⟩, rfl, rfl⟩)

theorem files_yields (hhook : sp.allhook = false) :
    Comes Script.goto Empty.elim (asked sp c) fun q =>
      q.left.script.Yields (ReadNames sp.totalFiles) :=
  sizes_exchanged sp.totalFiles_lt (Server.sendNames_files hhook) (.now (requested_yields _))

theorem files_listed (hhook : sp.allhook = false) (hne : sp.totalFiles ≠ 0)
    (hfiles : ∀ name ∈ sp.fileNames, IsLine name) :
    Comes Script.goto Empty.elim (asked sp c) (Listed (.names sp.fileNames)) := by
  refine sizes_exchanged sp.totalFiles_lt (Server.sendNames_files hhook) ?_
  rw [if_neg hne, ← sp.length_fileNames]
  exact names_arrive hfiles (.now ⟨⟨rfl, rfl⟩, rfl, rfl⟩)

end

-- ---------------------------------------------------------------------------
-- `dir`
-- ---------------------------------------------------------------------------

theorem not_isSpace_digit (hd : isDigit d = true) : isSpace d = false := by
  simp only [isDigit, isSpace, decide_eq_true_eq, decide_eq_false_iff_not, not_or, not_and,
    UInt8.le_iff_toNat_le, ← UInt8.toNat_inj] at hd ⊢
  simp at hd ⊢
  omega

theorem atol_digits (hd : isDigit d = true) (ds : List UInt8) :
    atol (d :: ds) = min (ofDecimal (d :: ds)) (2 ^ 63 - 1) := by
  have hspace := not_isSpace_digit hd
  have hminus : d ≠ 45 := digit_ne hd rfl
  have hplus : d ≠ 43 := digit_ne hd rfl
  rw [atol, List.dropWhile_cons_of_neg (by rw [hspace]; decide)]
  split
  · rename_i h
    exact absurd (List.cons.inj h).1 hminus
  · rename_i h
    exact absurd (List.cons.inj h).1 hplus
  · rfl

/-- A size survives if it is below `2 ^ 63`: as a `long` on the client, and
within the 19 digits of the server's message. -/
theorem atol_decimal_iff (n : Nat) : atol ((decimal n).take 19) = n ↔ n < 2 ^ 63 := by
  obtain ⟨d, ds, hdec, hd⟩ := decimal_cons n
  have hsat := atol_digits hd (ds.take 18)
  have htake : (decimal n).take 19 = d :: ds.take 18 := by rw [hdec]; rfl
  rw [htake, hsat]
  constructor
  · intro h
    have := Nat.min_le_right (ofDecimal (d :: ds.take 18)) (2 ^ 63 - 1)
    omega
  · intro h
    have hlen : (decimal n).length ≤ 19 := length_decimal_le (by decide) (by omega)
    have hall : d :: ds.take 18 = decimal n := by rw [← htake, List.take_of_length_le hlen]
    have hread : ofDecimal (decimal n ++ []) = n := ofDecimal_decimal n (by simp)
    rw [List.append_nil] at hread
    rw [hall, hread]
    omega

theorem listed_spec (n : Nat) (lines : List (List UInt8)) (hlen : lines.length = 2 * n) :
    (listed lines).length = n ∧ ∀ e ∈ listed lines, e.1 ∈ lines := by
  induction n generalizing lines with
  | zero =>
    obtain rfl := List.length_eq_zero_iff.mp hlen
    exact ⟨rfl, by simp [listed]⟩
  | succ n ih =>
    match lines, hlen with
    | name :: size :: rest, hlen =>
      obtain ⟨hcount, hmem⟩ := ih rest (by simp only [List.length_cons] at hlen; omega)
      refine ⟨by rw [listed, List.length_cons, hcount], fun e he => ?_⟩
      rcases List.mem_cons.mp he with rfl | he
      · exact List.mem_cons_self ..
      · exact List.mem_cons_of_mem _ (List.mem_cons_of_mem _ (hmem e he))

theorem listed_entries (files : List SharedFile) :
    listed (files.flatMap fun f => [f.name, (decimal f.size).take 19]) =
      files.map fun f => (f.name, atol ((decimal f.size).take 19)) := by
  induction files with
  | nil => rfl
  | cons f files ih =>
    simp only [List.flatMap_cons, List.map_cons, List.cons_append, List.nil_append, listed, ih]

section
variable (sp : Server.Parameter) (c : Server.Call)

def dirAsked (sp : Server.Parameter) (c : Server.Call) : Pair Field Reconstructed Empty :=
  ⟨.start (requestDir .halt fun es => .goto (.entries es)),
    .start (Server.ttpOpenTransfer sp c .halt fun _ => .halt)⟩

def readEntries (n : Nat) : Script Field Reconstructed :=
  readLines .reply 2047 (2 * n) fun lines => .put .acknowledgement 0 <|
    .goto (.entries (listed lines))

theorem dir_asked {P : Pair Field Reconstructed Empty → Prop}
    (h : Comes Script.goto Empty.elim
      ⟨⟨readEntries sp.totalFiles,
          (cstrings (sp.listed.flatMap fun f => [f.name, (decimal f.size).take 19])).map
            (.reply, ·), []⟩,
        ⟨.read .acknowledgement 1 fun _ => .halt, [], []⟩⟩ P) :
    Comes Script.goto Empty.elim (dirAsked sp c) P := dir_exchanged readEntries h

def ReadEntries (n : Nat) (a : Reconstructed) : Prop :=
  ∃ es, a = .entries es ∧ es.length = n ∧ ∀ e ∈ es, FitsLine 2047 e.1

theorem dir_yields :
    Comes Script.goto Empty.elim (dirAsked sp c) fun q =>
      q.left.script.Yields (ReadEntries sp.totalFiles) := by
  refine dir_asked sp c (.now ?_)
  refine yields_readLines (by decide) fun lines hlen hlines => .put (.goto ?_)
  obtain ⟨hcount, hmem⟩ := listed_spec _ lines hlen
  exact ⟨_, rfl, hcount, fun e he => hlines _ (hmem e he)⟩

theorem dir_listed (hfiles : ∀ f ∈ sp.listed, FitsLine 2047 f.name) :
    Comes Script.goto Empty.elim (dirAsked sp c)
      (Listed (.entries (sp.listed.map fun f => (f.name, atol ((decimal f.size).take 19))))) := by
  have hlines := entry_line (List.forall_mem_map.mpr hfiles)
  have hread := does_readLines_fit (b := Script.goto) (i := []) (t := []) .reply hlines
    (length_entries sp) fun lines =>
      .put .acknowledgement 0 <| (.goto (.entries (listed lines)) : Script Field Reconstructed)
  rw [List.append_nil, listed_entries] at hread
  refine dir_asked sp c (.left hread (.left (.single rfl) (.right (.single rfl) (.now ?_))))
  exact ⟨⟨rfl, rfl⟩, rfl, rfl⟩

end

-- ---------------------------------------------------------------------------
-- When a list survives
-- ---------------------------------------------------------------------------

section
variable {p : Server.Parameter} {c : Server.Call} {e : Exchange}
  {q : Pair Field Reconstructed Empty}

def Exchange.start (p : Server.Parameter) (c : Server.Call) (e : Exchange) :
    Pair Field Reconstructed Empty :=
  ⟨.start e.client, .start (e.server p c)⟩

theorem listed_all (sp : Server.Parameter) (files : List SharedFile) (hfiles : sp.files = files)
    (h : files.length < 2 ^ 16) :
    sp.totalFiles = files.length ∧ sp.listed = files := by
  subst hfiles
  have htotal : sp.totalFiles = sp.files.length := Nat.mod_eq_of_lt h
  rw [Server.Parameter.listed, htotal, List.take_length]
  exact ⟨rfl, rfl⟩

theorem fits_listed (h : e.Fits) :
    Comes Script.goto Empty.elim (e.start p c) (Listed e.shared) := by
  cases e with
  | getFiles files =>
    obtain ⟨hne, hcount, hlines⟩ := h
    let sp := (Exchange.getFiles files).parameter p
    obtain ⟨htotal, hlisted⟩ := listed_all sp files rfl hcount
    have hnames : sp.fileNames = files.map SharedFile.name :=
      congrArg (List.map SharedFile.name) hlisted
    have hline : ∀ name ∈ sp.fileNames, IsLine name := by
      rw [hnames]
      exact List.forall_mem_map.mpr fun f hf => ⟨(hlines f hf).plain, (hlines f hf).short⟩
    have hpos : sp.totalFiles ≠ 0 := htotal ▸ mt List.length_eq_zero_iff.mp hne
    have hlist := files_listed sp c rfl hpos hline
    rwa [hnames] at hlist
  | getHook names =>
    obtain ⟨hne, hfits⟩ := h
    have hnames := (hookNames_printed_iff names).mpr hfits
    have hlist := hook_listed ((Exchange.getHook names).parameter p)
      ((Exchange.getHook names).call c) rfl (hnames ▸ mt List.map_eq_nil_iff.mp hne)
    have hshared : hookNames ((Exchange.getHook names).call c).printed =
        names.map PrintedName.bytes := hnames
    rwa [hshared] at hlist
  | dir files =>
    obtain ⟨hcount, hfiles⟩ := h
    obtain ⟨-, hlisted⟩ := listed_all ((Exchange.dir files).parameter p) files rfl hcount
    have hlist := dir_listed ((Exchange.dir files).parameter p) c
      fun f hf => (hfiles f (by rwa [hlisted] at hf)).1
    have hsizes : (files.map fun f => (f.name, atol ((decimal f.size).take 19))) =
        files.map fun f => (f.name, f.size) :=
      List.map_congr_left fun f hf => congrArg (f.name, ·)
        ((atol_decimal_iff f.size).mpr (hfiles f hf).2)
    rwa [hlisted, hsizes] at hlist

theorem fits_of_result (h : Leads Script.goto Empty.elim (e.start p c) q)
    (hq : q.left.script = .goto e.shared) : e.Fits := by
  cases e with
  | getFiles files =>
    obtain ⟨u, hu, hyields⟩ := files_yields ((Exchange.getFiles files).parameter p) c rfl
    obtain ⟨ns, hns, hlen, hne, hlines⟩ := yielded final_reconstructed hu h hyields hq
    obtain rfl : files.map SharedFile.name = ns := by injection hns
    rw [List.length_map] at hlen
    refine ⟨?_, ?_, fun f hf => hlines _ (List.mem_map_of_mem hf)⟩
    · rintro rfl
      exact hne hlen.symm
    · exact hlen ▸ Nat.mod_lt _ (by decide)
  | getHook names =>
    have hshared : ((Exchange.getHook names).call c).printed = printedText names := rfl
    obtain ⟨u, hu, hyields⟩ := hook_yields ((Exchange.getHook names).parameter p)
      ((Exchange.getHook names).call c) rfl
    obtain ⟨ns, -, hlen, hne, -⟩ := yielded final_reconstructed hu h hyields hq
    have hsome : hookNames (printedText names) ≠ [] :=
      fun hnone => hne (by rw [hshared, hnone]; rfl)
    obtain ⟨v, hv, hlisted⟩ := hook_listed ((Exchange.getHook names).parameter p)
      ((Exchange.getHook names).call c) rfl hsome
    have hresult := left_result final_reconstructed hv h hlisted.settled.result hq
    have hnames : hookNames (printedText names) = names.map PrintedName.bytes := by
      injection hresult
    refine ⟨fun hnil => hsome ?_, (hookNames_printed_iff names).mp hnames⟩
    rw [hnames, hnil]
    rfl
  | dir files =>
    obtain ⟨u, hu, hyields⟩ := dir_yields ((Exchange.dir files).parameter p) c
    obtain ⟨es, hes, hlen, hlines⟩ := yielded final_reconstructed hu h hyields hq
    obtain rfl : (files.map fun f => (f.name, f.size)) = es := by injection hes
    rw [List.length_map] at hlen
    have hcount : files.length < 2 ^ 16 := hlen ▸ Nat.mod_lt _ (by decide)
    have hnames : ∀ f ∈ files, FitsLine 2047 f.name := fun f hf =>
      hlines _ (List.mem_map_of_mem (f := fun f : SharedFile => (f.name, f.size)) hf)
    obtain ⟨-, hlisted⟩ := listed_all ((Exchange.dir files).parameter p) files rfl hcount
    obtain ⟨v, hv, hlist⟩ := dir_listed ((Exchange.dir files).parameter p) c
      fun f hf => hnames f (by rwa [hlisted] at hf)
    have hresult := left_result final_reconstructed hv h hlist.settled.result hq
    rw [hlisted] at hresult
    have hentries : (files.map fun f => (f.name, atol ((decimal f.size).take 19))) =
        files.map fun f => (f.name, f.size) := by injection hresult
    refine ⟨hcount, fun f hf => ⟨hnames f hf, (atol_decimal_iff f.size).mp ?_⟩⟩
    exact congrArg Prod.snd (List.map_inj_left.mp hentries f hf)

/-- From every state of every run the list gets across whole, with nothing left
over, if and only if it is one that fits. -/
theorem list_survives_iff (p : Server.Parameter) (c : Server.Call) (e : Exchange)
    (hr : (exchange p c e).Reachable q) :
    Comes Script.goto Empty.elim q (Survived e) ↔ e.Fits := by
  have hq := reachable_iff.mp hr
  constructor
  · rintro ⟨u, hu, hsurvived⟩
    exact fits_of_result (hq.trans hu) hsurvived.list
  · intro hfits
    obtain ⟨u, hu, hlisted⟩ := fits_listed (p := p) (c := c) hfits
    exact ⟨u, hlisted.settled.leads final_reconstructed hu hq, hlisted.survived⟩

end

theorem shared_files_survive :
    Comes Script.goto Empty.elim
      ((Exchange.getFiles sharedFiles.files).start sharedFiles servingCall)
      (Survived (.getFiles sharedFiles.files)) :=
  (list_survives_iff sharedFiles servingCall (.getFiles sharedFiles.files) (.init rfl)).mpr
    ⟨by decide, by decide, fun f hf =>
      (sharedFiles_line f.name (List.mem_map_of_mem hf)).fits (Nat.le_refl _)⟩

def longName : PrintedName := ⟨List.replicate 20 97, by decide, by decide⟩

theorem hookNames_longName :
    hookNames (printedText [longName]) = [List.replicate 19 97, [97]] := by decide

/-- The client gets two names for it, of 19 letters and of one. -/
theorem long_name_split :
    (∃ q, (exchange sharedFiles servingCall (.getHook [longName])).Reachable q ∧
        q.left.script = .goto (.names [List.replicate 19 97, [97]])) ∧
      ∀ q, (exchange sharedFiles servingCall (.getHook [longName])).Reachable q →
        ¬Survived (.getHook [longName]) q := by
  obtain ⟨v, hv, hlisted⟩ := hook_listed ((Exchange.getHook [longName]).parameter sharedFiles)
    ((Exchange.getHook [longName]).call servingCall) rfl (hookNames_longName ▸ List.cons_ne_nil _ _)
  refine ⟨⟨v, reachable_iff.mpr hv, ?_⟩, fun q hq hsurvived => ?_⟩
  · rw [← hookNames_longName]
    exact hlisted.settled.result
  · have hresult := left_result final_reconstructed hv (reachable_iff.mp hq) hlisted.settled.result
      hsurvived.list
    have hnames : hookNames (printedText [longName]) = [longName.bytes] := by injection hresult
    rw [hookNames_longName] at hnames
    exact absurd hnames (by decide)

end Tsunami.Control
