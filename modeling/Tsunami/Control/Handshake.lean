import Tsunami.Control.Client
import Tsunami.Control.Server

/-!
# The handshake of `get *`

`command_get` with the argument `*`, up to the end of its first
`ttp_open_transfer`, against one call of the server's `ttp_open_transfer`.
-/

namespace Tsunami.Control

open Bytes Duplex

structure Handshake where
  shared : Server.Parameter
  call : Server.Call
  wanted : Client.Parameter
  request : Client.Call

def Handshake.client (h : Handshake) : Script Field Empty :=
  Client.requestNames .halt fun names =>
    match names with
    | [] => .halt
    | name :: _ => Client.ttpOpenTransfer h.wanted h.request name .halt .halt

def Handshake.server (h : Handshake) : Script Field Empty :=
  Server.ttpOpenTransfer h.shared h.call .halt fun _ => .halt

def handshake (h : Handshake) : Transition.System (Pair Field Empty Empty) Side :=
  duplex Empty.elim Empty.elim h.client h.server

variable {σ τ : Type} {l : σ → Script Field σ} {r : τ → Script Field τ} {h : Handshake}

def Returned (p : Pair Field σ τ) : Prop := p.left.script = .halt ∨ p.right.script = .halt

theorem negotiate_returns (hi : 20 ≤ i.length) :
    Comes l r ⟨p, ⟨Server.negotiate sp c file fun _ => .halt, i, t⟩⟩ Returned := by
  unfold Server.negotiate
  refine .right_read_any (by omega) fun _ _ => ?_
  refine .right_read_any (by rw [List.length_drop]; omega) fun _ _ => ?_
  refine .right_read_any (by simp only [List.length_drop]; omega) fun _ _ => ?_
  refine .right_read_any (by simp only [List.length_drop]; omega) fun _ _ => ?_
  refine .right_read_any (by simp only [List.length_drop]; omega) fun _ _ => ?_
  refine .right_read_any (by simp only [List.length_drop]; omega) fun _ _ => ?_
  refine .right_read_any (by simp only [List.length_drop]; omega) fun _ _ => ?_
  split
  · exact .now (.inr rfl)
  · refine .right (does_write ..)
      (.right (does_write ..) (.right (does_write ..) (.right (does_write ..) ?_)))
    exact .now (.inr (ite_self _))

theorem request_returns (name : List UInt8) :
    Comes l r ⟨⟨Client.ttpOpenTransfer cp rc name .halt .halt, il, tl⟩,
      ⟨readLine .fileName Server.maxFilenameLength fun filename =>
        Server.serve sp c filename .halt fun _ => .halt, ir, tr⟩⟩ Returned := by
  refine .left (does_write ..) ?_
  have hline : 0 < lineEnds endsLine (ir ++ (name ++ [10]).map (Field.fileName, ·)) := by
    rw [lineEnds, List.countP_append, List.map_append, List.countP_append]
    exact Nat.add_pos_right _ (Nat.add_pos_right _ (Nat.zero_lt_succ 0))
  obtain ⟨filename, rest, t', -, hread⟩ := does_readTo_any (b := r) (t := tr)
    (n := Server.maxFilenameLength - 1) Field.fileName hline
    fun filename => Server.serve sp c filename .halt fun _ => .halt
  refine .right hread ?_
  cases hf : c.fopen filename with
  | none =>
    simp only [Server.serve, hf]
    exact .right (.single rfl) (.now (.inr rfl))
  | some file =>
    simp only [Server.serve, hf]
    refine .right (.single rfl) ?_
    -- The client takes the first byte there is for the answer.
    refine .left_get_any (by simp) fun result _ => ?_
    split
    · exact .now (.inl rfl)
    · refine .left (does_write ..)
        (.left (does_write ..) (.left (does_write ..) (.left (does_write ..)
        (.left (does_write ..) (.left (does_write ..) (.left (does_write ..) ?_))))))
      simp only [Party.receive_mk]
      refine negotiate_returns ?_
      simp only [List.length_append, List.length_map, length_be16, length_be32]
      omega

/-- The first exchange: the client asks for the list, the server answers with
its sizes, and the client with its first acknowledgement. -/
theorem sizes_exchanged {P : Pair Field σ τ → Prop} {rest : Script Field τ} (hn : n < 10 ^ 9)
    (hs : (Server.sendNames sp c fun filename => Server.serve sp c filename fail succeed) =
      .write .reply (sizeField a)
        (.write .reply (sizeField n) (.read .acknowledgement 8 fun _ => rest)))
    (hp : Comes l r ⟨⟨if n = 0 then .read .reply 1 fun _ => empty
      else readLines .reply 1024 n fun names => .write .acknowledgement (text "got list") (next names),
        [], tl⟩, ⟨rest, [], tr⟩⟩ P) :
    Comes l r ⟨⟨Client.requestNames empty next, [], tl⟩,
      ⟨Server.ttpOpenTransfer sp c fail succeed, [], tr⟩⟩ P := by
  have hline : IsLine Server.star := isLine_of_all rfl (by decide)
  have hdir : Server.star ≠ Server.dirlistHackCmd := by decide
  have hsize : (text "got size").length = 8 := rfl
  unfold Client.requestNames Server.ttpOpenTransfer
  refine .left (does_write ..) ?_
  simp only [Party.receive_mk, List.nil_append]
  refine .right (does_readLine_all _ hline rfl (Nat.le_refl _) _) ?_
  simp only [hdir, ↓reduceIte, hs]
  refine .toLeft (length_sizeField _) (.toLeft (length_sizeField _) (.toRight hsize ?_))
  rwa [scan_sizeField hn]

theorem names_return (hne : names ≠ []) :
    Comes l r
      ⟨⟨readLines .reply 1024 names.length fun names =>
          .write .acknowledgement (text "got list") <|
          match names with
          | [] => .halt
          | name :: _ => Client.ttpOpenTransfer cp rc name .halt .halt, [], tl⟩,
        ⟨.write .reply (cstrings names) <| .read .acknowledgement 8 fun _ =>
          readLine .fileName Server.maxFilenameLength fun filename =>
          Server.serve sp c filename .halt fun _ => .halt, [], tr⟩⟩ Returned := by
  refine .right (does_write ..) ?_
  simp only [Party.receive_mk, List.nil_append]
  obtain ⟨lines, rest, t', hlen, hread⟩ := does_readLines_any (b := l) (t := tl) .reply
    (lineEnds_cstrings .reply names) fun names =>
      .write .acknowledgement (text "got list") <|
      match names with
      | [] => .halt
      | name :: _ => Client.ttpOpenTransfer cp rc name .halt .halt
  refine .left hread (.toRight rfl ?_)
  cases lines with
  | nil => exact absurd (List.length_eq_zero_iff.mp hlen.symm) hne
  | cons name lines => exact request_returns name

/-- With no names from `allhook`, the server answers as for a file named `*`,
and this is the byte the client still reads. -/
theorem no_names_return :
    Comes l r ⟨⟨.read .reply 1 fun _ => .halt, [], tl⟩,
      ⟨Server.serve sp c Server.star .halt fun _ => .halt, [], tr⟩⟩ Returned := by
  unfold Server.serve
  cases c.fopen Server.star with
  | none => exact .right (.single rfl) (.now (.inr rfl))
  | some file => exact .right (.single rfl) (.left (.single rfl) (.now (.inl rfl)))

theorem handshake_returns (hc : h.shared.allhook = true ∨ h.shared.totalFiles ≠ 0) :
    Comes Empty.elim Empty.elim ⟨.start h.client, .start h.server⟩ Returned := by
  cases hhook : h.shared.allhook with
  | true =>
    have hcount := (length_le_listSize _).trans (hookNames_size h.call.printed)
    have hsmall : (hookNames h.call.printed).length < 10 ^ 9 :=
      Nat.lt_of_le_of_lt hcount (by decide)
    by_cases hnone : hookNames h.call.printed = []
    · refine sizes_exchanged (Nat.zero_lt_succ _) (Server.sendNames_none hhook hnone) ?_
      rw [if_pos rfl]
      exact no_names_return
    · refine sizes_exchanged hsmall (Server.sendNames_hook hhook hnone) ?_
      rw [if_neg (mt List.length_eq_zero_iff.mp hnone)]
      exact names_return hnone
  | false =>
    have hfiles : h.shared.totalFiles ≠ 0 := hc.resolve_left (by simp [hhook])
    have hne : h.shared.fileNames ≠ [] := by
      intro hnil
      rw [← h.shared.length_fileNames, hnil] at hfiles
      exact hfiles rfl
    refine sizes_exchanged h.shared.totalFiles_lt (Server.sendNames_files hhook) ?_
    rw [if_neg hfiles, ← h.shared.length_fileNames]
    exact names_return hne

theorem handshake_deadlocks (hhook : h.shared.allhook = false) (hnone : h.shared.totalFiles = 0) :
    Comes Empty.elim Empty.elim ⟨.start h.client, .start h.server⟩ Deadlocked := by
  have hnames : h.shared.fileNames = [] := List.length_eq_zero_iff.mp (by simpa using hnone)
  refine sizes_exchanged h.shared.totalFiles_lt (Server.sendNames_files hhook) ?_
  rw [if_pos hnone, hnames]
  exact .now ⟨⟨⟨_, _, rfl⟩, rfl⟩, ⟨⟨_, _, rfl⟩, rfl⟩⟩

/-- `get *` never deadlocks, exactly where the server has an `allhook` program
or a number of files that is not 0 as a `u_int16_t`. -/
theorem getAll_never_deadlocks_iff (h : Handshake) :
    (∀ p, (handshake h).Reachable p → ¬ Deadlocked p) ↔
      (h.shared.allhook = true ∨ h.shared.totalFiles ≠ 0) := by
  constructor
  · intro hnever
    by_contra hc
    simp only [not_or, Bool.not_eq_true, not_not] at hc
    obtain ⟨p, hlead, hdead⟩ := handshake_deadlocks hc.1 hc.2
    exact hnever p (reachable_iff.mpr hlead) hdead
  · intro hc p hp
    obtain ⟨q, hlead, hret⟩ := handshake_returns hc
    exact not_deadlocked_of_halts hlead hret (reachable_iff.mp hp)

def nothingShared : Handshake where
  shared := ⟨[], false, 15, false⟩
  call := ⟨[], fun _ => none, 0, true, none, fun _ => false, List.replicate 12 0, rfl⟩
  wanted := ⟨1024, 650000000, 7500, 25, 24, 5, 6, by decide, by decide⟩
  request := ⟨true, true, 50000, [], true⟩

theorem nothing_shared_deadlocks :
    ¬ ∀ p, (handshake nothingShared).Reachable p → ¬ Deadlocked p := by
  intro hnever
  obtain ⟨p, hlead, hdead⟩ := handshake_deadlocks (h := nothingShared) rfl rfl
  exact hnever p (reachable_iff.mpr hlead) hdead

end Tsunami.Control
