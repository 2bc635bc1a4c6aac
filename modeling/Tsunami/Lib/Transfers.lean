import Mathlib.Data.List.Basic

/-!
# Whole transfers over a stream that fails

A read or a write of many bytes is repeated until all of them have been moved
or a call fails. Programs of such transfers run over what the calls answer, one
after the other; past the last answer no call moves anything.

A variable that is read into keeps what stood in it where the read stops short.
Whether a program detects that, whatever stood there, is computed call by call.
-/

namespace Transfers

/-- What a call answers: the bytes it moves, if any, or an error. -/
inductive Answer
  | moves (bytes : List UInt8)
  | fails
  deriving DecidableEq, Repr

/-- The loop over the calls, with what has been moved so far: what has been moved
at its end and the answers left, or `none` if it does not end. -/
def transfer (count : Nat) : List Answer → List UInt8 → Option (List UInt8 × List Answer)
  | [], done => if done.length < count then none else some (done, [])
  | .fails :: as, done => if done.length < count then some (done, as) else some (done, .fails :: as)
  | .moves bs :: as, done =>
    if done.length < count then transfer count as (done ++ bs.take (count - done.length))
    else some (done, .moves bs :: as)

-- ---------------------------------------------------------------------------
-- What the answers allow
-- ---------------------------------------------------------------------------

def arriving : List Answer → List UInt8
  | [] => []
  | .fails :: _ => []
  | .moves bs :: as => bs ++ arriving as

def moved (n : Nat) (as : List Answer) : List UInt8 := (arriving as).take n

def Whole (n : Nat) (as : List Answer) : Prop := n ≤ (arriving as).length

def Finishes (n : Nat) (as : List Answer) : Prop := Whole n as ∨ .fails ∈ as

def rest (n : Nat) (as : List Answer) : List Answer := ((transfer n as []).map Prod.snd).getD []

instance (n : Nat) (as : List Answer) : Decidable (Whole n as) :=
    inferInstanceAs (Decidable (_ ≤ _))

instance (n : Nat) (as : List Answer) : Decidable (Finishes n as) :=
    inferInstanceAs (Decidable (_ ∨ _))

def WholeAll : List Nat → List Answer → Prop
  | [], _ => True
  | n :: ns, as => Whole n as ∧ WholeAll ns (rest n as)

def FinishAll : List Nat → List Answer → Prop
  | [], _ => True
  | n :: ns, as => Finishes n as ∧ FinishAll ns (rest n as)

def restAll (ns : List Nat) (as : List Answer) : List Answer := ns.foldl (fun as n => rest n as) as

variable {as : List Answer} {n : Nat} {done bs : List UInt8}

theorem transfer_eq (hdone : done.length ≤ n) :
    (n ≤ (done ++ arriving as).length ∨ .fails ∈ as →
      ∃ as', transfer n as done = some ((done ++ arriving as).take n, as')) ∧
    (¬(n ≤ (done ++ arriving as).length ∨ .fails ∈ as) → transfer n as done = none) := by
  induction as generalizing done with
  | nil =>
    simp only [arriving, List.append_nil, List.not_mem_nil, or_false, transfer]
    constructor
    · intro hle
      rw [if_neg (Nat.not_lt.mpr hle), List.take_of_length_le hdone]
      exact ⟨[], rfl⟩
    · intro hlt
      rw [if_pos (Nat.not_le.mp hlt)]
  | cons a as ih =>
    cases a with
    | fails =>
      simp only [arriving, List.append_nil, List.mem_cons, true_or, or_true, not_true,
        false_implies, and_true, transfer, List.take_of_length_le hdone]
      intro _
      split
      · exact ⟨as, rfl⟩
      · exact ⟨.fails :: as, rfl⟩
    | moves bs =>
      simp only [arriving, List.mem_cons, reduceCtorEq, false_or, transfer]
      by_cases hlt : done.length < n
      · have hlen : (done ++ bs.take (n - done.length)).length ≤ n := by
          rw [List.length_append, List.length_take]
          omega
        have hcount : n ≤ (done ++ bs.take (n - done.length) ++ arriving as).length ↔
            n ≤ (done ++ (bs ++ arriving as)).length := by
          simp only [List.length_append, List.length_take]
          omega
        have htake : (done ++ bs.take (n - done.length) ++ arriving as).take n =
            (done ++ (bs ++ arriving as)).take n := by
          have hmin : (n - done.length) - (bs.take (n - done.length)).length =
              (n - done.length) - bs.length := by
            rw [List.length_take]
            omega
          rw [List.append_assoc, List.take_append, List.take_append, List.take_append,
            List.take_append, List.take_take, Nat.min_self, hmin]
        rw [if_pos hlt, ← hcount, ← htake]
        exact ih hlen
      · have hge : n = done.length := by omega
        rw [if_neg hlt, hge, List.take_left]
        exact ⟨fun _ => ⟨_, rfl⟩, fun h => absurd (.inl (by simp)) h⟩

theorem transfer_of_finishes (h : Finishes n as) :
    transfer n as [] = some (moved n as, rest n as) := by
  obtain ⟨as', heq⟩ := (@transfer_eq as n [] (Nat.zero_le n)).1 h
  rw [rest, heq]
  rfl

theorem transfer_of_not_finishes (h : ¬Finishes n as) : transfer n as [] = none :=
  (@transfer_eq as n [] (Nat.zero_le n)).2 h

theorem length_moved_of_whole (h : Whole n as) : (moved n as).length = n := by
  rw [moved, List.length_take, Nat.min_eq_left h]

theorem length_moved_lt (h : ¬Whole n as) : (moved n as).length < n := by
  rw [Whole] at h
  rw [moved, List.length_take]
  omega

-- ---------------------------------------------------------------------------
-- Programs
-- ---------------------------------------------------------------------------

/-- A program over one stream. A transfer hands on its status, the number of
bytes moved, and a read also the variable; `get` reads one byte with one call. -/
inductive Program (α : Type)
  | result (a : α)
  | exits
  | traps
  | write (bytes : List UInt8) (next : Int → Program α)
  | read (before : List UInt8) (next : Int → List UInt8 → Program α)
  | get (next : Option UInt8 → Program α)

inductive Ending (α : Type)
  | result (a : α)
  | exits
  | traps
  | hangs
  deriving DecidableEq, Repr

/-- How a run ends, what it has written, and whether a transfer has not moved all
of its bytes. -/
structure Outcome (α : Type) where
  ending : Ending α
  written : List UInt8
  short : Bool
  deriving DecidableEq, Repr

def Outcome.after (o : Outcome α) (bytes : List UInt8) (short : Bool) : Outcome α :=
  ⟨o.ending, bytes ++ o.written, short || o.short⟩

def Outcome.effect (o : Outcome α) : Ending α × List UInt8 := (o.ending, o.written)

def peek : List Answer → Option UInt8
  | .moves bs :: _ => bs.head?
  | _ => none

def Program.run : Program α → List Answer → Outcome α
  | .result a, _ => ⟨.result a, [], false⟩
  | .exits, _ => ⟨.exits, [], false⟩
  | .traps, _ => ⟨.traps, [], false⟩
  | .write bytes next, as =>
    match transfer bytes.length as [] with
    | none => ⟨.hangs, [], true⟩
    | some (done, as) =>
      ((next done.length).run as).after (bytes.take done.length) (done.length < bytes.length)
  | .read before next, as =>
    match transfer before.length as [] with
    | none => ⟨.hangs, [], true⟩
    | some (done, as) =>
      ((next done.length (done ++ before.drop done.length)).run as).after []
        (done.length < before.length)
  | .get next, as => (next (peek as)).run as.tail

def falls (n : Nat) (as : List Answer) : Bool := !decide (Whole n as)

def fallsAll : List Nat → List Answer → Bool
  | [], _ => false
  | n :: ns, as => falls n as || fallsAll ns (rest n as)

@[simp] theorem falls_eq_false : falls n as = false ↔ Whole n as := by simp [falls]

theorem finishAll_append {ms ns : List Nat} :
    FinishAll (ms ++ ns) as ↔ FinishAll ms as ∧ FinishAll ns (restAll ms as) := by
  induction ms generalizing as with
  | nil => simp [FinishAll, restAll]
  | cons m ms ih => simp only [List.cons_append, FinishAll, ih, and_assoc, restAll, List.foldl_cons]

theorem fallsAll_append {ms ns : List Nat} :
    fallsAll (ms ++ ns) as = (fallsAll ms as || fallsAll ns (restAll ms as)) := by
  induction ms generalizing as with
  | nil => simp [fallsAll, restAll]
  | cons m ms ih =>
    simp only [List.cons_append, fallsAll, ih, Bool.or_assoc, restAll, List.foldl_cons]

theorem restAll_append (ms ns : List Nat) (as : List Answer) :
    restAll (ms ++ ns) as = restAll ns (restAll ms as) := List.foldl_append ..

theorem WholeAll.finishAll {ns : List Nat} (h : WholeAll ns as) : FinishAll ns as := by
  induction ns generalizing as with
  | nil => trivial
  | cons n ns ih => exact ⟨.inl h.1, ih h.2⟩

theorem status_nonneg (k : Nat) : ¬(k : Int) < 0 := Int.not_lt.mpr (Int.natCast_nonneg k)

variable {α ι : Type} {p : Program α} {before : List UInt8} {a : α}

theorem decide_moved (n : Nat) (as : List Answer) :
    decide ((moved n as).length < n) = falls n as := by
  by_cases h : Whole n as
  · simp [falls, h, length_moved_of_whole h]
  · simp [falls, h, length_moved_lt h]

theorem run_write {next : Int → Program α} (h : Finishes bs.length as) :
    (Program.write bs next).run as =
      ((next (moved bs.length as).length).run (rest bs.length as)).after
        (bs.take (moved bs.length as).length) (falls bs.length as) := by
  simp only [Program.run, transfer_of_finishes h, decide_moved]

theorem run_read {next : Int → List UInt8 → Program α} (hn : before.length = n)
    (h : Finishes n as) :
    (Program.read before next).run as =
      ((next (moved n as).length (moved n as ++ before.drop (moved n as).length)).run
        (rest n as)).after [] (falls n as) := by
  simp only [Program.run, hn, transfer_of_finishes h, decide_moved]

theorem run_write_hangs {next : Int → Program α} (h : ¬Finishes bs.length as) :
    (Program.write bs next).run as = ⟨.hangs, [], true⟩ := by
  simp only [Program.run, transfer_of_not_finishes h]

theorem run_read_hangs {next : Int → List UInt8 → Program α} (hn : before.length = n)
    (h : ¬Finishes n as) : (Program.read before next).run as = ⟨.hangs, [], true⟩ := by
  simp only [Program.run, hn, transfer_of_not_finishes h]

-- ---------------------------------------------------------------------------
-- Detecting what is missing
-- ---------------------------------------------------------------------------

/-- A family of programs, one for each `i` that may have stood in the variables:
every transfer ends and, if one of them has not moved all of its bytes, or one
before has not (`s`), the result is bad, and what is seen does not depend on `i`. -/
structure Detects (bad : α → Prop) (s : Bool) (f : ι → Program α) (as : List Answer) : Prop where
  ends : ∀ i, ((f i).run as).ending ≠ .hangs
  fails : ∀ i, (s || ((f i).run as).short) = true →
    ∃ a, ((f i).run as).ending = .result a ∧ bad a
  unused : ∀ i j, (s || ((f i).run as).short) = true →
    ((f j).run as).effect = ((f i).run as).effect

variable {bad : α → Prop} {s : Bool} {f g : ι → Program α} {as' : List Answer}

theorem detects_after {bytes : List UInt8} {short : Bool}
    (h : ∀ i, (f i).run as = ((g i).run as').after bytes short) :
    Detects bad s f as ↔ Detects bad (s || short) g as' := by
  have heffect : ∀ i j, (((g j).run as').after bytes short).effect =
      (((g i).run as').after bytes short).effect ↔
        ((g j).run as').effect = ((g i).run as').effect := by
    intro i j
    simp [Outcome.effect, Outcome.after]
  constructor
  · rintro ⟨hends, hfails, hunused⟩
    simp only [h, heffect] at hends hfails hunused
    simp only [Outcome.after, ← Bool.or_assoc] at hends hfails hunused
    exact ⟨hends, hfails, hunused⟩
  · rintro ⟨hends, hfails, hunused⟩
    constructor <;> simp only [h, heffect] <;> simp only [Outcome.after, ← Bool.or_assoc]
    · exact hends
    · exact hfails
    · exact hunused

theorem Detects.comp {κ : Type} (h : Detects bad s f as) (g : κ → ι) :
    Detects bad s (fun k => f (g k)) as :=
  ⟨fun k => h.ends (g k), fun k => h.fails (g k), fun k l => h.unused (g k) (g l)⟩

theorem not_detects [Nonempty ι] (h : ∀ i, ((f i).run as).ending = .hangs) :
    ¬Detects bad s f as := by
  intro hd
  obtain ⟨i⟩ := ‹Nonempty ι›
  exact hd.ends i (h i)

theorem detects_write [Nonempty ι] {next : ι → Int → Program α} (hn : bs.length = n) :
    Detects bad s (fun i => .write bs (next i)) as ↔ Finishes n as ∧
      Detects bad (s || falls n as) (fun i => next i (moved n as).length) (rest n as) := by
  subst hn
  by_cases h : Finishes bs.length as
  · rw [and_iff_right h]
    exact detects_after fun _ => run_write h
  · refine iff_of_false (not_detects fun i => ?_) fun hd => h hd.1
    rw [run_write_hangs h]

theorem detects_read [Nonempty ι] {before : ι → List UInt8}
    {next : ι → Int → List UInt8 → Program α} (hn : ∀ i, (before i).length = n) :
    Detects bad s (fun i => .read (before i) (next i)) as ↔ Finishes n as ∧
      Detects bad (s || falls n as) (fun i => next i (moved n as).length
        (moved n as ++ (before i).drop (moved n as).length)) (rest n as) := by
  by_cases h : Finishes n as
  · rw [and_iff_right h]
    exact detects_after fun i => run_read (hn i) h
  · refine iff_of_false (not_detects fun i => ?_) fun hd => h hd.1
    rw [run_read_hangs (hn i) h]

/-- A check of the status is no check. -/
theorem detects_write_checked [Nonempty ι] {next q : ι → Program α} (hn : bs.length = n) :
    Detects bad s (fun i => .write bs fun status => if status < 0 then q i else next i) as ↔
      Finishes n as ∧ Detects bad (s || falls n as) next (rest n as) := by
  rw [detects_write hn]
  simp only [if_neg (status_nonneg _)]

theorem detects_read_checked [Nonempty ι] {before : ι → List UInt8} {q : ι → Program α}
    {next : ι → List UInt8 → Program α} (hn : ∀ i, (before i).length = n) :
    Detects bad s
        (fun i => .read (before i) fun status v => if status < 0 then q i else next i v) as ↔
      Finishes n as ∧ Detects bad (s || falls n as)
        (fun i => next i (moved n as ++ (before i).drop (moved n as).length)) (rest n as) := by
  rw [detects_read hn]
  simp only [if_neg (status_nonneg _)]

theorem detects_get {next : ι → Option UInt8 → Program α} :
    Detects bad s (fun i => .get (next i)) as ↔
      Detects bad s (fun i => next i (peek as)) as.tail := by
  constructor
  · rintro ⟨hends, hfails, hunused⟩
    exact ⟨hends, hfails, hunused⟩
  · rintro ⟨hends, hfails, hunused⟩
    exact ⟨hends, hfails, hunused⟩

theorem detects_result {a : ι → α} : Detects bad s (fun i => .result (a i)) as ↔
    (s = true → ∀ i, bad (a i) ∧ ∀ j, a j = a i) := by
  constructor
  · rintro ⟨-, hfails, hunused⟩ hs i
    obtain ⟨b, hb, hbad⟩ := hfails i (by simp [hs])
    cases hb
    refine ⟨hbad, fun j => ?_⟩
    have heq := hunused i j (by simp [hs])
    simpa [Outcome.effect, Program.run] using heq
  · intro h
    refine ⟨fun i => by simp [Program.run], fun i hs => ?_, fun i j hs => ?_⟩
    · rw [Program.run, Bool.or_false] at hs
      exact ⟨a i, rfl, (h hs i).1⟩
    · rw [Program.run, Bool.or_false] at hs
      simp [Outcome.effect, Program.run, (h hs i).2 j]

-- ---------------------------------------------------------------------------
-- Programs without a bad result
-- ---------------------------------------------------------------------------

structure Clean (p : Program α) (as : List Answer) : Prop where
  ends : (p.run as).ending ≠ .hangs
  whole : (p.run as).short = false

/-- The program has no bad result, whatever it reads. A status is a number of
bytes. -/
inductive Never (bad : α → Prop) : Program α → Prop
  | result {a : α} : ¬bad a → Never bad (.result a)
  | exits : Never bad .exits
  | traps : Never bad .traps
  | write {bytes : List UInt8} {next : Int → Program α} :
      (∀ k : Nat, Never bad (next k)) → Never bad (.write bytes next)
  | read {before : List UInt8} {next : Int → List UInt8 → Program α} :
      (∀ (k : Nat) v, Never bad (next k v)) → Never bad (.read before next)
  | get {next : Option UInt8 → Program α} : (∀ b, Never bad (next b)) → Never bad (.get next)

theorem Never.run (h : Never bad p) (hr : (p.run as).ending = .result a) : ¬bad a := by
  induction h generalizing as with
  | result h =>
    cases hr
    exact h
  | exits => cases hr
  | traps => cases hr
  | write _ ih =>
    simp only [Program.run] at hr
    split at hr
    · cases hr
    · exact ih _ hr
  | read _ ih =>
    simp only [Program.run] at hr
    split at hr
    · cases hr
    · exact ih _ _ hr
  | get _ ih => exact ih _ hr

theorem detects_of_clean (hs : s = false) (h : ∀ i, Clean (f i) as) : Detects bad s f as := by
  subst hs
  refine ⟨fun i => (h i).ends, fun i hs => ?_, fun i j hs => ?_⟩
  · simp [(h i).whole] at hs
  · simp [(h i).whole] at hs

theorem detects_never [Nonempty ι] (h : ∀ i, Never bad (f i)) :
    Detects bad s f as ↔ s = false ∧ ∀ i, Clean (f i) as := by
  refine ⟨fun hd => ?_, fun ⟨hs, hclean⟩ => detects_of_clean hs hclean⟩
  have hnot : ∀ i, (s || ((f i).run as).short) = false := by
    intro i
    by_contra hs
    obtain ⟨a, ha, hbad⟩ := hd.fails i (eq_true_of_ne_false hs)
    exact (h i).run ha hbad
  obtain ⟨i⟩ := ‹Nonempty ι›
  exact ⟨(Bool.or_eq_false_iff.mp (hnot i)).1,
    fun i => ⟨hd.ends i, (Bool.or_eq_false_iff.mp (hnot i)).2⟩⟩

theorem clean_after {q : Program α} (h : p.run as = (q.run as').after bs (falls n as)) :
    Clean p as ↔ Whole n as ∧ Clean q as' := by
  constructor
  · rintro ⟨hends, hwhole⟩
    rw [h] at hends hwhole
    simp only [Outcome.after, Bool.or_eq_false_iff, falls, Bool.not_eq_false',
      decide_eq_true_eq] at hends hwhole
    exact ⟨hwhole.1, hends, hwhole.2⟩
  · rintro ⟨hw, hends, hwhole⟩
    constructor <;> rw [h]
    · exact hends
    · simp [Outcome.after, falls, hw, hwhole]

theorem clean_write {next : Int → Program α} : Clean (.write bs next) as ↔
    Whole bs.length as ∧ Clean (next bs.length) (rest bs.length as) := by
  by_cases h : Finishes bs.length as
  · rw [clean_after (run_write h)]
    exact and_congr_right fun hw => by rw [length_moved_of_whole hw]
  · refine iff_of_false (fun hc => hc.ends ?_) fun hc => h (.inl hc.1)
    rw [run_write_hangs h]

theorem clean_read {next : Int → List UInt8 → Program α} (hn : before.length = n) :
    Clean (.read before next) as ↔ Whole n as ∧ Clean (next n (moved n as)) (rest n as) := by
  by_cases h : Finishes n as
  · rw [clean_after (run_read hn h)]
    refine and_congr_right fun hw => ?_
    rw [length_moved_of_whole hw, ← hn, List.drop_length, List.append_nil]
  · refine iff_of_false (fun hc => hc.ends ?_) fun hc => h (.inl hc.1)
    rw [run_read_hangs hn h]

theorem clean_result : Clean (.result a) as := ⟨by simp [Program.run], rfl⟩

theorem clean_exits : Clean (.exits : Program α) as := ⟨by simp [Program.run], rfl⟩

theorem clean_traps : Clean (.traps : Program α) as := ⟨by simp [Program.run], rfl⟩

theorem detects_exits [Nonempty ι] : Detects bad s (fun _ : ι => .exits) as ↔ s = false :=
  (detects_never fun _ => .exits).trans (and_iff_left fun _ => clean_exits)

theorem detects_traps [Nonempty ι] : Detects bad s (fun _ : ι => .traps) as ↔ s = false :=
  (detects_never fun _ => .traps).trans (and_iff_left fun _ => clean_traps)

end Transfers
