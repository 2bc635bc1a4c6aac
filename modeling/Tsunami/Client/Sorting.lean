import Mathlib.Data.Nat.Basic
import Tsunami.Client.ReceiveLaws
import Tsunami.Client.Repeats
import Tsunami.Lib.SortedTable

/-!
# The sorted table of requests

`ttp_request_retransmit` in the build with `RETX_REQBLOCK_SORTING`, which keeps
the table sorted and free of duplicates, beside the build without. Both builds
repeat their requests in the same way, and the compaction in place keeps the
order, unless it stops halfway.
-/

namespace Tsunami.Client

open Bytes Transition

-- ---------------------------------------------------------------------------
-- The build with insertion sort
-- ---------------------------------------------------------------------------

def Retransmit.insert (r : Retransmit) (block : Nat) (h : r.indexMax < r.tableSize) :
    Retransmit where
  table := (SortedTable.insert r.table r.indexMax block).table
  indexMax := (SortedTable.insert r.table r.indexMax block).count
  allocated := by rw [(SortedTable.insert_inserts h block).length]; exact r.allocated
  fits := by
    rw [(SortedTable.insert_inserts h block).length]
    exact Nat.le_trans (SortedTable.insert_inserts h block).count h

/-- The transfer object after a call that returns 0, and where the table has
been written to. -/
structure Stored where
  xfer : Transfer
  writes : List Nat

/-- `ttp_request_retransmit` with `RETX_REQBLOCK_SORTING`. -/
def ttpRequestRetransmitSorting (realloc : Nat → Bool) (x : Transfer) (block : Nat) :
    Option Stored :=
  let r := x.retransmit
  if gotBlock x block then some ⟨x, []⟩
  else if h : r.indexMax < r.tableSize then
    some ⟨{ x with retransmit := r.insert block h },
      (SortedTable.insert r.table r.indexMax block).writes⟩
  else if r.indexMax ≥ 32 * maxRetransmissionBuffer then some ⟨{ x with dropped := true }, []⟩
  else if realloc (2 * r.tableSize) then
    -- the new half is cleared first
    some ⟨{ x with retransmit := r.grow.insert block r.indexMax_lt_grow },
      List.range' r.tableSize r.tableSize ++
        (SortedTable.insert r.grow.table r.grow.indexMax block).writes⟩
  else none

variable {x y : Transfer} {realloc : Nat → Bool} {block b : Nat} {w : WriteResult}

section

variable {r : Retransmit}

theorem Retransmit.insert_inserts (h : r.indexMax < r.tableSize) :
    SortedTable.Inserts r.table r.indexMax block
      (SortedTable.insert r.table r.indexMax block) := SortedTable.insert_inserts h block

theorem Retransmit.mem_insert (h : r.indexMax < r.tableSize) :
    b ∈ (r.insert block h).entries ↔ b = block ∨ b ∈ r.entries := (insert_inserts h).mem b

theorem Retransmit.insert_increasing (h : r.indexMax < r.tableSize)
    (hinc : r.entries.Pairwise (· < ·)) : (r.insert block h).entries.Pairwise (· < ·) :=
  (insert_inserts h).increasing hinc

theorem Retransmit.insert_above (h : r.indexMax < r.tableSize)
    (habove : ∀ b ∈ r.entries, b < block) : (r.insert block h).entries = r.entries ++ [block] :=
  SortedTable.insert_above h habove

@[simp] theorem Retransmit.tableSize_insert (h : r.indexMax < r.tableSize) :
    (r.insert block h).tableSize = r.tableSize := (insert_inserts h).length

@[simp] theorem Retransmit.tableSize_grow (r : Retransmit) :
    r.grow.tableSize = 2 * r.tableSize := by
  simp [grow, tableSize]
  omega

end

-- ---------------------------------------------------------------------------
-- How a call can end
-- ---------------------------------------------------------------------------

structure Refuses (x : Transfer) (block : Nat) : Prop where
  missing : gotBlock x block = false
  full : x.retransmit.tableSize ≤ x.retransmit.indexMax
  cap : 32 * maxRetransmissionBuffer ≤ x.retransmit.indexMax

structure Starves (realloc : Nat → Bool) (x : Transfer) (block : Nat) : Prop where
  missing : gotBlock x block = false
  full : x.retransmit.tableSize ≤ x.retransmit.indexMax
  below : x.retransmit.indexMax < 32 * maxRetransmissionBuffer
  denied : realloc (2 * x.retransmit.tableSize) = false

/-- What a call does to the entries and to the history of refusals, in either
build. -/
inductive Requests (realloc : Nat → Bool) (x : Transfer) (block : Nat) : Transfer → Prop
  | got : gotBlock x block = true → Requests realloc x block x
  | refused : Refuses x block → Requests realloc x block { x with dropped := true }
  | starved : Starves realloc x block → Requests realloc x block x
  | added {r : Retransmit} : gotBlock x block = false → ¬Refuses x block →
      ¬Starves realloc x block → (∀ b, b ∈ r.entries ↔ b = block ∨ b ∈ x.retransmit.entries) →
      Requests realloc x block { x with retransmit := r }

def requestWith (store : (r : Retransmit) → Nat → r.indexMax < r.tableSize → Retransmit)
    (realloc : Nat → Bool) (x : Transfer) (block : Nat) : Option Transfer :=
  let r := x.retransmit
  if gotBlock x block then some x
  else if h : r.indexMax < r.tableSize then some { x with retransmit := store r block h }
  else if r.indexMax ≥ 32 * maxRetransmissionBuffer then some { x with dropped := true }
  else if realloc (2 * r.tableSize) then
    some { x with retransmit := store r.grow block r.indexMax_lt_grow }
  else none

theorem ttpRequestRetransmit_eq : ttpRequestRetransmit = requestWith Retransmit.store := rfl

theorem ttpRequestRetransmitSorting_eq (realloc : Nat → Bool) (x : Transfer) (block : Nat) :
    (ttpRequestRetransmitSorting realloc x block).map Stored.xfer =
      requestWith Retransmit.insert realloc x block := by
  simp only [ttpRequestRetransmitSorting, requestWith]
  split
  · rfl
  · split
    · rfl
    · split
      · rfl
      · split <;> rfl

theorem requestWith_requests
    {store : (r : Retransmit) → Nat → r.indexMax < r.tableSize → Retransmit}
    (hstore : ∀ r block h b, b ∈ (store r block h).entries ↔ b = block ∨ b ∈ r.entries)
    (realloc : Nat → Bool) (x : Transfer) (block : Nat) :
    Requests realloc x block ((requestWith store realloc x block).getD x) := by
  simp only [requestWith]
  split
  · exact .got ‹_›
  · rename_i hgot
    have hmissing := eq_false_of_ne_true hgot
    split
    · rename_i hroom
      refine .added hmissing (fun h => ?_) (fun h => ?_) (hstore _ _ hroom)
      · exact absurd hroom (Nat.not_lt.mpr h.full)
      · exact absurd hroom (Nat.not_lt.mpr h.full)
    · rename_i hfull
      split
      · rename_i hcap
        exact .refused ⟨hmissing, Nat.not_lt.mp hfull, hcap⟩
      · rename_i hbelow
        split
        · rename_i hgrow
          refine .added hmissing (fun h => hbelow h.cap) (fun h => ?_) fun b => ?_
          · exact Bool.false_ne_true (h.denied.symm.trans hgrow)
          · rw [hstore, Retransmit.entries_grow]
        · rename_i hdenied
          exact .starved ⟨hmissing, Nat.not_lt.mp hfull, Nat.not_le.mp hbelow,
            eq_false_of_ne_true hdenied⟩

theorem sorting_requests (realloc : Nat → Bool) (x : Transfer) (block : Nat) :
    Requests realloc x block
      (((ttpRequestRetransmitSorting realloc x block).map Stored.xfer).getD x) := by
  rw [ttpRequestRetransmitSorting_eq]
  exact requestWith_requests (fun _ _ h _ => Retransmit.mem_insert h) realloc x block

theorem appending_requests (realloc : Nat → Bool) (x : Transfer) (block : Nat) :
    Requests realloc x block ((ttpRequestRetransmit realloc x block).getD x) := by
  rw [ttpRequestRetransmit_eq]
  refine requestWith_requests (fun r block h b => ?_) realloc x block
  rw [Retransmit.entries_store, List.mem_append, List.mem_singleton, or_comm]

def Increasing (x : Transfer) : Prop := x.retransmit.entries.Pairwise (· < ·)

def Sized (x : Transfer) : Prop := ∃ k ≤ 16, x.retransmit.tableSize = 2 ^ k

theorem Sized.le (h : Sized x) : x.retransmit.tableSize ≤ 32 * maxRetransmissionBuffer := by
  obtain ⟨k, hk, heq⟩ := h
  rw [heq]
  exact Nat.le_trans (Nat.pow_le_pow_right (by decide) hk) (by decide)

theorem Sized.double (h : Sized x) (hlt : x.retransmit.tableSize < 32 * maxRetransmissionBuffer) :
    ∃ k ≤ 16, 2 * x.retransmit.tableSize = 2 ^ k := by
  obtain ⟨k, hk, heq⟩ := h
  rw [heq] at hlt ⊢
  refine ⟨k + 1, ?_, (Nat.pow_succ' ..).symm⟩
  have hne : k ≠ 16 := by
    rintro rfl
    exact absurd hlt (by decide)
  omega

/-- The law of the sorting build, besides what it does to the set of entries. -/
structure Sorts (x : Transfer) (q : Stored) : Prop where
  increasing : Increasing x → Increasing q.xfer
  sized : Sized x → Sized q.xfer
  writes : ∀ i ∈ q.writes, i < q.xfer.retransmit.tableSize

theorem ttpRequestRetransmitSorting_sorts {q : Stored}
    (h : ttpRequestRetransmitSorting realloc x block = some q) : Sorts x q := by
  simp only [ttpRequestRetransmitSorting] at h
  split at h
  · cases h
    exact ⟨id, id, by simp⟩
  · split at h
    · rename_i hroom
      cases h
      refine ⟨Retransmit.insert_increasing hroom, ?_, fun i hi => ?_⟩
      · intro hs
        simpa [Sized] using hs
      · rw [Retransmit.tableSize_insert]
        exact Nat.lt_of_le_of_lt ((Retransmit.insert_inserts hroom).writes i hi) hroom
    · rename_i hfull
      split at h
      · cases h
        exact ⟨id, id, by simp⟩
      · rename_i hbelow
        split at h
        · cases h
          have hgrown := x.retransmit.indexMax_lt_grow
          have hsize : (x.retransmit.grow.insert block hgrown).tableSize =
              2 * x.retransmit.tableSize := by simp
          refine ⟨fun hinc => ?_, fun hs => ?_, fun i hi => ?_⟩
          · refine Retransmit.insert_increasing hgrown ?_
            rw [Retransmit.entries_grow]
            exact hinc
          · rw [Sized, hsize]
            exact hs.double (by omega)
          · rcases List.mem_append.mp hi with hi | hi
            · have hclear := (List.mem_range'_1.mp hi).2
              rw [hsize]
              omega
            · rw [Retransmit.tableSize_insert]
              exact Nat.lt_of_le_of_lt ((Retransmit.insert_inserts hgrown).writes i hi) hgrown
        · cases h

-- ---------------------------------------------------------------------------
-- How a repeat can end
-- ---------------------------------------------------------------------------

def TooMany (x : Transfer) : Prop :=
  maxRetransmissionBuffer ≤ (wanted x x.retransmit.entries).length

instance (x : Transfer) : Decidable (TooMany x) := inferInstanceAs (Decidable (_ ≤ _))

def SendsRestart (w : WriteResult) (x : Transfer) : Prop := TooMany x ∧ w ≠ .fwriteFails

/-- The loop that discards received blocks stops early, and has discarded one. -/
structure Slips (w : WriteResult) (x : Transfer) : Prop where
  fails : w = .fwriteFails
  tooMany : TooMany x
  discards : ∃ b ∈ x.retransmit.entries.take maxRetransmissionBuffer, b = 0 ∨ gotBlock x b = true

def leftBehind (x : Transfer) : List Nat :=
  if TooMany x then
    (x.retransmit.entries.drop maxRetransmissionBuffer).filter fun b => b = 0 ∨ gotBlock x b
  else []

theorem mem_leftBehind : b ∈ leftBehind x ↔ TooMany x ∧
    b ∈ x.retransmit.entries.drop maxRetransmissionBuffer ∧ (b = 0 ∨ gotBlock x b = true) := by
  unfold leftBehind
  split <;> simp [*]

theorem not_wanted_of_leftBehind {bs : List Nat} (h : b ∈ leftBehind x) : b ∉ wanted x bs := by
  intro hw
  obtain ⟨-, hne, hmiss⟩ := mem_wanted.mp hw
  rcases (mem_leftBehind.mp h).2.2 with rfl | hgot
  · exact hne rfl
  · exact Bool.false_ne_true (hmiss.symm.trans hgot)

theorem discard_length_ge : (discard x x.retransmit.indexMax).2.length ≥ maxRetransmissionBuffer ↔
    TooMany x := by
  rw [discard_requests, List.length_take, TooMany]
  omega

theorem entries_stopped (h : TooMany x) :
    (x.compact x.retransmit.indexMax (Nat.le_refl _)).entries =
      (wanted x x.retransmit.entries).take maxRetransmissionBuffer ++
        x.retransmit.entries.drop maxRetransmissionBuffer := by
  have hd := discarded x
  have hlen : (discard x x.retransmit.indexMax).2.length = maxRetransmissionBuffer := by
    rw [discard_requests, List.length_take]
    exact Nat.min_eq_left h
  have hbottom := hd.bottom
  rw [hlen, discard_requests] at hbottom
  have hdrop : (discard x x.retransmit.indexMax).1.drop maxRetransmissionBuffer =
      x.retransmit.table.drop maxRetransmissionBuffer := by
    refine List.ext_getElem? fun j => ?_
    rw [List.getElem?_drop, List.getElem?_drop]
    exact hd.rest _ (by omega)
  have hcount : maxRetransmissionBuffer ≤ x.retransmit.indexMax := hlen ▸ hd.count
  simp only [Retransmit.entries, Transfer.compact]
  rw [← List.take_append_drop maxRetransmissionBuffer
    ((discard x x.retransmit.indexMax).1.take x.retransmit.indexMax), List.take_take,
    Nat.min_eq_left hcount, hbottom, List.drop_take, hdrop, ← List.drop_take]
  rfl

/-- What `ttp_repeat_retransmit` does to the entries and to the history of
restarts. -/
inductive Repeats (w : WriteResult) (x : Transfer) (y : Transfer) : Prop
  | compacted : ¬TooMany x → y.dropped = x.dropped → y.restartPending = x.restartPending →
      y.retransmit.entries = wanted x x.retransmit.entries → Repeats w x y
  | restarted : SendsRestart w x → y.dropped = x.dropped → y.restartPending = true →
      y.retransmit.entries = [] → Repeats w x y
  | stopped : TooMany x → w = .fwriteFails → y.dropped = x.dropped →
      y.restartPending = x.restartPending →
      y.retransmit.entries = (wanted x x.retransmit.entries).take maxRetransmissionBuffer ++
        x.retransmit.entries.drop maxRetransmissionBuffer → Repeats w x y

theorem ttpRepeatRetransmit_repeats (w : WriteResult) (x : Transfer) :
    Repeats w x (ttpRepeatRetransmit w x).xfer := by
  by_cases hmany : TooMany x
  · have hlen := discard_length_ge.mpr hmany
    unfold ttpRepeatRetransmit
    simp only [if_pos hlen]
    split
    · exact .stopped hmany ‹_› rfl rfl (entries_stopped hmany)
    · exact .restarted ⟨hmany, ‹_›⟩ rfl rfl rfl
  · have hlen := mt discard_length_ge.mp hmany
    have hent := entries_compact x
    rw [List.take_of_length_le (Nat.le_of_lt (Nat.not_le.mp hmany))] at hent
    unfold ttpRepeatRetransmit
    simp only [if_neg hlen]
    exact .compacted hmany rfl rfl hent

theorem ttpRepeatRetransmit_tableSize (w : WriteResult) (x : Transfer) :
    (ttpRepeatRetransmit w x).xfer.retransmit.tableSize = x.retransmit.tableSize := by
  have hlen := (discarded x).length
  simp only [ttpRepeatRetransmit]
  split
  · split <;> exact hlen
  · exact hlen

theorem wanted_split (x : Transfer) : wanted x x.retransmit.entries =
    wanted x (x.retransmit.entries.take maxRetransmissionBuffer) ++
      wanted x (x.retransmit.entries.drop maxRetransmissionBuffer) := by
  rw [wanted, wanted, wanted, ← List.filter_append, List.take_append_drop]

theorem wanted_take_le (x : Transfer) :
    (wanted x (x.retransmit.entries.take maxRetransmissionBuffer)).length ≤
      maxRetransmissionBuffer :=
  Nat.le_trans (wanted_sublist x _).length_le (List.length_take_le ..)

theorem wanted_eq_self {bs : List Nat} :
    wanted x bs = bs ↔ ∀ b ∈ bs, ¬(b = 0 ∨ gotBlock x b = true) := by
  rw [wanted, List.filter_eq_self]
  simp [not_or]

/-- Where the loop has discarded something and yet has too many requests, it has
copied down an entry from past the buffer. -/
theorem copied_down (hmany : TooMany x)
    (hshort : (wanted x (x.retransmit.entries.take maxRetransmissionBuffer)).length <
      maxRetransmissionBuffer) :
    ∃ c ∈ (wanted x x.retransmit.entries).take maxRetransmissionBuffer,
      c ∈ x.retransmit.entries.drop maxRetransmissionBuffer := by
  rw [TooMany, wanted_split, List.length_append] at hmany
  cases hw : wanted x (x.retransmit.entries.drop maxRetransmissionBuffer) with
  | nil =>
    rw [hw, List.length_nil] at hmany
    omega
  | cons c cs =>
    refine ⟨c, ?_, (wanted_sublist x _).subset (hw ▸ List.mem_cons_self)⟩
    rw [wanted_split, hw, List.take_append, List.mem_append,
      ← Nat.succ_pred_eq_of_pos (Nat.sub_pos_of_lt hshort), List.take_succ_cons]
    exact .inr List.mem_cons_self

/-- The loop that stops early keeps the order only if it has discarded nothing:
what it copies down also stays where it was. -/
theorem stopped_increasing (hmany : TooMany x) (hinc : Increasing x) :
    ((wanted x x.retransmit.entries).take maxRetransmissionBuffer ++
      x.retransmit.entries.drop maxRetransmissionBuffer).Pairwise (· < ·) ↔
    ∀ b ∈ x.retransmit.entries.take maxRetransmissionBuffer, ¬(b = 0 ∨ gotBlock x b = true) := by
  rw [← wanted_eq_self]
  have hlow := wanted_take_le x
  constructor
  · intro hsorted
    by_contra hdiscard
    have hshort : (wanted x (x.retransmit.entries.take maxRetransmissionBuffer)).length <
        maxRetransmissionBuffer := by
      have hle := (wanted_sublist x (x.retransmit.entries.take maxRetransmissionBuffer)).length_le
      have hne := mt (wanted_sublist x _).eq_of_length hdiscard
      have htake := List.length_take_le maxRetransmissionBuffer x.retransmit.entries
      omega
    obtain ⟨c, hcopied, hstays⟩ := copied_down hmany hshort
    exact Nat.lt_irrefl c ((List.pairwise_append.mp hsorted).2.2 c hcopied c hstays)
  · intro hall
    have hlen : maxRetransmissionBuffer ≤ x.retransmit.entries.length :=
      Nat.le_trans hmany (wanted_sublist x _).length_le
    have hsame : (wanted x x.retransmit.entries).take maxRetransmissionBuffer =
        x.retransmit.entries.take maxRetransmissionBuffer := by
      rw [wanted_split, hall, List.take_append_of_le_length, List.take_take, Nat.min_self]
      rw [List.length_take, Nat.min_eq_left hlen]
    rw [hsame, List.take_append_drop]
    exact hinc

theorem Repeats.mem (h : Repeats w x y) (hr : ¬SendsRestart w x) :
    b ∈ y.retransmit.entries ↔ b ∈ wanted x x.retransmit.entries ∨ b ∈ leftBehind x := by
  rw [mem_leftBehind]
  cases h with
  | restarted hrestart => exact absurd hrestart hr
  | compacted hfew _ _ hent =>
    rw [hent]
    exact ⟨.inl, fun h => h.resolve_right fun hleft => hfew hleft.1⟩
  | stopped hmany _ _ _ hent =>
    rw [hent, List.mem_append]
    constructor
    · rintro (hb | hb)
      · exact .inl (List.mem_of_mem_take hb)
      · by_cases hun : b = 0 ∨ gotBlock x b = true
        · exact .inr ⟨hmany, hb, hun⟩
        · rw [not_or, Bool.not_eq_true] at hun
          exact .inl (mem_wanted.mpr ⟨List.mem_of_mem_drop hb, hun⟩)
    · rintro (hb | ⟨-, hb, -⟩)
      · rw [wanted_split, List.mem_append] at hb
        rcases hb with hb | hb
        · left
          rw [wanted_split, List.take_append, List.mem_append,
            List.take_of_length_le (wanted_take_le x)]
          exact .inl hb
        · exact .inr ((wanted_sublist x _).subset hb)
      · exact .inr hb

-- ---------------------------------------------------------------------------
-- Both builds
-- ---------------------------------------------------------------------------

structure Builds where
  sorting : Transfer
  appending : Transfer

inductive TableEvent
  | request (block : Nat) (sorting appending : Nat → Bool)
  | arrive (block : Nat)
  | repeats (sorting appending : WriteResult)

def Builds.create (x : Transfer) : Builds :=
  let x := { x with retransmit := .create, restartPending := false, dropped := false }
  ⟨x, x⟩

/-- A request that fails leaves the transfer object as it is. -/
def Builds.step (s : Builds) : TableEvent → Builds
  | .request block sorting appending =>
    { sorting := ((ttpRequestRetransmitSorting sorting s.sorting block).map
        Stored.xfer).getD s.sorting
      appending := (ttpRequestRetransmit appending s.appending block).getD s.appending }
  | .arrive block => ⟨markReceived s.sorting block, markReceived s.appending block⟩
  | .repeats sorting appending =>
    ⟨(ttpRepeatRetransmit sorting s.sorting).xfer, (ttpRepeatRetransmit appending s.appending).xfer⟩

/-- Where the sorting build writes to its table. A turn of the loop that repeats
the requests writes where its write cursor is, if at all. -/
def Builds.writes (s : Builds) : TableEvent → List Nat
  | .request block sorting _ =>
    ((ttpRequestRetransmitSorting sorting s.sorting block).map Stored.writes).getD []
  | .arrive _ => []
  | .repeats _ _ =>
    (List.range s.sorting.retransmit.indexMax).map fun entry => (discard s.sorting entry).2.length

def tables : System Builds TableEvent where
  init s := ∃ x, s = .create x
  step s e := some (s.step e)

def Live (x : Transfer) : Prop := x.dropped = false ∧ x.restartPending = false

def Builds.Live (s : Builds) : Prop := Client.Live s.sorting ∧ Client.Live s.appending

def Builds.Agree (s : Builds) : Prop :=
  ∀ b, b ∈ s.appending.retransmit.entries ↔ b ∈ s.sorting.retransmit.entries

def Adds (x y : Transfer) : TableEvent → Prop
  | .request block _ _ => gotBlock x block = false → ¬Refuses x block →
    ∀ b, b ∈ y.retransmit.entries ↔ b = block ∨ b ∈ x.retransmit.entries
  | _ => True

structure Lawful (s : Builds) (e : TableEvent) (t : Builds) : Prop where
  increasing : Increasing t.sorting
  adds : Adds s.sorting t.sorting e
  bounded : t.sorting.retransmit.indexMax ≤ t.sorting.retransmit.tableSize ∧
    t.sorting.retransmit.tableSize ≤ 32 * maxRetransmissionBuffer
  written : ∀ i ∈ s.writes e, i < t.sorting.retransmit.tableSize
  agree : t.Live → t.Agree

def Loses (realloc : Nat → Bool) (x : Transfer) (block : Nat) : Prop :=
  Starves realloc x block ∧ block ∉ x.retransmit.entries

/-- The condition: no new block is lost, and where a restart request cannot be
written nothing has been discarded, and the same is left behind in both builds. -/
def Clean (s : Builds) : TableEvent → Prop
  | .request block sorting appending =>
    ¬Loses sorting s.sorting block ∧
      (s.Live → ¬Refuses s.sorting block → ¬Refuses s.appending block →
        ¬Loses appending s.appending block)
  | .arrive _ => True
  | .repeats sorting appending =>
    ¬Slips sorting s.sorting ∧
      (s.Live → ¬SendsRestart sorting s.sorting → ¬SendsRestart appending s.appending →
        ∀ b, b ∈ leftBehind s.appending ↔ b ∈ leftBehind s.sorting)

structure Good (s : Builds) : Prop where
  increasing : Increasing s.sorting
  sized : Sized s.sorting
  blocks : SameBlocks s.sorting s.appending
  agree : s.Live → s.Agree

variable {s t : Builds} {e : TableEvent}

theorem create_good (x : Transfer) : Good (.create x) where
  increasing := List.Pairwise.nil
  sized := ⟨12, by decide, List.length_replicate ..⟩
  blocks := .refl _
  agree _ _ := Iff.rfl

-- One call in one build.

theorem Requests.live_iff (h : Requests realloc x block y) :
    Client.Live y ↔ Client.Live x ∧ ¬Refuses x block := by
  cases h with
  | got hgot =>
    refine ⟨fun hl => ⟨hl, fun hr => ?_⟩, And.left⟩
    exact Bool.false_ne_true (hr.missing.symm.trans hgot)
  | refused hr => exact ⟨fun hl => absurd hl.1 (by simp), fun h => absurd hr h.2⟩
  | starved hs =>
    refine ⟨fun hl => ⟨hl, fun hr => ?_⟩, And.left⟩
    exact absurd hs.below (Nat.not_lt.mpr hr.cap)
  | added _ hr => exact ⟨fun hl => ⟨hl, hr⟩, And.left⟩

theorem Requests.adds_iff (h : Requests realloc x block y) (hmiss : gotBlock x block = false)
    (hr : ¬Refuses x block) :
    (∀ b, b ∈ y.retransmit.entries ↔ b = block ∨ b ∈ x.retransmit.entries) ↔
      ¬Loses realloc x block := by
  cases h with
  | got hgot => exact absurd (hmiss.symm.trans hgot) Bool.false_ne_true
  | refused href => exact absurd href hr
  | starved hs =>
    constructor
    · exact fun hadd hlose => hlose.2 ((hadd block).mpr (.inl rfl))
    · intro hkeep b
      refine ⟨.inr, ?_⟩
      rintro (rfl | hb)
      · by_contra hnot
        exact hkeep ⟨hs, hnot⟩
      · exact hb
  | added _ _ hs hmem => exact ⟨fun _ hlose => hs hlose.1, fun _ => hmem⟩

theorem Requests.same (h : Requests realloc x block y) (hgot : Client.gotBlock x block = true) :
    y = x := by
  have hnot : Client.gotBlock x block ≠ false := by simp [hgot]
  cases h with
  | got | starved => rfl
  | refused hr => exact absurd hr.missing hnot
  | added hmiss => exact absurd hmiss hnot

theorem Requests.sameBlocks (h : Requests realloc x block y) : SameBlocks x y := by
  cases h <;> exact ⟨rfl, rfl, rfl, rfl⟩

theorem Repeats.live_iff (h : Repeats w x y) :
    Client.Live y ↔ Client.Live x ∧ ¬SendsRestart w x := by
  cases h with
  | compacted hfew hd hp =>
    rw [Client.Live, hd, hp]
    exact ⟨fun hl => ⟨hl, fun hr => hfew hr.1⟩, And.left⟩
  | restarted hr _ hp => exact ⟨fun hl => absurd (hp.symm.trans hl.2) (by simp),
      fun h => absurd hr h.2⟩
  | stopped _ hw hd hp =>
    rw [Client.Live, hd, hp]
    exact ⟨fun hl => ⟨hl, fun hr => hr.2 hw⟩, And.left⟩

theorem Repeats.increasing_iff (h : Repeats w x y) (hinc : Increasing x) :
    Increasing y ↔ ¬Slips w x := by
  cases h with
  | compacted hfew _ _ hent =>
    rw [Increasing, hent]
    exact ⟨fun _ hs => hfew hs.tooMany, fun _ => hinc.sublist (wanted_sublist x _)⟩
  | restarted hr _ _ hent =>
    rw [Increasing, hent]
    exact ⟨fun _ hs => hr.2 hs.fails, fun _ => .nil⟩
  | stopped hmany hw _ _ hent =>
    rw [Increasing, hent, stopped_increasing hmany hinc]
    constructor
    · rintro hnone ⟨-, -, b, hb, hun⟩
      exact hnone b hb hun
    · exact fun hs b hb hun => hs ⟨hw, hmany, b, hb, hun⟩

-- One step of both.

theorem Sized.bounded (h : Sized x) : x.retransmit.indexMax ≤ x.retransmit.tableSize ∧
    x.retransmit.tableSize ≤ 32 * maxRetransmissionBuffer := ⟨x.retransmit.fits, h.le⟩

theorem step_sized (h : Good s) (e : TableEvent) : Sized (s.step e).sorting ∧
    ∀ i ∈ s.writes e, i < (s.step e).sorting.retransmit.tableSize := by
  cases e with
  | request block sorting appending =>
    simp only [Builds.step, Builds.writes]
    cases hq : ttpRequestRetransmitSorting sorting s.sorting block with
    | none => exact ⟨h.sized, by simp⟩
    | some q =>
      have hsorts := ttpRequestRetransmitSorting_sorts hq
      exact ⟨hsorts.sized h.sized, hsorts.writes⟩
  | arrive => exact ⟨h.sized, by simp [Builds.writes]⟩
  | repeats sorting appending =>
    have hsize := ttpRepeatRetransmit_tableSize sorting s.sorting
    simp only [Builds.step, Builds.writes, List.mem_map, List.mem_range]
    refine ⟨by rw [Sized, hsize]; exact h.sized, ?_⟩
    rintro i ⟨entry, hentry, rfl⟩
    have hfits := s.sorting.retransmit.fits
    have hcursor := (discard_discarded s.sorting (n := entry) (by omega)).count
    rw [hsize, Retransmit.tableSize]
    omega

theorem SameBlocks.both {x' y' : Transfer} (h : SameBlocks x y) (hx : SameBlocks x x')
    (hy : SameBlocks y y') : SameBlocks x' y' where
  fileSize := hy.fileSize.trans (h.fileSize.trans hx.fileSize.symm)
  blockCount := hy.blockCount.trans (h.blockCount.trans hx.blockCount.symm)
  received := hy.received.trans (h.received.trans hx.received.symm)
  blocksLeft := hy.blocksLeft.trans (h.blocksLeft.trans hx.blocksLeft.symm)

theorem SameBlocks.markReceived (h : SameBlocks x y) (b : Nat) :
    SameBlocks (Client.markReceived x b) (Client.markReceived y b) := by
  obtain ⟨hsize, hcount, hreceived, hleft⟩ := h
  constructor <;> simp [Client.markReceived, hsize, hcount, hreceived, hleft]

theorem step_blocks (h : Good s) (e : TableEvent) :
    SameBlocks (s.step e).sorting (s.step e).appending := by
  cases e with
  | request block sorting appending =>
    exact h.blocks.both (sorting_requests ..).sameBlocks (appending_requests ..).sameBlocks
  | arrive block => exact h.blocks.markReceived block
  | repeats sorting appending =>
    exact h.blocks.both (ttpRepeatRetransmit_sameBlocks ..) (ttpRepeatRetransmit_sameBlocks ..)

theorem request_increasing (h : Increasing x) (realloc : Nat → Bool) (block : Nat) :
    Increasing (((ttpRequestRetransmitSorting realloc x block).map Stored.xfer).getD x) := by
  cases hq : ttpRequestRetransmitSorting realloc x block with
  | none => exact h
  | some q => exact (ttpRequestRetransmitSorting_sorts hq).increasing h

theorem request_lawful_iff (h : Good s) (block : Nat) (sorting appending : Nat → Bool) :
    Lawful s (.request block sorting appending) (s.step (.request block sorting appending)) ↔
      Clean s (.request block sorting appending) := by
  have hs := sorting_requests sorting s.sorting block
  have ha := appending_requests appending s.appending block
  obtain ⟨hsized, hwrites⟩ := step_sized h (.request block sorting appending)
  have hinc := request_increasing h.increasing sorting block
  cases hgot : gotBlock s.sorting block with
  | true =>
    have hsame : s.step (.request block sorting appending) = s := by
      simp only [Builds.step]
      rw [hs.same hgot, ha.same ((h.blocks.gotBlock block).trans hgot)]
    have hnot : gotBlock s.sorting block ≠ false := by simp [hgot]
    refine ⟨fun _ => ⟨fun hl => hnot hl.1.missing, fun _ _ _ hl => ?_⟩,
      fun _ => ⟨hinc, fun hmiss => absurd hmiss hnot, hsized.bounded, hwrites, ?_⟩⟩
    · exact hnot ((h.blocks.gotBlock block).symm.trans hl.1.missing)
    · rw [hsame]
      exact h.agree
  | false =>
    have hgot' := (h.blocks.gotBlock block).trans hgot
    constructor
    · intro hlaw
      refine ⟨fun hl => ?_, fun hlive hr hr' => ?_⟩
      · have hr : ¬Refuses s.sorting block := fun hr =>
          absurd hl.1.below (Nat.not_lt.mpr hr.cap)
        exact (hs.adds_iff hgot hr).mp (hlaw.adds hgot hr) hl
      · have hagree := hlaw.agree ⟨hs.live_iff.mpr ⟨hlive.1, hr⟩, ha.live_iff.mpr ⟨hlive.2, hr'⟩⟩
        refine (ha.adds_iff hgot' hr').mp fun b => ?_
        rw [h.agree hlive b, ← hlaw.adds hgot hr b]
        exact hagree b
    · rintro ⟨hkeep, hkeep'⟩
      refine ⟨hinc, fun _ hr => (hs.adds_iff hgot hr).mpr hkeep, hsized.bounded, hwrites, ?_⟩
      rintro ⟨hl, hl'⟩ b
      obtain ⟨hlive, hr⟩ := hs.live_iff.mp hl
      obtain ⟨hlive', hr'⟩ := ha.live_iff.mp hl'
      have hadd := (hs.adds_iff hgot hr).mpr hkeep b
      have hadd' := (ha.adds_iff hgot' hr').mpr (hkeep' ⟨hlive, hlive'⟩ hr hr') b
      exact hadd'.trans ((or_congr_right (h.agree ⟨hlive, hlive'⟩ b)).trans hadd.symm)

theorem arrive_lawful (h : Good s) (block : Nat) :
    Lawful s (.arrive block) (s.step (.arrive block)) := by
  obtain ⟨hsized, hwrites⟩ := step_sized h (.arrive block)
  exact ⟨h.increasing, trivial, hsized.bounded, hwrites, h.agree⟩

theorem repeats_lawful_iff (h : Good s) (sorting appending : WriteResult) :
    Lawful s (.repeats sorting appending) (s.step (.repeats sorting appending)) ↔
      Clean s (.repeats sorting appending) := by
  have hs := ttpRepeatRetransmit_repeats sorting s.sorting
  have ha := ttpRepeatRetransmit_repeats appending s.appending
  obtain ⟨hsized, hwrites⟩ := step_sized h (.repeats sorting appending)
  have hwanted : s.Agree → ∀ b, b ∈ wanted s.appending s.appending.retransmit.entries ↔
      b ∈ wanted s.sorting s.sorting.retransmit.entries := by
    intro hagree b
    rw [mem_wanted, mem_wanted, hagree b, h.blocks.gotBlock b]
  constructor
  · intro hlaw
    refine ⟨(hs.increasing_iff h.increasing).mp hlaw.increasing, fun hlive hr hr' b => ?_⟩
    have hagree := hlaw.agree ⟨hs.live_iff.mpr ⟨hlive.1, hr⟩, ha.live_iff.mpr ⟨hlive.2, hr'⟩⟩ b
    simp only [Builds.step, hs.mem hr, ha.mem hr', hwanted (h.agree hlive) b] at hagree
    refine ⟨fun hb => ?_, fun hb => ?_⟩
    · refine (hagree.mp (.inr hb)).resolve_left fun hw => ?_
      exact not_wanted_of_leftBehind hb ((hwanted (h.agree hlive) b).mpr hw)
    · exact (hagree.mpr (.inr hb)).resolve_left (not_wanted_of_leftBehind hb)
  · rintro ⟨hslip, hleft⟩
    refine ⟨(hs.increasing_iff h.increasing).mpr hslip, trivial, hsized.bounded, hwrites, ?_⟩
    rintro ⟨hl, hl'⟩ b
    obtain ⟨hlive, hr⟩ := hs.live_iff.mp hl
    obtain ⟨hlive', hr'⟩ := ha.live_iff.mp hl'
    simp only [Builds.step, hs.mem hr, ha.mem hr']
    rw [hwanted (h.agree ⟨hlive, hlive'⟩) b, hleft ⟨hlive, hlive'⟩ hr hr' b]

theorem lawful_iff_clean (h : Good s) (e : TableEvent) : Lawful s e (s.step e) ↔ Clean s e := by
  cases e with
  | request block sorting appending => exact request_lawful_iff h block sorting appending
  | arrive block => exact ⟨fun _ => trivial, fun _ => arrive_lawful h block⟩
  | repeats sorting appending => exact repeats_lawful_iff h sorting appending

theorem Lawful.good (h : Good s) (hl : Lawful s e (s.step e)) : Good (s.step e) where
  increasing := hl.increasing
  sized := (step_sized h e).1
  blocks := step_blocks h e
  agree := hl.agree

/-- The sorting build does as it should, and agrees with the other build as far
as it should, in exactly those runs whose steps are all clean. -/
theorem sorted_table_lawful_iff (x : Transfer) (es : List TableEvent) :
    tables.Throughout Lawful (.create x) es ↔
      tables.Throughout (fun s e _ => Clean s e) (.create x) es := by
  refine System.Throughout.iff (I := Good) (create_good x) ?_ ?_
  · intro s e t h ht
    cases ht
    exact lawful_iff_clean h e
  · intro s e t h hl ht
    cases ht
    exact hl.good h

def askFor (block : Nat) : TableEvent := .request block (fun _ => true) fun _ => true

theorem run_askFor (n k : Nat) (s : Builds)
    (hent : s.sorting.retransmit.entries = List.range' 1 n)
    (hroom : n + k ≤ s.sorting.retransmit.tableSize)
    (hmiss : ∀ b, 1 ≤ b → b ≤ n + k → gotBlock s.sorting b = false) :
    ∃ t, tables.run s ((List.range' (n + 1) k).map askFor) = some t ∧
      SameBlocks s.sorting t.sorting ∧ t.sorting.retransmit.entries = List.range' 1 (n + k) := by
  induction k generalizing n s with
  | zero => exact ⟨s, rfl, .refl _, hent⟩
  | succ k ih =>
    have hmax : s.sorting.retransmit.indexMax = n := by
      rw [← Retransmit.length_entries, hent, List.length_range']
    have hlt : s.sorting.retransmit.indexMax < s.sorting.retransmit.tableSize := by omega
    have hstep : (s.step (askFor (n + 1))).sorting =
        { s.sorting with retransmit := s.sorting.retransmit.insert (n + 1) hlt } := by
      simp [Builds.step, askFor, ttpRequestRetransmitSorting,
        hmiss (n + 1) (by omega) (by omega), hlt]
    have habove : ∀ b ∈ s.sorting.retransmit.entries, b < n + 1 := by
      intro b hb
      rw [hent, List.mem_range'_1] at hb
      omega
    have hblocks : SameBlocks s.sorting (s.step (askFor (n + 1))).sorting := by
      rw [hstep]
      exact ⟨rfl, rfl, rfl, rfl⟩
    obtain ⟨t, ht, hrest, hall⟩ := ih (n + 1) (s.step (askFor (n + 1)))
      (by rw [hstep, Retransmit.insert_above hlt habove, hent, List.range'_1_concat, Nat.add_comm])
      (by simp only [hstep, Retransmit.tableSize_insert]; omega)
      (fun b hpos hb => by rw [hblocks.gotBlock]; exact hmiss b hpos (by omega))
    refine ⟨t, ?_, hblocks.trans hrest, ?_⟩
    · rw [List.range'_succ, List.map_cons, System.run_cons]
      exact ⟨_, rfl, ht⟩
    · rw [hall, Nat.add_right_comm]
      rfl

def overflowing : Transfer := .create ⟨1024, 650000000, 25, true, 0⟩ 2098176 2049

/-- All of 2049 blocks are asked for, the first one arrives, and the request for
a restart cannot be written: the last block is then in the table twice. -/
theorem restart_unwritten_duplicates :
    ¬tables.Throughout Lawful (.create overflowing)
      ((List.range' 1 2049).map askFor ++ [.arrive 1, .repeats .fwriteFails .fwriteFails]) := by
  have hmissing : ∀ b, b ≤ 2049 → gotBlock (Builds.create overflowing).sorting b = false :=
    fun b hb => gotBlock_create hb
  have hsize : (Builds.create overflowing).sorting.retransmit.tableSize = 4096 :=
    List.length_replicate ..
  obtain ⟨t, ht, hblocks, hent⟩ := run_askFor 0 2049 (.create overflowing) rfl
    (by rw [hsize]; decide) fun b _ hb => hmissing b (by omega)
  rw [Nat.zero_add] at ht hent
  have hfits : BitmapFits t.sorting := by
    rw [BitmapFits, hblocks.received, hblocks.blockCount]
    exact List.length_replicate ..
  have hgot : ∀ b, b ≤ 2049 →
      gotBlock (markReceived t.sorting 1) b = decide (1 = b) := by
    intro b hb
    rw [gotBlock_markReceived hfits (by rw [hblocks.blockCount]; decide), hblocks.gotBlock,
      hmissing b hb, Bool.or_false]
  have hslips : Slips .fwriteFails (markReceived t.sorting 1) := by
    have hent' : (markReceived t.sorting 1).retransmit.entries = 1 :: List.range' 2 2048 := hent
    refine ⟨rfl, ?_, 1, ?_, .inr ?_⟩
    · have hrest : wanted (markReceived t.sorting 1) (List.range' 2 2048) = List.range' 2 2048 := by
        refine wanted_eq_self.mpr fun b hb => ?_
        rw [List.mem_range'_1] at hb
        rw [hgot b (by omega), decide_eq_true_eq]
        omega
      have hsub : (wanted (markReceived t.sorting 1) (List.range' 2 2048)).length ≤
          (wanted (markReceived t.sorting 1) (1 :: List.range' 2 2048)).length :=
        ((List.sublist_cons_self ..).filter _).length_le
      rw [hrest, List.length_range'] at hsub
      rw [TooMany, hent']
      exact hsub
    · rw [hent']
      exact List.mem_cons_self
    · rw [hgot 1 (by decide)]
      rfl
  intro hlaw
  obtain ⟨-, hlaw⟩ := (System.Throughout.run_append ht).mp hlaw
  obtain ⟨-, hlaw⟩ := hlaw _ rfl
  obtain ⟨hlaw, -⟩ := hlaw _ rfl
  have hinc : Increasing (markReceived t.sorting 1) := by
    have hsame : (markReceived t.sorting 1).retransmit.entries = List.range' 1 2049 := hent
    rw [Increasing, hsame]
    exact List.pairwise_lt_range'
  exact ((ttpRepeatRetransmit_repeats ..).increasing_iff hinc).mp hlaw.increasing hslips

end Tsunami.Client
