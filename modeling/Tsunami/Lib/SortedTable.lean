import Mathlib.Order.Lattice

/-!
# Insertion into a sorted array

An array whose first `n` places hold an increasing sequence. A new value is
inserted in place: a loop seeks its place, and another one shifts what stands
there up by one, reading each place just before it is written. Every place
that is written to is recorded.
-/

namespace SortedTable

variable {α : Type u}

/-- `while (idx < n && table[idx] < v) idx++`, with at most `fuel` turns. -/
def seek [LT α] [DecidableLT α] (table : List α) (n : Nat) (v : α) : Nat → Nat → Nat
  | 0, idx => idx
  | fuel + 1, idx =>
    if idx < n ∧ table[idx]?.any (· < v) then seek table n v fuel (idx + 1) else idx

structure Written (α : Type u) where
  table : List α
  writes : List Nat

def Written.set (s : Written α) (idx : Nat) (v : α) : Written α :=
  ⟨s.table.set idx v, s.writes ++ [idx]⟩

/-- `do { up = table[idx]; table[idx++] = ins; ins = up; } while (idx <= n)`,
with at most `fuel` turns. -/
def shift (n : Nat) : Nat → Written α → Nat → α → Written α
  | 0, s, _, _ => s
  | fuel + 1, s, idx, ins =>
    match s.table[idx]? with
    | none => s.set idx ins
    | some up => if idx + 1 ≤ n then shift n fuel (s.set idx ins) (idx + 1) up else s.set idx ins

structure Inserted (α : Type u) extends Written α where
  count : Nat

/-- A value that is in the array already is not inserted again. -/
def insert [LT α] [DecidableLT α] [DecidableEq α] (table : List α) (n : Nat) (v : α) : Inserted α :=
  let idx := seek table n v n 0
  if idx = n then ⟨⟨table.set n v, [n]⟩, n + 1⟩
  else if table[idx]? = some v then ⟨⟨table, []⟩, n⟩
  else ⟨shift n (n + 1 - idx) ⟨table, []⟩ idx v, n + 1⟩

variable {table : List α} {n fuel idx : Nat} {v ins : α} {s : Written α}

-- ---------------------------------------------------------------------------
-- The two loops
-- ---------------------------------------------------------------------------

theorem take_set_last (hn : n < table.length) (v : α) :
    (table.set n v).take (n + 1) = table.take n ++ [v] := by
  rw [List.take_add_one, List.take_set_of_le (Nat.le_refl n), List.getElem?_set_self hn]
  rfl

structure Shifted (n : Nat) (s : Written α) (idx : Nat) (ins : α) (t : Written α) : Prop where
  length : t.table.length = s.table.length
  table : t.table.take (n + 1) = s.table.take idx ++ ins :: (s.table.take n).drop idx
  writes : ∀ i ∈ t.writes, i ∈ s.writes ∨ i ≤ n

theorem shift_shifted (hn : n < s.table.length) (hidx : idx ≤ n) (hfuel : n < idx + fuel) :
    Shifted n s idx ins (shift n fuel s idx ins) := by
  induction fuel generalizing s idx ins with
  | zero => exact absurd hidx (Nat.not_le.mpr hfuel)
  | succ fuel ih =>
    have hin : idx < s.table.length := Nat.lt_of_le_of_lt hidx hn
    have hset := take_set_last hin ins
    have hwrites : ∀ i ∈ (s.set idx ins).writes, i ∈ s.writes ∨ i ≤ n := by
      intro i hi
      rcases List.mem_append.mp hi with hi | hi
      · exact .inl hi
      · exact .inr (List.mem_singleton.mp hi ▸ hidx)
    rw [shift, List.getElem?_eq_getElem hin]
    by_cases hmore : idx + 1 ≤ n
    · -- the rest of the loop inserts what stood at `idx` one place further
      have hrest : Shifted n (s.set idx ins) (idx + 1) s.table[idx]
          (shift n fuel (s.set idx ins) (idx + 1) s.table[idx]) :=
        ih (by rw [Written.set, List.length_set]; exact hn) hmore (by omega)
      have hdrop : (s.table.take n).drop idx =
          s.table[idx] :: (s.table.take n).drop (idx + 1) := by
        rw [List.drop_eq_getElem_cons (by rw [List.length_take]; omega), List.getElem_take]
      have hkeep : ((s.table.set idx ins).take n).drop (idx + 1) =
          (s.table.take n).drop (idx + 1) := by
        rw [List.take_set, List.drop_set_of_lt (Nat.lt_succ_self idx)]
      simp only [if_pos hmore]
      refine ⟨hrest.length.trans (List.length_set ..), ?_, fun i hi => ?_⟩
      · rw [hrest.table, hdrop, Written.set, hset, hkeep, List.append_assoc]
        rfl
      · exact (hrest.writes i hi).elim (hwrites i) .inr
    · have hlast : idx = n := by omega
      subst hlast
      simp only [if_neg hmore]
      refine ⟨List.length_set .., ?_, hwrites⟩
      rw [Written.set, hset, List.drop_take, Nat.sub_self, List.take_zero]

variable [LinearOrder α]

/-- What the seeking loop finds: everything before is smaller, and what stands
there, if it is in use, is not. -/
structure Sought (table : List α) (n : Nat) (v : α) (idx : Nat) : Prop where
  le : idx ≤ n
  below : ∀ a ∈ table.take idx, a < v
  above : ∀ a, idx < n → table[idx]? = some a → v ≤ a

theorem seek_sought (hn : n ≤ table.length) (hidx : idx ≤ n) (hfuel : n ≤ idx + fuel)
    (hbelow : ∀ a ∈ table.take idx, a < v) : Sought table n v (seek table n v fuel idx) := by
  induction fuel generalizing idx with
  | zero => exact ⟨hidx, hbelow, fun _ hlt => absurd hfuel (Nat.not_le.mpr hlt)⟩
  | succ fuel ih =>
    rw [seek]
    split
    · rename_i hturn
      obtain ⟨hlt, hless⟩ := hturn
      have hin : idx < table.length := Nat.lt_of_lt_of_le hlt hn
      rw [List.getElem?_eq_getElem hin, Option.any_some, decide_eq_true_eq] at hless
      refine ih hlt (by omega) fun a ha => ?_
      rw [List.take_add_one, List.getElem?_eq_getElem hin, List.mem_append] at ha
      rcases ha with ha | ha
      · exact hbelow a ha
      · rw [Option.toList_some, List.mem_singleton] at ha
        exact ha ▸ hless
    · rename_i hturn
      refine ⟨hidx, hbelow, fun a hlt ha => ?_⟩
      rw [ha, Option.any_some, decide_eq_true_eq] at hturn
      exact not_lt.mp fun hav => hturn ⟨hlt, hav⟩

theorem Sought.split (h : Sought table n v idx) :
    table.take n = table.take idx ++ (table.take n).drop idx := by
  have htake := List.take_append_drop idx (table.take n)
  rwa [List.take_take, Nat.min_eq_left h.le, eq_comm] at htake

theorem Sought.lt_rest (h : Sought table n v idx) (hn : n < table.length) (hlt : idx < n)
    (hnew : table[idx]? ≠ some v) (hinc : ((table.take n).drop idx).Pairwise (· < ·)) :
    ∀ b ∈ (table.take n).drop idx, v < b := by
  have hidx : idx < table.length := Nat.lt_trans hlt hn
  have hcons : (table.take n).drop idx = table[idx] :: (table.take n).drop (idx + 1) := by
    rw [List.drop_eq_getElem_cons (by rw [List.length_take]; omega), List.getElem_take]
  have hfirst : v < table[idx] := by
    refine lt_of_le_of_ne (h.above _ hlt (List.getElem?_eq_getElem hidx)) ?_
    rintro rfl
    exact hnew (List.getElem?_eq_getElem hidx)
  intro b hb
  rw [hcons] at hb hinc
  rcases List.mem_cons.mp hb with rfl | hb
  · exact hfirst
  · exact lt_trans hfirst (List.rel_of_pairwise_cons hinc hb)

-- ---------------------------------------------------------------------------
-- The insertion
-- ---------------------------------------------------------------------------

/-- The law of an insertion. The order matters for the last part only. -/
structure Inserts (table : List α) (n : Nat) (v : α) (r : Inserted α) : Prop where
  length : r.table.length = table.length
  count : r.count ≤ n + 1
  writes : ∀ i ∈ r.writes, i ≤ n
  mem : ∀ a, a ∈ r.table.take r.count ↔ a = v ∨ a ∈ table.take n
  increasing : (table.take n).Pairwise (· < ·) → (r.table.take r.count).Pairwise (· < ·)

theorem insert_inserts (hn : n < table.length) (v : α) : Inserts table n v (insert table n v) := by
  have hsought : Sought table n v (seek table n v n 0) :=
    seek_sought (Nat.le_of_lt hn) (Nat.zero_le n) (by omega) (by simp)
  simp only [insert]
  generalize seek table n v n 0 = idx at hsought
  split
  · rename_i hend
    subst hend
    have htake := take_set_last hn v
    refine ⟨List.length_set .., Nat.le_refl _, by simp, fun a => ?_, fun hinc => ?_⟩
    · rw [htake, List.mem_append, List.mem_singleton, or_comm]
    · rw [htake, List.pairwise_append]
      refine ⟨hinc, List.pairwise_singleton .., fun a ha b hb => ?_⟩
      exact List.mem_singleton.mp hb ▸ hsought.below a ha
  · rename_i hin
    have hlt : idx < n := Nat.lt_of_le_of_ne hsought.le hin
    split
    · rename_i hdup
      have hmem : v ∈ table.take n :=
        List.mem_of_getElem? ((List.getElem?_take_of_lt hlt).trans hdup)
      refine ⟨rfl, Nat.le_succ n, by simp, fun a => ⟨.inr, ?_⟩, id⟩
      rintro (rfl | ha)
      · exact hmem
      · exact ha
    · rename_i hnew
      have hshift : Shifted n ⟨table, []⟩ idx v (shift n (n + 1 - idx) ⟨table, []⟩ idx v) :=
        shift_shifted hn hsought.le (by omega)
      refine ⟨hshift.length, Nat.le_refl _, fun i hi => ?_, fun a => ?_, fun hinc => ?_⟩
      · exact (hshift.writes i hi).resolve_left List.not_mem_nil
      · have hmem : a ∈ table.take n ↔ a ∈ table.take idx ∨ a ∈ (table.take n).drop idx := by
          rw [← List.mem_append, ← hsought.split]
        rw [hshift.table, hmem, List.mem_append, List.mem_cons, or_left_comm]
      · rw [hshift.table]
        rw [hsought.split, List.pairwise_append] at hinc
        obtain ⟨hlow, hhigh, hcross⟩ := hinc
        have habove := hsought.lt_rest hn hlt hnew hhigh
        rw [List.pairwise_append]
        refine ⟨hlow, List.pairwise_cons.mpr ⟨habove, hhigh⟩, fun a ha b hb => ?_⟩
        rcases List.mem_cons.mp hb with rfl | hb
        · exact hsought.below a ha
        · exact hcross a ha b hb

theorem insert_above (hn : n < table.length) (h : ∀ a ∈ table.take n, a < v) :
    (insert table n v).table.take (insert table n v).count = table.take n ++ [v] := by
  have hsought : Sought table n v (seek table n v n 0) :=
    seek_sought (Nat.le_of_lt hn) (Nat.zero_le n) (by omega) (by simp)
  have hend : seek table n v n 0 = n := by
    by_contra hne
    have hlt : seek table n v n 0 < n := Nat.lt_of_le_of_ne hsought.le hne
    have hget := List.getElem?_eq_getElem (Nat.lt_trans hlt hn)
    have hmem := List.mem_of_getElem? ((List.getElem?_take_of_lt hlt).trans hget)
    exact absurd (h _ hmem) (not_lt.mpr (hsought.above _ hlt hget))
  rw [insert, hend, if_pos rfl]
  exact take_set_last hn v

example : (insert [1, 2, 5, 7, 0, 0] 4 4).table = [1, 2, 4, 5, 7, 0] := by decide

end SortedTable
