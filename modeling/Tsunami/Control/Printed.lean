import Mathlib.Data.List.TakeWhile
import Tsunami.Control.Listing

/-!
# The names an `allhook` program prints

Which lists of names, printed one on a line, come through `fgets` with its 20
bytes and into the list of 32768: the server takes each piece of a longer line
for a name of its own.
-/

namespace Tsunami.Control

open Bytes

structure PrintedName where
  bytes : List UInt8
  nonempty : bytes ≠ []
  oneLine : (10 : UInt8) ∉ bytes

def printedText (names : List PrintedName) : List UInt8 := names.flatMap fun n => n.bytes ++ [10]

def PrintedName.IsPrintable (n : PrintedName) : Prop := ∀ b ∈ n.bytes, 32 ≤ b ∧ b < 128

/-- The names fit behind `used` bytes. Each leaves room for its newline and the
`'\0'` of `fgets`; behind the last there may be room for the `'\0'` only, if the
list is full with it. -/
structure HookFits (used : Nat) (names : List PrintedName) : Prop where
  printable : ∀ n ∈ names, n.IsPrintable
  room : used + listSize (names.map PrintedName.bytes) ≤ maxFileListLength
  short : ∀ n ∈ names.dropLast, n.bytes.length ≤ 18
  last : ∀ n ∈ names.getLast?, n.bytes.length ≤ 18 ∨
    n.bytes.length = 19 ∧ used + listSize (names.map PrintedName.bytes) = maxFileListLength

theorem hookFits_nil (h : used ≤ maxFileListLength) : HookFits used [] :=
  ⟨by simp, by simpa using h, by simp, by simp⟩

theorem listSize_names (used : Nat) (n : PrintedName) (names : List PrintedName) :
    used + listSize ((n :: names).map PrintedName.bytes) =
      used + (n.bytes.length + 1) + listSize (names.map PrintedName.bytes) := by
  rw [List.map_cons, listSize_cons]
  omega

theorem hookFits_short (n : PrintedName) (names : List PrintedName) (hn : n.bytes.length ≤ 18) :
    HookFits used (n :: names) ↔
      n.IsPrintable ∧ used + (n.bytes.length + 1) ≤ maxFileListLength ∧
        HookFits (used + (n.bytes.length + 1)) names := by
  have hsize := listSize_names used n names
  constructor
  · intro h
    have hroom := h.room
    rw [hsize] at hroom
    refine ⟨h.printable n (List.mem_cons_self ..), by omega,
      fun k hk => h.printable k (List.mem_cons_of_mem _ hk), hroom, fun k hk => ?_, fun k hk => ?_⟩
    · cases names with
      | nil => simp at hk
      | cons m names => exact h.short k (List.mem_cons_of_mem _ hk)
    · cases names with
      | nil => simp at hk
      | cons m names => exact hsize ▸ h.last k hk
  · rintro ⟨hp, hroom, h⟩
    refine ⟨List.forall_mem_cons.mpr ⟨hp, h.printable⟩, hsize ▸ h.room, fun k hk => ?_,
      fun k hk => ?_⟩
    · cases names with
      | nil => simp at hk
      | cons m names =>
        rcases List.mem_cons.mp hk with rfl | hk
        · exact hn
        · exact h.short k hk
    · cases names with
      | nil =>
        obtain rfl : n = k := by simpa using hk
        exact .inl hn
      | cons m names => exact hsize ▸ h.last k hk

theorem hookFits_long (n : PrintedName) (names : List PrintedName) (hn : 19 ≤ n.bytes.length) :
    HookFits used (n :: names) ↔
      n.IsPrintable ∧ n.bytes.length = 19 ∧ used + 20 = maxFileListLength ∧ names = [] := by
  have hsize := listSize_names used n names
  constructor
  · intro h
    cases names with
    | nil =>
      have hlast := h.last n rfl
      rw [hsize] at hlast
      simp only [List.map_nil, listSize_nil] at hlast
      exact ⟨h.printable n (List.mem_cons_self ..), by omega, by omega, rfl⟩
    | cons m names =>
      have := h.short n (List.mem_cons_self ..)
      omega
  · rintro ⟨hp, hlen, hroom, rfl⟩
    simp only [List.map_nil, listSize_nil] at hsize
    refine ⟨by simpa using hp, by omega, by simp, fun k hk => .inr ?_⟩
    obtain rfl : n = k := by simpa using hk
    exact ⟨hlen, by omega⟩

-- ---------------------------------------------------------------------------
-- `fgets`
-- ---------------------------------------------------------------------------

theorem fgets_append {name line : List UInt8} (h : (10 : UInt8) ∉ name)
    (hlen : line.length + name.length ≤ 18) (rest : List UInt8) :
    fgets (name ++ rest) line = fgets rest (line ++ name) := by
  induction name generalizing line with
  | nil => rw [List.nil_append, List.append_nil]
  | cons b name ih =>
    rw [List.length_cons] at hlen
    have hb : ¬(b = 10 ∨ line.length + 1 = 19) := by
      rintro (rfl | hfull)
      · exact h (List.mem_cons_self ..)
      · omega
    rw [List.cons_append, fgets, if_neg hb,
      ih (fun hm => h (List.mem_cons_of_mem _ hm)) (by simp; omega),
      List.append_assoc, List.singleton_append]

theorem fgets_line {name : List UInt8} (h : (10 : UInt8) ∉ name) (hlen : name.length ≤ 18)
    (rest : List UInt8) : fgets (name ++ 10 :: rest) [] = (name ++ [10]) :: fgets rest [] := by
  rw [fgets_append h (by simpa using hlen), fgets, if_pos (.inl rfl), List.nil_append]

theorem fgets_long {name : List UInt8} (h : (10 : UInt8) ∉ name) (hlen : 19 ≤ name.length)
    (rest : List UInt8) :
    fgets (name ++ rest) [] = name.take 19 :: fgets (name.drop 19 ++ rest) [] := by
  have hpre : (name.take 18).length = 18 := by
    rw [List.length_take]
    omega
  have hfirst : (10 : UInt8) ∉ name.take 18 := fun hm => h (List.mem_of_mem_take hm)
  have htake : name.take 19 = name.take 18 ++ [name[18]] := List.take_succ_eq_append_getElem _
  have hsplit : name ++ rest = name.take 18 ++ name[18] :: (name.drop 19 ++ rest) := by
    have hwhole : name ++ rest = name.take 19 ++ name.drop 19 ++ rest := by
      rw [List.take_append_drop]
    rw [hwhole, htake, List.append_assoc, List.append_assoc, List.singleton_append]
  rw [hsplit, fgets_append hfirst (by rw [hpre]; rfl), fgets, List.nil_append,
    if_pos (.inr (by rw [hpre])),
    htake]

theorem printable_eq_self (n : PrintedName) : printable n.bytes = n.bytes ↔ n.IsPrintable := by
  rw [printable, List.takeWhile_eq_self_iff]
  simp [PrintedName.IsPrintable]

theorem printable_line (name : List UInt8) : printable (name ++ [10]) = printable name := by
  have hstop : printable [10] = [] := rfl
  rw [printable, List.takeWhile_append]
  split
  · rename_i hall
    have hself : printable name = name := (List.takeWhile_prefix _).eq_of_length hall
    rw [hself]
    exact (congrArg (name ++ ·) hstop).trans (List.append_nil name)
  · rfl

-- ---------------------------------------------------------------------------
-- The list
-- ---------------------------------------------------------------------------

theorem printedText_cons (n : PrintedName) (names : List PrintedName) :
    printedText (n :: names) = n.bytes ++ 10 :: printedText names := by
  simp [printedText]

theorem fillList_short (n : PrintedName) (names : List PrintedName) (hn : n.bytes.length ≤ 18) :
    fillList (fgets (printedText (n :: names)) []) used =
      if (printable n.bytes).length + used ≥ maxFileListLength then []
      else printable n.bytes ::
        fillList (fgets (printedText names) []) (used + ((printable n.bytes).length + 1)) := by
  rw [printedText_cons, fgets_line n.oneLine hn, fillList, printable_line]

theorem fillList_long (n : PrintedName) (names : List PrintedName) (hn : 19 ≤ n.bytes.length)
    (h : fillList (fgets (printedText (n :: names)) []) used = (n :: names).map PrintedName.bytes) :
    n.IsPrintable ∧ n.bytes.length = 19 := by
  rw [printedText_cons, fgets_long n.oneLine hn, fillList] at h
  split at h
  · cases h
  · have hfirst : printable (n.bytes.take 19) = n.bytes := (List.cons.inj h).1
    have hle : (printable (n.bytes.take 19)).length ≤ (n.bytes.take 19).length :=
      (List.takeWhile_prefix _).length_le
    rw [hfirst, List.length_take] at hle
    have hlen : n.bytes.length = 19 := by omega
    rw [List.take_of_length_le (by omega)] at hfirst
    exact ⟨(printable_eq_self n).mp hfirst, hlen⟩

/-- With 19 bytes the newline makes an entry of its own, unless the list is
full. -/
theorem fillList_nineteen (n : PrintedName) (names : List PrintedName) (hp : n.IsPrintable)
    (hn : n.bytes.length = 19) :
    fillList (fgets (printedText (n :: names)) []) used =
      if 19 + used ≥ maxFileListLength then []
      else n.bytes :: if used + 20 ≥ maxFileListLength then []
        else [] :: fillList (fgets (printedText names) []) (used + 21) := by
  have hall : n.bytes.take 19 = n.bytes := List.take_of_length_le (by omega)
  have hnone : n.bytes.drop 19 = [] := List.drop_of_length_le (by omega)
  have hnewline : fgets (10 :: printedText names) [] = [10] :: fgets (printedText names) [] := rfl
  have hstop : printable [10] = [] := rfl
  rw [printedText_cons, fgets_long n.oneLine (by omega), hall, hnone, List.nil_append,
    hnewline, fillList, fillList, (printable_eq_self n).mpr hp, hstop, hn,
    List.length_nil, Nat.zero_add]

theorem fillList_printed_iff (names : List PrintedName) (h : used ≤ maxFileListLength) :
    fillList (fgets (printedText names) []) used = names.map PrintedName.bytes ↔
    HookFits used names := by
  induction names generalizing used with
  | nil => exact iff_of_true rfl (hookFits_nil h)
  | cons n names ih =>
    by_cases hn : n.bytes.length ≤ 18
    · rw [hookFits_short n names hn, fillList_short n names hn]
      by_cases hp : n.IsPrintable
      · rw [(printable_eq_self n).mpr hp]
        by_cases hroom : used + (n.bytes.length + 1) ≤ maxFileListLength
        · rw [if_neg (by omega), List.map_cons, List.cons.injEq, ih hroom]
          simp [hp, hroom]
        · rw [if_pos (by omega)]
          simp [hroom]
      · refine iff_of_false (fun heq => ?_) fun hfits => hp hfits.1
        split at heq
        · cases heq
        · exact hp ((printable_eq_self n).mp (List.cons.inj heq).1)
    · rw [hookFits_long n names (by omega)]
      constructor
      · intro heq
        obtain ⟨hp, hlen⟩ := fillList_long n names (by omega) heq
        rw [fillList_nineteen n names hp hlen] at heq
        split at heq
        · cases heq
        · have hrest := (List.cons.inj heq).2
          split at hrest
          · exact ⟨hp, hlen, by omega, List.map_eq_nil_iff.mp hrest.symm⟩
          · -- no name is empty
            cases names with
            | nil => cases hrest
            | cons m names => exact absurd (List.cons.inj hrest).1.symm m.nonempty
      · rintro ⟨hp, hlen, hroom, rfl⟩
        rw [fillList_nineteen n [] hp hlen, if_neg (by omega), if_pos (by omega)]
        rfl

theorem hookNames_printed_iff (names : List PrintedName) :
    hookNames (printedText names) = names.map PrintedName.bytes ↔ HookFits 0 names :=
  fillList_printed_iff names (Nat.zero_le _)

end Tsunami.Control
