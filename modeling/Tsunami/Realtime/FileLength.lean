import Tsunami.Control.FileLists
import Tsunami.Lib.Numerals
import Tsunami.Realtime.EvnFilename

/-!
# The length of a recording

`ttp_open_transfer` of the realtime server takes the length from the entries of
the name, in the notation with an equals sign or in the one without, and puts it
over the one of the transfer before.
-/

namespace Tsunami.Realtime

open Bytes
open Control (isSpace not_isSpace_digit digit_ne)

/-- `"flen"`, `"dl"` and `"sl"`. -/
def flen : List UInt8 := [102, 108, 101, 110]
def dl : List UInt8 := [100, 108]
def sl : List UInt8 := [115, 108]

/-- Four minutes at 512 Mbit/s. -/
def defaultFileSize : Nat := 60 * 512000000 * 4 / 8

def signOf (s : List UInt8) : Bool × List UInt8 :=
  match s with
  | 45 :: s => (true, s)
  | 43 :: s => (false, s)
  | s => (false, s)

/-- `sscanf` of one unsigned number of 64 bits, none if there is no conversion. -/
def sscanfU64 (s : List UInt8) : Option Nat :=
  let (negative, s) := signOf (s.dropWhile isSpace)
  let n := ofDecimal s
  if s.takeWhile isDigit = [] then none
  else if 2 ^ 64 ≤ n then some (2 ^ 64 - 1)
  else some (if negative then (2 ^ 64 - n) % 2 ^ 64 else n)

def scanAuxinfo (fileSize : Nat) : List (List UInt8) → Nat
  | [] => defaultFileSize
  | entry :: auxinfo =>
    if entry.take 2 = sl ∨ entry.take 2 = dl then (sscanfU64 (entry.drop 2)).getD fileSize
    else if entry.take 4 = flen then (sscanfU64 (entry.drop 4)).getD fileSize
    else scanAuxinfo fileSize auxinfo

/-- `file_size` after a transfer that left `fileSize`. -/
def recordingLength (fileSize : Nat) (auxinfo : List (List UInt8)) : Nat :=
  match getAuxEntry flen auxinfo with
  | some value => (sscanfU64 value).getD fileSize
  | none =>
    match getAuxEntry dl auxinfo with
    | some value => (sscanfU64 value).getD fileSize
    | none => scanAuxinfo fileSize auxinfo

-- ---------------------------------------------------------------------------
-- What the name gives
-- ---------------------------------------------------------------------------

/-- A length of `n` bytes, in one of the two notations. -/
def WellFormed (entry : List UInt8) (n : Nat) : Prop :=
  n < 2 ^ 64 ∧ ∃ key ∈ [flen, dl], ∃ digits, Numeral digits n ∧
    (entry = key ++ equalsSign :: digits ∨ entry = key ++ digits)

/-- The length that the name gives, or the one for want of it. -/
def Given (aux : List (List UInt8)) (n : Nat) : Prop :=
  (∃ entry ∈ aux, WellFormed entry n) ∨
    (∀ entry ∈ aux, ∀ m, ¬WellFormed entry m) ∧ n = defaultFileSize

def Settled (aux : List (List UInt8)) : Prop :=
  ∃ n, (∀ before, recordingLength before aux = n) ∧ Given aux n

def prefixed : List (List UInt8) → Option (List UInt8 × List UInt8)
  | [] => none
  | entry :: aux =>
    if entry.take 2 = sl ∨ entry.take 2 = dl then some (entry, entry.drop 2)
    else if entry.take 4 = flen then some (entry, entry.drop 4)
    else prefixed aux

/-- The entry that is taken for the length, and its text. -/
def taken (aux : List (List UInt8)) : Option (List UInt8 × List UInt8) :=
  match getAuxEntry flen aux with
  | some value => some (flen ++ equalsSign :: value, value)
  | none =>
    match getAuxEntry dl aux with
    | some value => some (dl ++ equalsSign :: value, value)
    | none => prefixed aux

-- ---------------------------------------------------------------------------
-- Lookups
-- ---------------------------------------------------------------------------

theorem scanAuxinfo_eq (before : Nat) (aux : List (List UInt8)) :
    scanAuxinfo before aux = match prefixed aux with
      | none => defaultFileSize
      | some (_, text) => (sscanfU64 text).getD before := by
  induction aux with
  | nil => rfl
  | cons entry aux ih =>
    rw [scanAuxinfo, prefixed]
    split
    · rfl
    · split
      · rfl
      · exact ih

theorem recordingLength_eq (before : Nat) (aux : List (List UInt8)) :
    recordingLength before aux = match taken aux with
      | none => defaultFileSize
      | some (_, text) => (sscanfU64 text).getD before := by
  rw [recordingLength, taken]
  split
  · rfl
  · split
    · rfl
    · exact scanAuxinfo_eq before aux

theorem signOf_digit (hd : isDigit d = true) (s : List UInt8) :
    signOf (d :: s) = (false, d :: s) := by
  unfold signOf
  split
  · rename_i h
    exact absurd (List.cons.inj h).1 (digit_ne hd rfl)
  · rename_i h
    exact absurd (List.cons.inj h).1 (digit_ne hd rfl)
  · rfl

theorem sscanfU64_numeral (h : Numeral digits n) (hlt : n < 2 ^ 64) :
    sscanfU64 digits = some n := by
  obtain ⟨d, ds, rfl, hd⟩ := h.cons
  have hskip : (d :: ds).dropWhile isSpace = d :: ds :=
    List.dropWhile_cons_of_neg (by rw [not_isSpace_digit hd]; decide)
  have htake := h.takeWhile [] (by simp)
  rw [List.append_nil] at htake
  rw [sscanfU64, hskip, signOf_digit hd]
  simp only [htake, h.value, if_neg h.ne_nil, if_neg (Nat.not_le.mpr hlt), Bool.false_eq_true,
    if_false]

theorem not_numeral_equalsSign (rest : List UInt8) (n : Nat) : ¬Numeral (equalsSign :: rest) n :=
  fun h => absurd (h.all equalsSign List.mem_cons_self) (by decide)

theorem entry_of_getAuxEntry (h : getAuxEntry key aux = some value) :
    key ++ equalsSign :: value ∈ aux := by
  obtain ⟨before, after, rfl, -⟩ := (getAuxEntry_eq_some_iff key aux value).mp h
  simp

theorem prefixed_eq_some (h : prefixed aux = some (entry, text)) :
    entry ∈ aux ∧ (entry = sl ++ text ∨ entry = dl ++ text ∨ entry = flen ++ text) := by
  induction aux with
  | nil => cases h
  | cons first aux ih =>
    rw [prefixed] at h
    split at h
    · rename_i htwo
      obtain ⟨rfl, rfl⟩ := Prod.mk.inj (Option.some.inj h)
      refine ⟨List.mem_cons_self, ?_⟩
      rcases htwo with hsl | hdl
      · exact .inl (hsl ▸ (List.take_append_drop 2 first).symm)
      · exact .inr (.inl (hdl ▸ (List.take_append_drop 2 first).symm))
    · split at h
      · rename_i hflen
        obtain ⟨rfl, rfl⟩ := Prod.mk.inj (Option.some.inj h)
        exact ⟨List.mem_cons_self, .inr (.inr (hflen ▸ (List.take_append_drop 4 first).symm))⟩
      · obtain ⟨hmem, hbegins⟩ := ih h
        exact ⟨List.mem_cons_of_mem _ hmem, hbegins⟩

theorem prefixed_eq_none (h : prefixed aux = none) :
    ∀ entry ∈ aux, entry.take 2 ≠ dl ∧ entry.take 4 ≠ flen := by
  induction aux with
  | nil => exact fun entry h => absurd h List.not_mem_nil
  | cons first aux ih =>
    rw [prefixed] at h
    split at h
    · cases h
    · rename_i htwo
      split at h
      · cases h
      · rename_i hflen
        exact List.forall_mem_cons.mpr ⟨⟨fun hdl => htwo (.inr hdl), hflen⟩, ih h⟩

theorem WellFormed.begins (h : WellFormed entry n) : entry.take 2 = dl ∨ entry.take 4 = flen := by
  obtain ⟨-, key, hkey, digits, -, hentry⟩ := h
  rcases List.mem_pair.mp hkey with rfl | rfl
  · exact .inr (hentry.elim (fun h => h ▸ rfl) fun h => h ▸ rfl)
  · exact .inl (hentry.elim (fun h => h ▸ rfl) fun h => h ▸ rfl)

theorem wellFormed_key (hkey : key ∈ [flen, dl]) (h : WellFormed (key ++ rest) n) :
    ∃ digits, Numeral digits n ∧ (rest = equalsSign :: digits ∨ rest = digits) := by
  obtain ⟨-, key', hkey', digits, hnumber, hentry⟩ := h
  have hsame : key' = key := by
    rcases List.mem_pair.mp hkey with rfl | rfl <;> rcases List.mem_pair.mp hkey' with rfl | rfl
    · rfl
    · simp [flen, dl] at hentry
    · simp [flen, dl] at hentry
    · rfl
  subst hsame
  exact ⟨digits, hnumber, hentry.imp List.append_cancel_left List.append_cancel_left⟩

theorem not_wellFormed_sl (rest : List UInt8) (n : Nat) : ¬WellFormed (sl ++ rest) n := by
  intro h
  rcases h.begins with htake | htake <;> simp [flen, dl, sl] at htake

/-- Some entry is taken where there is a well-formed one. -/
theorem not_wellFormed_of_taken (h : taken aux = none) :
    ∀ entry ∈ aux, ∀ n, ¬WellFormed entry n := by
  intro entry hentry n hwell
  rw [taken] at h
  split at h
  · cases h
  · split at h
    · cases h
    · obtain ⟨hdl, hflen⟩ := prefixed_eq_none h entry hentry
      exact hwell.begins.elim hdl hflen

theorem taken_mem (h : taken aux = some (entry, text)) : entry ∈ aux := by
  rw [taken] at h
  split at h
  · obtain ⟨rfl, -⟩ := Prod.mk.inj (Option.some.inj h)
    exact entry_of_getAuxEntry ‹_›
  · split at h
    · obtain ⟨rfl, -⟩ := Prod.mk.inj (Option.some.inj h)
      exact entry_of_getAuxEntry ‹_›
    · exact (prefixed_eq_some h).1

theorem sscanf_of_taken (htaken : taken aux = some (entry, text)) (h : WellFormed entry n) :
    sscanfU64 text = some n := by
  have hkeyed : ∀ key ∈ [flen, dl], entry = key ++ equalsSign :: text →
      sscanfU64 text = some n := by
    rintro key hkey rfl
    obtain ⟨digits, hnumber, hrest | rfl⟩ := wellFormed_key hkey h
    · exact (List.cons.inj hrest).2 ▸ sscanfU64_numeral hnumber h.1
    · exact absurd hnumber (not_numeral_equalsSign text n)
  have hplain : ∀ key ∈ [flen, dl], getAuxEntry key aux = none → entry = key ++ text →
      entry ∈ aux → sscanfU64 text = some n := by
    rintro key hkey hnone rfl hmem
    obtain ⟨digits, hnumber, rfl | rfl⟩ := wellFormed_key hkey h
    · exact absurd rfl ((getAuxEntry_eq_none_iff key aux).mp hnone _ hmem digits)
    · exact sscanfU64_numeral hnumber h.1
  rw [taken] at htaken
  split at htaken
  · obtain ⟨hentry, rfl⟩ := Prod.mk.inj (Option.some.inj htaken)
    exact hkeyed flen (by decide) hentry.symm
  · rename_i hflen
    split at htaken
    · obtain ⟨hentry, rfl⟩ := Prod.mk.inj (Option.some.inj htaken)
      exact hkeyed dl (by decide) hentry.symm
    · rename_i hdl
      obtain ⟨hmem, hentry | hentry | hentry⟩ := prefixed_eq_some htaken
      · exact absurd (hentry ▸ h) (not_wellFormed_sl text n)
      · exact hplain dl (by decide) hdl hentry hmem
      · exact hplain flen (by decide) hflen hentry hmem

-- ---------------------------------------------------------------------------
-- Every list
-- ---------------------------------------------------------------------------

/-- The entry is not well formed, but the number at the front of its text is by
chance that of another one which is, or the default where there is none. -/
structure ByChance (aux : List (List UInt8)) (entry text : List UInt8) : Prop where
  malformed : ∀ n, ¬WellFormed entry n
  agrees : ∃ n, sscanfU64 text = some n ∧ Given aux n

/-- The length depends on the name alone, and is the one that it gives, exactly
if no entry is taken for it, or a well-formed one, or the number agrees by
chance. -/
theorem recording_length_settled_iff (aux : List (List UInt8)) :
    Settled aux ↔ ∀ entry text, taken aux = some (entry, text) →
      (∃ n, WellFormed entry n) ∨ ByChance aux entry text := by
  cases htaken : taken aux with
  | none =>
    refine iff_of_true ⟨defaultFileSize, fun before => ?_, .inr
      ⟨not_wellFormed_of_taken htaken, rfl⟩⟩ fun entry text h => nomatch h
    rw [recordingLength_eq, htaken]
  | some pair =>
    obtain ⟨entry, text⟩ := pair
    have hlength : ∀ before, recordingLength before aux = (sscanfU64 text).getD before := by
      intro before
      rw [recordingLength_eq, htaken]
    constructor
    · rintro ⟨n, hsame, hgiven⟩ _ _ heq
      obtain ⟨rfl, rfl⟩ := Prod.mk.inj (Option.some.inj heq)
      refine or_iff_not_imp_left.mpr fun hmal => ⟨not_exists.mp hmal, n, ?_, hgiven⟩
      -- a conversion that fails would leave both of two lengths
      cases hread : sscanfU64 text with
      | some m => rw [← hsame 0, hlength, hread, Option.getD_some]
      | none =>
        have hboth : (0 : Nat) = 1 := by
          have h₀ := hsame 0
          have h₁ := hsame 1
          rw [hlength, hread, Option.getD_none] at h₀ h₁
          exact h₀.trans h₁.symm
        cases hboth
    · intro h
      have hread : ∀ n, sscanfU64 text = some n → ∀ before, recordingLength before aux = n := by
        intro n hn before
        rw [hlength, hn, Option.getD_some]
      rcases h entry text rfl with ⟨n, hwell⟩ | ⟨-, n, hn, hgiven⟩
      · exact ⟨n, hread n (sscanf_of_taken htaken hwell), .inl ⟨entry, taken_mem htaken, hwell⟩⟩
      · exact ⟨n, hread n hn, hgiven⟩

/-- The number of slots in `"sl4"` is taken for the length, and where `"flen="`
has no number the length of the transfer before stays. -/
theorem recording_length_unsettled :
    ¬Settled [[115, 108, 52]] ∧ recordingLength 0 [[115, 108, 52]] = 4 ∧
      ¬Settled [[102, 108, 101, 110, 61]] ∧ recordingLength 7 [[102, 108, 101, 110, 61]] = 7 := by
  refine ⟨?_, by decide +kernel, ?_, by decide +kernel⟩
  · rintro ⟨n, hsame, hgiven⟩
    have hfour : n = 4 := (hsame 0).symm.trans (by decide +kernel)
    rcases hgiven with ⟨entry, hmem, hwell⟩ | ⟨-, hdefault⟩
    · obtain rfl := List.mem_singleton.mp hmem
      exact not_wellFormed_sl [52] n hwell
    · exact absurd (hfour.symm.trans hdefault) (by decide)
  · rintro ⟨n, hsame, -⟩
    have hboth : recordingLength 0 [[102, 108, 101, 110, 61]] =
        recordingLength 7 [[102, 108, 101, 110, 61]] := (hsame 0).trans (hsame 7).symm
    exact absurd hboth (by decide +kernel)

end Tsunami.Realtime
