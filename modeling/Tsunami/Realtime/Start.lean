import Mathlib.Data.Rat.Floor
import Mathlib.Tactic.Linarith
import Tsunami.Realtime.StartTime

/-!
# When a recording begins

The part of the realtime server's `ttp_open_transfer` that takes a path for the
name of a recording, and waits for the time in it.
-/

namespace Tsunami.Realtime

open Bytes Calendar Scanf Tokens

def slash : UInt8 := 47

/-- `fileout`, and what `parse_evn_filename` is called with. -/
def evnPart (filename : List UInt8) : Bool × List UInt8 :=
  match cutLast slash filename with
  | none => (false, filename)
  | some (_, back) => (true, back)

structure Timeval where
  tvSec : Nat
  tvUsec : Nat

/-- A `double` as an unsigned number of 64 bits, none where it has no value. -/
def toUnsigned (q : ℚ) : Option Nat :=
  if -1 < q ∧ q < 2 ^ 64 then some q.floor.toNat else none

def startDelay (ef : EvnFilename ℚ) (d : Timeval) : Option Nat :=
  if ef.dataStartTimeAscii = none ∨ ef.dataStartTime ≤ 1 then some 0
  else
    let starttime := ef.dataStartTime - 1 / 2
    (toUnsigned ((starttime - d.tvSec) * 1000000)).bind fun delta =>
      toUnsigned ((delta : ℚ) - d.tvUsec)

def Timeval.usec (d : Timeval) : ℚ := d.tvSec * 1000000 + d.tvUsec

-- ---------------------------------------------------------------------------
-- Names with a time in them
-- ---------------------------------------------------------------------------

/-- The parts of a name. Without a time the first entry stands in its place. -/
structure RecordingName where
  expName : List UInt8
  stationCode : List UInt8
  scanName : List UInt8
  start : Option Stamp
  aux : List (List UInt8)
  fileType : List UInt8
  length_expName : 1 ≤ expName.length ∧ expName.length ≤ 6
  length_stationCode : 2 ≤ stationCode.length
  length_scanName : 1 ≤ scanName.length ∧ scanName.length ≤ 16
  length_fileType : 2 ≤ fileType.length
  fits : ∀ s ∈ start, s.Fits
  aux_ne_nil : ∀ entry ∈ aux, entry ≠ []
  head_aux : start = none → ∀ entry ∈ aux.head?, 2 ≤ entry.length ∧ NotATime entry
  no_separator : ∀ part ∈ fileType :: expName :: stationCode :: scanName :: aux,
    underscore ∉ part ∧ slash ∉ part
  no_dot : dot ∉ fileType

theorem Stamp.mem_text {s : Stamp} (hb : b ∈ s.text) :
    isDigit b ∨ b ∈ [45, 46, 58, 84, 100, 104, 109, 115, 121] := by
  have hrow : ∀ r : Row, b ∈ r.digits → isDigit b := fun r hr => r.all b hr
  cases s with
  | iso yyyy mm dd hh min sec decimals =>
    cases decimals with
    | none | some d => simp only [text, List.mem_append, List.mem_cons] at hb ⊢; grind
  | _ => simp only [text, List.mem_append, List.mem_cons] at hb ⊢; grind

theorem Stamp.not_mem_text {s : Stamp} (hdigit : isDigit b = false)
    (hb : b ∉ [45, 46, 58, 84, 100, 104, 109, 115, 121]) : b ∉ s.text := by
  intro hmem
  rcases mem_text hmem with h | h
  · rw [hdigit] at h
    cases h
  · exact hb h

theorem Stamp.length_text (s : Stamp) : 2 ≤ s.text.length := by
  have hrow : ∀ r : Row, 1 ≤ r.digits.length := fun r => List.length_pos_iff.mpr r.ne_nil
  cases s <;> simp only [text, List.length_append, List.length_cons] <;> grind

def startTime (c : Clock) (s : Stamp) : ℚ := if c.past (s.instant c) then 0 else s.instant c

theorem parseTime_text (c : Clock) {s : Stamp} (hs : s.Fits) :
    parseTime c s.text = some (startTime c s) := by
  rw [parseTime, s.detected hs]
  rfl

namespace RecordingName

def toEvnName (n : RecordingName) (c : Clock) : EvnName (parseTime c) where
  expName := n.expName
  stationCode := n.stationCode
  scanName := n.scanName
  startTime := n.start.map (·.text)
  aux := n.aux
  fileType := n.fileType
  length_expName := n.length_expName
  length_stationCode := n.length_stationCode
  length_scanName := n.length_scanName
  length_fileType := n.length_fileType
  time token htoken := by
    obtain ⟨s, hs, rfl⟩ := Option.map_eq_some_iff.mp htoken
    rw [parseTime_text c (n.fits s hs)]
    exact ⟨s.length_text, rfl⟩
  noTime hnone entry hentry := by
    obtain ⟨hlen, hentry⟩ := n.head_aux (Option.map_eq_none_iff.mp hnone) entry hentry
    exact ⟨hlen, parseTime_notATime c hentry⟩
  aux_ne_nil := n.aux_ne_nil
  no_underscore part hpart := by
    have hsep := n.no_separator
    simp only [List.mem_cons, List.mem_append, Option.mem_toList,
      Option.map_eq_some_iff] at hpart
    rcases hpart with rfl | rfl | rfl | ⟨s, -, rfl⟩ | haux
    · exact (hsep _ (by simp)).1
    · exact (hsep _ (by simp)).1
    · exact (hsep _ (by simp)).1
    · exact Stamp.not_mem_text rfl (by decide)
    · exact (hsep part (by simp [haux])).1
  no_underscore_fileType := (n.no_separator _ (by simp)).1
  no_dot := n.no_dot

def filename (n : RecordingName) : List UInt8 :=
  joined underscore
    (n.expName :: n.stationCode :: n.scanName :: ((n.start.map (·.text)).toList ++ n.aux)) ++
      dot :: n.fileType

def path (n : RecordingName) : Option (List UInt8) → List UInt8
  | none => n.filename
  | some directory => directory ++ slash :: n.filename

def parsed (n : RecordingName) (c : Clock) : EvnFilename ℚ where
  expName := some n.expName
  stationCode := some n.stationCode
  scanName := some n.scanName
  dataStartTimeAscii := n.start.map (·.text)
  dataStartTime := (n.start.map (startTime c)).getD 0
  auxinfo := n.aux
  fileType := some n.fileType
  valid := true

theorem slash_not_mem_filename (n : RecordingName) : slash ∉ n.filename := by
  have hsep := n.no_separator
  have hparts : ∀ part ∈ n.expName :: n.stationCode :: n.scanName ::
      ((n.start.map (·.text)).toList ++ n.aux), slash ∉ part := by
    intro part hpart
    simp only [List.mem_cons, List.mem_append, Option.mem_toList,
      Option.map_eq_some_iff] at hpart
    rcases hpart with rfl | rfl | rfl | ⟨s, -, rfl⟩ | haux
    · exact (hsep _ (by simp)).2
    · exact (hsep _ (by simp)).2
    · exact (hsep _ (by simp)).2
    · exact Stamp.not_mem_text rfl (by decide)
    · exact (hsep part (by simp [haux])).2
  rw [filename, List.mem_append, List.mem_cons]
  rintro (h | h | h)
  · exact not_mem_joined (by decide) hparts h
  · exact absurd h (by decide)
  · exact (hsep _ (by simp)).2 h

theorem evnPart_path (n : RecordingName) (directory : Option (List UInt8)) :
    evnPart (n.path directory) = (directory.isSome, n.filename) := by
  cases directory with
  | none => rw [evnPart, path, cutLast_of_not_mem n.slash_not_mem_filename]; rfl
  | some directory => rw [evnPart, path, cutLast_append n.slash_not_mem_filename]; rfl

theorem parsed_eq (n : RecordingName) (c : Clock) : (n.toEvnName c).parsed = n.parsed c := by
  have htime : ((n.start.map (·.text)).bind (parseTime c)) = n.start.map (startTime c) := by
    cases hstart : n.start with
    | none => rfl
    | some s => exact parseTime_text c (n.fits s hstart)
  rw [EvnName.parsed, toEvnName, htime]
  rfl

end RecordingName

/-- A name is taken apart into what it was made of, whatever the zone the machine
is in; its time, in any of the formats, is the one that is meant, unless it is
past. -/
theorem recording_name_read (n : RecordingName) (directory : Option (List UInt8)) (c : Clock) :
    (evnPart (n.path directory)).1 = directory.isSome ∧
      parseEvnFilename (parseTime c) (evnPart (n.path directory)).2 = n.parsed c := by
  rw [n.evnPart_path]
  exact ⟨rfl, ((n.toEvnName c).parseEvnFilename).trans (n.parsed_eq c)⟩

-- ---------------------------------------------------------------------------
-- Waiting for the time
-- ---------------------------------------------------------------------------

def beforehand (t : ℚ) : ℚ := (t - 1 / 2) * 1000000

theorem Clock.one_lt_of_not_past {c : Clock} (h : c.past t = false) : 1 < t := by
  have hlt := of_decide_eq_false h
  have hpos := c.tvSec_pos
  by_contra hle
  have hnum := Rat.num_le_denom_iff.mpr (not_lt.mp hle)
  have hden : (0 : Int) < t.den := Int.natCast_pos.mpr t.pos
  have htrunc := Int.tdiv_le_tdiv hden hnum
  rw [Int.tdiv_self (Int.ne_of_gt hden)] at htrunc
  omega

theorem toUnsigned_nonneg {q : ℚ} (h₀ : 0 ≤ q) (h : q < 2 ^ 64) :
    toUnsigned q = some q.floor.toNat :=
  if_pos ⟨by linarith, h⟩

theorem toUnsigned_natCast {n : Nat} (h : (n : ℚ) < 2 ^ 64) : toUnsigned n = some n := by
  have hfloor : (n : ℚ).floor = n := Int.floor_natCast (R := ℚ) n
  rw [toUnsigned_nonneg (Nat.cast_nonneg n) h, hfloor, Int.toNat_natCast]

theorem toUnsigned_negative {q : ℚ} (h : q ≤ -1) : toUnsigned q = none :=
  if_neg fun hq => absurd hq.1 (not_lt.mpr h)

theorem floor_toNat {q : ℚ} (h : 0 ≤ q) :
    ((q.floor.toNat : Nat) : ℚ) ≤ q ∧ q < q.floor.toNat + 1 := by
  have hfloor : 0 ≤ ⌊q⌋ := Int.floor_nonneg.mpr h
  have hcast : ((q.floor.toNat : Nat) : ℚ) = (⌊q⌋ : ℚ) := by
    exact_mod_cast congrArg (Int.cast : Int → ℚ) (Int.toNat_of_nonneg hfloor)
  rw [hcast]
  exact ⟨Int.floor_le q, Int.lt_floor_add_one q⟩

theorem startDelay_ahead {ef : EvnFilename ℚ} {d : Timeval} (hascii : ef.dataStartTimeAscii ≠ none)
    (hone : 1 < ef.dataStartTime) (hfar : ef.dataStartTime < 2 ^ 44)
    (hd : d.usec ≤ beforehand ef.dataStartTime) :
    ∃ k : Nat, startDelay ef d = some k ∧ d.usec + k ≤ beforehand ef.dataStartTime ∧
      beforehand ef.dataStartTime < d.usec + k + 1 := by
  rw [Timeval.usec, beforehand] at hd
  have hsec : (0 : ℚ) ≤ d.tvSec := Nat.cast_nonneg _
  have husec : (0 : ℚ) ≤ d.tvUsec := Nat.cast_nonneg _
  have hlarge : (2 : ℚ) ^ 44 * 1000000 < 2 ^ 64 := by norm_num
  let q : ℚ := (ef.dataStartTime - 1 / 2 - d.tvSec) * 1000000
  have hq₀ : 0 ≤ q := by
    simp only [q]
    linarith
  have hq : q < 2 ^ 64 := by
    simp only [q]
    linarith
  obtain ⟨hle, hlt⟩ := floor_toNat hq₀
  have hunsigned := toUnsigned_nonneg hq₀ hq
  have hle' : d.tvUsec ≤ q.floor.toNat := by
    have hreal : (d.tvUsec : ℚ) < q.floor.toNat + 1 := by
      simp only [q] at hlt ⊢
      linarith
    exact Nat.lt_succ_iff.mp (by exact_mod_cast hreal)
  have hsub : ((q.floor.toNat : Nat) : ℚ) - d.tvUsec = ((q.floor.toNat - d.tvUsec : Nat) : ℚ) :=
    (Nat.cast_sub hle').symm
  have hsecond : toUnsigned (((q.floor.toNat : Nat) : ℚ) - d.tvUsec) =
      some (q.floor.toNat - d.tvUsec) := by
    have hlt' : ((q.floor.toNat - d.tvUsec : Nat) : ℚ) < 2 ^ 64 := by
      rw [← hsub]
      linarith
    rw [hsub, toUnsigned_natCast hlt']
  refine ⟨q.floor.toNat - d.tvUsec, ?_, ?_, ?_⟩
  · rw [startDelay, if_neg (by simp [hascii, hone])]
    simp only [q] at hunsigned hsecond ⊢
    rw [hunsigned, Option.bind_some, hsecond]
  · rw [← hsub, Timeval.usec, beforehand]
    simp only [q] at hle ⊢
    linarith
  · rw [← hsub, Timeval.usec, beforehand]
    simp only [q] at hlt ⊢
    linarith

theorem startDelay_late {ef : EvnFilename ℚ} {d : Timeval} (hascii : ef.dataStartTimeAscii ≠ none)
    (hone : 1 < ef.dataStartTime) (hd : beforehand ef.dataStartTime + 1 ≤ d.usec) :
    startDelay ef d = none := by
  rw [Timeval.usec, beforehand] at hd
  let q : ℚ := (ef.dataStartTime - 1 / 2 - d.tvSec) * 1000000
  have hdelay : startDelay ef d =
      (toUnsigned q).bind fun delta => toUnsigned ((delta : ℚ) - d.tvUsec) :=
    if_neg (by simp [hascii, hone])
  rw [hdelay]
  cases hunsigned : toUnsigned q with
  | none => rfl
  | some delta =>
    rw [toUnsigned, Option.ite_none_right_eq_some, Option.some.injEq] at hunsigned
    obtain ⟨⟨hq, -⟩, rfl⟩ := hunsigned
    rw [Option.bind_some]
    refine toUnsigned_negative ?_
    have hlt : ((q.floor.toNat : Nat) : ℚ) < d.tvUsec := by
      rcases le_or_gt 0 q with hpos | hneg
      · have hle := (floor_toNat hpos).1
        simp only [q] at hle ⊢
        linarith
      · have hfloor : ⌊q⌋ < 0 := Int.floor_lt.mpr (by exact_mod_cast hneg)
        have hzero : q.floor.toNat = 0 := Int.toNat_of_nonpos (Int.le_of_lt hfloor)
        rw [hzero, Nat.cast_zero]
        simp only [q] at hq
        linarith
    have hsucc : q.floor.toNat + 1 ≤ d.tvUsec := by exact_mod_cast hlt
    have hcast : ((q.floor.toNat : Nat) : ℚ) + 1 ≤ d.tvUsec := by exact_mod_cast hsucc
    linarith

/-- A recording with a time in its name is begun half a second before that time,
whenever the client asks for it, or at once if the second that it is in has begun. For
a client that asks within the last half second the length of the sleep is not a
number. -/
theorem recording_begins_on_time (n : RecordingName) (directory : Option (List UInt8)) (c : Clock)
    (d : Timeval) (hs : n.start = some s) (hfar : s.instant c < 2 ^ 44) :
    (c.past (s.instant c) = true →
      startDelay (parseEvnFilename (parseTime c) (evnPart (n.path directory)).2) d = some 0) ∧
    (c.past (s.instant c) = false →
      (d.usec ≤ beforehand (s.instant c) → ∃ k : Nat,
        startDelay (parseEvnFilename (parseTime c) (evnPart (n.path directory)).2) d = some k ∧
          d.usec + k ≤ beforehand (s.instant c) ∧ beforehand (s.instant c) < d.usec + k + 1) ∧
      (beforehand (s.instant c) + 1 ≤ d.usec →
        startDelay (parseEvnFilename (parseTime c) (evnPart (n.path directory)).2) d = none)) := by
  have hparsed : parseEvnFilename (parseTime c) (evnPart (n.path directory)).2 = n.parsed c := by
    rw [n.evnPart_path]
    exact ((n.toEvnName c).parseEvnFilename).trans (n.parsed_eq c)
  have hascii : (n.parsed c).dataStartTimeAscii ≠ none := by simp [RecordingName.parsed, hs]
  have htime : (n.parsed c).dataStartTime = startTime c s := by simp [RecordingName.parsed, hs]
  rw [hparsed]
  constructor
  · intro hpast
    rw [startTime, if_pos hpast] at htime
    exact if_pos (.inr (htime.trans_le zero_le_one))
  · intro hpast
    rw [startTime, hpast, if_neg Bool.false_ne_true] at htime
    have hone := Clock.one_lt_of_not_past hpast
    rw [← htime] at hone hfar ⊢
    exact ⟨startDelay_ahead hascii hone hfar, startDelay_late hascii hone⟩

def rowOf (digits : List UInt8) (h : digits ≠ [] ∧ digits.all isDigit) : Row :=
  ⟨digits, h.1, List.all_eq_true.mp h.2⟩

def startsInFebruary : Stamp :=
  .yyyydddhhmmss (rowOf [50, 48, 48, 55] (by decide)) (rowOf [48, 51, 55] (by decide))
    (rowOf [49, 50] (by decide)) (rowOf [52, 48] (by decide)) (rowOf [53, 48] (by decide))

/-- `R1262_On_037-1240b_2007037124050_dl=15.evn` -/
def februaryRecording : RecordingName where
  expName := [82, 49, 50, 54, 50]
  stationCode := [79, 110]
  scanName := [48, 51, 55, 45, 49, 50, 52, 48, 98]
  start := some startsInFebruary
  aux := [[100, 108, 61, 49, 53]]
  fileType := [101, 118, 110]
  length_expName := by decide
  length_stationCode := by decide
  length_scanName := by decide
  length_fileType := by decide
  fits := by
    rintro s ⟨⟩
    exact ⟨by decide, by decide, by decide⟩
  aux_ne_nil := by decide
  head_aux := by
    rintro ⟨⟩
  no_separator := by decide
  no_dot := by decide

def februaryClock : Clock := ⟨-3600, 2007, 1, 6, 1170765649, by decide, by decide, by decide⟩

theorem instant_startsInFebruary : startsInFebruary.instant februaryClock = 1170765650 := by
  decide +kernel

theorem recording_begins_on_time_february :
    startDelay (parseEvnFilename (parseTime februaryClock)
      (evnPart (februaryRecording.path none)).2) ⟨1170765649, 250000⟩ = some 250000 := by
  have hahead : februaryClock.past (startsInFebruary.instant februaryClock) = false := by
    decide +kernel
  have hbegins := recording_begins_on_time februaryRecording none februaryClock
    ⟨1170765649, 250000⟩ rfl (by rw [instant_startsInFebruary]; norm_num)
  obtain ⟨k, hk, hle, hlt⟩ := (hbegins.2 hahead).1 (by
    rw [instant_startsInFebruary, Timeval.usec, beforehand]
    norm_num)
  rw [instant_startsInFebruary, Timeval.usec, beforehand] at hle hlt
  have hle' : (k : ℚ) ≤ 250000 := by
    norm_num at hle
    linarith
  have hlt' : (249999 : ℚ) < k := by
    norm_num at hlt
    linarith
  have hfirst : k ≤ 250000 := by exact_mod_cast hle'
  have hsecond : 249999 < k := by exact_mod_cast hlt'
  rw [hk, show k = 250000 by omega]

end Tsunami.Realtime
