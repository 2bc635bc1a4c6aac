import Mathlib.Data.Rat.Floor
import Mathlib.Tactic.Positivity
import Mathlib.Tactic.Ring
import Tsunami.Lib.Calendar
import Tsunami.Lib.Scanf
import Tsunami.Realtime.EvnFilename

/-!
# Start times

`parse_time` and `interpret_as_utc` of `parse_evn_filename.c`. A token is held
against one format after the other, and only a match of all of it counts. Times
are kept as fractions; what a `double` cannot hold of them is not modelled.
-/

namespace Tsunami.Realtime

open Bytes Calendar Scanf

/-- What the calls to the clock give, all at the same time, and the zone that the
machine is in, in seconds west of UTC. -/
structure Clock where
  timezone : Int
  year : Nat
  month : Nat
  mday : Nat
  tvSec : Int
  since_epoch : 1970 ≤ year
  month_lt : month < 12
  tvSec_pos : 0 < tvSec

/-- `mktime` of a time in local time, without daylight saving. -/
def mktime (c : Clock) (tm : Tm) : Int := timegm tm + c.timezone

def interpretAsUtc (c : Clock) (year daycount month day hour min sec : Int) : Int :=
  let (mon, mday, year) :=
    if daycount = 0 ∧ (day ≠ 0 ∧ month ≠ 0) then (month - 1, day, year)
    else if daycount ≠ 0 ∧ (day = 0 ∧ month = 0) then (0, 1, year)
    else if daycount = 0 ∧ day = 0 ∧ month = 0 then ((c.month : Int), (c.mday : Int), 0)
    else (0, 0, year)
  let year := if year = 0 then (c.year : Int) else year
  let ret := mktime c ⟨sec, min, hour, mday, mon, year - 1900⟩
  let ret := if daycount ≠ 0 then ret + (daycount - 1) * 86400 else ret
  ret - c.timezone

-- ---------------------------------------------------------------------------
-- Formats
-- ---------------------------------------------------------------------------

/-- One of the tests: the one on the length of the string, the format, and the
time that its values are. -/
structure Format where
  strlen : Nat → Bool
  directives : List Directive
  time : Clock → List Value → Option ℚ

def Format.read (f : Format) (c : Clock) (str : List UInt8) : Option ℚ :=
  if f.strlen str.length then (sscanf f.directives str).bind (f.time c) else none

/-- `floor` of a `double`, as an `int`. C gives no value to one that does not fit;
the processor makes the smallest `int` of it. -/
def floorInt (q : ℚ) : Int := if -2 ^ 31 ≤ q.floor ∧ q.floor < 2 ^ 31 then q.floor else -2 ^ 31

def isoBasicExtended : Format where
  strlen _ := true
  directives := [.int (some 4), .char 45, .int (some 2), .char 45, .int (some 2), .char 84,
    .int (some 2), .char 58, .int (some 2), .char 58, .float none]
  time c
    | [.int yyyy, .int mm, .int dd, .int hh, .int min, .float dsec] =>
      some (interpretAsUtc c yyyy 0 mm dd hh min (floorInt dsec) + (dsec - dsec.floor))
    | _ => none

def yyyydddhhmmss : Format where
  strlen n := n = 13
  directives := [.int (some 4), .int (some 3), .int (some 2), .int (some 2), .int (some 2)]
  time c
    | [.int yyyy, .int yday, .int hh, .int mm, .int sec] =>
      some (interpretAsUtc c yyyy yday 0 0 hh mm sec)
    | _ => none

def dddhhmmss : Format where
  strlen n := n = 9
  directives := [.int (some 3), .int (some 2), .int (some 2), .int (some 2)]
  time c
    | [.int yday, .int hh, .int mm, .int sec] => some (interpretAsUtc c 0 yday 0 0 hh mm sec)
    | _ => none

def yyyyYddD : Format where
  strlen _ := true
  directives := [.int (some 4), .char 121, .int none, .char 100]
  time c
    | [.int yyyy, .int yday] => some (interpretAsUtc c yyyy yday 0 0 0 0 0)
    | _ => none

def yyyyYddDhhHmmMssS : Format where
  strlen _ := true
  directives := [.int none, .char 121, .int none, .char 100, .int none, .char 104, .int none,
    .char 109, .int none, .char 115]
  time c
    | [.int yyyy, .int yday, .int hh, .int mm, .int sec] =>
      some (interpretAsUtc c yyyy yday 0 0 hh mm sec)
    | _ => none

def yyyyddd : Format where
  strlen n := n = 7
  directives := [.int (some 4), .int (some 3)]
  time c
    | [.int yyyy, .int yday] => some (interpretAsUtc c yyyy yday 0 0 0 0 0)
    | _ => none

def dDhHmMsS : Format where
  strlen _ := true
  directives := [.int none, .char 100, .int none, .char 104, .int none, .char 109, .int none,
    .char 115]
  time c
    | [.int yday, .int hh, .int mm, .int sec] => some (interpretAsUtc c 0 yday 0 0 hh mm sec)
    | _ => none

def hhmmss : Format where
  strlen n := 6 ≤ n
  directives := [.int (some 2), .int (some 2), .float (some 2)]
  time c
    | [.int hh, .int mm, .float fsec] =>
      some (interpretAsUtc c 0 0 0 0 hh mm (floorInt fsec) + (fsec - fsec.floor))
    | _ => none

/-- In the order of the tests. -/
def formats : List Format :=
  [isoBasicExtended, yyyydddhhmmss, dddhhmmss, yyyyYddD, yyyyYddDhhHmmMssS, yyyyddd, dDhHmMsS,
    hhmmss]

/-- `difftime` compares whole seconds. -/
def Clock.past (c : Clock) (t : ℚ) : Bool := t.num.tdiv t.den ≤ c.tvSec

/-- `parse_time`: a time in the past is 0, and none is returned for a string that
no format matches. -/
def parseTime (c : Clock) (str : List UInt8) : Option ℚ :=
  (formats.findSome? (·.read c str)).map fun retval => if c.past retval then 0 else retval

-- ---------------------------------------------------------------------------
-- Times as they are written
-- ---------------------------------------------------------------------------

inductive Stamp
  | iso (yyyy mm dd hh min sec : Row) (decimals : Option Row)
  | yyyydddhhmmss (yyyy ddd hh mm ss : Row)
  | dddhhmmss (ddd hh mm ss : Row)
  | yyyyYddD (yyyy dd : Row)
  | yyyyYddDhhHmmMssS (yyyy dd hh mm ss : Row)
  | yyyyddd (yyyy ddd : Row)
  | dDhHmMsS (d h m s : Row)
  | hhmmss (hh mm ss : Row)

namespace Stamp

def text : Stamp → List UInt8
  | iso yyyy mm dd hh min sec decimals =>
    yyyy.digits ++ 45 :: (mm.digits ++ 45 :: (dd.digits ++ 84 :: (hh.digits ++ 58 ::
      (min.digits ++ 58 :: (sec.digits ++ (decimals.map (46 :: ·.digits)).getD [])))))
  | yyyydddhhmmss yyyy ddd hh mm ss =>
    yyyy.digits ++ (ddd.digits ++ (hh.digits ++ (mm.digits ++ ss.digits)))
  | dddhhmmss ddd hh mm ss => ddd.digits ++ (hh.digits ++ (mm.digits ++ ss.digits))
  | yyyyYddD yyyy dd => yyyy.digits ++ 121 :: (dd.digits ++ [100])
  | yyyyYddDhhHmmMssS yyyy dd hh mm ss =>
    yyyy.digits ++ 121 :: (dd.digits ++ 100 :: (hh.digits ++ 104 :: (mm.digits ++ 109 ::
      (ss.digits ++ [115]))))
  | yyyyddd yyyy ddd => yyyy.digits ++ ddd.digits
  | dDhHmMsS d h m s =>
    d.digits ++ 100 :: (h.digits ++ 104 :: (m.digits ++ 109 :: (s.digits ++ [115])))
  | hhmmss hh mm ss => hh.digits ++ (mm.digits ++ ss.digits)

/-- Fields of digits only are filled up to their width, seconds fit an `int`, years
go from 1970 and not so far that `mktime` has no room for them, and days and months
are counted from 1. -/
def Fits : Stamp → Prop
  | iso yyyy mm dd hh min sec _ =>
    (yyyy.digits.length ≤ 4 ∧ mm.digits.length ≤ 2 ∧ dd.digits.length ≤ 2 ∧
      hh.digits.length ≤ 2 ∧ min.digits.length ≤ 2 ∧ sec.value < 2 ^ 31) ∧
    1970 ≤ yyyy.value ∧ 1 ≤ mm.value ∧ mm.value ≤ 12 ∧ 1 ≤ dd.value
  | yyyydddhhmmss yyyy ddd hh mm ss =>
    (yyyy.digits.length = 4 ∧ ddd.digits.length = 3 ∧ hh.digits.length = 2 ∧
      mm.digits.length = 2 ∧ ss.digits.length = 2) ∧ 1970 ≤ yyyy.value ∧ 1 ≤ ddd.value
  | dddhhmmss ddd hh mm ss =>
    (ddd.digits.length = 3 ∧ hh.digits.length = 2 ∧ mm.digits.length = 2 ∧
      ss.digits.length = 2) ∧ 1 ≤ ddd.value
  | yyyyYddD yyyy dd =>
    yyyy.digits.length ≤ 4 ∧ dd.value < 2 ^ 31 ∧ 1970 ≤ yyyy.value ∧ 1 ≤ dd.value
  | yyyyYddDhhHmmMssS yyyy dd hh mm ss =>
    (yyyy.value < 2 ^ 30 ∧ dd.value < 2 ^ 31 ∧ hh.value < 2 ^ 31 ∧ mm.value < 2 ^ 31 ∧
      ss.value < 2 ^ 31) ∧ 1970 ≤ yyyy.value ∧ 1 ≤ dd.value
  | yyyyddd yyyy ddd =>
    (yyyy.digits.length = 4 ∧ ddd.digits.length = 3) ∧ 1970 ≤ yyyy.value ∧ 1 ≤ ddd.value
  | dDhHmMsS d h m s =>
    (d.value < 2 ^ 31 ∧ h.value < 2 ^ 31 ∧ m.value < 2 ^ 31 ∧ s.value < 2 ^ 31) ∧ 1 ≤ d.value
  | hhmmss hh mm ss =>
    hh.digits.length = 2 ∧ mm.digits.length = 2 ∧ ss.digits.length = 2

def secondsOf (year : Nat) (yday : Int) (hour min : Nat) (sec : ℚ) : ℚ :=
  86400 * (newYear year + (yday - 1) : Int) + 3600 * hour + 60 * min + sec

/-- The seconds from the epoch to the time that is meant, in UTC: a day without a
year is one of this year, and a time without a day is one of today. -/
def instant (c : Clock) : Stamp → ℚ
  | iso yyyy mm dd hh min sec decimals =>
    secondsOf yyyy.value (monthStart yyyy.value (mm.value - 1) + dd.value) hh.value min.value
      (match decimals with
        | some d => (ofDecimal (sec.digits ++ d.digits) : ℚ) / 10 ^ d.digits.length
        | none => sec.value)
  | yyyydddhhmmss yyyy ddd hh mm ss | yyyyYddDhhHmmMssS yyyy ddd hh mm ss =>
    secondsOf yyyy.value ddd.value hh.value mm.value ss.value
  | dddhhmmss ddd hh mm ss | dDhHmMsS ddd hh mm ss =>
    secondsOf c.year ddd.value hh.value mm.value ss.value
  | yyyyYddD yyyy ddd | yyyyddd yyyy ddd => secondsOf yyyy.value ddd.value 0 0 0
  | hhmmss hh mm ss =>
    secondsOf c.year (monthStart c.year c.month + c.mday) hh.value mm.value ss.value

end Stamp

-- ---------------------------------------------------------------------------
-- The seconds of a time
-- ---------------------------------------------------------------------------

theorem interpretAsUtc_days (c : Clock) {year : Nat} (hyear : 1970 ≤ year) {yday : Int}
    (hday : 1 ≤ yday) (hour min sec : Int) :
    interpretAsUtc c year yday 0 0 hour min sec =
      86400 * (newYear year + (yday - 1)) + 3600 * hour + 60 * min + sec := by
  have hne : (year : Int) ≠ 0 := by omega
  have hday' : yday ≠ 0 := by omega
  have htime := timegm_date hyear (show 0 < 12 by decide) 1 hour min sec
  rw [Nat.cast_zero, show monthStart year 0 = 0 from rfl] at htime
  simp only [interpretAsUtc, mktime, hne, hday', ne_eq, not_true_eq_false, not_false_eq_true,
    and_self, if_true, if_false, htime]
  omega

theorem interpretAsUtc_thisYear (c : Clock) {yday : Int} (hday : 1 ≤ yday) (hour min sec : Int) :
    interpretAsUtc c 0 yday 0 0 hour min sec = interpretAsUtc c c.year yday 0 0 hour min sec := by
  have hyear := c.since_epoch
  have hne : (c.year : Int) ≠ 0 := by omega
  have hday' : yday ≠ 0 := by omega
  simp only [interpretAsUtc, hne, hday', ne_eq, not_true_eq_false, not_false_eq_true, and_self,
    if_true, if_false]

theorem interpretAsUtc_date (c : Clock) {year month day : Nat} (hyear : 1970 ≤ year)
    (hmonth : 1 ≤ month) (hmonth' : month ≤ 12) (hday : 1 ≤ day) (hour min sec : Int) :
    interpretAsUtc c year 0 month day hour min sec =
      86400 * (newYear year + (monthStart year (month - 1) + day - 1)) + 3600 * hour + 60 * min +
        sec := by
  have hne : (year : Int) ≠ 0 := by omega
  have hmonth₀ : (month : Int) ≠ 0 := by omega
  have hday₀ : (day : Int) ≠ 0 := by omega
  have htime := timegm_date hyear (show month - 1 < 12 by omega) day hour min sec
  rw [Nat.cast_sub hmonth, Nat.cast_one] at htime
  simp only [interpretAsUtc, mktime, hne, hmonth₀, hday₀, ne_eq, not_true_eq_false,
    not_false_eq_true, and_self, if_true, if_false, htime]
  omega

theorem interpretAsUtc_today (c : Clock) (hour min sec : Int) :
    interpretAsUtc c 0 0 0 0 hour min sec =
      86400 * (newYear c.year + (monthStart c.year c.month + c.mday - 1)) + 3600 * hour +
        60 * min + sec := by
  have htime := timegm_date c.since_epoch c.month_lt c.mday hour min sec
  simp only [interpretAsUtc, mktime, ne_eq, not_true_eq_false, and_self, and_false, and_true,
    if_true, if_false, htime]
  omega

-- ---------------------------------------------------------------------------
-- The format that is detected
-- ---------------------------------------------------------------------------

variable {c : Clock} {f : Format} {str : List UInt8}

theorem floorInt_of_lt {q : ℚ} (h₀ : 0 ≤ q) (h : q < 2 ^ 31) : floorInt q = q.floor := by
  have hlow : 0 ≤ q.floor := Int.floor_nonneg.mpr h₀
  have hhigh : q.floor < 2 ^ 31 := Int.floor_lt.mpr (by exact_mod_cast h)
  exact if_pos ⟨by omega, hhigh⟩

theorem Format.read_scanned (hlen : f.strlen str.length = true)
    (hscan : sscanf f.directives str = some values) : f.read c str = f.time c values := by
  rw [Format.read, if_pos hlen, hscan, Option.bind_some]

theorem Format.read_unmatched (hscan : sscanf f.directives str = none) : f.read c str = none := by
  rw [Format.read, hscan, Option.bind_none, ite_self]

theorem Format.read_strlen (hlen : f.strlen str.length = false) : f.read c str = none := by
  rw [Format.read, hlen]
  rfl

/-- No format that wants `b` behind its first number takes a text that has
something else there. -/
theorem Format.read_char_ne (hf : f.directives = .int width :: .char b :: format)
    (hwidth : width ≠ some 0) (hb : isDigit b = false) (h : Numeral row n)
    (hrest : ∀ a ∈ rest.head?, isDigit a = false) (hne : b ∉ rest.head?) :
    f.read c (row ++ rest) = none :=
  read_unmatched (hf ▸ sscanf_int_char_ne h hwidth hrest hb hne format)

theorem Format.read_stops (hf : ∀ d ∈ f.directives, d.bounded = true) (hb : Stops b)
    (hrow : ∀ a ∈ row, isDigit a) (rest : List UInt8) : f.read c (row ++ b :: rest) = none :=
  read_unmatched (sscanf_ints_stops hb rest hf hrow)

theorem small_of_length {r : Row} (h : r.digits.length ≤ 4) : r.value < 2 ^ 31 :=
  Nat.lt_of_lt_of_le r.value_lt (Nat.le_trans (Nat.pow_le_pow_right (by decide) h) (by decide))

theorem numeral_append (r : Row) (hs : ∀ b ∈ digits, isDigit b) :
    Numeral (r.digits ++ digits) (ofDecimal (r.digits ++ digits)) where
  ne_nil h := r.ne_nil (List.append_eq_nil_iff.mp h).1
  all := List.forall_mem_append.mpr ⟨r.all, hs⟩
  value := rfl

theorem digits_unread (h : Numeral str n) :
    isoBasicExtended.read c str = none ∧ yyyyYddD.read c str = none ∧
      yyyyYddDhhHmmMssS.read c str = none ∧ dDhHmMsS.read c str = none := by
  have hnone : ∀ {f : Format} {width b format},
      f.directives = .int width :: .char b :: format → width ≠ some 0 → isDigit b = false →
        f.read c str = none := by
    intro f width b format hf hwidth hb
    have hread : f.read c (str ++ []) = none :=
      Format.read_char_ne hf hwidth hb h (by simp) (by simp)
    rwa [List.append_nil] at hread
  exact ⟨hnone rfl (by simp) rfl, hnone rfl (by simp) rfl, hnone rfl (by simp) rfl,
    hnone rfl (by simp) rfl⟩

theorem seconds_days (c : Clock) {year yday : Nat} (hyear : 1970 ≤ year) (hday : 1 ≤ yday)
    (hour min sec : Nat) :
    (interpretAsUtc c year yday 0 0 hour min sec : ℚ) =
      Stamp.secondsOf year yday hour min sec := by
  rw [interpretAsUtc_days c hyear (by omega), Stamp.secondsOf]
  push_cast
  rfl

theorem seconds_thisYear (c : Clock) {yday : Nat} (hday : 1 ≤ yday) (hour min sec : Nat) :
    (interpretAsUtc c 0 yday 0 0 hour min sec : ℚ) =
      Stamp.secondsOf c.year yday hour min sec := by
  rw [interpretAsUtc_thisYear c (by omega), seconds_days c c.since_epoch hday]

theorem iso_detected {yyyy mm dd hh min sec : Row} {decimals : Option Row}
    (hs : (Stamp.iso yyyy mm dd hh min sec decimals).Fits) :
    formats.findSome? (·.read c (Stamp.iso yyyy mm dd hh min sec decimals).text) =
      some ((Stamp.iso yyyy mm dd hh min sec decimals).instant c) := by
  obtain ⟨⟨hyyyy, hmm, hdd, hhh, hmin, hsec⟩, hyear, hmonth, hmonth', hday⟩ := hs
  obtain ⟨q, hscan, hq, hnonneg, hlt⟩ : ∃ q, sscanf [.float none]
      (sec.digits ++ (decimals.map (46 :: ·.digits)).getD []) = some [.float q] ∧
      (match decimals with
        | some d => (ofDecimal (sec.digits ++ d.digits) : ℚ) / 10 ^ d.digits.length
        | none => sec.value) = q ∧ 0 ≤ q ∧ q < sec.value + 1 := by
    cases decimals with
    | none =>
      have hfloat : scanFloat none (sec.digits ++ []) = some ((sec.value : ℚ), []) :=
        scanFloat_row sec.numeral (.inr ⟨rfl, by simp⟩)
      exact ⟨_, by rw [sscanf, Option.map_none, Option.getD_none, hfloat]; rfl, rfl,
        Nat.cast_nonneg _, lt_add_one _⟩
    | some d =>
      have hbound : (ofDecimal (sec.digits ++ d.digits) : ℚ) <
          (sec.value + 1) * 10 ^ d.digits.length := by
        exact_mod_cast sec.ofDecimal_append_lt d.all
      exact ⟨_, by rw [sscanf, Option.map_some, Option.getD_some,
        scanFloat_decimals sec.numeral d.all]; rfl, rfl, by positivity,
        (div_lt_iff₀ (by positivity)).mpr hbound⟩
  have hvalues : sscanf isoBasicExtended.directives
      (Stamp.iso yyyy mm dd hh min sec decimals).text =
        some [.int yyyy.value, .int mm.value, .int dd.value, .int hh.value, .int min.value,
          .float q] := by
    rw [isoBasicExtended, Stamp.text,
      sscanf_field yyyy (small_of_length hyyyy) (by simpa using hyyyy) rfl,
      sscanf_field mm (small_of_length (by omega)) (by simpa using hmm) rfl,
      sscanf_field dd (small_of_length (by omega)) (by simpa using hdd) rfl,
      sscanf_field hh (small_of_length (by omega)) (by simpa using hhh) rfl,
      sscanf_field min (small_of_length (by omega)) (by simpa using hmin) rfl, hscan]
    rfl
  rw [formats, List.findSome?_cons, Format.read_scanned rfl hvalues]
  have hfits : (sec.value : ℚ) + 1 ≤ 2 ^ 31 := by exact_mod_cast hsec
  simp only [Stamp.instant, isoBasicExtended]
  rw [hq, floorInt_of_lt hnonneg (hlt.trans_le hfits),
    interpretAsUtc_date c hyear hmonth hmonth' hday, Stamp.secondsOf]
  push_cast
  congr 1
  ring

theorem yyyydddhhmmss_detected {yyyy ddd hh mm ss : Row}
    (hs : (Stamp.yyyydddhhmmss yyyy ddd hh mm ss).Fits) :
    formats.findSome? (·.read c (Stamp.yyyydddhhmmss yyyy ddd hh mm ss).text) =
      some ((Stamp.yyyydddhhmmss yyyy ddd hh mm ss).instant c) := by
  obtain ⟨⟨hyyyy, hddd, hhh, hmm, hss⟩, hyear, hday⟩ := hs
  have hnumeral : Numeral (Stamp.yyyydddhhmmss yyyy ddd hh mm ss).text _ :=
    numeral_append yyyy (List.forall_mem_append.mpr ⟨ddd.all, List.forall_mem_append.mpr ⟨hh.all,
      List.forall_mem_append.mpr ⟨mm.all, ss.all⟩⟩⟩)
  have hlength : (Stamp.yyyydddhhmmss yyyy ddd hh mm ss).text.length = 13 := by
    simp only [Stamp.text, List.length_append, hyyyy, hddd, hhh, hmm, hss]
  have hvalues : sscanf yyyydddhhmmss.directives (Stamp.yyyydddhhmmss yyyy ddd hh mm ss).text =
      some [.int yyyy.value, .int ddd.value, .int hh.value, .int mm.value, .int ss.value] := by
    rw [yyyydddhhmmss, Stamp.text, sscanf_filled yyyy (small_of_length (by omega)) hyyyy,
      sscanf_filled ddd (small_of_length (by omega)) hddd,
      sscanf_filled hh (small_of_length (by omega)) hhh,
      sscanf_filled mm (small_of_length (by omega)) hmm, ← List.append_nil ss.digits,
      sscanf_filled ss (small_of_length (by omega)) hss]
    rfl
  have hread := Format.read_scanned (c := c) (f := yyyydddhhmmss) (decide_eq_true hlength) hvalues
  obtain ⟨hiso, -⟩ := digits_unread (c := c) hnumeral
  rw [formats, List.findSome?_cons, hiso, List.findSome?_cons, hread]
  simp only [yyyydddhhmmss, seconds_days c hyear hday, Stamp.instant]

theorem dddhhmmss_detected {ddd hh mm ss : Row} (hs : (Stamp.dddhhmmss ddd hh mm ss).Fits) :
    formats.findSome? (·.read c (Stamp.dddhhmmss ddd hh mm ss).text) =
      some ((Stamp.dddhhmmss ddd hh mm ss).instant c) := by
  obtain ⟨⟨hddd, hhh, hmm, hss⟩, hday⟩ := hs
  have hnumeral : Numeral (Stamp.dddhhmmss ddd hh mm ss).text _ :=
    numeral_append ddd (List.forall_mem_append.mpr ⟨hh.all,
      List.forall_mem_append.mpr ⟨mm.all, ss.all⟩⟩)
  have hlength : (Stamp.dddhhmmss ddd hh mm ss).text.length = 9 := by
    simp only [Stamp.text, List.length_append, hddd, hhh, hmm, hss]
  have hvalues : sscanf dddhhmmss.directives (Stamp.dddhhmmss ddd hh mm ss).text =
      some [.int ddd.value, .int hh.value, .int mm.value, .int ss.value] := by
    rw [dddhhmmss, Stamp.text, sscanf_filled ddd (small_of_length (by omega)) hddd,
      sscanf_filled hh (small_of_length (by omega)) hhh,
      sscanf_filled mm (small_of_length (by omega)) hmm, ← List.append_nil ss.digits,
      sscanf_filled ss (small_of_length (by omega)) hss]
    rfl
  have hlong : yyyydddhhmmss.read c (Stamp.dddhhmmss ddd hh mm ss).text = none :=
    Format.read_strlen (by rw [hlength]; rfl)
  have hread := Format.read_scanned (c := c) (f := dddhhmmss) (decide_eq_true hlength) hvalues
  obtain ⟨hiso, -⟩ := digits_unread (c := c) hnumeral
  rw [formats, List.findSome?_cons, hiso, List.findSome?_cons, hlong, List.findSome?_cons, hread]
  simp only [dddhhmmss, seconds_thisYear c hday, Stamp.instant]

theorem yyyyddd_detected {yyyy ddd : Row} (hs : (Stamp.yyyyddd yyyy ddd).Fits) :
    formats.findSome? (·.read c (Stamp.yyyyddd yyyy ddd).text) =
      some ((Stamp.yyyyddd yyyy ddd).instant c) := by
  obtain ⟨⟨hyyyy, hddd⟩, hyear, hday⟩ := hs
  have hlength : (Stamp.yyyyddd yyyy ddd).text.length = 7 := by
    simp only [Stamp.text, List.length_append, hyyyy, hddd]
  have hvalues : sscanf yyyyddd.directives (Stamp.yyyyddd yyyy ddd).text =
      some [.int yyyy.value, .int ddd.value] := by
    rw [yyyyddd, Stamp.text, sscanf_filled yyyy (small_of_length (by omega)) hyyyy,
      ← List.append_nil ddd.digits, sscanf_filled ddd (small_of_length (by omega)) hddd]
    rfl
  have hnumeral : Numeral (Stamp.yyyyddd yyyy ddd).text _ := numeral_append yyyy ddd.all
  obtain ⟨hiso, hyd, hydhms, -⟩ := digits_unread (c := c) hnumeral
  have hlong : yyyydddhhmmss.read c (Stamp.yyyyddd yyyy ddd).text = none :=
    Format.read_strlen (by rw [hlength]; rfl)
  have hlong' : dddhhmmss.read c (Stamp.yyyyddd yyyy ddd).text = none :=
    Format.read_strlen (by rw [hlength]; rfl)
  have hread := Format.read_scanned (c := c) (f := yyyyddd) (decide_eq_true hlength) hvalues
  rw [formats, List.findSome?_cons, hiso, List.findSome?_cons, hlong, List.findSome?_cons, hlong',
    List.findSome?_cons, hyd, List.findSome?_cons, hydhms, List.findSome?_cons, hread]
  simp only [yyyyddd, Stamp.instant]
  exact congrArg some (seconds_days c hyear hday 0 0 0)

theorem lettered_unread (r : Row) (hb : Stops b) (hne : b ≠ 45) (rest : List UInt8) :
    isoBasicExtended.read c (r.digits ++ b :: rest) = none ∧
      yyyydddhhmmss.read c (r.digits ++ b :: rest) = none ∧
      dddhhmmss.read c (r.digits ++ b :: rest) = none ∧
      yyyyddd.read c (r.digits ++ b :: rest) = none := by
  have hhead : ∀ a ∈ (b :: rest).head?, isDigit a = false := by
    intro a ha
    rw [← Option.some.inj ha]
    exact hb.1
  refine ⟨Format.read_char_ne rfl (by simp) rfl r.numeral hhead ?_,
    Format.read_stops ?_ hb r.all rest, Format.read_stops ?_ hb r.all rest,
    Format.read_stops ?_ hb r.all rest⟩
  · intro heq
    exact hne (Option.some.inj heq)
  · decide
  · decide
  · decide

theorem yyyyYddD_detected {yyyy dd : Row} (hs : (Stamp.yyyyYddD yyyy dd).Fits) :
    formats.findSome? (·.read c (Stamp.yyyyYddD yyyy dd).text) =
      some ((Stamp.yyyyYddD yyyy dd).instant c) := by
  obtain ⟨hyyyy, hdd, hyear, hday⟩ := hs
  have hvalues : sscanf yyyyYddD.directives (Stamp.yyyyYddD yyyy dd).text =
      some [.int yyyy.value, .int dd.value] := by
    rw [yyyyYddD, Stamp.text,
      sscanf_field yyyy (small_of_length hyyyy) (by simpa using hyyyy) rfl,
      sscanf_field dd hdd (by simp) rfl]
    rfl
  obtain ⟨hiso, h13, h9, -⟩ := lettered_unread (c := c) yyyy (b := 121) (by decide) (by decide)
    (dd.digits ++ [100])
  have hread := Format.read_scanned (c := c) (f := yyyyYddD) rfl hvalues
  rw [Stamp.text] at hread ⊢
  rw [formats, List.findSome?_cons, hiso, List.findSome?_cons, h13, List.findSome?_cons, h9,
    List.findSome?_cons, hread]
  simp only [yyyyYddD, Stamp.instant]
  exact congrArg some (seconds_days c hyear hday 0 0 0)

theorem yyyyYddDhhHmmMssS_detected {yyyy dd hh mm ss : Row}
    (hs : (Stamp.yyyyYddDhhHmmMssS yyyy dd hh mm ss).Fits) :
    formats.findSome? (·.read c (Stamp.yyyyYddDhhHmmMssS yyyy dd hh mm ss).text) =
      some ((Stamp.yyyyYddDhhHmmMssS yyyy dd hh mm ss).instant c) := by
  obtain ⟨⟨hyyyy, hdd, hhh, hmm, hss⟩, hyear, hday⟩ := hs
  let rest := hh.digits ++ 104 :: (mm.digits ++ 109 :: (ss.digits ++ [115]))
  have hvalues : sscanf yyyyYddDhhHmmMssS.directives
      (yyyy.digits ++ 121 :: (dd.digits ++ 100 :: rest)) =
        some [.int yyyy.value, .int dd.value, .int hh.value, .int mm.value, .int ss.value] := by
    rw [yyyyYddDhhHmmMssS, sscanf_field yyyy (by omega) (by simp) rfl,
      sscanf_field dd hdd (by simp) rfl, sscanf_field hh hhh (by simp) rfl,
      sscanf_field mm hmm (by simp) rfl, sscanf_field ss hss (by simp) rfl]
    rfl
  obtain ⟨hiso, h13, h9, -⟩ := lettered_unread (c := c) yyyy (b := 121) (by decide) (by decide)
    (dd.digits ++ 100 :: rest)
  -- the shorter format ends before the hours
  have hshort : yyyyYddD.read c (yyyy.digits ++ 121 :: (dd.digits ++ 100 :: rest)) = none := by
    refine Format.read_unmatched (sscanf_field_none yyyy (by simp) rfl ?_)
    refine sscanf_field_none dd (by simp) rfl ?_
    rw [sscanf, if_neg]
    simp [rest]
  have hread := Format.read_scanned (c := c) (f := yyyyYddDhhHmmMssS) rfl hvalues
  rw [Stamp.text, formats, List.findSome?_cons, hiso, List.findSome?_cons, h13,
    List.findSome?_cons, h9, List.findSome?_cons, hshort, List.findSome?_cons, hread]
  simp only [yyyyYddDhhHmmMssS, seconds_days c hyear hday, Stamp.instant]

theorem yearless_unread (r : Row) (hb : isDigit b = false) (hne : b ≠ 121) (rest : List UInt8) :
    yyyyYddD.read c (r.digits ++ b :: rest) = none ∧
      yyyyYddDhhHmmMssS.read c (r.digits ++ b :: rest) = none := by
  have hhead : ∀ a ∈ (b :: rest).head?, isDigit a = false := by
    intro a ha
    rwa [← Option.some.inj ha]
  have hmem : 121 ∉ (b :: rest).head? := by
    intro heq
    exact hne (Option.some.inj heq)
  exact ⟨Format.read_char_ne rfl (by simp) rfl r.numeral hhead hmem,
    Format.read_char_ne rfl (by simp) rfl r.numeral hhead hmem⟩

theorem dDhHmMsS_detected {d h m s : Row} (hs : (Stamp.dDhHmMsS d h m s).Fits) :
    formats.findSome? (·.read c (Stamp.dDhHmMsS d h m s).text) =
      some ((Stamp.dDhHmMsS d h m s).instant c) := by
  obtain ⟨⟨hd, hh, hm, hss⟩, hday⟩ := hs
  let rest := h.digits ++ 104 :: (m.digits ++ 109 :: (s.digits ++ [115]))
  have hvalues : sscanf dDhHmMsS.directives (d.digits ++ 100 :: rest) =
      some [.int d.value, .int h.value, .int m.value, .int s.value] := by
    rw [dDhHmMsS, sscanf_field d hd (by simp) rfl, sscanf_field h hh (by simp) rfl,
      sscanf_field m hm (by simp) rfl, sscanf_field s hss (by simp) rfl]
    rfl
  obtain ⟨hiso, h13, h9, h7⟩ := lettered_unread (c := c) d (b := 100) (by decide) (by decide) rest
  obtain ⟨hyd, hydhms⟩ := yearless_unread (c := c) d (b := 100) rfl (by decide) rest
  have hread := Format.read_scanned (c := c) (f := dDhHmMsS) rfl hvalues
  rw [Stamp.text, formats, List.findSome?_cons, hiso, List.findSome?_cons, h13,
    List.findSome?_cons, h9, List.findSome?_cons, hyd, List.findSome?_cons, hydhms,
    List.findSome?_cons, h7, List.findSome?_cons, hread]
  simp only [dDhHmMsS, seconds_thisYear c hday, Stamp.instant]

theorem seconds_today (c : Clock) (hour min : Nat) (h₀ : 0 ≤ sec) (h : sec < 2 ^ 31) :
    (interpretAsUtc c 0 0 0 0 hour min (floorInt sec) : ℚ) + (sec - sec.floor) =
      Stamp.secondsOf c.year (monthStart c.year c.month + c.mday) hour min sec := by
  rw [floorInt_of_lt h₀ h, interpretAsUtc_today, Stamp.secondsOf]
  push_cast
  ring

theorem hhmmss_detected {hh mm ss : Row} (hs : (Stamp.hhmmss hh mm ss).Fits) :
    formats.findSome? (·.read c (Stamp.hhmmss hh mm ss).text) =
      some ((Stamp.hhmmss hh mm ss).instant c) := by
  obtain ⟨hhh, hmm, hss⟩ := hs
  have hlength : (Stamp.hhmmss hh mm ss).text.length = 6 := by
    simp only [Stamp.text, List.length_append, hhh, hmm, hss]
  have hfloat : sscanf [.float (some 2)] ss.digits = some [.float ss.value] := by
    have hscan : scanFloat (some 2) (ss.digits ++ []) = some ((ss.value : ℚ), []) :=
      scanFloat_row ss.numeral (.inl (hss ▸ rfl))
    rw [List.append_nil] at hscan
    rw [sscanf, hscan]
    rfl
  have hvalues : sscanf hhmmss.directives (Stamp.hhmmss hh mm ss).text =
      some [.int hh.value, .int mm.value, .float ss.value] := by
    rw [hhmmss, Stamp.text, sscanf_filled hh (small_of_length (by omega)) hhh,
      sscanf_filled mm (small_of_length (by omega)) hmm, hfloat]
    rfl
  have hnumeral : Numeral (Stamp.hhmmss hh mm ss).text _ :=
    numeral_append hh (List.forall_mem_append.mpr ⟨mm.all, ss.all⟩)
  obtain ⟨hiso, hyd, hydhms, hdhms⟩ := digits_unread (c := c) hnumeral
  have hlong : ∀ f ∈ [yyyydddhhmmss, dddhhmmss, yyyyddd],
      f.read c (Stamp.hhmmss hh mm ss).text = none := by
    intro f hf
    refine Format.read_strlen ?_
    rw [hlength]
    simp only [List.mem_cons, List.not_mem_nil, or_false] at hf
    rcases hf with rfl | rfl | rfl <;> rfl
  have hread := Format.read_scanned (c := c) (f := hhmmss) (by rw [hlength]; rfl) hvalues
  rw [formats, List.findSome?_cons, hiso, List.findSome?_cons, hlong _ (by simp),
    List.findSome?_cons, hlong _ (by simp), List.findSome?_cons, hyd, List.findSome?_cons, hydhms,
    List.findSome?_cons, hlong _ (by simp), List.findSome?_cons, hdhms, List.findSome?_cons, hread]
  have hfits : (ss.value : ℚ) < 2 ^ 31 := by
    exact_mod_cast small_of_length (show ss.digits.length ≤ 4 by omega)
  simp only [hhmmss, seconds_today c _ _ (Nat.cast_nonneg ss.value) hfits, Stamp.instant]

/-- Whichever format it is in, a time is taken for what it says. -/
theorem Stamp.detected (s : Stamp) (hs : s.Fits) :
    formats.findSome? (·.read c s.text) = some (s.instant c) := by
  cases s with
  | iso => exact iso_detected hs
  | yyyydddhhmmss => exact yyyydddhhmmss_detected hs
  | dddhhmmss => exact dddhhmmss_detected hs
  | yyyyYddD => exact yyyyYddD_detected hs
  | yyyyYddDhhHmmMssS => exact yyyyYddDhhHmmMssS_detected hs
  | yyyyddd => exact yyyyddd_detected hs
  | dDhHmMsS => exact dDhHmMsS_detected hs
  | hhmmss => exact hhmmss_detected hs

-- ---------------------------------------------------------------------------
-- What is not a time
-- ---------------------------------------------------------------------------

/-- Entries such as `flen=5408000000`, and times of the day with decimals, which
`hhmmss.cc` is meant for: its last conversion stops at the point. -/
inductive NotATime : List UInt8 → Prop
  | stops (rest : List UInt8) : Stops b → NotATime (b :: rest)
  | decimals (hh mm ss : Row) (cc : List UInt8) : hh.digits.length = 2 → mm.digits.length = 2 →
      ss.digits.length = 2 → NotATime (hh.digits ++ (mm.digits ++ (ss.digits ++ 46 :: cc)))

theorem decimals_unread {hh mm ss : Row} (hhh : hh.digits.length = 2) (hmm : mm.digits.length = 2)
    (hss : ss.digits.length = 2) (cc : List UInt8) :
    hhmmss.read c (hh.digits ++ (mm.digits ++ (ss.digits ++ 46 :: cc))) = none := by
  refine Format.read_unmatched ?_
  rw [hhmmss, sscanf_filled hh (small_of_length (by omega)) hhh,
    sscanf_filled mm (small_of_length (by omega)) hmm, sscanf,
    scanFloat_row ss.numeral (.inl (hss ▸ rfl))]
  rfl

theorem parseTime_notATime (c : Clock) (h : NotATime str) : parseTime c str = none := by
  have hnone : ∀ f ∈ formats, f.read c str = none := by
    intro f hf
    simp only [formats, List.mem_cons, List.not_mem_nil, or_false] at hf
    cases h with
    | stops rest hb =>
      refine Format.read_unmatched ?_
      rcases hf with rfl | rfl | rfl | rfl | rfl | rfl | rfl | rfl <;> exact sscanf_stops hb ..
    | decimals hh mm ss cc hhh hmm hss =>
      let r : Row := ⟨hh.digits ++ (mm.digits ++ ss.digits), by simp [hh.ne_nil],
        List.forall_mem_append.mpr ⟨hh.all, List.forall_mem_append.mpr ⟨mm.all, ss.all⟩⟩⟩
      have hlast := decimals_unread (c := c) hhh hmm hss cc
      have htext : hh.digits ++ (mm.digits ++ (ss.digits ++ 46 :: cc)) = r.digits ++ 46 :: cc := by
        simp only [r, List.append_assoc]
      rw [htext] at hlast ⊢
      obtain ⟨hiso, h13, h9, h7⟩ := lettered_unread (c := c) r (b := 46) (by decide) (by decide) cc
      obtain ⟨hyd, hydhms⟩ := yearless_unread (c := c) r (b := 46) rfl (by decide) cc
      have hdhms : dDhHmMsS.read c (r.digits ++ 46 :: cc) = none := by
        refine Format.read_char_ne rfl (by simp) rfl r.numeral ?_ ?_
        · intro a ha
          rw [← Option.some.inj ha]
          rfl
        · intro heq
          exact absurd (Option.some.inj heq) (by decide)
      rcases hf with rfl | rfl | rfl | rfl | rfl | rfl | rfl | rfl <;> assumption
  rw [parseTime, List.findSome?_eq_none_iff.mpr hnone, Option.map_none]

end Tsunami.Realtime
