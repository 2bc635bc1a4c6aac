import Mathlib.Algebra.GroupWithZero.Nat
import Tsunami.Lib.Tokens

/-!
# Names of recordings

`parse_evn_filename.c`: experiment, station and scan, an optional start time and
any number of auxiliary entries, between underscores and in front of the file
type. A string is the list of its characters, without the zero at its end.
-/

namespace Tsunami.Realtime

open Tokens

def underscore : UInt8 := 95
def dot : UInt8 := 46
def equalsSign : UInt8 := 61

/-- `struct evn_filename`; `nr_auxinfo` is the length of the list. A field that
has not been read is `NULL`. -/
structure EvnFilename (τ : Type u) where
  expName : Option (List UInt8)
  stationCode : Option (List UInt8)
  scanName : Option (List UInt8)
  dataStartTimeAscii : Option (List UInt8)
  dataStartTime : τ
  auxinfo : List (List UInt8)
  fileType : Option (List UInt8)
  valid : Bool
  deriving DecidableEq, Repr

variable {τ : Type u}

def EvnFilename.fresh [Zero τ] : EvnFilename τ := ⟨none, none, none, none, 0, [], none, true⟩

def EvnFilename.invalid (ef : EvnFilename τ) : EvnFilename τ := { ef with valid := false }

def addAuxEntry (ef : EvnFilename τ) (auxentry : List UInt8) : EvnFilename τ :=
  { ef with auxinfo := ef.auxinfo ++ [auxentry] }

def getToken (str : List UInt8) : Option (List UInt8 × List UInt8) := next underscore str

def addAuxEntries (ef : EvnFilename τ) (parseptr : List UInt8) : EvnFilename τ :=
  (all underscore parseptr).foldl addAuxEntry ef

/-- The token behind the scan name: a start time, or an entry if `parse_time`
cannot make a time of it. -/
def parseStartTime [Zero τ] (parseTime : List UInt8 → Option τ) (ef : EvnFilename τ)
    (parseptr : List UInt8) : EvnFilename τ :=
  match getToken parseptr with
  | none => addAuxEntries ef parseptr
  | some (token, parseptr) =>
    if token.length < 2 then ef.invalid
    else
      match parseTime token with
      | none => addAuxEntries (addAuxEntry { ef with dataStartTime := 0 } token) parseptr
      | some time =>
        addAuxEntries { ef with dataStartTimeAscii := some token, dataStartTime := time } parseptr

def parseElements [Zero τ] (parseTime : List UInt8 → Option τ) (ef : EvnFilename τ)
    (parseptr : List UInt8) : EvnFilename τ :=
  match getToken parseptr with
  | none => ef.invalid
  | some (expName, parseptr) =>
  let ef := { ef with expName := some expName }
  if 6 < expName.length then ef.invalid
  else
  match getToken parseptr with
  | none => ef.invalid
  | some (stationCode, parseptr) =>
  let ef := { ef with stationCode := some stationCode }
  if stationCode.length < 2 then ef.invalid
  else
  match getToken parseptr with
  | none => ef.invalid
  | some (scanName, parseptr) =>
  let ef := { ef with scanName := some scanName }
  if 16 < scanName.length then ef.invalid
  else parseStartTime parseTime ef parseptr

/-- `parse_evn_filename`, with what `parse_time` makes of a token. -/
def parseEvnFilename [Zero τ] (parseTime : List UInt8 → Option τ) (filename : List UInt8) :
    EvnFilename τ :=
  match cutLast dot filename with
  | none => EvnFilename.fresh.invalid
  | some (parsebuf, filetype) =>
    match getToken filetype with
    | none => EvnFilename.fresh.invalid
    | some (fileType, _) =>
      let ef := { EvnFilename.fresh with fileType := some fileType }
      if fileType.length < 2 then ef.invalid else parseElements parseTime ef parsebuf

def getAuxEntry (key : List UInt8) : List (List UInt8) → Option (List UInt8)
  | [] => none
  | entry :: auxinfo =>
    if key.length < entry.length ∧ entry.take key.length = key ∧
        entry[key.length]? = some equalsSign then
      some (entry.drop (key.length + 1))
    else getAuxEntry key auxinfo

-- ---------------------------------------------------------------------------
-- Names
-- ---------------------------------------------------------------------------

/-- The parts of a name, as the convention allows them. -/
structure EvnName (parseTime : List UInt8 → Option τ) where
  expName : List UInt8
  stationCode : List UInt8
  scanName : List UInt8
  startTime : Option (List UInt8)
  aux : List (List UInt8)
  fileType : List UInt8
  length_expName : 1 ≤ expName.length ∧ expName.length ≤ 6
  length_stationCode : 2 ≤ stationCode.length
  length_scanName : 1 ≤ scanName.length ∧ scanName.length ≤ 16
  length_fileType : 2 ≤ fileType.length
  /-- A start time is read as one. -/
  time : ∀ token ∈ startTime, 2 ≤ token.length ∧ (parseTime token).isSome
  /-- Without one, the first entry is not. -/
  noTime : startTime = none → ∀ entry ∈ aux.head?, 2 ≤ entry.length ∧ parseTime entry = none
  aux_ne_nil : ∀ entry ∈ aux, entry ≠ []
  no_underscore : ∀ part ∈ expName :: stationCode :: scanName :: (startTime.toList ++ aux),
    underscore ∉ part
  no_underscore_fileType : underscore ∉ fileType
  no_dot : dot ∉ fileType

variable {parseTime : List UInt8 → Option τ}

def EvnName.filename (n : EvnName parseTime) : List UInt8 :=
  joined underscore (n.expName :: n.stationCode :: n.scanName :: (n.startTime.toList ++ n.aux)) ++
    dot :: n.fileType

def EvnName.parsed [Zero τ] (n : EvnName parseTime) : EvnFilename τ where
  expName := some n.expName
  stationCode := some n.stationCode
  scanName := some n.scanName
  dataStartTimeAscii := n.startTime
  dataStartTime := (n.startTime.bind parseTime).getD 0
  auxinfo := n.aux
  fileType := some n.fileType
  valid := true

def FirstEntry (key : List UInt8) (aux : List (List UInt8)) (value : List UInt8) : Prop :=
  ∃ before after, aux = before ++ (key ++ equalsSign :: value) :: after ∧
    ∀ entry ∈ before, ∀ other, entry ≠ key ++ equalsSign :: other

-- ---------------------------------------------------------------------------
-- Entries
-- ---------------------------------------------------------------------------

theorem keyed_iff (key entry : List UInt8) :
    (key.length < entry.length ∧ entry.take key.length = key ∧
      entry[key.length]? = some equalsSign) ↔ ∃ value, entry = key ++ equalsSign :: value := by
  constructor
  · rintro ⟨hlt, htake, hsign⟩
    have hdrop : entry.drop key.length = equalsSign :: entry.drop (key.length + 1) := by
      obtain ⟨_, hget⟩ := List.getElem?_eq_some_iff.mp hsign
      rw [List.drop_eq_getElem_cons hlt, hget]
    exact ⟨_, (List.take_append_drop key.length entry).symm.trans (by rw [htake, hdrop])⟩
  · rintro ⟨value, rfl⟩
    refine ⟨by simp, List.take_left, ?_⟩
    rw [List.getElem?_append_right (Nat.le_refl _), Nat.sub_self]
    rfl

theorem firstEntry_cons_self :
    FirstEntry key ((key ++ equalsSign :: found) :: aux) value ↔ found = value := by
  constructor
  · rintro ⟨before, after, heq, hbefore⟩
    cases before with
    | nil =>
      have hentry := List.append_cancel_left (List.cons.inj heq).1
      exact (List.cons.inj hentry).2
    | cons first before =>
      exact absurd (List.cons.inj heq).1.symm (hbefore first List.mem_cons_self found)
  · rintro rfl
    exact ⟨[], aux, rfl, fun entry h => absurd h List.not_mem_nil⟩

theorem firstEntry_cons_of_ne (hne : ∀ other, entry ≠ key ++ equalsSign :: other) :
    FirstEntry key (entry :: aux) value ↔ FirstEntry key aux value := by
  constructor
  · rintro ⟨before, after, heq, hbefore⟩
    cases before with
    | nil => exact absurd (List.cons.inj heq).1 (hne value)
    | cons first before =>
      exact ⟨before, after, (List.cons.inj heq).2,
        fun e he => hbefore e (List.mem_cons_of_mem _ he)⟩
  · rintro ⟨before, after, rfl, hbefore⟩
    refine ⟨entry :: before, after, rfl, ?_⟩
    intro e he
    rcases List.mem_cons.mp he with rfl | he
    · exact hne
    · exact hbefore e he

theorem getAuxEntry_eq_some_iff (key : List UInt8) (aux : List (List UInt8)) (value : List UInt8) :
    getAuxEntry key aux = some value ↔ FirstEntry key aux value := by
  induction aux with
  | nil => simp [getAuxEntry, FirstEntry]
  | cons entry aux ih =>
    rw [getAuxEntry]
    split
    · rename_i hkeyed
      obtain ⟨found, rfl⟩ := (keyed_iff key entry).mp hkeyed
      have hvalue : (key ++ equalsSign :: found).drop (key.length + 1) = found := by
        rw [← List.drop_drop, List.drop_left]
        rfl
      rw [hvalue, Option.some_inj, firstEntry_cons_self]
    · rename_i hkeyed
      have hne : ∀ other, entry ≠ key ++ equalsSign :: other :=
        fun other h => hkeyed ((keyed_iff key entry).mpr ⟨other, h⟩)
      rw [ih, firstEntry_cons_of_ne hne]

theorem getAuxEntry_eq_none_iff (key : List UInt8) (aux : List (List UInt8)) :
    getAuxEntry key aux = none ↔ ∀ entry ∈ aux, ∀ value, entry ≠ key ++ equalsSign :: value := by
  induction aux with
  | nil => simp [getAuxEntry]
  | cons entry aux ih =>
    rw [getAuxEntry, List.forall_mem_cons]
    split
    · rename_i hkeyed
      obtain ⟨value, hvalue⟩ := (keyed_iff key entry).mp hkeyed
      exact iff_of_false (fun h => nomatch h) fun h => h.1 value hvalue
    · rename_i hkeyed
      rw [ih]
      exact (and_iff_right fun value h => hkeyed ((keyed_iff key entry).mpr ⟨value, h⟩)).symm

-- ---------------------------------------------------------------------------
-- Every name
-- ---------------------------------------------------------------------------

theorem foldl_addAuxEntry (ef : EvnFilename τ) (entries : List (List UInt8)) :
    entries.foldl addAuxEntry ef = { ef with auxinfo := ef.auxinfo ++ entries } := by
  induction entries generalizing ef with
  | nil => simp
  | cons entry entries ih => rw [List.foldl_cons, ih, addAuxEntry, List.append_assoc]; rfl

theorem addAuxEntries_joined (ef : EvnFilename τ)
    (haux : ∀ entry ∈ aux, entry ≠ [] ∧ underscore ∉ entry) :
    addAuxEntries ef (joined underscore aux) = { ef with auxinfo := ef.auxinfo ++ aux } := by
  rw [addAuxEntries, all_joined haux, foldl_addAuxEntry]

theorem getToken_joined (hlen : 1 ≤ part.length) (hpart : underscore ∉ part)
    (parts : List (List UInt8)) :
    getToken (joined underscore (part :: parts)) = some (part, joined underscore parts) :=
  next_joined (List.ne_nil_of_length_pos hlen) hpart

theorem EvnName.entries (n : EvnName parseTime) :
    ∀ entry ∈ n.aux, entry ≠ [] ∧ underscore ∉ entry :=
  fun entry h => ⟨n.aux_ne_nil entry h, n.no_underscore entry (by simp [h])⟩

variable [Zero τ]

theorem EvnName.parseStartTime (n : EvnName parseTime) (ef : EvnFilename τ)
    (hnone : ef.dataStartTimeAscii = none) (hzero : ef.dataStartTime = 0)
    (hempty : ef.auxinfo = []) :
    Realtime.parseStartTime parseTime ef (joined underscore (n.startTime.toList ++ n.aux)) =
      { ef with
        dataStartTimeAscii := n.startTime
        dataStartTime := (n.startTime.bind parseTime).getD 0
        auxinfo := n.aux } := by
  cases hstart : n.startTime with
  | some token =>
    obtain ⟨hlen, htime⟩ := n.time token hstart
    obtain ⟨time, htime⟩ := Option.isSome_iff_exists.mp htime
    have htoken : underscore ∉ token := n.no_underscore token (by simp [hstart])
    rw [Option.toList_some, List.singleton_append, Realtime.parseStartTime,
      getToken_joined (Nat.le_of_succ_le hlen) htoken]
    simp only [if_neg (Nat.not_lt.mpr hlen), htime, addAuxEntries_joined _ n.entries, hempty,
      List.nil_append, Option.bind_some, Option.getD_some]
  | none =>
    rw [Option.toList_none, List.nil_append, Realtime.parseStartTime]
    cases haux : n.aux with
    | nil =>
      have hentries : addAuxEntries ef (joined underscore []) = ef := rfl
      rw [joined, show getToken [] = none from rfl]
      cases ef
      simp_all only [joined, Option.bind_none, Option.getD_none]
    | cons entry aux =>
      obtain ⟨hlen, htime⟩ := n.noTime hstart entry (by simp [haux])
      have hentries := n.entries
      rw [haux, List.forall_mem_cons] at hentries
      rw [getToken_joined (Nat.le_of_succ_le hlen) hentries.1.2]
      simp only [if_neg (Nat.not_lt.mpr hlen), htime,
        addAuxEntries_joined _ hentries.2, addAuxEntry, hempty, hnone, List.nil_append,
        List.singleton_append, Option.bind_none, Option.getD_none]

theorem EvnName.parseElements (n : EvnName parseTime) (fileType : Option (List UInt8)) :
    Realtime.parseElements parseTime { EvnFilename.fresh with fileType }
        (joined underscore
          (n.expName :: n.stationCode :: n.scanName :: (n.startTime.toList ++ n.aux))) =
      { n.parsed with fileType } := by
  obtain ⟨hexp, hexp'⟩ := n.length_expName
  obtain ⟨hscan, hscan'⟩ := n.length_scanName
  rw [Realtime.parseElements, getToken_joined hexp (n.no_underscore _ (by simp))]
  simp only [if_neg (Nat.not_lt.mpr hexp')]
  rw [getToken_joined (Nat.le_of_succ_le n.length_stationCode) (n.no_underscore _ (by simp))]
  simp only [if_neg (Nat.not_lt.mpr n.length_stationCode)]
  rw [getToken_joined hscan (n.no_underscore _ (by simp))]
  simp only [if_neg (Nat.not_lt.mpr hscan')]
  rw [n.parseStartTime _ rfl rfl rfl]
  rfl

theorem EvnName.parseEvnFilename (n : EvnName parseTime) :
    Realtime.parseEvnFilename parseTime n.filename = n.parsed := by
  have htype : getToken n.fileType = some (n.fileType, []) :=
    next_last (List.ne_nil_of_length_pos (Nat.le_of_succ_le n.length_fileType))
      n.no_underscore_fileType
  rw [Realtime.parseEvnFilename, EvnName.filename, cutLast_append n.no_dot]
  simp only [htype, if_neg (Nat.not_lt.mpr n.length_fileType)]
  exact n.parseElements (some n.fileType)

/-- A name gives its parts back, and each entry can be looked up. -/
theorem evn_filename_round_trip (n : EvnName parseTime) :
    parseEvnFilename parseTime n.filename = n.parsed ∧ ∀ key : List UInt8,
      (∀ value, getAuxEntry key (parseEvnFilename parseTime n.filename).auxinfo = some value ↔
        FirstEntry key n.aux value) ∧
      (getAuxEntry key (parseEvnFilename parseTime n.filename).auxinfo = none ↔
        ∀ entry ∈ n.aux, ∀ value, entry ≠ key ++ equalsSign :: value) := by
  have hparsed : parseEvnFilename parseTime n.filename = n.parsed := n.parseEvnFilename
  rw [hparsed]
  exact ⟨rfl, fun key => ⟨getAuxEntry_eq_some_iff key n.aux, getAuxEntry_eq_none_iff key n.aux⟩⟩

def shortTime (token : List UInt8) : Option Nat :=
  if token.head? = some 49 then some token.length else none

/-- `"ab_cd_e_12_k=1_k=2.fg"` -/
def shortName : EvnName shortTime where
  expName := [97, 98]
  stationCode := [99, 100]
  scanName := [101]
  startTime := some [49, 50]
  aux := [[107, 61, 49], [107, 61, 50]]
  fileType := [102, 103]
  length_expName := by decide
  length_stationCode := by decide
  length_scanName := by decide
  length_fileType := by decide
  time := by decide
  noTime := by decide
  aux_ne_nil := by decide
  no_underscore := by decide
  no_underscore_fileType := by decide
  no_dot := by decide

theorem evn_filename_round_trip_short_name :
    parseEvnFilename shortTime shortName.filename = shortName.parsed ∧
      getAuxEntry [107] (parseEvnFilename shortTime shortName.filename).auxinfo = some [49] := by
  obtain ⟨hparsed, hlookup⟩ := evn_filename_round_trip shortName
  exact ⟨hparsed, ((hlookup [107]).1 [49]).mpr
    ⟨[], [[107, 61, 50]], rfl, fun _ h => absurd h List.not_mem_nil⟩⟩

end Tsunami.Realtime
