import Tsunami.Control.FileLists
import Tsunami.Lib.Numerals

/-!
# Setting a parameter

`command_set` with a field and a value, and `parse_fraction`. The value goes
through a conversion to `int` or `long`, and from there into the 16 or 32 bits of
the field.
-/

namespace Tsunami.Client

open Bytes
open Control (text atol atol_digits)

def screenMode : Nat := 0
def lineMode : Nat := 1

/-- `ttp_parameter_t`, but for the pointer to the ring. -/
structure TtpParameter where
  serverName : List UInt8
  serverPort : Nat
  clientPort : Nat
  udpBuffer : Nat
  verboseYn : Bool
  transcriptYn : Bool
  ipv6Yn : Bool
  outputMode : Nat
  blockSize : Nat
  targetRate : Nat
  rateAdjust : Bool
  errorRate : Nat
  slowerNum : Nat
  slowerDen : Nat
  fasterNum : Nat
  fasterDen : Nat
  history : Nat
  lossless : Bool
  losswindowMs : Nat
  blockdump : Bool
  passphrase : Option (List UInt8)
  deriving DecidableEq, Repr

def u16 (n : Nat) : Nat := n % 2 ^ 16

/-- `atoi`: the lower half of what `strtol` gives. -/
def atoi (s : List UInt8) : Nat := u32 (atol s)

def toupper (b : UInt8) : UInt8 := if 97 ≤ b ∧ b ≤ 122 then b - 32 else b

def sameWord (a b : List UInt8) : Bool := a.map toupper = b.map toupper

/-- `parse_fraction`, none where there is no `'/'`. -/
def parseFraction (fraction : List UInt8) : Option (Nat × Nat) :=
  match fraction.dropWhile (· ≠ 47) with
  | [] => none
  | _ :: den => some (u16 (atoi fraction), u16 (atoi den))

/-- The value of `rate`, in the 64 bits of a `long`, none where the text does not
fit `cpy`. -/
def parseRate (cmd : List UInt8) : Option Nat :=
  let l := cmd.length
  if 256 ≤ l then none
  else if 1 < l ∧ cmd.getLast?.map toupper = some 77 then
    some (1000000 * atol cmd.dropLast % 2 ^ 64)
  else if 1 < l ∧ cmd.getLast?.map toupper = some 71 then
    some (1000000000 * atol cmd.dropLast % 2 ^ 64)
  else some (atol cmd)

/-- Field by field, what is done with the value. `atof` stands for the conversion
of an error rate in percent. -/
def setters (atof : List UInt8 → Nat) :
    List (List UInt8 × (List UInt8 → TtpParameter → Option TtpParameter)) :=
  [(text "server", fun v p => some { p with serverName := v }),
   (text "port", fun v p => some { p with serverPort := u16 (atoi v) }),
   (text "udpport", fun v p => some { p with clientPort := u16 (atoi v) }),
   (text "buffer", fun v p => some { p with udpBuffer := u32 (atol v) }),
   (text "blocksize", fun v p => some { p with blockSize := u32 (atol v) }),
   (text "verbose", fun v p => some { p with verboseYn := v = text "yes" }),
   (text "transcript", fun v p => some { p with transcriptYn := v = text "yes" }),
   (text "ip", fun v p => some { p with ipv6Yn := v = text "v6" }),
   (text "output", fun v p =>
      some { p with outputMode := if v = text "screen" then screenMode else lineMode }),
   (text "rateadjust", fun v p => some { p with rateAdjust := v = text "yes" }),
   (text "rate", fun v p => (parseRate v).map fun rate => { p with targetRate := u32 rate }),
   (text "error", fun v p => some { p with errorRate := atof v }),
   (text "slowdown", fun v p =>
      match parseFraction v with
      | some (num, den) => some { p with slowerNum := num, slowerDen := den }
      | none => some p),
   (text "speedup", fun v p =>
      match parseFraction v with
      | some (num, den) => some { p with fasterNum := num, fasterDen := den }
      | none => some p),
   (text "history", fun v p => some { p with history := u16 (atoi v) }),
   (text "lossless", fun v p => some { p with lossless := v = text "yes" }),
   (text "losswindow", fun v p => some { p with losswindowMs := u32 (atol v) }),
   (text "blockdump", fun v p => some { p with blockdump := v = text "yes" }),
   (text "passphrase", fun v p => some { p with passphrase := some v })]

/-- `command_set`, but for what it prints: the parameters afterwards and what it
returns, none if it writes past the end of `cpy`. -/
def commandSet (atof : List UInt8 → Nat) (command : List (List UInt8)) (p : TtpParameter) :
    Option (TtpParameter × Nat) :=
  match command with
  | [_, field, value] =>
    match (setters atof).find? fun setter => sameWord field setter.1 with
    | some (_, set) => (set value p).map fun p => (p, 0)
    | none => some (p, 0)
  | _ => some (p, 0)

-- ---------------------------------------------------------------------------
-- Numeric fields
-- ---------------------------------------------------------------------------

inductive NumericField
  | port
  | udpport
  | buffer
  | blocksize
  | rate
  | slowdown
  | speedup
  | history
  | losswindow
  deriving DecidableEq, Repr

namespace NumericField

def name : NumericField → List UInt8
  | port => text "port"
  | udpport => text "udpport"
  | buffer => text "buffer"
  | blocksize => text "blocksize"
  | rate => text "rate"
  | slowdown => text "slowdown"
  | speedup => text "speedup"
  | history => text "history"
  | losswindow => text "losswindow"

def get (p : TtpParameter) : NumericField → List Nat
  | port => [p.serverPort]
  | udpport => [p.clientPort]
  | buffer => [p.udpBuffer]
  | blocksize => [p.blockSize]
  | rate => [p.targetRate]
  | slowdown => [p.slowerNum, p.slowerDen]
  | speedup => [p.fasterNum, p.fasterDen]
  | history => [p.history]
  | losswindow => [p.losswindowMs]

def limit : NumericField → Nat
  | port | udpport | slowdown | speedup | history => 2 ^ 16
  | buffer | blocksize | rate | losswindow => 2 ^ 32

def suffixes : List (List UInt8 × Nat) :=
  [([], 1), (text "M", 1000000), (text "m", 1000000), (text "G", 1000000000),
   (text "g", 1000000000)]

def Denotes : NumericField → List UInt8 → List Nat → Prop
  | rate, value, ns => ∃ digits n, ∃ suffix ∈ suffixes, Numeral digits n ∧
      value = digits ++ suffix.1 ∧ ns = [n * suffix.2]
  | slowdown, value, ns | speedup, value, ns => ∃ num den n d, Numeral num n ∧ Numeral den d ∧
      value = num ++ 47 :: den ∧ ns = [n, d]
  | _, value, ns => ∃ n, Numeral value n ∧ ns = [n]

def Fits (f : NumericField) (ns : List Nat) : Prop := ∀ n ∈ ns, n < f.limit

instance (f : NumericField) (ns : List Nat) : Decidable (f.Fits ns) :=
  inferInstanceAs (Decidable (∀ n ∈ ns, n < f.limit))

end NumericField

/-- The field holds the numbers it was given, or they do not fit, nothing has
changed and the command says so. -/
def SetOrRefused (f : NumericField) (ns : List Nat) (p : TtpParameter) :
    Option (TtpParameter × Nat) → Prop
  | none => False
  | some (p', status) => f.get p' = ns ∨ ¬f.Fits ns ∧ p' = p ∧ status ≠ 0

-- ---------------------------------------------------------------------------
-- Conversions
-- ---------------------------------------------------------------------------

variable {value field : List UInt8} {ns : List Nat} {p : TtpParameter}

theorem atol_numeral (h : Numeral value n) (rest : List UInt8)
    (hrest : ∀ b ∈ rest.head?, isDigit b = false) :
    atol (value ++ rest) = min n (2 ^ 63 - 1) := by
  have hread := h.ofDecimal_append rest hrest
  obtain ⟨d, ds, rfl, hd⟩ := h.cons
  rw [List.cons_append] at hread ⊢
  rw [atol_digits hd, hread]

theorem u32_atol (h : Numeral value n) (hn : n < 2 ^ 32) : u32 (atol value) = n := by
  have hread := atol_numeral h [] (by simp)
  rw [List.append_nil] at hread
  rw [hread, u32]
  omega

theorem u16_atoi (h : Numeral value n) (rest : List UInt8)
    (hrest : ∀ b ∈ rest.head?, isDigit b = false)
    (hn : n < 2 ^ 16) : u16 (atoi (value ++ rest)) = n := by
  rw [atoi, atol_numeral h rest hrest, u16, u32]
  omega

theorem u16_lt (n : Nat) : u16 n < 2 ^ 16 := Nat.mod_lt _ (by decide)

theorem parseFraction_numerals (hnum : Numeral num n) (hden : Numeral den d) :
    ∃ n' d', parseFraction (num ++ 47 :: den) = some (n', d') ∧ n' < 2 ^ 16 ∧ d' < 2 ^ 16 ∧
      (n < 2 ^ 16 → d < 2 ^ 16 → n' = n ∧ d' = d) := by
  have hdrop : (num ++ 47 :: den).dropWhile (· ≠ 47) = 47 :: den := by
    have hskip : ∀ b ∈ num, decide (b ≠ 47) = true := fun b hb =>
      decide_eq_true (Control.digit_ne (hnum.all b hb) rfl)
    rw [List.dropWhile_append_of_pos hskip]
    simp
  have hstop : ∀ b ∈ (47 :: den).head?, isDigit b = false := by
    rintro b ⟨⟩
    rfl
  refine ⟨u16 (atoi (num ++ 47 :: den)), u16 (atoi den), ?_, u16_lt _, u16_lt _, ?_⟩
  · rw [parseFraction, hdrop]
  · intro hn hd
    have hread := u16_atoi hden [] (by simp) hd
    rw [List.append_nil] at hread
    exact ⟨u16_atoi hnum _ hstop hn, hread⟩

theorem toupper_digit (hd : isDigit d = true) : isDigit (toupper d) = true := by
  have hrange : 48 ≤ d ∧ d ≤ 57 := of_decide_eq_true hd
  have hlow : ¬(97 ≤ d ∧ d ≤ 122) := by
    rintro ⟨hle, -⟩
    exact absurd (UInt8.le_trans hle hrange.2) (by decide)
  rw [toupper, if_neg hlow]
  exact hd

theorem parseRate_digits (h : Numeral value n) (hlen : value.length ≤ 255) :
    parseRate value = some (min n (2 ^ 63 - 1)) := by
  have hread := atol_numeral h [] (by simp)
  rw [List.append_nil] at hread
  have hlast : ∀ c, isDigit c = false → ¬value.getLast?.map toupper = some c := by
    intro c hc hmap
    obtain ⟨d, hd, rfl⟩ := Option.map_eq_some_iff.mp hmap
    rw [toupper_digit (h.all d (List.mem_of_getLast? hd))] at hc
    cases hc
  rw [parseRate, if_neg (by omega), if_neg fun hc => hlast 77 rfl hc.2,
    if_neg fun hc => hlast 71 rfl hc.2, hread]

theorem parseRate_suffix (h : Numeral digits n) (hlen : (digits ++ [c]).length ≤ 255)
    (hsuffix : toupper c = 77 ∧ m = 1000000 ∨ toupper c = 71 ∧ m = 1000000000) :
    parseRate (digits ++ [c]) = some (m * min n (2 ^ 63 - 1) % 2 ^ 64) := by
  have hread := atol_numeral h [] (by simp)
  rw [List.append_nil] at hread
  have hlast : (digits ++ [c]).getLast?.map toupper = some (toupper c) := by simp
  have hlong : 1 < (digits ++ [c]).length := by
    have := List.length_pos_of_ne_nil h.ne_nil
    rw [List.length_append, List.length_singleton]
    omega
  rw [parseRate, if_neg (by omega), hlast, List.dropLast_concat, hread]
  rcases hsuffix with ⟨hc, rfl⟩ | ⟨hc, rfl⟩
  · rw [if_pos ⟨hlong, congrArg some hc⟩]
  · have hne : ¬(1 < (digits ++ [c]).length ∧ some (toupper c) = some 77) := by
      rintro ⟨-, h⟩
      exact absurd (hc.symm.trans (Option.some.inj h)) (by decide)
    rw [if_neg hne, if_pos ⟨hlong, congrArg some hc⟩]

theorem parseRate_denoted (h : Numeral digits n) (hsuffix : suffix ∈ NumericField.suffixes)
    (hlen : (digits ++ suffix.1).length ≤ 255) :
    ∃ rate, parseRate (digits ++ suffix.1) = some rate ∧
      (n * suffix.2 < 2 ^ 32 → u32 rate = n * suffix.2) := by
  have hplain : suffix = ([], 1) ∨ ∃ c m, suffix = ([c], m) ∧
      (toupper c = 77 ∧ m = 1000000 ∨ toupper c = 71 ∧ m = 1000000000) := by
    simp only [NumericField.suffixes, List.mem_cons, List.not_mem_nil, or_false] at hsuffix
    rcases hsuffix with rfl | rfl | rfl | rfl | rfl
    · exact .inl rfl
    · exact .inr ⟨77, 1000000, rfl, .inl ⟨rfl, rfl⟩⟩
    · exact .inr ⟨109, 1000000, rfl, .inl ⟨rfl, rfl⟩⟩
    · exact .inr ⟨71, 1000000000, rfl, .inr ⟨rfl, rfl⟩⟩
    · exact .inr ⟨103, 1000000000, rfl, .inr ⟨rfl, rfl⟩⟩
  rcases hplain with rfl | ⟨c, m, rfl, hm⟩
  · refine ⟨min n (2 ^ 63 - 1), ?_, fun hlt => ?_⟩
    · rw [List.append_nil] at hlen ⊢
      exact parseRate_digits h hlen
    · rw [u32]
      omega
  · refine ⟨_, parseRate_suffix h hlen hm, fun hlt => ?_⟩
    rw [u32]
    rcases hm with ⟨-, rfl⟩ | ⟨-, rfl⟩ <;> omega

-- ---------------------------------------------------------------------------
-- Fields
-- ---------------------------------------------------------------------------

namespace NumericField

def set (value : List UInt8) (p : TtpParameter) : NumericField → Option TtpParameter
  | port => some { p with serverPort := u16 (atoi value) }
  | udpport => some { p with clientPort := u16 (atoi value) }
  | buffer => some { p with udpBuffer := u32 (atol value) }
  | blocksize => some { p with blockSize := u32 (atol value) }
  | rate => (parseRate value).map fun rate => { p with targetRate := u32 rate }
  | slowdown =>
    match parseFraction value with
    | some (num, den) => some { p with slowerNum := num, slowerDen := den }
    | none => some p
  | speedup =>
    match parseFraction value with
    | some (num, den) => some { p with fasterNum := num, fasterDen := den }
    | none => some p
  | history => some { p with history := u16 (atoi value) }
  | losswindow => some { p with losswindowMs := u32 (atol value) }

theorem find_setter (atof : List UInt8 → Nat) (f : NumericField) :
    (setters atof).find? (fun setter => sameWord f.name setter.1) =
      some (f.name, fun value p => f.set value p) := by
  cases f <;> rfl

theorem commandSet_eq (atof : List UInt8 → Nat) (f : NumericField) (hfield : sameWord field f.name)
    (cmd value : List UInt8) (p : TtpParameter) :
    commandSet atof [cmd, field, value] p = (f.set value p).map fun p => (p, 0) := by
  have hpred : (fun setter : List UInt8 × (List UInt8 → TtpParameter → Option TtpParameter) =>
      sameWord field setter.1) = fun setter => sameWord f.name setter.1 := by
    funext setter
    rw [sameWord, of_decide_eq_true hfield]
    rfl
  rw [commandSet, hpred, find_setter]

theorem fits_singleton {f : NumericField} : f.Fits [n] ↔ n < f.limit := List.forall_mem_singleton

theorem fits_pair {f : NumericField} : f.Fits [n, d] ↔ n < f.limit ∧ d < f.limit := by
  simp [Fits]

theorem stored (f : NumericField) (hvalue : f.Denotes value ns) (hlen : value.length ≤ 255)
    (p : TtpParameter) :
    ∃ p', f.set value p = some p' ∧ (f.Fits ns → f.get p' = ns) ∧ f.Fits (f.get p') := by
  have hshort : ∀ n, Numeral value n → n < 2 ^ 16 → u16 (atoi value) = n := by
    intro n hn hlt
    have hread := u16_atoi hn [] (by simp) hlt
    rwa [List.append_nil] at hread
  have hlong : ∀ n, Numeral value n → n < 2 ^ 32 → u32 (atol value) = n := fun n => u32_atol
  cases f with
  | port | udpport | history =>
    obtain ⟨n, hn, rfl⟩ := hvalue
    refine ⟨_, rfl, fun hfits => ?_, fits_singleton.mpr (u16_lt _)⟩
    exact congrArg (fun m => [m]) (hshort n hn (fits_singleton.mp hfits))
  | buffer | blocksize | losswindow =>
    obtain ⟨n, hn, rfl⟩ := hvalue
    refine ⟨_, rfl, fun hfits => ?_, fits_singleton.mpr (u32_lt _)⟩
    exact congrArg (fun m => [m]) (hlong n hn (fits_singleton.mp hfits))
  | rate =>
    obtain ⟨digits, n, suffix, hsuffix, hn, rfl, rfl⟩ := hvalue
    obtain ⟨rate, hrate, hexact⟩ := parseRate_denoted hn hsuffix hlen
    refine ⟨_, by rw [set, hrate]; rfl, fun hfits => ?_, fits_singleton.mpr (u32_lt rate)⟩
    exact congrArg (fun m => [m]) (hexact (fits_singleton.mp hfits))
  | slowdown | speedup =>
    obtain ⟨num, den, n, d, hn, hd, rfl, rfl⟩ := hvalue
    obtain ⟨n', d', hparse, hn', hd', hexact⟩ := parseFraction_numerals hn hd
    refine ⟨_, by rw [set, hparse], fun hfits => ?_, fits_pair.mpr ⟨hn', hd'⟩⟩
    obtain ⟨hn, hd⟩ := fits_pair.mp hfits
    obtain ⟨rfl, rfl⟩ := hexact hn hd
    rfl

end NumericField

/-- A numeric field is set to what it was given, or the command refuses, exactly
for the values that fit. -/
theorem set_or_refused_iff (f : NumericField) (hfield : sameWord field f.name)
    (hvalue : f.Denotes value ns) (hlen : value.length ≤ 255) :
    SetOrRefused f ns p (commandSet atof [cmd, field, value] p) ↔ f.Fits ns := by
  obtain ⟨p', hset, hexact, hstored⟩ := f.stored hvalue hlen p
  have hcommand : commandSet atof [cmd, field, value] p = some (p', 0) := by
    rw [f.commandSet_eq atof hfield, hset]
    rfl
  rw [hcommand]
  constructor
  · rintro (rfl | ⟨-, -, hstatus⟩)
    · exact hstored
    · exact absurd rfl hstatus
  · exact fun hfits => .inl (hexact hfits)

def initialParameter : TtpParameter where
  serverName := text "localhost"
  serverPort := 51038
  clientPort := 51038
  udpBuffer := 20000000
  verboseYn := true
  transcriptYn := false
  ipv6Yn := false
  outputMode := lineMode
  blockSize := 1024
  targetRate := 650000000
  rateAdjust := false
  errorRate := 7500
  slowerNum := 25
  slowerDen := 24
  fasterNum := 5
  fasterDen := 6
  history := 25
  lossless := true
  losswindowMs := 1000
  blockdump := false
  passphrase := none

theorem set_or_refused_iff_rate : SetOrRefused .rate [4000000000] initialParameter
    (commandSet (fun _ => 0) [text "set", text "Rate", decimal 4 ++ text "G"] initialParameter) :=
  (set_or_refused_iff .rate (by decide +kernel)
    ⟨decimal 4, 4, (text "G", 1000000000), by decide +kernel, numeral_decimal 4, rfl, rfl⟩
    (by decide +kernel)).mpr (by decide +kernel)

/-- The port 65536 is stored as 0. -/
theorem port_neither_set_nor_refused :
    ¬SetOrRefused .port [65536] initialParameter
        (commandSet (fun _ => 0) [text "set", text "port", text "65536"] initialParameter) ∧
      commandSet (fun _ => 0) [text "set", text "port", text "65536"] initialParameter =
        some ({ initialParameter with serverPort := 0 }, 0) := by
  have hcommand : commandSet (fun _ => 0) [text "set", text "port", text "65536"]
      initialParameter = some ({ initialParameter with serverPort := 0 }, 0) := by decide +kernel
  refine ⟨?_, hcommand⟩
  rw [hcommand]
  rintro (hport | ⟨-, -, hstatus⟩)
  · exact absurd hport (by decide +kernel)
  · exact absurd rfl hstatus

end Tsunami.Client
