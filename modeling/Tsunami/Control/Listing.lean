import Tsunami.Common
import Tsunami.Lib.Duplex

/-!
# Fields and lists on the control channel

The kinds of field the two ends exchange, `read_line` and `fread_line`, and
the list of file names behind `get *` and `dir`: the files named on the
server's command line, or what its `allhook` program prints.
-/

namespace Tsunami.Control

open Bytes Duplex

inductive Field
  | fileName
  | parameters
  | port
  | record
  | acknowledgement
  | reply
  deriving DecidableEq, Repr

variable {σ : Type}

def text (s : String) : List UInt8 := s.toList.map fun c => .ofNat c.toNat

def endsLine (b : UInt8) : Bool := b = 0 ∨ b = 10

/-- `read_line` and `fread_line`. -/
def readLine (k : Field) (bufferLength : Nat) (f : List UInt8 → Script Field σ) : Script Field σ :=
  .readTo k endsLine (bufferLength - 1) f

def readLines (k : Field) (bufferLength : Nat) :
    Nat → (List (List UInt8) → Script Field σ) → Script Field σ
  | 0, f => f []
  | n + 1, f => readLine k bufferLength fun line =>
      readLines k bufferLength n fun lines => f (line :: lines)

def cstrings (names : List (List UInt8)) : List UInt8 := names.flatMap (· ++ [0])

def listSize (names : List (List UInt8)) : Nat := (cstrings names).length

/-- `snprintf(field, 10, "%u", n)` into ten cleared bytes. -/
def sizeField (n : Nat) : List UInt8 :=
  (decimal n).take 9 ++ List.replicate (10 - ((decimal n).take 9).length) 0

/-- `sscanf(field, "%u", ..)`, of a field that starts with a digit. -/
def scanField (field : List UInt8) : Nat := u32 (ofDecimal field)

-- ---------------------------------------------------------------------------
-- The files of the command line
-- ---------------------------------------------------------------------------

/-- A file named on the command line: a C string, and the size from `stat`. -/
structure SharedFile where
  name : List UInt8
  size : Nat
  cstring : (0 : UInt8) ∉ name

-- ---------------------------------------------------------------------------
-- The output of `allhook`
-- ---------------------------------------------------------------------------

/-- What `fgets(message, 20, p)` returns, call after call: up to 19 bytes, or
up to and with a newline. -/
def fgets : List UInt8 → List UInt8 → List (List UInt8)
  | [], line => if line = [] then [] else [line]
  | b :: bs, line =>
    if b = 10 ∨ line.length + 1 = 19 then (line ++ [b]) :: fgets bs [] else fgets bs (line ++ [b])

/-- Up to the first byte below `' '`, as a signed `char`. -/
def printable (message : List UInt8) : List UInt8 := message.takeWhile fun b => 32 ≤ b ∧ b < 128

def maxFileListLength : Nat := 32768

/-- The messages that go into `fileList`, of which `length` bytes are used. -/
def fillList : List (List UInt8) → Nat → List (List UInt8)
  | [], _ => []
  | message :: rest, length =>
    if (printable message).length + length ≥ maxFileListLength then []
    else printable message :: fillList rest (length + ((printable message).length + 1))

def hookNames (printed : List UInt8) : List (List UInt8) := fillList (fgets printed []) 0

-- ---------------------------------------------------------------------------
-- Laws
-- ---------------------------------------------------------------------------

structure IsLine (name : List UInt8) : Prop where
  plain : ∀ b ∈ name, endsLine b = false
  short : name.length < 1024

theorem isLine_of_all (h : name.all (fun b => !endsLine b) = true) (hn : name.length < 1024) :
    IsLine name :=
  ⟨fun b hb => by simpa using List.all_eq_true.mp h b hb, hn⟩

structure FitsLine (n : Nat) (line : List UInt8) : Prop where
  plain : ∀ b ∈ line, endsLine b = false
  short : line.length < n

theorem IsLine.fits (h : IsLine line) (hn : 1024 ≤ n) : FitsLine n line :=
  ⟨h.plain, Nat.lt_of_lt_of_le h.short hn⟩

theorem yields_readLines {P : σ → Prop} {f : List (List UInt8) → Script Field σ} (hn : 0 < n)
    (h : ∀ lines, lines.length = m → (∀ line ∈ lines, FitsLine n line) → (f lines).Yields P) :
    (readLines k n m f).Yields P := by
  induction m generalizing f with
  | zero => exact h [] rfl (by simp)
  | succ m ih =>
    refine Script.Yields.readTo fun line hplain hlen => ih fun lines hcount hlines => ?_
    have hline : FitsLine n line := ⟨hplain, by omega⟩
    exact h (line :: lines) (congrArg (· + 1) hcount) (List.forall_mem_cons.mpr ⟨hline, hlines⟩)

@[simp] theorem listSize_nil : listSize [] = 0 := rfl

theorem listSize_cons (name : List UInt8) (names : List (List UInt8)) :
    listSize (name :: names) = name.length + 1 + listSize names := by
  simp only [listSize, cstrings, List.flatMap_cons, List.length_append, List.length_singleton]

theorem length_le_listSize (names : List (List UInt8)) : names.length ≤ listSize names := by
  induction names with
  | nil => exact Nat.le_refl 0
  | cons name names ih =>
    rw [listSize_cons, List.length_cons]
    omega

theorem fillList_size (messages : List (List UInt8)) (h : length ≤ maxFileListLength) :
    length + listSize (fillList messages length) ≤ maxFileListLength := by
  induction messages generalizing length with
  | nil => exact h
  | cons message rest ih =>
    unfold fillList
    split
    · exact h
    · rename_i hfits
      have hroom : length + ((printable message).length + 1) ≤ maxFileListLength := by omega
      have := ih hroom
      rw [listSize_cons]
      omega

theorem hookNames_size (printed : List UInt8) :
    listSize (hookNames printed) ≤ maxFileListLength := by
  have := fillList_size (fgets printed []) (Nat.zero_le _)
  rwa [Nat.zero_add] at this

theorem mem_fillList (h : name ∈ fillList messages length) :
    ∃ message ∈ messages, name = printable message := by
  induction messages generalizing length with
  | nil => simp [fillList] at h
  | cons message rest ih =>
    unfold fillList at h
    split at h
    · simp at h
    · rcases List.mem_cons.mp h with rfl | h
      · exact ⟨message, by simp, rfl⟩
      · obtain ⟨m, hm, hn⟩ := ih h
        exact ⟨m, by simp [hm], hn⟩

theorem length_fgets (hl : line.length < 19) (h : message ∈ fgets bs line) :
    message.length ≤ 19 := by
  induction bs generalizing line with
  | nil =>
    unfold fgets at h
    split at h
    · simp at h
    · rw [List.mem_singleton.mp h]
      omega
  | cons b bs ih =>
    unfold fgets at h
    split at h
    · rcases List.mem_cons.mp h with rfl | h
      · rw [List.length_append, List.length_singleton]
        exact hl
      · exact ih (by decide) h
    · rename_i hne
      refine ih ?_ h
      rw [List.length_append, List.length_singleton]
      omega

theorem printable_plain (hb : b ∈ printable message) : endsLine b = false := by
  have h := List.all_eq_true.mp List.all_takeWhile b hb
  simp only [Bool.decide_and, Bool.and_eq_true, decide_eq_true_eq] at h
  have hne : b ≠ 0 ∧ b ≠ 10 := by
    constructor <;> rintro rfl <;> exact absurd h.1 (by decide)
  simp [endsLine, hne]

theorem hookNames_line (h : name ∈ hookNames printed) : IsLine name := by
  obtain ⟨message, hm, rfl⟩ := mem_fillList h
  refine ⟨fun b => printable_plain, ?_⟩
  have hle : (printable message).length ≤ message.length := (List.takeWhile_prefix _).length_le
  have := length_fgets (by decide) hm
  omega

@[simp] theorem length_sizeField (n : Nat) : (sizeField n).length = 10 := by
  have : ((decimal n).take 9).length ≤ 9 := List.length_take_le 9 _
  rw [sizeField, List.length_append, List.length_replicate]
  omega

theorem scan_sizeField (h : n < 10 ^ 9) : scanField (sizeField n) = n := by
  have hlen : (decimal n).length ≤ 9 := length_decimal_le (by decide) h
  have hrest :
      ∀ b ∈ (List.replicate (10 - (decimal n).length) (0 : UInt8)).head?, isDigit b = false := by
    intro b hb
    have := List.mem_replicate.mp (List.mem_of_mem_head? hb)
    rw [this.2]
    rfl
  rw [scanField, sizeField, List.take_of_length_le hlen, ofDecimal_decimal n hrest]
  exact u32_of_lt (by omega)

-- ---------------------------------------------------------------------------
-- Runs
-- ---------------------------------------------------------------------------

section
variable {b : σ → Script Field σ}

theorem does_readLine (k : Field) (hline : IsLine name) (he : endsLine e = true)
    (hlen : 1024 ≤ bufferLength) (f : List UInt8 → Script Field σ) :
    Does b ⟨readLine k bufferLength f, (name ++ [e]).map (k, ·) ++ i, t⟩ ⟨f name, i, t⟩ [] := by
  have hshort := hline.short
  exact does_readTo k hline.plain he (by omega) f

theorem does_readLine_all (k : Field) (hline : IsLine name) (he : endsLine e = true)
    (hlen : 1024 ≤ bufferLength) (f : List UInt8 → Script Field σ) :
    Does b ⟨readLine k bufferLength f, (name ++ [e]).map (k, ·), t⟩ ⟨f name, [], t⟩ [] := by
  have := does_readLine (b := b) (i := []) (t := t) k hline he hlen f
  rwa [List.append_nil] at this

theorem does_readLines_fit (k : Field) (hlines : ∀ line ∈ lines, FitsLine bufferLength line)
    (hn : lines.length = n) (f : List (List UInt8) → Script Field σ) :
    Does b ⟨readLines k bufferLength n f, (cstrings lines).map (k, ·) ++ i, t⟩
      ⟨f lines, i, t⟩ [] := by
  subst hn
  induction lines generalizing f with
  | nil => exact .refl
  | cons line lines ih =>
    have hline := hlines line (List.mem_cons_self ..)
    have hread := does_readTo (b := b) (e := 0) (i := (cstrings lines).map (k, ·) ++ i) (t := t) k
      hline.plain rfl (Nat.le_sub_one_of_lt hline.short)
      fun line => readLines k bufferLength lines.length fun lines => f (line :: lines)
    have hbytes : (cstrings (line :: lines)).map (k, ·) ++ i =
        (line ++ [0]).map (k, ·) ++ ((cstrings lines).map (k, ·) ++ i) := by
      simp [cstrings]
    rw [hbytes]
    exact hread.trans (ih (fun m hm => hlines m (List.mem_cons_of_mem _ hm)) fun lines =>
      f (line :: lines))

theorem does_readLines (k : Field) (hlines : ∀ name ∈ names, IsLine name)
    (hlen : 1024 ≤ bufferLength) (hn : names.length = n) (f : List (List UInt8) → Script Field σ) :
    Does b ⟨readLines k bufferLength n f, (cstrings names).map (k, ·) ++ i, t⟩ ⟨f names, i, t⟩ [] :=
  does_readLines_fit k (fun name hname => (hlines name hname).fits hlen) hn f

theorem does_readLines_any (k : Field) {i : List (Field × UInt8)} (hn : n ≤ lineEnds endsLine i)
    (f : List (List UInt8) → Script Field σ) :
    ∃ lines rest t', lines.length = n ∧
      Does b ⟨readLines k bufferLength n f, i, t⟩ ⟨f lines, rest, t'⟩ [] := by
  induction n generalizing i f t with
  | zero => exact ⟨[], i, t, rfl, .refl⟩
  | succ n ih =>
    obtain ⟨line, rest, t₁, hrest, hdoes⟩ :=
      does_readTo_any (b := b) (n := bufferLength - 1) (t := t) k hn
      fun line => readLines k bufferLength n fun lines => f (line :: lines)
    obtain ⟨lines, rest', t₂, hlen, hmore⟩ := ih (t := t₁) hrest fun lines => f (line :: lines)
    exact ⟨line :: lines, rest', t₂, by rw [List.length_cons, hlen], hdoes.trans hmore⟩

end

theorem lineEnds_cstrings (k : Field) (names : List (List UInt8)) :
    names.length ≤ lineEnds endsLine ((cstrings names).map (k, ·)) := by
  induction names with
  | nil => exact Nat.zero_le _
  | cons name names ih =>
    have hsplit : (cstrings (name :: names)).map (k, ·) =
        name.map (k, ·) ++ ((k, 0) :: (cstrings names).map (k, ·)) := by
      simp [cstrings]
    have hzero : endsLine 0 = true := rfl
    rw [hsplit, lineEnds, List.countP_append, List.countP_cons, List.length_cons]
    simp only [lineEnds, hzero, ↓reduceIte] at ih ⊢
    omega

end Tsunami.Control
