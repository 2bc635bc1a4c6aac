import Tsunami.Lib.Endian
import Tsunami.Lib.SineTable

/-!
# MD5

The message digest of RFC 1321: the message is padded and its length appended,
and blocks of sixteen words go through four rounds of sixteen operations, after
each of which the four registers change places. The constants are a parameter;
those of the standard are taken from the sines of 1 to 64.
-/

namespace MessageDigest

open Endian

structure Registers where
  a : UInt32
  b : UInt32
  c : UInt32
  d : UInt32
  deriving DecidableEq, Repr

-- ---------------------------------------------------------------------------
-- Padding
-- ---------------------------------------------------------------------------

def zeros (size : Nat) : Nat := (119 - size % 64) % 64

/-- Padding of one bit and zeros to 56 modulo 64, and the length in bits, low
byte first. -/
def padded (message : List UInt8) : List UInt8 :=
  message ++ 0x80 :: (List.replicate (zeros message.length) 0 ++ le 8 (8 * message.length))

def words (block : List UInt8) : List UInt32 :=
  (List.range 16).map fun k => .ofNat (ofLe ((block.drop (4 * k)).take 4))

def block (bytes : List UInt8) (i : Nat) : List UInt32 := words ((bytes.drop (64 * i)).take 64)

-- ---------------------------------------------------------------------------
-- Operations
-- ---------------------------------------------------------------------------

def roundFunction (j : Nat) (x y z : UInt32) : UInt32 :=
  if j < 16 then (x &&& y) ||| (~~~x &&& z)
  else if j < 32 then (x &&& z) ||| (y &&& ~~~z)
  else if j < 48 then x ^^^ y ^^^ z
  else y ^^^ (x ||| ~~~z)

def wordIndex (j : Nat) : Nat :=
  if j < 16 then j
  else if j < 32 then (5 * j + 1) % 16
  else if j < 48 then (3 * j + 5) % 16
  else 7 * j % 16

def shifts : List (List Nat) := [[7, 12, 17, 22], [5, 9, 14, 20], [4, 11, 16, 23], [6, 10, 15, 21]]

def shift (j : Nat) : Nat := (shifts.getD (j / 16) []).getD (j % 4) 0

def rotateLeft (x : UInt32) (s : Nat) : UInt32 := ⟨x.toBitVec.rotateLeft s⟩

/-- Operation `j`, with the registers moved on by one. -/
def operation (T : Nat → UInt32) (X : List UInt32) (r : Registers) (j : Nat) : Registers where
  a := r.d
  b := r.b + rotateLeft (r.a + roundFunction j r.b r.c r.d + X.getD (wordIndex j) 0 + T j) (shift j)
  c := r.b
  d := r.c

def Registers.add (r s : Registers) : Registers := ⟨r.a + s.a, r.b + s.b, r.c + s.c, r.d + s.d⟩

def compress (T : Nat → UInt32) (r : Registers) (X : List UInt32) : Registers :=
  ((List.range 64).foldl (operation T X) r).add r

def initial : Registers := ⟨0x67452301, 0xefcdab89, 0x98badcfe, 0x10325476⟩

def after (T : Nat → UInt32) (bytes : List UInt8) (n : Nat) : Registers :=
  (List.range n).foldl (fun r i => compress T r (block bytes i)) initial

def Registers.bytes (r : Registers) : List UInt8 :=
  le 4 r.a.toNat ++ le 4 r.b.toNat ++ le 4 r.c.toNat ++ le 4 r.d.toNat

def digest (T : Nat → UInt32) (message : List UInt8) : List UInt8 :=
  (after T (padded message) ((padded message).length / 64)).bytes

/-- The constants of the standard: the whole parts of `2 ^ 32` times the sines of
1 to 64, without their signs. -/
noncomputable def sineConstants (j : Nat) : UInt32 := .ofNat (SineTable.sineWord (j + 1))

noncomputable def md5 (message : List UInt8) : List UInt8 := digest sineConstants message

-- ---------------------------------------------------------------------------
-- Laws
-- ---------------------------------------------------------------------------

theorem compress_congr {T T' : Nat → UInt32} (h : ∀ j < 64, T j = T' j) :
    compress T = compress T' := by
  funext r X
  have hrounds : (List.range 64).foldl (operation T X) r =
      (List.range 64).foldl (operation T' X) r :=
    List.foldl_ext _ _ _ fun s j hj => by
      rw [operation, operation, h j (List.mem_range.mp hj)]
  rw [compress, compress, hrounds]

theorem after_congr {T T' : Nat → UInt32} (h : ∀ j < 64, T j = T' j) : after T = after T' := by
  funext bytes n
  rw [after, after, compress_congr h]

theorem digest_congr {T T' : Nat → UInt32} (h : ∀ j < 64, T j = T' j) :
    digest T = digest T' := by
  funext message
  rw [digest, digest, after_congr h]

theorem after_succ (T : Nat → UInt32) (bytes : List UInt8) (n : Nat) :
    after T bytes (n + 1) = compress T (after T bytes n) (block bytes n) := by
  rw [after, List.range_succ, List.foldl_append]
  rfl

theorem length_padded (message : List UInt8) :
    (padded message).length / 64 =
      message.length / 64 + if message.length % 64 < 56 then 1 else 2 := by
  have hdiv := Nat.div_add_mod message.length 64
  rw [padded, zeros]
  simp only [List.length_append, List.length_cons, List.length_replicate, length_le]
  split <;> omega

@[simp] theorem length_words (bytes : List UInt8) : (words bytes).length = 16 := by
  simp [words]

theorem le_inj (hx : x < 256 ^ n) (hy : y < 256 ^ n) (h : le n x = le n y) : x = y := by
  rw [← Nat.mod_eq_of_lt hx, ← Nat.mod_eq_of_lt hy, ← ofLe_le, ← ofLe_le, h]

theorem bytes_inj {r s : Registers} : r.bytes = s.bytes ↔ r = s := by
  refine ⟨fun h => ?_, congrArg _⟩
  have hword : ∀ x y : UInt32, le 4 x.toNat = le 4 y.toNat → x = y := fun x y h =>
    UInt32.toNat_inj.mp (le_inj x.toNat_lt y.toNat_lt h)
  rw [Registers.bytes, Registers.bytes] at h
  obtain ⟨h, hd⟩ := List.append_inj' h (by simp)
  obtain ⟨h, hc⟩ := List.append_inj' h (by simp)
  obtain ⟨ha, hb⟩ := List.append_inj' h (by simp)
  cases r
  cases s
  simp_all only [Registers.mk.injEq]
  exact ⟨hword _ _ ha, hword _ _ hb, hword _ _ hc, hword _ _ hd⟩

end MessageDigest
