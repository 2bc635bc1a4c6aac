import Tsunami.Lib.Endian

/-!
# The message digest

`md5_digest` of `md5.c`, as it is built for a little-endian machine.
-/

namespace Tsunami.Md5

open Endian

def rotate (x bits : UInt32) : UInt32 := (x <<< bits) ||| (x >>> (32 - bits))

def T : List UInt32 :=
  [0xd76aa478, 0xe8c7b756, 0x242070db, 0xc1bdceee,
   0xf57c0faf, 0x4787c62a, 0xa8304613, 0xfd469501,
   0x698098d8, 0x8b44f7af, 0xffff5bb1, 0x895cd7be,
   0x6b901122, 0xfd987193, 0xa679438e, 0x49b40821,
   0xf61e2562, 0xc040b340, 0x265e5a51, 0xe9b6c7aa,
   0xd62f105d, 0x02441453, 0xd8a1e681, 0xe7d3fbc8,
   0x21e1cde6, 0xc33707d6, 0xf4d50d87, 0x455a14ed,
   0xa9e3e905, 0xfcefa3f8, 0x676f02d9, 0x8d2a4c8a,
   0xfffa3942, 0x8771f681, 0x6d9d6122, 0xfde5380c,
   0xa4beea44, 0x4bdecfa9, 0xf6bb4b60, 0xbebfbc70,
   0x289b7ec6, 0xeaa127fa, 0xd4ef3085, 0x04881d05,
   0xd9d4d039, 0xe6db99e5, 0x1fa27cf8, 0xc4ac5665,
   0xf4292244, 0x432aff97, 0xab9423a7, 0xfc93a039,
   0x655b59c3, 0x8f0ccc92, 0xffeff47d, 0x85845dd1,
   0x6fa87e4f, 0xfe2ce6e0, 0xa3014314, 0x4e0811a1,
   0xf7537e82, 0xbd3af235, 0x2ad7d2bb, 0xeb86d391]

def pad : List UInt8 := 0x80 :: List.replicate 63 0

/-- For each of the 64 operations the word of the block and the rotation. -/
def md5Table : List (Nat × UInt32) :=
  [(0, 7), (1, 12), (2, 17), (3, 22), (4, 7), (5, 12), (6, 17), (7, 22),
   (8, 7), (9, 12), (10, 17), (11, 22), (12, 7), (13, 12), (14, 17), (15, 22),
   (1, 5), (6, 9), (11, 14), (0, 20), (5, 5), (10, 9), (15, 14), (4, 20),
   (9, 5), (14, 9), (3, 14), (8, 20), (13, 5), (2, 9), (7, 14), (12, 20),
   (5, 4), (8, 11), (11, 16), (14, 23), (1, 4), (4, 11), (7, 16), (10, 23),
   (13, 4), (0, 11), (3, 16), (6, 23), (9, 4), (12, 11), (15, 16), (2, 23),
   (0, 6), (7, 10), (14, 15), (5, 21), (12, 6), (3, 10), (10, 15), (1, 21),
   (8, 6), (15, 10), (6, 15), (13, 21), (4, 6), (11, 10), (2, 15), (9, 21)]

def md5F (x y z : UInt32) : UInt32 := (x &&& y) ||| (~~~x &&& z)

def md5G (x y z : UInt32) : UInt32 := (x &&& z) ||| (y &&& ~~~z)

def md5H (x y z : UInt32) : UInt32 := x ^^^ y ^^^ z

def md5I (x y z : UInt32) : UInt32 := y ^^^ (x ||| ~~~z)

def md5Dispatch : Nat → UInt32 → UInt32 → UInt32 → UInt32
  | 0 => md5F
  | 1 => md5G
  | 2 => md5H
  | _ => md5I

def words (bytes : List UInt8) : List UInt32 :=
  (List.range 16).map fun k => .ofNat (ByteOrder.little.load ((bytes.drop (4 * k)).take 4))

def loadBlock (buffer : List UInt8) (blocks i : Nat) : List UInt32 :=
  let size := buffer.length
  let block := (buffer.drop (64 * i)).take 64
  let padded := (buffer.drop (64 * i)).take (size % 64) ++ pad.take (64 - size % 64)
  if i + 1 < blocks then words block
  else if i + 1 = blocks then
    if 64 * (i + 1) > size then words padded else words block
  else
    let X := if 64 * i > size then words (List.replicate 64 0) else words padded
    (X.set 14 (.ofNat (size * 8))).set 15 0

/-- Operation `j`. The four words of the state change places from one to the
next. -/
def operate (X state : List UInt32) (j : Nat) : List UInt32 :=
  let word k := state.getD ((4 - j % 4 + k) % 4) 0
  let entry := md5Table.getD j (0, 0)
  let func := md5Dispatch (j / 16) (word 1) (word 2) (word 3)
  let sum := word 0 + func + X.getD entry.1 0 + T.getD j 0
  state.set ((4 - j % 4) % 4) (word 1 + rotate sum entry.2)

def compute (X state : List UInt32) : List UInt32 :=
  List.zipWith (· + ·) ((List.range 64).foldl (operate X) state) state

def initialState : List UInt32 := [0x67452301, 0xefcdab89, 0x98badcfe, 0x10325476]

def finalState (buffer : List UInt8) : List UInt32 :=
  let blocks := buffer.length / 64 + if buffer.length % 64 > 56 then 1 else 0
  (List.range (blocks + 1)).foldl
    (fun state i => compute (loadBlock buffer blocks i) state) initialState

def md5Digest (buffer : List UInt8) : List UInt8 :=
  (finalState buffer).flatMap fun word => ByteOrder.little.store 4 word.toNat

-- ---------------------------------------------------------------------------
-- The length of a digest
-- ---------------------------------------------------------------------------

theorem length_operations (X state : List UInt32) (js : List Nat) :
    (js.foldl (operate X) state).length = state.length := by
  induction js generalizing state with
  | nil => rfl
  | cons j js ih => rw [List.foldl_cons, ih, operate, List.length_set]

theorem length_compute (X state : List UInt32) : (compute X state).length = state.length := by
  rw [compute, List.length_zipWith, length_operations, Nat.min_self]

theorem length_finalState (buffer : List UInt8) : (finalState buffer).length = 4 := by
  have hloop : ∀ (is : List Nat) (f : Nat → List UInt32) (state : List UInt32),
      (is.foldl (fun state i => compute (f i) state) state).length = state.length := by
    intro is f
    induction is with
    | nil => exact fun _ => rfl
    | cons i is ih =>
      intro state
      rw [List.foldl_cons, ih, length_compute]
  exact hloop _ _ _

theorem length_md5Digest (buffer : List UInt8) : (md5Digest buffer).length = 16 := by
  have hwords : ∀ ws : List UInt32,
      (ws.flatMap fun word => ByteOrder.little.store 4 word.toNat).length = 4 * ws.length := by
    intro ws
    induction ws with
    | nil => rfl
    | cons w ws ih =>
      rw [List.flatMap_cons, List.length_append, length_store, ih, List.length_cons]
      omega
  rw [md5Digest, hwords, length_finalState]

end Tsunami.Md5
