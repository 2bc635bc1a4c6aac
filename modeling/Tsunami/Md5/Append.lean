import Tsunami.Lib.Absorption
import Tsunami.Md5Laws

/-!
# The digest of a message in pieces

The other half of `md5.c`: `md5_init`, `md5_append` and `md5_finish`, on which
`md5_digest` rests on a big-endian machine.
-/

namespace Tsunami.Md5

open Absorption Bytes Endian
open MessageDigest (Registers)

def tMask : UInt32 := ~~~0

/-- The arguments `k`, `s` and `Ti` of the 64 uses of `SET`. -/
def setTable : List (Nat × UInt32 × UInt32) :=
  [(0, 7, tMask ^^^ 0x28955b87), (1, 12, tMask ^^^ 0x173848a9), (2, 17, 0x242070db),
   (3, 22, tMask ^^^ 0x3e423111), (4, 7, tMask ^^^ 0x0a83f050), (5, 12, 0x4787c62a),
   (6, 17, tMask ^^^ 0x57cfb9ec), (7, 22, tMask ^^^ 0x02b96afe), (8, 7, 0x698098d8),
   (9, 12, tMask ^^^ 0x74bb0850), (10, 17, tMask ^^^ 0x0000a44e), (11, 22, tMask ^^^ 0x76a32841),
   (12, 7, 0x6b901122), (13, 12, tMask ^^^ 0x02678e6c), (14, 17, tMask ^^^ 0x5986bc71),
   (15, 22, 0x49b40821),
   (1, 5, tMask ^^^ 0x09e1da9d), (6, 9, tMask ^^^ 0x3fbf4cbf), (11, 14, 0x265e5a51),
   (0, 20, tMask ^^^ 0x16493855), (5, 5, tMask ^^^ 0x29d0efa2), (10, 9, 0x02441453),
   (15, 14, tMask ^^^ 0x275e197e), (4, 20, tMask ^^^ 0x182c0437), (9, 5, 0x21e1cde6),
   (14, 9, tMask ^^^ 0x3cc8f829), (3, 14, tMask ^^^ 0x0b2af278), (8, 20, 0x455a14ed),
   (13, 5, tMask ^^^ 0x561c16fa), (2, 9, tMask ^^^ 0x03105c07), (7, 14, 0x676f02d9),
   (12, 20, tMask ^^^ 0x72d5b375),
   (5, 4, tMask ^^^ 0x0005c6bd), (8, 11, tMask ^^^ 0x788e097e), (11, 16, 0x6d9d6122),
   (14, 23, tMask ^^^ 0x021ac7f3), (1, 4, tMask ^^^ 0x5b4115bb), (4, 11, 0x4bdecfa9),
   (7, 16, tMask ^^^ 0x0944b49f), (10, 23, tMask ^^^ 0x4140438f), (13, 4, 0x289b7ec6),
   (0, 11, tMask ^^^ 0x155ed805), (3, 16, tMask ^^^ 0x2b10cf7a), (6, 23, 0x04881d05),
   (9, 4, tMask ^^^ 0x262b2fc6), (12, 11, tMask ^^^ 0x1924661a), (15, 16, 0x1fa27cf8),
   (2, 23, tMask ^^^ 0x3b53a99a),
   (0, 6, tMask ^^^ 0x0bd6ddbb), (7, 10, 0x432aff97), (14, 15, tMask ^^^ 0x546bdc58),
   (5, 21, tMask ^^^ 0x036c5fc6), (12, 6, 0x655b59c3), (3, 10, tMask ^^^ 0x70f3336d),
   (10, 15, tMask ^^^ 0x00100b82), (1, 21, tMask ^^^ 0x7a7ba22e), (8, 6, 0x6fa87e4f),
   (15, 10, tMask ^^^ 0x01d3191f), (6, 15, tMask ^^^ 0x5cfebceb), (13, 21, 0x4e0811a1),
   (4, 6, tMask ^^^ 0x08ac817d), (11, 10, tMask ^^^ 0x42c50dca), (2, 15, 0x2ad7d2bb),
   (9, 21, tMask ^^^ 0x14792c6e)]

structure Md5State where
  count0 : UInt32
  count1 : UInt32
  abcd : Registers
  buf : List UInt8
  deriving DecidableEq, Repr

/-- `X` of `md5_process`: the memory itself, or its bytes put in order. -/
def loadX (o : ByteOrder) (data : List UInt8) : List UInt32 :=
  (List.range 16).map fun i =>
    let xp := data.drop (4 * i)
    match o with
    | .little => .ofNat (ByteOrder.little.load (xp.take 4))
    | .big => (xp.getD 0 0).toUInt32 + ((xp.getD 1 0).toUInt32 <<< 8) +
        ((xp.getD 2 0).toUInt32 <<< 16) + ((xp.getD 3 0).toUInt32 <<< 24)

/-- `SET(a, b, c, d, k, s, Ti)`. The next one is of the registers moved on by
one, and after four of them they are in place. -/
def set (func : UInt32 → UInt32 → UInt32 → UInt32) (X : List UInt32) (r : Registers)
    (k : Nat) (s Ti : UInt32) : Registers :=
  let t := r.a + func r.b r.c r.d + X.getD k 0 + Ti
  ⟨r.d, rotate t s + r.b, r.b, r.c⟩

/-- `md5_process`. The macros of the four rounds are the functions of the table
of `md5_digest`. -/
def md5Process (o : ByteOrder) (abcd : Registers) (data : List UInt8) : Registers :=
  let X := loadX o data
  let r := (List.range 64).foldl (fun r j =>
    let (k, s, Ti) := setTable.getD j (0, 0, 0)
    set (md5Dispatch (j / 16)) X r k s Ti) abcd
  ⟨abcd.a + r.a, abcd.b + r.b, abcd.c + r.c, abcd.d + r.d⟩

/-- `md5_init`, which leaves the buffer as it is. -/
def md5Init (buf : List UInt8) : Md5State where
  count0 := 0
  count1 := 0
  abcd := ⟨0x67452301, tMask ^^^ 0x10325476, tMask ^^^ 0x67452301, 0x10325476⟩
  buf := buf

/-- The full blocks of what is left, and the final partial one. -/
def md5AppendRest (o : ByteOrder) (s : Md5State) (p : List UInt8) : Md5State :=
  let left := p.length
  let abcd := (List.range (left / 64)).foldl
    (fun abcd i => md5Process o abcd ((p.drop (64 * i)).take 64)) s.abcd
  { s with abcd := abcd, buf := blit s.buf 0 (p.drop (64 * (left / 64))) }

/-- `md5_append`, of less than `2 ^ 28` bytes: their number in bits is an `int`. -/
def md5Append (o : ByteOrder) (s : Md5State) (data : List UInt8) : Md5State :=
  let nbytes := data.length
  let offset := ((s.count0 >>> 3) &&& 63).toNat
  let nbits := UInt32.ofNat (nbytes <<< 3)
  if nbytes = 0 then s
  else
    let count1 := s.count1 + .ofNat (nbytes >>> 29)
    let count0 := s.count0 + nbits
    let count1 := if count0 < nbits then count1 + 1 else count1
    let s := { s with count0 := count0, count1 := count1 }
    if offset ≠ 0 then
      let copy := if offset + nbytes > 64 then 64 - offset else nbytes
      let buf := blit s.buf offset (data.take copy)
      if offset + copy < 64 then { s with buf := buf }
      else md5AppendRest o { s with abcd := md5Process o s.abcd buf, buf := buf } (data.drop copy)
    else md5AppendRest o s data

def md5Finish (o : ByteOrder) (s : Md5State) : List UInt8 :=
  let count (i : Nat) := if i / 4 = 0 then s.count0 else s.count1
  let data := (List.range 8).map fun i => (count i >>> .ofNat (i % 4 * 8)).toUInt8
  let left := ((55 : UInt32) - (s.count0 >>> 3)) &&& 63
  let s := md5Append o s (pad.take (left.toNat + 1))
  let s := md5Append o s data
  let abcd (i : Nat) := [s.abcd.a, s.abcd.b, s.abcd.c, s.abcd.d].getD (i / 4) 0
  (List.range 16).map fun i => (abcd i >>> .ofNat (i % 4 * 8)).toUInt8

-- ---------------------------------------------------------------------------
-- One block
-- ---------------------------------------------------------------------------

variable {message data : List UInt8} {s : Md5State}

theorem loadX_eq (o : ByteOrder) (h : data.length = 64) :
    loadX o data = MessageDigest.words data := by
  cases o with
  | little => rfl
  | big =>
    refine List.map_congr_left fun i hi => ?_
    have hi : i < 16 := List.mem_range.mp hi
    have hlen : 4 ≤ (data.drop (4 * i)).length := by
      rw [List.length_drop]
      omega
    generalize data.drop (4 * i) = xp at hlen
    match xp, hlen with
    | p :: q :: r :: t :: _, _ =>
      have hp := p.toNat_lt
      have hq := q.toNat_lt
      have hr := r.toNat_lt
      have ht := t.toNat_lt
      apply UInt32.toNat_inj.mp
      simp [ofLe, Nat.ofDigits_cons, Nat.shiftLeft_eq]
      omega

theorem setTable_eq : ∀ j < 64,
    setTable.getD j (0, 0, 0) =
      (MessageDigest.wordIndex j, .ofNat (MessageDigest.shift j), constants j) := by
  decide +kernel

theorem set_eq (X : List UInt32) (r : Registers) (hj : j < 64) :
    set (md5Dispatch (j / 16)) X r (MessageDigest.wordIndex j) (.ofNat (MessageDigest.shift j))
      (constants j) = MessageDigest.operation constants X r j := by
  rw [set, MessageDigest.operation, md5Dispatch_eq hj, rotate_eq _ (shift_range j hj),
    UInt32.add_comm r.b]

theorem md5Process_eq (o : ByteOrder) (r : Registers) (h : data.length = 64) :
    md5Process o r data = MessageDigest.compress constants r (MessageDigest.words data) := by
  have hrounds : (List.range 64).foldl (fun r j =>
      let (k, s, Ti) := setTable.getD j (0, 0, 0)
      set (md5Dispatch (j / 16)) (loadX o data) r k s Ti) r =
        (List.range 64).foldl (MessageDigest.operation constants (MessageDigest.words data)) r := by
    refine List.foldl_ext _ _ _ fun r j hj => ?_
    have hj := List.mem_range.mp hj
    rw [setTable_eq j hj, loadX_eq o h]
    exact set_eq _ r hj
  rw [md5Process, MessageDigest.compress, hrounds, Registers.add]
  simp only [UInt32.add_comm]

-- ---------------------------------------------------------------------------
-- One piece
-- ---------------------------------------------------------------------------

def takeBlock (r : Registers) (block : List UInt8) : Registers :=
  MessageDigest.compress constants r (MessageDigest.words block)

/-- The state has taken in the whole blocks of a message, keeps the rest in its
buffer and has counted the bits. -/
structure Absorbed (message : List UInt8) (s : Md5State) : Prop where
  count : s.count0.toNat + 2 ^ 32 * s.count1.toNat = 8 * message.length % 2 ^ 64
  abcd : s.abcd = absorb takeBlock 64 MessageDigest.initial message
  buf : s.buf.take (message.length % 64) = rest 64 message
  room : s.buf.length = 64

theorem init_absorbed (hbuf : buf.length = 64) : Absorbed [] (md5Init buf) where
  count := rfl
  abcd := rfl
  buf := rfl
  room := hbuf

theorem Absorbed.offset (h : Absorbed message s) :
    ((s.count0 >>> 3) &&& 63).toNat = message.length % 64 := by
  have hcount := h.count
  have hand : (s.count0.toNat >>> 3) &&& 63 = s.count0.toNat / 8 % 64 := by
    rw [Nat.shiftRight_eq_div_pow]
    exact Nat.and_two_pow_sub_one_eq_mod _ 6
  have hlow : ((s.count0 >>> 3) &&& 63).toNat = s.count0.toNat / 8 % 64 := by
    rw [← hand]
    simp
  have hlt := s.count0.toNat_lt
  omega

theorem Absorbed.counted (h : Absorbed message s) (hsize : data.length < 2 ^ 28) :
    let nbits := UInt32.ofNat (data.length <<< 3)
    let count1 := s.count1 + .ofNat (data.length >>> 29)
    (s.count0 + nbits).toNat +
        2 ^ 32 * (if s.count0 + nbits < nbits then count1 + 1 else count1).toNat =
      8 * (message ++ data).length % 2 ^ 64 := by
  have hcount := h.count
  have hlow := s.count0.toNat_lt
  have hhigh := s.count1.toNat_lt
  have hbits : (UInt32.ofNat (data.length <<< 3)).toNat = 8 * data.length := by
    rw [UInt32.toNat_ofNat', Nat.shiftLeft_eq]
    omega
  have hnone : data.length >>> 29 = 0 := by
    rw [Nat.shiftRight_eq_div_pow]
    omega
  have hadd : (s.count0 + UInt32.ofNat (data.length <<< 3)).toNat =
      (s.count0.toNat + 8 * data.length) % 2 ^ 32 := by
    rw [UInt32.toNat_add, hbits]
  simp only [hnone, UInt32.lt_iff_toNat_lt, hadd, hbits, List.length_append]
  split
  · simp only [UInt32.toNat_add]
    simp
    omega
  · simp
    omega

theorem appendRest_absorbed (o : ByteOrder) (hroom : s.buf.length = 64) (p : List UInt8)
    (habcd : absorb takeBlock 64 s.abcd p = absorb takeBlock 64 MessageDigest.initial message)
    (hrest : rest 64 p = rest 64 message)
    (hcount : s.count0.toNat + 2 ^ 32 * s.count1.toNat = 8 * message.length % 2 ^ 64) :
    Absorbed message (md5AppendRest o s p) := by
  have hlen : (rest 64 message).length = message.length % 64 := length_rest 64 message
  have hlt := Nat.mod_lt message.length (show 0 < 64 by decide)
  have hblocks : (List.range (p.length / 64)).foldl
      (fun abcd i => md5Process o abcd ((p.drop (64 * i)).take 64)) s.abcd =
        absorb takeBlock 64 s.abcd p := by
    refine List.foldl_ext _ _ _ fun r i hi => md5Process_eq o r ?_
    have hi := List.mem_range.mp hi
    rw [List.length_take, List.length_drop]
    omega
  have hbuf : blit s.buf 0 (p.drop (64 * (p.length / 64))) =
      rest 64 message ++ s.buf.drop (message.length % 64) := by
    rw [← rest, hrest, blit, List.take_zero, List.nil_append, Nat.zero_add, hlen]
  refine ⟨hcount, hblocks.trans habcd, ?_, ?_⟩
  · simp only [md5AppendRest, hbuf]
    exact List.take_left' hlen
  · simp only [md5AppendRest, hbuf, List.length_append, List.length_drop, hlen, hroom]
    omega

theorem filled_absorbed (o : ByteOrder) (h : Absorbed message s) (hdata : front ++ back = data)
    (hblock : (rest 64 message ++ front).length = 64)
    (hcount : count0.toNat + 2 ^ 32 * count1.toNat = 8 * (message ++ data).length % 2 ^ 64) :
    Absorbed (message ++ data) (md5AppendRest o
      { count0 := count0
        count1 := count1
        abcd := md5Process o s.abcd (rest 64 message ++ front)
        buf := rest 64 message ++ front } back) := by
  obtain ⟨habcd, hrest⟩ := absorb_append (show 0 < 64 by decide) takeBlock MessageDigest.initial
    message data
  have hsplit : rest 64 message ++ data = (rest 64 message ++ front) ++ back := by
    rw [List.append_assoc, hdata]
  rw [← h.abcd, hsplit, absorb_block (by decide) hblock] at habcd
  rw [hsplit, rest_block (by decide) hblock] at hrest
  refine appendRest_absorbed o hblock back ?_ hrest.symm hcount
  rw [habcd, md5Process_eq o _ hblock]
  rfl

theorem append_absorbed (o : ByteOrder) (h : Absorbed message s) (hsize : data.length < 2 ^ 28) :
    Absorbed (message ++ data) (md5Append o s data) := by
  have hlt := Nat.mod_lt message.length (show 0 < 64 by decide)
  have hlen : (rest 64 message).length = message.length % 64 := length_rest 64 message
  obtain ⟨habcd, hrest⟩ := absorb_append (show 0 < 64 by decide) takeBlock MessageDigest.initial
    message data
  rw [← h.abcd] at habcd
  have hcount := h.counted hsize
  rw [md5Append, h.offset]
  by_cases hnone : data.length = 0
  · rw [if_pos hnone, List.length_eq_zero_iff.mp hnone, List.append_nil]
    exact h
  rw [if_neg hnone]
  by_cases hwhole : message.length % 64 = 0
  · simp only [hwhole, ne_eq, not_true, if_false]
    rw [rest_eq_nil hwhole, List.nil_append] at habcd hrest
    refine appendRest_absorbed o ?_ data habcd.symm hrest.symm hcount
    exact h.room
  · simp only [ne_eq, hwhole, not_false_eq_true, if_true]
    by_cases hmore : message.length % 64 + data.length > 64
    · -- the buffer is filled up, and there is more
      rw [if_pos hmore, if_neg (by omega)]
      let front := data.take (64 - message.length % 64)
      have hfront : front.length = 64 - message.length % 64 := List.length_take_of_le (by omega)
      have hbuf : blit s.buf (message.length % 64) front = rest 64 message ++ front := by
        rw [blit, h.buf, List.drop_of_length_le (by rw [h.room]; omega), List.append_nil]
      have hblock : (rest 64 message ++ front).length = 64 := by
        rw [List.length_append, hlen, hfront]
        omega
      rw [hbuf]
      exact filled_absorbed o h (List.take_append_drop ..) hblock hcount
    · rw [if_neg hmore, List.take_length, List.drop_length]
      have hbuf : blit s.buf (message.length % 64) data =
          rest 64 message ++ data ++ s.buf.drop (message.length % 64 + data.length) := by
        rw [blit, h.buf]
      have hfilled : (rest 64 message ++ data).length = message.length % 64 + data.length := by
        rw [List.length_append, hlen]
      by_cases hpart : message.length % 64 + data.length < 64
      · -- the block is not full yet
        have hshort : (rest 64 message ++ data).length < 64 := hfilled ▸ hpart
        have hmod : (message ++ data).length % 64 = message.length % 64 + data.length := by
          rw [List.length_append]
          omega
        rw [if_pos hpart]
        rw [absorb_of_lt hshort] at habcd
        rw [rest_of_lt hshort] at hrest
        refine ⟨hcount, habcd.symm, ?_, ?_⟩
        · simp only [hbuf, hrest, hmod]
          exact List.take_left' hfilled
        · simp only
          rw [length_blit (by rw [h.room]; omega), h.room]
      · -- it has just become full
        rw [if_neg hpart]
        have hnil : s.buf.drop (message.length % 64 + data.length) = [] :=
          List.drop_of_length_le (by rw [h.room]; omega)
        have hblock : (rest 64 message ++ data).length = 64 := by omega
        rw [hbuf, hnil, List.append_nil]
        exact filled_absorbed o h (List.append_nil data) hblock hcount

-- ---------------------------------------------------------------------------
-- Every message
-- ---------------------------------------------------------------------------

theorem byte_eq (w : UInt32) (hk : k < 32) :
    (w >>> .ofNat k).toUInt8 = .ofNat (w.toNat / 2 ^ k) := by
  have hplace : (UInt32.ofNat k).toNat % 32 = k := by
    rw [UInt32.toNat_ofNat']
    omega
  apply UInt8.toNat_inj.mp
  rw [UInt32.toNat_toUInt8, UInt32.toNat_shiftRight, hplace, Nat.shiftRight_eq_div_pow,
    UInt8.toNat_ofNat']

theorem word_bytes (w : UInt32) :
    (List.range 4).map (fun i => (w >>> .ofNat (i * 8)).toUInt8) = le 4 w.toNat := by
  have hbytes : (List.range 4).map (fun i => (w >>> .ofNat (i * 8)).toUInt8) =
      (List.range 4).map fun i => UInt8.ofNat (w.toNat / 2 ^ (i * 8)) := by
    refine List.map_congr_left fun i hi => byte_eq w ?_
    have hi := List.mem_range.mp hi
    omega
  rw [hbytes]
  simp [List.range_succ, le, Nat.div_div_eq_div_mul]

theorem registers_bytes (r : Registers) :
    (List.range 16).map (fun i =>
      ([r.a, r.b, r.c, r.d].getD (i / 4) 0 >>> .ofNat (i % 4 * 8)).toUInt8) = r.bytes := by
  rw [Registers.bytes, ← word_bytes, ← word_bytes, ← word_bytes, ← word_bytes]
  rfl

theorem Absorbed.length_bytes (h : Absorbed message s) :
    (List.range 8).map (fun i =>
      ((if i / 4 = 0 then s.count0 else s.count1) >>> .ofNat (i % 4 * 8)).toUInt8) =
        le 8 (8 * message.length) := by
  have hwords : (List.range 8).map (fun i =>
      ((if i / 4 = 0 then s.count0 else s.count1) >>> .ofNat (i % 4 * 8)).toUInt8) =
        le 4 s.count0.toNat ++ le 4 s.count1.toNat := by
    rw [← word_bytes, ← word_bytes]
    rfl
  have hlow := s.count0.toNat_lt
  have hmod : le 8 (8 * message.length) = le 8 (s.count0.toNat + 2 ^ 32 * s.count1.toNat) := by
    rw [h.count]
    exact (le_mod 8 _).symm
  have hdiv : (s.count0.toNat + 2 ^ 32 * s.count1.toNat) / 256 ^ 4 = s.count1.toNat := by omega
  have hrest : (s.count0.toNat + 2 ^ 32 * s.count1.toNat) % 256 ^ 4 = s.count0.toNat := by omega
  rw [hwords, hmod, show (8 : Nat) = 4 + 4 from rfl, le_add, hdiv, ← le_mod 4 (_ + _), hrest]

theorem Absorbed.pad_take (h : Absorbed message s) :
    pad.take ((((55 : UInt32) - (s.count0 >>> 3)) &&& 63).toNat + 1) =
      0x80 :: List.replicate (MessageDigest.zeros message.length) 0 := by
  have hoffset := h.offset
  have hand : ∀ w : UInt32, (w &&& 63).toNat = w.toNat % 64 := fun w => by
    rw [UInt32.toNat_and]
    exact Nat.and_two_pow_sub_one_eq_mod _ 6
  have hleft : (((55 : UInt32) - (s.count0 >>> 3)) &&& 63).toNat =
      MessageDigest.zeros message.length := by
    have hlt := (s.count0 >>> 3).toNat_lt
    have hsub : ((55 : UInt32) - (s.count0 >>> 3)).toNat =
        (2 ^ 32 - (s.count0 >>> 3).toNat + 55) % 2 ^ 32 := UInt32.toNat_sub _ _
    rw [hand] at hoffset ⊢
    rw [MessageDigest.zeros]
    omega
  have hzeros : MessageDigest.zeros message.length < 64 := Nat.mod_lt _ (by decide)
  have hfill := Md5.pad_take (r := 63 - MessageDigest.zeros message.length) (by omega)
  rw [hleft]
  rwa [show 64 - (63 - MessageDigest.zeros message.length) =
      MessageDigest.zeros message.length + 1 by omega,
    show 63 - (63 - MessageDigest.zeros message.length) =
      MessageDigest.zeros message.length by omega] at hfill

theorem finish_eq (o : ByteOrder) (h : Absorbed message s) :
    md5Finish o s = MessageDigest.digest constants message := by
  have hzeros : MessageDigest.zeros message.length < 64 := Nat.mod_lt _ (by decide)
  have hpadding : ((0x80 : UInt8) ::
      List.replicate (MessageDigest.zeros message.length) 0).length < 2 ^ 28 := by
    rw [List.length_cons, List.length_replicate]
    omega
  have hlength : (le 8 (8 * message.length)).length < 2 ^ 28 := by
    rw [length_le]
    decide
  have hended := append_absorbed o (append_absorbed o h hpadding) hlength
  rw [List.append_assoc, List.cons_append] at hended
  simp only [md5Finish, h.length_bytes, h.pad_take, registers_bytes, hended.abcd]
  rfl

theorem pieces_absorbed (o : ByteOrder) (pieces : List (List UInt8)) (h : Absorbed message s)
    (hsize : ∀ piece ∈ pieces, piece.length < 2 ^ 28) :
    Absorbed (message ++ pieces.flatten) (pieces.foldl (md5Append o) s) := by
  induction pieces generalizing message s with
  | nil => rwa [List.flatten_nil, List.append_nil]
  | cons piece pieces ih =>
    rw [List.forall_mem_cons] at hsize
    rw [List.flatten_cons, ← List.append_assoc]
    exact ih (append_absorbed o h hsize.1) hsize.2

/-- However a message is cut into pieces, and on either kind of machine, the
digest is the one of the standard. -/
theorem digest_of_pieces (o : ByteOrder) {buf : List UInt8} {pieces : List (List UInt8)}
    (hbuf : buf.length = 64) (hsize : ∀ piece ∈ pieces, piece.length < 2 ^ 28) :
    md5Finish o (pieces.foldl (md5Append o) (md5Init buf)) = MessageDigest.md5 pieces.flatten := by
  have habsorbed := pieces_absorbed o pieces (init_absorbed hbuf) hsize
  rw [finish_eq o habsorbed, List.nil_append, MessageDigest.md5,
    MessageDigest.digest_congr sineConstants_eq]

/-- `abc` in two pieces. -/
theorem digest_of_pieces_two :
    md5Finish .big ([[97], [98, 99]].foldl (md5Append .big) (md5Init (List.replicate 64 0))) =
      MessageDigest.md5 [97, 98, 99] :=
  digest_of_pieces .big rfl (by decide)

-- ---------------------------------------------------------------------------
-- Two builds
-- ---------------------------------------------------------------------------

/-- `md5_digest` of a big-endian machine, with a state that holds anything. -/
def md5DigestBig (buf buffer : List UInt8) : List UInt8 :=
  md5Finish .big (md5Append .big (md5Init buf) buffer)

/-- Machines of the two kinds have the same digest of a message exactly if not 56
bytes are left for the last block, or by coincidence. -/
theorem builds_agree_iff {buf message : List UInt8} (hbuf : buf.length = 64)
    (hsize : message.length < 2 ^ 28) :
    md5DigestBig buf message = md5Digest message ↔
      message.length % 64 ≠ 56 ∨ Coincides MessageDigest.sineConstants message := by
  have hbits : 8 * message.length < 2 ^ 32 := by omega
  have habsorbed := append_absorbed .big (init_absorbed hbuf) hsize
  rw [md5DigestBig, finish_eq .big habsorbed, List.nil_append, md5Digest_eq, MessageDigest.digest,
    MessageDigest.bytes_inj, Coincides, MessageDigest.after_congr sineConstants_eq,
    MessageDigest.compress_congr sineConstants_eq, eq_comm]
  by_cases hr : message.length % 64 = 56
  · rw [registers_finalState_bare hr hbits]
    exact (or_iff_right (not_not.mpr hr)).symm
  · exact iff_of_true (registers_finalState hr hbits) (.inl hr)

theorem builds_agree_iff_one_block :
    md5DigestBig (List.replicate 64 0) (List.replicate 64 97) = md5Digest (List.replicate 64 97) :=
  (builds_agree_iff rfl (by decide)).mpr (.inl (by decide))

end Tsunami.Md5
