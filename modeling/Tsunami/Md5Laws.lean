import Tsunami.Lib.MessageDigest
import Tsunami.Md5

/-!
# The digest against the standard

`md5_digest` turns an index where the standard moves the registers, and pads the
last blocks in place. It is the digest of the standard but where 56 bytes are
left for the last block: the length is put over the padding.
-/

namespace Tsunami.Md5

open Endian MessageDigest

def constants (j : Nat) : UInt32 := T.getD j 0

def registers (state : List UInt32) (j : Nat) : Registers where
  a := state.getD ((4 - j % 4) % 4) 0
  b := state.getD ((4 - j % 4 + 1) % 4) 0
  c := state.getD ((4 - j % 4 + 2) % 4) 0
  d := state.getD ((4 - j % 4 + 3) % 4) 0

-- ---------------------------------------------------------------------------
-- One operation
-- ---------------------------------------------------------------------------

theorem rotate_eq (x : UInt32) (hs : 0 < s ∧ s < 32) : rotate x (.ofNat s) = rotateLeft x s := by
  have hback : (4294967296 - s % 4294967296) % 32 = 32 - s % 32 := by omega
  apply UInt32.toBitVec_inj.mp
  simp [rotate, rotateLeft, BitVec.rotateLeft_def, hback]

theorem md5Table_eq : ∀ j < 64, md5Table.getD j (0, 0) = (wordIndex j, .ofNat (shift j)) := by
  decide +kernel

theorem shift_range : ∀ j < 64, 0 < shift j ∧ shift j < 32 := by decide +kernel

theorem md5Dispatch_eq (hj : j < 64) (x y z : UInt32) :
    md5Dispatch (j / 16) x y z = roundFunction j x y z := by
  have hround : j / 16 = 0 ∨ j / 16 = 1 ∨ j / 16 = 2 ∨ j / 16 = 3 := by omega
  rw [roundFunction]
  rcases hround with h | h | h | h <;> rw [h]
  · rw [if_pos (by omega)]; rfl
  · rw [if_neg (by omega), if_pos (by omega)]; rfl
  · rw [if_neg (by omega), if_neg (by omega), if_pos (by omega)]; rfl
  · rw [if_neg (by omega), if_neg (by omega), if_neg (by omega)]; rfl

theorem four_of_length {α : Type u} {xs : List α} (h : xs.length = 4) :
    ∃ p q r s, xs = [p, q, r, s] := by
  match xs, h with
  | [p, q, r, s], _ => exact ⟨p, q, r, s, rfl⟩

/-- The index turns as the registers move. -/
theorem registers_operate (X : List UInt32) (hs : state.length = 4) (hj : j < 64) :
    registers (operate X state j) (j + 1) = operation constants X (registers state j) j := by
  obtain ⟨p, q, r, s, rfl⟩ := four_of_length hs
  have hentry := md5Table_eq j hj
  rw [List.getD_eq_getElem?_getD] at hentry
  have hturn : j % 4 = 0 ∧ (j + 1) % 4 = 1 ∨ j % 4 = 1 ∧ (j + 1) % 4 = 2 ∨
      j % 4 = 2 ∧ (j + 1) % 4 = 3 ∨ j % 4 = 3 ∧ (j + 1) % 4 = 0 := by omega
  rcases hturn with ⟨h, h'⟩ | ⟨h, h'⟩ | ⟨h, h'⟩ | ⟨h, h'⟩ <;>
    simp [operate, registers, operation, hentry, h, h', md5Dispatch_eq hj,
      rotate_eq _ (shift_range j hj), constants]

theorem registers_operations (X : List UInt32) (hs : state.length = 4) (hn : n ≤ 64) :
    registers ((List.range n).foldl (operate X) state) n =
      (List.range n).foldl (operation constants X) (registers state 0) := by
  induction n with
  | zero => rfl
  | succ n ih =>
    have hlen : ((List.range n).foldl (operate X) state).length = 4 := by
      rw [length_operations, hs]
    rw [List.range_succ, List.foldl_append, List.foldl_append, ← ih (Nat.le_of_succ_le hn)]
    exact registers_operate X hlen hn

theorem registers_compute (X : List UInt32) (hs : state.length = 4) :
    registers (compute X state) 0 = compress constants (registers state 0) X := by
  have hrounds := registers_operations X hs (Nat.le_refl 64)
  have hlen : ((List.range 64).foldl (operate X) state).length = 4 := by
    rw [length_operations, hs]
  rw [compute, compress, ← hrounds]
  generalize (List.range 64).foldl (operate X) state = final at hlen
  obtain ⟨p, q, r, s, rfl⟩ := four_of_length hs
  obtain ⟨p', q', r', s', rfl⟩ := four_of_length hlen
  rfl

-- ---------------------------------------------------------------------------
-- Words of a block
-- ---------------------------------------------------------------------------

theorem word_front (hfront : front.length = 56) (hk : k < 14) (back : List UInt8) :
    ((front ++ back).drop (4 * k)).take 4 = (front.drop (4 * k)).take 4 := by
  rw [List.drop_append_of_le_length (by omega), List.take_append_of_le_length]
  rw [List.length_drop]
  omega

theorem words_back (hfront : front.length = 56) (hsize : v < 2 ^ 32) :
    ofLe (((front ++ le 8 v).drop 56).take 4) = v ∧
      ofLe (((front ++ le 8 v).drop 60).take 4) = 0 := by
  have hsplit : le 8 v = le 4 v ++ le 4 0 := by
    have hhigh : v / 256 ^ 4 = 0 := Nat.div_eq_of_lt hsize
    rw [← hhigh]
    exact le_add 4 4 v
  constructor
  · rw [List.drop_left' hfront, hsplit, List.take_left' (length_le 4 v), ofLe_le]
    exact Nat.mod_eq_of_lt hsize
  · have hlen : (front ++ le 4 v).length = 60 := by
      rw [List.length_append, hfront, length_le]
    rw [hsplit, ← List.append_assoc, List.drop_left' hlen, List.take_of_length_le (by simp),
      ofLe_le]
    rfl

theorem words_length (hfront : front.length = 56) (back : List UInt8) (hsize : 8 * size < 2 ^ 32) :
    ((MessageDigest.words (front ++ back)).set 14 (.ofNat (size * 8))).set 15 0 =
      MessageDigest.words (front ++ le 8 (8 * size)) := by
  obtain ⟨hlow, hhigh⟩ := words_back hfront hsize
  apply List.ext_getElem
  · simp
  · intro k hk _
    have hk : k < 16 := by simpa using hk
    have hplace : k = 15 ∨ k = 14 ∨ k < 14 := by omega
    rw [List.getElem_set, List.getElem_set]
    rcases hplace with rfl | rfl | hfrontal
    · simp [MessageDigest.words, hhigh]
    · simp [MessageDigest.words, hlow, Nat.mul_comm size]
    · rw [if_neg (by omega), if_neg (by omega)]
      simp [MessageDigest.words, word_front hfront hfrontal]

-- ---------------------------------------------------------------------------
-- The blocks
-- ---------------------------------------------------------------------------

variable {buffer : List UInt8}

def tail (buffer : List UInt8) : List UInt8 := buffer.drop (64 * (buffer.length / 64))

theorem length_tail (buffer : List UInt8) : (tail buffer).length = buffer.length % 64 := by
  have hdiv := Nat.div_add_mod buffer.length 64
  rw [tail, List.length_drop]
  omega

theorem drop_padded (buffer : List UInt8) :
    (padded buffer).drop (64 * (buffer.length / 64)) =
      tail buffer ++
        0x80 :: (List.replicate (zeros buffer.length) 0 ++ le 8 (8 * buffer.length)) := by
  have hdiv := Nat.div_add_mod buffer.length 64
  rw [padded, List.drop_append_of_le_length (by omega)]
  rfl

theorem block_padded (hi : i < buffer.length / 64) :
    block (padded buffer) i = MessageDigest.words ((buffer.drop (64 * i)).take 64) := by
  have hdiv := Nat.div_add_mod buffer.length 64
  rw [block, padded, List.drop_append_of_le_length (by omega),
    List.take_append_of_le_length (by rw [List.length_drop]; omega)]

theorem loadBlock_front (hi : i < buffer.length / 64) (hb : buffer.length / 64 ≤ blocks) :
    loadBlock buffer blocks i = block (padded buffer) i := by
  have hdiv := Nat.div_add_mod buffer.length 64
  rw [block_padded hi, loadBlock]
  by_cases hlast : i + 1 < blocks
  · rw [if_pos hlast]
    rfl
  · rw [if_neg hlast, if_pos (by omega), if_neg (by omega)]
    rfl

theorem take_tail (buffer : List UInt8) :
    (buffer.drop (64 * (buffer.length / 64))).take (buffer.length % 64) = tail buffer :=
  List.take_of_length_le (Nat.le_of_eq (length_tail buffer))

theorem pad_take (h : r < 64) : pad.take (64 - r) = 0x80 :: List.replicate (63 - r) 0 := by
  have hsucc : 64 - r = 63 - r + 1 := by omega
  rw [pad, hsucc, List.take_succ_cons, List.take_replicate, Nat.min_eq_left (by omega)]

theorem loadBlock_short (hr : buffer.length % 64 < 56) (hsize : 8 * buffer.length < 2 ^ 32) :
    loadBlock buffer (buffer.length / 64) (buffer.length / 64) =
      block (padded buffer) (buffer.length / 64) := by
  have hdiv := Nat.div_add_mod buffer.length 64
  have hzeros : zeros buffer.length = 55 - buffer.length % 64 := by
    rw [zeros]
    omega
  let front := tail buffer ++ 0x80 :: List.replicate (55 - buffer.length % 64) 0
  have hfront : front.length = 56 := by
    simp only [front, List.length_append, List.length_cons, List.length_replicate, length_tail]
    omega
  have hfilled : tail buffer ++ pad.take (64 - buffer.length % 64) =
      front ++ List.replicate 8 0 := by
    have hmore : 63 - buffer.length % 64 = 55 - buffer.length % 64 + 8 := by omega
    rw [pad_take (by omega), hmore, List.replicate_add]
    simp [front]
  have hblock : ((padded buffer).drop (64 * (buffer.length / 64))).take 64 =
      front ++ le 8 (8 * buffer.length) := by
    have hall : tail buffer ++ 0x80 :: (List.replicate (zeros buffer.length) 0 ++
        le 8 (8 * buffer.length)) = front ++ le 8 (8 * buffer.length) := by
      rw [hzeros]
      simp [front]
    rw [drop_padded, hall, List.take_of_length_le]
    rw [List.length_append, hfront, length_le]
  rw [block, hblock, loadBlock, take_tail, hfilled, if_neg (by omega), if_neg (by omega)]
  simp only [if_neg (show ¬64 * (buffer.length / 64) > buffer.length by omega)]
  exact words_length hfront _ hsize

/-- Padding that goes on in a block of its own: the block of the tail, and the
block of the length. -/
theorem block_padded_long (hr : 56 ≤ buffer.length % 64) :
    block (padded buffer) (buffer.length / 64) =
        MessageDigest.words (tail buffer ++ 0x80 ::
          List.replicate (63 - buffer.length % 64) 0) ∧
      block (padded buffer) (buffer.length / 64 + 1) =
        MessageDigest.words (List.replicate 56 0 ++ le 8 (8 * buffer.length)) := by
  have hlt := Nat.mod_lt buffer.length (show 0 < 64 by decide)
  have hzeros : zeros buffer.length = 63 - buffer.length % 64 + 56 := by
    rw [zeros]
    omega
  let filled := tail buffer ++ 0x80 :: List.replicate (63 - buffer.length % 64) 0
  have hfilled : filled.length = 64 := by
    simp only [filled, List.length_append, List.length_cons, List.length_replicate, length_tail]
    omega
  have hrest : (padded buffer).drop (64 * (buffer.length / 64)) =
      filled ++ (List.replicate 56 0 ++ le 8 (8 * buffer.length)) := by
    rw [drop_padded, hzeros, List.replicate_add]
    simp [filled]
  constructor
  · rw [block, hrest, List.take_left' hfilled]
  · rw [block, Nat.mul_succ, ← List.drop_drop, hrest, List.drop_left' hfilled,
      List.take_of_length_le (by simp)]

theorem loadBlock_long (hr : 56 < buffer.length % 64) (hsize : 8 * buffer.length < 2 ^ 32) :
    loadBlock buffer (buffer.length / 64 + 1) (buffer.length / 64) =
        block (padded buffer) (buffer.length / 64) ∧
      loadBlock buffer (buffer.length / 64 + 1) (buffer.length / 64 + 1) =
        block (padded buffer) (buffer.length / 64 + 1) := by
  have hdiv := Nat.div_add_mod buffer.length 64
  have hlt := Nat.mod_lt buffer.length (show 0 < 64 by decide)
  obtain ⟨htail, hlength⟩ := block_padded_long (Nat.le_of_lt hr)
  constructor
  · rw [htail, loadBlock, take_tail, pad_take hlt, if_neg (Nat.lt_irrefl _), if_pos rfl]
    exact if_pos (by omega)
  · rw [hlength, loadBlock, if_neg (by omega), if_neg (by omega)]
    simp only [if_pos (show 64 * (buffer.length / 64 + 1) > buffer.length by omega)]
    have hzero : List.replicate 64 (0 : UInt8) = List.replicate 56 0 ++ List.replicate 8 0 := by
      rw [← List.replicate_add]
    rw [hzero]
    exact words_length (List.length_replicate ..) _ hsize

/-- With 56 bytes left the length is put over the padding. -/
theorem loadBlock_bare (hr : buffer.length % 64 = 56) (hsize : 8 * buffer.length < 2 ^ 32) :
    loadBlock buffer (buffer.length / 64) (buffer.length / 64) =
      MessageDigest.words (tail buffer ++ le 8 (8 * buffer.length)) := by
  have hdiv := Nat.div_add_mod buffer.length 64
  have htail : (tail buffer).length = 56 := (length_tail buffer).trans hr
  rw [loadBlock, take_tail, if_neg (by omega), if_neg (by omega)]
  simp only [if_neg (show ¬64 * (buffer.length / 64) > buffer.length by omega)]
  exact words_length htail _ hsize

-- ---------------------------------------------------------------------------
-- Every message
-- ---------------------------------------------------------------------------

theorem registers_turns (f : Nat → List UInt32) (n : Nat) :
    ((List.range n).foldl (fun state i => compute (f i) state) initialState).length = 4 ∧
      registers ((List.range n).foldl (fun state i => compute (f i) state) initialState) 0 =
        (List.range n).foldl (fun r i => compress constants r (f i)) initial := by
  induction n with
  | zero => exact ⟨rfl, rfl⟩
  | succ n ih =>
    obtain ⟨hlen, hsame⟩ := ih
    simp only [List.range_succ, List.foldl_append, List.foldl_cons, List.foldl_nil]
    rw [length_compute, registers_compute _ hlen, hsame]
    exact ⟨hlen, rfl⟩

theorem turns_eq_after (T : Nat → UInt32) {f : Nat → List UInt32}
    (h : ∀ i < n, f i = block bytes i) :
    (List.range n).foldl (fun r i => compress T r (f i)) initial = after T bytes n :=
  List.foldl_ext _ _ _ fun r i hi => by rw [h i (List.mem_range.mp hi)]

theorem registers_finalState (hr : buffer.length % 64 ≠ 56) (hsize : 8 * buffer.length < 2 ^ 32) :
    registers (finalState buffer) 0 =
      after constants (padded buffer) ((padded buffer).length / 64) := by
  rw [finalState, (registers_turns _ _).2, length_padded]
  by_cases hshort : buffer.length % 64 < 56
  · rw [if_neg (by omega), if_pos hshort]
    refine turns_eq_after constants fun i hi => ?_
    rcases Nat.lt_succ_iff_lt_or_eq.mp hi with hfront | rfl
    · exact loadBlock_front hfront (Nat.le_refl _)
    · exact loadBlock_short hshort hsize
  · obtain ⟨htail, hlength⟩ := loadBlock_long (by omega) hsize
    rw [if_pos (by omega), if_neg hshort]
    refine turns_eq_after constants fun i hi => ?_
    have hplace : i < buffer.length / 64 ∨ i = buffer.length / 64 ∨ i = buffer.length / 64 + 1 := by
      omega
    rcases hplace with hfront | rfl | rfl
    · exact loadBlock_front hfront (Nat.le_succ _)
    · exact htail
    · exact hlength

/-- What the standard and the source make of the last 56 bytes comes to the same. -/
def Coincides (T : Nat → UInt32) (message : List UInt8) : Prop :=
  let r := after T (padded message) (message.length / 64)
  let length := le 8 (8 * message.length)
  compress T r (MessageDigest.words (tail message ++ length)) =
    compress T (compress T r (MessageDigest.words (tail message ++ 0x80 :: List.replicate 7 0)))
      (MessageDigest.words (List.replicate 56 0 ++ length))

theorem registers_finalState_bare (hr : buffer.length % 64 = 56)
    (hsize : 8 * buffer.length < 2 ^ 32) :
    registers (finalState buffer) 0 =
        after constants (padded buffer) ((padded buffer).length / 64) ↔
      Coincides constants buffer := by
  obtain ⟨htail, hlength⟩ := block_padded_long (Nat.le_of_eq hr.symm)
  have hturns : registers (finalState buffer) 0 =
      compress constants (after constants (padded buffer) (buffer.length / 64))
        (MessageDigest.words (tail buffer ++ le 8 (8 * buffer.length))) := by
    rw [finalState, (registers_turns _ _).2, if_neg (by omega), Nat.add_zero, List.range_succ,
      List.foldl_append, turns_eq_after constants fun i hi => loadBlock_front hi (Nat.le_refl _),
      List.foldl_cons, List.foldl_nil, loadBlock_bare hr hsize]
  rw [hturns, length_padded, if_neg (by omega), after_succ, after_succ, htail, hlength, hr]
  rfl

theorem md5Digest_eq (buffer : List UInt8) :
    md5Digest buffer = (registers (finalState buffer) 0).bytes := by
  have hlen := length_finalState buffer
  rw [md5Digest]
  generalize finalState buffer = state at hlen
  obtain ⟨p, q, r, s, rfl⟩ := four_of_length hlen
  simp [registers, Registers.bytes, ByteOrder.store]

/-- The constants of the source are those of the standard. -/
theorem sineConstants_eq : ∀ j < 64, sineConstants j = constants j := by
  have hdigits : ∀ j < 64,
      (constants j).toNat * SineTable.scale ≤
          4294967296 * (|(SineTable.turned (j + 1)).2| - SineTable.loss (j + 1)) ∧
        4294967296 * (|(SineTable.turned (j + 1)).2| + SineTable.loss (j + 1)) <
          ((constants j).toNat + 1) * SineTable.scale := by
    decide +kernel
  intro j hj
  obtain ⟨hlow, hhigh⟩ := hdigits j hj
  rw [sineConstants, SineTable.sineWord_eq hj hlow hhigh]
  exact UInt32.ofNat_toNat

/-- The digest is the one of the standard exactly if not 56 bytes are left for the
last block, or by coincidence. -/
theorem md5_digest_iff (hlen : buffer.length < 2 ^ 29) :
    md5Digest buffer = md5 buffer ↔ buffer.length % 64 ≠ 56 ∨ Coincides sineConstants buffer := by
  have hsize : 8 * buffer.length < 2 ^ 32 := by omega
  rw [md5, Coincides, after_congr sineConstants_eq, compress_congr sineConstants_eq,
    digest_congr sineConstants_eq, md5Digest_eq, digest, bytes_inj]
  by_cases hr : buffer.length % 64 = 56
  · rw [registers_finalState_bare hr hsize]
    exact (or_iff_right (not_not.mpr hr)).symm
  · exact iff_of_true (registers_finalState hr hsize) (.inl hr)

theorem md5_digest_iff_one_block : md5Digest (List.replicate 64 97) = md5 (List.replicate 64 97) :=
  (md5_digest_iff (by decide)).mpr (.inl (by decide))

/-- Of 56 zeros the digest is another one. -/
theorem digest_of_56_zeros : md5Digest (List.replicate 56 0) ≠ md5 (List.replicate 56 0) := by
  rw [md5, digest_congr sineConstants_eq]
  decide +kernel

end Tsunami.Md5
