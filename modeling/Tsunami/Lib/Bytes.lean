import Mathlib.Data.List.Basic
import Mathlib.Data.List.Induction
import Mathlib.Data.Nat.Bitwise

/-!
# Bytes in buffers

Fixed-width integers in network order, copies into a buffer, writes into a
growing file, bitmaps kept as bytes, and numbers printed in decimal.
-/

namespace Bytes

-- ---------------------------------------------------------------------------
-- Network order
-- ---------------------------------------------------------------------------

/-- The 16-bit value `n` in network order; higher bits are dropped. -/
def be16 (n : Nat) : List UInt8 := [.ofNat (n / 2 ^ 8), .ofNat n]

def be32 (n : Nat) : List UInt8 :=
  [.ofNat (n / 2 ^ 24), .ofNat (n / 2 ^ 16), .ofNat (n / 2 ^ 8), .ofNat n]

def be64 (n : Nat) : List UInt8 := be32 (n / 2 ^ 32) ++ be32 n

def ofBe (bs : List UInt8) : Nat := bs.foldl (fun acc b => acc * 256 + b.toNat) 0

@[simp] theorem length_be16 (n : Nat) : (be16 n).length = 2 := rfl
@[simp] theorem length_be32 (n : Nat) : (be32 n).length = 4 := rfl
@[simp] theorem length_be64 (n : Nat) : (be64 n).length = 8 := rfl

@[simp] theorem ofBe_be16 (n : Nat) : ofBe (be16 n) = n % 2 ^ 16 := by
  simp [ofBe, be16]
  omega

@[simp] theorem ofBe_be32 (n : Nat) : ofBe (be32 n) = n % 2 ^ 32 := by
  simp [ofBe, be32]
  omega

@[simp] theorem ofBe_be64 (n : Nat) : ofBe (be64 n) = n % 2 ^ 64 := by
  simp [ofBe, be64, be32]
  omega

theorem ofBe_append_singleton (bs : List UInt8) (b : UInt8) :
    ofBe (bs ++ [b]) = ofBe bs * 256 + b.toNat := by
  simp [ofBe]

theorem ofBe_lt (bs : List UInt8) : ofBe bs < 256 ^ bs.length := by
  induction bs using List.reverseRecOn with
  | nil => exact Nat.one_pos
  | append_singleton bs b ih =>
    rw [ofBe_append_singleton, List.length_append, List.length_singleton, pow_succ]
    have hb := b.toNat_lt
    omega

-- ---------------------------------------------------------------------------
-- Copies
-- ---------------------------------------------------------------------------

variable {α : Type u}

/-- `data` copied over `buf` from offset `off` on. -/
def blit (buf : List α) (off : Nat) (data : List α) : List α :=
  buf.take off ++ data ++ buf.drop (off + data.length)

@[simp] theorem length_blit (h : off + data.length ≤ buf.length) :
    (blit (α := α) buf off data).length = buf.length := by
  simp [blit]
  omega

theorem blit_getElem? {buf data : List α} (h : off ≤ buf.length) (i : Nat) :
    (blit buf off data)[i]? =
      if i < off then buf[i]? else if i < off + data.length then data[i - off]? else buf[i]? := by
  have ht : (buf.take off).length = off := by simp [h]
  simp only [blit, List.append_assoc]
  by_cases h₁ : i < off
  · simp [h₁, List.getElem?_append_left (ht.symm ▸ h₁)]
  · rw [List.getElem?_append_right (by omega), ht, if_neg h₁]
    by_cases h₂ : i < off + data.length
    · rw [List.getElem?_append_left (by omega), if_pos h₂]
    · rw [List.getElem?_append_right (by omega), if_neg h₂, List.getElem?_drop]
      congr 1
      omega

theorem blit_all {buf data : List α} (h : data.length = buf.length) : blit buf 0 data = data := by
  simp [blit, List.drop_eq_nil_of_le (Nat.le_of_eq h.symm)]

theorem take_blit {buf data : List α} (h : n ≤ off) (hl : off ≤ buf.length) :
    (blit buf off data).take n = buf.take n := by
  simp only [blit, List.append_assoc]
  rw [List.take_append_of_le_length (by simp; omega), List.take_take, Nat.min_eq_left h]

theorem take_blit_append {buf data : List α} (h : off ≤ buf.length) :
    (blit buf off data).take (off + data.length) = buf.take off ++ data :=
  List.take_left' (by simp [h])

/-- `data` written to `file` at `off`: the file grows as needed, and a gap
left by seeking past its end reads as `fill`. Writing nothing changes nothing. -/
def writeAt (fill : α) (file : List α) (off : Nat) (data : List α) : List α :=
  if data.isEmpty then file
  else blit (file ++ List.replicate (off - file.length) fill) off data

theorem length_writeAt (fill : α) (file : List α) (off : Nat) (h : data ≠ []) :
    (writeAt fill file off data).length = max file.length (off + data.length) := by
  simp [writeAt, blit, h]
  omega

theorem writeAt_getElem? (fill : α) (file : List α) (off : Nat) (h : data ≠ []) (i : Nat) :
    (writeAt fill file off data)[i]? =
      if off ≤ i ∧ i < off + data.length then data[i - off]?
      else if i < file.length then file[i]?
      else if i < off then some fill else none := by
  rw [writeAt, if_neg (by simpa using h), blit_getElem? (by simp; omega)]
  by_cases hf : i < file.length
  · rw [List.getElem?_append_left hf]
    grind
  · rw [List.getElem?_append_right (by omega), List.getElem?_replicate]
    grind

-- ---------------------------------------------------------------------------
-- A file put together from its pieces
-- ---------------------------------------------------------------------------

def putPiece (fill : α) (whole file : List α) (p : Nat × Nat) : List α :=
  writeAt fill file p.1 ((whole.drop p.1).take p.2)

/-- No longer than `whole`, and like it wherever one of `ps` has been put. -/
structure Agrees (whole : List α) (ps : List (Nat × Nat)) (file : List α) : Prop where
  length : file.length ≤ whole.length
  bytes : ∀ p ∈ ps, ∀ i, p.1 ≤ i → i < p.1 + p.2 → i < whole.length → file[i]? = whole[i]?

variable {whole file : List α} {ps : List (Nat × Nat)}

theorem Agrees.put (h : Agrees whole ps file) (fill : α) (p : Nat × Nat) :
    Agrees whole (ps ++ [p]) (putPiece fill whole file p) := by
  have hlen : ((whole.drop p.1).take p.2).length = min p.2 (whole.length - p.1) := by simp
  by_cases hnil : (whole.drop p.1).take p.2 = []
  · -- past the end, or of no bytes
    rw [hnil, List.length_nil] at hlen
    have hsame : putPiece fill whole file p = file := by simp [putPiece, writeAt, hnil]
    rw [hsame]
    refine ⟨h.length, fun q hq i h₁ h₂ hi => ?_⟩
    rcases List.mem_append.mp hq with hq | hq
    · exact h.bytes q hq i h₁ h₂ hi
    · rw [List.mem_singleton] at hq
      subst hq
      omega
  · have hpos := List.length_pos_iff.mpr hnil
    refine ⟨?_, fun q hq i h₁ h₂ hi => ?_⟩
    · have hle := h.length
      rw [putPiece, length_writeAt _ _ _ hnil]
      omega
    · rw [putPiece, writeAt_getElem? _ _ _ hnil]
      split
      · rename_i hin
        rw [List.getElem?_take_of_lt (by omega), List.getElem?_drop]
        congr 1
        omega
      · rename_i hout
        rcases List.mem_append.mp hq with hq | hq
        · have hold := h.bytes q hq i h₁ h₂ hi
          have hlt : i < file.length := by
            by_contra hge
            rw [List.getElem?_eq_none (by omega), List.getElem?_eq_getElem hi] at hold
            simp at hold
          rw [if_pos hlt, hold]
        · rw [List.mem_singleton] at hq
          subst hq
          omega

theorem agrees_foldl (fill : α) (whole : List α) (ps : List (Nat × Nat)) :
    Agrees whole ps (ps.foldl (putPiece fill whole) []) := by
  induction ps using List.reverseRecOn with
  | nil => exact ⟨Nat.zero_le _, fun p hp => absurd hp List.not_mem_nil⟩
  | append_singleton ps p ih =>
    rw [List.foldl_append]
    exact ih.put fill p

/-- Pieces that cover the file, put in any order and any number of times. -/
theorem foldl_putPiece (fill : α) (hcover : ∀ i < whole.length, ∃ p ∈ ps, p.1 ≤ i ∧ i < p.1 + p.2) :
    ps.foldl (putPiece fill whole) [] = whole := by
  have h := agrees_foldl fill whole ps
  refine List.ext_getElem? fun i => ?_
  by_cases hi : i < whole.length
  · obtain ⟨p, hp, h₁, h₂⟩ := hcover i hi
    exact h.bytes p hp i h₁ h₂ hi
  · have hlen := h.length
    rw [List.getElem?_eq_none (by omega), List.getElem?_eq_none (by omega)]

theorem putPiece_elsewhere (fill : α) (hp : ¬(p.1 ≤ i ∧ i < p.1 + p.2))
    (hf : file.getD i fill = fill) : (putPiece fill whole file p).getD i fill = fill := by
  by_cases hnil : (whole.drop p.1).take p.2 = []
  · rw [putPiece, writeAt, if_pos (by simp [hnil])]
    exact hf
  · have hlen : ((whole.drop p.1).take p.2).length ≤ p.2 := List.length_take_le ..
    rw [List.getD_eq_getElem?_getD, putPiece, writeAt_getElem? _ _ _ hnil, if_neg (by omega)]
    split
    · rwa [← List.getD_eq_getElem?_getD]
    · split <;> rfl

theorem foldl_putPiece_hole (fill : α) (h : ∀ p ∈ ps, ¬(p.1 ≤ i ∧ i < p.1 + p.2)) :
    (ps.foldl (putPiece fill whole) []).getD i fill = fill := by
  induction ps using List.reverseRecOn with
  | nil => rfl
  | append_singleton ps p ih =>
    rw [List.foldl_append]
    exact putPiece_elsewhere fill (h p (by simp)) (ih fun q hq => h q (List.mem_append_left _ hq))

-- ---------------------------------------------------------------------------
-- Bitmaps
-- ---------------------------------------------------------------------------

def getBit (m : List UInt8) (i : Nat) : Bool :=
  (m.getD (i / 8) 0).toNat &&& (1 <<< (i % 8)) != 0

def setBit (m : List UInt8) (i : Nat) : List UInt8 :=
  m.set (i / 8) (.ofNat ((m.getD (i / 8) 0).toNat ||| (1 <<< (i % 8))))

theorem getBit_eq_testBit (m : List UInt8) (i : Nat) :
    getBit m i = (m.getD (i / 8) 0).toNat.testBit (i % 8) := by
  simp only [getBit, Nat.one_shiftLeft, Nat.and_two_pow]
  cases Nat.testBit _ _ <;> simp

@[simp] theorem length_setBit (m : List UInt8) (i : Nat) : (setBit m i).length = m.length := by
  simp [setBit]

theorem getBit_setBit (h : i / 8 < m.length) (j : Nat) :
    getBit (setBit m i) j = (decide (i = j) || getBit m j) := by
  simp only [getBit_eq_testBit, setBit, Nat.one_shiftLeft]
  by_cases hd : i / 8 = j / 8
  · have hor : (m.getD (i / 8) 0).toNat ||| 2 ^ (i % 8) < 2 ^ 8 :=
      Nat.or_lt_two_pow (UInt8.toNat_lt _) (Nat.pow_lt_pow_right (by omega) (by omega))
    have hij : i % 8 = j % 8 ↔ i = j := by omega
    rw [← hd, List.getD_eq_getElem?_getD, List.getElem?_set_self h]
    simp only [Option.getD_some, UInt8.toNat_ofNat', Nat.mod_eq_of_lt hor, Nat.testBit_or,
      Nat.testBit_two_pow, hij]
    exact Bool.or_comm ..
  · have hne : i ≠ j := fun he => hd (by rw [he])
    simp [List.getD_eq_getElem?_getD, List.getElem?_set_ne hd, hne]

theorem getBit_replicate_zero (n i : Nat) : getBit (List.replicate n 0) i = false := by
  simp only [getBit_eq_testBit, List.getD_eq_getElem?_getD, List.getElem?_replicate]
  split <;> simp

theorem getBit_take (m : List UInt8) (h : i / 8 < n) : getBit (m.take n) i = getBit m i := by
  simp only [getBit, List.getD_eq_getElem?_getD, List.getElem?_take_of_lt h]

-- ---------------------------------------------------------------------------
-- Decimal text
-- ---------------------------------------------------------------------------

def decimal (n : Nat) : List UInt8 := (Nat.toDigits 10 n).map fun c => .ofNat c.toNat

def isDigit (b : UInt8) : Bool := 48 ≤ b ∧ b ≤ 57

/-- The number at the front of a text: 0 where there is no digit. -/
def ofDecimal (bs : List UInt8) : Nat :=
  (bs.takeWhile isDigit).foldl (fun acc b => 10 * acc + (b.toNat - 48)) 0

theorem toNat_digit {c : Char} (h : c.isDigit) : (UInt8.ofNat c.toNat).toNat = c.toNat := by
  have : c.toNat ≤ 57 := by
    simp only [Char.isDigit, Bool.and_eq_true, decide_eq_true_eq] at h
    exact h.2
  simp only [UInt8.toNat_ofNat']
  omega

theorem isDigit_of_mem_decimal (h : b ∈ decimal n) : isDigit b := by
  obtain ⟨c, hc, rfl⟩ := List.mem_map.mp h
  have hd := Nat.isDigit_of_mem_toDigits (b := 10) (by decide) (by decide) hc
  have hn := toNat_digit hd
  simp only [Char.isDigit, Bool.and_eq_true, decide_eq_true_eq] at hd
  simp only [isDigit, Bool.decide_and, Bool.and_eq_true, decide_eq_true_eq,
    UInt8.le_iff_toNat_le, hn]
  exact hd

theorem length_decimal_le (hk : 0 < k) (h : n < 10 ^ k) : (decimal n).length ≤ k := by
  rw [decimal, List.length_map]
  exact (Nat.length_toDigits_le_iff (by decide) hk).mpr h

theorem decimal_ne_nil (n : Nat) : decimal n ≠ [] := by simp [decimal]

theorem ofDecimal_decimal (n : Nat) (h : ∀ b ∈ rest.head?, isDigit b = false) :
    ofDecimal (decimal n ++ rest) = n := by
  have htake : (decimal n ++ rest).takeWhile isDigit = decimal n := by
    rw [List.takeWhile_append_of_pos fun b hb => isDigit_of_mem_decimal hb]
    cases rest with
    | nil => simp
    | cons b rest => simp [h b rfl]
  have hfold : ∀ (cs : List Char) (acc : Nat), (∀ c ∈ cs, c.isDigit) →
      (cs.map fun c => UInt8.ofNat c.toNat).foldl (fun acc b => 10 * acc + (b.toNat - 48)) acc =
        Nat.ofDigitChars 10 cs acc := by
    intro cs
    induction cs with
    | nil => intro acc _; simp
    | cons c cs ih =>
      intro acc hcs
      rw [List.map_cons, List.foldl_cons, Nat.ofDigitChars_cons, toNat_digit (hcs c (by simp))]
      exact ih _ fun d hd => hcs d (by simp [hd])
  rw [ofDecimal, htake, decimal,
    hfold _ _ fun c hc => Nat.isDigit_of_mem_toDigits (by decide) (by decide) hc,
    Nat.ofDigitChars_ten_toDigits]

end Bytes
