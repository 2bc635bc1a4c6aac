import Mathlib.Data.Nat.Digits.Defs
import Tsunami.Lib.Bytes

/-!
# Integers in memory

How a host of either byte order keeps an unsigned integer of `n` bytes, and
the conversions between its order and that of the network. Of a value that
does not fit, the low bytes are kept.
-/

namespace Endian

inductive ByteOrder
  | little
  | big
  deriving DecidableEq, Repr

def le : Nat → Nat → List UInt8
  | 0, _ => []
  | n + 1, v => .ofNat v :: le n (v / 256)

def ofLe (bs : List UInt8) : Nat := Nat.ofDigits 256 (bs.map UInt8.toNat)

def ByteOrder.store : ByteOrder → Nat → Nat → List UInt8
  | .little, n, v => le n v
  | .big, n, v => (le n v).reverse

def ByteOrder.load : ByteOrder → List UInt8 → Nat
  | .little, bs => ofLe bs
  | .big, bs => ofLe bs.reverse

/-- The value that looks in the memory of the host as `v` looks on the wire. -/
def hton (o : ByteOrder) (n v : Nat) : Nat := o.load (ByteOrder.big.store n v)

def ntoh (o : ByteOrder) (n v : Nat) : Nat := ByteOrder.big.load (o.store n v)

-- ---------------------------------------------------------------------------
-- Bytes, least significant first
-- ---------------------------------------------------------------------------

@[simp] theorem length_le (n v : Nat) : (le n v).length = n := by
  induction n generalizing v with
  | zero => rfl
  | succ n ih => rw [le, List.length_cons, ih]

theorem ofLe_cons (b : UInt8) (bs : List UInt8) : ofLe (b :: bs) = b.toNat + 256 * ofLe bs :=
  Nat.ofDigits_cons

theorem ofLe_append (bs cs : List UInt8) :
    ofLe (bs ++ cs) = ofLe bs + 256 ^ bs.length * ofLe cs := by
  rw [ofLe, List.map_append, Nat.ofDigits_append, List.length_map]
  rfl

theorem ofLe_le (n v : Nat) : ofLe (le n v) = v % 256 ^ n := by
  induction n generalizing v with
  | zero => exact (Nat.mod_one v).symm
  | succ n ih =>
    have hbyte : (UInt8.ofNat v).toNat = v % 256 := UInt8.toNat_ofNat'
    rw [le, ofLe_cons, ih, hbyte, pow_succ', Nat.mod_mul]

theorem le_ofLe (bs : List UInt8) : le bs.length (ofLe bs) = bs := by
  induction bs with
  | nil => rfl
  | cons b bs ih =>
    have hb := b.toNat_lt
    have hbyte : UInt8.ofNat (b.toNat + 256 * ofLe bs) = b := by
      refine UInt8.toNat_inj.mp ?_
      rw [UInt8.toNat_ofNat']
      omega
    have hrest : (b.toNat + 256 * ofLe bs) / 256 = ofLe bs := by omega
    rw [ofLe_cons, List.length_cons, le, hbyte, hrest, ih]

theorem le_add (m n v : Nat) : le (m + n) v = le m v ++ le n (v / 256 ^ m) := by
  induction m generalizing v with
  | zero => simp [le]
  | succ m ih =>
    rw [Nat.succ_add, le, ih, le, List.cons_append, Nat.div_div_eq_div_mul, ← pow_succ']

theorem le_mod (n v : Nat) : le n (v % 256 ^ n) = le n v := by
  have h := le_ofLe (le n v)
  rwa [length_le, ofLe_le] at h

theorem ofLe_replicate_zero (n : Nat) : ofLe (List.replicate n 0) = 0 := by
  rw [ofLe, List.map_replicate]
  exact Nat.ofDigits_replicate_zero

-- ---------------------------------------------------------------------------
-- Both orders
-- ---------------------------------------------------------------------------

section
variable (o : ByteOrder)

@[simp] theorem length_store (n v : Nat) : (o.store n v).length = n := by
  cases o with
  | little => exact length_le n v
  | big => rw [ByteOrder.store, List.length_reverse, length_le]

@[simp] theorem load_store (n v : Nat) : o.load (o.store n v) = v % 256 ^ n := by
  cases o with
  | little => exact ofLe_le n v
  | big => rw [ByteOrder.store, ByteOrder.load, List.reverse_reverse, ofLe_le]

theorem load_lt (bs : List UInt8) : o.load bs < 256 ^ bs.length := by
  have hlt : ∀ bs, ofLe bs < 256 ^ bs.length := fun bs => by
    have h := ofLe_le bs.length (ofLe bs)
    rw [le_ofLe] at h
    exact h ▸ Nat.mod_lt _ (by positivity)
  cases o with
  | little => exact hlt bs
  | big =>
    have h := hlt bs.reverse
    rwa [List.length_reverse] at h

theorem store_load {bs : List UInt8} (h : bs.length = n) : o.store n (o.load bs) = bs := by
  subst h
  cases o with
  | little => exact le_ofLe bs
  | big =>
    have := le_ofLe bs.reverse
    rw [List.length_reverse] at this
    rw [ByteOrder.store, ByteOrder.load, this, List.reverse_reverse]

theorem store_hton (n v : Nat) : o.store n (hton o n v) = ByteOrder.big.store n v :=
  store_load o (length_store _ _ _)

theorem ntoh_load {bs : List UInt8} (h : bs.length = n) :
    ntoh o n (o.load bs) = ByteOrder.big.load bs := by
  rw [ntoh, store_load o h]

theorem hton_lt (n v : Nat) : hton o n v < 256 ^ n := by
  have h := load_lt o (ByteOrder.big.store n v)
  rwa [length_store] at h

theorem hton_eq_ntoh (n v : Nat) : hton o n v = ntoh o n v := by
  cases o <;> rfl

theorem hton_big (n v : Nat) : hton .big n v = v % 256 ^ n := load_store .big n v

end

-- ---------------------------------------------------------------------------
-- The fixed widths
-- ---------------------------------------------------------------------------

open Bytes

theorem store_big_two (v : Nat) : ByteOrder.big.store 2 v = be16 v := rfl

theorem store_big_four (v : Nat) : ByteOrder.big.store 4 v = be32 v := by
  simp only [ByteOrder.store, le, be32, Nat.div_div_eq_div_mul]
  rfl

theorem store_big_eight (v : Nat) : ByteOrder.big.store 8 v = be64 v := by
  have hsplit : le 8 v = le 4 v ++ le 4 (v / 2 ^ 32) := le_add 4 4 v
  rw [ByteOrder.store, hsplit, List.reverse_append, be64, ← store_big_four, ← store_big_four]
  rfl

theorem load_big (bs : List UInt8) : ByteOrder.big.load bs = ofBe bs := by
  induction bs using List.reverseRecOn with
  | nil => rfl
  | append_singleton bs b ih =>
    rw [ofBe_append_singleton, ← ih, ByteOrder.load, List.reverse_append, List.reverse_singleton]
    rw [List.singleton_append, ofLe_cons, Nat.add_comm, Nat.mul_comm]
    rfl

end Endian
