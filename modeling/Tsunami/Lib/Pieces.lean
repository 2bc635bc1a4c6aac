import Tsunami.Lib.Bytes

/-!
# Records read in pieces

A stream of records of one size is read into a buffer for one of them, every
piece to the place behind what is there.
-/

namespace Pieces

open Bytes

variable {α : Type u} {stream stream' buffer piece : List α} {size k n : Nat}

/-- The buffer begins with the next `n` elements of the stream behind `k`
records. -/
structure Part (size : Nat) (stream : List α) (k n : Nat) (buffer : List α) : Prop where
  length : buffer.length = size
  taken : buffer.take n = (stream.drop (size * k)).take n

theorem Part.start (h : buffer.length = size) : Part size stream k 0 buffer :=
  ⟨h, by rw [List.take_zero, List.take_zero]⟩

theorem Part.fill (h : Part size stream k n buffer) (hp : piece <+: stream.drop (size * k + n))
    (hfits : n + piece.length ≤ size) :
    Part size stream k (n + piece.length) (blit buffer n piece) := by
  have hlen := h.length
  refine ⟨?_, ?_⟩
  · rw [length_blit (by omega), hlen]
  · rw [take_blit_append (by omega), h.taken, List.take_add, List.drop_drop,
      ← List.prefix_iff_eq_take.mp hp]

theorem Part.whole (h : Part size stream k size buffer) :
    buffer = (stream.drop (size * k)).take size := by
  have htaken := h.taken
  rwa [List.take_of_length_le (Nat.le_of_eq h.length)] at htaken

theorem Part.grow (h : Part size stream k n buffer) (hpre : stream <+: stream')
    (hle : size * k + n ≤ stream.length) : Part size stream' k n buffer := by
  obtain ⟨more, rfl⟩ := hpre
  refine ⟨h.length, ?_⟩
  rw [h.taken, List.drop_append_of_le_length (by omega),
    List.take_append_of_le_length (by rw [List.length_drop]; omega)]

end Pieces
