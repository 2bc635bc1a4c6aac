import Mathlib.Data.List.TakeWhile

/-!
# Fields with a separator between them

A text is taken apart at a separator from the left, an empty rest having no
fields, or cut once at the last separator. Fields joined by the separator are
found again if it is in none of them.
-/

namespace Tokens

section

variable {α : Type u} [DecidableEq α] {sep : α} {text field rest front back : List α}
  {fields : List (List α)}

/-- The first field, and what is behind its separator. -/
def next (sep : α) (text : List α) : Option (List α × List α) :=
  match text with
  | [] => none
  | _ :: _ => some (text.takeWhile (· ≠ sep), (text.dropWhile (· ≠ sep)).drop 1)

def upTo (sep : α) : Nat → List α → List (List α)
  | 0, _ => []
  | n + 1, text =>
    match next sep text with
    | none => []
    | some (field, rest) => field :: upTo sep n rest

def all (sep : α) (text : List α) : List (List α) := upTo sep text.length text

def cutLast (sep : α) : List α → Option (List α × List α)
  | [] => none
  | a :: text =>
    match cutLast sep text with
    | some (front, back) => some (a :: front, back)
    | none => if a = sep then some ([], text) else none

-- ---------------------------------------------------------------------------
-- Taking apart
-- ---------------------------------------------------------------------------

theorem length_next (h : next sep text = some (field, rest)) : rest.length < text.length := by
  cases text with
  | nil => cases h
  | cons a text =>
    obtain ⟨-, rfl⟩ := Prod.mk.inj (Option.some.inj h)
    have hle := List.length_dropWhile_le (p := fun b => decide (b ≠ sep)) (l := a :: text)
    rw [List.length_drop, List.length_cons] at *
    omega

theorem upTo_of_le (h : text.length ≤ n) : upTo sep n text = all sep text := by
  suffices hsame : ∀ m n, ∀ text : List α, text.length ≤ m → text.length ≤ n →
      upTo sep m text = upTo sep n text from hsame _ _ _ h (Nat.le_refl _)
  intro m
  induction m with
  | zero =>
    intro n text hm _
    rw [List.length_eq_zero_iff.mp (Nat.le_zero.mp hm)]
    cases n <;> rfl
  | succ m ih =>
    intro n text hm hn
    cases n with
    | zero =>
      rw [List.length_eq_zero_iff.mp (Nat.le_zero.mp hn)]
      rfl
    | succ n =>
      rw [upTo, upTo]
      cases hnext : next sep text with
      | none => rfl
      | some pair =>
        have hlt : pair.2.length < text.length :=
          length_next (show next sep text = some (pair.1, pair.2) from hnext)
        exact congrArg _ (ih n pair.2 (by omega) (by omega))

theorem all_of_next (h : next sep text = some (field, rest)) :
    all sep text = field :: all sep rest := by
  have hlt := length_next h
  obtain ⟨n, hn⟩ : ∃ n, text.length = n + 1 := ⟨text.length - 1, by omega⟩
  rw [all, hn, upTo, h]
  exact congrArg _ (upTo_of_le (by omega))

theorem next_append (hsep : sep ∉ field) (rest : List α) :
    next sep (field ++ sep :: rest) = some (field, rest) := by
  have hkeep : ∀ a ∈ field, decide (a ≠ sep) = true := fun a ha =>
    decide_eq_true fun h => hsep (h ▸ ha)
  have htake : (field ++ sep :: rest).takeWhile (· ≠ sep) = field := by
    rw [List.takeWhile_append_of_pos hkeep]
    simp
  have hdrop : (field ++ sep :: rest).dropWhile (· ≠ sep) = sep :: rest := by
    rw [List.dropWhile_append_of_pos hkeep]
    simp
  cases hcase : field ++ sep :: rest with
  | nil => simp at hcase
  | cons a text => rw [next, ← hcase, htake, hdrop, List.drop_one, List.tail_cons]

theorem next_last (hne : field ≠ []) (hsep : sep ∉ field) : next sep field = some (field, []) := by
  have hkeep : ∀ a ∈ field, decide (a ≠ sep) = true := fun a ha =>
    decide_eq_true fun h => hsep (h ▸ ha)
  cases field with
  | nil => exact absurd rfl hne
  | cons a field =>
    rw [next, List.takeWhile_eq_self_iff.mpr hkeep, List.dropWhile_eq_nil_iff.mpr hkeep,
      List.drop_nil]

theorem cutLast_of_not_mem (hsep : sep ∉ text) : cutLast sep text = none := by
  induction text with
  | nil => rfl
  | cons a text ih =>
    have hne : ¬a = sep := fun h => hsep (h ▸ List.mem_cons_self)
    rw [cutLast, ih fun h => hsep (List.mem_cons_of_mem _ h)]
    exact if_neg hne

theorem cutLast_append (hsep : sep ∉ back) (front : List α) :
    cutLast sep (front ++ sep :: back) = some (front, back) := by
  induction front with
  | nil => rw [List.nil_append, cutLast, cutLast_of_not_mem hsep]; exact if_pos rfl
  | cons a front ih => rw [List.cons_append, cutLast, ih]

end

-- ---------------------------------------------------------------------------
-- Joining
-- ---------------------------------------------------------------------------

def joined (sep : α) : List (List α) → List α
  | [] => []
  | [field] => field
  | field :: fields => field ++ sep :: joined sep fields

theorem joined_cons_cons (sep : α) (field next : List α) (fields : List (List α)) :
    joined sep (field :: next :: fields) = field ++ sep :: joined sep (next :: fields) :=
  rfl

theorem joined_cons (sep : α) (field : List α) (fields : List (List α)) :
    ∃ rest, joined sep (field :: fields) = field ++ rest := by
  cases fields with
  | nil => exact ⟨[], (List.append_nil field).symm⟩
  | cons => exact ⟨_, rfl⟩

theorem not_mem_joined {a sep : α} {fields : List (List α)} (hne : a ≠ sep)
    (hfields : ∀ field ∈ fields, a ∉ field) : a ∉ joined sep fields := by
  induction fields with
  | nil => exact List.not_mem_nil
  | cons field fields ih =>
    obtain ⟨hfield, hfields⟩ := List.forall_mem_cons.mp hfields
    cases fields with
    | nil => exact hfield
    | cons next fields =>
      rw [joined_cons_cons, List.mem_append, List.mem_cons]
      rintro (h | h | h)
      · exact hfield h
      · exact hne h
      · exact ih hfields h

variable [DecidableEq α] {sep : α} {field : List α} {fields : List (List α)}

theorem next_joined (hne : field ≠ []) (hsep : sep ∉ field) :
    next sep (joined sep (field :: fields)) = some (field, joined sep fields) := by
  cases fields with
  | nil => exact next_last hne hsep
  | cons => exact next_append hsep _

theorem all_joined (hfields : ∀ field ∈ fields, field ≠ [] ∧ sep ∉ field) :
    all sep (joined sep fields) = fields := by
  induction fields with
  | nil => rfl
  | cons field fields ih =>
    obtain ⟨hne, hsep⟩ := hfields field List.mem_cons_self
    rw [all_of_next (next_joined hne hsep), ih fun f hf => hfields f (List.mem_cons_of_mem _ hf)]

end Tokens
