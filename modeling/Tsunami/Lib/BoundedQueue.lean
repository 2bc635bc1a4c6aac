import Tsunami.Lib.Transition

/-!
# Bounded FIFO queues

The queue of capacity `cap` as a transition system: `put` appends while there
is room, `get` takes the oldest item. The state keeps the history of both
ends, so that a run can be compared with an implementation's run.
-/

namespace BoundedQueue

open Transition

structure State (α : Type u) where
  items : List α
  put : List α
  got : List α

inductive Event (α : Type u)
  | put (a : α)
  | get

def step (cap : Nat) (s : State α) : Event α → Option (State α)
  | .put a =>
    if s.items.length < cap then
      some { s with items := s.items ++ [a], put := s.put ++ [a] }
    else none
  | .get =>
    match s.items with
    | [] => none
    | a :: rest => some { s with items := rest, got := s.got ++ [a] }

def system (cap : Nat) : System (State α) (Event α) where
  init s := s = ⟨[], [], []⟩
  step := step cap

/-- What was put is what was got followed by what is still queued: nothing is
lost, duplicated, reordered or altered, and the capacity is never exceeded. -/
structure Ordered (cap : Nat) (s : State α) : Prop where
  history : s.put = s.got ++ s.items
  bounded : s.items.length ≤ cap

theorem step_ordered (h : Ordered cap s) (hs : step cap s e = some t) : Ordered cap t := by
  cases e with
  | put a =>
    simp only [step, Option.ite_none_right_eq_some, Option.some.injEq] at hs
    obtain ⟨hroom, rfl⟩ := hs
    exact ⟨by simp [h.history], by simp; omega⟩
  | get =>
    simp only [step] at hs
    split at hs
    · simp at hs
    · rename_i a rest hitems
      simp only [Option.some.injEq] at hs
      subst hs
      have hb := h.bounded
      simp only [hitems, List.length_cons] at hb
      exact ⟨by simp [h.history, hitems], by simp only; omega⟩

theorem ordered {s : State α} (h : (system cap).Reachable s) : Ordered cap s :=
  h.invariant (by rintro s rfl; exact ⟨rfl, Nat.zero_le _⟩) fun _ _ _ => step_ordered

end BoundedQueue
