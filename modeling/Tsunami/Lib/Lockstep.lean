import Mathlib.Data.Option.Basic

/-!
# Two loops in lockstep

A loop that goes from head to head until its body leaves it, and a second one
over the same states whose body may go wrong. Where the body of the second does
what that of the first does as long as a condition holds, and parts from it for
good where the condition fails, the condition is exactly what keeps the two
together.
-/

namespace Lockstep

/-- A body: the state it leaves, and whether the loop goes on. -/
structure Loop (σ : Type u) (ε : Type v) where
  body : σ → ε → σ × Bool

structure Risky (σ : Type u) (ε : Type v) where
  body : σ → ε → Option (σ × Bool)

def Loop.run (L : Loop σ ε) : σ → List ε → σ
  | s, [] => s
  | s, e :: es => if (L.body s e).2 then L.run (L.body s e).1 es else (L.body s e).1

def Risky.run (K : Risky σ ε) : σ → List ε → Option σ
  | s, [] => some s
  | s, e :: es => (K.body s e).bind fun t => if t.2 then K.run t.1 es else some t.1

/-- `P` holds at every head that the loop comes to, of the state there and what
is next. -/
def Loop.Throughout (L : Loop σ ε) (P : σ → ε → Prop) : σ → List ε → Prop
  | _, [] => True
  | s, e :: es => P s e ∧ ((L.body s e).2 = true → L.Throughout P (L.body s e).1 es)

/-- While `P` holds the risky loop goes the way of the other. -/
structure Follows (L : Loop σ ε) (K : Risky σ ε) (I : σ → Prop) (P : σ → ε → Prop) : Prop where
  same {s : σ} {e : ε} : I s → P s e → K.body s e = some (L.body s e)
  keeps {s : σ} {e : ε} : I s → P s e → I (L.body s e).1

/-- Where `P` fails it goes wrong at once, or comes to a state in `D`, which it
does not get out of, and which the other never comes to. -/
structure Parts (L : Loop σ ε) (K : Risky σ ε) (I J D : σ → Prop) (P : σ → ε → Prop) : Prop where
  parts {s : σ} {e : ε} {t : σ × Bool} : I s → ¬P s e → K.body s e = some t → D t.1
  stays {s : σ} {e : ε} {t : σ × Bool} : D s → K.body s e = some t → D t.1
  never {s : σ} {e : ε} : J s → J (L.body s e).1

section
variable {L : Loop σ ε} {K : Risky σ ε} {P : σ → ε → Prop} {I J D : σ → Prop} {s t : σ}
  {es : List ε}

theorem Loop.run_invariant (h : J s) (hs : ∀ s e, J s → J (L.body s e).1) : J (L.run s es) := by
  induction es generalizing s with
  | nil => exact h
  | cons e es ih =>
    rw [Loop.run]
    split
    · exact ih (hs s e h)
    · exact hs s e h

theorem Risky.run_invariant (h : D s) (hs : ∀ s e t, D s → K.body s e = some t → D t.1)
    (hr : K.run s es = some t) : D t := by
  induction es generalizing s with
  | nil =>
    cases hr
    exact h
  | cons e es ih =>
    obtain ⟨u, hu, hr⟩ := Option.bind_eq_some_iff.mp hr
    have hd := hs s e u h hu
    split at hr
    · exact ih hd hr
    · cases hr
      exact hd

theorem Follows.run (hf : Follows L K I P) (h : I s) (hp : L.Throughout P s es) :
    K.run s es = some (L.run s es) ∧ I (L.run s es) := by
  induction es generalizing s with
  | nil => exact ⟨rfl, h⟩
  | cons e es ih =>
    obtain ⟨he, hes⟩ := hp
    rw [Risky.run, hf.same h he, Option.bind_some, Loop.run]
    split
    · rename_i hon
      exact ih (hf.keeps h he) (hes hon)
    · exact ⟨rfl, hf.keeps h he⟩

theorem Parts.run (hf : Follows L K I P) (hd : Parts L K I J D P) (h : I s)
    (hp : ¬L.Throughout P s es) (hr : K.run s es = some t) : D t := by
  induction es generalizing s with
  | nil => exact absurd trivial hp
  | cons e es ih =>
    obtain ⟨u, hu, ht⟩ := Option.bind_eq_some_iff.mp hr
    by_cases he : P s e
    · obtain rfl : L.body s e = u := Option.some.inj ((hf.same h he).symm.trans hu)
      have hrest : ¬((L.body s e).2 = true → L.Throughout P (L.body s e).1 es) :=
        fun hrest => hp ⟨he, hrest⟩
      rw [Classical.not_imp] at hrest
      rw [if_pos hrest.1] at ht
      exact ih (hf.keeps h he) hrest.2 ht
    · have hwrong := hd.parts h he hu
      split at ht
      · exact Risky.run_invariant hwrong (fun _ _ _ => hd.stays) ht
      · cases ht
        exact hwrong

/-- What is seen of the two runs is the same if and only if `P` holds throughout,
when states in `D` can be told from those of the first loop. -/
theorem agree_iff {view : σ → α} (hf : Follows L K I P) (hd : Parts L K I J D P)
    (hapart : ∀ s t, J s → D t → view t ≠ view s) (hi : I s) (hj : J s) :
    (K.run s es).map view = some (view (L.run s es)) ↔ L.Throughout P s es := by
  constructor
  · intro hsame
    by_contra hp
    obtain ⟨t, ht, hview⟩ := Option.map_eq_some_iff.mp hsame
    have hwrong := hd.run hf hi hp ht
    exact hapart _ t (Loop.run_invariant hj fun _ _ => hd.never) hwrong hview
  · intro hp
    rw [(hf.run hi hp).1, Option.map_some]

end

end Lockstep
