import Mathlib.Data.List.Basic

/-!
# Guarded transition systems

A system has initial states and a partial step function: `step s e` is the
state after event `e`, or `none` where `e` is not enabled in `s`. The same
definition replays a concrete list of events and is the subject of the
invariant and simulation rules below.
-/

namespace Transition

structure System (σ : Type u) (ε : Type v) where
  init : σ → Prop
  step : σ → ε → Option σ

namespace System

variable {M : System σ ε} {A : System τ δ}

def run (M : System σ ε) : σ → List ε → Option σ
  | s, [] => some s
  | s, e :: es => (M.step s e).bind fun t => M.run t es

@[simp] theorem run_nil : M.run s [] = some s := rfl

theorem run_cons : M.run s (e :: es) = some u ↔ ∃ t, M.step s e = some t ∧ M.run t es = some u := by
  simp [run, Option.bind_eq_some_iff]

inductive Reachable (M : System σ ε) : σ → Prop
  | init : M.init s → M.Reachable s
  | step : M.Reachable s → M.step s e = some t → M.Reachable t

/-- Reached by steps that all satisfy `P`. -/
inductive ReachableBy (M : System σ ε) (P : σ → ε → Prop) : σ → Prop
  | init : M.init s → M.ReachableBy P s
  | step : M.ReachableBy P s → P s e → M.step s e = some t → M.ReachableBy P t

/-- The invariant rule: what holds initially and survives every step holds
in every reachable state. -/
theorem Reachable.invariant {I : σ → Prop} (h : M.Reachable s) (hi : ∀ s, M.init s → I s)
    (hs : ∀ s e t, I s → M.step s e = some t → I t) : I s := by
  induction h with
  | init h => exact hi _ h
  | step _ h ih => exact hs _ _ _ ih h

theorem Reachable.run (h : M.Reachable s) (hr : M.run s es = some t) : M.Reachable t := by
  induction es generalizing s with
  | nil => simp at hr; exact hr ▸ h
  | cons e es ih =>
    obtain ⟨u, hu, ht⟩ := run_cons.mp hr
    exact ih (h.step hu) ht

theorem ReachableBy.reachable (h : M.ReachableBy P s) : M.Reachable s := by
  induction h with
  | init h => exact .init h
  | step _ _ hs ih => exact ih.step hs

theorem ReachableBy.invariant {I : σ → Prop} (h : M.ReachableBy P s) (hi : ∀ s, M.init s → I s)
    (hs : ∀ s e t, M.Reachable s → I s → P s e → M.step s e = some t → I t) : I s := by
  induction h with
  | init h => exact hi _ h
  | step hr hp h ih => exact hs _ _ _ hr.reachable ih hp h

/-- A run from `s` by steps that all satisfy `P`. -/
inductive Path (M : System σ ε) (P : σ → ε → Prop) (s : σ) : σ → Prop
  | refl : M.Path P s s
  | step : M.Path P s t → P t e → M.step t e = some u → M.Path P s u

theorem Path.single (hp : P s e) (hs : M.step s e = some t) : M.Path P s t := .step .refl hp hs

theorem Path.trans (h : M.Path P s t) (h' : M.Path P t u) : M.Path P s u := by
  induction h' with
  | refl => exact h
  | step _ hp hs ih => exact ih.step hp hs

theorem Path.run (hr : M.run s es = some t) (hp : ∀ e ∈ es, ∀ s, P s e) : M.Path P s t := by
  induction es generalizing s with
  | nil =>
    simp only [run_nil, Option.some.injEq] at hr
    exact hr ▸ .refl
  | cons e es ih =>
    obtain ⟨u, hu, ht⟩ := run_cons.mp hr
    exact (Path.single (hp e (List.mem_cons_self ..) s) hu).trans
      (ih ht fun e he => hp e (List.mem_cons_of_mem _ he))

theorem Path.mono (h : M.Path P s t) (hpq : ∀ s e, P s e → Q s e) : M.Path Q s t := by
  induction h with
  | refl => exact .refl
  | step _ hp hs ih => exact ih.step (hpq _ _ hp) hs

theorem ReachableBy.path (h : M.ReachableBy P s) (hp : M.Path P s t) : M.ReachableBy P t := by
  induction hp with
  | refl => exact h
  | step _ hp hs ih => exact ih.step hp hs

def checkedRun (M : System σ ε) (P : σ → ε → Prop) [∀ s e, Decidable (P s e)] :
    σ → List ε → Option σ
  | s, [] => some s
  | s, e :: es => if P s e then (M.step s e).bind fun t => M.checkedRun P t es else none

theorem Path.checkedRun [∀ s e, Decidable (P s e)] (hr : M.checkedRun P s es = some t) :
    M.Path P s t := by
  induction es generalizing s with
  | nil =>
    simp only [System.checkedRun, Option.some.injEq] at hr
    exact hr ▸ .refl
  | cons e es ih =>
    simp only [System.checkedRun, Option.ite_none_right_eq_some, Option.bind_eq_some_iff] at hr
    obtain ⟨hp, u, hu, ht⟩ := hr
    exact (Path.single hp hu).trans (ih ht)

def Throughout (M : System σ ε) (P : σ → ε → σ → Prop) : σ → List ε → Prop
  | _, [] => True
  | s, e :: es => ∀ t, M.step s e = some t → P s e t ∧ M.Throughout P t es

/-- Where `I` makes two properties of a step equivalent, and a step that has
them keeps `I`, they are equivalent throughout a run. -/
theorem Throughout.iff {I : σ → Prop} {P Q : σ → ε → σ → Prop} (h : I s)
    (hpq : ∀ s e t, I s → M.step s e = some t → (P s e t ↔ Q s e t))
    (hs : ∀ s e t, I s → P s e t → M.step s e = some t → I t) :
    M.Throughout P s es ↔ M.Throughout Q s es := by
  induction es generalizing s with
  | nil => exact Iff.rfl
  | cons e es ih =>
    refine forall_congr' fun t => forall_congr' fun ht => ?_
    rw [← hpq s e t h ht]
    exact and_congr_right fun hp => ih (hs s e t h hp ht)

theorem Throughout.run_append (hr : M.run s es = some t) :
    M.Throughout P s (es ++ fs) ↔ M.Throughout P s es ∧ M.Throughout P t fs := by
  induction es generalizing s with
  | nil =>
    simp only [run_nil, Option.some.injEq] at hr
    simp [Throughout, hr]
  | cons e es ih =>
    obtain ⟨u, hu, ht⟩ := run_cons.mp hr
    simp [Throughout, hu, ih ht, and_assoc]

-- ---------------------------------------------------------------------------
-- Simulation
-- ---------------------------------------------------------------------------

/-- `R` relates every step of `M` to a finite run of `A`. -/
structure Simulates (M : System σ ε) (A : System τ δ) (R : σ → τ → Prop) : Prop where
  init : ∀ s, M.init s → ∃ a, A.init a ∧ R s a
  step : ∀ s e t a, R s a → M.step s e = some t → ∃ fs b, A.run a fs = some b ∧ R t b

theorem Simulates.reachable {R : σ → τ → Prop} (sim : Simulates M A R) (h : M.Reachable s) :
    ∃ a, A.Reachable a ∧ R s a := by
  induction h with
  | init h =>
    obtain ⟨a, ha, hr⟩ := sim.init _ h
    exact ⟨a, .init ha, hr⟩
  | step _ hs ih =>
    obtain ⟨a, ha, hr⟩ := ih
    obtain ⟨fs, b, hb, hr⟩ := sim.step _ _ _ _ hr hs
    exact ⟨b, ha.run hb, hr⟩

/-- A component: `f` reads a state of `A` off a state of `M`, and every step
of `M` moves it by at most one step of `A`. -/
theorem Reachable.component {f : σ → τ} (h : M.Reachable s) (hi : ∀ s, M.init s → A.init (f s))
    (hs : ∀ s e t, M.Reachable s → M.step s e = some t →
      f t = f s ∨ ∃ d, A.step (f s) d = some (f t)) : A.Reachable (f s) := by
  induction h with
  | init h => exact .init (hi _ h)
  | step hr h ih =>
    rcases hs _ _ _ hr h with heq | ⟨d, hd⟩
    · exact heq ▸ ih
    · exact ih.step hd

end System

end Transition
