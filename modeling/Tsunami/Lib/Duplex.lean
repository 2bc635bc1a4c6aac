import Mathlib.Logic.Relation
import Tsunami.Lib.Transition

/-!
# Two sequential programs over a duplex byte stream

Each party is a deterministic script of single-byte writes and blocking reads.
The parties share nothing but two FIFO channels, so their steps commute and
every order of steps leads to the same end: what one schedule shows about the
end of a run holds of all of them.

Every byte is tagged with the kind of field it was written as and every read
with the kind it is taken for; a party keeps the pairs that differ.
-/

namespace Duplex

open Transition Relation

/-- What a party still does. `goto a` stands for the script of state `a`. -/
inductive Script (κ σ : Type)
  | halt
  | goto (a : σ)
  | put (kind : κ) (b : UInt8) (next : Script κ σ)
  | get (kind : κ) (next : UInt8 → Script κ σ)

variable {κ σ τ : Type}

namespace Script

def write (k : κ) (bs : List UInt8) (next : Script κ σ) : Script κ σ := bs.foldr (.put k) next

def read (k : κ) : Nat → (List UInt8 → Script κ σ) → Script κ σ
  | 0, f => f []
  | n + 1, f => .get k fun b => read k n fun bs => f (b :: bs)

/-- Reads up to a byte that ends the line, or `n + 1` bytes if none of them
does. The last byte read is dropped. -/
def readTo (k : κ) (ends : UInt8 → Bool) : Nat → (List UInt8 → Script κ σ) → Script κ σ
  | 0, f => .get k fun _ => f []
  | n + 1, f => .get k fun b => if ends b then f [] else readTo k ends n fun bs => f (b :: bs)

theorem write_append (k : κ) (bs cs : List UInt8) (next : Script κ σ) :
    write k (bs ++ cs) next = write k bs (write k cs next) := List.foldr_append ..

theorem read_congr {k : κ} {f g : List UInt8 → Script κ σ} (h : ∀ bs, bs.length = n → f bs = g bs) :
    read k n f = read k n g := by
  induction n generalizing f g with
  | zero => exact h [] rfl
  | succ n ih =>
    rw [read, read]
    exact congrArg _ (funext fun b => ih fun bs hbs => h (b :: bs) (congrArg (· + 1) hbs))

/-- Whatever it reads, the script comes to no other result. -/
inductive Yields (P : σ → Prop) : Script κ σ → Prop
  | halt : Yields P .halt
  | goto : P a → Yields P (.goto a)
  | put : Yields P next → Yields P (.put k b next)
  | get : (∀ b, Yields P (f b)) → Yields P (.get k f)

theorem Yields.write {P : σ → Prop} {next : Script κ σ} (h : Yields P next) :
    Yields P (write k bs next) := by
  induction bs with
  | nil => exact h
  | cons b bs ih => exact .put ih

theorem Yields.read {P : σ → Prop} {f : List UInt8 → Script κ σ} (h : ∀ bs, Yields P (f bs)) :
    Yields P (read k n f) := by
  induction n generalizing f with
  | zero => exact h []
  | succ n ih => exact .get fun b => ih fun bs => h (b :: bs)

theorem Yields.readTo {P : σ → Prop} {ends : UInt8 → Bool} {f : List UInt8 → Script κ σ}
    (h : ∀ line, (∀ b ∈ line, ends b = false) → line.length ≤ n → Yields P (f line)) :
    Yields P (readTo k ends n f) := by
  induction n generalizing f with
  | zero => exact .get fun _ => h [] (by simp) (Nat.le_refl 0)
  | succ n ih =>
    refine .get fun b => ?_
    split
    · exact h [] (by simp) (Nat.zero_le _)
    · rename_i hb
      refine ih fun line hline hlen => h (b :: line) ?_ (Nat.succ_le_succ hlen)
      exact List.forall_mem_cons.mpr ⟨eq_false_of_ne_true hb, hline⟩

end Script

/-- A party: the rest of its script, the bytes under way to it, and the reads
whose kind was not the kind written. -/
structure Party (κ σ : Type) where
  script : Script κ σ
  inbox : List (κ × UInt8)
  strays : List (κ × κ)

structure Pair (κ σ τ : Type) where
  left : Party κ σ
  right : Party κ τ

inductive Side
  | left
  | right
  deriving DecidableEq, Repr

namespace Party

def start (s : Script κ σ) : Party κ σ := ⟨s, [], []⟩

def receive (p : Party κ σ) (out : List (κ × UInt8)) : Party κ σ :=
  { p with inbox := p.inbox ++ out }

@[simp] theorem receive_nil (p : Party κ σ) : p.receive [] = p := by simp [receive]

theorem receive_receive (p : Party κ σ) :
    (p.receive out).receive out' = p.receive (out ++ out') := by
  simp [receive]

@[simp] theorem receive_mk : (⟨s, i, t⟩ : Party κ σ).receive out = ⟨s, i ++ out, t⟩ := rfl

variable [DecidableEq κ]

def advance (body : σ → Script κ σ) (p : Party κ σ) : Option (Party κ σ × List (κ × UInt8)) :=
  match p.script with
  | .halt => none
  | .goto a => some ({ p with script := body a }, [])
  | .put k b next => some ({ p with script := next }, [(k, b)])
  | .get k next =>
    match p.inbox with
    | [] => none
    | (w, b) :: rest =>
      some (⟨next b, rest, if k = w then p.strays else p.strays ++ [(k, w)]⟩, [])

inductive Advances (body : σ → Script κ σ) : Party κ σ → Party κ σ → List (κ × UInt8) → Prop
  | goto : Advances body ⟨.goto a, i, t⟩ ⟨body a, i, t⟩ []
  | put : Advances body ⟨.put k b next, i, t⟩ ⟨next, i, t⟩ [(k, b)]
  | get : Advances body ⟨.get k f, (w, b) :: i, t⟩ ⟨f b, i, if k = w then t else t ++ [(k, w)]⟩ []

theorem advances {body : σ → Script κ σ} {p p' : Party κ σ}
    (h : p.advance body = some (p', out)) : Advances body p p' out := by
  obtain ⟨script, inbox, strays⟩ := p
  cases script with
  | halt => simp [advance] at h
  | goto a =>
    simp only [advance, Option.some.injEq, Prod.mk.injEq] at h
    obtain ⟨rfl, rfl⟩ := h
    exact .goto
  | put k b next =>
    simp only [advance, Option.some.injEq, Prod.mk.injEq] at h
    obtain ⟨rfl, rfl⟩ := h
    exact .put
  | get k next =>
    cases inbox with
    | nil => simp [advance] at h
    | cons wb rest =>
      simp only [advance, Option.some.injEq, Prod.mk.injEq] at h
      obtain ⟨rfl, rfl⟩ := h
      exact .get

theorem advance_receive {body : σ → Script κ σ} {p p' : Party κ σ}
    (h : p.advance body = some (p', out)) :
    (p.receive extra).advance body = some (p'.receive extra, out) := by
  cases advances h <;> rfl

theorem strays_advance {body : σ → Script κ σ} {p p' : Party κ σ}
    (h : p.advance body = some (p', out)) : p.strays <+: p'.strays := by
  cases advances h with
  | goto => exact List.prefix_rfl
  | put => exact List.prefix_rfl
  | get =>
    simp only
    split
    · exact List.prefix_rfl
    · exact List.prefix_append ..

end Party

-- ---------------------------------------------------------------------------
-- The pair
-- ---------------------------------------------------------------------------

section
variable [DecidableEq κ]

def step (l : σ → Script κ σ) (r : τ → Script κ τ) (p : Pair κ σ τ) : Side → Option (Pair κ σ τ)
  | .left => (p.left.advance l).map fun (p', out) => ⟨p', p.right.receive out⟩
  | .right => (p.right.advance r).map fun (p', out) => ⟨p.left.receive out, p'⟩

def duplex (l : σ → Script κ σ) (r : τ → Script κ τ) (client : Script κ σ) (server : Script κ τ) :
    System (Pair κ σ τ) Side where
  init p := p = ⟨.start client, .start server⟩
  step := step l r

def Moves (l : σ → Script κ σ) (r : τ → Script κ τ) (p q : Pair κ σ τ) : Prop :=
  ∃ side, step l r p side = some q

def Leads (l : σ → Script κ σ) (r : τ → Script κ τ) : Pair κ σ τ → Pair κ σ τ → Prop :=
  ReflTransGen (Moves l r)

variable {l : σ → Script κ σ} {r : τ → Script κ τ} {p q : Pair κ σ τ}

theorem reachable_iff {client : Script κ σ} {server : Script κ τ} :
    (duplex l r client server).Reachable p ↔ Leads l r ⟨.start client, .start server⟩ p := by
  constructor
  · intro h
    induction h with
    | init h => exact h ▸ .refl
    | step _ hs ih => exact ih.tail ⟨_, hs⟩
  · intro h
    induction h with
    | refl => exact .init rfl
    | tail _ hs ih =>
      obtain ⟨side, hs⟩ := hs
      exact ih.step hs

theorem moves_diamond (h₁ : step l r p e₁ = some q₁) (h₂ : step l r p e₂ = some q₂)
    (hne : e₁ ≠ e₂) :
    ∃ q, step l r q₁ e₂ = some q ∧ step l r q₂ e₁ = some q := by
  have hswap : ∀ q₁ q₂, step l r p .left = some q₁ → step l r p .right = some q₂ →
      ∃ q, step l r q₁ .right = some q ∧ step l r q₂ .left = some q := by
    intro q₁ q₂ hl hr
    simp only [step, Option.map_eq_some_iff] at hl hr
    obtain ⟨⟨pl, outl⟩, hl, rfl⟩ := hl
    obtain ⟨⟨pr, outr⟩, hr, rfl⟩ := hr
    refine ⟨⟨pl.receive outr, pr.receive outl⟩, ?_, ?_⟩
    · simp [step, Party.advance_receive hr]
    · simp [step, Party.advance_receive hl]
  cases e₁ with
  | left =>
    cases e₂ with
    | left => exact absurd rfl hne
    | right => exact hswap _ _ h₁ h₂
  | right =>
    cases e₂ with
    | left =>
      obtain ⟨q, hq₂, hq₁⟩ := hswap _ _ h₂ h₁
      exact ⟨q, hq₁, hq₂⟩
    | right => exact absurd rfl hne

theorem confluent (h₁ : Leads l r p q₁) (h₂ : Leads l r p q₂) :
    ∃ q, Leads l r q₁ q ∧ Leads l r q₂ q := by
  refine church_rosser ?_ h₁ h₂
  rintro a b c ⟨e₁, hb⟩ ⟨e₂, hc⟩
  by_cases he : e₁ = e₂
  · subst he
    rw [hb] at hc
    cases hc
    exact ⟨b, .refl, .refl⟩
  · obtain ⟨d, hbd, hcd⟩ := moves_diamond hb hc he
    exact ⟨d, .single ⟨_, hbd⟩, .single ⟨_, hcd⟩⟩

def Stuck (l : σ → Script κ σ) (r : τ → Script κ τ) (p : Pair κ σ τ) : Prop :=
  ∀ side, step l r p side = none

theorem Stuck.eq (hs : Stuck l r p) (h : Leads l r p q) : q = p := by
  cases h.cases_head with
  | inl h => exact h.symm
  | inr h =>
    obtain ⟨_, ⟨side, hm⟩, _⟩ := h
    rw [hs side] at hm
    cases hm

/-- Where one run ends, every run ends. -/
theorem Stuck.leads (hs : Stuck l r q) (h : Leads l r p q) (h' : Leads l r p p') :
    Leads l r p' q := by
  obtain ⟨d, hd, hd'⟩ := confluent h h'
  exact hs.eq hd ▸ hd'

-- ---------------------------------------------------------------------------
-- Deadlock
-- ---------------------------------------------------------------------------

def Party.Starved (p : Party κ σ) : Prop := (∃ k next, p.script = .get k next) ∧ p.inbox = []

def Deadlocked (p : Pair κ σ τ) : Prop := p.left.Starved ∧ p.right.Starved

theorem Party.Starved.advance {b : σ → Script κ σ} {p : Party κ σ} (h : p.Starved) :
    p.advance b = none := by
  obtain ⟨⟨k, next, hs⟩, hi⟩ := h
  simp [Party.advance, hs, hi]

theorem Deadlocked.stuck (h : Deadlocked p) : Stuck l r p := by
  intro side
  cases side with
  | left => simp [step, h.1.advance]
  | right => simp [step, h.2.advance]

theorem Moves.halted (h : Moves l r p q) :
    (p.left.script = .halt → q.left.script = .halt) ∧
      (p.right.script = .halt → q.right.script = .halt) := by
  obtain ⟨side, h⟩ := h
  cases side with
  | left =>
    simp only [step, Option.map_eq_some_iff] at h
    obtain ⟨⟨p', out⟩, ha, rfl⟩ := h
    exact ⟨fun hp => by simp [Party.advance, hp] at ha, id⟩
  | right =>
    simp only [step, Option.map_eq_some_iff] at h
    obtain ⟨⟨p', out⟩, ha, rfl⟩ := h
    exact ⟨id, fun hp => by simp [Party.advance, hp] at ha⟩

theorem Leads.halted (h : Leads l r p q) :
    (p.left.script = .halt → q.left.script = .halt) ∧
      (p.right.script = .halt → q.right.script = .halt) := by
  induction h with
  | refl => exact ⟨id, id⟩
  | tail _ hm ih => exact ⟨fun hp => hm.halted.1 (ih.1 hp), fun hp => hm.halted.2 (ih.2 hp)⟩

/-- If in one run a party returns, no run deadlocks. -/
theorem not_deadlocked_of_halts (h : Leads l r p q)
    (hq : q.left.script = .halt ∨ q.right.script = .halt) (h' : Leads l r p p') :
    ¬ Deadlocked p' := by
  intro hd
  have hlead : Leads l r q p' := hd.stuck.leads h' h
  obtain ⟨⟨⟨_, _, hl⟩, _⟩, ⟨⟨_, _, hr⟩, _⟩⟩ := hd
  cases hq with
  | inl hq =>
    have := hlead.halted.1 hq
    rw [hl] at this
    cases this
  | inr hq =>
    have := hlead.halted.2 hq
    rw [hr] at this
    cases this

-- ---------------------------------------------------------------------------
-- Results
-- ---------------------------------------------------------------------------

/-- States that lead nowhere but to themselves: a script that gets to one has
it for its result. -/
def Final (b : σ → Script κ σ) : Prop := ∀ a, b a = .goto a

theorem Leads.left_goto (hl : Final l) (h : Leads l r p q) (hp : p.left.script = .goto a) :
    q.left.script = .goto a := by
  induction h with
  | refl => exact hp
  | tail _ hm ih =>
    obtain ⟨side, hm⟩ := hm
    cases side with
    | left =>
      simp only [step, Option.map_eq_some_iff] at hm
      obtain ⟨⟨p', out⟩, ha, rfl⟩ := hm
      simp only [Party.advance, ih, Option.some.injEq, Prod.mk.injEq] at ha
      obtain ⟨rfl, -⟩ := ha
      exact hl a
    | right =>
      simp only [step, Option.map_eq_some_iff] at hm
      obtain ⟨-, -, rfl⟩ := hm
      exact ih

theorem Leads.right_goto (hr : Final r) (h : Leads l r p q) (hp : p.right.script = .goto a) :
    q.right.script = .goto a := by
  induction h with
  | refl => exact hp
  | tail _ hm ih =>
    obtain ⟨side, hm⟩ := hm
    cases side with
    | left =>
      simp only [step, Option.map_eq_some_iff] at hm
      obtain ⟨-, -, rfl⟩ := hm
      exact ih
    | right =>
      simp only [step, Option.map_eq_some_iff] at hm
      obtain ⟨⟨p', out⟩, ha, rfl⟩ := hm
      simp only [Party.advance, ih, Option.some.injEq, Prod.mk.injEq] at ha
      obtain ⟨rfl, -⟩ := ha
      exact hr a

/-- A result is the same in every run. -/
theorem left_result (hl : Final l) (h : Leads l r p q) (h' : Leads l r p q')
    (hq : q.left.script = .goto a) (hq' : q'.left.script = .goto a') : a = a' := by
  obtain ⟨d, hd, hd'⟩ := confluent h h'
  have heq := (hd.left_goto hl hq).symm.trans (hd'.left_goto hl hq')
  cases heq
  rfl

theorem right_result (hr : Final r) (h : Leads l r p q) (h' : Leads l r p q')
    (hq : q.right.script = .goto a) (hq' : q'.right.script = .goto a') : a = a' := by
  obtain ⟨d, hd, hd'⟩ := confluent h h'
  have heq := (hd.right_goto hr hq).symm.trans (hd'.right_goto hr hq')
  cases heq
  rfl

theorem no_left_result (hl : Final l) (h : Leads l r p q) (h' : Leads l r p q')
    (hq : q.left.script = .halt) : q'.left.script ≠ .goto a := by
  intro hq'
  obtain ⟨d, hd, hd'⟩ := confluent h h'
  have heq := (hd.halted.1 hq).symm.trans (hd'.left_goto hl hq')
  cases heq

theorem no_right_result (hr : Final r) (h : Leads l r p q) (h' : Leads l r p q')
    (hq : q.right.script = .halt) : q'.right.script ≠ .goto a := by
  intro hq'
  obtain ⟨d, hd, hd'⟩ := confluent h h'
  have heq := (hd.halted.2 hq).symm.trans (hd'.right_goto hr hq')
  cases heq

theorem Leads.left_yields {P : σ → Prop} (hl : Final l) (h : Leads l r p q)
    (hp : p.left.script.Yields P) : q.left.script.Yields P := by
  induction h with
  | refl => exact hp
  | tail _ hm ih =>
    obtain ⟨side, hm⟩ := hm
    cases side with
    | right =>
      simp only [step, Option.map_eq_some_iff] at hm
      obtain ⟨-, -, rfl⟩ := hm
      exact ih
    | left =>
      simp only [step, Option.map_eq_some_iff] at hm
      obtain ⟨⟨p', out⟩, ha, rfl⟩ := hm
      have hadv := Party.advances ha
      generalize Pair.left _ = party at hadv ih
      cases hadv with
      | goto => exact hl _ ▸ ih
      | put =>
        cases ih with
        | put h => exact h
      | get =>
        cases ih with
        | get h => exact h _

theorem yielded {P : σ → Prop} (hl : Final l) (h : Leads l r p q) (h' : Leads l r p q')
    (hq : q.left.script.Yields P) (hq' : q'.left.script = .goto a) : P a := by
  obtain ⟨d, hd, hd'⟩ := confluent h h'
  have hyields := hd.left_yields hl hq
  rw [hd'.left_goto hl hq'] at hyields
  cases hyields with
  | goto h => exact h

structure Settled (r : τ → Script κ τ) (a : σ) (p : Pair κ σ τ) : Prop where
  result : p.left.script = .goto a
  blocked : p.right.advance r = none

theorem Settled.stays (hl : Final l) (hp : Settled r a p) (h : Leads l r p q) : q = p := by
  induction h with
  | refl => rfl
  | tail _ hm ih =>
    subst ih
    obtain ⟨side, hm⟩ := hm
    cases side with
    | left =>
      simp only [step, Party.advance, hp.result, Option.map_some, hl a, Option.some.injEq] at hm
      rw [← hm, ← hp.result]
      exact congrArg (Pair.mk _) (Party.receive_nil _)
    | right =>
      simp only [step, hp.blocked, Option.map_none] at hm
      cases hm

theorem Settled.leads (hl : Final l) (hq : Settled r a q) (h : Leads l r p q)
    (h' : Leads l r p p') :
    Leads l r p' q := by
  obtain ⟨d, hd, hd'⟩ := confluent h h'
  exact hq.stays hl hd ▸ hd'

-- ---------------------------------------------------------------------------
-- Kinds
-- ---------------------------------------------------------------------------

/-- Every byte the right party read was written as what it was taken for. -/
def InPhase (p : Pair κ σ τ) : Prop := p.right.strays = []

theorem Moves.strays (h : Moves l r p q) : p.right.strays <+: q.right.strays := by
  obtain ⟨side, h⟩ := h
  cases side with
  | left =>
    simp only [step, Option.map_eq_some_iff] at h
    obtain ⟨⟨p', out⟩, -, rfl⟩ := h
    exact List.prefix_rfl
  | right =>
    simp only [step, Option.map_eq_some_iff] at h
    obtain ⟨⟨p', out⟩, ha, rfl⟩ := h
    exact Party.strays_advance ha

theorem Leads.strays (h : Leads l r p q) : p.right.strays <+: q.right.strays := by
  induction h with
  | refl => exact List.prefix_rfl
  | tail _ hm ih => exact ih.trans hm.strays

theorem Leads.strays_of_halted (h : Leads l r p q) (hp : p.right.script = .halt) :
    q.right.strays = p.right.strays := by
  induction h with
  | refl => rfl
  | tail hlead hm ih =>
    rw [← ih]
    obtain ⟨side, hm⟩ := hm
    cases side with
    | left =>
      simp only [step, Option.map_eq_some_iff] at hm
      obtain ⟨-, -, rfl⟩ := hm
      rfl
    | right =>
      have hhalt := (Leads.halted hlead).2 hp
      simp [step, Party.advance, hhalt] at hm

def Over (l : σ → Script κ σ) (r : τ → Script κ τ) (p : Pair κ σ τ) : Prop :=
  Stuck l r p ∨ p.right.script = .halt

/-- A run that ends in phase is in phase all along, in every schedule. -/
theorem inPhase_of_over (h : Leads l r p q) (hs : Over l r q) (hq : InPhase q)
    (h' : Leads l r p p') :
    InPhase p' := by
  have hpre : p'.right.strays <+: q.right.strays := by
    rcases hs with hs | hs
    · exact (hs.leads h h').strays
    · obtain ⟨d, hd, hd'⟩ := confluent h h'
      exact hd.strays_of_halted hs ▸ hd'.strays
  rw [hq] at hpre
  exact List.prefix_nil.mp hpre

end

-- ---------------------------------------------------------------------------
-- Runs of one party
-- ---------------------------------------------------------------------------

section
variable [DecidableEq κ] {b : σ → Script κ σ}

/-- On its own, the party gets from `p` to `p'` and sends `out`. -/
inductive Does (b : σ → Script κ σ) : Party κ σ → Party κ σ → List (κ × UInt8) → Prop
  | refl : Does b p p []
  | step : p.advance b = some (p', out) → Does b p' p'' out' → Does b p p'' (out ++ out')

theorem Does.single {p p' : Party κ σ} (h : p.advance b = some (p', out)) : Does b p p' out := by
  have := Does.step h .refl
  rwa [List.append_nil] at this

theorem Does.trans {p p' p'' : Party κ σ} (h : Does b p p' out) (h' : Does b p' p'' out') :
    Does b p p'' (out ++ out') := by
  induction h with
  | refl => exact h'
  | step ha _ ih => exact List.append_assoc .. ▸ .step ha (ih h')

theorem does_write (k : κ) (bs : List UInt8) (next : Script κ σ) :
    Does b ⟨.write k bs next, i, t⟩ ⟨next, i, t⟩ (bs.map (k, ·)) := by
  induction bs with
  | nil => exact .refl
  | cons c bs ih =>
    have hput : Does b ⟨.put k c (.write k bs next), i, t⟩ ⟨.write k bs next, i, t⟩ [(k, c)] :=
      .single rfl
    exact hput.trans ih

theorem does_get (k : κ) (next : UInt8 → Script κ σ) :
    Does b ⟨.get k next, (k, c) :: i, t⟩ ⟨next c, i, t⟩ [] :=
  .single (by simp [Party.advance])

theorem does_read (k : κ) {bs : List UInt8} (hn : bs.length = n) (f : List UInt8 → Script κ σ) :
    Does b ⟨.read k n f, bs.map (k, ·) ++ i, t⟩ ⟨f bs, i, t⟩ [] := by
  subst hn
  induction bs generalizing f with
  | nil => exact .refl
  | cons c bs ih => exact (does_get k _).trans (ih fun bs => f (c :: bs))

theorem does_read_all (k : κ) {bs : List UInt8} (hn : bs.length = n) (f : List UInt8 → Script κ σ) :
    Does b ⟨.read k n f, bs.map (k, ·), t⟩ ⟨f bs, [], t⟩ [] := by
  have := does_read (b := b) (i := []) (t := t) k hn f
  rwa [List.append_nil] at this

theorem does_readTo {ends : UInt8 → Bool} (k : κ) {line : List UInt8} {e : UInt8}
    (hline : ∀ c ∈ line, ends c = false) (he : ends e = true) (hn : line.length ≤ n)
    (f : List UInt8 → Script κ σ) :
    Does b ⟨.readTo k ends n f, (line ++ [e]).map (k, ·) ++ i, t⟩ ⟨f line, i, t⟩ [] := by
  induction n generalizing line f with
  | zero =>
    obtain rfl : line = [] := by simpa using hn
    exact does_get k _
  | succ n ih =>
    cases line with
    | nil =>
      have := does_get (b := b) (c := e) (i := i) (t := t) k
        fun b => if ends b then f [] else .readTo k ends n fun bs => f (b :: bs)
      rwa [if_pos he] at this
    | cons c line =>
      have hc := hline c (by simp)
      have := does_get (b := b) (c := c) (i := (line ++ [e]).map (k, ·) ++ i) (t := t) k
        fun b => if ends b then f [] else .readTo k ends n fun bs => f (b :: bs)
      rw [hc] at this
      exact this.trans (ih (fun d hd => hline d (by simp [hd])) (by simpa using hn) _)

theorem does_read_any (k : κ) {i : List (κ × UInt8)} (hn : n ≤ i.length)
    (f : List UInt8 → Script κ σ) :
    ∃ bs t', Does b ⟨.read k n f, i, t⟩ ⟨f bs, i.drop n, t'⟩ [] := by
  induction n generalizing i f t with
  | zero => exact ⟨[], t, .refl⟩
  | succ n ih =>
    cases i with
    | nil => simp at hn
    | cons wc i =>
      obtain ⟨bs, t', h⟩ := ih (i := i) (t := if k = wc.1 then t else t ++ [(k, wc.1)])
        (by simpa using hn) fun bs => f (wc.2 :: bs)
      have hget : Does b ⟨.read k (n + 1) f, wc :: i, t⟩
          ⟨.read k n fun bs => f (wc.2 :: bs), i, if k = wc.1 then t else t ++ [(k, wc.1)]⟩ [] := .single rfl
      exact ⟨wc.2 :: bs, t', hget.trans h⟩

def lineEnds (ends : UInt8 → Bool) (i : List (κ × UInt8)) : Nat := i.countP fun wc => ends wc.2

theorem does_readTo_any {ends : UInt8 → Bool} (k : κ) {i : List (κ × UInt8)}
    (hin : m < lineEnds ends i) (f : List UInt8 → Script κ σ) :
    ∃ line rest t', m ≤ lineEnds ends rest ∧
      Does b ⟨.readTo k ends n f, i, t⟩ ⟨f line, rest, t'⟩ [] := by
  induction n generalizing i f t with
  | zero =>
    cases i with
    | nil => simp [lineEnds] at hin
    | cons wc i =>
      rw [lineEnds, List.countP_cons] at hin
      refine ⟨[], i, _, ?_, .single rfl⟩
      rw [lineEnds]
      split at hin <;> omega
  | succ n ih =>
    cases i with
    | nil => simp [lineEnds] at hin
    | cons wc i =>
      have hget : Does b ⟨.readTo k ends (n + 1) f, wc :: i, t⟩
          ⟨if ends wc.2 then f [] else .readTo k ends n fun bs => f (wc.2 :: bs), i,
            if k = wc.1 then t else t ++ [(k, wc.1)]⟩ [] := .single rfl
      rw [lineEnds, List.countP_cons] at hin
      cases hc : ends wc.2 with
      | true =>
        rw [hc] at hget hin
        exact ⟨[], i, _, by simpa [lineEnds] using Nat.le_of_lt_succ hin, hget⟩
      | false =>
        rw [hc] at hget hin
        obtain ⟨line, rest, t', hrest, hdoes⟩ := ih (by simpa [lineEnds] using hin)
          fun bs => f (wc.2 :: bs)
        exact ⟨wc.2 :: line, rest, t', hrest, hget.trans hdoes⟩

end

-- ---------------------------------------------------------------------------
-- Runs of the pair, one party at a time
-- ---------------------------------------------------------------------------

section
variable [DecidableEq κ] {l : σ → Script κ σ} {r : τ → Script κ τ}

theorem Does.left {p p' : Party κ σ} (h : Does l p p' out) (q : Party κ τ) :
    Leads l r ⟨p, q⟩ ⟨p', q.receive out⟩ := by
  induction h generalizing q with
  | refl => exact q.receive_nil.symm ▸ .refl
  | step ha _ ih =>
    refine .head ⟨.left, ?_⟩ (Party.receive_receive q ▸ ih _)
    simp [Duplex.step, ha]

theorem Does.right {q q' : Party κ τ} (h : Does r q q' out) (p : Party κ σ) :
    Leads l r ⟨p, q⟩ ⟨p.receive out, q'⟩ := by
  induction h generalizing p with
  | refl => exact p.receive_nil.symm ▸ .refl
  | step ha _ ih =>
    refine .head ⟨.right, ?_⟩ (Party.receive_receive p ▸ ih _)
    simp [Duplex.step, ha]

def Comes (l : σ → Script κ σ) (r : τ → Script κ τ) (p : Pair κ σ τ)
    (P : Pair κ σ τ → Prop) : Prop :=
  ∃ q, Leads l r p q ∧ P q

variable {P Q : Pair κ σ τ → Prop}

theorem Comes.now {p : Pair κ σ τ} (h : P p) : Comes l r p P := ⟨p, .refl, h⟩

theorem Comes.after {p q : Pair κ σ τ} (h : Leads l r p q) (hq : Comes l r q P) :
    Comes l r p P := by
  obtain ⟨u, hu, hp⟩ := hq
  exact ⟨u, h.trans hu, hp⟩

theorem Comes.left {p p' : Party κ σ} {q : Party κ τ} (h : Does l p p' out)
    (h' : Comes l r ⟨p', q.receive out⟩ P) : Comes l r ⟨p, q⟩ P :=
  .after (h.left q) h'

theorem Comes.right {p : Party κ σ} {q q' : Party κ τ} (h : Does r q q' out)
    (h' : Comes l r ⟨p.receive out, q'⟩ P) : Comes l r ⟨p, q⟩ P :=
  .after (h.right p) h'

theorem Comes.toRight {i : List (κ × UInt8)} {next : Script κ σ} {f : List UInt8 → Script κ τ}
    (hn : bs.length = n) (h : Comes l r ⟨⟨next, i, t⟩, ⟨f bs, [], t'⟩⟩ P) :
    Comes l r ⟨⟨.write k bs next, i, t⟩, ⟨.read k n f, [], t'⟩⟩ P := by
  refine .left (does_write ..) ?_
  simp only [Party.receive_mk, List.nil_append]
  refine .right (does_read_all k hn f) ?_
  rwa [Party.receive_nil]

theorem Comes.toLeft {i : List (κ × UInt8)} {f : List UInt8 → Script κ σ} {next : Script κ τ}
    (hn : bs.length = n) (h : Comes l r ⟨⟨f bs, [], t⟩, ⟨next, i, t'⟩⟩ P) :
    Comes l r ⟨⟨.read k n f, [], t⟩, ⟨.write k bs next, i, t'⟩⟩ P := by
  refine .right (does_write ..) ?_
  simp only [Party.receive_mk, List.nil_append]
  refine .left (does_read_all k hn f) ?_
  rwa [Party.receive_nil]

theorem Comes.left_get_any {q : Party κ τ} {next : UInt8 → Script κ σ} {i : List (κ × UInt8)}
    (hi : i ≠ []) (h : ∀ c t', Comes l r ⟨⟨next c, i.tail, t'⟩, q⟩ P) :
    Comes l r ⟨⟨.get k next, i, t⟩, q⟩ P := by
  cases i with
  | nil => exact absurd rfl hi
  | cons wc i =>
    refine .left (.single rfl) ?_
    rw [Party.receive_nil]
    exact h _ _

theorem Comes.right_read_any {p : Party κ σ} {f : List UInt8 → Script κ τ} {i : List (κ × UInt8)}
    (hn : n ≤ i.length) (h : ∀ bs t', Comes l r ⟨p, ⟨f bs, i.drop n, t'⟩⟩ P) :
    Comes l r ⟨p, ⟨.read k n f, i, t⟩⟩ P := by
  obtain ⟨bs, t', hd⟩ := does_read_any (b := r) (t := t) k hn f
  refine .right hd ?_
  rw [Party.receive_nil]
  exact h bs t'

end

end Duplex
