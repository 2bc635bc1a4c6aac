import Tsunami.Lib.Duplex
import Tsunami.Lib.Transfers

/-!
# Whole transfers and scripts

A script of single bytes says what a program does over a stream that never
fails. A program that follows a script does what the script does in every run in
which each transfer moves all of its bytes.
-/

namespace Transfers

open Duplex

variable {α σ κ : Type} {R : α → σ → Prop} {n : Nat} {bs before : List UInt8} {k : κ}
  {s : Script κ σ} {p : Program α} {as : List Answer}

/-- Call by call the program does what the script does, up to results that are
related by `R`. A program that cannot read a byte exits. -/
inductive Follows (R : α → σ → Prop) : Program α → Script κ σ → Prop
  | result {a : α} {b : σ} : R a b → Follows R (.result a) (.goto b)
  | traps : Follows R .traps .halt
  | write {bs : List UInt8} {next : Int → Program α} {k : κ} {s : Script κ σ} :
      Follows R (next bs.length) s → Follows R (.write bs next) (.write k bs s)
  | read {n : Nat} {before : List UInt8} {next : Int → List UInt8 → Program α} {k : κ}
      {f : List UInt8 → Script κ σ} : before.length = n →
      (∀ bs, bs.length = n → Follows R (next n bs) (f bs)) →
      Follows R (.read before next) (.read k n f)
  | get {next : Option UInt8 → Program α} {k : κ} {f : UInt8 → Script κ σ} :
      next none = .exits → (∀ b, Follows R (next (some b)) (f b)) →
      Follows R (.get next) (.get k f)

theorem Follows.put {b : UInt8} {next : Int → Program α} (h : Follows R (next 1) s) :
    Follows R (.write [b] next) (.put k b s) :=
  @Follows.write α σ κ R [b] next k s h

inductive Ends (R : α → σ → Prop) : Ending α → Script κ σ → Prop
  | result {a : α} {b : σ} : R a b → Ends R (.result a) (.goto b)
  | traps : Ends R .traps .halt

theorem run_write_whole {next : Int → Program α} (h : Whole bs.length as) :
    (Program.write bs next).run as =
      ((next bs.length).run (rest bs.length as)).after bs false := by
  rw [run_write (.inl h), length_moved_of_whole h, List.take_length, falls_eq_false.mpr h]

theorem run_read_whole {next : Int → List UInt8 → Program α} (hn : before.length = n)
    (h : Whole n as) :
    (Program.read before next).run as =
      ((next n (moved n as)).run (rest n as)).after [] false := by
  rw [run_read hn (.inl h), length_moved_of_whole h, falls_eq_false.mpr h, ← hn,
    List.drop_length, List.append_nil]

/-- On what is read, the script sends what is written and comes to `s'`. -/
def Plays [DecidableEq κ] (body : σ → Script κ σ) (s s' : Script κ σ) (written : List UInt8) :
    Prop :=
  ∃ ins out, (∀ i t, Does body ⟨s, ins ++ i, t⟩ ⟨s', i, t⟩ out) ∧ out.map Prod.snd = written

variable [DecidableEq κ] {body : σ → Script κ σ}

theorem Follows.plays (h : Follows R p s) (hclean : Clean p as)
    (hgoes : (p.run as).ending ≠ .exits) :
    ∃ s', Plays body s s' (p.run as).written ∧ Ends R (p.run as).ending s' := by
  induction h generalizing as with
  | result hr => exact ⟨_, ⟨[], [], fun _ _ => .refl, rfl⟩, .result hr⟩
  | traps => exact ⟨_, ⟨[], [], fun _ _ => .refl, rfl⟩, .traps⟩
  | @write bs next k s _ ih =>
    obtain ⟨hwhole, hclean⟩ := clean_write.mp hclean
    rw [run_write_whole hwhole] at hgoes ⊢
    obtain ⟨s', ⟨ins, out, hdoes, hout⟩, hends⟩ := ih hclean hgoes
    refine ⟨s', ⟨ins, bs.map (k, ·) ++ out, fun i t => (does_write ..).trans (hdoes i t), ?_⟩,
      hends⟩
    rw [List.map_append, hout, List.map_map]
    exact congrArg (· ++ _) (List.map_id bs)
  | @read n before next k f hn _ ih =>
    obtain ⟨hwhole, hclean⟩ := (clean_read hn).mp hclean
    rw [run_read_whole hn hwhole] at hgoes ⊢
    have hlen : (moved n as).length = n := length_moved_of_whole hwhole
    obtain ⟨s', ⟨ins, out, hdoes, hout⟩, hends⟩ := ih _ hlen hclean hgoes
    refine ⟨s', ⟨(moved n as).map (k, ·) ++ ins, out, fun i t => ?_, hout⟩, hends⟩
    rw [List.append_assoc]
    exact (does_read k hlen f).trans (hdoes i t)
  | @get next k f hnone _ ih =>
    have hrun : (Program.get next).run as = (next (peek as)).run as.tail := rfl
    rw [hrun] at hgoes ⊢
    cases hpeek : peek as with
    | none =>
      rw [hpeek, hnone] at hgoes
      exact absurd rfl hgoes
    | some b =>
      rw [hpeek] at hrun hgoes
      have hclean : Clean (next (some b)) as.tail :=
        ⟨hrun ▸ hclean.ends, hrun ▸ hclean.whole⟩
      obtain ⟨s', ⟨ins, out, hdoes, hout⟩, hends⟩ := ih b hclean hgoes
      exact ⟨s', ⟨(k, b) :: ins, out, fun i t => (does_get k f).trans (hdoes i t), hout⟩, hends⟩

/-- Where a program detects what falls short, a result that is not bad is one of
the script. -/
theorem Follows.detected {ι : Type} {f : ι → Program α} {i : ι} {bad : α → Prop} {a : α}
    (h : Follows R (f i) s) (hdetects : Detects bad false f as)
    (hresult : ((f i).run as).ending = .result a) (hgood : ¬bad a) :
    ∃ b, R a b ∧ Plays body s (.goto b) ((f i).run as).written := by
  have hclean : Clean (f i) as := by
    refine ⟨hdetects.ends i, ?_⟩
    by_contra hshort
    obtain ⟨a', ha, hbad⟩ := hdetects.fails i (eq_true_of_ne_false hshort)
    rw [hresult] at ha
    cases ha
    exact hgood hbad
  have hgoes : ((f i).run as).ending ≠ .exits := by simp [hresult]
  obtain ⟨s', hplays, hends⟩ : ∃ s', Plays body s s' _ ∧ Ends R _ s' := h.plays hclean hgoes
  rw [hresult] at hends
  cases hends with
  | result hr => exact ⟨_, hr, hplays⟩

end Transfers
