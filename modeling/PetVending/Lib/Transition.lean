import Mathlib.Data.Option.Basic
import Mathlib.Tactic.Common

/-!
# Runs of a transition system

A system is a partial step function `step : σ → α → Option σ`: the action `a` can happen in `s` iff `step s a` is
`some` state, the next one. Everything an environment may choose is part of the action.

- `exec`: the state after a list of actions, for runs on fixed inputs;
- `Reach step G i s`: some run from `i` ends in `s`, all its steps meeting the guard `G` (`Reach.inv`: an invariant
  that every guarded step keeps);
- `Run step i tr s`: a run with its trace (`trace`), for statements about all states and all steps of one run.
  `run_iff`: the states of a run are all good iff its steps all meet the guard, when guarded steps keep an invariant
  that makes states good and no other step leads to a good state.
-/

namespace Transition

variable {σ α : Type*} {step : σ → α → Option σ} {G : σ → α → Prop} {i s t u : σ}

/-! ## Runs on a list of actions -/

/-- The state after the actions, if all of them can happen. -/
def exec (step : σ → α → Option σ) : σ → List α → Option σ
  | s, [] => some s
  | s, a :: as => (step s a).bind fun t => exec step t as

/-- `s` is reached from `i` by steps that all meet `G`. -/
inductive Reach (step : σ → α → Option σ) (G : σ → α → Prop) (i : σ) : σ → Prop
  | start : Reach step G i i
  | step {s t : σ} {a : α} : Reach step G i s → G s a → step s a = some t → Reach step G i t

/-- The guard that admits every step. -/
def free : σ → α → Prop := fun _ _ => True

/-- What holds at the start and is kept by every guarded step holds in every state reached. -/
theorem Reach.inv {I : σ → Prop} (h0 : I i) (hs : ∀ s a t, I s → G s a → step s a = some t → I t)
    (h : Reach step G i s) : I s := by
  induction h with
  | start => exact h0
  | step _ hg hst ih => exact hs _ _ _ ih hg hst

theorem Reach.trans (h : Reach step G i s) (h' : Reach step G s t) : Reach step G i t := by
  induction h' with
  | start => exact h
  | step _ hg hst ih => exact .step ih hg hst

/-- A run on a list of actions reaches its last state. -/
theorem reach_of_exec {as : List α} : ∀ {s t : σ}, exec step s as = some t → Reach step free s t := by
  induction as with
  | nil => intro s t h; cases h; exact .start
  | cons a as ih =>
    intro s t h
    obtain ⟨u, hu, ht⟩ := Option.bind_eq_some_iff.1 h
    exact (Reach.step .start trivial hu).trans (ih ht)

/-- The system that takes only guarded steps, for runs on fixed inputs. -/
def guarded (step : σ → α → Option σ) (G : σ → α → Prop) [∀ s a, Decidable (G s a)] : σ → α → Option σ :=
  fun s a => if G s a then step s a else none

/-- A run of the guarded system is a guarded run. -/
theorem reach_of_guarded [∀ s a, Decidable (G s a)] {as : List α} (h : exec (guarded step G) s as = some t) :
    Reach step G s t := by
  apply (reach_of_exec h).inv (I := Reach step G s) .start
  intro u a v hu _ huv
  unfold guarded at huv
  split at huv
  · rename_i hg; exact .step hu hg huv
  · cases huv

/-- What holds behind every guarded run holds behind fixed actions that can happen. -/
theorem exists_of_guarded [∀ s a, Decidable (G s a)] {as : List α} {P : σ → Prop}
    (hrun : (exec (guarded step G) i as).isSome = true) (h : ∀ s, Reach step G i s → P s) :
    ∃ s, exec (guarded step G) i as = some s ∧ P s := by
  obtain ⟨s, hs⟩ := Option.isSome_iff_exists.1 hrun
  exact ⟨s, hs, h s (reach_of_guarded hs)⟩

/-! ## Runs with their traces -/

/-- A run from `i` to `s` whose trace lists every step with the state it starts in and the state it leads to. -/
inductive Run (step : σ → α → Option σ) (i : σ) : List (σ × α × σ) → σ → Prop
  | nil : Run step i [] i
  | snoc {tr : List (σ × α × σ)} {s t : σ} {a : α} :
      Run step i tr s → step s a = some t → Run step i (tr ++ [(s, a, t)]) t

theorem Run.trans {tr tr' : List (σ × α × σ)} (h : Run step i tr s) (h' : Run step s tr' t) :
    Run step i (tr ++ tr') t := by
  induction h' with
  | nil => rwa [List.append_nil]
  | snoc _ hst ih =>
    rw [← List.append_assoc]
    exact ih.snoc hst

/-- The trace of a list of actions and the state after them, if all of them can happen. -/
def trace (step : σ → α → Option σ) : σ → List α → Option (List (σ × α × σ) × σ)
  | s, [] => some ([], s)
  | s, a :: as => (step s a).bind fun t => (trace step t as).map fun r => ((s, a, t) :: r.1, r.2)

/-- The trace of a list of actions is that of a run. -/
theorem run_of_trace {as : List α} : ∀ {i s : σ} {tr : List (σ × α × σ)}, trace step i as = some (tr, s) →
    Run step i tr s := by
  induction as with
  | nil => intro i s tr h; cases h; exact .nil
  | cons a as ih =>
    intro i s tr h
    obtain ⟨u, hu, h⟩ := Option.bind_eq_some_iff.1 h
    obtain ⟨⟨tr', t⟩, h', he⟩ := Option.map_eq_some_iff.1 h
    cases he
    exact (Run.nil.snoc hu).trans (ih h')

/-- What holds of every run holds of fixed actions that can happen. -/
theorem exists_of_trace {as : List α} {P : List (σ × α × σ) → Prop} (hrun : (trace step i as).isSome = true)
    (h : ∀ tr s, Run step i tr s → P tr) : ∃ tr s, trace step i as = some (tr, s) ∧ P tr := by
  obtain ⟨⟨tr, s⟩, hs⟩ := Option.isSome_iff_exists.1 hrun
  exact ⟨tr, s, hs, h tr s (run_of_trace hs)⟩

/-- **Good states and guarded steps.** `I` holds at the start and is kept by guarded steps, states with `I` are good,
and from a state with `I` only guarded steps lead to good states: then the states of a run are all good iff its steps
are all guarded. -/
theorem run_iff {I P : σ → Prop} (h0 : I i) (hI : ∀ s, I s → P s)
    (hs : ∀ s a t, I s → G s a → step s a = some t → I t) (hb : ∀ s a t, I s → step s a = some t → P t → G s a)
    {tr : List (σ × α × σ)} (h : Run step i tr s) :
    (∀ e ∈ tr, P e.2.2) ↔ ∀ e ∈ tr, G e.1 e.2.1 := by
  -- along the run, good states so far give the invariant in the last state
  have key : ((∀ e ∈ tr, P e.2.2) → (∀ e ∈ tr, G e.1 e.2.1) ∧ I s) ∧
      ((∀ e ∈ tr, G e.1 e.2.1) → (∀ e ∈ tr, P e.2.2) ∧ I s) := by
    induction h with
    | nil => exact ⟨fun _ => ⟨by simp, h0⟩, fun _ => ⟨by simp, h0⟩⟩
    | @snoc tr s t a _ hst ih =>
      simp only [List.forall_mem_append, List.forall_mem_singleton]
      constructor
      · rintro ⟨hp, ht⟩
        obtain ⟨hg, hi⟩ := ih.1 hp
        have hga := hb s a t hi hst ht
        exact ⟨⟨hg, hga⟩, hs s a t hi hga hst⟩
      · rintro ⟨hg, hga⟩
        obtain ⟨hp, hi⟩ := ih.2 hg
        have ht := hs s a t hi hga hst
        exact ⟨⟨hp, hI t ht⟩, ht⟩
  exact ⟨fun h => (key.1 h).1, fun h => (key.2 h).1⟩

end Transition
