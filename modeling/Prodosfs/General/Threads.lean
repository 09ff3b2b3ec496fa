import Mathlib.Data.Nat.Notation
import Mathlib.Logic.Function.Basic

/-!
# Threads over a shared state

Any number of threads, each with a state of its own, take turns at a state they share. A step of a
thread sees and changes both of these and nothing else; which thread comes next is left open, so
that a run is any interleaving of steps.

## Main definitions

* `Threads.Run` — a run

## Main results

* `Threads.Run.invariant` — what every step preserves of the shared state and establishes of its
  own, holds throughout a run
-/

/-- What all threads share, and what each has of its own. -/
structure Threads (ι σ τ : Type) where
  shared : σ
  own : ι → τ

namespace Threads

variable {ι σ τ : Type} [DecidableEq ι] {step : ι → σ × τ → σ × τ → Prop}
  {s t : Threads ι σ τ}

/-- Thread `i` has taken a step. -/
def moved (s : Threads ι σ τ) (i : ι) (next : σ × τ) : Threads ι σ τ :=
  ⟨next.1, Function.update s.own i next.2⟩

/-- A run: steps of some threads in some order. -/
inductive Run (step : ι → σ × τ → σ × τ → Prop) : Threads ι σ τ → Threads ι σ τ → Prop
  | refl (s : Threads ι σ τ) : Run step s s
  | tail {s t : Threads ι σ τ} {i : ι} {next : σ × τ} (init : Run step s t)
      (last : step i (t.shared, t.own i) next) : Run step s (t.moved i next)

/-- **The run rule.** A step may rely on the invariant of the shared state and of its own thread,
and has to restore both. The states of the other threads are out of its reach. -/
theorem Run.invariant {I : σ → Prop} {J : ι → τ → Prop}
    (hstep : ∀ i a b, I a.1 → J i a.2 → step i a b → I b.1 ∧ J i b.2) (h : Run step s t)
    (hshared : I s.shared) (hown : ∀ i, J i (s.own i)) : I t.shared ∧ ∀ i, J i (t.own i) := by
  induction h with
  | refl => exact ⟨hshared, hown⟩
  | @tail t i next _ last ih =>
    obtain ⟨hI, hJ⟩ := ih
    obtain ⟨hI', hJ'⟩ := hstep _ _ _ hI (hJ i) last
    refine ⟨hI', fun j => ?_⟩
    by_cases hj : j = i
    · subst hj
      simpa [moved] using hJ'
    · simpa [moved, Function.update_of_ne hj] using hJ j

end Threads
