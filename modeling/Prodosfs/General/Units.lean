import Mathlib.Data.Nat.Notation
import Mathlib.Logic.Equiv.Defs
import Mathlib.Logic.Function.Basic
import Mathlib.Tactic.Common

/-!
# Rearranging storage by whole units

Addresses are natural numbers, and a *unit* is `u` consecutive ones. Two ways of rearranging them
are kept apart, because a storage format composes them:

* `onUnits u σ` moves whole units: the address keeps its offset in the unit, and the unit's number
  goes through `σ`.
* `inGroups g τ` permutes inside groups of `g`: the group's number is kept, and the place in the
  group goes through `τ`.

The unit numbers of the first are typically addresses of the second.
-/

variable {u g n : ℕ} {σ τ : ℕ → ℕ}

/-! ### Moving whole units -/

/-- Move unit `i` to unit `σ i`, keeping the offset in the unit. -/
def onUnits (u : ℕ) (σ : ℕ → ℕ) (a : ℕ) : ℕ := u * σ (a / u) + a % u

theorem onUnits_add (hu : 0 < u) (i : ℕ) {o : ℕ} (ho : o < u) :
    onUnits u σ (u * i + o) = u * σ i + o := by
  have hdiv : (u * i + o) / u = i := by
    rw [Nat.mul_add_div hu, Nat.div_eq_of_lt ho, Nat.add_zero]
  have hmod : (u * i + o) % u = o := by
    rw [Nat.mul_add_mod, Nat.mod_eq_of_lt ho]
  rw [onUnits, hdiv, hmod]

theorem onUnits_onUnits (hu : 0 < u) (a : ℕ) :
    onUnits u σ (onUnits u τ a) = onUnits u (σ ∘ τ) a :=
  onUnits_add hu (τ (a / u)) (Nat.mod_lt a hu)

theorem onUnits_id (a : ℕ) : onUnits u id a = a := Nat.div_add_mod a u

theorem onUnits_involutive (hu : 0 < u) (h : Function.Involutive σ) :
    Function.Involutive (onUnits u σ) := by
  intro a
  rw [onUnits_onUnits hu, h.comp_self, onUnits_id]

/-- A rearrangement of the first `n` units stays inside the first `n` units. -/
theorem onUnits_lt (hu : 0 < u) (hσ : ∀ i < n, σ i < n) {a : ℕ} (ha : a < u * n) :
    onUnits u σ a < u * n := by
  have hi : σ (a / u) < n := hσ _ (Nat.div_lt_of_lt_mul ha)
  calc onUnits u σ a = u * σ (a / u) + a % u := rfl
    _ < u * σ (a / u) + u := Nat.add_lt_add_left (Nat.mod_lt a hu) _
    _ = u * (σ (a / u) + 1) := (Nat.mul_succ _ _).symm
    _ ≤ u * n := Nat.mul_le_mul_left u hi

/-! ### Permuting inside groups -/

/-- Permute the places of every group of `g` by `τ`. -/
def inGroups (g : ℕ) (τ : ℕ → ℕ) (i : ℕ) : ℕ := g * (i / g) + τ (i % g)

theorem inGroups_add (hg : 0 < g) (i : ℕ) {j : ℕ} (hj : j < g) :
    inGroups g τ (g * i + j) = g * i + τ j := by
  have hdiv : (g * i + j) / g = i := by
    rw [Nat.mul_add_div hg, Nat.div_eq_of_lt hj, Nat.add_zero]
  have hmod : (g * i + j) % g = j := by
    rw [Nat.mul_add_mod, Nat.mod_eq_of_lt hj]
  rw [inGroups, hdiv, hmod]

theorem inGroups_involutive (hg : 0 < g) (hlt : ∀ j < g, τ j < g) (h : ∀ j < g, τ (τ j) = j) :
    Function.Involutive (inGroups g τ) := by
  intro i
  have hj : i % g < g := Nat.mod_lt i hg
  rw [show inGroups g τ i = g * (i / g) + τ (i % g) from rfl, inGroups_add hg _ (hlt _ hj),
    h _ hj, Nat.div_add_mod]

/-- Whole groups stay where they are, so a whole number of them is kept. -/
theorem inGroups_lt (hg : 0 < g) (hlt : ∀ j < g, τ j < g) {i : ℕ} (hi : i < g * n) :
    inGroups g τ i < g * n := by
  have hgrp : i / g < n := Nat.div_lt_of_lt_mul hi
  calc inGroups g τ i = g * (i / g) + τ (i % g) := rfl
    _ < g * (i / g) + g := Nat.add_lt_add_left (hlt _ (Nat.mod_lt i hg)) _
    _ = g * (i / g + 1) := (Nat.mul_succ _ _).symm
    _ ≤ g * n := Nat.mul_le_mul_left g hgrp

/-- An involution that keeps the first `n` numbers permutes them. -/
def Function.Involutive.permBelow (h : Function.Involutive σ) (hσ : ∀ i < n, σ i < n) :
    Equiv.Perm (Fin n) where
  toFun i := ⟨σ i, hσ i i.isLt⟩
  invFun i := ⟨σ i, hσ i i.isLt⟩
  left_inv i := Fin.ext (h i)
  right_inv i := Fin.ext (h i)
