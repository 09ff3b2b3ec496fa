import Mathlib.Data.Nat.Notation
import Mathlib.Tactic.Common

/-!
# Masking with a repeated key

A stream cipher by exclusive or: byte `i` of the text is combined with byte `i` of a *mask*, and
the mask is a key repeated as often as needed. Masking twice is the identity whatever the mask
is, so nothing about the key enters the round trip; that the mask is a *repeated* key is a fact
about the cursor that walks around it, and is proved apart.
-/

variable {m n : ℕ}

/-! ### Walking around a key -/

/-- The place after `p` on a cycle of `m` places. -/
def cycleNext (m p : ℕ) : ℕ := if p + 1 < m then p + 1 else 0

theorem cycleNext_mod (hm : 0 < m) (i : ℕ) : cycleNext m (i % m) = (i + 1) % m := by
  have hi : i % m < m := Nat.mod_lt i hm
  rw [Nat.add_mod]
  rcases Nat.lt_or_ge (i % m + 1) m with h | h
  · have h1 : 1 % m = 1 := Nat.mod_eq_of_lt (by omega)
    rw [cycleNext, if_pos h, h1, Nat.mod_eq_of_lt h]
  · rw [cycleNext, if_neg (Nat.not_lt.mpr h)]
    rcases Nat.lt_or_ge 1 m with h1 | h1
    · rw [Nat.mod_eq_of_lt h1, show i % m + 1 = m by omega, Nat.mod_self]
    · rw [show m = 1 by omega, Nat.mod_one]

/-! ### Masking -/

/-- Combine the first `n` bytes of a text with a mask. -/
def applyMask (mask : ℕ → UInt8) (n : ℕ) (text : ℕ → UInt8) : ℕ → UInt8 := fun i =>
  if i < n then text i ^^^ mask i else text i

theorem applyMask_of_lt (mask text : ℕ → UInt8) {i : ℕ} (h : i < n) :
    applyMask mask n text i = text i ^^^ mask i := if_pos h

theorem applyMask_of_ge (mask text : ℕ → UInt8) {i : ℕ} (h : n ≤ i) :
    applyMask mask n text i = text i := if_neg (Nat.not_lt.mpr h)

/-- Masking is a matter of single bytes. -/
theorem applyMask_congr (mask : ℕ → UInt8) {x y : ℕ → UInt8} {i : ℕ} (h : x i = y i) :
    applyMask mask n x i = applyMask mask n y i := by
  rw [applyMask, applyMask, h]

/-- **Masking twice is the identity.** -/
theorem applyMask_involutive (mask : ℕ → UInt8) (n : ℕ) :
    Function.Involutive (applyMask mask n) := by
  intro text
  funext i
  rcases Nat.lt_or_ge i n with h | h
  · rw [applyMask_of_lt _ _ h, applyMask_of_lt _ _ h, UInt8.xor_assoc, UInt8.xor_self,
      UInt8.xor_zero]
  · rw [applyMask_of_ge _ _ h, applyMask_of_ge _ _ h]
