import Mathlib.Data.Nat.Notation
import Mathlib.Data.List.Basic
import Mathlib.Tactic.Common

/-!
# Stores into a buffer

What is known of a piece of memory: a place that has been stored to has a value, and the others
have none. So the places of a buffer that has nothing in it at first are exactly those that were
written, and a store outside of the buffer shows.

A text in a buffer goes up to a terminator. Reading one looks at no place that has no value.

## Main results

* `Stores.put_put` — a store right behind another one is one store
* `Stores.readUntil_of_holds` — a text that was stored with its terminator is read back
-/

variable {α : Type} {b : ℕ → Option α} {a n i : ℕ} {xs ys : List α}

/-- The values of the places that have one. -/
abbrev Stores (α : Type) := ℕ → Option α

namespace Stores

/-- A buffer that nothing has been stored to. -/
def empty : Stores α := fun _ => none

/-- Store `xs` at place `a` and behind it. -/
def put (b : Stores α) (a : ℕ) (xs : List α) : Stores α := fun i =>
  if a ≤ i ∧ i < a + xs.length then xs[i - a]? else b i

/-- The places with a value are among the first `n`. -/
def Inside (b : Stores α) (n : ℕ) : Prop := ∀ i, b i ≠ none → i < n

/-- `xs` is at place `a`. -/
def Holds (b : Stores α) (a : ℕ) (xs : List α) : Prop :=
  ∀ i (h : i < xs.length), b (a + i) = some xs[i]

/-! ### Places -/

theorem put_of_lt (h : i < a) : put b a xs i = b i := if_neg fun hi => absurd hi.1 (by omega)

theorem put_of_ge (h : a + xs.length ≤ i) : put b a xs i = b i :=
  if_neg fun hi => absurd hi.2 (by omega)

theorem put_add (h : i < xs.length) : put b a xs (a + i) = some xs[i] := by
  rw [put, if_pos (by omega), Nat.add_sub_cancel_left, List.getElem?_eq_getElem h]

theorem put_nil (b : Stores α) (a : ℕ) : put b a [] = b := by
  funext i
  exact if_neg fun hi => absurd hi (by simp)

/-- Two stores one after the other, the second of them right behind the first. -/
theorem put_put (b : Stores α) (a : ℕ) (xs ys : List α) :
    put (put b a xs) (a + xs.length) ys = put b a (xs ++ ys) := by
  funext i
  rcases Nat.lt_or_ge i a with hlt | hge
  · rw [put_of_lt (by omega), put_of_lt hlt, put_of_lt hlt]
  obtain ⟨k, rfl⟩ := Nat.exists_eq_add_of_le hge
  rcases Nat.lt_or_ge k xs.length with hx | hx
  · have hxy : k < (xs ++ ys).length := by rw [List.length_append]; omega
    rw [put_of_lt (by omega), put_add hx, put_add hxy, List.getElem_append_left hx]
  obtain ⟨j, rfl⟩ := Nat.exists_eq_add_of_le hx
  rcases Nat.lt_or_ge j ys.length with hy | hy
  · have hxy : xs.length + j < (xs ++ ys).length := by rw [List.length_append]; omega
    rw [← Nat.add_assoc, put_add hy, Nat.add_assoc, put_add hxy, List.getElem_append_right hx]
    simp
  · rw [put_of_ge (by omega), put_of_ge (by omega), put_of_ge (by rw [List.length_append]; omega)]

/-! ### Staying inside -/

theorem inside_empty (n : ℕ) : Inside (empty : Stores α) n := fun _ h => absurd rfl h

theorem Inside.put (h : Inside b n) (hle : a + xs.length ≤ n) : Inside (Stores.put b a xs) n := by
  intro i hi
  rcases Nat.lt_or_ge i (a + xs.length) with hlt | hge
  · omega
  · rw [put_of_ge hge] at hi
    exact h i hi

/-! ### Texts -/

theorem holds_put (b : Stores α) (a : ℕ) (xs : List α) : Holds (put b a xs) a xs :=
  fun _ h => put_add h

/-- A store that comes later leaves what is before it. -/
theorem Holds.put_of_le (h : Holds b n xs) (hle : n + xs.length ≤ a) :
    Holds (Stores.put b a ys) n xs := by
  intro i hi
  rw [put_of_lt (by omega)]
  exact h i hi

theorem Holds.append (hx : Holds b a xs) (hy : Holds b (a + xs.length) ys) :
    Holds b a (xs ++ ys) := by
  intro i hi
  rcases Nat.lt_or_ge i xs.length with hlt | hge
  · rw [List.getElem_append_left hlt]
    exact hx i hlt
  · obtain ⟨j, rfl⟩ := Nat.exists_eq_add_of_le hge
    have hj : j < ys.length := by
      rw [List.length_append] at hi
      omega
    rw [List.getElem_append_right hge, ← Nat.add_assoc, hy j hj]
    simp

theorem Holds.left (h : Holds b a (xs ++ ys)) : Holds b a xs := by
  intro i hi
  rw [h i (by rw [List.length_append]; omega), List.getElem_append_left hi]

variable [DecidableEq α] {z : α}

/-- The text from place `a` on, up to the terminator `z`, of which `n` places are looked at. There
is none when a place without a value comes before the terminator. -/
def readUntil (b : Stores α) (z : α) : ℕ → ℕ → Option (List α)
  | 0, _ => none
  | n + 1, a =>
    match b a with
    | none => none
    | some x => if x = z then some [] else (readUntil b z n (a + 1)).map (x :: ·)

/-- **A text that was stored with its terminator is read back.** The induction is on the text. -/
theorem readUntil_of_holds : ∀ {xs : List α} {a n : ℕ}, Holds b a (xs ++ [z]) → z ∉ xs →
    xs.length < n → readUntil b z n a = some xs := by
  intro xs
  induction xs with
  | nil =>
    intro a n h _ hn
    obtain ⟨n, rfl⟩ := Nat.exists_eq_add_of_le' (show 1 ≤ n from hn)
    have hz : b a = some z := h 0 (by simp)
    rw [readUntil, hz]
    exact if_pos rfl
  | cons x xs ih =>
    intro a n h hz hn
    rw [List.length_cons] at hn
    obtain ⟨n, rfl⟩ := Nat.exists_eq_add_of_le' (show 1 ≤ n by omega)
    have hx : b a = some x := h 0 (by simp)
    have hne : x ≠ z := fun heq => hz (heq ▸ List.mem_cons_self ..)
    have hrest : Holds b (a + 1) (xs ++ [z]) := by
      intro i hi
      have hnext := h (i + 1) (by simpa using hi)
      rw [show a + 1 + i = a + (i + 1) by omega, hnext]
      rfl
    rw [readUntil, hx]
    simp only [if_neg hne]
    rw [ih hrest (fun hmem => hz (List.mem_cons_of_mem _ hmem)) (by omega)]
    rfl

end Stores
