import Mathlib.Data.List.Nodup
import Mathlib.Data.Nat.Notation

/-!
# Linked sequences

A function `next` that yields the successor of an element or says that there is none. `Linked next
a as` says that the elements after `a` are `as`, and that the last of them has no successor: the
sequence from `a` on is finite, and a list.

## Main definitions

* `Linked` — the elements after a given one
* `placeNext`, `placesAfter` — every element expanded into the same number of places

## Main results

* `Linked.unique`, `Linked.nodup` — there is one such list, and it has no repetitions
* `Linked.places` — the places of a linked sequence are linked
-/

/-- The elements after `a` are `as`. -/
inductive Linked {α : Type} (next : α → Option α) : α → List α → Prop
  | last {a : α} (h : next a = none) : Linked next a []
  | cons {a b : α} {bs : List α} (h : next a = some b) (tail : Linked next b bs) :
      Linked next a (b :: bs)

namespace Linked

variable {α : Type} {next : α → Option α} {a b : α} {as bs : List α}

theorem unique (h : Linked next a as) : ∀ {bs : List α}, Linked next a bs → as = bs := by
  induction h with
  | last hlast =>
    intro bs h'
    cases h' with
    | last _ => rfl
    | cons h _ => rw [hlast] at h; cases h
  | cons hnext _ ih =>
    intro bs h'
    cases h' with
    | last h => rw [hnext] at h; cases h
    | cons h tail =>
      rw [hnext] at h
      cases h
      rw [ih tail]

/-- Every element of the sequence starts one that is not longer. -/
theorem of_mem (h : Linked next a as) (hb : b ∈ as) :
    ∃ bs, Linked next b bs ∧ bs.length < as.length := by
  induction h with
  | last _ => cases hb
  | cons _ tail ih =>
    rcases List.mem_cons.mp hb with rfl | hb
    · exact ⟨_, tail, Nat.lt_succ_self _⟩
    · obtain ⟨bs, hlink, hlen⟩ := ih hb
      exact ⟨bs, hlink, Nat.lt_succ_of_lt hlen⟩

/-- Every element after the first is the successor of one. -/
theorem exists_next_of_mem (h : Linked next a as) (hb : b ∈ as) : ∃ c, next c = some b := by
  induction h with
  | last _ => cases hb
  | @cons a c _ hnext _ ih =>
    rcases List.mem_cons.mp hb with rfl | hb
    · exact ⟨a, hnext⟩
    · exact ih hb

/-- **A linked sequence has no repetitions**: an element that came back would be followed by a
shorter list than it is. -/
theorem nodup (h : Linked next a as) : (a :: as).Nodup := by
  induction h with
  | last _ => exact List.nodup_singleton _
  | cons hnext tail ih =>
    refine List.nodup_cons.mpr ⟨fun hmem => ?_, ih⟩
    have whole := Linked.cons hnext tail
    obtain ⟨cs, hlink, hlen⟩ := whole.of_mem hmem
    rw [hlink.unique whole] at hlen
    exact absurd hlen (Nat.lt_irrefl _)

/-! ### Places -/

/-- The places `(a, 0), …, (a, m)` of every element one after the other. -/
def placeNext (next : α → Option α) (m : ℕ) (p : α × ℕ) : Option (α × ℕ) :=
  if p.2 < m then some (p.1, p.2 + 1) else (next p.1).map fun b => (b, 0)

/-- The places of `a` from `j` on. -/
def placesFrom (m : ℕ) (a : α) (j : ℕ) : List (α × ℕ) :=
  (List.range' j (m + 1 - j)).map fun i => (a, i)

/-- The places after `(a, j)`, when the elements after `a` are `as`. -/
def placesAfter (m : ℕ) (a : α) (j : ℕ) (as : List α) : List (α × ℕ) :=
  placesFrom m a (j + 1) ++ as.flatMap fun b => placesFrom m b 0

theorem placesFrom_eq_cons {m j : ℕ} (hj : j ≤ m) (a : α) :
    placesFrom m a j = (a, j) :: placesFrom m a (j + 1) := by
  obtain ⟨k, rfl⟩ := Nat.exists_eq_add_of_le hj
  have hlen : j + k + 1 - j = k + 1 := by omega
  have hlen' : j + k + 1 - (j + 1) = k := by omega
  rw [placesFrom, placesFrom, hlen, hlen', List.range'_succ, List.map_cons]

theorem placesFrom_of_lt {m j : ℕ} (hj : m < j) (a : α) : placesFrom m a j = [] := by
  rw [placesFrom, show m + 1 - j = 0 by omega, List.range'_zero, List.map_nil]

theorem cons_placesAfter {m j : ℕ} (hj : j ≤ m) (a : α) (as : List α) :
    (a, j) :: placesAfter m a j as = placesFrom m a j ++ as.flatMap fun b => placesFrom m b 0 := by
  rw [placesAfter, ← List.cons_append, ← placesFrom_eq_cons hj]

theorem mem_placesFrom {m j : ℕ} {p : α × ℕ} (h : p ∈ placesFrom m a j) :
    p.1 = a ∧ j ≤ p.2 ∧ p.2 ≤ m := by
  rw [placesFrom, List.mem_map] at h
  obtain ⟨i, hi, rfl⟩ := h
  rw [List.mem_range'_1] at hi
  exact ⟨rfl, hi.1, by omega⟩

theorem mem_cons_placesAfter {m j : ℕ} (hj : j ≤ m) {p : α × ℕ}
    (h : p ∈ (a, j) :: placesAfter m a j as) : p.1 ∈ a :: as ∧ p.2 ≤ m := by
  rw [cons_placesAfter hj, List.mem_append, List.mem_flatMap] at h
  rcases h with h | ⟨b, hb, h⟩
  · obtain ⟨rfl, -, hm⟩ := mem_placesFrom h
    exact ⟨List.mem_cons_self .., hm⟩
  · obtain ⟨rfl, -, hm⟩ := mem_placesFrom h
    exact ⟨List.mem_cons_of_mem _ hb, hm⟩

/-- The places before the first one do not come back. -/
theorem le_of_mem_cons_placesAfter (hlinked : Linked next a as) {m j : ℕ} (hj : j ≤ m)
    {p : α × ℕ} (h : p ∈ (a, j) :: placesAfter m a j as) (hp : p.1 = a) : j ≤ p.2 := by
  rw [cons_placesAfter hj, List.mem_append, List.mem_flatMap] at h
  rcases h with h | ⟨b, hb, h⟩
  · exact (mem_placesFrom h).2.1
  · obtain ⟨rfl, -, -⟩ := mem_placesFrom h
    exact absurd (hp ▸ hb) (List.nodup_cons.mp hlinked.nodup).1

theorem length_placesFrom (m : ℕ) (a : α) (j : ℕ) : (placesFrom m a j).length = m + 1 - j := by
  rw [placesFrom, List.length_map, List.length_range']

theorem length_cons_placesAfter {m j : ℕ} (hj : j ≤ m) (a : α) (as : List α) :
    ((a, j) :: placesAfter m a j as).length ≤ (m + 1) * (as.length + 1) := by
  rw [cons_placesAfter hj, List.length_append, length_placesFrom, Nat.mul_succ]
  have hrest : (as.flatMap fun b => placesFrom m b 0).length = (m + 1) * as.length := by
    simp [List.length_flatMap, length_placesFrom, Nat.mul_comm]
  omega

/-- **The places of a linked sequence are linked.** The outer induction is on the sequence, the
inner one on the places left of its first element. -/
theorem places {m : ℕ} (h : Linked next a as) :
    ∀ {j : ℕ}, j ≤ m → Linked (placeNext next m) (a, j) (placesAfter m a j as) := by
  induction h with
  | @last a hlast =>
    intro j hj
    induction hk : m - j generalizing j with
    | zero =>
      rw [placesAfter, placesFrom_of_lt (by omega), List.nil_append, List.flatMap_nil]
      refine .last ?_
      rw [placeNext, if_neg (by omega), hlast, Option.map_none]
    | succ k ih =>
      have hlt : j < m := by omega
      rw [placesAfter, placesFrom_eq_cons hlt]
      exact .cons (if_pos hlt) (ih hlt (by omega))
  | @cons a b bs hnext _ ihtail =>
    intro j hj
    induction hk : m - j generalizing j with
    | zero =>
      rw [placesAfter, placesFrom_of_lt (by omega), List.nil_append, List.flatMap_cons,
        placesFrom_eq_cons (Nat.zero_le m)]
      refine .cons ?_ (ihtail (Nat.zero_le m))
      rw [placeNext, if_neg (by omega), hnext, Option.map_some]
    | succ k ih =>
      have hlt : j < m := by omega
      rw [placesAfter, placesFrom_eq_cons hlt]
      exact .cons (if_pos hlt) (ih hlt (by omega))

end Linked
