import Mathlib.Data.List.Basic
import Mathlib.Data.Set.Function

/-!
# Texts that can be read back

A way of writing values down is *legible* if the value can be read back from what was written,
whatever has been written behind it: then it says where it ends, too. Legible parts that are written
one after the other can be read back one after the other, and that is how a format with several
fields is.

What makes a field legible is that it has a fixed width, or that it ends in a character which does
not occur in it. Filling it up on the left does no harm if the field itself does not begin like what
it is filled up with, and on the right if it is legible already.

Only some of the values need be legible, and so everything is relative to a set of them.

## Main definitions

* `Legible` — values that can be read back

## Main results

* `Legible.of_length`, `Legible.upTo` — fields
* `Legible.lead`, `Legible.fill` — fields that are filled up
* `Legible.option` — fields that may be left out
* `Legible.flatMap` — any number of fields
-/

variable {α β : Type}

/-- The values in `A` can be read back from what `f` makes of them. -/
def Legible (A : Set α) (f : α → List β) : Prop :=
  ∀ ⦃a⦄, a ∈ A → ∀ ⦃b⦄, b ∈ A → ∀ {r s : List β}, f a ++ r = f b ++ s → a = b ∧ r = s

namespace Legible

variable {A : Set α} {f : α → List β} {c : β}

theorem injOn (hf : Legible A f) : Set.InjOn f A := fun _ ha _ hb h =>
  (hf ha hb (congrArg (· ++ []) h)).1

/-- A field of a fixed width. -/
theorem of_length {n : ℕ} (hlen : ∀ a ∈ A, (f a).length = n) (hf : Set.InjOn f A) :
    Legible A f := by
  intro a ha b hb r s h
  obtain ⟨hfield, hrest⟩ := List.append_inj h ((hlen a ha).trans (hlen b hb).symm)
  exact ⟨hf ha hb hfield, hrest⟩

/-- What is before a character, and what is behind it. -/
theorem append_cons_inj {x y r s : List β} (hx : c ∉ x) (hy : c ∉ y)
    (h : x ++ c :: r = y ++ c :: s) : x = y ∧ r = s := by
  induction x generalizing y with
  | nil =>
    cases y with
    | nil => exact ⟨rfl, (List.cons.inj h).2⟩
    | cons d y => exact absurd (List.mem_cons.mpr (Or.inl (List.cons.inj h).1)) hy
  | cons d x ih =>
    cases y with
    | nil => exact absurd (List.mem_cons.mpr (Or.inl (List.cons.inj h).1.symm)) hx
    | cons e y =>
      obtain ⟨rfl, hrest⟩ := List.cons.inj h
      obtain ⟨rfl, hend⟩ := ih (fun hc => hx (List.mem_cons_of_mem _ hc))
        (fun hc => hy (List.mem_cons_of_mem _ hc)) hrest
      exact ⟨rfl, hend⟩

/-- A field up to some character. -/
theorem upTo (hc : ∀ a ∈ A, c ∉ f a) (hf : Set.InjOn f A) : Legible A fun a => f a ++ [c] := by
  intro a ha b hb r s h
  rw [List.append_assoc, List.append_assoc] at h
  obtain ⟨hfield, hrest⟩ := append_cons_inj (hc a ha) (hc b hb) h
  exact ⟨hf ha hb hfield, hrest⟩

/-- What is behind a run of one character. -/
theorem replicate_append_inj {m n : ℕ} {x y : List β} (hx : x.head? ≠ some c)
    (hy : y.head? ≠ some c) (h : List.replicate m c ++ x = List.replicate n c ++ y) : x = y := by
  induction m generalizing n with
  | zero =>
    cases n with
    | zero => exact h
    | succ n => exact absurd (congrArg List.head? h) hx
  | succ m ih =>
    cases n with
    | zero => exact absurd (congrArg List.head? h).symm hy
    | succ n => exact ih (List.cons.inj h).2

/-- A field that is filled up on the left. -/
theorem lead (hf : Legible A f) (hhead : ∀ a ∈ A, ∃ d x, f a = d :: x ∧ d ≠ c) (k : α → ℕ) :
    Legible A fun a => List.replicate (k a) c ++ f a := by
  have hstart : ∀ a ∈ A, ∀ r, (f a ++ r).head? ≠ some c := by
    intro a ha r
    obtain ⟨d, x, hfield, hd⟩ := hhead a ha
    rw [hfield]
    exact fun h => hd (Option.some.inj h)
  intro a ha b hb r s h
  rw [List.append_assoc, List.append_assoc] at h
  exact hf ha hb (replicate_append_inj (hstart a ha r) (hstart b hb s) h)

/-- A field that is filled up on the right. -/
theorem fill (hf : Legible A f) (p : α → List β) : Legible A fun a => f a ++ p a := by
  intro a ha b hb r s h
  rw [List.append_assoc, List.append_assoc] at h
  obtain ⟨rfl, hrest⟩ := hf ha hb h
  exact ⟨rfl, List.append_cancel_left hrest⟩

/-- A field that may be replaced by a text which begins otherwise. -/
theorem option (hf : Legible A f) {x : List β} (hx : ∀ a ∈ A, ∀ r s, x ++ r ≠ f a ++ s) :
    Legible {o : Option α | ∀ a ∈ o, a ∈ A} fun o => o.elim x f := by
  intro o ho o' ho' r s h
  cases o with
  | none =>
    cases o' with
    | none => exact ⟨rfl, List.append_cancel_left h⟩
    | some b => exact absurd h (hx b (ho' b rfl) r s)
  | some a =>
    cases o' with
    | none => exact absurd h.symm (hx a (ho a rfl) s r)
    | some b =>
      obtain ⟨rfl, hrest⟩ := hf (ho a rfl) (ho' b rfl) h
      exact ⟨rfl, hrest⟩

/-- **Any number of fields,** if what comes behind the last one does not begin like a field. -/
theorem flatMap (hf : Legible A f) (hhead : ∀ a ∈ A, (f a).head? = some c) {as : List α} :
    (∀ a ∈ as, a ∈ A) → ∀ {bs : List α}, (∀ b ∈ bs, b ∈ A) → ∀ {r s : List β},
      r.head? ≠ some c → s.head? ≠ some c → as.flatMap f ++ r = bs.flatMap f ++ s →
      as = bs ∧ r = s := by
  have hstart : ∀ a ∈ A, ∀ r, (f a ++ r).head? = some c := fun a ha r => by
    rw [List.head?_append, hhead a ha, Option.some_or]
  induction as with
  | nil =>
    intro _ bs hbs r s hr _ h
    cases bs with
    | nil => exact ⟨rfl, h⟩
    | cons b bs =>
      rw [List.flatMap_cons, List.append_assoc] at h
      exact absurd ((congrArg List.head? h).trans (hstart b (hbs b (List.mem_cons_self ..)) _)) hr
  | cons a as ih =>
    intro has bs hbs r s hr hs h
    rw [List.flatMap_cons, List.append_assoc] at h
    have ha := has a (List.mem_cons_self ..)
    cases bs with
    | nil => exact absurd ((congrArg List.head? h).symm.trans (hstart a ha _)) hs
    | cons b bs =>
      rw [List.flatMap_cons, List.append_assoc] at h
      obtain ⟨rfl, hrest⟩ := hf ha (hbs b (List.mem_cons_self ..)) h
      obtain ⟨rfl, hend⟩ := ih (fun a' ha' => has a' (List.mem_cons_of_mem _ ha'))
        (fun b' hb' => hbs b' (List.mem_cons_of_mem _ hb')) hr hs hrest
      exact ⟨rfl, hend⟩

end Legible
