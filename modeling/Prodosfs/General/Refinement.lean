import Prodosfs.General.Call

/-!
# Programs that answer as they should

A program takes actions one after another and answers each of them; a specification says, for a
state of its own, which actions are meant for it, which answers are allowed, and which state comes
next. What the program does with an action that is not meant for the state is left open.

The specification is on its own: its states need not look like those of the program. The two are
connected by a relation that has to be shown for one action only.

## Main definitions

* `Specification`
* `Specification.Obeys` — a sequence of actions, each of which is meant for the state it comes in
* `Call.Replies` — a sequence of actions, each of which was answered
* `Specification.Refines` — one action is answered as it should be
* `Specification.observed` — the actions that an observer takes part in

## Main results

* `Specification.Refines.run` — then every sequence of actions is
* `Specification.Obeys.part`, `Specification.Answered.observed` — an observer sees a sequence of
  actions that could have been the only ones
-/

/-- What is expected of a program that is given actions of type `ι` and answers with `α`. -/
structure Specification (τ ι α : Type) where
  /-- The action is meant for the state. -/
  Meant : τ → ι → Prop
  /-- The action may be answered so. -/
  Allows : τ → ι → α → Prop
  /-- The state after the action. -/
  next : τ → ι → τ

/-- The program was given some actions and has answered all of them. -/
inductive Call.Replies {ε σ ι α : Type} (exec : ι → Call ε σ α) : σ → List (ι × α) → σ → Prop
  | nil (s : σ) : Replies exec s [] s
  | cons {s t u : σ} {i : ι} {a : α} {rest : List (ι × α)} (head : exec i s = (.ret a, t))
      (tail : Replies exec t rest u) : Replies exec s ((i, a) :: rest) u

namespace Specification

variable {ε σ τ ι α : Type} (spec : Specification τ ι α)

/-- The state after a sequence of actions. -/
def after (t : τ) (is : List ι) : τ := is.foldl spec.next t

/-- Every action is meant for the state it comes in. -/
def Obeys : τ → List ι → Prop
  | _, [] => True
  | t, i :: is => spec.Meant t i ∧ Obeys (spec.next t i) is

/-- Every answer is allowed. -/
def Answered : τ → List (ι × α) → Prop
  | _, [] => True
  | t, (i, a) :: rest => spec.Allows t i a ∧ Answered (spec.next t i) rest

/-- For states that are related by `R`, an action that is meant for the state is answered, as is
allowed, and leads to states that are related again. -/
def Refines (exec : ι → Call ε σ α) (R : σ → τ → Prop) : Prop :=
  ∀ (s : σ) (t : τ) (i : ι), R s t → spec.Meant t i →
    ∃ a s', exec i s = (.ret a, s') ∧ spec.Allows t i a ∧ R s' (spec.next t i)

/-- The actions an observer takes part in, which may depend on the state they come in. -/
def observed (own : τ → ι → Bool) : τ → List (ι × α) → List (ι × α)
  | _, [] => []
  | t, (i, a) :: rest =>
    if own t i then (i, a) :: observed own (spec.next t i) rest
    else observed own (spec.next t i) rest

/-- The same, of actions that have not been answered yet. -/
def part (own : τ → ι → Bool) : τ → List ι → List ι
  | _, [] => []
  | t, i :: is =>
    if own t i then i :: part own (spec.next t i) is else part own (spec.next t i) is

/-- States that are the same to an observer, by the relation `R`: what he takes part in is meant for
both of them and allowed in both of them, and nothing else makes a difference to him. -/
structure Observer (own : τ → ι → Bool) (R : τ → τ → Prop) : Prop where
  meant : ∀ t t' i, R t t' → own t i → spec.Meant t i → spec.Meant t' i
  allows : ∀ t t' i a, R t t' → own t i → spec.Allows t i a → spec.Allows t' i a
  next : ∀ t t' i, R t t' → own t i → spec.Meant t i → R (spec.next t i) (spec.next t' i)
  other : ∀ t t' i, R t t' → own t i = false → spec.Meant t i → R (spec.next t i) t'

variable {spec} {exec : ι → Call ε σ α} {R : σ → τ → Prop} {s s' : σ} {t : τ} {is js : List ι}

@[simp] theorem after_nil (t : τ) : spec.after t [] = t := rfl

@[simp] theorem after_cons (t : τ) (i : ι) (is : List ι) :
    spec.after t (i :: is) = spec.after (spec.next t i) is := rfl

theorem after_append (t : τ) (is js : List ι) :
    spec.after t (is ++ js) = spec.after (spec.after t is) js := List.foldl_append

/-- **The run rule.** The induction is on the actions. -/
theorem Refines.run (h : spec.Refines exec R) (hR : R s t) (hobeys : spec.Obeys t is) :
    ∃ run s', run.map Prod.fst = is ∧ Call.Replies exec s run s' ∧ spec.Answered t run ∧
      R s' (spec.after t is) := by
  induction is generalizing s t with
  | nil => exact ⟨[], s, rfl, .nil s, trivial, hR⟩
  | cons i is ih =>
    obtain ⟨hmeant, hrest⟩ := hobeys
    obtain ⟨a, u, hexec, hallows, hu⟩ := h s t i hR hmeant
    obtain ⟨run, s', hrun, hreplies, hanswered, hs'⟩ := ih hu hrest
    exact ⟨(i, a) :: run, s', by rw [List.map_cons, hrun], .cons hexec hreplies,
      ⟨hallows, hanswered⟩, hs'⟩

/-! ### Observers -/

variable {own : τ → ι → Bool} {S : τ → τ → Prop}

theorem map_fst_observed (run : List (ι × α)) (t : τ) :
    (spec.observed own t run).map Prod.fst = spec.part own t (run.map Prod.fst) := by
  induction run generalizing t with
  | nil => rfl
  | cons head rest ih =>
    rw [observed, List.map_cons, part]
    split
    · rw [List.map_cons, ih]
    · exact ih _

/-- What an observer does could have been done alone. -/
theorem Obeys.part (hobserver : spec.Observer own S) :
    ∀ {is : List ι} {t t' : τ}, S t t' → spec.Obeys t is → spec.Obeys t' (spec.part own t is) := by
  intro is
  induction is with
  | nil => exact fun _ _ => trivial
  | cons i is ih =>
    rintro t t' hS ⟨hmeant, hrest⟩
    rw [Specification.part]
    by_cases hown : own t i
    · rw [if_pos hown]
      exact ⟨hobserver.meant t t' i hS hown hmeant,
        ih (hobserver.next t t' i hS hown hmeant) hrest⟩
    · rw [if_neg hown]
      exact ih (hobserver.other t t' i hS (by simpa using hown) hmeant) hrest

/-- And could have been answered so. -/
theorem Answered.observed (hobserver : spec.Observer own S) :
    ∀ {run : List (ι × α)} {t t' : τ}, S t t' → spec.Obeys t (run.map Prod.fst) →
      spec.Answered t run → spec.Answered t' (spec.observed own t run) := by
  intro run
  induction run with
  | nil => exact fun _ _ _ => trivial
  | cons head rest ih =>
    obtain ⟨i, a⟩ := head
    rintro t t' hS ⟨hmeant, hrest⟩ ⟨hallows, hanswered⟩
    rw [Specification.observed]
    by_cases hown : own t i
    · rw [if_pos hown]
      exact ⟨hobserver.allows t t' i a hS hown hallows,
        ih (hobserver.next t t' i hS hown hmeant) hrest hanswered⟩
    · rw [if_neg hown]
      exact ih (hobserver.other t t' i hS (by simpa using hown) hmeant) hrest hanswered

end Specification
