import Mathlib.Data.Nat.Notation
import Mathlib.Logic.Basic

/-!
# Calls that end in several ways

A call of a stateful function is a function from the state it is entered with to an outcome and
the state it leaves behind. Four outcomes are kept apart:

* `ret a` — the call returned `a`
* `throw e` — an exception escaped
* `fault` — the call did something the language leaves undefined
* `timeout` — a loop was cut off by its bound before it ended

The state is left behind *whatever* the outcome, because the callee has written to it before it
threw. That is what separates this from an exception monad over a state monad, and it is what
makes "a failing call changes nothing" a statement one can prove or refute.

## Main definitions

* `Call ε σ α` — the monad
* `Call.Ends` — a call whose loops come to an end
* `Call.withLocal` — run a call on a state extended by a local object
* `Call.onPart` — run a call on a part of the state
* `Call.Frames` — a call that does not touch the second half of its state
* `Call.Blind`, `Call.BlindAt` — a call that may write to a state it does not look at
* `Call.nth` — the outcome of the `k`-th call in a row
* `Call.Returns` — a sequence of calls, every one of which returned
* `Call.after` — the state a sequence of calls leaves, however they ended
* `Call.Along` — a sequence of calls, every one of which is made in a state it is meant for
* `Call.Leaves` — what a call leaves, when it returns and when it does not

## Main results

* `Call.bind_eq_ret_iff` — a returning sequence is two returning halves
* `Call.Blind.bind` — a call that does not look may be followed by one that does, if it has written
* `Call.Returns.invariant` — what every returning call preserves, a whole run preserves
* `Call.after_invariant` — what every call preserves, a whole run preserves
* `Call.along_iff` — what every call needs, a whole run needs
-/

/-- How a call ends. -/
inductive Outcome (ε α : Type) where
  /-- The call returned a value. -/
  | ret (a : α)
  /-- An exception escaped from the call. -/
  | throw (e : ε)
  /-- The call's behaviour is undefined. -/
  | fault
  /-- A loop bound ran out. -/
  | timeout
  deriving DecidableEq, Repr

/-- The outcome is one the language defines: the call returned or threw. -/
def Outcome.Defined {ε α : Type} : Outcome ε α → Prop
  | .ret _ => True
  | .throw _ => True
  | .fault => False
  | .timeout => False

/-- A call on a state of type `σ`, with results of type `α` and exceptions of type `ε`. -/
def Call (ε σ α : Type) : Type := σ → Outcome ε α × σ

namespace Call

variable {ε σ τ α β ι : Type}

/-- Sequencing stops at the first call that does not return, and keeps the state it left. -/
def bind (m : Call ε σ α) (f : α → Call ε σ β) : Call ε σ β := fun s =>
  match m s with
  | (.ret a, t) => f a t
  | (.throw e, t) => (.throw e, t)
  | (.fault, t) => (.fault, t)
  | (.timeout, t) => (.timeout, t)

instance : Monad (Call ε σ) where
  pure a := fun s => (.ret a, s)
  bind := bind

instance : MonadStateOf σ (Call ε σ) where
  get := fun s => (.ret s, s)
  set t := fun _ => (.ret ⟨⟩, t)
  modifyGet f := fun s => (.ret (f s).1, (f s).2)

/-- Throw an exception. -/
def throw (e : ε) : Call ε σ α := fun s => (.throw e, s)

/-- Undefined behaviour. -/
def fault : Call ε σ α := fun s => (.fault, s)

/-- A loop has used up its bound. -/
def timeout : Call ε σ α := fun s => (.timeout, s)

/-! ### Evaluating a call at a state -/

@[simp] theorem pure_apply (a : α) (s : σ) : (pure a : Call ε σ α) s = (.ret a, s) := rfl

@[simp] theorem throw_apply (e : ε) (s : σ) : (throw e : Call ε σ α) s = (.throw e, s) := rfl

@[simp] theorem fault_apply (s : σ) : (fault : Call ε σ α) s = (.fault, s) := rfl

@[simp] theorem timeout_apply (s : σ) : (timeout : Call ε σ α) s = (.timeout, s) := rfl

@[simp] theorem get_apply (s : σ) : (get : Call ε σ σ) s = (.ret s, s) := rfl

@[simp] theorem set_apply (t s : σ) : (set t : Call ε σ PUnit) s = (.ret ⟨⟩, t) := rfl

@[simp] theorem modify_apply (f : σ → σ) (s : σ) :
    (modify f : Call ε σ PUnit) s = (.ret ⟨⟩, f s) := rfl

@[simp] theorem ite_apply (c : Prop) [Decidable c] (m n : Call ε σ α) (s : σ) :
    (if c then m else n) s = if c then m s else n s := by
  split <;> rfl

theorem bind_apply (m : Call ε σ α) (f : α → Call ε σ β) (s : σ) :
    (m >>= f) s = match m s with
      | (.ret a, t) => f a t
      | (.throw e, t) => (.throw e, t)
      | (.fault, t) => (.fault, t)
      | (.timeout, t) => (.timeout, t) := rfl

theorem bind_of_ret {m : Call ε σ α} {f : α → Call ε σ β} {s t : σ} {a : α}
    (h : m s = (.ret a, t)) : (m >>= f) s = f a t := by
  rw [bind_apply, h]

theorem bind_of_throw {m : Call ε σ α} {f : α → Call ε σ β} {s t : σ} {e : ε}
    (h : m s = (.throw e, t)) : (m >>= f) s = (.throw e, t) := by
  rw [bind_apply, h]

/-- A first half that does not return leaves its state to the caller. -/
theorem bind_snd_of_ne_ret {m : Call ε σ α} {f : α → Call ε σ β} {s t : σ} {o : Outcome ε α}
    (h : m s = (o, t)) (ho : ∀ a, o ≠ .ret a) : ((m >>= f) s).2 = t := by
  rw [bind_apply, h]
  cases o with
  | ret a => exact absurd rfl (ho a)
  | throw e => rfl
  | fault => rfl
  | timeout => rfl

/-- A second half that leaves the state alone. -/
theorem bind_snd {m : Call ε σ α} {f : α → Call ε σ β} (hf : ∀ a t, (f a t).2 = t) (s : σ) :
    ((m >>= f) s).2 = (m s).2 := by
  rw [bind_apply]
  rcases m s with ⟨a | e | _ | _, t⟩
  · exact hf a t
  · rfl
  · rfl
  · rfl

/-- What holds after the first half, and is kept by the second one, holds after the sequence. -/
theorem bind_keeps {I : σ → Prop} {m : Call ε σ α} {f : α → Call ε σ β} {s : σ} (hm : I (m s).2)
    (hf : ∀ a t, I t → I (f a t).2) : I ((m >>= f) s).2 := by
  rw [bind_apply]
  rcases hms : m s with ⟨a | e | _ | _, t⟩
  · rw [hms] at hm
    exact hf a t hm
  all_goals rw [hms] at hm; exact hm

@[simp] theorem pure_bind_apply (a : α) (f : α → Call ε σ β) (s : σ) :
    ((pure a : Call ε σ α) >>= f) s = f a s := rfl

@[simp] theorem get_bind_apply (f : σ → Call ε σ β) (s : σ) :
    ((get : Call ε σ σ) >>= f) s = f s s := rfl

@[simp] theorem set_bind_apply (t : σ) (f : PUnit → Call ε σ β) (s : σ) :
    ((set t : Call ε σ PUnit) >>= f) s = f ⟨⟩ t := rfl

@[simp] theorem modify_bind_apply (g : σ → σ) (f : PUnit → Call ε σ β) (s : σ) :
    ((modify g : Call ε σ PUnit) >>= f) s = f ⟨⟩ (g s) := rfl

@[simp] theorem throw_bind_apply (e : ε) (f : α → Call ε σ β) (s : σ) :
    ((throw e : Call ε σ α) >>= f) s = (.throw e, s) := rfl

@[simp] theorem fault_bind_apply (f : α → Call ε σ β) (s : σ) :
    ((fault : Call ε σ α) >>= f) s = (.fault, s) := rfl

@[simp] theorem timeout_bind_apply (f : α → Call ε σ β) (s : σ) :
    ((timeout : Call ε σ α) >>= f) s = (.timeout, s) := rfl

@[simp] theorem ite_bind_apply (c : Prop) [Decidable c] (m n : Call ε σ α) (f : α → Call ε σ β)
    (s : σ) : ((if c then m else n) >>= f) s = if c then (m >>= f) s else (n >>= f) s := by
  split <;> rfl

@[simp] theorem bind_assoc_apply {γ : Type} (m : Call ε σ α) (f : α → Call ε σ β)
    (g : β → Call ε σ γ) (s : σ) : ((m >>= f) >>= g) s = (m >>= fun a => f a >>= g) s := by
  rw [bind_apply, bind_apply, bind_apply]
  rcases m s with ⟨_ | _ | _ | _, t⟩ <;> rfl

/-- **Inversion of sequencing.** A sequence returns exactly when both halves do. -/
theorem bind_eq_ret_iff {m : Call ε σ α} {f : α → Call ε σ β} {s u : σ} {b : β} :
    (m >>= f) s = (.ret b, u) ↔ ∃ a t, m s = (.ret a, t) ∧ f a t = (.ret b, u) := by
  rw [bind_apply]
  rcases m s with ⟨a | e | _ | _, t⟩
  · constructor
    · intro h
      exact ⟨a, t, rfl, h⟩
    · rintro ⟨a', t', h, hf⟩
      cases h
      exact hf
  all_goals simp

/-! ### Calls that end -/

/-- A sequence that ends has a first half that does. -/
theorem defined_of_bind {m : Call ε σ α} {f : α → Call ε σ β} {s : σ}
    (h : ((m >>= f) s).1.Defined) : (m s).1.Defined := by
  rw [bind_apply] at h
  rcases hm : m s with ⟨a | e | _ | _, t⟩
  · trivial
  · trivial
  all_goals simp only [hm] at h; exact h

/-- A sequence ends if its first half does, and its second one wherever the first has returned. -/
theorem defined_bind {m : Call ε σ α} {f : α → Call ε σ β} {s : σ} (hm : (m s).1.Defined)
    (hf : ∀ a t, m s = (.ret a, t) → (f a t).1.Defined) : ((m >>= f) s).1.Defined := by
  rw [bind_apply]
  rcases hms : m s with ⟨a | e | _ | _, t⟩
  · exact hf a t hms
  · trivial
  all_goals rw [hms] at hm; exact hm

theorem bind_fst_of_timeout {m : Call ε σ α} {f : α → Call ε σ β} {s : σ}
    (h : (m s).1 = .timeout) : ((m >>= f) s).1 = .timeout := by
  rw [bind_apply]
  rcases hms : m s with ⟨a | e | _ | _, t⟩
  all_goals simp_all

/-- A call with a bound on its loops, for which some bound is large enough. -/
def Ends (call : ℕ → Call ε σ α) (s : σ) : Prop := ∃ fuel, (call fuel s).1.Defined

theorem not_ends_of_timeout {call : ℕ → Call ε σ α} {s : σ}
    (h : ∀ fuel, (call fuel s).1 = .timeout) : ¬ Ends call s := by
  rintro ⟨fuel, hdefined⟩
  rw [h fuel] at hdefined
  exact hdefined

/-! ### Local objects -/

/-- Run a call on the state extended by a local object, and hand the object back. The object is
lost when the call does not return. -/
def withLocal (x : τ) (m : Call ε (τ × σ) α) : Call ε σ (α × τ) := fun s =>
  match m (x, s) with
  | (.ret a, (y, t)) => (.ret (a, y), t)
  | (.throw e, (_, t)) => (.throw e, t)
  | (.fault, (_, t)) => (.fault, t)
  | (.timeout, (_, t)) => (.timeout, t)

theorem withLocal_of_ret {x y : τ} {m : Call ε (τ × σ) α} {s t : σ} {a : α}
    (h : m (x, s) = (.ret a, (y, t))) : withLocal x m s = (.ret (a, y), t) := by
  rw [withLocal, h]

theorem withLocal_eq_ret_iff {x y : τ} {m : Call ε (τ × σ) α} {s t : σ} {a : α} :
    withLocal x m s = (.ret (a, y), t) ↔ m (x, s) = (.ret a, (y, t)) := by
  refine ⟨fun h => ?_, withLocal_of_ret⟩
  rw [withLocal] at h
  split at h <;> cases h
  assumption

theorem withLocal_defined_iff {x : τ} {m : Call ε (τ × σ) α} {s : σ} :
    (withLocal x m s).1.Defined ↔ (m (x, s)).1.Defined := by
  rw [withLocal]
  rcases m (x, s) with ⟨a | e | _ | _, y, t⟩ <;> exact Iff.rfl

/-! ### Parts of the state -/

/-- Run a call on a part of the state. -/
def onPart (read : τ → σ) (write : τ → σ → τ) (m : Call ε σ α) : Call ε τ α := fun t =>
  ((m (read t)).1, write t (m (read t)).2)

theorem onPart_of_eq {read : τ → σ} {write : τ → σ → τ} {m : Call ε σ α} {s : σ} {t : τ}
    {o : Outcome ε α} (h : m (read t) = (o, s)) : onPart read write m t = (o, write t s) := by
  rw [onPart, h]

/-! ### What a call looks at -/

/-- From `x` on, the call neither looks at the second half of the state nor changes it. -/
def Frames (m : Call ε (τ × σ) α) (x : τ) : Prop := ∃ o y, ∀ s, m (x, s) = (o, (y, s))

theorem Frames.bind {m : Call ε (τ × σ) α} {f : α → Call ε (τ × σ) β} {x : τ} (hm : m.Frames x)
    (hf : ∀ a y, (f a).Frames y) : (m >>= f).Frames x := by
  obtain ⟨o, y, hm⟩ := hm
  cases o with
  | ret a =>
    obtain ⟨o, z, hf⟩ := hf a y
    exact ⟨o, z, fun s => (bind_of_ret (hm s)).trans (hf s)⟩
  | throw e => exact ⟨.throw e, y, fun s => by rw [bind_apply, hm]⟩
  | fault => exact ⟨.fault, y, fun s => by rw [bind_apply, hm]⟩
  | timeout => exact ⟨.timeout, y, fun s => by rw [bind_apply, hm]⟩

theorem Frames.snd_eq {m : Call ε (τ × σ) α} {x y : τ} {s t : σ} {o : Outcome ε α}
    (h : m.Frames x) (hm : m (x, s) = (o, (y, t))) : t = s := by
  obtain ⟨o, y, hframes⟩ := h
  rw [hframes] at hm
  cases hm
  rfl

/-! ### Calls that do not look

A call may be told not to look at a part of the state and still write to it. What it writes is then
always the same. -/

/-- The call does not look at the state it is entered with. It may replace it. -/
def Blind (m : Call ε σ α) : Prop := ∃ o, ∃ w : Option σ, ∀ s, m s = (o, w.getD s)

/-- From `x` on, the call does not look at the second half of the state. It may replace it. -/
def BlindAt (m : Call ε (τ × σ) α) (x : τ) : Prop :=
  ∃ o y, ∃ w : Option σ, ∀ s, m (x, s) = (o, (y, w.getD s))

theorem Blind.result {m : Call ε σ α} (h : m.Blind) (s t : σ) : (m s).1 = (m t).1 := by
  obtain ⟨o, w, hm⟩ := h
  rw [hm, hm]

theorem BlindAt.result {m : Call ε (τ × σ) α} {x : τ} (h : m.BlindAt x) (s t : σ) :
    (m (x, s)).1 = (m (x, t)).1 := by
  obtain ⟨o, y, w, hm⟩ := h
  rw [hm, hm]

theorem Blind.pure (a : α) : (Pure.pure a : Call ε σ α).Blind := ⟨.ret a, none, fun _ => rfl⟩

theorem Blind.throw (e : ε) : (Call.throw e : Call ε σ α).Blind := ⟨.throw e, none, fun _ => rfl⟩

theorem Blind.set (s : σ) : (MonadStateOf.set s : Call ε σ PUnit).Blind :=
  ⟨.ret ⟨⟩, some s, fun _ => rfl⟩

theorem Blind.ite {c : Prop} [Decidable c] {m n : Call ε σ α} (hm : c → m.Blind)
    (hn : ¬ c → n.Blind) : (if c then m else n).Blind := by
  split
  · exact hm ‹_›
  · exact hn ‹_›

theorem BlindAt.ite {c : Prop} [Decidable c] {m n : Call ε (τ × σ) α} {x : τ}
    (hm : c → m.BlindAt x) (hn : ¬ c → n.BlindAt x) : (if c then m else n).BlindAt x := by
  split
  · exact hm ‹_›
  · exact hn ‹_›

/-- Looking at the first half of the state is no matter. -/
theorem BlindAt.get {f : τ × σ → Call ε (τ × σ) α} {m : Call ε (τ × σ) α} {x : τ}
    (hf : ∀ s, f (x, s) = m) (hm : m.BlindAt x) :
    ((MonadStateOf.get : Call ε (τ × σ) (τ × σ)) >>= f).BlindAt x := by
  obtain ⟨o, y, w, hm⟩ := hm
  exact ⟨o, y, w, fun s => (congrFun (hf s) (x, s)).trans (hm s)⟩

/-- **The second half of a sequence may look** after a first half that has written. -/
theorem Blind.bind {m : Call ε σ α} {f : α → Call ε σ β} (hm : m.Blind)
    (hf : ∀ a, (∀ s, m s = (.ret a, s)) → (f a).Blind) : (m >>= f).Blind := by
  obtain ⟨o, w, hm⟩ := hm
  cases o with
  | ret a =>
    cases w with
    | none =>
      obtain ⟨o, w, hf⟩ := hf a hm
      exact ⟨o, w, fun s => (bind_of_ret (hm s)).trans (hf s)⟩
    | some t => exact ⟨(f a t).1, some (f a t).2, fun s => bind_of_ret (hm s)⟩
  | throw e => exact ⟨.throw e, w, fun s => bind_of_throw (hm s)⟩
  | fault => exact ⟨.fault, w, fun s => by rw [bind_apply, hm]⟩
  | timeout => exact ⟨.timeout, w, fun s => by rw [bind_apply, hm]⟩

theorem BlindAt.bind {m : Call ε (τ × σ) α} {f : α → Call ε (τ × σ) β} {x : τ} (hm : m.BlindAt x)
    (hf : ∀ a y, (∀ s, m (x, s) = (.ret a, (y, s))) → (f a).BlindAt y) : (m >>= f).BlindAt x := by
  obtain ⟨o, y, w, hm⟩ := hm
  cases o with
  | ret a =>
    cases w with
    | none =>
      obtain ⟨o, z, w, hf⟩ := hf a y hm
      exact ⟨o, z, w, fun s => (bind_of_ret (hm s)).trans (hf s)⟩
    | some t =>
      exact ⟨(f a (y, t)).1, (f a (y, t)).2.1, some (f a (y, t)).2.2, fun s => bind_of_ret (hm s)⟩
  | throw e => exact ⟨.throw e, y, w, fun s => bind_of_throw (hm s)⟩
  | fault => exact ⟨.fault, y, w, fun s => by rw [bind_apply, hm]⟩
  | timeout => exact ⟨.timeout, y, w, fun s => by rw [bind_apply, hm]⟩

theorem Frames.blindAt {m : Call ε (τ × σ) α} {x : τ} (h : m.Frames x) : m.BlindAt x := by
  obtain ⟨o, y, hm⟩ := h
  exact ⟨o, y, none, hm⟩

theorem BlindAt.withLocal {m : Call ε (τ × σ) α} {x : τ} (h : m.BlindAt x) :
    (Call.withLocal x m).Blind := by
  obtain ⟨o, y, w, hm⟩ := h
  cases o with
  | ret a => exact ⟨.ret (a, y), w, fun s => by rw [Call.withLocal, hm]⟩
  | throw e => exact ⟨.throw e, w, fun s => by rw [Call.withLocal, hm]⟩
  | fault => exact ⟨.fault, w, fun s => by rw [Call.withLocal, hm]⟩
  | timeout => exact ⟨.timeout, w, fun s => by rw [Call.withLocal, hm]⟩

/-! ### Calls in a row -/

/-- The `k`-th call of `m` in a row, counting from `0`. A call that did not return leaves its
state to the next one like any other. -/
def nth (m : Call ε σ α) (s : σ) : ℕ → Outcome ε α × σ
  | 0 => m s
  | k + 1 => m (nth m s k).2

@[simp] theorem nth_zero (m : Call ε σ α) (s : σ) : nth m s 0 = m s := rfl

theorem nth_succ (m : Call ε σ α) (s : σ) (k : ℕ) : nth m s (k + 1) = m (nth m s k).2 := rfl

theorem nth_succ' (m : Call ε σ α) (s : σ) (k : ℕ) : nth m s (k + 1) = nth m (m s).2 k := by
  induction k with
  | zero => rfl
  | succ k ih => rw [nth_succ, ih, nth_succ]

/-- A sequence of operations, each of which returned. -/
inductive Returns (exec : ι → Call ε σ α) : σ → List ι → σ → Prop
  | nil (s : σ) : Returns exec s [] s
  | cons {s t u : σ} {i : ι} {is : List ι} {a : α} (head : exec i s = (.ret a, t))
      (tail : Returns exec t is u) : Returns exec s (i :: is) u

/-- **The run rule.** What every returning operation preserves, a returning run preserves. -/
theorem Returns.invariant {exec : ι → Call ε σ α} {I : σ → Prop}
    (hstep : ∀ i s t a, I s → exec i s = (.ret a, t) → I t) {s t : σ} {is : List ι}
    (h : Returns exec s is t) (hs : I s) : I t := by
  induction h with
  | nil => exact hs
  | cons head _ ih => exact ih (hstep _ _ _ _ hs head)

/-- The state a sequence of operations leaves, when the caller goes on however they end. -/
def after (exec : ι → Call ε σ α) (s : σ) (is : List ι) : σ :=
  is.foldl (fun s i => (exec i s).2) s

/-- The run rule for sequences that go on after a failure. -/
theorem after_invariant {exec : ι → Call ε σ α} {I : σ → Prop}
    (hstep : ∀ i s, I s → I (exec i s).2) (is : List ι) : ∀ {s : σ}, I s → I (after exec s is) := by
  induction is with
  | nil =>
    intro s hs
    exact hs
  | cons i is ih =>
    intro s hs
    exact ih (hstep i s hs)

/-- The same, for an invariant that the operations of the sequence preserve. -/
theorem after_invariant_of_mem {exec : ι → Call ε σ α} {I : σ → Prop} {is : List ι} :
    ∀ {s : σ}, (∀ i ∈ is, ∀ s, I s → I (exec i s).2) → I s → I (after exec s is) := by
  induction is with
  | nil =>
    intro s _ hs
    exact hs
  | cons i is ih =>
    intro s hstep hs
    exact ih (fun j hj => hstep j (List.mem_cons_of_mem _ hj))
      (hstep i (List.mem_cons_self ..) s hs)

/-- In a sequence of operations, whatever becomes of them, each meets `P` in the state it is carried
out in. -/
def Along (exec : ι → Call ε σ α) (P : σ → ι → Prop) : σ → List ι → Prop
  | _, [] => True
  | s, i :: is => P s i ∧ Along exec P (exec i s).2 is

/-- **The run rule for a condition on the operations.** If, in the states with the invariant, `Q` is
what an operation needs for `P`, and then keeps the invariant, this holds of whole sequences. -/
theorem along_iff {exec : ι → Call ε σ α} {I : σ → Prop} {P Q : σ → ι → Prop}
    (hiff : ∀ s i, I s → (P s i ↔ Q s i)) (hstep : ∀ s i, I s → Q s i → I (exec i s).2)
    (is : List ι) : ∀ {s : σ}, I s → (Along exec P s is ↔ Along exec Q s is) := by
  induction is with
  | nil => exact fun _ => Iff.rfl
  | cons i is ih =>
    intro s hs
    constructor
    · rintro ⟨hP, hrest⟩
      have hQ := (hiff s i hs).mp hP
      exact ⟨hQ, (ih (hstep s i hs hQ)).mp hrest⟩
    · rintro ⟨hQ, hrest⟩
      exact ⟨(hiff s i hs).mpr hQ, (ih (hstep s i hs hQ)).mpr hrest⟩

/-! ### What a call leaves -/

/-- How a call ends that does not return. -/
inductive Failure (ε : Type) where
  | throw (e : ε)
  | fault
  | timeout

/-- From the state `s`, the call returns something and leaves a state that fits it, in `J`, or it
ends in another way and leaves a state that fits this, in `E`. -/
def Leaves (J : α → σ → Prop) (E : Failure ε → σ → Prop) (m : Call ε σ α) (s : σ) : Prop :=
  match m s with
  | (.ret a, t) => J a t
  | (.throw e, t) => E (.throw e) t
  | (.fault, t) => E .fault t
  | (.timeout, t) => E .timeout t

section
variable {J : α → σ → Prop} {E : Failure ε → σ → Prop} {m : Call ε σ α} {s : σ}

theorem Leaves.of_eq {a : α} {t : σ} (h : m s = (.ret a, t)) (hJ : J a t) : Leaves J E m s := by
  rw [Leaves, h]
  exact hJ

theorem Leaves.of_throw {e : ε} {t : σ} (h : m s = (.throw e, t)) (hE : E (.throw e) t) :
    Leaves J E m s := by
  rw [Leaves, h]
  exact hE

theorem Leaves.pure {a : α} (h : J a s) : Leaves J E (Pure.pure a : Call ε σ α) s := h

theorem Leaves.throw {e : ε} (h : E (.throw e) s) : Leaves J E (Call.throw e : Call ε σ α) s := h

theorem Leaves.fault (h : E .fault s) : Leaves J E (Call.fault : Call ε σ α) s := h

theorem Leaves.timeout (h : E .timeout s) : Leaves J E (Call.timeout : Call ε σ α) s := h

/-- The second half of a sequence is begun in what the first one has left. -/
theorem Leaves.bind {f : α → Call ε σ β} {K : β → σ → Prop} (h : Leaves J E m s)
    (hf : ∀ a t, J a t → Leaves K E (f a) t) : Leaves K E (m >>= f) s := by
  rw [Leaves] at h
  rw [Leaves, bind_apply]
  rcases hm : m s with ⟨a | e | _ | _, t⟩
  · rw [hm] at h
    exact hf a t h
  all_goals rw [hm] at h; exact h

theorem Leaves.bind_of_ret {a : α} {t : σ} {f : α → Call ε σ β} {K : β → σ → Prop}
    (h : m s = (.ret a, t)) (hf : Leaves K E (f a) t) : Leaves K E (m >>= f) s := by
  rwa [Leaves, Call.bind_of_ret h]

/-! What begins with an access to the state goes on in the state that is left. -/

theorem Leaves.pure_bind {a : α} {f : α → Call ε σ β} {K : β → σ → Prop} (h : Leaves K E (f a) s) :
    Leaves K E ((Pure.pure a : Call ε σ α) >>= f) s := h

theorem Leaves.get_bind {f : σ → Call ε σ α} (h : Leaves J E (f s) s) :
    Leaves J E ((MonadStateOf.get : Call ε σ σ) >>= f) s := h

theorem Leaves.set_bind {f : PUnit → Call ε σ α} {t : σ} (h : Leaves J E (f ⟨⟩) t) :
    Leaves J E ((MonadStateOf.set t : Call ε σ PUnit) >>= f) s := h

theorem Leaves.modify_bind {f : PUnit → Call ε σ α} {g : σ → σ} (h : Leaves J E (f ⟨⟩) (g s)) :
    Leaves J E ((modify g : Call ε σ PUnit) >>= f) s := h

theorem Leaves.ite {c : Prop} [Decidable c] {n : Call ε σ α} (hm : c → Leaves J E m s)
    (hn : ¬ c → Leaves J E n s) : Leaves J E (if c then m else n) s := by
  split
  · exact hm ‹_›
  · exact hn ‹_›

theorem Leaves.mono {K : α → σ → Prop} {F : Failure ε → σ → Prop} (h : Leaves J E m s)
    (hJ : ∀ a t, J a t → K a t) (hE : ∀ f t, E f t → F f t) : Leaves K F m s := by
  rw [Leaves] at h ⊢
  rcases hm : m s with ⟨a | e | _ | _, t⟩
  · rw [hm] at h
    exact hJ a t h
  all_goals rw [hm] at h; exact hE _ t h

/-- What is returned, and where. -/
theorem Leaves.eqn (h : Leaves J E m s) :
    Leaves (fun a t => m s = (.ret a, t) ∧ J a t) E m s := by
  rw [Leaves] at h ⊢
  rcases hm : m s with ⟨a | e | _ | _, t⟩
  · rw [hm] at h
    exact ⟨rfl, h⟩
  all_goals rw [hm] at h; exact h

/-- The local object is handed back, or it is lost. -/
theorem Leaves.withLocal {J : α → τ × σ → Prop} {E : Failure ε → τ × σ → Prop} {x : τ}
    {m : Call ε (τ × σ) α} (h : Leaves J E m (x, s)) :
    Leaves (fun a t => J a.1 (a.2, t)) (fun f t => ∃ y, E f (y, t)) (Call.withLocal x m) s := by
  rw [Leaves] at h
  rw [Leaves, Call.withLocal]
  rcases hm : m (x, s) with ⟨a | e | _ | _, y, t⟩
  · rw [hm] at h
    exact h
  all_goals rw [hm] at h; exact ⟨y, h⟩

/-- What becomes of a part of the state is written back into the state the call was made in. -/
theorem Leaves.onPart {read : τ → σ} {write : τ → σ → τ} {t : τ} (h : Leaves J E m (read t)) :
    Leaves (fun a u => ∃ s, u = write t s ∧ J a s) (fun f u => ∃ s, u = write t s ∧ E f s)
      (Call.onPart read write m) t := by
  rw [Leaves] at h
  rw [Leaves, Call.onPart]
  rcases hm : m (read t) with ⟨a | e | _ | _, s⟩
  all_goals rw [hm] at h; exact ⟨s, rfl, h⟩

theorem Leaves.of_ret {a : α} {t : σ} (h : Leaves J E m s) (hm : m s = (.ret a, t)) : J a t := by
  rw [Leaves, hm] at h
  exact h

theorem Leaves.ne_fault (hE : ∀ t, ¬ E .fault t) (h : Leaves J E m s) : (m s).1 ≠ .fault := by
  intro hfault
  rw [Leaves, show m s = (.fault, (m s).2) from Prod.ext hfault rfl] at h
  exact hE _ h

/-- The state that is left, however the call ends. -/
theorem Leaves.elim {P : σ → Prop} (h : Leaves (fun _ => P) (fun _ => P) m s) : P (m s).2 := by
  rw [Leaves] at h
  rcases hm : m s with ⟨a | e | _ | _, t⟩
  all_goals rw [hm] at h; exact h

end

end Call
