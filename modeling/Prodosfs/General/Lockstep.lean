import Prodosfs.General.Call

/-!
# Two calls in lockstep

Two programs that take the same branches, on two states that differ where no branch looks. From
states that are related the two calls end alike and leave related states. The rules put two such
calls together from their parts.

## Main definitions

* `Call.Lockstep`

## Main results

* `Call.Lockstep.bind`, `Call.Lockstep.get_bind` — sequences of calls in lockstep
-/

namespace Call

variable {ε σ τ α β : Type} {R : σ → τ → Prop}

/-- From related states the two calls end alike, and in related states. -/
def Lockstep (R : σ → τ → Prop) (m : Call ε σ α) (n : Call ε τ α) : Prop :=
  ∀ s t, R s t → (n t).1 = (m s).1 ∧ R (m s).2 (n t).2

namespace Lockstep

theorem pure (a : α) : Lockstep R (Pure.pure a : Call ε σ α) (Pure.pure a) :=
  fun _ _ h => ⟨rfl, h⟩

theorem throw (e : ε) : Lockstep R (Call.throw e : Call ε σ α) (Call.throw e) :=
  fun _ _ h => ⟨rfl, h⟩

theorem timeout : Lockstep R (Call.timeout : Call ε σ α) Call.timeout := fun _ _ h => ⟨rfl, h⟩

theorem modify {f : σ → σ} {g : τ → τ} (h : ∀ s t, R s t → R (f s) (g t)) :
    Lockstep R (modify f : Call ε σ PUnit) (modify g) := fun s t hR => ⟨rfl, h s t hR⟩

theorem ite {c : Prop} [Decidable c] {m m' : Call ε σ α} {n n' : Call ε τ α}
    (h : c → Lockstep R m n) (h' : ¬ c → Lockstep R m' n') :
    Lockstep R (if c then m else m') (if c then n else n') := by
  split
  · exact h ‹_›
  · exact h' ‹_›

/-- The second halves are in lockstep for whatever the first ones have returned. -/
theorem bind {m : Call ε σ α} {n : Call ε τ α} {f : α → Call ε σ β} {g : α → Call ε τ β}
    (h : Lockstep R m n) (hf : ∀ a, Lockstep R (f a) (g a)) : Lockstep R (m >>= f) (n >>= g) := by
  intro s t hR
  obtain ⟨hsame, hrest⟩ := h s t hR
  rw [bind_apply, bind_apply]
  rcases hm : m s with ⟨a | e | _ | _, s'⟩ <;> rcases hn : n t with ⟨b | e' | _ | _, t'⟩ <;>
    rw [hm, hn] at hsame hrest <;> cases hsame
  · exact hf a s' t' hrest
  all_goals exact ⟨rfl, hrest⟩

/-- What is done with the states is done with related ones. -/
theorem get_bind {f : σ → Call ε σ β} {g : τ → Call ε τ β}
    (h : ∀ s t, R s t → (g t t).1 = (f s s).1 ∧ R (f s s).2 (g t t).2) :
    Lockstep R (get >>= f) (get >>= g) := fun s t hR => h s t hR

end Lockstep

end Call
