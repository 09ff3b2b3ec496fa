import Prodosfs.General.Call

/-!
# Two calls that do the same

A function that is called with two arguments which only differ where it does not look does the same
both times. What it does look at depends on the state it is in, so that the two calls need only
agree from the states that it can be in: they are *alike* from these on. The rules below put two
such calls together from their parts, as the calls are.

Two calls may also do the same up to what they return: they end in the same way and leave the same
state, but a text that one of them returns is written differently.

## Main definitions

* `Call.Alike` — two calls that do the same from some states on
* `Call.UpTo` — two calls that do the same up to what they return

## Main results

* `Call.Alike.bind`, `Call.UpTo.bind` — sequences of such calls
* `Call.Alike.returns` — runs of operations that are alike
-/

namespace Call

variable {ε σ τ α β ι : Type}

/-- From the states in `I` on, the two calls do the same, and what a returning one returns and
leaves is in `J`. -/
def Alike (I : σ → Prop) (m n : Call ε σ α) (J : α → σ → Prop) : Prop :=
  ∀ s, I s → n s = m s ∧ ∀ a t, m s = (.ret a, t) → J a t

namespace Alike

variable {I : σ → Prop} {J : α → σ → Prop} {K : β → σ → Prop} {m n : Call ε σ α}

theorem pure {a : α} (h : ∀ s, I s → J a s) :
    Alike I (Pure.pure a : Call ε σ α) (Pure.pure a) J := by
  refine fun s hs => ⟨rfl, fun b t hret => ?_⟩
  cases hret
  exact h s hs

theorem throw (e : ε) : Alike I (Call.throw e) (Call.throw e) J :=
  fun _ _ => ⟨rfl, fun _ _ hret => by cases hret⟩

theorem fault : Alike I (Call.fault : Call ε σ α) Call.fault J :=
  fun _ _ => ⟨rfl, fun _ _ hret => by cases hret⟩

theorem timeout : Alike I (Call.timeout : Call ε σ α) Call.timeout J :=
  fun _ _ => ⟨rfl, fun _ _ hret => by cases hret⟩

theorem modify {f : σ → σ} {J : PUnit → σ → Prop} (h : ∀ s, I s → J ⟨⟩ (f s)) :
    Alike I (modify f : Call ε σ PUnit) (modify f) J := by
  refine fun s hs => ⟨rfl, fun b t hret => ?_⟩
  cases hret
  exact h s hs

theorem ite {c : Prop} [Decidable c] {m' n' : Call ε σ α} (h : c → Alike I m n J)
    (h' : ¬ c → Alike I m' n' J) : Alike I (if c then m else m') (if c then n else n') J := by
  split
  · exact h ‹_›
  · exact h' ‹_›

/-- The rest of a sequence starts from what the first half has left. -/
theorem bind {f g : α → Call ε σ β} (h : Alike I m n J) (hf : ∀ a, Alike (J a) (f a) (g a) K) :
    Alike I (m >>= f) (n >>= g) K := by
  intro s hs
  obtain ⟨hsame, hpost⟩ := h s hs
  rw [bind_apply, bind_apply, hsame]
  rcases hm : m s with ⟨a | e | _ | _, t⟩
  · exact hf a t (hpost a t hm)
  all_goals exact ⟨rfl, fun b u hret => by cases hret⟩

theorem get_bind {f g : σ → Call ε σ β} (h : ∀ x, I x → Alike (fun s => s = x) (f x) (g x) K) :
    Alike I (get >>= f) (get >>= g) K := by
  intro s hs
  rw [get_bind_apply, get_bind_apply]
  exact h s hs s rfl

/-- What is known of the state need not be known of it any more. -/
theorem assume {p : Prop} (h : p → Alike I m n J) : Alike (fun s => I s ∧ p) m n J :=
  fun s hs => h hs.2 s hs.1

theorem mono {I' : σ → Prop} {J' : α → σ → Prop} (h : Alike I m n J) (hI : ∀ s, I' s → I s)
    (hJ : ∀ a s, J a s → J' a s) : Alike I' m n J' :=
  fun s hs => ⟨(h s (hI s hs)).1, fun a t hret => hJ a t ((h s (hI s hs)).2 a t hret)⟩

theorem withLocal {I : τ × σ → Prop} {J : α → τ × σ → Prop} {m n : Call ε (τ × σ) α} {x : τ}
    (h : Alike I m n J) (hI : ∀ s, I (x, s)) :
    Alike (fun _ : σ => True) (Call.withLocal x m) (Call.withLocal x n)
      fun a s => J a.1 (a.2, s) := by
  intro s _
  obtain ⟨hsame, hpost⟩ := h (x, s) (hI s)
  rw [Call.withLocal, Call.withLocal, hsame]
  refine ⟨rfl, fun a t hret => ?_⟩
  rcases hm : m (x, s) with ⟨b | e | _ | _, y, u⟩
  · rw [hm] at hret
    cases hret
    exact hpost b _ hm
  all_goals
    rw [hm] at hret
    cases hret

/-- **Runs of operations that are alike** are the same. -/
theorem returns {exec exec' : ι → Call ε σ α} (h : ∀ i, Alike I (exec i) (exec' i) fun _ s => I s)
    {s t : σ} {is : List ι} (hrun : Returns exec s is t) (hs : I s) :
    Returns exec' s is t ∧ I t := by
  induction hrun with
  | nil s => exact ⟨.nil s, hs⟩
  | cons head _ ih =>
    obtain ⟨hsame, hpost⟩ := h _ _ hs
    obtain ⟨hrest, ht⟩ := ih (hpost _ _ head)
    exact ⟨.cons (hsame.trans head) hrest, ht⟩

end Alike

/-! ### Related results -/

/-- The two calls leave the same state and end in the same way. If they return, then with values
that are related by `R`. -/
def UpTo (R : α → α → Prop) (m n : Call ε σ α) : Prop :=
  ∀ s, (∃ a b t, m s = (.ret a, t) ∧ n s = (.ret b, t) ∧ R a b) ∨
    n s = m s ∧ ∀ a t, m s ≠ (.ret a, t)

namespace UpTo

variable {R : α → α → Prop} {K : β → β → Prop} {m n : Call ε σ α} {f g : α → Call ε σ β}

theorem refl (h : ∀ a, R a a) (m : Call ε σ α) : UpTo R m m := by
  intro s
  rcases hm : m s with ⟨a | e | _ | _, t⟩
  · exact Or.inl ⟨a, a, t, rfl, rfl, h a⟩
  all_goals exact Or.inr ⟨rfl, fun _ _ h => by cases h⟩

theorem pure {a b : α} (h : R a b) : UpTo R (Pure.pure a : Call ε σ α) (Pure.pure b) :=
  fun s => Or.inl ⟨a, b, s, rfl, rfl, h⟩

theorem bind (h : UpTo R m n) (hf : ∀ a b, R a b → UpTo K (f a) (g b)) :
    UpTo K (m >>= f) (n >>= g) := by
  intro s
  rcases h s with ⟨a, b, t, hm, hn, hab⟩ | ⟨hsame, hnot⟩
  · rw [bind_of_ret hm, bind_of_ret hn]
    exact hf a b hab t
  · rw [bind_apply, bind_apply, hsame]
    rcases hm : m s with ⟨a | e | _ | _, t⟩
    · exact absurd hm (hnot a t)
    all_goals exact Or.inr ⟨rfl, fun _ _ h => by cases h⟩

/-- The first half is the same. -/
theorem bind_right (hf : ∀ a, UpTo K (f a) (g a)) : UpTo K (m >>= f) (m >>= g) :=
  (refl (fun _ => rfl) m).bind fun a _ hab => hab ▸ hf a

theorem withLocal {m n : Call ε (τ × σ) α} (x : τ) (h : UpTo R m n) :
    UpTo (fun a b => R a.1 b.1) (Call.withLocal x m : Call ε σ (α × τ)) (Call.withLocal x n) := by
  intro s
  rcases h (x, s) with ⟨a, b, t, hm, hn, hab⟩ | ⟨hsame, hnot⟩
  · exact Or.inl ⟨(a, t.1), (b, t.1), t.2, withLocal_of_ret hm, withLocal_of_ret hn, hab⟩
  · rw [Call.withLocal, Call.withLocal, hsame]
    rcases hm : m (x, s) with ⟨a | e | _ | _, t⟩
    · exact absurd hm (hnot a t)
    all_goals exact Or.inr ⟨rfl, fun _ _ h => by cases h⟩

end UpTo

end Call
