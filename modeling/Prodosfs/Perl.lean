import Prodosfs.Texts
import Mathlib.Data.List.Basic

/-!
# What the Perl scripts are made of

The two scripts that turn a word processor's file into text are written in Perl. Here are the
operators they use, on strings of bytes, and the ways in which they stop.

A substitution of all matches takes one pass over the string. What a pass removes may bring
together what the next one would remove, so that the scripts repeat some of them until they find
nothing more; such a loop ends because every pass but the last leaves a shorter string.

## Main definitions

* `times`, `substitute`, `index` — the operators
* `whileMatching` — a substitution that is repeated
-/

namespace Prodosfs.Perl

/-- How a script stops before its end. -/
inductive Stop where
  /-- `exit`, after a message to `STDERR`. -/
  | exit (status : ℕ) (stderr : String)
  | die (message : String)
  deriving DecidableEq, Repr

/-- `$s x $count` -/
def times (s : Str) (count : ℤ) : Str := (List.replicate count.toNat s).flatten

/-- `s/[...]/.../g`, for a class of characters. -/
def substitute (p : UInt8 → Bool) (replacement s : Str) : Str :=
  s.flatMap fun c => if p c then replacement else [c]

/-- `index($s, $c)`, for one character. -/
def index (s : Str) (c : UInt8) : ℤ := if c ∈ s then s.idxOf c else -1

/-- `do { } while (s/...//g)`, for a substitution that removes its matches. -/
def whileMatching (pass : Str → Str) (s : Str) : Str :=
  if (pass s).length < s.length then whileMatching pass (pass s) else s
termination_by s.length

/-- A substitution that finds nothing. -/
theorem whileMatching_of_eq {pass : Str → Str} {s : Str} (h : pass s = s) :
    whileMatching pass s = s := by
  rw [whileMatching, h, if_neg (lt_irrefl _)]

theorem substitute_of_not_mem {p : UInt8 → Bool} {replacement s : Str}
    (h : ∀ c ∈ s, p c = false) : substitute p replacement s = s := by
  induction s with
  | nil => rfl
  | cons c s ih =>
    rw [List.forall_mem_cons] at h
    rw [substitute, List.flatMap_cons, ← substitute, ih h.2, h.1]
    rfl

/-- A repeated removal leaves nothing of what it removes. -/
theorem not_mem_whileMatching {p : UInt8 → Bool} {c : UInt8} (hc : p c) (s : Str) :
    c ∉ whileMatching (substitute p []) s := by
  have hfilter : ∀ s : Str, substitute p [] s = s.filter fun c => !p c := by
    intro s
    induction s with
    | nil => rfl
    | cons b s ih =>
      rw [substitute, List.flatMap_cons, ← substitute, ih, List.filter_cons]
      cases p b <;> rfl
  induction s using whileMatching.induct (substitute p []) with
  | case1 s hlt ih =>
    rw [whileMatching, if_pos hlt]
    exact ih
  | case2 s hle =>
    rw [whileMatching, if_neg hle]
    intro hmem
    refine hle ?_
    rw [hfilter]
    exact List.length_filter_lt_length_iff_exists.mpr ⟨c, hmem, by simp [hc]⟩

theorem index_of_not_mem {s : Str} {c : UInt8} (h : c ∉ s) : index s c = -1 := if_neg h

/-- The first place of a character that is not in the string before it. -/
theorem index_append {s t : Str} {c : UInt8} (h : c ∉ s) :
    index (s ++ c :: t) c = s.length := by
  rw [index, if_pos (by simp), List.idxOf_append_of_notMem h, List.idxOf_cons_self, Nat.add_zero]

end Prodosfs.Perl
