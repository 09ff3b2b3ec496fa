import Mathlib.Data.List.Pairwise
import Mathlib.Data.Nat.Notation

/-!
# Trees of names

Directories that list entries, entries that have names, and entries that are directories in turn.
The two ways of getting at an entry are kept apart:

* *looking it up*, component by component, always taking the first entry that answers to a name;
* *listing* the directory it is in, which is reached through entries that were listed before.

## Main definitions

* `NameTree.lookup` — look a path up
* `NameTree.Walk` — the directory at the end of a path that was looked up
* `NameTree.Listed` — a directory reached through listed entries, and its path

## Main results

* `NameTree.lookup_eq_ok_iff` — every component of a path that was found has been found
* `NameTree.Listed.lookup` — where names are unique, what is listed is found under its path
-/

/-- Directories of type `D`, entries of type `E`, names of type `N`. -/
structure NameTree (D E N : Type) where
  /-- What a directory lists. -/
  entries : D → List E
  /-- The entry answers to the name. -/
  named : E → N → Bool
  /-- The directory an entry is, if it is one. -/
  child : E → Option D

namespace NameTree

/-- Why a path was not found. -/
inductive Missing where
  /-- There is no entry of that name. -/
  | name
  /-- There is one, but it is not a directory. -/
  | directory
  deriving DecidableEq, Repr

variable {D E N : Type} (t : NameTree D E N)

/-- The first entry of a name. -/
def find (d : D) (n : N) : Option E := (t.entries d).find? fun e => t.named e n

/-- Look a path up from a directory on. -/
def lookup : D → List N → Except Missing E
  | _, [] => .error .name
  | d, n :: ns =>
    match t.find d n with
    | none => .error .name
    | some e =>
      if ns.isEmpty then .ok e
      else
        match t.child e with
        | none => .error .directory
        | some c => lookup c ns

/-- Looking up `ns` from `d` on leads to the directory `d'`. -/
inductive Walk : D → List N → D → Prop
  | here (d : D) : Walk d [] d
  | into {d c d' : D} {e : E} {n : N} {ns : List N} (hfind : t.find d n = some e)
      (hchild : t.child e = some c) (tail : Walk c ns d') : Walk d (n :: ns) d'

/-- The directory `d'` has been reached from `d` through listed entries, whose names are `ns`. -/
inductive Listed (nameOf : E → N) (d : D) : List N → D → Prop
  | here : Listed nameOf d [] d
  | into {d' c : D} {e : E} {ns : List N} (head : Listed nameOf d ns d') (hmem : e ∈ t.entries d')
      (hchild : t.child e = some c) : Listed nameOf d (ns ++ [nameOf e]) c

/-- A directory in which every entry answers to its own name, and none to that of another. -/
structure Named (nameOf : E → N) (d : D) : Prop where
  self : ∀ e ∈ t.entries d, t.named e (nameOf e)
  unique : (t.entries d).Pairwise fun e e' => ¬ t.named e (nameOf e') ∧ ¬ t.named e' (nameOf e)

variable {t} {d d' : D} {n : N} {ns : List N} {e : E} {nameOf : E → N}

theorem lookup_of_find_none (h : t.find d n = none) : t.lookup d (n :: ns) = .error .name := by
  rw [lookup, h]

theorem lookup_last (h : t.find d n = some e) : t.lookup d [n] = .ok e := by
  rw [lookup, h]
  rfl

theorem lookup_of_child {c : D} (h : t.find d n = some e) (hchild : t.child e = some c)
    (hns : ns ≠ []) : t.lookup d (n :: ns) = t.lookup c ns := by
  have hnot : ¬ ns.isEmpty = true := by simpa using hns
  rw [lookup, h]
  simp only [if_neg hnot, hchild]

theorem lookup_of_not_child (h : t.find d n = some e) (hchild : t.child e = none)
    (hns : ns ≠ []) : t.lookup d (n :: ns) = .error .directory := by
  have hnot : ¬ ns.isEmpty = true := by simpa using hns
  rw [lookup, h]
  simp only [if_neg hnot, hchild]

theorem Walk.snoc {c : D} (h : t.Walk d ns d') (hfind : t.find d' n = some e)
    (hchild : t.child e = some c) : t.Walk d (ns ++ [n]) c := by
  induction h with
  | here d => exact .into hfind hchild (.here c)
  | into hf hc _ ih => exact .into hf hc (ih hfind)

/-- **Every component of a path that was found has been found**, in the directory the components
before it lead to. -/
theorem lookup_eq_ok_iff : ∀ {ns : List N} {d : D},
    t.lookup d ns = .ok e ↔
      ∃ ms n d', ns = ms ++ [n] ∧ t.Walk d ms d' ∧ t.find d' n = some e := by
  intro ns
  induction ns with
  | nil =>
    intro d
    constructor
    · intro h
      cases h
    · rintro ⟨ms, n, d', h, -⟩
      exact absurd h (by simp)
  | cons n ns ih =>
    intro d
    constructor
    · intro h
      cases hfind : t.find d n with
      | none => rw [lookup_of_find_none hfind] at h; cases h
      | some e' =>
        cases ns with
        | nil =>
          rw [lookup_last hfind] at h
          cases h
          exact ⟨[], n, d, rfl, .here d, hfind⟩
        | cons m ns =>
          cases hchild : t.child e' with
          | none =>
            rw [lookup_of_not_child hfind hchild (List.cons_ne_nil m ns)] at h
            cases h
          | some c =>
            rw [lookup_of_child hfind hchild (List.cons_ne_nil m ns)] at h
            obtain ⟨ms, k, d', hns, hwalk, hk⟩ := ih.mp h
            exact ⟨n :: ms, k, d', by rw [hns, List.cons_append], .into hfind hchild hwalk, hk⟩
    · rintro ⟨ms, k, d', hns, hwalk, hk⟩
      cases hwalk with
      | here =>
        obtain ⟨rfl, rfl⟩ := List.cons.inj hns
        exact lookup_last hk
      | into hfind hchild tail =>
        obtain ⟨rfl, rfl⟩ := List.cons.inj hns
        refine (lookup_of_child hfind hchild ?_).trans (ih.mpr ⟨_, k, d', rfl, tail, hk⟩)
        exact List.append_ne_nil_of_right_ne_nil _ (List.cons_ne_nil k [])

/-- Every component of a path that was found has led to an entry. -/
theorem Walk.exists_find (h : t.Walk d ns d') :
    ∀ n ∈ ns, ∃ ms d'' e, t.Walk d ms d'' ∧ t.find d'' n = some e := by
  induction h with
  | here =>
    intro n hn
    cases hn
  | into hfind hchild _ ih =>
    intro n hn
    rcases List.mem_cons.mp hn with rfl | hn
    · exact ⟨[], _, _, .here _, hfind⟩
    · obtain ⟨ms, d'', e, hwalk, hn⟩ := ih n hn
      exact ⟨_, d'', e, .into hfind hchild hwalk, hn⟩

theorem exists_find_of_lookup (h : t.lookup d ns = .ok e) :
    ∀ n ∈ ns, ∃ ms d' e', t.Walk d ms d' ∧ t.find d' n = some e' := by
  obtain ⟨ms, m, d', rfl, hwalk, hfind⟩ := lookup_eq_ok_iff.mp h
  intro n hn
  rcases List.mem_append.mp hn with hn | hn
  · exact hwalk.exists_find n hn
  · obtain rfl := List.mem_singleton.mp hn
    exact ⟨ms, d', e, hwalk, hfind⟩

/-- In a directory with unique names, an entry is found under its own. -/
theorem Named.find (h : t.Named nameOf d) (he : e ∈ t.entries d) :
    t.find d (nameOf e) = some e := by
  obtain ⟨es, es', hsplit⟩ := List.append_of_mem he
  have hself := h.self e he
  have hbefore : es.find? (fun e' => t.named e' (nameOf e)) = none := by
    rw [List.find?_eq_none]
    intro e' he'
    have hpair := h.unique
    rw [hsplit, List.pairwise_append] at hpair
    exact (hpair.2.2 e' he' e (List.mem_cons_self ..)).1
  rw [NameTree.find, hsplit, List.find?_append, hbefore, Option.none_or]
  exact List.find?_cons_of_pos hself

theorem Listed.walk (h : t.Listed nameOf d ns d')
    (hnamed : ∀ {ms d''}, t.Listed nameOf d ms d'' → t.Named nameOf d'') : t.Walk d ns d' := by
  induction h with
  | here => exact .here d
  | into head hmem hchild ih => exact ih.snoc ((hnamed head).find hmem) hchild

/-- Looking up a path goes on where its first components lead. -/
theorem Walk.lookup (h : t.Walk d ns d') {ms : List N} (hms : ms ≠ []) :
    t.lookup d (ns ++ ms) = t.lookup d' ms := by
  induction h with
  | here => rfl
  | into hfind hchild _ ih =>
    rw [List.cons_append, lookup_of_child hfind hchild (List.append_ne_nil_of_right_ne_nil _ hms)]
    exact ih

/-- **What is listed is found under its path**, at every depth, where names are unique. -/
theorem Listed.lookup (h : t.Listed nameOf d ns d')
    (hnamed : ∀ {ms d''}, t.Listed nameOf d ms d'' → t.Named nameOf d'') (he : e ∈ t.entries d') :
    t.lookup d (ns ++ [nameOf e]) = .ok e :=
  lookup_eq_ok_iff.mpr ⟨ns, nameOf e, d', rfl, h.walk hnamed, (hnamed h).find he⟩

end NameTree
