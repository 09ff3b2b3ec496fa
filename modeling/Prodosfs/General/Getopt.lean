import Mathlib.Data.List.Basic
import Mathlib.Tactic.Common

/-!
# Options on a command line

What `getopt` finds when it is called until there is nothing left to find, as documented for the GNU
library: options may come before, between and behind the operands, which are left for the caller in
their order; `--` ends the options.

```
-d -ef            three options
-l5  -l 5  -dl5   an option with an argument
-                 an operand
```

An option that takes an argument takes what is left of the word it is in, or else the next word,
whatever that is. If there is none, it is invalid, as is a letter that is no option.

The scan goes through the words letter by letter. `Reads` says the same in the terms of a user, for
one word or two at a time, and is no function to begin with: that no two of its cases are about the
same words is part of the result.

## Main definitions

* `Getopt.scan` — what is found in all the words
* `Getopt.Reads` — the same, as a grammar of the words

## Main results

* `Getopt.reads_iff` — the grammar has a reading of all words, and no more than one
-/

namespace Getopt

/-- What one call finds. -/
inductive Found where
  | plain (letter : UInt8)
  | withArgument (letter : UInt8) (argument : List UInt8)
  /-- A letter that is no option, or one that takes an argument and gets none. -/
  | invalid (letter : UInt8)
  deriving DecidableEq, Repr

/-- The options: whether a letter takes an argument, if it is one. -/
abbrev Table := UInt8 → Option Bool

variable (takes : Table)

/-- The letters of a word, with the word behind it. It is taken along if an option needs it. -/
def letters (next : Option (List UInt8)) : List UInt8 → List Found × Bool
  | [] => ([], false)
  | c :: cs =>
    match takes c with
    | none => (.invalid c :: (letters next cs).1, (letters next cs).2)
    | some false => (.plain c :: (letters next cs).1, (letters next cs).2)
    | some true =>
      if cs ≠ [] then ([.withArgument c cs], false)
      else
        match next with
        | some argument => ([.withArgument c argument], true)
        | none => ([.invalid c], false)

/-- The letters of a word, if it has any. -/
def lettersOf : List UInt8 → Option (List UInt8)
  | 45 :: c :: cs => some (c :: cs)
  | _ => none

/-- All that is found, and the operands. -/
def scan : List (List UInt8) → List Found × List (List UInt8)
  | [] => ([], [])
  | word :: rest =>
    if word = [45, 45] then ([], rest)
    else
      match lettersOf word, rest with
      | none, rest => ((scan rest).1, word :: (scan rest).2)
      | some cs, [] => ((letters takes none cs).1, [])
      | some cs, next :: rest =>
        if (letters takes (some next) cs).2 then
          ((letters takes (some next) cs).1 ++ (scan rest).1, (scan rest).2)
        else
          ((letters takes (some next) cs).1 ++ (scan (next :: rest)).1, (scan (next :: rest)).2)

/-! ### Every command line -/

/-- What a letter is found as that takes no argument. -/
def single (c : UInt8) : Found := if takes c = none then .invalid c else .plain c

/-- The words, the options among them and the operands among them. -/
inductive Reads : List (List UInt8) → List Found → List (List UInt8) → Prop
  | nil : Reads [] [] []
  /-- The words behind `--` are operands. -/
  | dashes (operands : List (List UInt8)) : Reads ([45, 45] :: operands) [] operands
  /-- No option, and nothing that looks like one. -/
  | operand {word : List UInt8} {rest : List (List UInt8)} {found : List Found}
      {operands : List (List UInt8)} (hword : lettersOf word = none)
      (h : Reads rest found operands) : Reads (word :: rest) found (word :: operands)
  /-- Letters that take no argument, options or not. -/
  | plain {cs : List UInt8} {rest : List (List UInt8)} {found : List Found}
      {operands : List (List UInt8)} (hne : cs ≠ []) (hdashes : cs ≠ [45])
      (hcs : ∀ c ∈ cs, takes c ≠ some true) (h : Reads rest found operands) :
      Reads ((45 :: cs) :: rest) (cs.map (single takes) ++ found) operands
  /-- Such letters, and then an option that takes what follows. -/
  | joined {before argument : List UInt8} {letter : UInt8} {rest : List (List UInt8)}
      {found : List Found} {operands : List (List UInt8)}
      (hbefore : ∀ c ∈ before, takes c ≠ some true) (hletter : takes letter = some true)
      (hargument : argument ≠ []) (h : Reads rest found operands) :
      Reads ((45 :: (before ++ letter :: argument)) :: rest)
        (before.map (single takes) ++ .withArgument letter argument :: found) operands
  /-- Such letters, and then an option that takes the next word. -/
  | apart {before argument : List UInt8} {letter : UInt8} {rest : List (List UInt8)}
      {found : List Found} {operands : List (List UInt8)}
      (hbefore : ∀ c ∈ before, takes c ≠ some true) (hletter : takes letter = some true)
      (h : Reads rest found operands) :
      Reads ((45 :: (before ++ [letter])) :: argument :: rest)
        (before.map (single takes) ++ .withArgument letter argument :: found) operands
  /-- Such letters, and then an option that has nothing left to take. -/
  | missing {before : List UInt8} {letter : UInt8} (hbefore : ∀ c ∈ before, takes c ≠ some true)
      (hletter : takes letter = some true) :
      Reads [45 :: (before ++ [letter])] (before.map (single takes) ++ [.invalid letter]) []

variable {takes}

section
variable {next : Option (List UInt8)} {before cs : List UInt8}

/-- Letters that take nothing, in front of others. -/
theorem letters_append (h : ∀ c ∈ before, takes c ≠ some true) :
    letters takes next (before ++ cs)
      = (before.map (single takes) ++ (letters takes next cs).1, (letters takes next cs).2) := by
  induction before with
  | nil => rfl
  | cons c before ih =>
    rw [List.forall_mem_cons] at h
    match htakes : takes c with
    | none => simp [letters, ih h.2, single, htakes]
    | some false => simp [letters, ih h.2, single, htakes]
    | some true => exact absurd htakes h.1

theorem letters_plain (h : ∀ c ∈ cs, takes c ≠ some true) :
    letters takes next cs = (cs.map (single takes), false) := by
  have happend : letters takes next (cs ++ []) = _ := letters_append h
  rwa [List.append_nil, letters, List.append_nil] at happend

section
variable {argument : List UInt8} {letter : UInt8}

theorem letters_joined (h : ∀ c ∈ before, takes c ≠ some true) (hletter : takes letter = some true)
    (hargument : argument ≠ []) :
    letters takes next (before ++ letter :: argument)
      = (before.map (single takes) ++ [.withArgument letter argument], false) := by
  simp [letters_append h, letters, hletter, hargument]

theorem letters_apart (h : ∀ c ∈ before, takes c ≠ some true) (hletter : takes letter = some true) :
    letters takes (some argument) (before ++ [letter])
      = (before.map (single takes) ++ [.withArgument letter argument], true) := by
  simp [letters_append h, letters, hletter]

theorem letters_missing (h : ∀ c ∈ before, takes c ≠ some true)
    (hletter : takes letter = some true) :
    letters takes none (before ++ [letter])
      = (before.map (single takes) ++ [.invalid letter], false) := by
  simp [letters_append h, letters, hletter]

end

/-- The first letter that takes an argument, if there is one. -/
theorem letters_cases (takes : Table) (cs : List UInt8) :
    (∀ c ∈ cs, takes c ≠ some true) ∨
    ∃ before letter after, cs = before ++ letter :: after ∧
      (∀ c ∈ before, takes c ≠ some true) ∧ takes letter = some true := by
  cases hfind : cs.find? (takes · = some true) with
  | none => exact Or.inl fun c hc => by simpa using List.find?_eq_none.mp hfind c hc
  | some letter =>
    obtain ⟨hletter, before, after, hcs, hbefore⟩ := List.find?_eq_some_iff_append.mp hfind
    exact Or.inr ⟨before, letter, after, hcs, fun c hc => by simpa using hbefore c hc,
      by simpa using hletter⟩

end

/-! ### Scanning -/

section
variable {word cs : List UInt8} {rest : List (List UInt8)} {found : List Found}

theorem scan_operand (h : lettersOf word = none) :
    scan takes (word :: rest) = ((scan takes rest).1, word :: (scan takes rest).2) := by
  have hne : word ≠ [45, 45] := by
    rintro rfl
    cases h
  simp only [scan, if_neg hne, h]

theorem scan_dashes (rest : List (List UInt8)) : scan takes ([45, 45] :: rest) = ([], rest) := by
  cases rest <;> rfl

/-- A word that is enough for its options. -/
theorem scan_of_letters (hne : word ≠ [45, 45]) (hword : lettersOf word = some cs)
    (h : ∀ next, letters takes next cs = (found, false)) :
    scan takes (word :: rest) = (found ++ (scan takes rest).1, (scan takes rest).2) := by
  cases rest with
  | nil => simp [scan, hne, hword, h]
  | cons next rest => simp [scan, hne, hword, h]

/-- A word whose last option takes the next word along. -/
theorem scan_of_taken {next : List UInt8} (hne : word ≠ [45, 45]) (hword : lettersOf word = some cs)
    (h : letters takes (some next) cs = (found, true)) :
    scan takes (word :: next :: rest) = (found ++ (scan takes rest).1, (scan takes rest).2) := by
  simp [scan, hne, hword, h]

/-- The last word. -/
theorem scan_of_last (hne : word ≠ [45, 45]) (hword : lettersOf word = some cs)
    (h : letters takes none cs = (found, false)) : scan takes [word] = (found, []) := by
  simp [scan, hne, hword, h]

theorem lettersOf_cons (hne : cs ≠ []) : lettersOf (45 :: cs) = some cs := by
  cases cs with
  | nil => exact absurd rfl hne
  | cons c cs => rfl

/-- A word is an operand, or has letters. -/
theorem lettersOf_cases (word : List UInt8) :
    lettersOf word = none ∨ ∃ cs, word = 45 :: cs ∧ cs ≠ [] := by
  unfold lettersOf
  split
  · exact Or.inr ⟨_, rfl, List.cons_ne_nil _ _⟩
  · exact Or.inl rfl

end

section
variable {words : List (List UInt8)} {found : List Found} {operands : List (List UInt8)}

/-- Letters of which one takes an argument make no `--`. -/
theorem cons_ne_dashes (hdash : takes 45 ≠ some true) {before after : List UInt8} {letter : UInt8}
    (hletter : takes letter = some true) : 45 :: (before ++ letter :: after) ≠ [45, 45] := by
  intro heq
  have hmem : letter ∈ ([45] : List UInt8) := by
    rw [← List.tail_eq_of_cons_eq heq]
    exact List.mem_append_right _ List.mem_cons_self
  rw [List.mem_singleton.mp hmem] at hletter
  exact hdash hletter

/-- The scan follows the grammar. The induction is on the reading. -/
theorem Reads.scan_eq (hdash : takes 45 ≠ some true) (h : Reads takes words found operands) :
    scan takes words = (found, operands) := by
  induction h with
  | nil => rfl
  | dashes operands => exact scan_dashes operands
  | operand hword _ ih => rw [scan_operand hword, ih]
  | @plain cs _ _ _ hne hdashes hcs _ ih =>
    have hword : 45 :: cs ≠ [45, 45] := fun heq => hdashes (List.tail_eq_of_cons_eq heq)
    rw [scan_of_letters hword (lettersOf_cons hne) fun next => letters_plain hcs, ih]
  | joined hbefore hletter hargument _ ih =>
    rw [scan_of_letters (cons_ne_dashes hdash hletter) (lettersOf_cons (by simp))
      fun next => letters_joined hbefore hletter hargument, ih, List.append_assoc,
      List.singleton_append]
  | apart hbefore hletter _ ih =>
    rw [scan_of_taken (cons_ne_dashes hdash hletter) (lettersOf_cons (by simp))
      (letters_apart hbefore hletter), ih, List.append_assoc, List.singleton_append]
  | missing hbefore hletter =>
    exact scan_of_last (cons_ne_dashes hdash hletter) (lettersOf_cons (by simp))
      (letters_missing hbefore hletter)

/-- All words have a reading. The induction is on their number, as an option may take the next one
along. -/
theorem reads_scan (takes : Table) :
    ∀ words, Reads takes words (scan takes words).1 (scan takes words).2
  | [] => .nil
  | word :: rest => by
    have ih := reads_scan takes rest
    by_cases hdashes : word = [45, 45]
    · rw [hdashes, scan_dashes]
      exact .dashes rest
    rcases lettersOf_cases word with hword | ⟨cs, rfl, hne⟩
    · rw [scan_operand hword]
      exact .operand hword ih
    have hword := lettersOf_cons hne
    rcases letters_cases takes cs with hcs | ⟨before, letter, after, rfl, hbefore, hletter⟩
    · rw [scan_of_letters hdashes hword fun next => letters_plain hcs]
      exact .plain hne (fun h => hdashes (congrArg _ h)) hcs ih
    by_cases hafter : after = []
    · subst hafter
      match rest with
      | [] =>
        rw [scan_of_last hdashes hword (letters_missing hbefore hletter)]
        exact .missing hbefore hletter
      | argument :: rest =>
        rw [scan_of_taken hdashes hword (letters_apart hbefore hletter), List.append_assoc]
        exact .apart hbefore hletter (reads_scan takes rest)
    · rw [scan_of_letters hdashes hword fun next => letters_joined hbefore hletter hafter,
        List.append_assoc]
      exact .joined hbefore hletter hafter ih
  termination_by words => words.length

/-- **The grammar has one reading of every command line,** which is what is scanned. -/
theorem reads_iff (hdash : takes 45 ≠ some true) :
    Reads takes words found operands ↔ scan takes words = (found, operands) := by
  refine ⟨Reads.scan_eq hdash, fun h => ?_⟩
  have hreads := reads_scan takes words
  rwa [h] at hreads

end

end Getopt
