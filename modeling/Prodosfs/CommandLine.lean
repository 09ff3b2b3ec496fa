import Prodosfs.General.Getopt
import Prodosfs.DiskUtil
import Prodosfs.Mount

/-!
# The command line of prodosfs

`S_HandleOptions` calls `getopt` until there are no more options. Options may come in any order and
between the two operands; the last `-l` counts. A letter that is no option ends the program, as do
`-h`, a `-l` behind which there is nothing and a level that is not from `0` to `9`, and of these the
first one does.

The level is read by `atoi`, which takes what does not begin with a number for a zero.

## Main definitions

* `Settings`, `handleOption`, `handleOptions`

## Main results

* `handleOptions_words` — what the program takes from a command line, whatever words it has
-/

namespace Prodosfs

/-- How the program ends, and what it says before. -/
structure Exit where
  status : ℤ
  stdout : Str
  stderr : Str
  deriving DecidableEq, Repr

/-- `LOG_CRITICAL`, `LOG_INFO` and `LOG_MAX` -/
def logCritical : ℤ := 0
def logInfo : ℤ := 3
def logMax : ℤ := 9

/-- The variables that the options are for. -/
structure Settings where
  debug : Bool := false
  extensionMode : ExtensionMode := .off
  foreground : Bool := false
  logLevel : ℤ := logInfo
  useName : Bool := false
  deriving DecidableEq

/-- The last argument of `getopt`. -/
def optstring : Str := ascii "defhl:n"

/-- The options in it. A letter with a colon behind it takes an argument. -/
def optionTable : Getopt.Table := fun c =>
  if c = 58 ∨ c = 59 then none
  else
    match optstring.dropWhile (· ≠ c) with
    | [] => none
    | _ :: next => some (next.head? = some 58)

/-- `isspace` -/
def isspace (c : UInt8) : Bool := c = 32 ∨ 9 ≤ c ∧ c ≤ 13

/-- The number that the digits at the beginning make. -/
def leadingNumber (s : Str) : ℕ :=
  (s.takeWhile isdigit).foldl (fun n c => 10 * n + (c.toNat - 48)) 0

/-- `strtol`, to the base of ten. A number that does not fit is the next one that does. -/
def strtol (s : Str) : ℤ :=
  match s.dropWhile isspace with
  | 45 :: rest => max (-(leadingNumber rest)) (-2 ^ 63)
  | 43 :: rest => min (leadingNumber rest) (2 ^ 63 - 1)
  | rest => min (leadingNumber rest) (2 ^ 63 - 1)

/-- `atoi`, as in the GNU library. -/
def atoi (s : Str) : ℤ := (strtol s).bmod (2 ^ 32)

/-- A letter that is no option. -/
def invalidOption (c : UInt8) : Exit where
  status := exitFailure
  stdout := []
  stderr := ascii "prodosfs: invalid option -- " ++ [c] ++ ascii "\n"

/-- The `switch` of `S_HandleOptions`, over the letters `d`, `e`, `f`, `h` and `n`, and `l`. -/
def handleOption (s : Settings) : Getopt.Found → Except Exit Settings
  | .plain c =>
    if c = 100 then .ok { s with debug := true }
    else if c = 101 then .ok { s with extensionMode := .on }
    else if c = 102 then .ok { s with foreground := true }
    else if c = 104 then
      .error ⟨exitSuccess,
        ascii "usage: prodosfs [-l N] [-d] [-e] [-f] [-n] <mount dir> <image file>\n", []⟩
    else if c = 110 then .ok { s with useName := true }
    else .error (invalidOption c)
  | .withArgument c optarg =>
    if c = 108 then
      if atoi optarg < logCritical ∨ logMax < atoi optarg then
        .error ⟨exitFailure, [],
          ascii "prodosfs: log level must be 0-9 -- " ++ optarg ++ ascii "\n"⟩
      else .ok { s with logLevel := atoi optarg }
    else .error (invalidOption c)
  | .invalid c => .error (invalidOption c)

/-- `S_HandleOptions`, with the operands that it leaves for `main`. -/
def handleOptions (argv : List Str) : Except Exit (Settings × List Str) := do
  let (found, operands) := Getopt.scan optionTable (argv.drop 1)
  let settings ← found.foldlM handleOption {}
  pure (settings, operands)

/-! ### What the options mean -/

/-- The level that an option sets. -/
def level : Getopt.Found → Option ℤ
  | .withArgument _ optarg => some (atoi optarg)
  | _ => none

/-- The settings after some options, if none of them ends the program. -/
def Settings.after (s : Settings) (found : List Getopt.Found) : Settings where
  debug := s.debug ∨ .plain 100 ∈ found
  extensionMode := if .plain 101 ∈ found then .on else s.extensionMode
  foreground := s.foreground ∨ .plain 102 ∈ found
  logLevel := (found.filterMap level).getLast?.getD s.logLevel
  useName := s.useName ∨ .plain 110 ∈ found

/-- How the program is ended by an option that ends it. -/
def stop (f : Getopt.Found) : Option Exit :=
  match handleOption {} f with
  | .error exit => some exit
  | .ok _ => none

theorem after_nil (s : Settings) : s.after [] = s := by
  simp [Settings.after]

/-- The settings do not decide whether an option ends the program. -/
theorem handleOption_eq (s : Settings) (f : Getopt.Found) :
    handleOption s f = (stop f).elim (.ok (s.after [f])) .error := by
  cases f with
  | plain c =>
    simp only [handleOption, stop]
    split_ifs with hd he hf hh hn
    · simp [Settings.after, level, hd]
    · simp [Settings.after, level, he]
    · simp [Settings.after, level, hf]
    · rfl
    · simp [Settings.after, level, hn]
    · rfl
  | withArgument c optarg =>
    simp only [handleOption, stop]
    split_ifs with hl hlevel
    · rfl
    · simp [Settings.after, level]
    · rfl
  | invalid c => rfl

theorem after_append (s : Settings) (found more : List Getopt.Found) :
    (s.after found).after more = s.after (found ++ more) := by
  simp only [Settings.after, List.mem_append, List.filterMap_append, List.getLast?_append,
    Settings.mk.injEq, decide_eq_true_eq, or_assoc, true_and]
  refine ⟨?_, ?_⟩
  · split_ifs <;> simp_all
  · cases (more.filterMap level).getLast? <;> exact ⟨rfl, trivial⟩

/-- The induction is on the options; one that ends the program is the first to do so. -/
theorem foldlM_handleOption (found : List Getopt.Found) : ∀ s : Settings,
    found.foldlM handleOption s
      = (found.findSome? stop).elim (.ok (s.after found)) .error := by
  induction found with
  | nil => exact fun s => congrArg _ (after_nil s).symm
  | cons f found ih =>
    intro s
    rw [List.foldlM_cons, handleOption_eq, List.findSome?_cons]
    cases stop f with
    | some exit => rfl
    | none =>
      have happend := after_append s [f] found
      rw [List.singleton_append] at happend
      rw [← happend]
      exact ih _

/-- **Options in any order,** and operands between them. Every command line has one reading, and in
it a letter that is no option and a level that is missing have their place. The first option that
ends the program does so; if there is none, every option counts, and the last level does. -/
theorem handleOptions_words (argv : List Str) : ∃ found operands,
    (∀ found' operands', Getopt.Reads optionTable (argv.drop 1) found' operands' ↔
      found' = found ∧ operands' = operands) ∧
    handleOptions argv = (found.findSome? stop).elim
      (.ok (Settings.after {} found, operands)) .error := by
  refine ⟨(Getopt.scan optionTable (argv.drop 1)).1, (Getopt.scan optionTable (argv.drop 1)).2,
    fun found' operands' => ?_, ?_⟩
  · rw [Getopt.reads_iff (by decide), Prod.ext_iff, eq_comm, @eq_comm _ _ operands']
  · rw [handleOptions]
    simp only [foldlM_handleOption]
    cases (Getopt.scan optionTable (argv.drop 1)).1.findSome? stop <;> rfl

example : handleOptions [ascii "prodosfs", ascii "-dx"] = .error (invalidOption 120) := by decide

end Prodosfs
