import Prodosfs.Probes

/-!
# Names, and renaming a volume

The character functions of the C library in its default locale, which is the one the programs run
in: they know the 26 letters and ten digits of ASCII and nothing else. On top of them, the name
check `IsValidName`, and `Rename`, the one operation that changes an opened volume.

`Rename` copies fifteen bytes from the buffer of a string that may be shorter. What follows the
terminating NUL there is not defined by anything, so it is an argument, `residue`.

## Main results

* `Volume.rename_of_not_valid`, `rename_of_valid` — the two outcomes
-/

namespace Prodosfs

/-! ### The C library -/

def isupper (c : UInt8) : Bool := 65 ≤ c && c ≤ 90

def islower (c : UInt8) : Bool := 97 ≤ c && c ≤ 122

def isdigit (c : UInt8) : Bool := 48 ≤ c && c ≤ 57

def isalpha (c : UInt8) : Bool := isupper c || islower c

def isalnum (c : UInt8) : Bool := isalpha c || isdigit c

def toupper (c : UInt8) : UInt8 := if islower c then c - 32 else c

def tolower (c : UInt8) : UInt8 := if isupper c then c + 32 else c

/-- What can be decided for every character. -/
theorem forall_byte {P : UInt8 → Prop} (h : ∀ i : Fin 256, P (UInt8.ofFin i)) (c : UInt8) : P c :=
  h c.toFin

/-- The characters that are looked for in a path are not letters. -/
theorem tolower_eq_iff {d : UInt8} (hd : d = 0 ∨ d = 47 ∨ d = 58) (c : UInt8) :
    tolower c = d ↔ c = d := by
  rcases hd with rfl | rfl | rfl
  · exact forall_byte (P := fun c => tolower c = 0 ↔ c = 0) (by decide +kernel) c
  · exact forall_byte (P := fun c => tolower c = 47 ↔ c = 47) (by decide +kernel) c
  · exact forall_byte (P := fun c => tolower c = 58 ↔ c = 58) (by decide +kernel) c

/-- `c_str`, seen by a function that takes a NUL-terminated string. -/
def cStr (s : Str) : Str := s.takeWhile (· ≠ 0)

/-- `strcasecmp(a, b) == 0`. -/
def strcaseeq (a b : Str) : Bool := (cStr a).map tolower == (cStr b).map tolower

/-! ### Valid names -/

/-- `IsValidName` -/
def isValidName (name : Str) : Bool :=
  if name.length < 1 ∨ 15 < name.length then false
  else if isalpha (name.getD 0 0) = false then false
  else (name.drop 1).all fun c => isalnum c || c == 46

theorem isValidName_iff {name : Str} : isValidName name ↔ 1 ≤ name.length ∧ name.length ≤ 15 ∧
    isalpha (name.getD 0 0) ∧ ∀ c ∈ name.drop 1, isalnum c || c == 46 := by
  rw [isValidName]
  split
  · refine iff_of_false (by simp) fun h => ?_
    omega
  · split
    · refine iff_of_false (by simp) fun h => ?_
      rename_i halpha
      exact Bool.false_ne_true (halpha.symm.trans h.2.2.1)
    · rw [List.all_eq_true]
      constructor
      · intro hall
        exact ⟨by omega, by omega, Bool.eq_true_of_not_eq_false ‹_›, hall⟩
      · intro h
        exact h.2.2.2

/-! ### Renaming -/

/-- The name field of the header after `memset` and `memcpy`: the name, its NUL, and whatever
followed that. -/
def nameField (s : Str) (residue : Block) : Block := fun i =>
  if i < s.length then s.getD i 0 else if i = s.length then 0 else residue i

/-- The header edited in place: first the name, then the low four bits of the byte that holds the
storage type and the length. -/
def Volume.edited (v : Volume) (residue : Block) (s : Str) : Volume :=
  let named := memcpy v.disk.mem (root + 5) (nameField s residue) 15
  ⟨{ v.disk with mem :=
      Function.update named (root + 4) (named (root + 4) &&& 0xF0 ||| UInt8.ofNat s.length) }⟩

/-- `Rename`. Block 2 has been edited when it is written onto itself, which marks the disk as
dirty. -/
def Volume.rename (residue : Block) (name : Str) : Call Exn Volume Bool := do
  if isValidName name = false then pure false
  else
    modify fun v => v.edited residue (name.map toupper)
    let v ← get
    let d ← v.disk.writeBlock 2 (v.disk.at root)
    set (Volume.mk d)
    pure true

namespace Volume

theorem rename_of_not_valid {name : Str} (h : isValidName name = false) (residue : Block)
    (v : Volume) : rename residue name v = (.ret false, v) := by
  rw [rename, Call.ite_apply, if_pos h]
  rfl

/-- Writing a block onto itself. -/
theorem memcpy_at (d : Disk) (a n : ℕ) : memcpy d.mem a (d.at a) n = d.mem := by
  funext k
  by_cases hk : a ≤ k ∧ k < a + n
  · rw [memcpy_of_mem hk.1 hk.2, Disk.at, Nat.add_sub_cancel' hk.1]
  · rw [memcpy, if_neg hk]

/-- A volume that has been marked as dirty. -/
def touched (v : Volume) : Volume := ⟨{ v.disk with dirty := true }⟩

theorem written_at_root (d : Disk) : d.written 2 (d.at root) = { d with dirty := true } := by
  rw [Disk.written, show 512 * 2 = root from rfl, memcpy_at]

theorem rename_of_valid {name : Str} (h : isValidName name) (residue : Block) {v : Volume}
    (hblocks : 2 < v.disk.numBlocks) :
    rename residue name v = (.ret true, (v.edited residue (name.map toupper)).touched) := by
  have hnot : ¬ isValidName name = false := by simp [h]
  have hwrite : ∀ w : Volume, 2 < w.disk.numBlocks →
      w.disk.writeBlock 2 (w.disk.at root) w = (.ret { w.disk with dirty := true }, w) := by
    intro w hw
    rw [← written_at_root]
    exact Disk.writeBlock_of_lt hw _ _
  rw [rename, Call.ite_apply, if_neg hnot, Call.modify_bind_apply, Call.get_bind_apply,
    Call.bind_of_ret (hwrite _ (by exact hblocks)), Call.set_bind_apply]
  rfl

end Volume

end Prodosfs
