import Prodosfs.General.Call
import Prodosfs.General.Units
import Prodosfs.Image
import Mathlib.Logic.Function.Basic

/-!
# The disk image in memory

`disk_t`: an image file mapped into memory, addressed by blocks of 512 bytes or, for images in
the older layout, by tracks of 16 sectors of 256 bytes.

## Memory

`mem` is the memory from `_base` on, and only its first `size` bytes belong to the image. The
source reads through bare pointers, so a read past the end is not an error here either: it yields
whatever the process holds there. What keeps such reads visible is the `overrun` flag of
`Opening`, which has no counterpart in the source and which nothing reads.

`_num_blocks` is an `unsigned`, hence the remainder in `numBlocks`.

## Main definitions

* `Disk.readBlock`, `writeBlock`, `readTrackSector` — the checked accesses
* `Disk.readRwtsBlock`, `convert` — reordering a track-and-sector image into blocks
* `Disk.save` — writing the image back, through a temporary file

## Main results

* `convert_apply` — the conversion loop in closed form: byte `a` of the new image is byte
  `rwtsSource a` of the old one
* `rwtsSource_involutive` — the sector reordering is its own inverse
* `save_of_ret_true` — what a successful save leaves at the path
* `save_all_or_nothing` — a save never leaves a part of the image there
-/

namespace Prodosfs

/-- The exceptions the program throws, with their texts. -/
inductive Exn where
  | runtimeError (what : String)
  | logicError (what : String)
  | outOfRange (what : String)
  deriving DecidableEq, Repr

/-- `what` -/
def Exn.what : Exn → String
  | .runtimeError what => what
  | .logicError what => what
  | .outOfRange what => what

/-- `std::string`: a sequence of bytes. -/
abbrev Str := List UInt8

/-- The bytes of a string literal. -/
def ascii (s : String) : Str := s.toList.map fun c => UInt8.ofNat c.toNat

/-- `disk_t`. -/
structure Disk where
  /-- `_size`, in bytes. -/
  size : ℕ
  /-- The memory from `_base` on. -/
  mem : Block
  /-- `_converted` -/
  converted : Bool
  /-- `_dirty` -/
  dirty : Bool

/-- A disk while its volume is being opened. -/
structure Opening where
  disk : Disk
  /-- Some byte past the end of the image has been read. -/
  overrun : Bool

/-- Reading `n` bytes of the image from offset `a` on. -/
def touch (a n : ℕ) : Call Exn Opening Unit :=
  modify fun o => { o with overrun := o.overrun || decide (o.disk.size < a + n) }

namespace Disk

variable {σ : Type}

/-- `NumBlocks`. The quotient is cut to 32 bits. -/
def numBlocks (d : Disk) : ℕ := d.size / 512 % 2 ^ 32

/-- The in-memory image. -/
def image (d : Disk) : Image := Image.ofFn d.size d.mem

/-- The whole blocks of the image lie inside it. -/
theorem mul_numBlocks_le (d : Disk) : 512 * d.numBlocks ≤ d.size :=
  (Nat.mul_le_mul_left 512 (Nat.mod_le _ _)).trans (Nat.mul_div_le _ _)

/-- `ReadBlock`: the address of a block. -/
def readBlock (d : Disk) (index : ℤ) : Call Exn σ ℕ :=
  if index < 0 ∨ (d.numBlocks : ℤ) ≤ index then Call.throw (.runtimeError "invalid block number")
  else pure (512 * index.toNat)

/-- The disk with block `n` written. -/
def written (d : Disk) (n : ℕ) (block : Block) : Disk :=
  { d with mem := memcpy d.mem (512 * n) block 512, dirty := true }

/-- `WriteBlock`. -/
def writeBlock (d : Disk) (index : ℤ) (block : Block) : Call Exn σ Disk :=
  if index < 0 ∨ (d.numBlocks : ℤ) ≤ index then Call.throw (.runtimeError "invalid block number")
  else pure (d.written index.toNat block)

/-- `ReadTrackSector`: the address of a sector. The bounds are those of a floppy disk of 35 tracks,
not those of the image. -/
def readTrackSector (track sector : ℤ) : Call Exn σ ℕ :=
  if track < 0 ∨ 35 ≤ track then Call.throw (.runtimeError "invalid track number")
  else if sector < 0 ∨ 16 ≤ sector then Call.throw (.runtimeError "invalid sector number")
  else pure (256 * (track * 16 + sector).toNat)

/-- The sectors of a track that hold the first halves of its blocks. -/
def map1 : List ℕ := [0, 13, 11, 9, 7, 5, 3, 1]

/-- The sectors of a track that hold the second halves of its blocks. -/
def map2 : List ℕ := [14, 12, 10, 8, 6, 4, 2, 15]

/-- The address of the sector that holds the first half of a block. -/
def src1 (index : ℕ) : ℕ := 256 * (16 * (index / 8) + map1.getD (index % 8) 0)

/-- The address of the sector that holds the second half of a block. -/
def src2 (index : ℕ) : ℕ := 256 * (16 * (index / 8) + map2.getD (index % 8) 0)

/-- `_ReadRwtsBlock`: assemble a block at offset `block` of the buffer `base`. -/
def readRwtsBlock (index : ℕ) (base : Block) (block : ℕ) : Call Exn Opening Block := do
  let o ← get
  touch (src1 index) 256
  touch (src2 index) 256
  let half := memcpy base block (fun k => o.disk.mem (src1 index + k)) 256
  pure (memcpy half (block + 256) (fun k => o.disk.mem (src2 index + k)) 256)

/-- The loop of `Convert` over the `n` blocks from block `i` on. -/
def convertLoop : ℕ → ℕ → Block → Call Exn Opening Block
  | 0, _, base => pure base
  | n + 1, i, base => do
    let base ← readRwtsBlock i base (512 * i)
    convertLoop n (i + 1) base

/-- `Convert`, in the one direction there is. The buffer starts with what the heap held. The loop
counter is an `int`, and counting past the largest one is undefined. -/
def convert (heap : Block) : Call Exn Opening Unit := do
  let o ← get
  if 2 ^ 31 ≤ o.disk.numBlocks then Call.fault
  else
    let base ← convertLoop o.disk.numBlocks 0 heap
    modify fun o => { o with disk := { o.disk with mem := base, converted := true } }

/-- What the system calls of a save do. -/
structure SaveCalls where
  /-- `open` of the temporary file succeeds. -/
  opens : Bool
  /-- What `write` reports: the number of bytes stored, or nothing for `-1`. -/
  written : Option ℕ
  /-- `rename` succeeds. -/
  renames : Bool
  /-- What `strerror` says about a failure. -/
  strerror : String

/-- The files of the host, by path. -/
abbrev Files := Str → Option Image

/-- `-1` as a `size_t`. -/
def sizeMinusOne : ℕ := 2 ^ 64 - 1

/-- `Save`: write the image to a temporary file, then move that over the target. The result of
`write` is kept in an unsigned variable. -/
def save (d : Disk) (calls : SaveCalls) (pathname : Str) : Call Exn Files Bool := do
  let tempname := pathname ++ ascii ".tmp"
  if !calls.opens then pure false
  else
    modify fun fs => Function.update fs tempname (some (Image.ofFn 0 d.mem))
    let n := calls.written.getD sizeMinusOne
    modify fun fs => Function.update fs tempname
      (some (Image.ofFn (calls.written.getD 0) d.mem))
    if n ≠ d.size then Call.throw (.runtimeError calls.strerror)
    else if !calls.renames then Call.throw (.runtimeError calls.strerror)
    else
      modify fun fs =>
        Function.update (Function.update fs pathname (fs tempname)) tempname none
      pure true

/-! ### The checked accesses -/

theorem readBlock_of_lt {d : Disk} {n : ℕ} (h : n < d.numBlocks) (s : σ) :
    d.readBlock n s = (.ret (512 * n), s) := by
  rw [readBlock, if_neg (by omega)]
  rfl

theorem readBlock_of_ge {d : Disk} {n : ℕ} (h : d.numBlocks ≤ n) (s : σ) :
    d.readBlock n s = (.throw (.runtimeError "invalid block number"), s) := by
  rw [readBlock, if_pos (by omega)]
  rfl

theorem writeBlock_of_lt {d : Disk} {n : ℕ} (h : n < d.numBlocks) (block : Block) (s : σ) :
    d.writeBlock n block s = (.ret (d.written n block), s) := by
  rw [writeBlock, if_neg (by omega)]
  rfl

/-! ### The sector reordering -/

/-- The sector of a track that ends up as half block `h` of the track. -/
def rwtsSector (h : ℕ) : ℕ := if h % 2 = 0 then map1.getD (h / 2) 0 else map2.getD (h / 2) 0

/-- Where in a track-and-sector image the byte at offset `a` of the block image comes from. -/
def rwtsSource : ℕ → ℕ := onUnits 256 (inGroups 16 rwtsSector)

theorem rwtsSector_lt : ∀ h < 16, rwtsSector h < 16 := by decide

/-- Half blocks and sectors are exchanged in pairs. -/
theorem rwtsSector_rwtsSector : ∀ h < 16, rwtsSector (rwtsSector h) = h := by decide

theorem rwtsSource_involutive : Function.Involutive rwtsSource :=
  onUnits_involutive (by norm_num)
    (inGroups_involutive (by norm_num) rwtsSector_lt rwtsSector_rwtsSector)

/-- Whole tracks are rearranged within themselves. -/
theorem rwtsSource_lt {t a : ℕ} (h : a < 4096 * t) : rwtsSource a < 4096 * t := by
  rw [show 4096 * t = 256 * (16 * t) by ring] at h ⊢
  exact onUnits_lt (by norm_num) (fun i hi => inGroups_lt (by norm_num) rwtsSector_lt hi) h

/-- A half block of block `i`, by the number of the half. -/
theorem inGroups_rwtsSector (i : ℕ) {j : ℕ} (hj : j < 2) :
    inGroups 16 rwtsSector (2 * i + j)
      = 16 * (i / 8) + if j = 0 then map1.getD (i % 8) 0 else map2.getD (i % 8) 0 := by
  have hsplit : 2 * i + j = 16 * (i / 8) + (2 * (i % 8) + j) := by omega
  have hdiv : (2 * (i % 8) + j) / 2 = i % 8 := by omega
  have hmod : (2 * (i % 8) + j) % 2 = j := by omega
  rw [hsplit, inGroups_add (by norm_num) _ (by omega), rwtsSector, hdiv, hmod]

theorem rwtsSource_first (i : ℕ) {k : ℕ} (hk : k < 256) :
    rwtsSource (512 * i + k) = src1 i + k := by
  have hunit : 512 * i + k = 256 * (2 * i + 0) + k := by ring
  rw [rwtsSource, hunit, onUnits_add (by norm_num) _ hk, inGroups_rwtsSector i (by norm_num),
    if_pos rfl, src1]

theorem rwtsSource_second (i : ℕ) {k : ℕ} (hk : k < 256) :
    rwtsSource (512 * i + 256 + k) = src2 i + k := by
  have hunit : 512 * i + 256 + k = 256 * (2 * i + 1) + k := by ring
  rw [rwtsSource, hunit, onUnits_add (by norm_num) _ hk, inGroups_rwtsSector i (by norm_num),
    if_neg one_ne_zero, src2]

/-! ### Conversion in closed form -/

/-- Every sector that holds a half of one of the first `n` blocks lies inside the image. -/
def SectorsInside (size n : ℕ) : Prop := ∀ i < n, src1 i + 256 ≤ size ∧ src2 i + 256 ≤ size

instance (size n : ℕ) : Decidable (SectorsInside size n) := by
  unfold SectorsInside
  infer_instance

theorem readRwtsBlock_apply (index : ℕ) (base : Block) (block : ℕ) (o : Opening) :
    readRwtsBlock index base block o
      = (.ret (memcpy (memcpy base block (fun k => o.disk.mem (src1 index + k)) 256) (block + 256)
            (fun k => o.disk.mem (src2 index + k)) 256),
          { o with overrun := o.overrun || decide (o.disk.size < src1 index + 256)
              || decide (o.disk.size < src2 index + 256) }) := by
  simp [readRwtsBlock, touch]

/-- Assembling a block writes the reordered bytes into the block and nothing else. -/
theorem memcpy_halves (mem base : Block) (i a : ℕ) :
    memcpy (memcpy base (512 * i) (fun k => mem (src1 i + k)) 256) (512 * i + 256)
        (fun k => mem (src2 i + k)) 256 a
      = if 512 * i ≤ a ∧ a < 512 * i + 512 then mem (rwtsSource a) else base a := by
  rcases Nat.lt_or_ge a (512 * i) with h | h
  · have h₁ : a < 512 * i + 256 := by omega
    rw [memcpy_of_lt h₁, memcpy_of_lt h, if_neg (by omega)]
  rcases Nat.lt_or_ge a (512 * i + 256) with h₁ | h₁
  · obtain ⟨k, rfl⟩ := Nat.exists_eq_add_of_le h
    rw [memcpy_of_lt h₁, memcpy_of_mem h h₁, if_pos (by omega), Nat.add_sub_cancel_left,
      rwtsSource_first i (by omega)]
  rcases Nat.lt_or_ge a (512 * i + 256 + 256) with h₂ | h₂
  · obtain ⟨k, rfl⟩ := Nat.exists_eq_add_of_le h₁
    rw [memcpy_of_mem h₁ h₂, if_pos (by omega), Nat.add_sub_cancel_left,
      rwtsSource_second i (by omega)]
  · rw [memcpy_of_ge h₂, memcpy_of_ge h₁, if_neg (by omega)]

/-- The loop fills the blocks from `i` on. The induction is on the number of blocks left. -/
theorem convertLoop_apply (n : ℕ) : ∀ (i : ℕ) (base : Block) (o : Opening),
    convertLoop n i base o
      = (.ret (fun a => if 512 * i ≤ a ∧ a < 512 * (i + n) then o.disk.mem (rwtsSource a)
            else base a),
          { o with overrun := o.overrun || decide (∃ j < n, o.disk.size < src1 (i + j) + 256
              ∨ o.disk.size < src2 (i + j) + 256) }) := by
  induction n with
  | zero =>
    intro i base o
    simp only [convertLoop, Call.pure_apply, Nat.add_zero]
    congr 1
    · refine congrArg _ (funext fun a => ?_)
      rw [if_neg (by omega)]
    · simp
  | succ n ih =>
    intro i base o
    rw [convertLoop, Call.bind_of_ret (readRwtsBlock_apply i base (512 * i) o), ih]
    refine Prod.ext (congrArg Outcome.ret (funext fun a => ?_)) ?_
    · rw [memcpy_halves]
      by_cases hrest : 512 * (i + 1) ≤ a ∧ a < 512 * (i + 1 + n)
      · rw [if_pos hrest, if_pos (by omega)]
      · rw [if_neg hrest]
        by_cases hhere : 512 * i ≤ a ∧ a < 512 * i + 512
        · rw [if_pos hhere, if_pos (by omega)]
        · rw [if_neg hhere, if_neg (by omega)]
    · simp only [Bool.or_assoc]
      congr 2
      rw [← Bool.decide_or, ← Bool.decide_or, decide_eq_decide, ← or_assoc]
      constructor
      · rintro (h | ⟨j, hj, h⟩)
        · exact ⟨0, Nat.succ_pos n, h⟩
        · exact ⟨j + 1, Nat.succ_lt_succ hj, by rwa [Nat.add_right_comm] at h⟩
      · rintro ⟨_ | j, hj, h⟩
        · exact Or.inl h
        · exact Or.inr ⟨j, Nat.lt_of_succ_lt_succ hj, by rwa [Nat.add_right_comm]⟩

/-- The memory after a conversion: the reordered image, then what the heap held. -/
def convertedMem (d : Disk) (heap : Block) : Block := fun a =>
  if a < 512 * d.numBlocks then d.mem (rwtsSource a) else heap a

/-- **Conversion.** Byte `a` of the new image is byte `rwtsSource a` of the old one. The dirty flag
is not touched. -/
theorem convert_apply {o : Opening} (h : o.disk.numBlocks < 2 ^ 31) (heap : Block) :
    convert heap o
      = (.ret (),
          { disk := { o.disk with mem := o.disk.convertedMem heap, converted := true }
            overrun := o.overrun
              || decide (¬ SectorsInside o.disk.size o.disk.numBlocks) }) := by
  rw [convert, Call.get_bind_apply, Call.ite_apply, if_neg (Nat.not_le.mpr h),
    Call.bind_of_ret (convertLoop_apply _ _ _ _), Call.modify_apply]
  refine Prod.ext rfl ?_
  simp only [Nat.mul_zero, Nat.zero_le, true_and, Nat.zero_add]
  congr 3
  rw [SectorsInside]
  push Not
  refine propext (exists_congr fun i => and_congr_right fun _ => ?_)
  omega

theorem convert_of_ge {o : Opening} (h : 2 ^ 31 ≤ o.disk.numBlocks) (heap : Block) :
    convert heap o = (.fault, o) := by
  rw [convert, Call.get_bind_apply, Call.ite_apply, if_pos h]
  rfl

/-! ### Saving -/

/-- A path and its temporary companion are different files. -/
theorem ne_append_tmp (pathname : Str) : pathname ≠ pathname ++ ascii ".tmp" := by
  intro h
  have hlen := congrArg List.length h
  rw [List.length_append, show (ascii ".tmp").length = 4 from rfl] at hlen
  omega

/-- A successful save leaves the in-memory image at the path. The hypothesis keeps `write` from
reporting `-1` where the whole image was expected; a whole number of blocks is enough. -/
theorem save_of_ret_true {d : Disk} {calls : SaveCalls} {pathname : Str} {fs fs' : Files}
    (hsize : d.size ≠ sizeMinusOne) (h : d.save calls pathname fs = (.ret true, fs')) :
    fs' pathname = some d.image := by
  rw [save] at h
  by_cases hopen : calls.opens
  · by_cases hwrite : calls.written.getD sizeMinusOne = d.size
    · by_cases hrename : calls.renames
      · have hn : calls.written.getD 0 = d.size := by
          cases hw : calls.written with
          | none => rw [hw, Option.getD_none] at hwrite; exact absurd hwrite.symm hsize
          | some n => rw [hw] at hwrite; exact hwrite
        have hne := ne_append_tmp pathname
        simp [hopen, hwrite, hrename, hn] at h
        rw [← h, Function.update_of_ne hne, Function.update_self]
        rfl
      · simp [hopen, hwrite, hrename] at h
    · simp [hopen, hwrite] at h
  · simp [hopen] at h

section
variable {d : Disk} {calls : SaveCalls} {pathname : Str} {fs : Files}

/-- Without a temporary file there is nothing to do. -/
theorem save_of_not_opens (hopens : calls.opens = false) :
    d.save calls pathname fs = (.ret false, fs) := by
  rw [save, hopens]
  rfl

/-- A save that cannot finish the temporary file. -/
theorem save_of_ne_written (hopens : calls.opens)
    (hwritten : calls.written.getD sizeMinusOne ≠ d.size) :
    d.save calls pathname fs = (.throw (.runtimeError calls.strerror),
      Function.update fs (pathname ++ ascii ".tmp")
        (some (Image.ofFn (calls.written.getD 0) d.mem))) := by
  simp [save, hopens, hwritten]

/-- A save that cannot move the temporary file over the target. -/
theorem save_of_not_renames (hopens : calls.opens)
    (hwritten : calls.written.getD sizeMinusOne = d.size) (hrenames : calls.renames = false) :
    d.save calls pathname fs = (.throw (.runtimeError calls.strerror),
      Function.update fs (pathname ++ ascii ".tmp")
        (some (Image.ofFn (calls.written.getD 0) d.mem))) := by
  simp [save, hopens, hwritten, hrenames]

/-- Whatever fails before the last step leaves the target alone. -/
theorem save_ends (d : Disk) (calls : SaveCalls) (pathname : Str) (fs : Files) :
    (∃ fs', d.save calls pathname fs = (.ret true, fs')) ∨
      ∃ o fs', d.save calls pathname fs = (o, fs') ∧ fs' pathname = fs pathname ∧
        (o = .ret false ∨ o = .throw (.runtimeError calls.strerror)) := by
  have hkept : ∀ image, Function.update fs (pathname ++ ascii ".tmp") image pathname
      = fs pathname :=
    fun image => Function.update_of_ne (ne_append_tmp pathname) _ _
  cases hopens : calls.opens with
  | false => exact Or.inr ⟨_, _, save_of_not_opens hopens, rfl, Or.inl rfl⟩
  | true =>
    by_cases hwritten : calls.written.getD sizeMinusOne = d.size
    · cases hrenames : calls.renames with
      | false => exact Or.inr ⟨_, _, save_of_not_renames hopens hwritten hrenames, hkept _,
          Or.inr rfl⟩
      | true => exact Or.inl ⟨_, by simp [save, hopens, hwritten, hrenames]; rfl⟩
    · exact Or.inr ⟨_, _, save_of_ne_written hopens hwritten, hkept _, Or.inr rfl⟩

end

/-- **A save is all or nothing.** It comes to an end, and what is then at the path is what was there
before or the whole image in memory. The hypothesis is what the constructor checks. -/
theorem save_all_or_nothing {d : Disk} (hsize : 512 ∣ d.size) (calls : SaveCalls) (pathname : Str)
    (fs : Files) : ∃ o fs', d.save calls pathname fs = (o, fs') ∧
      (o = .ret true ∨ o = .ret false ∨ o = .throw (.runtimeError calls.strerror)) ∧
      (fs' pathname = fs pathname ∨ fs' pathname = some d.image) ∧
      (o = .ret true → fs' pathname = some d.image) := by
  have hne : d.size ≠ sizeMinusOne := by
    rintro heq
    rw [heq] at hsize
    revert hsize
    decide
  rcases save_ends d calls pathname fs with ⟨fs', hsave⟩ | ⟨o, fs', hsave, hkept, ho⟩
  · have himage := save_of_ret_true hne hsave
    exact ⟨_, fs', hsave, Or.inl rfl, Or.inr himage, fun _ => himage⟩
  · refine ⟨o, fs', hsave, Or.inr ho, Or.inl hkept, ?_⟩
    rintro rfl
    rcases ho with ho | ho <;> cases ho

/-- A short write: the target keeps what it had. -/
theorem save_all_or_nothing_short : ∃ o fs',
    (Disk.mk 512 (fun _ => 1) false false).save ⟨true, some 100, true, "No space left on device"⟩
        (ascii "d") (fun _ => some (Image.ofFn 3 fun _ => 7)) = (o, fs') ∧
      (o = .ret true ∨ o = .ret false ∨
        o = .throw (.runtimeError "No space left on device")) ∧
      (fs' (ascii "d") = some (Image.ofFn 3 fun _ => 7) ∨
        fs' (ascii "d") = some (Disk.mk 512 (fun _ => 1) false false).image) ∧
      (o = .ret true → fs' (ascii "d") = some (Disk.mk 512 (fun _ => 1) false false).image) :=
  save_all_or_nothing (d := ⟨512, fun _ => 1, false, false⟩) (by decide)
    ⟨true, some 100, true, "No space left on device"⟩ (ascii "d") _

/-- A save succeeds when the system calls do. -/
theorem save_of_calls {d : Disk} {calls : SaveCalls} (hopens : calls.opens)
    (hwritten : calls.written = some d.size) (hrenames : calls.renames) (pathname : Str)
    (fs : Files) : ∃ fs', d.save calls pathname fs = (.ret true, fs') := by
  simp [save, hopens, hwritten, hrenames]

end Disk

end Prodosfs
