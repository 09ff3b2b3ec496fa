import Prodosfs.General.Alike
import Prodosfs.Reading
import Prodosfs.Slots
import Prodosfs.Lookup

/-!
# What does not look at the name of the volume

Two volumes that differ in nothing but their names have the same directories and files, as long as
nothing else is kept where the name is. The program never checks that: a file may have block 2 for a
block of data, and a directory may have entries there.

## Where the name is

```
block 2   1024  pointers to the previous and the next block
          1028  storage type and length of the name
          1029  the name, fifteen bytes
          1044  the rest of the header of the root directory
          1067  the first entry
```

A rename changes the bytes from 1028 to 1043, and of the first one only the lower half. The root
directory is read from the same block all the time: its link, its number of entries and their
length are all behind the name, or before it, and the upper half of byte 1028 is the type that makes
it a directory. So it is not enough to say that block 2 is not looked at. What is said instead is
what each reader looks at in it.

## Files

A file has blocks, and those that it has must not be block 2, at any level. `Volume.Clear` follows
the pointers of index blocks down, all of them, also those behind the end of the file, which is more
than the calls can come to and is easier to keep. The pointers that a handle has cached are then
clear as well (`FileHandle.Apart`).

## Directories

What a directory looks like depends on its slots, and which slots are looked at depends on those
before them. `Volume.Handles` has all the handles that a lookup goes through, on any path. That none
of their slots has a part of the name (`Volume.HandlesApart`) is one way to get the same
directories. What the proofs use is weaker: every slot that is looked at is the same in both volumes
(`Volume.SameSlots`). The difference is of use where the volumes have the same name, and only the
bytes behind the end of the image are not the same.

A slot outside the image is excluded either way. Its bytes are those of other memory, about which
nothing is known.

## What is deliberately absent

There is nothing about the catalogue here, in which the name is printed, nor about the bitmap. Both
are in `Aliases`. Nor is it said that a lookup ends: two lookups that do not end are the same.

## Main definitions

* `Volume.Renamed` — two volumes that differ in nothing but their names
* `Volume.Clear` — a block, and the ones it has pointers to, that are not block 2
* `Volume.HandlesApart` — the name is no part of an entry that `GetEntry` comes across
* `Volume.SameSlots` — what `GetEntry` looks at is the same
* `Volume.SameFiles` — lookups and files are the same

## Main results

* `Volume.Renamed.sameSlots` — slots that have no part of the name are the same
* `Volume.Renamed.getEntry_alike` — lookups are the same
* `Volume.Renamed.create_alike`, `readFile_alike` — so is what is read from a file
* `Volume.Renamed.sameFiles` — all of it
-/

namespace Prodosfs

/-- The second volume is the first one under another name. Both have the same bytes in the image of
the first, except in the name and the half byte of its length. -/
structure Volume.Renamed (v w : Volume) : Prop where
  numBlocks : w.disk.numBlocks = v.disk.numBlocks
  mem : ∀ a < v.disk.size, ¬ (1028 ≤ a ∧ a < 1044) → w.disk.mem a = v.disk.mem a
  storageType : w.disk.mem 1028 >>> 4 = v.disk.mem 1028 >>> 4

/-- Neither the block `n` nor, down to a level, any block that it has pointers to is block 2. -/
def Volume.Clear (v : Volume) : ℕ → ℕ → Prop
  | 0, n => n ≠ 2
  | level + 1, n => n ≠ 2 ∧ (v.InRange n → ∀ i < 256, v.Clear level (v.pointerAt n i))

/-- The levels of index blocks of a file. -/
def Volume.levels (v : Volume) (e : EntryPtr) : ℕ :=
  if Entry.storageType (v.entry e) = storageTypeSeedlingFile then 0
  else if Entry.storageType (v.entry e) = storageTypeSaplingFile then 1
  else 2

/-- A cached pointer of a file handle, at a level. -/
def Volume.Cached (v : Volume) (level : ℕ) (b : Option BlockPtr) : Prop :=
  ∀ p, b = some p → ∃ n, p = Volume.blockPtr n ∧ v.InRange n ∧ v.Clear level n

/-- A handle of a file whose pointers lead to none of the name. -/
structure FileHandle.Apart (v : Volume) (e : EntryPtr) (h : FileHandle) : Prop where
  entry : h.entry = some e
  master : v.Cached 2 h.master
  index : v.Cached 1 h.index
  data : v.Cached 0 h.data

/-- A slot that can be looked at without looking at the name: its first byte is in the image, and if
it is active, all of its bytes are, and none of them belongs to the name. -/
structure Volume.SlotApart (v : Volume) (e : EntryPtr) : Prop where
  first : ∀ a, e.block = .image a → a + 4 + 39 * e.slot < v.disk.size
  whole : v.active e → ∀ a, e.block = .image a → a + 4 + 39 * e.slot + 39 ≤ v.disk.size ∧
    (a + 4 + 39 * e.slot + 39 ≤ 1028 ∨ 1044 ≤ a + 4 + 39 * e.slot)

/-- The handles that `GetEntry` works with. -/
inductive Volume.Handles (v : Volume) : DirectoryHandle → Prop
  | root : v.Handles (.opened (.image Volume.root))
  | next {h h' : DirectoryHandle} {fuel : ℕ} {err err' : Err} {r : Option EntryPtr}
      (head : v.Handles h)
      (hnext : DirectoryHandle.nextEntry v fuel (h, err) = (.ret r, (h', err'))) : v.Handles h'
  | child {h : DirectoryHandle} {fuel : ℕ} {err : Err} {e : EntryPtr} {s : DirectoryHandle × Err}
      (head : v.Handles h)
      (hnext : DirectoryHandle.nextEntry v fuel (h, err) = (.ret (some e), s))
      (hdir : Entry.isDirectory (v.entry e))
      (hin : Entry.keyPointer (v.entry e) < v.disk.numBlocks) (hkey : v.IsKeyBlock (v.keyBlock e)) :
      v.Handles (.opened (v.keyBlock e))

/-- No slot that `NextEntry` looks at for `GetEntry` has a part of the name in it. -/
def Volume.HandlesApart (v : Volume) : Prop :=
  ∀ h, v.Handles h → ∀ e, NextExamines v h e → v.SlotApart e

/-- A slot is the same in two volumes, as far as it is looked at: it is active in both or in
neither, and has the same bytes if it is. -/
structure Volume.SameSlot (v w : Volume) (e : EntryPtr) : Prop where
  active : w.active e = v.active e
  entry : v.active e → ∀ k < 39, w.entry e k = v.entry e k

/-- Every slot that `NextEntry` looks at for `GetEntry` is. -/
def Volume.SameSlots (v w : Volume) : Prop :=
  ∀ h, v.Handles h → ∀ e, NextExamines v h e → v.SameSlot w e

/-- An entry that `GetEntry` comes across. -/
def Volume.Found (v : Volume) (e : EntryPtr) : Prop :=
  ∃ h fuel err s, v.Handles h ∧ DirectoryHandle.nextEntry v fuel (h, err) = (.ret (some e), s)

/-- A handle of blocks of the image. -/
structure DirectoryHandle.InPlace (v : Volume) (h : DirectoryHandle) : Prop where
  header : ∃ n < v.disk.numBlocks, h.header = some (.image (512 * n))
  block : ∃ n < v.disk.numBlocks, h.block = some (.image (512 * n))

/-- An entry is no file with a block where the name is. -/
def Volume.FileApart (v : Volume) (e : EntryPtr) : Prop :=
  Entry.isFile (v.entry e) → v.Clear (v.levels e) (Entry.keyPointer (v.entry e))

/-- Every lookup is the same in both volumes, and so is everything that is read from a file without
a block where the name is. -/
structure Volume.SameFiles (v w : Volume) : Prop where
  lookup : ∀ fuel path err, getEntry w fuel path err = getEntry v fuel path err
  opens : ∀ fuel path err e err', getEntry v fuel path err = (.ret (some e), err') →
    v.FileApart e → openFile w fuel path err = openFile v fuel path err
  read : ∀ fuel path err e err' h err₀ ops s, getEntry v fuel path err = (.ret (some e), err') →
    v.FileApart e → openFile v fuel path err = (.ret (some h), err₀) →
    Call.Returns (FileOp.exec v) (h, err₀) ops s →
    Call.Returns (FileOp.exec w) (h, err₀) ops s ∧
      (∀ offset whence, FileHandle.seek w offset whence s = FileHandle.seek v offset whence s) ∧
      (∀ size, FileHandle.read w size s = FileHandle.read v size s) ∧
      ∀ bufsiz off, readFile w bufsiz off s = readFile v bufsiz off s

section
variable {v w : Volume} {e : EntryPtr} {σ : Type}

theorem Volume.Clear.ne_two {level n : ℕ} (h : v.Clear level n) : n ≠ 2 := by
  cases level with
  | zero => exact h
  | succ level => exact h.1

theorem Volume.Clear.pointerAt {level n i : ℕ} (h : v.Clear (level + 1) n) (hn : v.InRange n)
    (hi : i < 256) : v.Clear level (v.pointerAt n i) := h.2 hn i hi

theorem Volume.Cached.none (level : ℕ) : v.Cached level none := fun _ h => by cases h

theorem Volume.Cached.some {level n : ℕ} (hn : v.InRange n) (hclear : v.Clear level n) :
    v.Cached level (some (Volume.blockPtr n)) := by
  rintro p ⟨rfl⟩
  exact ⟨n, rfl, hn, hclear⟩

namespace Volume.Renamed

/-! ### Blocks -/

theorem getBlock_eq (h : v.Renamed w) (i : ℤ) :
    (w.getBlock i : Call Exn σ BlockPtr) = v.getBlock i := by
  rw [Volume.getBlock, Volume.getBlock, Volume.readBlock, Volume.readBlock, Disk.readBlock,
    Disk.readBlock, h.numBlocks]

theorem readBlock_eq (h : v.Renamed w) (i : ℤ) :
    (w.readBlock i : Call Exn σ BlockPtr) = v.readBlock i := by
  rw [Volume.readBlock, Volume.readBlock, Disk.readBlock, Disk.readBlock, h.numBlocks]

/-- The bytes of every block but block 2. -/
theorem blockByte_eq (h : v.Renamed w) {n k : ℕ} (hn : v.InRange n) (h2 : n ≠ 2) (hk : k < 512) :
    w.blockByte n k = v.blockByte n k := by
  rw [Volume.blockByte, Volume.blockByte]
  split
  · rfl
  · have hlt := hn.resolve_left ‹_›
    have hle := v.disk.mul_numBlocks_le
    exact h.mem _ (by omega) (by omega)

theorem pointerAt_eq (h : v.Renamed w) {n i : ℕ} (hn : v.InRange n) (h2 : n ≠ 2) (hi : i < 256) :
    w.pointerAt n i = v.pointerAt n i := by
  rw [Volume.pointerAt, Volume.pointerAt, h.blockByte_eq hn h2 (by omega),
    h.blockByte_eq hn h2 (by omega)]

theorem getBlock_alike (h : v.Renamed w) {I : σ → Prop} (n : ℕ) :
    Call.Alike I (v.getBlock n : Call Exn σ BlockPtr) (w.getBlock n) fun p s =>
      I s ∧ p = Volume.blockPtr n ∧ v.InRange n := by
  refine fun s hs => ⟨by rw [h.getBlock_eq], fun p t hret => ?_⟩
  obtain ⟨hn, hp, rfl⟩ := Volume.getBlock_eq_ret_iff.mp hret
  exact ⟨hs, hp, hn⟩

theorem indexAt_alike (h : v.Renamed w) {I : σ → Prop} {n : ℕ} (hn : v.InRange n) (h2 : n ≠ 2)
    (i : ℤ) : Call.Alike I (v.indexAt (Volume.blockPtr n) i : Call Exn σ ℕ)
      (w.indexAt (Volume.blockPtr n) i) fun p s => I s ∧ ∃ j < 256, p = v.pointerAt n j := by
  by_cases hi : i < 0 ∨ 255 < i
  · rw [Volume.indexAt, Volume.indexAt, if_pos hi, if_pos hi]
    exact .throw _
  · obtain ⟨j, rfl⟩ := Int.eq_ofNat_of_zero_le (show 0 ≤ i by omega)
    have hj : j < 256 := by omega
    refine fun s hs => ⟨?_, fun p t hret => ?_⟩
    · rw [indexAt_of_lt hj, indexAt_of_lt hj, pointerIn_blockPtr, pointerIn_blockPtr,
        h.pointerAt_eq hn h2 hj]
    · obtain ⟨-, rfl, rfl⟩ := indexAt_eq_ret_iff.mp hret
      exact ⟨hs, j, hj, pointerIn_blockPtr v n j⟩

/-! ### Files -/

section
variable (hren : v.Renamed w) (he : ∀ k < 39, w.entry e k = v.entry e k)
include hren he

omit hren in
theorem storageType_eq : Entry.storageType (w.entry e) = Entry.storageType (v.entry e) := by
  rw [Entry.storageType, Entry.storageType, he 0 (by decide)]

omit hren in
theorem keyPointer_eq : Entry.keyPointer (w.entry e) = Entry.keyPointer (v.entry e) :=
  leRead16_congr (he 17 (by decide)) (he 18 (by decide))

omit hren in
theorem eof_eq : Entry.eof (w.entry e) = Entry.eof (v.entry e) := by
  rw [Entry.eof, Entry.eof, leRead24, leRead24, he 21 (by decide), he 22 (by decide),
    he 23 (by decide)]

omit hren in
theorem fileType_eq : Entry.fileType (w.entry e) = Entry.fileType (v.entry e) :=
  he 16 (by decide)

omit hren in
theorem nameMatches_eq (name : Str) :
    Entry.nameMatches (w.entry e) name = Entry.nameMatches (v.entry e) name := by
  have hlength : Entry.nameLength (w.entry e) = Entry.nameLength (v.entry e) := by
    rw [Entry.nameLength, Entry.nameLength, he 0 (by decide)]
  have hle : (Entry.nameLength (v.entry e)).toNat ≤ 15 := by
    have hlen := length_fileName_le (v.entry e)
    rwa [Entry.fileName, bytesAt, List.length_map, List.length_range] at hlen
  have hname : Entry.fileName (w.entry e) = Entry.fileName (v.entry e) := by
    rw [Entry.fileName, Entry.fileName, hlength]
    refine List.map_congr_left fun i hi => he (1 + i) ?_
    have hlt := List.mem_range.mp hi
    omega
  rw [Entry.nameMatches, Entry.nameMatches, hname]

/-- **A file is opened the same way.** -/
theorem create_alike (hclear : v.Clear (v.levels e) (Entry.keyPointer (v.entry e))) :
    Call.Alike (fun _ => True) (FileHandle.create v e) (FileHandle.create w e)
      fun h _ => h.Apart v e := by
  rw [FileHandle.create, FileHandle.create, storageType_eq he, keyPointer_eq he]
  refine .ite (fun h1 => ?_) fun h1 => .ite (fun h2 => ?_) fun h2 => .ite (fun h3 => ?_) fun _ =>
    .throw _
  · rw [Volume.levels, if_pos h1] at hclear
    refine (hren.getBlock_alike _).bind fun data => .assume ?_
    rintro ⟨rfl, hkey⟩
    exact .pure fun _ _ => ⟨rfl, .none 2, .none 1, .some hkey hclear⟩
  · rw [Volume.levels, if_neg h1, if_pos h2] at hclear
    refine (hren.getBlock_alike _).bind fun index => .assume ?_
    rintro ⟨rfl, hkey⟩
    refine (hren.indexAt_alike hkey hclear.ne_two 0).bind fun pointer => .assume ?_
    rintro ⟨i, hi, rfl⟩
    refine (hren.getBlock_alike _).bind fun data => .assume ?_
    rintro ⟨rfl, hdata⟩
    exact .pure fun _ _ =>
      ⟨rfl, .none 2, .some hkey hclear, .some hdata (hclear.pointerAt hkey hi)⟩
  · rw [Volume.levels, if_neg h1, if_neg h2] at hclear
    refine (hren.getBlock_alike _).bind fun master => .assume ?_
    rintro ⟨rfl, hkey⟩
    refine (hren.indexAt_alike hkey hclear.ne_two 0).bind fun pointer => .assume ?_
    rintro ⟨i, hi, rfl⟩
    have hindex := hclear.pointerAt hkey hi
    refine (hren.getBlock_alike _).bind fun index => .assume ?_
    rintro ⟨rfl, hin⟩
    refine (hren.indexAt_alike hin hindex.ne_two 0).bind fun pointer => .assume ?_
    rintro ⟨j, hj, rfl⟩
    refine (hren.getBlock_alike _).bind fun data => .assume ?_
    rintro ⟨rfl, hdata⟩
    exact .pure fun _ _ =>
      ⟨rfl, .some hkey hclear, .some hin hindex, .some hdata (hindex.pointerAt hin hj)⟩

omit he in
theorem seekMaster_alike (offset : ℕ) :
    Call.Alike (fun s : FileHandle × Err => s.1.Apart v e) (FileHandle.seekMaster v offset)
      (FileHandle.seekMaster w offset) fun _ s => s.1.Apart v e := by
  refine .get_bind ?_
  rintro ⟨h, err⟩ hs
  cases hmaster : h.master with
  | none =>
    simp only [hmaster]
    refine .pure ?_
    rintro s rfl
    exact hs
  | some b =>
    obtain ⟨n, rfl, hn, hclear⟩ := hs.master b hmaster
    simp only [hmaster]
    refine (hren.indexAt_alike hn hclear.ne_two _).bind fun pointer => .assume ?_
    rintro ⟨i, hi, rfl⟩
    refine (hren.getBlock_alike _).bind fun index => .assume ?_
    rintro ⟨rfl, hindex⟩
    refine Call.Alike.bind (J := fun _ s => s.1.Apart v e) (.modify ?_) fun _ => .pure fun _ => id
    rintro s rfl
    exact ⟨hs.entry, hs.master, .some hindex (hclear.pointerAt hn hi), hs.data⟩

omit he in
theorem seekIndex_alike (offset : ℕ) :
    Call.Alike (fun s : FileHandle × Err => s.1.Apart v e) (FileHandle.seekIndex v offset)
      (FileHandle.seekIndex w offset) fun _ s => s.1.Apart v e := by
  refine .get_bind ?_
  rintro ⟨h, err⟩ hs
  cases hindex : h.index with
  | none =>
    simp only [hindex]
    refine .pure ?_
    rintro s rfl
    exact hs
  | some b =>
    obtain ⟨n, rfl, hn, hclear⟩ := hs.index b hindex
    simp only [hindex]
    refine (hren.indexAt_alike hn hclear.ne_two _).bind fun pointer => .assume ?_
    rintro ⟨i, hi, rfl⟩
    refine (hren.getBlock_alike _).bind fun data => .assume ?_
    rintro ⟨rfl, hdata⟩
    refine .modify ?_
    rintro s rfl
    exact ⟨hs.entry, hs.master, hs.index, .some hdata (hclear.pointerAt hn hi)⟩

theorem seek_alike (offset whence : ℤ) :
    Call.Alike (fun s : FileHandle × Err => s.1.Apart v e) (FileHandle.seek v offset whence)
      (FileHandle.seek w offset whence) fun _ s => s.1.Apart v e := by
  refine .ite (fun _ => .throw _) fun _ => .get_bind ?_
  rintro ⟨h, err⟩ hs
  have hentry : h.entry = some e := hs.entry
  simp only [hentry, eof_eq he]
  refine .ite (fun _ => ?_) fun _ => ?_
  · refine Call.Alike.bind (J := fun _ s => s.1.Apart v e) (.modify ?_) fun _ => .pure fun _ => id
    rintro s rfl
    exact hs
  · refine Call.Alike.bind (J := fun _ s => s.1.Apart v e) (.modify ?_) fun _ => ?_
    · rintro s rfl
      exact ⟨hs.entry, hs.master, hs.index, hs.data⟩
    · refine (hren.seekMaster_alike _).bind fun offset => ?_
      refine (hren.seekIndex_alike offset).bind fun _ => .get_bind ?_
      rintro s hs
      refine .pure ?_
      rintro t rfl
      exact hs

/-- The loop copies bytes of a block that is not block 2. The induction is on its rounds. -/
theorem readLoop_alike (rounds : ℕ) : ∀ size : ℕ,
    Call.Alike (fun s : FileHandle × Err => s.1.Apart v e) (FileHandle.readLoop v rounds size)
      (FileHandle.readLoop w rounds size) fun _ s => s.1.Apart v e := by
  induction rounds with
  | zero =>
    rintro (_ | size)
    · exact .pure fun _ => id
    · exact .timeout
  | succ rounds ih =>
    rintro (_ | size)
    · exact .pure fun _ => id
    refine .get_bind ?_
    rintro ⟨h, err⟩ hs
    cases hdata : h.data with
    | none =>
      simp only [hdata]
      exact .fault
    | some b =>
      obtain ⟨n, rfl, hn, h2⟩ := hs.data b hdata
      have hbytes : ∀ toCopy : ℕ, toCopy ≤ 512 - h.position % 512 →
          bytesAt (w.deref (Volume.blockPtr n)) (h.position % 512) toCopy
            = bytesAt (v.deref (Volume.blockPtr n)) (h.position % 512) toCopy := by
        intro toCopy hle
        refine List.map_congr_left fun i hi => ?_
        have hlt := List.mem_range.mp hi
        rw [deref_blockPtr, deref_blockPtr, hren.blockByte_eq hn h2 (by omega)]
      simp only [hdata]
      refine ((hren.seek_alike he _ _).mono ?_ fun _ _ => id).bind fun _ => ?_
      · rintro s rfl
        exact hs
      refine (ih _).bind fun rest => ?_
      rw [hbytes _ (min_le_right _ _)]
      exact .pure fun _ => id

theorem read_alike (size : ℕ) :
    Call.Alike (fun s : FileHandle × Err => s.1.Apart v e) (FileHandle.read v size)
      (FileHandle.read w size) fun _ s => s.1.Apart v e := hren.readLoop_alike he size size

omit hren in
theorem eof_alike : Call.Alike (fun s : FileHandle × Err => s.1.Apart v e) (FileHandle.eof v)
    (FileHandle.eof w) fun _ s => s.1.Apart v e := by
  refine .get_bind ?_
  rintro ⟨h, err⟩ hs
  have hentry : h.entry = some e := hs.entry
  simp only [hentry, eof_eq he]
  refine .pure ?_
  rintro s rfl
  exact hs

omit hren in
theorem type_alike : Call.Alike (fun s : FileHandle × Err => s.1.Apart v e) (FileHandle.type v)
    (FileHandle.type w) fun _ s => s.1.Apart v e := by
  refine .get_bind ?_
  rintro ⟨h, err⟩ hs
  have hentry : h.entry = some e := hs.entry
  simp only [hentry, fileType_eq he]
  refine .pure ?_
  rintro s rfl
  exact hs

/-- **What a request reads from a file is the same.** -/
theorem readFile_alike (bufsiz : ℕ) (off : ℤ) :
    Call.Alike (fun s : FileHandle × Err => s.1.Apart v e) (readFile v bufsiz off)
      (readFile w bufsiz off) fun _ s => s.1.Apart v e := by
  have herror : ∀ buf : Str, Call.Alike (ε := Exn) (fun s : FileHandle × Err => s.1.Apart v e)
      (do let s ← get; pure (-toError s.2, buf)) (do let s ← get; pure (-toError s.2, buf))
      fun _ s => s.1.Apart v e := by
    intro buf
    refine .get_bind fun s hs => .pure ?_
    rintro t rfl
    exact hs
  refine (hren.seek_alike he off seekSet).bind fun pos => .ite (fun _ => herror []) fun _ => ?_
  refine (hren.read_alike he bufsiz).bind fun buf => ?_
  refine .ite (fun _ => (eof_alike he).bind fun eof => ?_) fun _ =>
    (Call.Alike.pure (J := fun _ (s : FileHandle × Err) => s.1.Apart v e) fun _ => id).bind
      fun eof => ?_
  all_goals
    refine .ite (fun _ => herror buf) fun _ => (type_alike he).bind fun type => ?_
    exact .ite (fun _ => .ite (fun _ => .fault) fun _ => .pure fun _ => id) fun _ =>
      .pure fun _ => id

theorem exec_alike (op : FileOp) :
    Call.Alike (fun s : FileHandle × Err => s.1.Apart v e) (FileOp.exec v op) (FileOp.exec w op)
      fun _ s => s.1.Apart v e := by
  cases op with
  | seek offset => exact (hren.seek_alike he offset seekSet).bind fun _ => .pure fun _ => id
  | read size => exact (hren.read_alike he size).bind fun _ => .pure fun _ => id
  | request bufsiz off => exact (hren.readFile_alike he bufsiz off).bind fun _ => .pure fun _ => id

end

/-! ### Directories -/

/-- The bytes of a block of the image, outside the name. -/
theorem deref_eq (h : v.Renamed w) {n k : ℕ} (hn : n < v.disk.numBlocks) (hk : k < 512)
    (h2 : ¬ (n = 2 ∧ 4 ≤ k ∧ k < 20)) :
    w.deref (.image (512 * n)) k = v.deref (.image (512 * n)) k := by
  have hle := v.disk.mul_numBlocks_le
  exact h.mem (512 * n + k) (by omega) (by omega)

theorem nextPointer_eq (h : v.Renamed w) {n : ℕ} (hn : n < v.disk.numBlocks) :
    w.nextPointer (.image (512 * n)) = v.nextPointer (.image (512 * n)) :=
  leRead16_congr (h.deref_eq hn (by decide) (by omega)) (h.deref_eq hn (by decide) (by omega))

/-- The fields of a header behind its name. -/
theorem headerOf_eq (h : v.Renamed w) {n k : ℕ} (hn : n < v.disk.numBlocks) (hk : 16 ≤ k)
    (hk' : k < 39) : w.headerOf (.image (512 * n)) k = v.headerOf (.image (512 * n)) k :=
  h.deref_eq (k := 4 + 39 * 0 + k) hn (by omega) (by omega)

theorem fileCount_eq (h : v.Renamed w) {n : ℕ} (hn : n < v.disk.numBlocks) :
    Prodosfs.fileCount (w.headerOf (.image (512 * n)))
      = Prodosfs.fileCount (v.headerOf (.image (512 * n))) :=
  leRead16_congr (h.headerOf_eq (k := 33) hn (by decide) (by decide))
    (h.headerOf_eq (k := 34) hn (by decide) (by decide))

/-- A storage type is a half byte that is not part of the name. -/
theorem shift_eq (h : v.Renamed w) {n i : ℕ} (hsize : 512 * n + 4 + 39 * i < v.disk.size) :
    Entry.storageType (w.entry ⟨.image (512 * n), i⟩)
      = Entry.storageType (v.entry ⟨.image (512 * n), i⟩) := by
  show w.disk.mem (512 * n + (4 + 39 * i + 0)) >>> 4 = v.disk.mem (512 * n + (4 + 39 * i + 0)) >>> 4
  by_cases h4 : 512 * n + (4 + 39 * i + 0) = 1028
  · rw [h4]
    exact h.storageType
  · have hapart : ¬ (1028 ≤ 512 * n + (4 + 39 * i + 0) ∧ 512 * n + (4 + 39 * i + 0) < 1044) := by
      have hblocks : n = 0 ∨ n = 1 ∨ n = 2 ∨ 3 ≤ n := by omega
      rcases hblocks with rfl | rfl | rfl | hn
      all_goals omega
    rw [h.mem _ (by omega) hapart]

/-- A slot without the name in it. -/
theorem sameSlot (h : v.Renamed w) {n i : ℕ} (hslot : v.SlotApart ⟨.image (512 * n), i⟩) :
    v.SameSlot w ⟨.image (512 * n), i⟩ where
  active := by
    rw [Volume.active, Volume.active, Entry.isInactive, Entry.isInactive,
      h.shift_eq (hslot.first _ rfl)]
  entry hactive k hk := by
    obtain ⟨hsize, hname⟩ := hslot.whole hactive _ rfl
    have hsize' : 512 * n + 4 + 39 * i + 39 ≤ v.disk.size := hsize
    have hname' : 512 * n + 4 + 39 * i + 39 ≤ 1028 ∨ 1044 ≤ 512 * n + 4 + 39 * i := hname
    exact h.mem (512 * n + (4 + 39 * i + k)) (by omega) (by omega)

theorem isKeyBlock_iff (h : v.Renamed w) {n : ℕ} (hn : n < v.disk.numBlocks) :
    w.IsKeyBlock (.image (512 * n)) ↔ v.IsKeyBlock (.image (512 * n)) := by
  have hle := v.disk.mul_numBlocks_le
  have htype : Entry.storageType (w.headerOf (.image (512 * n)))
      = Entry.storageType (v.headerOf (.image (512 * n))) := h.shift_eq (by omega)
  rw [Volume.IsKeyBlock, Volume.IsKeyBlock, htype]

/-- `_Next` does the same. -/
theorem next_eq (hren : v.Renamed w) {h : DirectoryHandle} (hplace : h.InPlace v) (err : Err) :
    DirectoryHandle.next w (h, err) = DirectoryHandle.next v (h, err) := by
  obtain ⟨k, hk, hheader⟩ := hplace.header
  obtain ⟨n, hn, hblock⟩ := hplace.block
  have hentries : Prodosfs.entriesPerBlock (w.headerOf (.image (512 * k)))
      = Prodosfs.entriesPerBlock (v.headerOf (.image (512 * k))) :=
    hren.headerOf_eq (k := 32) hk (by decide) (by decide)
  rw [DirectoryHandle.next, DirectoryHandle.next, Call.get_bind_apply, Call.get_bind_apply]
  simp only [hheader, hblock, hentries, hren.nextPointer_eq hn, hren.getBlock_eq]

end Volume.Renamed

/-! ### Handles stay in place -/

theorem DirectoryHandle.Moves.inPlace {h h' : DirectoryHandle} (hmoves : h.Moves v h')
    (hplace : h.InPlace v) : h'.InPlace v := by
  cases hmoves.cases with
  | slot header block lt =>
    obtain ⟨n, hn, hblock⟩ := hplace.block
    exact ⟨hplace.header, n, hn, block.symm.trans hblock⟩
  | block header block ge pointer inRange => exact ⟨hplace.header, _, inRange, rfl⟩

/-- The blocks of the slots that are looked at. -/
theorem DirectoryHandle.InPlace.examines {h : DirectoryHandle} (hplace : h.InPlace v)
    (hexamines : Examines v h e) : ∃ n < v.disk.numBlocks, e.block = .image (512 * n) := by
  induction hexamines with
  | here block =>
    obtain ⟨n, hn, hblock⟩ := hplace.block
    rw [block] at hblock
    exact ⟨n, hn, Option.some.inj hblock⟩
  | later _ _ moves _ ih => exact ih (moves.inPlace hplace)

theorem DirectoryHandle.InPlace.nextEntry {h : DirectoryHandle} (hplace : h.InPlace v) (fuel : ℕ)
    (err : Err) : (DirectoryHandle.nextEntry v fuel (h, err)).2.1.InPlace v :=
  nextEntry_invariant (K := fun h => h.InPlace v) (L := fun h => h.InPlace v)
    (fun _ _ hK _ _ => hK) (fun _ _ _ hL _ _ hmoves => hmoves.inPlace hL) (fun _ hL => hL)
    (fun _ _ hL _ _ => ⟨hL.header, hL.block⟩)
    (fun h _ _ hL _ _ hmoves => hmoves.inPlace (h := h.counted) ⟨hL.header, hL.block⟩) fuel _ hplace

/-- A returned entry is an active one in a block of the image. -/
theorem active_of_nextEntry {h : DirectoryHandle} (hplace : h.InPlace v) {fuel : ℕ} {err : Err}
    {s : DirectoryHandle × Err}
    (hnext : DirectoryHandle.nextEntry v fuel (h, err) = (.ret (some e), s)) :
    v.active e ∧ ∃ n < v.disk.numBlocks, e.block = .image (512 * n) := by
  obtain ⟨k, hk, hheader⟩ := hplace.header
  by_cases hcount : h.entryIndex = fileCount (v.headerOf (.image (512 * k)))
  · rw [nextEntry_end hheader hcount] at hnext
    cases hnext
  · rw [nextEntry_of_ne hheader hcount] at hnext
    simp only [Call.bind_eq_ret_iff] at hnext
    obtain ⟨e', _, hskip, _, _, -, _, _, -, hret⟩ := hnext
    cases hret
    obtain ⟨o, h', hskip', hplace', hend⟩ := skipInactive_invariant (v := v)
      (L := fun h => h.InPlace v) (fun _ _ _ hL _ _ hmoves => hmoves.inPlace hL) err fuel hplace
    rw [hskip] at hskip'
    cases hskip'
    obtain ⟨hblock, -, hactive, -⟩ := hend e rfl
    obtain ⟨n, hn, hblock'⟩ := hplace'.block
    rw [hblock] at hblock'
    exact ⟨hactive, n, hn, Option.some.inj hblock'⟩

theorem inPlace_opened {n : ℕ} (hn : n < v.disk.numBlocks) :
    (DirectoryHandle.opened (.image (512 * n))).InPlace v := ⟨⟨n, hn, rfl⟩, n, hn, rfl⟩

theorem Volume.Handles.inPlace (hblocks : 2 < v.disk.numBlocks) {h : DirectoryHandle}
    (hhandle : v.Handles h) : h.InPlace v := by
  induction hhandle with
  | root => exact inPlace_opened (n := 2) hblocks
  | @next h h' fuel err err' r _ hnext ih =>
    have hplace := ih.nextEntry fuel err
    rwa [hnext] at hplace
  | child _ _ _ hin _ _ => exact inPlace_opened hin

namespace Volume.Renamed

/-! ### Looking for entries -/

/-- **No slot that a lookup looks at has the name in it,** so that all of them are the same. -/
theorem sameSlots (hren : v.Renamed w) (hblocks : 2 < v.disk.numBlocks)
    (hapart : v.HandlesApart) : v.SameSlots w := by
  rintro h hhandle ⟨b, i⟩ hnext
  obtain ⟨_, -, -, hexamines⟩ := id hnext
  obtain ⟨n, -, hblock⟩ := (hhandle.inPlace hblocks).examines hexamines
  obtain rfl : b = .image (512 * n) := hblock
  exact hren.sameSlot (hapart h hhandle _ hnext)

/-- Stepping over inactive slots. The induction is on the bound. -/
theorem skipInactive_eq (hren : v.Renamed w) (err : Err) (fuel : ℕ) : ∀ {h : DirectoryHandle},
    h.InPlace v → (∀ e, Examines v h e → v.SameSlot w e) →
    DirectoryHandle.skipInactive w fuel (h, err)
      = DirectoryHandle.skipInactive v fuel (h, err) := by
  induction fuel with
  | zero => exact fun _ _ => rfl
  | succ fuel ih =>
    intro h hplace hslots
    obtain ⟨n, hn, hblock⟩ := hplace.block
    rw [skipInactive_succ hblock, skipInactive_succ hblock,
      (hslots _ (.here hblock)).active]
    cases hactive : v.active ⟨.image (512 * n), h.blockIndex⟩ with
    | true => rfl
    | false =>
      rw [if_neg Bool.false_ne_true, if_neg Bool.false_ne_true, Call.bind_apply, Call.bind_apply,
        hren.next_eq hplace]
      obtain ⟨h', -, hmoves⟩ | ⟨o, ho, hnext⟩ := next_cases v h err
      · rw [hmoves err]
        exact ih (hmoves.inPlace hplace) fun e he => hslots e (.later hblock hactive hmoves he)
      · rw [hnext]
        cases o with
        | ret => exact absurd rfl ho
        | throw e => rfl
        | fault => rfl
        | timeout => rfl

/-- **`NextEntry` returns the same entry.** -/
theorem nextEntry_eq (hren : v.Renamed w) {h : DirectoryHandle} (hplace : h.InPlace v)
    (hslots : ∀ e, NextExamines v h e → v.SameSlot w e) (fuel : ℕ) (err : Err) :
    DirectoryHandle.nextEntry w fuel (h, err) = DirectoryHandle.nextEntry v fuel (h, err) := by
  obtain ⟨k, hk, hheader⟩ := hplace.header
  have hfiles := hren.fileCount_eq hk
  by_cases hcount : h.entryIndex = Prodosfs.fileCount (v.headerOf (.image (512 * k)))
  · rw [nextEntry_end hheader hcount, nextEntry_end hheader (hcount.trans hfiles.symm)]
  · have hskip : Call.Alike (fun s => s = (h, err)) (DirectoryHandle.skipInactive v fuel)
        (DirectoryHandle.skipInactive w fuel) fun _ s => s.1.InPlace v := by
      rintro s rfl
      refine ⟨hren.skipInactive_eq err fuel hplace fun e he => hslots e ⟨_, hheader, hcount, he⟩,
        fun e t hret => ?_⟩
      obtain ⟨o, h', hskip, hplace', -⟩ := skipInactive_invariant (v := v)
        (L := fun h => h.InPlace v) (fun _ _ _ hL _ _ hmoves => hmoves.inPlace hL) err fuel hplace
      rw [hskip] at hret
      cases hret
      exact hplace'
    have hnext : Call.Alike (fun s : DirectoryHandle × Err => s.1.InPlace v)
        (DirectoryHandle.next v) (DirectoryHandle.next w) fun _ _ => True :=
      fun s hs => ⟨hren.next_eq hs s.2, fun _ _ _ => trivial⟩
    have hcounted : ∀ s : DirectoryHandle × Err, s.1.InPlace v → s.1.counted.InPlace v :=
      fun s hs => ⟨hs.header, hs.block⟩
    rw [nextEntry_of_ne hheader hcount, nextEntry_of_ne hheader (by rwa [hfiles])]
    exact ((hskip.bind fun e => Call.Alike.bind (.modify hcounted) fun _ => hnext.bind fun _ =>
      Call.Alike.pure (J := fun _ _ => True) fun _ _ => trivial) _ rfl).1

/-- **Lookups look for the next entry in the same way.** -/
theorem nextEntry_alike (hren : v.Renamed w) (hblocks : 2 < v.disk.numBlocks)
    (hslots : v.SameSlots w) (fuel : ℕ) :
    Call.Alike (fun s : DirectoryHandle × Err => v.Handles s.1) (DirectoryHandle.nextEntry v fuel)
      (DirectoryHandle.nextEntry w fuel)
      fun r s => v.Handles s.1 ∧ ∀ e, r = some e → v.Found e := by
  rintro ⟨h, err⟩ hhandle
  refine ⟨hren.nextEntry_eq (hhandle.inPlace hblocks) (hslots h hhandle) fuel err, ?_⟩
  rintro r ⟨h', err'⟩ hret
  refine ⟨.next hhandle hret, ?_⟩
  rintro e rfl
  exact ⟨h, fuel, err, _, hhandle, hret⟩

/-- The bytes of an entry that a lookup comes across. -/
theorem entry_eq_of_found (hblocks : 2 < v.disk.numBlocks)
    (hslots : v.SameSlots w) (hfound : v.Found e) : ∀ k < 39, w.entry e k = v.entry e k := by
  obtain ⟨h, fuel, err, s, hhandle, hnext⟩ := hfound
  exact (hslots h hhandle e (nextExamines_of_ret hnext)).entry
    (active_of_nextEntry (hhandle.inPlace hblocks) hnext).1

theorem openBlock_alike (hren : v.Renamed w) {n : ℕ} (hn : n < v.disk.numBlocks)
    {I : DirectoryHandle × Err → Prop} :
    Call.Alike I (DirectoryHandle.openBlock v (.image (512 * n)))
      (DirectoryHandle.openBlock w (.image (512 * n)))
      fun _ s => s.1 = .opened (.image (512 * n)) ∧ v.IsKeyBlock (.image (512 * n)) := by
  intro s _
  by_cases hkey : v.IsKeyBlock (.image (512 * n))
  · rw [openBlock_of_isKeyBlock hkey, openBlock_of_isKeyBlock ((hren.isKeyBlock_iff hn).mpr hkey)]
    refine ⟨rfl, fun a t hret => ?_⟩
    cases hret
    exact ⟨rfl, hkey⟩
  · rw [openBlock_of_not_isKeyBlock hkey,
      openBlock_of_not_isKeyBlock ((hren.isKeyBlock_iff hn).not.mpr hkey)]
    exact ⟨rfl, fun a t hret => by cases hret⟩

/-- A lookup that ends without an entry. -/
theorem missing_alike (error : Err) :
    Call.Alike (ε := Exn) (fun s : DirectoryHandle × Err => v.Handles s.1)
      (do modify fun s => (s.1, error); pure none) (do modify fun s => (s.1, error); pure none)
      fun r _ => ∀ e, r = some e → v.Found e :=
  Call.Alike.bind (J := fun _ _ => True) (.modify fun _ _ => trivial) fun _ =>
    .pure fun _ _ e h => by cases h

/-- The key block of a subdirectory, if it is there. -/
theorem keyBlock_alike (e : EntryPtr) :
    Call.Alike (ε := Exn) (fun s : DirectoryHandle × Err => v.Handles s.1)
      (v.readBlock (Entry.keyPointer (v.entry e))) (v.readBlock (Entry.keyPointer (v.entry e)))
      fun p s => v.Handles s.1 ∧
        Entry.keyPointer (v.entry e) < v.disk.numBlocks ∧ p = v.keyBlock e := by
  refine fun s hs => ⟨rfl, fun p t hret => ?_⟩
  rcases Nat.lt_or_ge (Entry.keyPointer (v.entry e)) v.disk.numBlocks with hin | hout
  · rw [Volume.readBlock_of_lt hin] at hret
    cases hret
    exact ⟨hs, hin, rfl⟩
  · rw [Volume.readBlock_of_ge hout] at hret
    cases hret

/-- The loop of `GetEntry`. The induction is on its rounds. -/
theorem getEntryLoop_alike (hren : v.Renamed w) (hblocks : 2 < v.disk.numBlocks)
    (hslots : v.SameSlots w) (bound rounds : ℕ) : ∀ (entry : Option EntryPtr) (path : List Str),
    (∀ e, entry = some e → v.Found e) →
    Call.Alike (fun s : DirectoryHandle × Err => v.Handles s.1)
      (getEntryLoop v bound rounds entry path) (getEntryLoop w bound rounds entry path)
      fun r _ => ∀ e, r = some e → v.Found e := by
  induction rounds with
  | zero => exact fun _ _ _ => .timeout
  | succ rounds ih =>
    intro entry path hentry
    cases entry with
    | none => exact missing_alike .fileNotFound
    | some e =>
      cases path with
      | nil => exact missing_alike .fileNotFound
      | cons name path =>
        have hfound := hentry e rfl
        have he := entry_eq_of_found hblocks hslots hfound
        rw [getEntryLoop, getEntryLoop, nameMatches_eq he, Entry.isDirectory, Entry.isDirectory,
          storageType_eq he, keyPointer_eq he, hren.readBlock_eq]
        refine .ite (fun _ => .ite (fun _ => ?_) fun _ => .ite (fun _ => ?_) fun hdir => ?_)
          fun _ => ?_
        · refine .pure fun _ _ e' h => ?_
          cases h
          exact hfound
        · exact missing_alike .directoryNotFound
        · refine (keyBlock_alike e).bind fun p => .assume ?_
          rintro ⟨hin, rfl⟩
          obtain ⟨h, fuel, err, t, hhandle, hnext⟩ := hfound
          have hopen := hren.openBlock_alike (I := fun s => v.Handles s.1) hin
          refine (hopen.mono (fun _ => id) ?_).bind fun _ =>
            (hren.nextEntry_alike hblocks hslots bound).bind fun r => .assume fun hr => ih r _ hr
          rintro _ s ⟨hs, hkey⟩
          rw [hs]
          exact .child hhandle hnext (by simpa [Entry.isDirectory] using hdir) hin hkey
        · exact (hren.nextEntry_alike hblocks hslots bound).bind fun r => .assume fun hr =>
            ih r _ hr

/-- **Lookups are the same.** -/
theorem getEntry_alike (hren : v.Renamed w) (hblocks : 2 < v.disk.numBlocks)
    (hslots : v.SameSlots w) (fuel : ℕ) (path : Str) :
    Call.Alike (fun _ => True) (getEntry v fuel path) (getEntry w fuel path)
      fun r _ => ∀ e, r = some e → path ≠ ascii "/" → v.Found e := by
  refine .ite (fun hroot => .pure fun _ _ e _ hpath => absurd hroot hpath) fun _ => ?_
  have hwalk : Call.Alike (fun _ : DirectoryHandle × Err => True)
      (do
        DirectoryHandle.openBlock v (.image Volume.root)
        let entry ← DirectoryHandle.nextEntry v fuel
        getEntryLoop v fuel fuel entry (splitPath path))
      (do
        DirectoryHandle.openBlock w (.image Volume.root)
        let entry ← DirectoryHandle.nextEntry w fuel
        getEntryLoop w fuel fuel entry (splitPath path))
      fun r _ => ∀ e, r = some e → v.Found e := by
    refine ((hren.openBlock_alike (n := 2) hblocks).mono (fun _ => id) ?_).bind fun _ =>
      (hren.nextEntry_alike hblocks hslots fuel).bind fun r => .assume fun hr =>
        hren.getEntryLoop_alike hblocks hslots fuel fuel r _ hr
    rintro _ s ⟨hs, -⟩
    rw [hs]
    exact .root
  exact (hwalk.withLocal fun _ => trivial).bind fun r => .pure fun _ hr e he _ => hr e he

/-- What is found under a path is the same kind of thing, and the same bytes if it is a file. -/
theorem entry_eq_of_getEntry (hren : v.Renamed w) (hv : v.Accepted) (hslots : v.SameSlots w)
    {fuel : ℕ} {path : Str} {err err' : Err}
    (hentry : getEntry v fuel path err = (.ret (some e), err')) :
    Entry.isFile (w.entry e) = Entry.isFile (v.entry e) ∧
      (Entry.isFile (v.entry e) → ∀ k < 39, w.entry e k = v.entry e k) := by
  by_cases hpath : path = ascii "/"
  · rw [getEntry, if_pos hpath] at hentry
    cases hentry
    have hle := block2_le hv.blocks
    have hroot : Entry.storageType (v.entry ⟨.image Volume.root, 0⟩) = storageTypeVolumeBlock :=
      hv.headerStorageType
    have hno := isFile_root hv
    have htype := hren.shift_eq (n := 2) (i := 0) (by omega)
    refine ⟨(isFile_of_volumeBlock (htype.trans hroot)).trans hno.symm, fun h => ?_⟩
    rw [hno] at h
    cases h
  · have hfound := (hren.getEntry_alike hv.blocks hslots fuel path err trivial).2 _ _ hentry e rfl
      hpath
    have he := entry_eq_of_found hv.blocks hslots hfound
    have htype := storageType_eq he
    exact ⟨by rw [Entry.isFile, Entry.isFile, htype], fun _ => he⟩

/-- **Under another name, a volume has the same directories and files.** -/
theorem sameFiles (hren : v.Renamed w) (hv : v.Accepted) (hslots : v.SameSlots w) :
    v.SameFiles w := by
  have hblocks := hv.blocks
  have hlookup : ∀ fuel path err, getEntry w fuel path err = getEntry v fuel path err :=
    fun fuel path err => (hren.getEntry_alike hblocks hslots fuel path err trivial).1
  refine ⟨hlookup, fun fuel path err e err' hentry hfile => ?_,
    fun fuel path err e err' h err₀ ops s hentry hfile hopen hrun => ?_⟩
  · obtain ⟨hkind, he⟩ := hren.entry_eq_of_getEntry hv hslots hentry
    rw [openFile, openFile, Call.bind_of_ret hentry, Call.bind_of_ret ((hlookup ..).trans hentry)]
    simp only [hkind, Call.ite_apply]
    by_cases hno : Entry.isFile (v.entry e) = false
    · rw [if_pos hno, if_pos hno]
    · have hyes : Entry.isFile (v.entry e) = true := by simpa using hno
      rw [if_neg hno, if_neg hno, Call.bind_apply, Call.bind_apply,
        (hren.create_alike (he hyes) (hfile hyes) err' trivial).1]
  · have hcreate : Entry.isFile (v.entry e) = true ∧
        FileHandle.create v e err' = (.ret h, err₀) := by
      rw [openFile, Call.bind_of_ret hentry] at hopen
      simp only [Call.ite_apply] at hopen
      split at hopen
      · cases hopen
      · obtain ⟨h', t, hcreate, hret⟩ := Call.bind_eq_ret_iff.mp hopen
        cases hret
        exact ⟨Bool.eq_true_of_not_eq_false ‹_›, hcreate⟩
    obtain ⟨hyes, hcreate⟩ := hcreate
    have he := (hren.entry_eq_of_getEntry hv hslots hentry).2 hyes
    have hh := (hren.create_alike he (hfile hyes) err' trivial).2 _ _ hcreate
    obtain ⟨hrun', hs⟩ := Call.Alike.returns (hren.exec_alike he) hrun hh
    exact ⟨hrun', fun offset whence => (hren.seek_alike he offset whence s hs).1,
      fun size => (hren.read_alike he size s hs).1,
      fun bufsiz off => (hren.readFile_alike he bufsiz off s hs).1⟩

end Volume.Renamed

end

end Prodosfs
