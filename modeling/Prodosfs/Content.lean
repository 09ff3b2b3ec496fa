import Prodosfs.File

/-!
# The content of a file

What a file contains, said without any handle: the byte at an offset is a byte of the block of data
that the key pointer, the index block or the two levels of index blocks lead to, and a pointer that
is zero leads to zeros at every level.

A handle is *coherent* when its cached pointers are the ones for its position. Every call that
returns leaves it coherent, whatever its arguments, so that reading from it is reading the content.

## Main definitions

* `Volume.content` — the byte at an offset
* `handleAt` — the one coherent handle at a position

## Main results

* `create_eq_ret`, `seek_eq_ret`, `readLoop_eq_ret` — every call that returns leaves a coherent
  handle, and a read inside the file has copied the content
* `seek_eq_ret_iff` — when a seek returns
-/

namespace Prodosfs

/-! ### Content -/

section
variable (v : Volume)

/-- A byte of a block. Block 0 stands for zeros. -/
def Volume.blockByte (n k : ℕ) : UInt8 := if n = 0 then 0 else v.disk.mem (512 * n + k)

/-- A pointer in an index block. -/
def Volume.pointerAt (n i : ℕ) : ℕ :=
  (v.blockByte n (256 + i)).toNat <<< 8 ||| (v.blockByte n i).toNat

/-- The block of data for an offset of a file. -/
def Volume.dataBlock (e : EntryPtr) (j : ℕ) : ℕ :=
  if Entry.storageType (v.entry e) = storageTypeSeedlingFile then Entry.keyPointer (v.entry e)
  else if Entry.storageType (v.entry e) = storageTypeSaplingFile then
    v.pointerAt (Entry.keyPointer (v.entry e)) (j / 512)
  else
    v.pointerAt (v.pointerAt (Entry.keyPointer (v.entry e)) (j / 131072)) (j % 131072 / 512)

/-- The byte at an offset of a file. -/
def Volume.content (e : EntryPtr) (j : ℕ) : UInt8 := v.blockByte (v.dataBlock e j) (j % 512)

/-- The `n` bytes of a file from offset `p` on. -/
def Volume.slice (e : EntryPtr) (p n : ℕ) : Str := (List.range n).map fun i => v.content e (p + i)

/-- A block that a sparse pointer stands for. -/
theorem blockByte_zero (k : ℕ) : v.blockByte 0 k = 0 := if_pos rfl

/-- **Sparse pointers are sparse at every level**: an index block that is not there has no pointers
to blocks that are. -/
theorem pointerAt_zero (i : ℕ) : v.pointerAt 0 i = 0 := by
  rw [Volume.pointerAt, blockByte_zero, blockByte_zero]
  rfl

theorem deref_blockPtr (n k : ℕ) : v.deref (Volume.blockPtr n) k = v.blockByte n k := by
  rw [Volume.blockPtr, Volume.blockByte]
  split <;> rfl

theorem pointerIn_blockPtr (n i : ℕ) : v.pointerIn (Volume.blockPtr n) i = v.pointerAt n i := by
  rw [Volume.pointerIn, Volume.pointerAt, deref_blockPtr, deref_blockPtr]

theorem slice_add (e : EntryPtr) (p m n : ℕ) :
    v.slice e p (m + n) = v.slice e p m ++ v.slice e (p + m) n := by
  simp [Volume.slice, List.range_add, Nat.add_assoc, Function.comp_def]

theorem length_slice (e : EntryPtr) (p n : ℕ) : (v.slice e p n).length = n := by
  simp [Volume.slice]

/-- The offsets up to the end of a block are in the same block of data. -/
theorem dataBlock_add (e : EntryPtr) {p i : ℕ} (hi : p % 512 + i < 512) :
    v.dataBlock e (p + i) = v.dataBlock e p := by
  have hsmall : (p + i) / 512 = p / 512 := by omega
  have hbig : (p + i) / 131072 = p / 131072 := by omega
  have hmid : (p + i) % 131072 / 512 = p % 131072 / 512 := by omega
  simp only [Volume.dataBlock, hsmall, hbig, hmid]

/-- The bytes of the block at hand are the content, up to the end of the block. -/
theorem bytesAt_dataBlock (e : EntryPtr) {p n : ℕ} (hn : p % 512 + n ≤ 512) :
    bytesAt (v.deref (Volume.blockPtr (v.dataBlock e p))) (p % 512) n = v.slice e p n := by
  refine List.map_congr_left fun i hi => ?_
  have hlt : p % 512 + i < 512 := by
    have := List.mem_range.mp hi
    omega
  have hmod : (p + i) % 512 = p % 512 + i := by omega
  rw [deref_blockPtr, Volume.content, dataBlock_add v e hlt, hmod]

end

/-! ### Coherent handles -/

/-- The coherent handle at a position. -/
def handleAt (v : Volume) (e : EntryPtr) (p : ℕ) : FileHandle where
  entry := some e
  master :=
    if Entry.storageType (v.entry e) = storageTypeTreeFile then
      some (Volume.blockPtr (Entry.keyPointer (v.entry e)))
    else none
  index :=
    if Entry.storageType (v.entry e) = storageTypeSeedlingFile then none
    else if Entry.storageType (v.entry e) = storageTypeSaplingFile then
      some (Volume.blockPtr (Entry.keyPointer (v.entry e)))
    else
      some (Volume.blockPtr (v.pointerAt (Entry.keyPointer (v.entry e)) (p / 131072)))
  data := some (Volume.blockPtr (v.dataBlock e p))
  position := p

section
variable {v : Volume} {e : EntryPtr}

theorem isFile_iff {entry : Block} :
    Entry.isFile entry = true ↔ Entry.storageType entry = storageTypeSeedlingFile ∨
      Entry.storageType entry = storageTypeSaplingFile ∨
      Entry.storageType entry = storageTypeTreeFile := by
  simp [Entry.isFile, or_assoc]

/-- The offset that is left for the index block. -/
def Volume.indexOffset (v : Volume) (e : EntryPtr) (q : ℕ) : ℕ :=
  if Entry.storageType (v.entry e) = storageTypeTreeFile then q % 131072 else q

/-- A block number that stands for zeros or for a block of the image. -/
def Volume.InRange (v : Volume) (n : ℕ) : Prop := n = 0 ∨ n < v.disk.numBlocks

/-- The pointers that lead to a position are there, and in range. -/
structure Volume.Seekable (v : Volume) (e : EntryPtr) (q : ℕ) : Prop where
  index : Entry.storageType (v.entry e) = storageTypeTreeFile →
    q / 131072 < 256 ∧ v.InRange (v.pointerAt (Entry.keyPointer (v.entry e)) (q / 131072))
  data : Entry.storageType (v.entry e) ≠ storageTypeSeedlingFile →
    v.indexOffset e q / 512 < 256 ∧ v.InRange (v.dataBlock e q)

theorem Volume.Seekable.of_seedling
    (htype : Entry.storageType (v.entry e) = storageTypeSeedlingFile) (q : ℕ) : v.Seekable e q where
  index htree := absurd (htype.symm.trans htree) (by decide)
  data hne := absurd htype hne

/-- The constructor looks up what a seek to the beginning of the file does. -/
theorem create_reaches {h : FileHandle} {err err' : Err}
    (hcreate : FileHandle.create v e err = (.ret h, err')) :
    Entry.isFile (v.entry e) ∧ v.Seekable e 0 ∧ h = handleAt v e 0 ∧ err' = err := by
  rw [isFile_iff]
  by_cases h1 : Entry.storageType (v.entry e) = storageTypeSeedlingFile
  · rw [FileHandle.create, if_pos h1, Call.bind_eq_ret_iff] at hcreate
    obtain ⟨data, t, hdata, hret⟩ := hcreate
    obtain ⟨-, rfl, rfl⟩ := Volume.getBlock_eq_ret_iff.mp hdata
    cases hret
    refine ⟨Or.inl h1, .of_seedling h1 0, ?_, rfl⟩
    simp [handleAt, h1, Volume.dataBlock, storageTypeSeedlingFile, storageTypeTreeFile]
  by_cases h2 : Entry.storageType (v.entry e) = storageTypeSaplingFile
  · have h3 : Entry.storageType (v.entry e) ≠ storageTypeTreeFile := by
      rw [h2]
      decide
    simp only [FileHandle.create, if_neg h1, if_pos h2, Call.bind_eq_ret_iff] at hcreate
    obtain ⟨index, t, hindex, pointer, t', hpointer, data, t'', hdata, hret⟩ := hcreate
    obtain ⟨-, rfl, rfl⟩ := Volume.getBlock_eq_ret_iff.mp hindex
    obtain ⟨-, rfl, rfl⟩ := (indexAt_eq_ret_iff (i := 0)).mp hpointer
    obtain ⟨hrange, rfl, rfl⟩ := Volume.getBlock_eq_ret_iff.mp hdata
    cases hret
    rw [pointerIn_blockPtr] at hrange
    refine ⟨Or.inr (Or.inl h2), ⟨fun htree => absurd htree h3, fun _ => ?_⟩, ?_, rfl⟩
    · rw [Volume.indexOffset, if_neg h3, Volume.dataBlock, if_neg h1, if_pos h2]
      exact ⟨by decide, hrange⟩
    · simp [handleAt, h2, Volume.dataBlock, pointerIn_blockPtr, storageTypeSeedlingFile,
        storageTypeSaplingFile, storageTypeTreeFile]
  by_cases h3 : Entry.storageType (v.entry e) = storageTypeTreeFile
  · simp only [FileHandle.create, if_neg h1, if_neg h2, if_pos h3, Call.bind_eq_ret_iff] at hcreate
    obtain ⟨master, t, hmaster, pointer, t', hpointer, index, t'', hindex, pointer', u, hpointer',
      data, u', hdata, hret⟩ := hcreate
    obtain ⟨-, rfl, rfl⟩ := Volume.getBlock_eq_ret_iff.mp hmaster
    obtain ⟨-, rfl, rfl⟩ := (indexAt_eq_ret_iff (i := 0)).mp hpointer
    obtain ⟨hrange, rfl, rfl⟩ := Volume.getBlock_eq_ret_iff.mp hindex
    obtain ⟨-, rfl, rfl⟩ := (indexAt_eq_ret_iff (i := 0)).mp hpointer'
    obtain ⟨hrange', rfl, rfl⟩ := Volume.getBlock_eq_ret_iff.mp hdata
    cases hret
    rw [pointerIn_blockPtr] at hrange
    rw [pointerIn_blockPtr, pointerIn_blockPtr] at hrange'
    refine ⟨Or.inr (Or.inr h3), ⟨fun _ => ⟨by decide, hrange⟩, fun _ => ?_⟩, ?_, rfl⟩
    · rw [Volume.indexOffset, if_pos h3, Volume.dataBlock, if_neg h1, if_neg h2]
      exact ⟨by decide, hrange'⟩
    · simp [handleAt, h3, Volume.dataBlock, pointerIn_blockPtr, storageTypeSeedlingFile,
        storageTypeSaplingFile, storageTypeTreeFile]
  · rw [FileHandle.create, if_neg h1, if_neg h2, if_neg h3] at hcreate
    cases hcreate

/-- **The constructor makes a coherent handle**, at the beginning of a file. -/
theorem create_eq_ret {h : FileHandle} {err err' : Err}
    (hcreate : FileHandle.create v e err = (.ret h, err')) :
    Entry.isFile (v.entry e) ∧ h = handleAt v e 0 ∧ err' = err := by
  obtain ⟨hfile, -, hhandle, herr⟩ := create_reaches hcreate
  exact ⟨hfile, hhandle, herr⟩

/-- Without a master index there is one index block at most, for all positions. -/
theorem index_eq_of_ne (hfile : Entry.isFile (v.entry e))
    (h3 : Entry.storageType (v.entry e) ≠ storageTypeTreeFile) (p q : ℕ) :
    (handleAt v e p).index = (handleAt v e q).index := by
  rcases isFile_iff.mp hfile with h1 | h2 | h3'
  · simp [handleAt, h1]
  · simp [handleAt, h2, storageTypeSaplingFile, storageTypeSeedlingFile]
  · exact absurd h3' h3

/-- The handle with another index block. -/
def FileHandle.indexed (h : FileHandle) (index : Option BlockPtr) : FileHandle :=
  { h with index := index }

/-- The handle with another block of data. -/
def FileHandle.filled (h : FileHandle) (data : Option BlockPtr) : FileHandle :=
  { h with data := data }

/-- The step through the master index brings the index block up to date. -/
theorem seekMaster_eq_ret_iff {h : FileHandle} (err : Err) {p q o : ℕ} {s : FileHandle × Err}
    (hfile : Entry.isFile (v.entry e)) (hmaster : h.master = (handleAt v e q).master)
    (hindex : h.index = (handleAt v e p).index) :
    FileHandle.seekMaster v q (h, err) = (.ret o, s) ↔
      (Entry.storageType (v.entry e) = storageTypeTreeFile →
        q / 131072 < 256 ∧ v.InRange (v.pointerAt (Entry.keyPointer (v.entry e)) (q / 131072))) ∧
      s = (h.indexed (handleAt v e q).index, err) ∧ o = v.indexOffset e q := by
  rw [FileHandle.seekMaster, Call.get_bind_apply, Volume.indexOffset]
  by_cases h3 : Entry.storageType (v.entry e) = storageTypeTreeFile
  · have hm : h.master = some (Volume.blockPtr (Entry.keyPointer (v.entry e))) := by
      rw [hmaster, handleAt, if_pos h3]
    have hi : (handleAt v e q).index = some (Volume.blockPtr
        (v.pointerAt (Entry.keyPointer (v.entry e)) (q / 131072))) := by
      simp [handleAt, h3, storageTypeSeedlingFile, storageTypeSaplingFile, storageTypeTreeFile]
    simp only [hm, Call.bind_eq_ret_iff, if_pos h3, hi, Volume.InRange]
    constructor
    · rintro ⟨pointer, t, hpointer, index, t', hget, u, t'', hset, hret⟩
      obtain ⟨hlt, rfl, rfl⟩ := (indexAt_eq_ret_iff (i := q / 131072)).mp hpointer
      obtain ⟨hrange, rfl, rfl⟩ := Volume.getBlock_eq_ret_iff.mp hget
      cases hset
      cases hret
      rw [pointerIn_blockPtr] at hrange ⊢
      exact ⟨fun _ => ⟨hlt, hrange⟩, rfl, by omega⟩
    · rintro ⟨hrange, rfl, rfl⟩
      obtain ⟨hlt, hrange⟩ := hrange h3
      refine ⟨_, _, indexAt_of_lt hlt _ _, _, _, Volume.getBlock_of_lt ?_ _, _, _, rfl, ?_⟩
      · rwa [pointerIn_blockPtr]
      · have hmod : q % 131072 = q - q / 131072 * 131072 := by omega
        rw [pointerIn_blockPtr, hmod, FileHandle.indexed]
        rfl
  · have hm : h.master = none := by rw [hmaster, handleAt, if_neg h3]
    have hi : (handleAt v e q).index = h.index := by
      rw [hindex]
      exact index_eq_of_ne hfile h3 q p
    simp only [hm, if_neg h3, hi]
    constructor
    · rintro ⟨⟩
      exact ⟨fun h3' => absurd h3' h3, rfl, rfl⟩
    · rintro ⟨-, rfl, rfl⟩
      rfl

/-- The index block at a position, and how it leads to the block of data. -/
theorem exists_index (hfile : Entry.isFile (v.entry e))
    (h1 : Entry.storageType (v.entry e) ≠ storageTypeSeedlingFile) (q : ℕ) :
    ∃ n, (handleAt v e q).index = some (Volume.blockPtr n) ∧
      v.dataBlock e q = v.pointerAt n (v.indexOffset e q / 512) := by
  rw [Volume.indexOffset]
  rcases isFile_iff.mp hfile with h1' | h2 | h3
  · exact absurd h1' h1
  · refine ⟨Entry.keyPointer (v.entry e), ?_, ?_⟩
    · simp [handleAt, h2, storageTypeSaplingFile, storageTypeSeedlingFile]
    · simp [Volume.dataBlock, h2, storageTypeSaplingFile, storageTypeSeedlingFile,
        storageTypeTreeFile]
  · refine ⟨v.pointerAt (Entry.keyPointer (v.entry e)) (q / 131072), ?_, ?_⟩
    · simp [handleAt, h3, storageTypeSaplingFile, storageTypeSeedlingFile, storageTypeTreeFile]
    · simp [Volume.dataBlock, h3, storageTypeSaplingFile, storageTypeSeedlingFile,
        storageTypeTreeFile]

/-- The step through the index brings the block of data up to date. -/
theorem seekIndex_eq_ret_iff {h : FileHandle} (err : Err) {p q : ℕ} {u : Unit}
    {s : FileHandle × Err} (hfile : Entry.isFile (v.entry e))
    (hindex : h.index = (handleAt v e q).index) (hdata : h.data = (handleAt v e p).data) :
    FileHandle.seekIndex v (v.indexOffset e q) (h, err) = (.ret u, s) ↔
      (Entry.storageType (v.entry e) ≠ storageTypeSeedlingFile →
        v.indexOffset e q / 512 < 256 ∧ v.InRange (v.dataBlock e q)) ∧
      s = (h.filled (handleAt v e q).data, err) := by
  rw [FileHandle.seekIndex, Call.get_bind_apply]
  by_cases h1 : Entry.storageType (v.entry e) = storageTypeSeedlingFile
  · have hi : h.index = none := by rw [hindex, handleAt, if_pos h1]
    have hd : (handleAt v e q).data = h.data := by
      rw [hdata]
      simp [handleAt, Volume.dataBlock, h1]
    simp only [hi, hd]
    constructor
    · rintro ⟨⟩
      exact ⟨fun h1' => absurd h1 h1', rfl⟩
    · rintro ⟨-, rfl⟩
      rfl
  · obtain ⟨n, hn, hblock⟩ := exists_index hfile h1 q
    have hd : (handleAt v e q).data = some (Volume.blockPtr (v.dataBlock e q)) := rfl
    simp only [hindex, hn, Call.bind_eq_ret_iff, hd, Volume.InRange, hblock]
    constructor
    · rintro ⟨pointer, t, hpointer, data, t', hget, hset⟩
      obtain ⟨hlt, rfl, rfl⟩ := (indexAt_eq_ret_iff (i := _ / 512)).mp hpointer
      obtain ⟨hrange, rfl, rfl⟩ := Volume.getBlock_eq_ret_iff.mp hget
      cases hset
      rw [pointerIn_blockPtr] at hrange ⊢
      exact ⟨fun _ => ⟨hlt, hrange⟩, rfl⟩
    · rintro ⟨hrange, rfl⟩
      obtain ⟨hlt, hrange⟩ := hrange h1
      refine ⟨_, _, indexAt_of_lt hlt _ _, _, _, Volume.getBlock_of_lt ?_ _, ?_⟩
      · rwa [pointerIn_blockPtr]
      · rw [pointerIn_blockPtr]
        rfl

/-- **A seek inside the file returns when the pointers on the way are in range**, wherever the
handle was, and then leaves the coherent handle at the offset. -/
theorem seek_eq_ret_iff {p q : ℕ} {r : ℤ} {err : Err} {s : FileHandle × Err}
    (hfile : Entry.isFile (v.entry e)) (hq : q ≤ Entry.eof (v.entry e)) :
    FileHandle.seek v q seekSet (handleAt v e p, err) = (.ret r, s) ↔
      v.Seekable e q ∧ r = q ∧ s = (handleAt v e q, err) := by
  have hin : ¬ ((q : ℤ) < 0 ∨ (Entry.eof (v.entry e) : ℤ) < q) := by omega
  have hentry : (handleAt v e p).entry = some e := rfl
  have hmaster := fun o t => seekMaster_eq_ret_iff err (p := p) (q := q) (o := o) (s := t)
    (h := { handleAt v e p with position := q }) hfile rfl rfl
  have hindex := fun u t => seekIndex_eq_ret_iff err (p := p) (q := q) (u := u) (s := t)
    (h := { handleAt v e p with position := q, index := (handleAt v e q).index }) hfile rfl rfl
  rw [FileHandle.seek, if_neg (by simp), Call.get_bind_apply]
  simp only [hentry, if_neg hin, Int.toNat_natCast, Call.modify_bind_apply, Call.bind_eq_ret_iff]
  constructor
  · rintro ⟨o, t, hm, u, t', hi, h, t'', hget, hret⟩
    obtain ⟨h3, rfl, rfl⟩ := (hmaster _ _).mp hm
    obtain ⟨h1, rfl⟩ := (hindex _ _).mp hi
    cases hget
    cases hret
    exact ⟨⟨h3, h1⟩, rfl, rfl⟩
  · rintro ⟨⟨h3, h1⟩, rfl, rfl⟩
    exact ⟨_, _, (hmaster _ _).mpr ⟨h3, rfl, rfl⟩, (), _, (hindex _ _).mpr ⟨h1, rfl⟩, _, _, rfl,
      rfl⟩

/-- A seek to anywhere else fails and leaves the handle alone. -/
theorem seek_of_out {offset : ℤ} (hout : offset < 0 ∨ (Entry.eof (v.entry e) : ℤ) < offset) (p : ℕ)
    (err : Err) :
    FileHandle.seek v offset seekSet (handleAt v e p, err)
      = (.ret (-1), (handleAt v e p, .positionOutOfRange)) := by
  have hentry : (handleAt v e p).entry = some e := rfl
  rw [FileHandle.seek, if_neg (by simp), Call.get_bind_apply]
  simp only [hentry, if_pos hout]
  rfl

/-- **A seek that returns leaves a coherent handle**: at the offset, or where it was when it refused
to go there. -/
theorem seek_eq_ret {p : ℕ} {offset r : ℤ} {err : Err} {s : FileHandle × Err}
    (hfile : Entry.isFile (v.entry e))
    (hseek : FileHandle.seek v offset seekSet (handleAt v e p, err) = (.ret r, s)) :
    (∃ q : ℕ, offset = q ∧ q ≤ Entry.eof (v.entry e) ∧ r = q ∧ s = (handleAt v e q, err)) ∨
      (offset < 0 ∨ (Entry.eof (v.entry e) : ℤ) < offset) ∧ r = -1 ∧
        s = (handleAt v e p, .positionOutOfRange) := by
  by_cases hout : offset < 0 ∨ (Entry.eof (v.entry e) : ℤ) < offset
  · rw [seek_of_out hout] at hseek
    cases hseek
    exact Or.inr ⟨hout, rfl, rfl⟩
  · obtain ⟨q, rfl⟩ : ∃ q : ℕ, offset = q := ⟨offset.toNat, by omega⟩
    have hq : q ≤ Entry.eof (v.entry e) := by omega
    obtain ⟨-, rfl, rfl⟩ := (seek_eq_ret_iff hfile hq).mp hseek
    exact Or.inl ⟨q, rfl, hq, rfl, rfl⟩

/-- A round of a read, at a position of the file. -/
theorem readLoop_handleAt (rounds size p : ℕ) (err : Err) :
    FileHandle.readLoop v (rounds + 1) (size + 1) (handleAt v e p, err) = (do
      let _ ← FileHandle.seek v ((p + min (size + 1) (512 - p % 512) : ℕ) : ℤ) seekSet
      let rest ← FileHandle.readLoop v rounds (size + 1 - min (size + 1) (512 - p % 512))
      pure (bytesAt (v.deref (Volume.blockPtr (v.dataBlock e p))) (p % 512)
        (min (size + 1) (512 - p % 512)) ++ rest)) (handleAt v e p, err) :=
  FileHandle.readLoop_succ rfl rounds size err

/-- **A read that returns leaves a coherent handle**, and a read inside the file has copied the
content and moved on by as much. The induction is on the bound; a round copies to the end of the
block of data. -/
theorem readLoop_eq_ret (hfile : Entry.isFile (v.entry e)) :
    ∀ {rounds size p : ℕ} {err : Err} {bytes : Str} {s : FileHandle × Err},
      p ≤ Entry.eof (v.entry e) →
      FileHandle.readLoop v rounds size (handleAt v e p, err) = (.ret bytes, s) →
      bytes.length = size ∧ (∃ p' err', p' ≤ Entry.eof (v.entry e) ∧ s = (handleAt v e p', err')) ∧
        (p + size ≤ Entry.eof (v.entry e) →
          bytes = v.slice e p size ∧ s = (handleAt v e (p + size), err)) := by
  intro rounds
  induction rounds with
  | zero =>
    rintro (_ | size) p err bytes s hp hread
    · cases hread
      exact ⟨rfl, ⟨p, err, hp, rfl⟩, fun _ => ⟨rfl, rfl⟩⟩
    · cases hread
  | succ rounds ih =>
    rintro (_ | size) p err bytes s hp hread
    · cases hread
      exact ⟨rfl, ⟨p, err, hp, rfl⟩, fun _ => ⟨rfl, rfl⟩⟩
    simp only [readLoop_handleAt, Call.bind_eq_ret_iff] at hread
    obtain ⟨r, t, hseek, rest, t', hrest, hret⟩ := hread
    cases hret
    -- what this round copies ends with the block or with the buffer
    obtain ⟨n, hn⟩ : ∃ n, n = min (size + 1) (512 - p % 512) := ⟨_, rfl⟩
    have hblock : p % 512 + n ≤ 512 := by omega
    have hsize : size + 1 = n + (size + 1 - n) := by omega
    have hlength : (bytesAt (v.deref (Volume.blockPtr (v.dataBlock e p))) (p % 512) n).length
        = n := by
      simp [bytesAt]
    rw [← hn] at hseek hrest ⊢
    rcases seek_eq_ret hfile hseek with ⟨q, hq, hle, -, rfl⟩ | ⟨hout, -, rfl⟩
    · obtain rfl : p + n = q := by exact_mod_cast hq
      obtain ⟨hl, hp', hslice⟩ := ih hle hrest
      refine ⟨by rw [List.length_append, hlength, hl]; omega, hp', fun hend => ?_⟩
      obtain ⟨hbytes, hs⟩ := hslice (by omega)
      have hend' : p + n + (size + 1 - n) = p + (size + 1) := by omega
      rw [hs, hbytes, bytesAt_dataBlock v e hblock, ← slice_add, ← hsize, hend']
      exact ⟨rfl, rfl⟩
    · obtain ⟨hl, hp', -⟩ := ih hp hrest
      refine ⟨by rw [List.length_append, hlength, hl]; omega, hp', fun hend => ?_⟩
      omega

end

end Prodosfs
