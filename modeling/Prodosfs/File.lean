import Prodosfs.Entry

/-!
# File handles

`file_handle_t` reads a file through up to three cached pointers: the master index of a tree file,
the index block at hand, and the data block at hand. `Seek` is the only place where the last two
are brought up to date; `Read` copies to the end of a block, seeks to the start of the next one, and
goes on.

`Read` does not look at what `Seek` returns. Behind the end of the file the position therefore
stays where it is, and the same bytes are copied again and again until the buffer is full.

## Main definitions

* `FileHandle.create`, `seek`, `read`
-/

namespace Prodosfs

/-- `index_block_t::At` -/
def Volume.indexAt {σ : Type} (v : Volume) (block : BlockPtr) (index : ℤ) : Call Exn σ ℕ :=
  if index < 0 ∨ 255 < index then Call.throw (.logicError "invalid index")
  else
    pure ((v.deref block (256 + index.toNat)).toNat <<< 8 ||| (v.deref block index.toNat).toNat)

/-- `SEEK_SET` -/
def seekSet : ℤ := 0

/-- `file_handle_t`. -/
structure FileHandle where
  entry : Option EntryPtr
  master : Option BlockPtr
  index : Option BlockPtr
  data : Option BlockPtr
  position : ℕ
  deriving DecidableEq

namespace FileHandle

variable (v : Volume)

/-- The constructor. -/
def create (entry : EntryPtr) : Call Exn Err FileHandle :=
  if Entry.storageType (v.entry entry) = storageTypeSeedlingFile then do
    let data ← v.getBlock (Entry.keyPointer (v.entry entry))
    pure ⟨some entry, none, none, some data, 0⟩
  else if Entry.storageType (v.entry entry) = storageTypeSaplingFile then do
    let index ← v.getBlock (Entry.keyPointer (v.entry entry))
    let pointer ← v.indexAt index 0
    let data ← v.getBlock pointer
    pure ⟨some entry, none, some index, some data, 0⟩
  else if Entry.storageType (v.entry entry) = storageTypeTreeFile then do
    let master ← v.getBlock (Entry.keyPointer (v.entry entry))
    let pointer ← v.indexAt master 0
    let index ← v.getBlock pointer
    let pointer ← v.indexAt index 0
    let data ← v.getBlock pointer
    pure ⟨some entry, some master, some index, some data, 0⟩
  else Call.throw (.logicError "unexpected storage type")

/-- `Close` -/
def close : Call Exn (FileHandle × Err) Unit :=
  modify fun s => (⟨none, none, none, none, 0⟩, s.2)

/-- `Type` -/
def type : Call Exn (FileHandle × Err) UInt8 := do
  let (h, _) ← get
  match h.entry with
  | none => Call.fault
  | some entry => pure (Entry.fileType (v.entry entry))

/-- `Eof` -/
def eof : Call Exn (FileHandle × Err) Bool := do
  let (h, _) ← get
  match h.entry with
  | none => Call.fault
  | some entry => pure (h.position == Entry.eof (v.entry entry))

/-- The step of `Seek` through the master index, if there is one. The offset that is left is
returned. -/
def seekMaster (offset : ℕ) : Call Exn (FileHandle × Err) ℕ := do
  let (h, _) ← get
  match h.master with
  | none => pure offset
  | some master => do
    let i := offset / 131072
    let pointer ← v.indexAt master i
    let index ← v.getBlock pointer
    modify fun s => ({ s.1 with index := some index }, s.2)
    pure (offset - i * 131072)

/-- The step of `Seek` through the index, if there is one. -/
def seekIndex (offset : ℕ) : Call Exn (FileHandle × Err) Unit := do
  let (h, _) ← get
  match h.index with
  | none => pure ()
  | some index => do
    let i := offset / 512
    let pointer ← v.indexAt index i
    let data ← v.getBlock pointer
    modify fun s => ({ s.1 with data := some data }, s.2)

/-- `Seek` -/
def seek (offset whence : ℤ) : Call Exn (FileHandle × Err) ℤ :=
  if whence ≠ seekSet then Call.throw (.logicError "only SEEK_SET currently implemented")
  else do
    let (h, _) ← get
    match h.entry with
    | none => Call.fault
    | some entry =>
      if offset < 0 ∨ (Entry.eof (v.entry entry) : ℤ) < offset then do
        modify fun s => (s.1, Err.positionOutOfRange)
        pure (-1)
      else do
        modify fun s => ({ s.1 with position := offset.toNat }, s.2)
        let offset ← seekMaster v offset.toNat
        seekIndex v offset
        let (h, _) ← get
        pure h.position

/-- The loop of `Read`, which yields the bytes it has copied. A round copies at least one byte, so
`size` rounds are enough. -/
def readLoop : ℕ → ℕ → Call Exn (FileHandle × Err) Str
  | _, 0 => pure []
  | 0, _ + 1 => Call.timeout
  | rounds + 1, size + 1 => do
    let (h, _) ← get
    match h.data with
    | none => Call.fault
    | some data => do
      let index := h.position % 512
      let toCopy := min (size + 1) (512 - index)
      let _ ← seek v ((h.position + toCopy : ℕ) : ℤ) seekSet
      let rest ← readLoop rounds (size + 1 - toCopy)
      pure (bytesAt (v.deref data) index toCopy ++ rest)

/-- `Read`: the bytes put into the buffer. Their number is what is returned. -/
def read (size : ℕ) : Call Exn (FileHandle × Err) Str := readLoop v size size

variable {v} in
/-- A round of a read. -/
theorem readLoop_succ {h : FileHandle} {data : BlockPtr} (hdata : h.data = some data)
    (rounds size : ℕ) (err : Err) : readLoop v (rounds + 1) (size + 1) (h, err) = (do
      let _ ← seek v ((h.position + min (size + 1) (512 - h.position % 512) : ℕ) : ℤ) seekSet
      let rest ← readLoop v rounds (size + 1 - min (size + 1) (512 - h.position % 512))
      pure (bytesAt (v.deref data) (h.position % 512) (min (size + 1) (512 - h.position % 512))
        ++ rest)) (h, err) := by
  simp only [readLoop, Call.get_bind_apply, hdata]

end FileHandle

/-! ### Index blocks -/

section
variable {σ : Type} {v : Volume}

/-- The pointer with number `i` in an index block. -/
def Volume.pointerIn (v : Volume) (block : BlockPtr) (i : ℕ) : ℕ :=
  (v.deref block (256 + i)).toNat <<< 8 ||| (v.deref block i).toNat

theorem indexAt_of_lt {i : ℕ} (h : i < 256) (block : BlockPtr) (s : σ) :
    v.indexAt block i s = (.ret (v.pointerIn block i), s) := by
  rw [Volume.indexAt, if_neg (by omega)]
  rfl

/-- A pointer that `At` returned is the one with that number, and the number was in range. -/
theorem indexAt_eq_ret_iff {i n : ℕ} {block : BlockPtr} {s t : σ} :
    v.indexAt block i s = (.ret n, t) ↔ i < 256 ∧ n = v.pointerIn block i ∧ t = s := by
  by_cases h : i < 256
  · rw [indexAt_of_lt h]
    simp [h, eq_comm]
  · rw [Volume.indexAt, if_pos (by omega)]
    simp [h]

end

end Prodosfs
