import Prodosfs.Names

/-!
# Entries

What a directory is made of. An entry is 39 bytes of some block, and the source reaches it through
a pointer that is cast to whatever it is supposed to be; here the pointer is a block and a slot
number, and an entry is the stretch of memory it leads to.

A block pointer leads into the image, or to the one block of zeros that stands for all the blocks
a sparse file does not have.

Every accessor reads its own few bytes and nothing else, so all of them are plain functions of the
memory at the entry.
-/

namespace Prodosfs

/-- `err_t` -/
inductive Err where
  | none
  | inputOutput
  | noDeviceConnected
  | diskSwitched
  | invalidPathname
  | invalidReferenceNumber
  | directoryNotFound
  | volumeNotFound
  | fileNotFound
  | unsupportedStorageType
  | endOfFile
  | positionOutOfRange
  | fileAccessError
  | directoryStructureDamaged
  | fileStructureDamaged
  deriving DecidableEq, Repr

/-! ### Pointers -/

/-- A pointer to a block. -/
inductive BlockPtr where
  /-- Into the image, by address. -/
  | image (addr : ℕ)
  /-- To `sparse_block`. -/
  | sparse
  deriving DecidableEq, Repr

/-- A pointer to an entry: `block->any.entry + slot`. -/
structure EntryPtr where
  block : BlockPtr
  slot : ℕ
  deriving DecidableEq, Repr

namespace Volume

variable {σ : Type}

/-- The memory a block pointer leads to. -/
def deref (v : Volume) : BlockPtr → Block
  | .image addr => v.disk.at addr
  | .sparse => fun _ => 0

/-- The memory an entry pointer leads to. -/
def entry (v : Volume) (p : EntryPtr) : Block := fun k => v.deref p.block (4 + 39 * p.slot + k)

/-- `_disk.ReadBlock`, as a pointer. -/
def readBlock (v : Volume) (index : ℤ) : Call Exn σ BlockPtr := do
  let addr ← v.disk.readBlock index
  pure (.image addr)

/-- `GetBlock`: block 0 is never needed, and a pointer to it means a block of zeros. -/
def getBlock (v : Volume) (index : ℤ) : Call Exn σ BlockPtr :=
  if index = 0 then pure .sparse else v.readBlock index

theorem readBlock_of_lt {v : Volume} {n : ℕ} (h : n < v.disk.numBlocks) (s : σ) :
    v.readBlock n s = (.ret (.image (512 * n)), s) := by
  rw [readBlock, Call.bind_of_ret (Disk.readBlock_of_lt h s)]
  rfl

theorem readBlock_of_ge {v : Volume} {n : ℕ} (h : v.disk.numBlocks ≤ n) (s : σ) :
    v.readBlock n s = (.throw (.runtimeError "invalid block number"), s) := by
  rw [readBlock, Call.bind_of_throw (Disk.readBlock_of_ge h s)]

/-- What a block number in the image leads to, when it leads anywhere. -/
def blockPtr (n : ℕ) : BlockPtr := if n = 0 then .sparse else .image (512 * n)

theorem getBlock_of_lt {v : Volume} {n : ℕ} (h : n = 0 ∨ n < v.disk.numBlocks) (s : σ) :
    v.getBlock n s = (.ret (blockPtr n), s) := by
  rw [getBlock, blockPtr]
  by_cases h0 : n = 0
  · rw [if_pos h0, if_pos (by exact_mod_cast h0)]
    rfl
  · rw [if_neg h0, if_neg (by exact_mod_cast h0), readBlock_of_lt (h.resolve_left h0)]

theorem getBlock_of_ge {v : Volume} {n : ℕ} (h0 : n ≠ 0) (h : v.disk.numBlocks ≤ n) (s : σ) :
    v.getBlock n s = (.throw (.runtimeError "invalid block number"), s) := by
  rw [getBlock, if_neg (by exact_mod_cast h0), readBlock_of_ge h]

/-- A block pointer that `GetBlock` returned is the one for its number. -/
theorem getBlock_eq_ret_iff {v : Volume} {n : ℕ} {p : BlockPtr} {s t : σ} :
    v.getBlock n s = (.ret p, t) ↔ (n = 0 ∨ n < v.disk.numBlocks) ∧ p = blockPtr n ∧ t = s := by
  by_cases h : n = 0 ∨ n < v.disk.numBlocks
  · rw [getBlock_of_lt h]
    simp [h, eq_comm]
  · have h0 : n ≠ 0 := fun h0 => h (Or.inl h0)
    rw [getBlock_of_ge h0 (by omega)]
    simp [h]

end Volume

/-! ### Accessors -/

/-- `timestamp_t` -/
structure Timestamp where
  year : ℕ
  month : ℕ
  day : ℕ
  hour : ℕ
  minute : ℕ
  deriving DecidableEq, Repr

/-- `S_DecodeTimestamp` -/
def decodeTimestamp (p : Block) : Timestamp where
  day := (leRead16 p &&& 0b0000000000011111) >>> 0
  month := (leRead16 p &&& 0b0000000111100000) >>> 5
  year := (leRead16 p &&& 0b1111111000000000) >>> 9
  minute := (p 2 &&& 0b00111111).toNat
  hour := (p 3 &&& 0b00011111).toNat

/-- The `n` bytes from offset `a` on, as a string. -/
def bytesAt (p : Block) (a n : ℕ) : Str := (List.range n).map fun i => p (a + i)

/-- The storage types the source gives names to. -/
def storageTypeNone : UInt8 := 0x0
def storageTypeSeedlingFile : UInt8 := 0x1
def storageTypeSaplingFile : UInt8 := 0x2
def storageTypeTreeFile : UInt8 := 0x3
def storageTypeSubdirectory : UInt8 := 0xD
def storageTypeSubdirBlock : UInt8 := 0xE

namespace Entry

variable (entry : Block)

/-- `StorageType` -/
def storageType : UInt8 := entry 0 >>> 4

/-- `NameLength` -/
def nameLength : UInt8 := entry 0 &&& 0x0F

/-- `FileName` -/
def fileName : Str := bytesAt entry 1 (nameLength entry).toNat

/-- `CreationTimestamp` -/
def creationTimestamp : Timestamp := decodeTimestamp fun k => entry (24 + k)

/-- `Version` -/
def version : UInt8 := entry 28

/-- `MinVersion` -/
def minVersion : UInt8 := entry 29

/-- `Access` -/
def access : UInt8 := entry 30

/-- `IsFile` -/
def isFile : Bool :=
  storageType entry == storageTypeSeedlingFile || storageType entry == storageTypeSaplingFile ||
    storageType entry == storageTypeTreeFile

/-- `IsDirectory` -/
def isDirectory : Bool := storageType entry == storageTypeSubdirectory

/-- `IsInactive` -/
def isInactive : Bool := storageType entry == storageTypeNone

/-- `IsRoot` -/
def isRoot : Bool := storageType entry == storageTypeVolumeBlock

/-- `NameMatches` -/
def nameMatches (name : Str) : Bool := strcaseeq name (fileName entry)

/-- `FileType` -/
def fileType : UInt8 := entry 16

/-- `KeyPointer` -/
def keyPointer : ℕ := leRead16 fun k => entry (17 + k)

/-- `BlocksUsed` -/
def blocksUsed : ℕ := leRead16 fun k => entry (19 + k)

/-- `Eof` -/
def eof : ℕ := leRead24 fun k => entry (21 + k)

/-- `AuxType` -/
def auxType : ℕ := leRead16 fun k => entry (31 + k)

/-- `LastModTimestamp` -/
def lastModTimestamp : Timestamp := decodeTimestamp fun k => entry (33 + k)

end Entry

/-- The header of a directory is the first entry of its key block; these are its fields. -/
def entriesPerBlock (header : Block) : UInt8 := header 32

/-- The field `file_count`. -/
def fileCount (header : Block) : ℕ := leRead16 fun k => header (33 + k)

theorem fileCount_lt (header : Block) : fileCount header < 65536 := leRead16_lt _

end Prodosfs
