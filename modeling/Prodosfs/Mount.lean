import Prodosfs.Catalog

/-!
# The mounted file system

The callbacks of `main.cxx`. Each of them gets a path and, once something has been opened, the
object that `open` or `opendir` left in `fi->fh`; its result is a number that is an answer when it
is not negative, and an `errno` with its sign changed otherwise.

An exception that escapes from a callback is not caught by anything.

## What is left out

Log messages; the start of the program, its options but for `-e`, and the end of it.

## Main definitions

* `Mount` — what the callbacks share
* `prodosfsGetattr`, `prodosfsOpen`, `prodosfsRead`, `prodosfsClose`
* `prodosfsGetxattr`, `prodosfsListxattr`
* `prodosfsOpendir`, `prodosfsReaddir`, `prodosfsClosedir`
-/

namespace Prodosfs

/-! ### Modes -/

/-- `text_mode_t` -/
inductive TextMode where
  | prodos
  | unix
  deriving DecidableEq

/-- `text_mode`, which nothing changes. -/
def textMode : TextMode := .unix

/-- `extension_mode_t` -/
inductive ExtensionMode where
  | off
  | on
  deriving DecidableEq

/-- `virtual_file_mode_t` -/
inductive VirtualFileMode where
  | none
  | hidden
  | visible
  deriving DecidableEq

/-- `virtual_file_mode`, which nothing changes. -/
def virtualFileMode : VirtualFileMode := .hidden

/-- `virtual_file_id_t` -/
inductive VirtualFileId where
  | none
  | catalog
  deriving DecidableEq

/-- `virtual_files` -/
def virtualFiles : List (Str × VirtualFileId) := [(ascii ".CATALOG", .catalog)]

/-- `struct tm`, as far as it is filled in. -/
structure Tm where
  min : ℤ
  hour : ℤ
  mday : ℤ
  mon : ℤ
  year : ℤ
  deriving DecidableEq

/-- The attributes of an entry: an `unordered_map`. -/
abbrev Attributes := List (Str × Str)

/-- What the callbacks share. -/
structure Mount where
  volume : Volume
  extensionMode : ExtensionMode
  /-- `disk_image`, which is a result of `realpath` and hence not longer than `PATH_MAX`. -/
  diskImage : Str
  diskImage_length : diskImage.length < 4096
  /-- `mktime`, in the time zone of the process. -/
  mktime : Tm → ℤ
  /-- The order in which a map is gone through. -/
  order : Attributes → Attributes
  order_perm : ∀ attributes, (order attributes).Perm attributes

/-! ### Helper functions -/

/-- The table in `S_ToError`. One error has two entries, and the first one counts. -/
def errors : List (Err × ℤ) :=
  [(.none, 0), (.positionOutOfRange, 9), (.directoryNotFound, 20), (.volumeNotFound, 2),
    (.fileNotFound, 2), (.endOfFile, 0), (.positionOutOfRange, 6)]

/-- `S_ToError` -/
def toError (err : Err) : ℤ := (errors.lookup err).getD 5

/-- `ENODATA` -/
def enodata : ℤ := 61

/-- `ERANGE` -/
def erange : ℤ := 34

/-- A conversion to `int`. -/
def toInt (n : ℕ) : ℤ := ((n + 2 ^ 31) % 2 ^ 32 : ℕ) - 2 ^ 31

theorem toInt_of_lt {n : ℕ} (h : n < 2 ^ 31) : toInt n = n := by
  rw [toInt]
  omega

/-- `S_ToUnixTime` -/
def toUnixTime (mktime : Tm → ℤ) (timestamp : Timestamp) : ℤ :=
  mktime
    { min := timestamp.minute
      hour := timestamp.hour
      mday := timestamp.day
      mon := (timestamp.month : ℤ) - 1
      year := if timestamp.year < 70 then timestamp.year + 100 else timestamp.year }

/-- `S_ExportedFilename` -/
def exportedFilename (mode : ExtensionMode) (entry : Block) : Str :=
  if mode = .on ∧ Entry.isFile entry then
    Entry.fileName entry ++ ascii ":" ++ (getFileTypeInfo (Entry.fileType entry)).name
  else Entry.fileName entry

/-- `S_ProdosFilename` -/
def prodosFilename (mode : ExtensionMode) (pathname : Str) : Str :=
  if mode = .on ∧ 58 ∈ pathname then ((pathname.reverse.dropWhile (· ≠ 58)).drop 1).reverse
  else pathname

/-- The last component of a path. -/
def pathFilename (pathname : Str) : Str := (pathname.reverse.takeWhile (· ≠ 47)).reverse

/-- `S_VirtualFileId` -/
def virtualFileId (pathname : Str) : VirtualFileId :=
  (virtualFiles.lookup (pathFilename pathname)).getD .none

theorem isVirtual_iff {path : Str} :
    (virtualFileMode ≠ .none ∧ virtualFileId path ≠ .none) ↔ virtualFileId path = .catalog := by
  cases hid : virtualFileId path with
  | none => simp
  | catalog => simp [virtualFileMode]

/-- `XATTR` -/
def xattr (name : String) : Str := ascii "prodos." ++ ascii name

/-- `S_GetAttributes` -/
def getAttributes {σ : Type} (m : Mount) (e : EntryPtr) : Call Exn σ Attributes := do
  let entry := m.volume.entry e
  let attributes :=
    [(xattr "creation_timestamp", (Entry.creationTimestamp entry).asString),
      (xattr "access", accessToString (Entry.access entry)),
      (xattr "version", digits 10 (Entry.version entry).toNat),
      (xattr "min_version", digits 10 (Entry.minVersion entry).toNat)]
  if Entry.isFile entry ∨ Entry.isDirectory entry then do
    let info := getFileTypeInfo (Entry.fileType entry)
    let attributes := attributes ++
      [(xattr "file_type", info.type), (xattr "file_type_name", info.name),
        (xattr "file_type_description", info.description),
        (xattr "aux_type", auxTypeToString (Entry.auxType entry))]
    if isAppleWorksFile (Entry.fileType entry) then do
      let name ← appleWorksFileName (Entry.fileName entry) (Entry.auxType entry)
      pure (attributes ++ [(xattr "appleworks_filename", name)])
    else pure attributes
  else if Entry.isRoot entry then do
    let name ← m.volume.name
    let fileCount ← m.volume.fileCount
    let totalBlocks ← m.volume.totalBlocksOf
    let usedBlocks ← m.volume.countBlocksUsed
    pure (attributes ++
      [(xattr "volume_name", name), (xattr "file_count", digits 10 fileCount),
        (xattr "total_blocks", digits 10 totalBlocks),
        (xattr "used_blocks", formatInt usedBlocks), (xattr "image_file", m.diskImage)])
  else Call.throw (.runtimeError "unexpected file type")

/-! ### Attributes of a file -/

/-- `struct stat`, as far as it is filled in. -/
structure Stat where
  mode : ℕ
  nlink : ℕ
  blksize : ℕ
  blocks : ℕ
  size : ℕ
  ctime : ℤ
  mtime : ℤ
  deriving DecidableEq

/-- The bits of `st_mode`. -/
def sIfreg : ℕ := 0x8000
def sIfdir : ℕ := 0x4000
def sIrusr : ℕ := 0x100
def sIxusr : ℕ := 0x40
def sIrgrp : ℕ := 0x20
def sIxgrp : ℕ := 0x8

/-- `FILE_SIZE_MAX` -/
def fileSizeMax : ℕ := 0xFFFFFF

section
variable (m : Mount) (fuel : ℕ)

/-- What `prodosfs_getattr` says about an entry. -/
def statOf (e : EntryPtr) (st : Stat) : Call Exn Err Stat := do
  let entry := m.volume.entry e
  let st := { st with
    nlink := 1
    blksize := 512
    mode := sIrusr ||| sIrgrp
    ctime := toUnixTime m.mktime (Entry.creationTimestamp entry) }
  if Entry.isRoot entry then do
    let blocks ← m.volume.countRootDirectoryBlocks fuel
    pure { st with
      blocks := blocks
      size := blocks * st.blksize
      mode := st.mode ||| (sIfdir ||| sIxusr ||| sIxgrp)
      mtime := toUnixTime m.mktime (Entry.creationTimestamp entry) }
  else if Entry.isFile entry ∨ Entry.isDirectory entry then
    pure { st with
      blocks := Entry.blocksUsed entry
      size := Entry.eof entry
      mode := st.mode ||| if Entry.isFile entry then sIfreg else sIfdir ||| sIxusr ||| sIxgrp
      mtime := toUnixTime m.mktime (Entry.lastModTimestamp entry) }
  else Call.throw (.runtimeError "unexpected storage type")

/-- `prodosfs_getattr` -/
def prodosfsGetattr (path : Str) (st : Stat) : Call Exn Err (ℤ × Stat) :=
  let filename := prodosFilename m.extensionMode path
  if virtualFileMode ≠ .none ∧ virtualFileId path ≠ .none then
    pure (0, { st with mode := sIfreg ||| sIrusr ||| sIrgrp, size := fileSizeMax })
  else do
    let entry ← getEntry m.volume fuel filename
    match entry with
    | none => do
      let err ← get
      pure (-toError err, st)
    | some entry => do
      let st ← statOf m fuel entry st
      pure (0, st)

/-! ### Files -/

/-- What `fi->fh` points to. A catalogue that could not be made is a null pointer. -/
inductive Fh where
  | catalog (text : Option Str)
  | file (handle : FileHandle)

/-- `prodosfs_open`: the result, and what is put into `fi->fh`. -/
def prodosfsOpen (path : Str) : Call Exn Err (ℤ × Option Fh) :=
  let filename := prodosFilename m.extensionMode path
  if virtualFileMode ≠ .none ∧ virtualFileId filename = .catalog then do
    let catalog ← catalog m.volume fuel filename
    pure (0, some (.catalog catalog))
  else if virtualFileMode ≠ .none ∧ virtualFileId filename ≠ .none then
    Call.throw (.logicError "unexpected virtual file id")
  else do
    let fh ← openFile m.volume fuel filename
    match fh with
    | none => do
      let err ← get
      pure (-toError err, none)
    | some fh => pure (0, some (.file fh))

/-- A character of a text file, for Unix. -/
def toUnixText (c : UInt8) : UInt8 := if c &&& 0x7F = 13 then 10 else c &&& 0x7F

/-- `prodosfs_read` of a file, after `Seek`. The loop over a text counts in an `int`. -/
def readBuffer (v : Volume) (bufsiz : ℕ) : Call Exn (FileHandle × Err) (ℤ × Str) := do
  let buf ← FileHandle.read v bufsiz
  let eof ← if buf.length = 0 then FileHandle.eof v else pure true
  if eof = false then do
    let (_, err) ← get
    pure (-toError err, buf)
  else do
    let type ← FileHandle.type v
    if textMode = .unix ∧ type = fileTypeText then
      if 2 ^ 31 ≤ buf.length then Call.fault
      else pure (toInt buf.length, buf.map toUnixText)
    else pure (toInt buf.length, buf)

/-- `prodosfs_read` of a file. -/
def readFile (v : Volume) (bufsiz : ℕ) (off : ℤ) : Call Exn (FileHandle × Err) (ℤ × Str) := do
  let pos ← FileHandle.seek v off seekSet
  if pos < 0 then do
    let (_, err) ← get
    pure (-toError err, [])
  else readBuffer v bufsiz

/-- `copy` of a string. -/
def copyText {σ : Type} (text : Str) (bufsiz : ℕ) (off : ℤ) : Call Exn σ Str :=
  if off < 0 ∨ (text.length : ℤ) < off then
    Call.throw (.outOfRange "basic_string::copy")
  else pure (substr text off.toNat bufsiz)

/-- A call on a file handle, by way of `fi->fh`. -/
def onFile {α : Type} (call : Call Exn (FileHandle × Err) α) : Call Exn (Fh × Err) α := fun s =>
  match s.1 with
  | .file h => ((call (h, s.2)).1, (.file (call (h, s.2)).2.1, (call (h, s.2)).2.2))
  | .catalog _ => (.fault, s)

/-- `prodosfs_read`: the result, and what is put into the buffer. The path decides what `fi->fh` is
taken for. -/
def prodosfsRead (path : Str) (bufsiz : ℕ) (off : ℤ) : Call Exn (Fh × Err) (ℤ × Str) :=
  if virtualFileMode ≠ .none ∧ virtualFileId path ≠ .none then do
    let (fh, _) ← get
    match fh with
    | .catalog (some text) => do
      let buf ← copyText text bufsiz off
      pure (toInt buf.length, buf)
    | _ => Call.fault
  else onFile (readFile m.volume bufsiz off)

/-- `prodosfs_close`. Deleting a null pointer is nothing. -/
def prodosfsClose (path : Str) : Call Exn (Fh × Err) ℤ :=
  if virtualFileMode ≠ .none ∧ virtualFileId path ≠ .none then do
    let (fh, _) ← get
    match fh with
    | .catalog _ => pure 0
    | .file _ => Call.fault
  else do
    onFile FileHandle.close
    pure 0

/-! ### Extended attributes -/

/-- `prodosfs_getxattr`: the result, and what is put into the buffer. -/
def prodosfsGetxattr (path name : Str) (size : ℕ) : Call Exn Err (ℤ × Str) := do
  let entry ← getEntry m.volume fuel path
  match entry with
  | none => do
    let err ← get
    pure (-toError err, [])
  | some entry => do
    let attributes ← getAttributes m entry
    match attributes.lookup name with
    | none => pure (-enodata, [])
    | some value =>
      let valueSize := value.length + 1
      if 0 < size then
        if size < valueSize then pure (-erange, [])
        else pure (toInt valueSize, cStr value ++ [0])
      else pure (toInt valueSize, [])

/-- The loop of `prodosfs_listxattr`: the result, and what is put into the buffer. -/
def listxattrLoop (size : ℕ) : Attributes → ℕ → ℕ → Str → ℤ × Str
  | [], length, _, buffer => (toInt length, buffer)
  | attr :: attributes, length, remaining, buffer =>
    let nameSize := attr.1.length + 1
    if 0 < size then
      if attr.1.length < remaining then
        listxattrLoop size attributes (length + nameSize) (remaining - nameSize)
          (buffer ++ attr.1 ++ [0])
      else (-erange, buffer)
    else listxattrLoop size attributes (length + nameSize) remaining buffer

/-- `prodosfs_listxattr` -/
def prodosfsListxattr (path : Str) (size : ℕ) : Call Exn Err (ℤ × Str) := do
  let pathname := prodosFilename m.extensionMode path
  let entry ← getEntry m.volume fuel pathname
  match entry with
  | none => do
    let err ← get
    pure (-toError err, [])
  | some entry => do
    let attributes ← getAttributes m entry
    pure (listxattrLoop size (m.order attributes) 0 size [])

/-! ### Directories -/

/-- `prodosfs_opendir`: the result, and what is put into `fi->fh`. -/
def prodosfsOpendir (path : Str) : Call Exn Err (ℤ × Option DirectoryHandle) := do
  let dh ← openDirectory m.volume fuel path
  match dh with
  | none => do
    let err ← get
    pure (-toError err, none)
  | some dh => pure (0, some dh)

/-- A name is handed to `filler`, which knows the names it has taken so far, and takes this one
unless it answers that the buffer is full. -/
def fill (filler : List Str → Str → Bool) (names : List Str) (name : Str) : List Str :=
  if filler names name then names else names ++ [name]

/-- The loop of `prodosfs_readdir`. -/
def readdirLoop (filler : List Str → Str → Bool) :
    ℕ → List Str → Call Exn (DirectoryHandle × Err) (List Str)
  | 0, _ => Call.timeout
  | rounds + 1, names => do
    let entry ← DirectoryHandle.nextEntry m.volume fuel
    match entry with
    | none => pure names
    | some entry =>
      let name := cStr (exportedFilename m.extensionMode (m.volume.entry entry))
      if filler names name then pure names else readdirLoop filler rounds (names ++ [name])

/-- `prodosfs_readdir`: the result, and the names `filler` has taken. -/
def prodosfsReaddir (filler : List Str → Str → Bool) :
    Call Exn (DirectoryHandle × Err) (ℤ × List Str) := do
  let names := fill filler (fill filler [] (ascii ".")) (ascii "..")
  let names ← readdirLoop m fuel filler fuel names
  let (_, err) ← get
  if err ≠ .endOfFile then pure (-toError err, names) else pure (0, names)

/-- `prodosfs_closedir` -/
def prodosfsClosedir : Call Exn (DirectoryHandle × Err) ℤ := do
  DirectoryHandle.close
  pure 0

end

/-! ### The small volume -/

/-- The mounted small volume. -/
def smallMount (mode : ExtensionMode) : Mount where
  volume := smallVolume
  extensionMode := mode
  diskImage := ascii "/a.po"
  diskImage_length := by decide
  mktime _ := 0
  order attributes := attributes
  order_perm _ := List.Perm.refl _

/-- The entry of its text file. -/
def textFile : EntryPtr := ⟨.image 1024, 2⟩

end Prodosfs
