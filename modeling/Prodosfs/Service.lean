import Prodosfs.Attributes
import Prodosfs.Rewind
import Prodosfs.Server
import Prodosfs.Titles
import Prodosfs.VirtualFiles

/-!
# What the file system is for

A user of the mounted file system knows nothing of handles and blocks. To him, a path leads to an
entry of a tree of names, or nowhere; an open file is a content, or the text of a catalogue; an open
directory is a list of entries, of which some have been listed; and what other threads do is no
matter. `Mount.service` says just that, action by action.

It also says what the user has to keep to. Most of it is what the kernel does anyway: it hands over
C strings, numbers open files anew, and does not use an open file that has been closed. Some of it
is not. The kernel may read one open file in two threads at once, it may be asked for a part of the
catalogue that lies behind its end, and it may be given the path of a virtual file with a suffix.

The volume has to be sound, down to the pointers of its files.

## Main definitions

* `Volume.Sound` — a volume without damage
* `OpenFile`, `Service` — what is open, to the user
* `Mount.service` — what the callbacks are to do
-/

namespace Prodosfs

/-! ### Sound volumes -/

/-- A file whose blocks are all there. The position behind the last byte belongs to it. -/
structure Volume.SoundFile (v : Volume) (e : EntryPtr) : Prop where
  isFile : Entry.isFile (v.entry e)
  pointers : v.PointersInRange e
  legal : v.LegalSize e
  within : ¬ v.PastIndex e (Entry.eof (v.entry e))

/-- A volume in which everything that can be reached is sound. -/
structure Volume.Sound (v : Volume) : Prop where
  accepted : v.Accepted
  wellFormed : v.WellFormed
  bitmap : v.BitmapInside
  entry : ∀ {key : BlockPtr} {es : List EntryPtr}, v.Reachable key → DirectoryAt v key es →
    ∀ e ∈ es, Entry.isDirectory (v.entry e) ∨ v.SoundFile e

/-! ### What a path leads to -/

/-- `ENOENT` or `ENOTDIR` -/
def missingErrno : NameTree.Missing → ℤ
  | .name => 2
  | .directory => 20

/-- The key block of the directory that has the path. -/
noncomputable def Volume.directoryAt (v : Volume) (path : Str) : Except NameTree.Missing BlockPtr :=
  if path = ascii "/" then .ok (.image Volume.root)
  else
    match v.lookup (splitPath path) with
    | .error missing => .error missing
    | .ok e => if Entry.isDirectory (v.entry e) then .ok (v.keyBlock e) else .error .directory

/-! ### What there is to know about an entry -/

/-- What `getattr` says about an entry, if the root directory has `rootBlocks` blocks. -/
def Mount.stat (m : Mount) (rootBlocks : ℕ) (e : EntryPtr) : Stat :=
  let entry := m.volume.entry e
  let directory := sIrusr ||| sIrgrp ||| (sIfdir ||| sIxusr ||| sIxgrp)
  if Entry.isRoot entry then
    { mode := directory
      nlink := 1
      blksize := 512
      blocks := rootBlocks
      size := rootBlocks * 512
      ctime := toUnixTime m.mktime (Entry.creationTimestamp entry)
      mtime := toUnixTime m.mktime (Entry.creationTimestamp entry) }
  else
    { mode := if Entry.isFile entry then sIrusr ||| sIrgrp ||| sIfreg else directory
      nlink := 1
      blksize := 512
      blocks := Entry.blocksUsed entry
      size := Entry.eof entry
      ctime := toUnixTime m.mktime (Entry.creationTimestamp entry)
      mtime := toUnixTime m.mktime (Entry.lastModTimestamp entry) }

/-- The attributes that every entry has. -/
def commonAttributes (entry : Block) : Attributes :=
  [(xattr "creation_timestamp", (Entry.creationTimestamp entry).asString),
    (xattr "access", accessToString (Entry.access entry)),
    (xattr "version", digits 10 (Entry.version entry).toNat),
    (xattr "min_version", digits 10 (Entry.minVersion entry).toNat)]

/-- Those of a file or a directory. -/
def typeAttributes (entry : Block) : Attributes :=
  let info := getFileTypeInfo (Entry.fileType entry)
  [(xattr "file_type", info.type), (xattr "file_type_name", info.name),
    (xattr "file_type_description", info.description),
    (xattr "aux_type", auxTypeToString (Entry.auxType entry))]

/-- The one of an AppleWorks file. -/
def titleAttributes (entry : Block) : Attributes :=
  if isAppleWorksFile (Entry.fileType entry) then
    [(xattr "appleworks_filename", cStr (decodedName (Entry.fileName entry) (Entry.auxType entry)))]
  else []

/-- Those of the root directory. -/
def Mount.volumeAttributes (m : Mount) : Attributes :=
  [(xattr "volume_name", Entry.fileName m.volume.header),
    (xattr "file_count", digits 10 (fileCount m.volume.header)),
    (xattr "total_blocks", digits 10 m.volume.totalBlocks),
    (xattr "used_blocks", formatInt (Volume.balance m.volume.bitmap m.volume.disk.numBlocks)),
    (xattr "image_file", m.diskImage)]

/-- The extended attributes of an entry. -/
def Mount.attributes (m : Mount) (e : EntryPtr) : Attributes :=
  let entry := m.volume.entry e
  commonAttributes entry ++
    if Entry.isFile entry ∨ Entry.isDirectory entry then
      typeAttributes entry ++ titleAttributes entry
    else m.volumeAttributes

/-! ### What is open -/

/-- An open file or directory, as its user knows it. -/
inductive OpenFile where
  | file (e : EntryPtr)
  /-- A catalogue, if it could be made. -/
  | text (text : Option Str)
  /-- The entries that have not been listed yet. -/
  | directory (left : List EntryPtr)

/-- What is open, and the requests to read that have not been answered. -/
structure Service where
  /-- By the number of the open file. -/
  opened : ℕ → Option OpenFile
  /-- By the number of the thread, with the offset. -/
  reading : ℕ → Option (Reading × ℕ)

namespace Service

/-- Nothing is open. -/
def start : Service := ⟨fun _ => none, fun _ => none⟩

/-- An open file has been replaced, or closed. -/
def stored (t : Service) (fi : ℕ) (file : Option OpenFile) : Service :=
  { t with opened := Function.update t.opened fi file }

/-- A request to read has been made, or answered. -/
def halfway (t : Service) (thread : ℕ) (reading : Option (Reading × ℕ)) : Service :=
  { t with reading := Function.update t.reading thread reading }

/-- No request is under way for the open file. -/
def Quiet (t : Service) (fi : ℕ) : Prop :=
  ∀ thread r off, t.reading thread = some (r, off) → r.fi ≠ fi

@[simp] theorem stored_opened (t : Service) (fi : ℕ) (file : Option OpenFile) :
    (t.stored fi file).opened = Function.update t.opened fi file := rfl

@[simp] theorem stored_reading (t : Service) (fi : ℕ) (file : Option OpenFile) :
    (t.stored fi file).reading = t.reading := rfl

@[simp] theorem halfway_opened (t : Service) (thread : ℕ) (reading : Option (Reading × ℕ)) :
    (t.halfway thread reading).opened = t.opened := rfl

@[simp] theorem halfway_reading (t : Service) (thread : ℕ) (reading : Option (Reading × ℕ)) :
    (t.halfway thread reading).reading = Function.update t.reading thread reading := rfl

/-- Nothing has happened to an open file. -/
theorem stored_self {t : Service} {fi : ℕ} {file : Option OpenFile} (h : t.opened fi = file) :
    t.stored fi file = t := by
  rw [stored, ← h, Function.update_eq_self]

end Service

/-! ### What the callbacks are to do -/

section
variable (m : Mount) (fuel : ℕ)

/-- What `open` is to leave behind, or its `errno`. -/
noncomputable def Mount.openFile (path : Str) : Except ℤ OpenFile :=
  let filename := prodosFilename m.extensionMode path
  if virtualFileId filename = .catalog then
    match m.volume.directoryAt (parentPath filename) with
    | .error _ => .ok (.text none)
    | .ok key =>
      .ok (.text (some (catalogText m.volume (parentPath filename) (m.volume.entries key))))
  else
    match m.volume.atPath filename with
    | .error missing => .error (missingErrno missing)
    | .ok e => if Entry.isFile (m.volume.entry e) then .ok (.file e) else .error 5

/-- What a filler takes of a directory: the names it has then, the entries that are left to be
listed, and whether it has run full. The entry for which there was no room is lost. -/
def Mount.fill (filler : List Str → Str → Bool) :
    List Str → List EntryPtr → List Str × List EntryPtr × Bool
  | names, [] => (names, [], false)
  | names, e :: es =>
    if filler names (m.listedName e) then (names, es, true)
    else Mount.fill filler (names ++ [m.listedName e]) es

/-- What `readdir` takes, after the directory itself and its parent. -/
def Mount.listing (filler : List Str → Str → Bool) (left : List EntryPtr) :
    List Str × List EntryPtr × Bool :=
  m.fill filler (Prodosfs.fill filler (Prodosfs.fill filler [] (ascii ".")) (ascii "..")) left

/-- A path that the callbacks can be given. -/
def Serviceable (path : Str) : Prop := 0 ∉ path ∧ 65536 * (path.length + 15) ≤ fuel

/-- A path is one of a virtual file just when the open file is its text. -/
def OpenFile.Fits (path : Str) : OpenFile → Prop
  | .file _ => virtualFileId path ≠ .catalog
  | .text _ => virtualFileId path = .catalog
  | .directory _ => False

/-- A request for a part of an open file that can be made. -/
def OpenFile.Readable (bufsiz : ℕ) (off : ℤ) : OpenFile → Prop
  | .file _ => 0 < bufsiz ∧ bufsiz < 2 ^ 31
  | .text none => False
  | .text (some s) => 0 ≤ off ∧ off ≤ s.length
  | .directory _ => False

/-- What the user may ask for. -/
def Service.Meant (t : Service) : ℕ × Action → Prop
  | (thread, .getattr path _) => t.reading thread = none ∧ Serviceable fuel path
  | (thread, .opens path fi) =>
    t.reading thread = none ∧ Serviceable fuel path ∧ t.opened fi = none
  | (thread, .read path fi bufsiz off) =>
    t.reading thread = none ∧ t.Quiet fi ∧
      ∃ file, t.opened fi = some file ∧ file.Fits path ∧ file.Readable bufsiz off
  | (thread, .readOn) => ∃ r off, t.reading thread = some (r, off)
  | (thread, .release path fi) =>
    t.reading thread = none ∧ t.Quiet fi ∧ ∃ file, t.opened fi = some file ∧ file.Fits path
  | (thread, .getxattr path _ _) => t.reading thread = none ∧ Serviceable fuel path
  | (thread, .listxattr path _) => t.reading thread = none ∧ Serviceable fuel path
  | (thread, .opendir path fi) =>
    t.reading thread = none ∧ Serviceable fuel path ∧ t.opened fi = none
  | (thread, .readdir fi _) =>
    t.reading thread = none ∧ ∃ left, t.opened fi = some (.directory left)
  | (thread, .releasedir fi) =>
    t.reading thread = none ∧ ∃ left, t.opened fi = some (.directory left)

/-- What `getattr` may answer. -/
def Mount.StatAnswer (path : Str) (st : Stat) (reply : Reply) : Prop :=
  if virtualFileId path = .catalog then
    reply = .stat 0 { st with mode := sIfreg ||| sIrusr ||| sIrgrp, size := fileSizeMax }
  else
    match m.volume.atPath (prodosFilename m.extensionMode path) with
    | .error missing => reply = .stat (-missingErrno missing) st
    | .ok e => ∃ rest, Linked m.volume.nextBlock (.image Volume.root) rest ∧
        reply = .stat 0 (m.stat (rest.length + 1) e)

/-- What `getxattr` is to answer for an entry. -/
def Mount.attributeAnswer (e : EntryPtr) (name : Str) (size : ℕ) : Reply :=
  match (m.attributes e).lookup name with
  | none => .bytes (-enodata) []
  | some value =>
    if size = 0 then .bytes (value.length + 1) []
    else if size ≤ value.length then .bytes (-erange) []
    else .bytes (value.length + 1) (cStr value ++ [0])

/-- What `listxattr` may answer for an entry. A buffer that is too small may have been written
to. -/
def Mount.NamesAnswer (e : EntryPtr) (size : ℕ) (reply : Reply) : Prop :=
  let names := m.order (m.attributes e)
  if size = 0 then reply = .bytes (namesLength names) []
  else if size < namesLength names then ∃ buf, reply = .bytes (-erange) buf
  else reply = .bytes (namesLength names) (nameBytes names)

/-- What a request for a part of an open file may be answered at first. A file is not read yet. -/
def Mount.ReadAnswer (bufsiz : ℕ) (off : ℤ) (reply : Reply) : OpenFile → Prop
  | .file e =>
    if 0 ≤ off ∧ off ≤ Entry.eof (m.volume.entry e) then reply = .begun else reply = .bytes (-9) []
  | .text none => False
  | .text (some s) =>
    reply = .bytes ((s.drop off.toNat).take bufsiz).length ((s.drop off.toNat).take bufsiz)
  | .directory _ => False

/-- What a file may be read as: a full buffer, which begins with the part of the content. -/
def Volume.PartAnswer (v : Volume) (e : EntryPtr) (off bufsiz : ℕ) (reply : Reply) : Prop :=
  ∃ buf : Str, reply = .bytes bufsiz buf ∧ buf.length = bufsiz ∧
    buf.take (Entry.eof (v.entry e) - off)
      = v.delivered e off (min bufsiz (Entry.eof (v.entry e) - off))

/-- What `readdir` may answer. A listing that is cut short may come with any result. -/
def Mount.ListingAnswer (filler : List Str → Str → Bool) (left : List EntryPtr) (reply : Reply) :
    Prop :=
  ∃ r, reply = .names r (m.listing filler left).1 ∧ ((m.listing filler left).2.2 = false → r = 0)

/-- What the user may be answered. -/
def Mount.Allows (t : Service) : ℕ × Action → Reply → Prop
  | (_, .getattr path st), reply => m.StatAnswer path st reply
  | (_, .opens path _), reply =>
    match m.openFile path with
    | .error errno => reply = .result (-errno)
    | .ok _ => reply = .result 0
  | (_, .read _ fi bufsiz off), reply =>
    ∃ file, t.opened fi = some file ∧ m.ReadAnswer bufsiz off reply file
  | (thread, .readOn), reply =>
    ∃ r off e, t.reading thread = some (r, off) ∧ t.opened r.fi = some (.file e) ∧
      m.volume.PartAnswer e off r.bufsiz reply
  | (_, .release _ _), reply => reply = .result 0
  | (_, .getxattr path name size), reply =>
    match m.volume.atPath path with
    | .error missing => reply = .bytes (-missingErrno missing) []
    | .ok e => reply = m.attributeAnswer e name size
  | (_, .listxattr path size), reply =>
    match m.volume.atPath (prodosFilename m.extensionMode path) with
    | .error missing => reply = .bytes (-missingErrno missing) []
    | .ok e => m.NamesAnswer e size reply
  | (_, .opendir path _), reply =>
    match m.volume.directoryAt path with
    | .error missing => reply = .result (-missingErrno missing)
    | .ok _ => reply = .result 0
  | (_, .readdir fi filler), reply =>
    ∃ left, t.opened fi = some (.directory left) ∧ m.ListingAnswer filler left reply
  | (_, .releasedir _), reply => reply = .result 0

/-- What is open then. -/
noncomputable def Mount.next (t : Service) : ℕ × Action → Service
  | (_, .opens path fi) =>
    match m.openFile path with
    | .error _ => t
    | .ok file => t.stored fi (some file)
  | (thread, .read _ fi bufsiz off) =>
    match t.opened fi with
    | some (.file e) =>
      if 0 ≤ off ∧ off ≤ Entry.eof (m.volume.entry e) then
        t.halfway thread (some (⟨fi, bufsiz⟩, off.toNat))
      else t
    | _ => t
  | (thread, .readOn) => t.halfway thread none
  | (_, .release _ fi) => t.stored fi none
  | (_, .opendir path fi) =>
    match m.volume.directoryAt path with
    | .error _ => t
    | .ok key => t.stored fi (some (.directory (m.volume.entries key)))
  | (_, .readdir fi filler) =>
    match t.opened fi with
    | some (.directory left) => t.stored fi (some (.directory (m.listing filler left).2.1))
    | _ => t
  | (_, .releasedir fi) => t.stored fi none
  | _ => t

/-- **What the file system is for.** -/
noncomputable def Mount.service : Specification Service (ℕ × Action) Reply where
  Meant := Service.Meant fuel
  Allows := m.Allows
  next := m.next

end

end Prodosfs
