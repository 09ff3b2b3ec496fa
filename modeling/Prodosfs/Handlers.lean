import Prodosfs.Content
import Prodosfs.Exported

/-!
# Callbacks that answer

`readdir` lists every entry that is active. The callbacks that get its name know files, directories
and the header of the root directory, and throw when they meet anything else. Nothing catches what
they throw.

An entry that looks like a header of the root makes them describe the volume as a whole. That
throws, too, when the blocks that are counted as the bitmap are not all inside the image.

## Main definitions

* `Volume.Described` — the entries that the callbacks know
* `Mount.AllAnswer` — the callbacks answer for a path

## Main results

* `getAttributes_of_described`, `described_of_getAttributes` — when an entry has attributes
* `callbacks_answer_iff` — when the callbacks answer for a listed name
-/

namespace Prodosfs

/-! ### Attributes -/

/-- The entries that the callbacks know. -/
def Volume.Described (v : Volume) (e : EntryPtr) : Prop :=
  Entry.isFile (v.entry e) ∨ Entry.isDirectory (v.entry e) ∨
    Entry.isRoot (v.entry e) ∧ v.BitmapInside

/-- Attributes that are few and short. -/
def Attributes.Modest (attributes : Attributes) : Prop :=
  attributes.length ≤ 9 ∧ ∀ a ∈ attributes, a.1.length ≤ 64 ∧ a.2.length < 4096

section
variable {σ : Type} {m : Mount} {e : EntryPtr}

/-- The attributes of every entry. -/
theorem modest_common (entry : Block) :
    ∀ a ∈ [(xattr "creation_timestamp", (Entry.creationTimestamp entry).asString),
      (xattr "access", accessToString (Entry.access entry)),
      (xattr "version", digits 10 (Entry.version entry).toNat),
      (xattr "min_version", digits 10 (Entry.minVersion entry).toNat)],
      a.1.length ≤ 64 ∧ a.2.length < 4096 := by
  have hcreation : (Entry.creationTimestamp entry).asString.length ≤ 16 := length_asString_le _
  have haccess := length_accessToString_le (Entry.access entry)
  have hversion := length_digits_byte_le (Entry.version entry)
  have hminVersion := length_digits_byte_le (Entry.minVersion entry)
  simp only [List.forall_mem_cons]
  exact ⟨⟨by decide, by omega⟩, ⟨by decide, by omega⟩, ⟨by decide, by omega⟩,
    ⟨by decide, by omega⟩, List.forall_mem_nil _⟩

/-- The attributes of files and directories. -/
theorem modest_typed (entry : Block) :
    ∀ a ∈ [(xattr "file_type", (getFileTypeInfo (Entry.fileType entry)).type),
      (xattr "file_type_name", (getFileTypeInfo (Entry.fileType entry)).name),
      (xattr "file_type_description", (getFileTypeInfo (Entry.fileType entry)).description),
      (xattr "aux_type", auxTypeToString (Entry.auxType entry))],
      a.1.length ≤ 64 ∧ a.2.length < 4096 := by
  obtain ⟨htype, hname, hdescription⟩ := length_getFileTypeInfo_le (Entry.fileType entry)
  have haux : (auxTypeToString (Entry.auxType entry)).length ≤ 5 := by
    have hlen := length_format04X_le (leRead16_lt fun k => entry (31 + k))
    have hdollar : (ascii "$").length = 1 := rfl
    rw [auxTypeToString, List.length_append, hdollar]
    exact Nat.add_le_add_left hlen 1
  simp only [List.forall_mem_cons]
  exact ⟨⟨by decide, by omega⟩, ⟨by decide, by omega⟩, ⟨by decide, by omega⟩,
    ⟨by decide, by omega⟩, List.forall_mem_nil _⟩

/-- The attributes of the root. -/
theorem modest_root (m : Mount) {used : ℤ} (hlo : -458745 ≤ used) (hhi : used ≤ 65535) :
    ∀ a ∈ [(xattr "volume_name", Entry.fileName m.volume.header),
      (xattr "file_count", digits 10 (fileCount m.volume.header)),
      (xattr "total_blocks", digits 10 m.volume.totalBlocks),
      (xattr "used_blocks", formatInt used), (xattr "image_file", m.diskImage)],
      a.1.length ≤ 64 ∧ a.2.length < 4096 := by
  have hname := length_fileName_le m.volume.header
  have hfiles := length_digits_word_le (fileCount_lt m.volume.header)
  have hblocks : (digits 10 m.volume.totalBlocks).length ≤ 5 :=
    length_digits_word_le (leRead16_lt _)
  have hcount := length_formatInt_le (k := 6) (i := used) (by decide) (by omega) (by omega)
  have hpath := m.diskImage_length
  simp only [List.forall_mem_cons]
  exact ⟨⟨by decide, by omega⟩, ⟨by decide, by omega⟩, ⟨by decide, by omega⟩,
    ⟨by decide, by omega⟩, ⟨by decide, by omega⟩, List.forall_mem_nil _⟩

/-- The name that AppleWorks gives to a file. -/
theorem appleWorksFileName_of_entry (entry : Block) : ∃ name,
    (∀ s : σ, appleWorksFileName (Entry.fileName entry) (Entry.auxType entry) s = (.ret name, s)) ∧
      name.length ≤ 15 := by
  have hlen := length_fileName_le entry
  rw [appleWorksFileName, if_neg (by omega)]
  refine ⟨_, fun _ => rfl, (length_cStr_le _).trans ?_⟩
  rwa [List.length_map, List.length_zipIdx]

/-- **An entry that is known has attributes.** -/
theorem getAttributes_of_described (hv : m.volume.Accepted) (he : m.volume.Described e) :
    ∃ attributes, (∀ s : σ, getAttributes m e s = (.ret attributes, s)) ∧
      Attributes.Modest attributes := by
  have hcommon := modest_common (m.volume.entry e)
  have htyped := modest_typed (m.volume.entry e)
  rw [getAttributes]
  by_cases hknown : Entry.isFile (m.volume.entry e) ∨ Entry.isDirectory (m.volume.entry e)
  · rw [if_pos hknown]
    by_cases hworks : isAppleWorksFile (Entry.fileType (m.volume.entry e))
    · obtain ⟨name, hname, hlen⟩ := appleWorksFileName_of_entry (σ := σ) (m.volume.entry e)
      rw [if_pos hworks]
      refine ⟨_, fun s => Call.bind_of_ret (hname s), by simp, ?_⟩
      refine List.forall_mem_append.mpr ⟨List.forall_mem_append.mpr ⟨hcommon, htyped⟩, ?_⟩
      have hkey : (xattr "appleworks_filename").length ≤ 64 := by decide
      have hshort : name.length < 4096 := by omega
      exact List.forall_mem_singleton.mpr ⟨hkey, hshort⟩
    · rw [if_neg hworks]
      exact ⟨_, fun _ => rfl, by simp, List.forall_mem_append.mpr ⟨hcommon, htyped⟩⟩
  · rw [if_neg hknown]
    obtain ⟨hroot, hbitmap⟩ := (he.resolve_left fun h => hknown (Or.inl h)).resolve_left
      fun h => hknown (Or.inr h)
    obtain ⟨used, hused, hlo, hhi⟩ := countBlocksUsed_of_bitmapInside (σ := σ) hv hbitmap
    rw [if_pos hroot]
    refine ⟨_, fun s => ?_, ?_, List.forall_mem_append.mpr ⟨hcommon, modest_root m hlo hhi⟩⟩
    · rw [Call.bind_of_ret (name_of_accepted hv s), Call.bind_of_ret (fileCount_of_accepted hv s),
        Call.bind_of_ret (totalBlocksOf_of_accepted hv s), Call.bind_of_ret (hused s)]
      rfl
    · simp

theorem described_of_getAttributes (hv : m.volume.Accepted) {attributes : Attributes} {s t : σ}
    (hget : getAttributes m e s = (.ret attributes, t)) : m.volume.Described e := by
  rw [getAttributes] at hget
  simp only [Call.ite_apply] at hget
  by_cases hknown : Entry.isFile (m.volume.entry e) ∨ Entry.isDirectory (m.volume.entry e)
  · rcases hknown with h | h
    · exact Or.inl h
    · exact Or.inr (Or.inl h)
  · rw [if_neg hknown] at hget
    by_cases hroot : Entry.isRoot (m.volume.entry e)
    · rw [if_pos hroot] at hget
      simp only [Call.bind_eq_ret_iff] at hget
      obtain ⟨_, _, -, _, _, -, _, _, -, used, t', hused, -⟩ := hget
      exact Or.inr (Or.inr ⟨hroot, bitmapInside_of_countBlocksUsed hv hused⟩)
    · rw [if_neg hroot] at hget
      cases hget

end

/-! ### Answers -/

/-- The numbers whose negatives the callbacks return: `ENOENT`, `EIO`, `EBADF`, `ENOTDIR`, `ERANGE`
and `ENODATA`. -/
def errnos : List ℤ := [2, 5, 9, 20, 34, 61]

/-- Zero, a count, or a negative `errno`. -/
def IsAnswer (r : ℤ) : Prop := 0 ≤ r ∨ -r ∈ errnos

/-- A callback has returned, with an answer. -/
def Answers {σ α : Type} (o : Outcome Exn (ℤ × α) × σ) : Prop :=
  ∃ a t, o = (.ret a, t) ∧ IsAnswer a.1

/-- The callbacks answer for a path. -/
structure Mount.AllAnswer (m : Mount) (fuel : ℕ) (path : Str) : Prop where
  getattr : ∀ st err, Answers (prodosfsGetattr m fuel path st err)
  opens : ∀ err, Answers (prodosfsOpen m fuel path err)
  getxattr : ∀ name size err, Answers (prodosfsGetxattr m fuel path name size err)
  listxattr : ∀ size err, Answers (prodosfsListxattr m fuel path size err)

theorem Answers.of_eq {σ α : Type} {o o' : Outcome Exn (ℤ × α) × σ} (h : o = o')
    (ho : Answers o') : Answers o := h ▸ ho

theorem mem_of_lookup {attributes : Attributes} {name value : Str}
    (h : attributes.lookup name = some value) : (name, value) ∈ attributes := by
  obtain ⟨before, after, rfl, -⟩ := List.lookup_eq_some_iff.mp h
  exact List.mem_append_right _ (List.mem_cons_self ..)

theorem isAnswer_toError (err : Err) : IsAnswer (-toError err) := by
  cases err <;> first | exact Or.inl (by decide) | exact Or.inr (by decide)

theorem isAnswer_toInt {n : ℕ} (h : n < 2 ^ 31) : IsAnswer (toInt n) := by
  rw [toInt_of_lt h]
  exact Or.inl (Int.natCast_nonneg n)

section
variable {m : Mount} {e : EntryPtr}

/-- The names that are listed fit into an `int`. -/
theorem isAnswer_listxattrLoop (size : ℕ) :
    ∀ {attributes : Attributes} {length remaining : ℕ} {buffer : Str},
      (∀ a ∈ attributes, a.1.length ≤ 64) → length + 65 * attributes.length < 2 ^ 31 →
      IsAnswer (listxattrLoop size attributes length remaining buffer).1 := by
  intro attributes
  induction attributes with
  | nil =>
    intro length remaining buffer _ hlen
    exact isAnswer_toInt hlen
  | cons a attributes ih =>
    intro length remaining buffer hshort hlen
    have ha := hshort a (List.mem_cons_self ..)
    have hrest := fun b hb => hshort b (List.mem_cons_of_mem _ hb)
    rw [List.length_cons] at hlen
    rw [listxattrLoop]
    split
    · split
      · exact ih hrest (by omega)
      · exact Or.inr (by decide : -(-erange) ∈ errnos)
    · exact ih hrest (by omega)

/-! ### Files that can be opened -/

/-- The pointers of a file that lead to its blocks are in range. -/
structure Volume.PointersInRange (v : Volume) (e : EntryPtr) : Prop where
  key : v.InRange (Entry.keyPointer (v.entry e))
  index : Entry.storageType (v.entry e) ≠ storageTypeSeedlingFile →
    ∀ i < 256, v.InRange (v.pointerAt (Entry.keyPointer (v.entry e)) i)
  data : Entry.storageType (v.entry e) = storageTypeTreeFile → ∀ i < 256, ∀ j < 256,
    v.InRange (v.pointerAt (v.pointerAt (Entry.keyPointer (v.entry e)) i) j)

/-- The constructor of a file handle follows one pointer at each level. -/
theorem create_of_pointersInRange {v : Volume} (hfile : Entry.isFile (v.entry e))
    (hpointers : v.PointersInRange e) (err : Err) :
    ∃ h, FileHandle.create v e err = (.ret h, err) := by
  have hkey := Volume.getBlock_of_lt hpointers.key err
  by_cases h1 : Entry.storageType (v.entry e) = storageTypeSeedlingFile
  · rw [FileHandle.create, if_pos h1, Call.bind_of_ret hkey]
    exact ⟨_, rfl⟩
  have hfirst : ∀ n, v.indexAt (Volume.blockPtr n) 0 err = (.ret (v.pointerAt n 0), err) := by
    intro n
    rw [← pointerIn_blockPtr]
    exact indexAt_of_lt (i := 0) (by decide) _ _
  have hindex := Volume.getBlock_of_lt (hpointers.index h1 0 (by decide)) err
  by_cases h2 : Entry.storageType (v.entry e) = storageTypeSaplingFile
  · rw [FileHandle.create, if_neg h1, if_pos h2, Call.bind_of_ret hkey, Call.bind_of_ret (hfirst _),
      Call.bind_of_ret hindex]
    exact ⟨_, rfl⟩
  · have h3 : Entry.storageType (v.entry e) = storageTypeTreeFile :=
      ((isFile_iff.mp hfile).resolve_left h1).resolve_left h2
    have hdata := Volume.getBlock_of_lt (hpointers.data h3 0 (by decide) 0 (by decide)) err
    rw [FileHandle.create, if_neg h1, if_neg h2, if_pos h3, Call.bind_of_ret hkey,
      Call.bind_of_ret (hfirst _), Call.bind_of_ret hindex, Call.bind_of_ret (hfirst _),
      Call.bind_of_ret hdata]
    exact ⟨_, rfl⟩

/-! ### The callbacks, for a name in the root directory -/

variable {fuel : ℕ} {es : List EntryPtr} {name : Str}

theorem statOf_of_described (hchain : m.volume.RootChain) (he : m.volume.Described e)
    (hfuel : 65536 ≤ fuel) (st : Stat) (err : Err) :
    ∃ st', statOf m fuel e st err = (.ret st', err) := by
  rw [statOf]
  simp only [Call.ite_apply]
  by_cases hroot : Entry.isRoot (m.volume.entry e)
  · obtain ⟨n, hn⟩ := countRootDirectoryBlocks_of_rootChain hchain hfuel err
    rw [if_pos hroot, Call.bind_of_ret hn]
    exact ⟨_, rfl⟩
  · have hknown : Entry.isFile (m.volume.entry e) ∨ Entry.isDirectory (m.volume.entry e) := by
      rcases he with h | h | ⟨h, -⟩
      · exact Or.inl h
      · exact Or.inr h
      · exact absurd h hroot
    rw [if_neg hroot, if_pos hknown]
    exact ⟨_, rfl⟩

/-- What the four callbacks need for a listed name: entries they know under the name itself and the
name without its suffix, and a bitmap if that name is the one of the catalogue. -/
structure Mount.Answerable (m : Mount) (es : List EntryPtr) (name : Str) : Prop where
  whole : ∀ e, m.volume.resolve es name = some e → m.volume.Described e
  stripped : ∀ e, m.volume.resolve es (prodosFilename m.extensionMode name) = some e →
    m.volume.Described e
  catalog : prodosFilename m.extensionMode name = ascii ".CATALOG" → m.volume.BitmapInside

/-- A file that a name stands for is one of the entries. -/
theorem mem_of_resolve (hv : m.volume.Accepted) (hresolve : m.volume.resolve es name = some e)
    (hfile : Entry.isFile (m.volume.entry e)) : e ∈ es := by
  rw [Volume.resolve] at hresolve
  split at hresolve
  · cases hresolve
    rw [isFile_root hv] at hfile
    cases hfile
  · exact List.mem_of_find?_eq_some hresolve

section
variable (hv : m.volume.Accepted)
  (hit : Iterates m.volume fuel (.opened (.image Volume.root)) es)
  (hlength : es.length + 1 ≤ fuel)
  (hslash : 47 ∉ name)
include hv hit hlength hslash

theorem getattr_answers (hchain : m.volume.RootChain) (hfuel : 65536 ≤ fuel)
    (hstripped : ∀ e, m.volume.resolve es (prodosFilename m.extensionMode name) = some e →
      m.volume.Described e) (st : Stat) (err : Err) :
    Answers (prodosfsGetattr m fuel (joinPath [name]) st err) := by
  have hentry := getEntry_root hv hit hlength
    (not_mem_prodosFilename m.extensionMode hslash) err
  rw [prodosfsGetattr, prodosFilename_joinPath]
  by_cases hvirtual : virtualFileMode ≠ .none ∧ virtualFileId (joinPath [name]) ≠ .none
  · rw [if_pos hvirtual]
    exact ⟨_, _, rfl, Or.inl le_rfl⟩
  · rw [if_neg hvirtual]
    cases hresolve : m.volume.resolve es (prodosFilename m.extensionMode name) with
    | none =>
      rw [hresolve] at hentry
      rw [Call.bind_of_ret hentry]
      exact ⟨_, _, rfl, isAnswer_toError _⟩
    | some e =>
      rw [hresolve] at hentry
      obtain ⟨st', hst⟩ := statOf_of_described hchain (hstripped e hresolve) hfuel st
        err
      rw [Call.bind_of_ret hentry]
      exact ⟨_, _, Call.bind_of_ret hst, Or.inl le_rfl⟩

theorem getxattr_answers
    (hwhole : ∀ e, m.volume.resolve es name = some e → m.volume.Described e) (attr : Str)
    (size : ℕ) (err : Err) :
    Answers (prodosfsGetxattr m fuel (joinPath [name]) attr size err) := by
  have hentry := getEntry_root hv hit hlength hslash err
  rw [prodosfsGetxattr]
  cases hresolve : m.volume.resolve es name with
  | none =>
    rw [hresolve] at hentry
    rw [Call.bind_of_ret hentry]
    exact ⟨_, _, rfl, isAnswer_toError _⟩
  | some e =>
    rw [hresolve] at hentry
    obtain ⟨attributes, hget, -, hmodest⟩ := getAttributes_of_described hv (hwhole e hresolve)
    rw [Call.bind_of_ret hentry]
    refine .of_eq (Call.bind_of_ret (hget err)) ?_
    cases hvalue : attributes.lookup attr with
    | none => exact ⟨_, _, rfl, Or.inr (by decide : -(-enodata) ∈ errnos)⟩
    | some value =>
      have hlen : value.length < 4096 := (hmodest _ (mem_of_lookup hvalue)).2
      have hcount : IsAnswer (toInt (value.length + 1)) := isAnswer_toInt (by omega)
      simp only [Call.ite_apply]
      split_ifs
      · exact ⟨_, _, rfl, Or.inr (by decide : -(-erange) ∈ errnos)⟩
      · exact ⟨_, _, rfl, hcount⟩
      · exact ⟨_, _, rfl, hcount⟩

theorem listxattr_answers
    (hstripped : ∀ e, m.volume.resolve es (prodosFilename m.extensionMode name) = some e →
      m.volume.Described e) (size : ℕ) (err : Err) :
    Answers (prodosfsListxattr m fuel (joinPath [name]) size err) := by
  have hentry := getEntry_root hv hit hlength
    (not_mem_prodosFilename m.extensionMode hslash) err
  rw [prodosfsListxattr, prodosFilename_joinPath]
  cases hresolve : m.volume.resolve es (prodosFilename m.extensionMode name) with
  | none =>
    rw [hresolve] at hentry
    rw [Call.bind_of_ret hentry]
    exact ⟨_, _, rfl, isAnswer_toError _⟩
  | some e =>
    rw [hresolve] at hentry
    obtain ⟨attributes, hget, hfew, hmodest⟩ :=
      getAttributes_of_described hv (hstripped e hresolve)
    have hperm := m.order_perm attributes
    rw [Call.bind_of_ret hentry]
    refine ⟨_, _, Call.bind_of_ret (hget err), isAnswer_listxattrLoop size ?_ ?_⟩
    · intro a ha
      exact (hmodest a (hperm.mem_iff.mp ha)).1
    · rw [hperm.length_eq]
      omega

/-- A file in the root directory is opened, or it is said why not. -/
theorem openFile_root
    (hpointers : ∀ e ∈ es, Entry.isFile (m.volume.entry e) → m.volume.PointersInRange e)
    (err : Err) : ∃ fh err', openFile m.volume fuel (joinPath [name]) err = (.ret fh, err') := by
  have hentry := getEntry_root hv hit hlength hslash err
  rw [openFile]
  cases hresolve : m.volume.resolve es name with
  | none =>
    rw [hresolve] at hentry
    exact ⟨_, _, Call.bind_of_ret hentry⟩
  | some e =>
    rw [hresolve] at hentry
    rw [Call.bind_of_ret hentry]
    simp only [Call.ite_apply]
    by_cases hfile : Entry.isFile (m.volume.entry e)
    · have hmem := mem_of_resolve hv hresolve hfile
      obtain ⟨h, hcreate⟩ := create_of_pointersInRange hfile (hpointers e hmem hfile) err
      rw [if_neg (by simp [hfile]), Call.bind_of_ret hcreate]
      exact ⟨_, _, rfl⟩
    · rw [if_pos (by simpa using hfile)]
      exact ⟨_, _, rfl⟩

theorem open_answers
    (hpointers : ∀ e ∈ es, Entry.isFile (m.volume.entry e) → m.volume.PointersInRange e)
    (hcatalog : prodosFilename m.extensionMode name = ascii ".CATALOG" → m.volume.BitmapInside)
    (err : Err) : Answers (prodosfsOpen m fuel (joinPath [name]) err) := by
  have hstripped := not_mem_prodosFilename m.extensionMode hslash
  have hentry := getEntry_root hv hit hlength hstripped err
  have hid := virtualFileId_joinPath hstripped
  rw [prodosfsOpen, prodosFilename_joinPath]
  by_cases hname : prodosFilename m.extensionMode name = ascii ".CATALOG"
  · have hparent : parentPath (joinPath [prodosFilename m.extensionMode name]) = ascii "/" := by
      rw [hname]
      decide
    obtain ⟨text, htext⟩ := catalog_of_bitmapInside hv hit hlength (hcatalog hname) hparent err
    rw [if_pos ⟨by decide, by rw [hid, if_pos hname]⟩]
    exact ⟨_, _, Call.bind_of_ret htext, Or.inl le_rfl⟩
  · rw [if_neg (by simp [hid, hname]), if_neg (by simp [hid, hname])]
    have hopen := openFile_root hv hit hlength hstripped hpointers err
    obtain ⟨fh, err', hopen⟩ := hopen
    rw [Call.bind_of_ret hopen]
    cases fh with
    | none => exact ⟨_, _, rfl, isAnswer_toError _⟩
    | some fh => exact ⟨_, _, rfl, Or.inl le_rfl⟩

/-- Only an entry that is known gets an answer. -/
theorem described_of_getxattr {attr : Str} {size : ℕ} {err : Err}
    (hanswers : Answers (prodosfsGetxattr m fuel (joinPath [name]) attr size err))
    (hresolve : m.volume.resolve es name = some e) : m.volume.Described e := by
  have hentry := getEntry_root hv hit hlength hslash err
  rw [hresolve] at hentry
  obtain ⟨a, t, hret, -⟩ := hanswers
  rw [prodosfsGetxattr, Call.bind_of_ret hentry] at hret
  obtain ⟨attributes, t', hget, -⟩ := Call.bind_eq_ret_iff.mp hret
  exact described_of_getAttributes hv hget

theorem described_of_listxattr {size : ℕ} {err : Err}
    (hanswers : Answers (prodosfsListxattr m fuel (joinPath [name]) size err))
    (hresolve : m.volume.resolve es (prodosFilename m.extensionMode name) = some e) :
    m.volume.Described e := by
  have hentry := getEntry_root hv hit hlength
    (not_mem_prodosFilename m.extensionMode hslash) err
  rw [hresolve] at hentry
  obtain ⟨a, t, hret, -⟩ := hanswers
  rw [prodosfsListxattr, prodosFilename_joinPath, Call.bind_of_ret hentry] at hret
  obtain ⟨attributes, t', hget, -⟩ := Call.bind_eq_ret_iff.mp hret
  exact described_of_getAttributes hv hget

omit hit hlength in
theorem bitmapInside_of_open {err : Err}
    (hanswers : Answers (prodosfsOpen m fuel (joinPath [name]) err))
    (hname : prodosFilename m.extensionMode name = ascii ".CATALOG") : m.volume.BitmapInside := by
  have hid := virtualFileId_joinPath (not_mem_prodosFilename m.extensionMode hslash)
  obtain ⟨a, t, hret, -⟩ := hanswers
  rw [prodosfsOpen, prodosFilename_joinPath, if_pos ⟨by decide, by rw [hid, if_pos hname]⟩] at hret
  obtain ⟨text, t', hcatalog, -⟩ := Call.bind_eq_ret_iff.mp hret
  exact bitmapInside_of_catalog hv (by rw [hname]; decide) hcatalog

end

/-- **When the callbacks answer for a listed name.** The entries listed in the root directory of an
accepted volume, whose blocks are linked to an end and whose files have their pointers in range:
the four callbacks answer for the path of one of them if and only if its name, and its name without
a suffix, stand for entries the callbacks know — or for none — and there is a bitmap to count in if
it is the name of the catalogue. -/
theorem callbacks_answer_iff (hv : m.volume.Accepted) (hchain : m.volume.RootChain)
    (hlist : m.Lists fuel es)
    (hpointers : ∀ e ∈ es, Entry.isFile (m.volume.entry e) → m.volume.PointersInRange e)
    (hfuel : 65536 ≤ fuel) :
    ∀ e ∈ es, 47 ∉ m.listedName e →
      (m.AllAnswer fuel (joinPath [m.listedName e]) ↔ m.Answerable es (m.listedName e)) := by
  intro e _ hslash
  obtain ⟨hit, hlength⟩ := hlist.iterates hv
  constructor
  · intro hanswers
    exact {
      whole := fun e' => described_of_getxattr hv hit hlength hslash
        (hanswers.getxattr [] 0 .none)
      stripped := fun e' => described_of_listxattr hv hit hlength hslash
        (hanswers.listxattr 0 .none)
      catalog := bitmapInside_of_open hv hslash (hanswers.opens .none) }
  · intro h
    exact {
      getattr := getattr_answers hv hit hlength hslash hchain hfuel h.stripped
      opens := open_answers hv hit hlength hslash hpointers h.catalog
      getxattr := getxattr_answers hv hit hlength hslash h.whole
      listxattr := listxattr_answers hv hit hlength hslash h.stripped }

end

/-! ### Two small volumes -/

theorem rootChain_small : smallVolume.RootChain :=
  ⟨[.image 1536], blockChain_small.linked, by decide⟩

/-- The root directory of the small volume is listed. -/
theorem lists_small : (smallMount .on).Lists 65536 [textFile, ⟨.image 1536, 12⟩] := by
  have hslots : activeSlots smallVolume (.image 1024) [.image 1536]
      = [textFile, ⟨.image 1536, 12⟩] := by decide
  have hr : Remaining smallVolume 65536 (.image 1024) (.opened (.image 1024))
      [textFile, ⟨.image 1536, 12⟩] := hslots ▸ blockChain_small.remaining (by decide)
  exact Mount.lists_of_iterates accepted_small (hr.iterates (by decide)) (by decide)

/-- The text file of the small volume is listed as `T:TXT`. All callbacks answer for that name,
although only some of them find the file. -/
theorem callbacks_answer_iff_small :
    (smallMount .on).listedName textFile = ascii "T:TXT" ∧
      (smallMount .on).AllAnswer 65536 (joinPath [ascii "T:TXT"]) := by
  have hname : (smallMount .on).listedName textFile = ascii "T:TXT" := by decide
  have hpointers : ∀ e ∈ [textFile, ⟨.image 1536, 12⟩], Entry.isFile (smallVolume.entry e) →
      smallVolume.PointersInRange e := by
    intro e he hfile
    simp only [List.mem_cons, List.not_mem_nil, or_false] at he
    obtain rfl | rfl := he
    · have htype : Entry.storageType (smallVolume.entry textFile) = storageTypeSeedlingFile := by
        decide
      refine ⟨Or.inr (by decide), fun h => absurd htype h, fun h => ?_⟩
      rw [htype] at h
      exact absurd h (by decide)
    · exact absurd hfile (by decide)
  have hiff := callbacks_answer_iff (m := smallMount .on) accepted_small rootChain_small
    lists_small hpointers le_rfl textFile (by decide) (by rw [hname]; decide)
  rw [hname] at hiff
  have hwhole : smallVolume.resolve [textFile, ⟨.image 1536, 12⟩] (ascii "T:TXT") = none := by
    decide
  have hstripped : smallVolume.resolve [textFile, ⟨.image 1536, 12⟩]
      (prodosFilename .on (ascii "T:TXT")) = some textFile := by decide
  refine ⟨hname, hiff.mpr ⟨fun e he => ?_, fun e he => ?_, fun h => absurd h (by decide)⟩⟩
  · cases hwhole.symm.trans he
  · cases hstripped.symm.trans he
    exact Or.inl (by decide)

/-- A volume with a Pascal area, `P`. -/
def pascalVolume : Volume :=
  ⟨Disk.ofImage (.sparse 4096
    (headerBytes 1028 0xF 65 1 8 ++ entryBytes 1067 0x4 80 0xEF 3 0)) fun _ => 0⟩

def pascalMount : Mount := { smallMount .off with volume := pascalVolume }

theorem accepted_pascal : pascalVolume.Accepted := by decide

theorem blockChain_pascal : BlockChain pascalVolume (.image 1024) [] :=
  ⟨.last (by decide), by decide, by decide, by decide⟩

/-- The Pascal area is listed, and then `prodosfs_getattr` throws. -/
theorem not_callbacks_answer_pascal :
    ¬ ∀ (m : Mount) (fuel : ℕ) (es : List EntryPtr), m.volume.Accepted → m.volume.RootChain →
      m.Lists fuel es →
      (∀ e ∈ es, Entry.isFile (m.volume.entry e) → m.volume.PointersInRange e) → 65536 ≤ fuel →
      ∀ e ∈ es, 47 ∉ m.listedName e → m.AllAnswer fuel (joinPath [m.listedName e]) := by
  intro hclaim
  have hslots : activeSlots pascalVolume (.image 1024) [] = [⟨.image 1024, 1⟩] := by decide
  have hr : Remaining pascalVolume 65536 (.image 1024) (.opened (.image 1024))
      [⟨.image 1024, 1⟩] := hslots ▸ blockChain_pascal.remaining (by decide)
  have hit : Iterates pascalVolume 65536 (.opened (.image 1024)) [⟨.image 1024, 1⟩] :=
    hr.iterates (by decide)
  have hlist := Mount.lists_of_iterates (m := pascalMount) accepted_pascal hit (by decide)
  have hname : pascalMount.listedName ⟨.image 1024, 1⟩ = ascii "P" := by decide
  have hanswer := hclaim pascalMount 65536 _ accepted_pascal
    ⟨[], blockChain_pascal.linked, by decide⟩ hlist
    (fun e he hfile => by
      obtain rfl := List.mem_singleton.mp he
      exact absurd hfile (by decide))
    le_rfl ⟨.image 1024, 1⟩ (by decide) (by rw [hname]; decide)
  rw [hname] at hanswer
  have hslash : 47 ∉ ascii "P" := by decide
  have hentry := getEntry_root accepted_pascal hit (by decide) hslash .none
  have hresolve : pascalVolume.resolve [⟨.image 1024, 1⟩] (ascii "P") = some ⟨.image 1024, 1⟩ := by
    decide
  rw [hresolve] at hentry
  obtain ⟨a, t, hret, -⟩ := hanswer.getattr ⟨0, 0, 0, 0, 0, 0, 0⟩ .none
  have hthrow : prodosfsGetattr pascalMount 65536 (joinPath [ascii "P"]) ⟨0, 0, 0, 0, 0, 0, 0⟩ .none
      = (.throw (.runtimeError "unexpected storage type"), .none) := by
    rw [prodosfsGetattr, if_neg (by decide)]
    exact (Call.bind_of_ret hentry).trans (by rfl)
  rw [hthrow] at hret
  cases hret

end Prodosfs
