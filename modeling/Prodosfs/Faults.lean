import Prodosfs.Errors
import Prodosfs.Lines
import Prodosfs.Server

/-!
# What a damaged image cannot do

An image that is accepted may be damaged everywhere but in the header of its root directory: chains
of blocks that do not end, index blocks full of numbers, entries of any kind. The callbacks then
throw exceptions, answer with errors, or do not come back. But they never follow a null pointer, and
never write behind the end of a buffer.

The reason is that an object is made only when its pointers have been set, and that `_Open`, `_Next`
and `Seek` set a pointer when they have a block for it, or throw. So the pointers of an object that
is open are never null, whatever happens to it.

What does lead to undefined behaviour is an open file that is taken for something else. The kernel
knows what it has opened, but `prodosfs_read` and `prodosfs_close` look at the path to tell what
`fi->fh` is, and the catalogue of a directory that is not there is a null pointer.

## What counts as undefined

A fault of the model is one of three things: a null pointer that is followed, an object that is
taken for one of another kind, and a buffer or a counter that overflows. The buffers are the 128
bytes of a line of the catalogue and those for the name of an AppleWorks file. The counter is the
`int` that `prodosfs_read` goes through a text with, and it is why the kernel must not ask for more
bytes than an `int` can count (`Action.Asked`); what it asks for is far less.

## The shape of the proof

`Faultless P` says of a call that from a state with `P` it does not fault and leaves a state with
`P`, however it ends. It has to be of every end, since an exception leaves the handle half way
through a `Seek`, and the next request finds it there. For directories `P` is that the handle has a
header and a block, for files that it has an entry and a block of data, and both only say that the
pointers are there; where they lead to does not matter, as a block outside the image is never
returned by `GetBlock`.

The lines of the catalogue are short enough on every accepted volume, which is a matter of how long
names, numbers and types can get, and is proved in `Lines`.

The server then has the objects of all threads, and its invariant is that all of them are sane. It
is kept by every action, whatever becomes of it (`Server.sane_exec`), and in a sane state an action
faults if and only if it misuses what is open (`Server.exec_fault_iff`).

## What is deliberately absent

Slots are not looked at: those that are not inside their blocks are another matter, and are in
`Slots`. Neither is the opening of the image, which has faults of its own (`Probes`), nor memory
that is not given back. That a call does not fault does not mean that it ends.

## Main definitions

* `NoFault`, `Faultless` — a call whose behaviour is not undefined, whatever else becomes of it
* `Server.Sane` — the pointers of all open objects are there
* `Server.Misused` — an open file is taken for what it is not

## Main results

* `fault_iff_misused` — these are the only actions whose behaviour is undefined
-/

namespace Prodosfs

/-- No undefined behaviour, and a state with `P`. -/
def NoFault {σ : Type} (P : σ → Prop) : Call.Failure Exn → σ → Prop
  | .fault, _ => False
  | .throw _, s => P s
  | .timeout, s => P s

theorem noFault_iff {σ : Type} {P : σ → Prop} {f : Call.Failure Exn} {s : σ} :
    NoFault P f s ↔ f ≠ .fault ∧ P s := by
  cases f <;> simp [NoFault]

/-- From a state with `P`, the behaviour of the call is not undefined, and it leaves such a state,
however it ends. -/
def Faultless {σ α : Type} (P : σ → Prop) (m : Call Exn σ α) : Prop :=
  ∀ s, P s → Call.Leaves (fun _ => P) (NoFault P) m s

section
variable {σ α : Type} {P : σ → Prop} {v : Volume}

/-- Of a call that fails, no more than that it does not fault. -/
theorem Faultless.weaken {m : Call Exn σ α} (h : Faultless P m) {s : σ} (hs : P s) :
    Call.Leaves (fun _ => P) (NoFault fun _ => True) m s :=
  (h s hs).mono (fun _ _ ht => ht) fun _ _ hf => noFault_iff.mpr ⟨(noFault_iff.mp hf).1, trivial⟩

theorem Faultless.ne_fault {m : Call Exn σ α} (h : Faultless P m) {s : σ} (hs : P s) :
    (m s).1 ≠ .fault :=
  (h s hs).ne_fault fun _ hfault => hfault

/-- What comes after it may be undefined. -/
theorem Faultless.bind {β : Type} {m : Call Exn σ α} {f : α → Call Exn σ β} {J : β → σ → Prop}
    {E : Call.Failure Exn → σ → Prop} (h : Faultless P m) (hE : ∀ e t, NoFault P e t → E e t)
    {s : σ} (hs : P s) (hf : ∀ a t, P t → Call.Leaves J E (f a) t) :
    Call.Leaves J E (m >>= f) s :=
  ((h s hs).mono (fun _ _ ht => ht) hE).bind hf

/-- A local object is handed back as it is left. -/
theorem leaves_local {τ : Type} {J : α → τ × σ → Prop} {x : τ} {s : σ}
    {m : Call Exn (τ × σ) α} (h : Call.Leaves J (NoFault fun _ => True) m (x, s)) :
    Call.Leaves (fun a t => J a.1 (a.2, t)) (NoFault fun _ => True) (Call.withLocal x m) s :=
  h.withLocal.mono (fun _ _ ht => ht) fun _ _ ⟨_, hf⟩ =>
    noFault_iff.mpr ⟨(noFault_iff.mp hf).1, trivial⟩

theorem faultless_readBlock (n : ℤ) : Faultless P (v.readBlock n) := fun _ h =>
  .bind (J := fun _ => P) (.ite (fun _ => .throw h) fun _ => .pure h) fun _ _ ht => .pure ht

theorem faultless_getBlock (n : ℤ) : Faultless P (v.getBlock n) := fun s h =>
  .ite (fun _ => .pure h) fun _ => faultless_readBlock n s h

theorem faultless_indexAt (block : BlockPtr) (i : ℕ) : Faultless P (v.indexAt block i) :=
  fun _ h => .ite (fun _ => .throw h) fun _ => .pure h

end

/-! ### Directories -/

/-- The pointers of an open directory. -/
structure DirectoryHandle.Sane (h : DirectoryHandle) : Prop where
  header : h.header.isSome
  block : h.block.isSome

/-- The same, in a state. -/
abbrev DirectoryHandle.SaneAt (s : DirectoryHandle × Err) : Prop := s.1.Sane

section
variable {v : Volume} {fuel : ℕ}

/-- A directory is opened, or the handle is left as it was. -/
theorem leaves_openBlock {P : DirectoryHandle × Err → Prop} {s : DirectoryHandle × Err} (h : P s)
    (keyBlock : BlockPtr) : Call.Leaves (fun _ => DirectoryHandle.SaneAt) (NoFault P)
      (DirectoryHandle.openBlock v keyBlock) s :=
  .ite (fun _ => .throw h) fun _ => .of_eq rfl ⟨rfl, rfl⟩

theorem faultless_next : Faultless DirectoryHandle.SaneAt (DirectoryHandle.next v) := by
  rintro ⟨⟨header, block, blockIndex, entryIndex⟩, err⟩ h
  obtain ⟨key, rfl⟩ := Option.isSome_iff_exists.mp h.header
  obtain ⟨b, rfl⟩ := Option.isSome_iff_exists.mp h.block
  refine .get_bind (.ite (fun _ => .of_eq rfl ⟨rfl, rfl⟩) fun _ => ?_)
  refine .ite (fun _ => .throw h) fun _ => ?_
  exact .bind (faultless_getBlock _ _ h) fun c t ht => .of_eq rfl ⟨rfl, rfl⟩

/-- The induction is on the bound of the loop. -/
theorem faultless_skipInactive :
    Faultless DirectoryHandle.SaneAt (DirectoryHandle.skipInactive v fuel) := by
  induction fuel with
  | zero => exact fun s h => .timeout h
  | succ fuel ih =>
    rintro ⟨⟨header, block, blockIndex, entryIndex⟩, err⟩ h
    obtain ⟨b, rfl⟩ := Option.isSome_iff_exists.mp h.block
    exact .get_bind (.ite (fun _ => .bind (faultless_next _ h) fun _ => ih) fun _ => .pure h)

theorem faultless_nextEntry :
    Faultless DirectoryHandle.SaneAt (DirectoryHandle.nextEntry v fuel) := by
  rintro ⟨⟨header, block, blockIndex, entryIndex⟩, err⟩ h
  obtain ⟨key, rfl⟩ := Option.isSome_iff_exists.mp h.header
  refine .get_bind (.ite (fun _ => .of_eq rfl h) fun _ => ?_)
  refine .bind (faultless_skipInactive _ h) fun e t ht => .modify_bind ?_
  exact .bind (faultless_next _ ⟨ht.header, ht.block⟩) fun _ u hu => .pure hu

/-- The induction is on the bound of the loop. -/
theorem faultless_getEntryLoop {rounds : ℕ} {entry : Option EntryPtr} {path : List Str} :
    Faultless DirectoryHandle.SaneAt (getEntryLoop v fuel rounds entry path) := by
  induction rounds generalizing entry path with
  | zero => exact fun s h => .timeout h
  | succ rounds ih =>
    intro s h
    match entry, path with
    | none, _ => exact .modify_bind (.pure h)
    | some _, [] => exact .modify_bind (.pure h)
    | some e, name :: path =>
      refine .ite (fun _ => .ite (fun _ => .pure h) fun _ => .ite (fun _ => ?_) fun _ => ?_)
        fun _ => .bind (faultless_nextEntry s h) fun entry => ih
      · exact .modify_bind (.pure h)
      · refine .bind (faultless_readBlock _ s h) fun keyBlock t ht => ?_
        refine .bind (leaves_openBlock ht keyBlock) fun _ u hu => ?_
        exact .bind (faultless_nextEntry u hu) fun entry => ih

end

section
variable {v : Volume} {fuel : ℕ}

/-- What is done with a handle of its own, from the moment it is opened. -/
theorem leaves_opened {α : Type} {m : Call Exn (DirectoryHandle × Err) α}
    (h : Faultless DirectoryHandle.SaneAt m) (keyBlock : BlockPtr) (handle : DirectoryHandle)
    (err : Err) : Call.Leaves (fun _ => DirectoryHandle.SaneAt) (NoFault fun _ => True)
      (DirectoryHandle.openBlock v keyBlock >>= fun _ => m) (handle, err) :=
  .bind (leaves_openBlock trivial keyBlock) fun _ _ ht => h.weaken ht

theorem faultless_getEntry (path : Str) :
    Faultless (fun _ => True) (getEntry v fuel path) := by
  intro err _
  have hloop : Faultless DirectoryHandle.SaneAt (do
      let entry ← DirectoryHandle.nextEntry v fuel
      getEntryLoop v fuel fuel entry (splitPath path)) := fun s hs =>
    .bind (faultless_nextEntry s hs) fun _ => faultless_getEntryLoop
  refine .ite (fun _ => .pure trivial) fun _ => ?_
  exact .bind (leaves_local (leaves_opened hloop _ _ err)) fun _ _ _ => .pure trivial

theorem leaves_create (keyBlock : BlockPtr) (err : Err) :
    Call.Leaves (fun dh _ => dh.Sane) (NoFault fun _ => True)
      (DirectoryHandle.create v keyBlock) err :=
  .bind (leaves_local (leaves_openBlock trivial keyBlock)) fun _ _ h => .pure h

/-- The handle on a directory that is opened has its pointers. -/
theorem leaves_openDirectory (path : Str) (err : Err) :
    Call.Leaves (fun dh _ => ∀ h, dh = some h → h.Sane) (NoFault fun _ => True)
      (openDirectory v fuel path) err := by
  have hcreate : ∀ keyBlock err, Call.Leaves (fun dh _ => ∀ h, dh = some h → h.Sane)
      (NoFault fun _ => True) (do
        let handle ← DirectoryHandle.create v keyBlock
        pure (some handle)) err := fun keyBlock err =>
    .bind (leaves_create keyBlock err) fun dh _ hdh => .pure fun h hh => Option.some.inj hh ▸ hdh
  refine .ite (fun _ => hcreate _ err) fun _ => ?_
  refine .bind (faultless_getEntry path err trivial) fun entry err _ => ?_
  cases entry with
  | none => exact .pure fun h hh => absurd hh (by simp)
  | some e =>
    refine .ite (fun _ => .set_bind (.pure fun h hh => absurd hh (by simp))) fun _ => ?_
    exact .bind (faultless_readBlock _ err trivial) fun keyBlock err _ => hcreate keyBlock err

end

/-! ### Files -/

/-- The pointers of an open file that `Seek` and `Read` use. -/
structure FileHandle.Sane (h : FileHandle) : Prop where
  entry : h.entry.isSome
  data : h.data.isSome

/-- The same, in a state. -/
abbrev FileHandle.SaneAt (s : FileHandle × Err) : Prop := s.1.Sane

section
variable {v : Volume} {fuel : ℕ}

theorem leaves_createFile (e : EntryPtr) (err : Err) :
    Call.Leaves (fun h _ => h.Sane) (NoFault fun _ => True) (FileHandle.create v e) err := by
  refine .ite (fun _ => ?_) fun _ => .ite (fun _ => ?_) fun _ => .ite (fun _ => ?_) fun _ =>
    .throw trivial
  · exact .bind (faultless_getBlock _ err trivial) fun _ _ _ => .pure ⟨rfl, rfl⟩
  · refine .bind (faultless_getBlock _ err trivial) fun index _ _ => ?_
    refine .bind (faultless_indexAt index 0 _ trivial) fun _ _ _ => ?_
    exact .bind (faultless_getBlock _ _ trivial) fun _ _ _ => .pure ⟨rfl, rfl⟩
  · refine .bind (faultless_getBlock _ err trivial) fun master _ _ => ?_
    refine .bind (faultless_indexAt master 0 _ trivial) fun _ _ _ => ?_
    refine .bind (faultless_getBlock _ _ trivial) fun index _ _ => ?_
    refine .bind (faultless_indexAt index 0 _ trivial) fun _ _ _ => ?_
    exact .bind (faultless_getBlock _ _ trivial) fun _ _ _ => .pure ⟨rfl, rfl⟩

theorem leaves_openFile (path : Str) (err : Err) :
    Call.Leaves (fun fh _ => ∀ h, fh = some h → h.Sane) (NoFault fun _ => True)
      (openFile v fuel path) err := by
  refine .bind (faultless_getEntry path err trivial) fun entry err _ => ?_
  cases entry with
  | none => exact .pure fun h hh => absurd hh (by simp)
  | some e =>
    refine .ite (fun _ => .set_bind (.pure fun h hh => absurd hh (by simp))) fun _ => ?_
    exact .bind (leaves_createFile e err) fun fh _ hfh =>
      .pure fun h hh => Option.some.inj hh ▸ hfh

theorem faultless_seekMaster (offset : ℕ) :
    Faultless FileHandle.SaneAt (FileHandle.seekMaster v offset) := by
  rintro ⟨⟨entry, master, index, data, position⟩, err⟩ h
  refine .get_bind ?_
  cases master with
  | none => exact .pure h
  | some master =>
    refine .bind (faultless_indexAt master _ _ h) fun _ t ht => ?_
    refine .bind (faultless_getBlock _ t ht) fun index u hu => ?_
    exact .modify_bind (.pure ⟨hu.entry, hu.data⟩)

theorem faultless_seekIndex (offset : ℕ) :
    Faultless FileHandle.SaneAt (FileHandle.seekIndex v offset) := by
  rintro ⟨⟨entry, master, index, data, position⟩, err⟩ h
  refine .get_bind ?_
  cases index with
  | none => exact .pure h
  | some index =>
    refine .bind (faultless_indexAt index _ _ h) fun _ t ht => ?_
    exact .bind (faultless_getBlock _ t ht) fun data u hu => .of_eq rfl ⟨hu.entry, rfl⟩

/-- `Seek` changes the pointers for others, or leaves them as they are. -/
theorem faultless_seek (offset whence : ℤ) :
    Faultless FileHandle.SaneAt (FileHandle.seek v offset whence) := by
  rintro ⟨⟨entry, master, index, data, position⟩, err⟩ h
  obtain ⟨e, rfl⟩ := Option.isSome_iff_exists.mp h.entry
  refine .ite (fun _ => .throw h) fun _ => .get_bind ?_
  refine .ite (fun _ => .modify_bind (.pure h)) fun _ => .modify_bind ?_
  refine .bind (faultless_seekMaster _ _ ⟨h.entry, h.data⟩) fun offset t ht => ?_
  exact .bind (faultless_seekIndex offset t ht) fun _ u hu => .get_bind (.pure hu)

/-- The induction is on the bound of the loop. -/
theorem faultless_readLoop {rounds : ℕ} :
    ∀ size, Faultless FileHandle.SaneAt (FileHandle.readLoop v rounds size) := by
  induction rounds with
  | zero =>
    rintro (_ | size) s h
    · exact .pure h
    · exact .timeout h
  | succ rounds ih =>
    rintro (_ | size)
    · exact fun s h => .pure h
    rintro ⟨⟨entry, master, index, data, position⟩, err⟩ h
    obtain ⟨b, rfl⟩ := Option.isSome_iff_exists.mp h.data
    refine .get_bind (.bind (faultless_seek _ _ _ h) fun _ t ht => ?_)
    exact .bind (ih _ t ht) fun _ u hu => .pure hu

theorem faultless_eof : Faultless FileHandle.SaneAt (FileHandle.eof v) := by
  rintro ⟨⟨entry, master, index, data, position⟩, err⟩ h
  obtain ⟨e, rfl⟩ := Option.isSome_iff_exists.mp h.entry
  exact .get_bind (.pure h)

theorem faultless_type : Faultless FileHandle.SaneAt (FileHandle.type v) := by
  rintro ⟨⟨entry, master, index, data, position⟩, err⟩ h
  obtain ⟨e, rfl⟩ := Option.isSome_iff_exists.mp h.entry
  exact .get_bind (.pure h)

/-- A buffer is filled, and gone through unless there are more bytes than an `int` can count. -/
theorem leaves_readBuffer (bufsiz : ℕ) {s : FileHandle × Err} (h : FileHandle.SaneAt s) :
    Call.Leaves (fun _ => FileHandle.SaneAt)
      (fun f t => FileHandle.SaneAt t ∧ (f = .fault → 2 ^ 31 ≤ bufsiz))
      (readBuffer v bufsiz) s := by
  have hE : ∀ f t, NoFault FileHandle.SaneAt f t →
      FileHandle.SaneAt t ∧ (f = .fault → 2 ^ 31 ≤ bufsiz) := by
    intro f t hf
    obtain ⟨hne, ht⟩ := noFault_iff.mp hf
    exact ⟨ht, fun hfault => absurd hfault hne⟩
  refine .bind ((faultless_readLoop bufsiz s h).eqn.mono (fun _ _ ht => ht) hE)
    fun buf t ⟨hread, ht⟩ => ?_
  have hlength : buf.length = bufsiz := length_of_readLoop hread
  have hrest : ∀ u, FileHandle.SaneAt u → Call.Leaves (fun _ => FileHandle.SaneAt)
      (fun f t => FileHandle.SaneAt t ∧ (f = .fault → 2 ^ 31 ≤ bufsiz)) (do
        let type ← FileHandle.type v
        if textMode = .unix ∧ type = fileTypeText then
          if 2 ^ 31 ≤ buf.length then Call.fault
          else pure (toInt buf.length, buf.map toUnixText)
        else pure (toInt buf.length, buf)) u := by
    refine fun u hu => faultless_type.bind hE hu fun type w hw => ?_
    refine .ite (fun _ => .ite (fun hlong => ?_) fun _ => .pure hw) fun _ => .pure hw
    exact .fault ⟨hw, fun _ => hlength ▸ hlong⟩
  refine .ite (fun _ => faultless_eof.bind hE ht fun eof u hu => ?_) fun _ => .pure_bind ?_
  · exact .ite (fun _ => .get_bind (.pure hu)) fun _ => hrest u hu
  · exact .ite (fun _ => .get_bind (.pure ht)) fun _ => hrest t ht

theorem faultless_readBuffer {bufsiz : ℕ} (hbufsiz : bufsiz < 2 ^ 31) :
    Faultless FileHandle.SaneAt (readBuffer v bufsiz) := fun _ h =>
  (leaves_readBuffer bufsiz h).mono (fun _ _ ht => ht) fun _ _ ⟨ht, hlong⟩ =>
    noFault_iff.mpr ⟨fun hfault => absurd (hlong hfault) (Nat.not_le.mpr hbufsiz), ht⟩

theorem faultless_readFile {bufsiz : ℕ} (hbufsiz : bufsiz < 2 ^ 31) (off : ℤ) :
    Faultless FileHandle.SaneAt (readFile v bufsiz off) := fun s h =>
  .bind (faultless_seek off seekSet s h) fun _ t ht =>
    .ite (fun _ => .get_bind (.pure ht)) fun _ => faultless_readBuffer hbufsiz t ht

/-- The pointers are there after a read of any number of bytes. -/
theorem sane_readFile (bufsiz : ℕ) (off : ℤ) {s : FileHandle × Err} (h : FileHandle.SaneAt s) :
    FileHandle.SaneAt (readFile v bufsiz off s).2 := by
  refine Call.Leaves.elim ((faultless_seek off seekSet).bind
    (fun _ _ hf => (noFault_iff.mp hf).2) h fun pos t ht => ?_)
  refine .ite (fun _ => .get_bind (.pure ht)) fun _ => ?_
  exact (leaves_readBuffer bufsiz ht).mono (fun _ _ hu => hu) fun _ _ hu => hu.1

end

/-! ### The catalogue -/

section
variable {σ : Type} {P : σ → Prop} {v : Volume} {fuel : ℕ}

theorem faultless_volumeHeader : Faultless P v.volumeHeader := fun _ h =>
  .ite (fun _ => .throw h) fun _ => .pure h

/-- A field of the header of the volume. -/
theorem faultless_field {α : Type} (field : Block → α) : Faultless P (do
    let volume ← v.volumeHeader
    pure (field volume)) := fun s h =>
  .bind (faultless_volumeHeader s h) fun _ _ ht => .pure ht

/-- The induction is on the bound of the loop. -/
theorem faultless_countBlocksLoop {rounds : ℕ} :
    ∀ pointer blocks, Faultless P (v.countBlocksLoop rounds pointer blocks) := by
  induction rounds with
  | zero =>
    rintro pointer (_ | blocks) s h
    · exact .pure h
    · exact .timeout h
  | succ rounds ih =>
    rintro pointer (_ | blocks) s h
    · exact .pure h
    refine .bind (faultless_readBlock _ s h) fun bitmap t ht => ?_
    exact .bind (ih _ _ t ht) fun _ u hu => .pure hu

theorem faultless_countBlocksUsed : Faultless P v.countBlocksUsed :=
  faultless_countBlocksLoop _ _

/-- The induction is on the bound of the loop. -/
theorem faultless_countDirectoryLoop {rounds : ℕ} :
    ∀ pointer numBlocks, Faultless P (v.countDirectoryLoop rounds pointer numBlocks) := by
  induction rounds with
  | zero =>
    rintro (_ | pointer) numBlocks s h
    · exact .pure h
    · exact .timeout h
  | succ rounds ih =>
    rintro (_ | pointer) numBlocks s h
    · exact .pure h
    exact .bind (faultless_readBlock _ s h) fun block t ht => ih _ _ t ht

/-- The line of an entry fits, so that none is written behind the end of its buffer. The induction
is on the bound of the loop. -/
theorem faultless_catalogLoop {rounds : ℕ} :
    ∀ output, Faultless DirectoryHandle.SaneAt (catalogLoop v fuel rounds output) := by
  induction rounds with
  | zero => exact fun _ s h => .timeout h
  | succ rounds ih =>
    intro output s h
    rw [catalogLoop]
    refine .bind (faultless_nextEntry s h) fun entry t ht => ?_
    cases entry with
    | none => exact .pure ht
    | some e =>
      have hline := formatLine_of_lt (length_entryLine_lt (v.entry e)) t
      have hrest := ih (output ++ entryLine (v.entry e)) t ht
      dsimp only
      rwa [Call.Leaves, Call.bind_of_ret hline]

/-- The line of the totals fits, whatever number of blocks is in use. -/
theorem length_totalsLine_of_countBlocksUsed (hv : v.Accepted) {used : ℤ} {s t : σ}
    (hused : v.countBlocksUsed s = (.ret used, t)) :
    (totalsLine v.totalBlocks used).length < 128 := by
  rw [countBlocksUsed_eq hv (bitmapInside_of_countBlocksUsed hv hused)] at hused
  cases hused
  obtain ⟨hlo, hhi⟩ := balance_bounds v.bitmap v.disk.numBlocks
  have hblocks := hv.numBlocks_lt
  exact length_totalsLine_lt (leRead16_lt _) (by omega) (by omega)

/-- The title of a directory that is found fits. -/
theorem length_titleLine_of_openDirectory {pathdir : Str} {err err' : Err} {dh : DirectoryHandle}
    (h : openDirectory v fuel pathdir err = (.ret (some dh), err')) :
    (titleLine (Entry.fileName v.header) pathdir).length < 128 := by
  have htitle := length_titleLine_le v.header pathdir
  have hpath := length_cStr_of_openDirectory h
  split at htitle <;> omega

/-- **The catalogue of a damaged directory** is made, or given up with an exception. -/
theorem faultless_catalog (hv : v.Accepted) (path : Str) :
    Faultless (fun _ => True) (catalog v fuel path) := by
  intro err _
  refine .bind (leaves_openDirectory (parentPath path) err).eqn fun dh err' ⟨hopen, hdh⟩ => ?_
  cases dh with
  | none => exact .pure trivial
  | some dh =>
    have htitle := length_titleLine_of_openDirectory hopen
    refine .bind_of_ret (name_of_accepted hv err') ?_
    refine .bind_of_ret (formatLine_of_lt htitle err') ?_
    refine .bind_of_ret (formatLine_of_lt (by decide) err') ?_
    have hsane : DirectoryHandle.SaneAt (dh, err') := hdh dh rfl
    refine .bind (leaves_local ((faultless_catalogLoop _).weaken hsane)) fun output err _ => ?_
    refine .bind_of_ret (totalBlocksOf_of_accepted hv err) ?_
    refine .bind (faultless_countBlocksUsed err trivial).eqn fun used err ⟨hused, _⟩ => ?_
    have htotals := length_totalsLine_of_countBlocksUsed hv hused
    exact .bind_of_ret (formatLine_of_lt htotals err) (.pure trivial)

end

/-! ### The callbacks -/

/-- What `open` puts into `fi->fh`. -/
def Fh.Sane : Fh → Prop
  | .catalog _ => True
  | .file h => h.Sane

/-- The same, in a state. -/
abbrev Fh.SaneAt (s : Fh × Err) : Prop := s.1.Sane

section
variable {σ : Type} {P : σ → Prop} {m : Mount} {fuel : ℕ}

theorem faultless_getAttributes (e : EntryPtr) : Faultless P (getAttributes m e) := by
  intro s h
  refine .ite (fun _ => .ite (fun _ => ?_) fun _ => .pure h) fun _ =>
    .ite (fun _ => ?_) fun _ => .throw h
  · obtain ⟨name, hname, -⟩ := appleWorksFileName_of_entry (σ := σ) (m.volume.entry e)
    exact .bind_of_ret (hname s) (.pure h)
  · refine .bind (faultless_field Entry.fileName s h) fun _ t ht => ?_
    refine .bind (faultless_field fileCount t ht) fun _ t ht => ?_
    refine .bind (faultless_field (fun volume => leRead16 fun k => volume (37 + k)) t ht)
      fun _ t ht => ?_
    exact .bind (faultless_countBlocksUsed t ht) fun _ t ht => .pure ht

theorem faultless_statOf (e : EntryPtr) (st : Stat) :
    Faultless (fun _ => True) (statOf m fuel e st) := by
  intro err _
  refine .ite (fun _ => ?_) fun _ => .ite (fun _ => .pure trivial) fun _ => .throw trivial
  exact .bind (faultless_countDirectoryLoop _ _ err trivial) fun _ _ _ => .pure trivial

variable (m fuel)

theorem faultless_getattr (path : Str) (st : Stat) :
    Faultless (fun _ => True) (prodosfsGetattr m fuel path st) := by
  intro err _
  refine .ite (fun _ => .pure trivial) fun _ => ?_
  refine .bind (faultless_getEntry _ err trivial) fun entry err _ => ?_
  cases entry with
  | none => exact .get_bind (.pure trivial)
  | some e => exact .bind (faultless_statOf e st err trivial) fun _ _ _ => .pure trivial

theorem faultless_getxattr (path name : Str) (size : ℕ) :
    Faultless (fun _ => True) (prodosfsGetxattr m fuel path name size) := by
  intro err _
  refine .bind (faultless_getEntry _ err trivial) fun entry err _ => ?_
  cases entry with
  | none => exact .get_bind (.pure trivial)
  | some e =>
    refine .bind (faultless_getAttributes e err trivial) fun attributes err _ => ?_
    cases attributes.lookup name with
    | none => exact .pure trivial
    | some value =>
      exact .ite (fun _ => .ite (fun _ => .pure trivial) fun _ => .pure trivial) fun _ =>
        .pure trivial

theorem faultless_listxattr (path : Str) (size : ℕ) :
    Faultless (fun _ => True) (prodosfsListxattr m fuel path size) := by
  intro err _
  refine .bind (faultless_getEntry _ err trivial) fun entry err _ => ?_
  cases entry with
  | none => exact .get_bind (.pure trivial)
  | some e =>
    exact .bind (faultless_getAttributes e err trivial) fun _ _ _ => .pure trivial

theorem leaves_open (hv : m.volume.Accepted) (path : Str) (err : Err) :
    Call.Leaves (fun r _ => ∀ fh, r.2 = some fh → fh.Sane) (NoFault fun _ => True)
      (prodosfsOpen m fuel path) err := by
  refine .ite (fun _ => ?_) fun _ => .ite (fun _ => .throw trivial) fun _ => ?_
  · refine .bind (faultless_catalog hv _ err trivial) fun text _ _ => .pure fun fh hfh => ?_
    exact Option.some.inj hfh ▸ trivial
  · refine .bind (leaves_openFile _ err) fun fh err hopen => ?_
    cases fh with
    | none => exact .get_bind (.pure fun fh hfh => absurd hfh (by simp))
    | some h => exact .pure fun fh hfh => Option.some.inj hfh ▸ hopen h rfl

/-- The parts of a virtual file that are asked for. -/
theorem leaves_read_catalog {path : Str} (hpath : virtualFileId path = .catalog)
    (text : Str) (bufsiz : ℕ) (off : ℤ) (err : Err) :
    Call.Leaves (fun _ => Fh.SaneAt) (NoFault Fh.SaneAt) (prodosfsRead m path bufsiz off)
      (.catalog (some text), err) := by
  refine .ite (fun _ => .get_bind ?_) fun hnot => absurd (isVirtual_iff.mpr hpath) hnot
  refine .bind (J := fun _ => Fh.SaneAt) (.ite (fun _ => .throw trivial) fun _ => .pure trivial) ?_
  exact fun _ _ ht => .pure ht

/-- What `open` has returned. -/
theorem sane_of_open {path : Str} {err err' : Err} {r : ℤ} {fh : Fh}
    (hopen : prodosfsOpen m fuel path err = (.ret (r, some fh), err')) : fh.Sane := by
  rw [prodosfsOpen] at hopen
  split at hopen
  · obtain ⟨text, t, -, hret⟩ := Call.bind_eq_ret_iff.mp hopen
    cases hret
    trivial
  · split at hopen
    · cases hopen
    · obtain ⟨h, t, hfile, hret⟩ := Call.bind_eq_ret_iff.mp hopen
      cases h with
      | none => cases hret
      | some h =>
        cases hret
        exact (leaves_openFile _ err).of_ret hfile h rfl

theorem leaves_opendir (path : Str) (err : Err) :
    Call.Leaves (fun r _ => ∀ dh, r.2 = some dh → dh.Sane) (NoFault fun _ => True)
      (prodosfsOpendir m fuel path) err := by
  refine .bind (leaves_openDirectory path err) fun dh err hopen => ?_
  cases dh with
  | none => exact .get_bind (.pure fun dh hdh => absurd hdh (by simp))
  | some h => exact .pure fun dh hdh => Option.some.inj hdh ▸ hopen h rfl

/-- The induction is on the bound of the loop. -/
theorem faultless_readdirLoop {filler : List Str → Str → Bool} {rounds : ℕ} :
    ∀ names, Faultless DirectoryHandle.SaneAt (readdirLoop m fuel filler rounds names) := by
  induction rounds with
  | zero => exact fun _ s h => .timeout h
  | succ rounds ih =>
    intro names s h
    refine .bind (faultless_nextEntry s h) fun entry t ht => ?_
    cases entry with
    | none => exact .pure ht
    | some e => exact .ite (fun _ => .pure ht) fun _ => ih _ t ht

theorem faultless_readdir (filler : List Str → Str → Bool) :
    Faultless DirectoryHandle.SaneAt (prodosfsReaddir m fuel filler) := by
  intro s h
  refine .bind (faultless_readdirLoop m fuel _ s h) fun names t ht => .get_bind ?_
  exact .ite (fun _ => .pure ht) fun _ => .pure ht

end

/-! ### What is open -/

/-- The pointers of an open object. -/
def Object.Sane : Object → Prop
  | .opened fh => fh.Sane
  | .directory dh => dh.Sane

/-- The kernel asks for no more bytes than an `int` can count. -/
def Action.Asked : Action → Prop
  | .read _ _ bufsiz _ => bufsiz < 2 ^ 31
  | _ => True

namespace Server

/-- The pointers of all open objects are there, and buffers are not too large. -/
structure Sane (s : Server) : Prop where
  objects : ∀ fi object, s.objects fi = some object → object.Sane
  reading : ∀ thread r, s.reading thread = some r → r.bufsiz < 2 ^ 31

/-- An open file. -/
def IsFile (s : Server) (fi : ℕ) : Prop := ∃ h, s.objects fi = some (.opened (.file h))

/-- An open catalogue, or the null pointer that stands for it. -/
def IsCatalog (s : Server) (fi : ℕ) : Prop := ∃ text, s.objects fi = some (.opened (.catalog text))

/-- An open catalogue. -/
def IsText (s : Server) (fi : ℕ) : Prop :=
  ∃ text, s.objects fi = some (.opened (.catalog (some text)))

/-- An open directory. -/
def IsDirectory (s : Server) (fi : ℕ) : Prop := ∃ dh, s.objects fi = some (.directory dh)

/-- What is open is taken for something else: a file for the catalogue of a directory, or a
catalogue for a file, because of a path; a null pointer for the text of a catalogue; something that
is no longer open for something that is. -/
def Misused (s : Server) : ℕ × Action → Prop
  | (_, .read path fi _ _) =>
    if virtualFileId path = .catalog then ¬ s.IsText fi else ¬ s.IsFile fi
  | (thread, .readOn) => ∀ r, s.reading thread = some r → ¬ s.IsFile r.fi
  | (_, .release path fi) =>
    if virtualFileId path = .catalog then ¬ s.IsCatalog fi else ¬ s.IsFile fi
  | (_, .readdir fi _) => ¬ s.IsDirectory fi
  | (_, .releasedir fi) => ¬ s.IsDirectory fi
  | _ => False

section
variable {s : Server} {thread fi : ℕ}

theorem sane_start (errors : ℕ → Err) : (start errors).Sane :=
  ⟨fun _ _ h => absurd h (by simp [start]), fun _ _ h => absurd h (by simp [start])⟩

theorem Sane.erred (h : s.Sane) (err : Err) : (s.erred thread err).Sane :=
  ⟨h.objects, h.reading⟩

theorem Sane.stored (h : s.Sane) {object : Option Object}
    (hobject : ∀ o, object = some o → o.Sane) : (s.stored fi object).Sane := by
  refine ⟨fun fi' o ho => ?_, h.reading⟩
  rw [stored_objects, Function.update_apply] at ho
  split at ho
  · exact hobject o ho
  · exact h.objects fi' o ho

theorem Sane.halfway (h : s.Sane) {reading : Option Reading}
    (hreading : ∀ r, reading = some r → r.bufsiz < 2 ^ 31) : (s.halfway thread reading).Sane := by
  refine ⟨h.objects, fun thread' r hr => ?_⟩
  rw [halfway_reading, Function.update_apply] at hr
  split at hr
  · exact hreading r hr
  · exact h.reading thread' r hr

/-! ### Parts of callbacks -/

variable {α : Type}

theorem leaves_onThread (hs : s.Sane) {J : α → Prop} {call : Call Exn Err α}
    (h : Call.Leaves (fun a _ => J a) (NoFault fun _ => True) call (s.errors thread)) :
    Call.Leaves (fun a t => t.Sane ∧ J a) (NoFault Sane) (onThread thread call) s := by
  have hpart : Call.Leaves _ _ (onThread thread call) s := Call.Leaves.onPart h
  refine hpart.mono ?_ ?_
  · rintro a t ⟨err, rfl, ha⟩
    exact ⟨hs.erred err, ha⟩
  · rintro f t ⟨err, rfl, hf⟩
    exact noFault_iff.mpr ⟨(noFault_iff.mp hf).1, hs.erred err⟩

/-- A part of the state that stays as it should be. -/
theorem leaves_onPart {τ : Type} {Q : τ → Prop} {read : Server → τ} {write : Server → τ → Server}
    (hwrite : ∀ t, Q t → (write s t).Sane) {call : Call Exn τ α}
    (h : Call.Leaves (fun _ => Q) (NoFault Q) call (read s)) :
    Call.Leaves (fun _ => Sane) (NoFault Sane) (Call.onPart read write call) s := by
  refine h.onPart.mono ?_ ?_
  · rintro a t ⟨u, rfl, hu⟩
    exact hwrite u hu
  · rintro f t ⟨u, rfl, hf⟩
    obtain ⟨hne, hu⟩ := noFault_iff.mp hf
    exact noFault_iff.mpr ⟨hne, hwrite u hu⟩

theorem leaves_onOpened (hs : s.Sane) {fh : Fh} (hobject : s.objects fi = some (.opened fh))
    {call : Call Exn (Fh × Err) α}
    (h : Call.Leaves (fun _ => Fh.SaneAt) (NoFault Fh.SaneAt) call (fh, s.errors thread)) :
    Call.Leaves (fun _ => Sane) (NoFault Sane) (onOpened thread fi call) s := by
  rw [Call.Leaves, onOpened, hobject]
  refine leaves_onPart (fun t ht => ?_) h
  have hafter : (Object.opened t.1).Sane := ht
  exact (hs.stored fun o ho => Option.some.inj ho ▸ hafter).erred t.2

theorem leaves_onDirectory (hs : s.Sane) {dh : DirectoryHandle}
    (hobject : s.objects fi = some (.directory dh)) {call : Call Exn (DirectoryHandle × Err) α}
    (h : Faultless DirectoryHandle.SaneAt call) :
    Call.Leaves (fun _ => Sane) (NoFault Sane) (onDirectory thread fi call) s := by
  rw [Call.Leaves, onDirectory, hobject]
  refine leaves_onPart (fun t ht => ?_) (h _ (hs.objects fi _ hobject))
  have hafter : (Object.directory t.1).Sane := ht
  exact (hs.stored fun o ho => Option.some.inj ho ▸ hafter).erred t.2

/-- A call on an open file. -/
theorem leaves_onFile (hs : s.Sane) {h : FileHandle}
    (hobject : s.objects fi = some (.opened (.file h))) {call : Call Exn (FileHandle × Err) α}
    (hcall : Faultless FileHandle.SaneAt call) :
    Call.Leaves (fun _ => Sane) (NoFault Sane) (onOpened thread fi (onFile call)) s := by
  refine leaves_onOpened hs hobject ?_
  have hleaves := hcall (h, s.errors thread) (hs.objects fi _ hobject)
  rw [Call.Leaves] at hleaves
  rcases hret : call (h, s.errors thread) with ⟨a | e | _ | _, t⟩
  all_goals
    rw [hret] at hleaves
    simp only [Call.Leaves, onFile, hret]
    exact hleaves

/-- What is not a file for the call is undefined. -/
theorem onOpened_fault {call : Call Exn (Fh × Err) α}
    (h : ∀ fh, s.objects fi = some (.opened fh) → ∀ err, call (fh, err) = (.fault, (fh, err))) :
    onOpened thread fi call s = (.fault, s) := by
  cases hobject : s.objects fi with
  | none => rw [onOpened, hobject]
  | some object =>
    cases object with
    | directory dh => rw [onOpened, hobject]
    | opened fh =>
      rw [onOpened_of_eq hobject (h fh hobject _), stored, ← hobject, Function.update_eq_self,
        erred, Function.update_eq_self]

theorem onDirectory_fault (h : ¬ s.IsDirectory fi) {call : Call Exn (DirectoryHandle × Err) α} :
    onDirectory thread fi call s = (.fault, s) := by
  rw [onDirectory]
  split
  · exact absurd ⟨_, ‹_›⟩ h
  · rfl

theorem onFile_fault (h : ¬ s.IsFile fi) {call : Call Exn (FileHandle × Err) α} :
    onOpened thread fi (onFile call) s = (.fault, s) := by
  refine onOpened_fault fun fh hobject err => ?_
  cases fh with
  | catalog text => rfl
  | file handle => exact absurd ⟨handle, hobject⟩ h


/-! ### Actions -/

variable (m : Mount) (fuel : ℕ)

theorem exec_read_of_misused {path : Str} {bufsiz : ℕ} {off : ℤ}
    (h : s.Misused (thread, .read path fi bufsiz off)) :
    exec m fuel (thread, .read path fi bufsiz off) s = (.fault, s) := by
  rw [Misused] at h
  rw [exec]
  by_cases hpath : virtualFileId path = .catalog
  · rw [if_pos hpath] at h
    have hfault : onOpened thread fi (prodosfsRead m path bufsiz off) s = (.fault, s) := by
      refine onOpened_fault fun fh hobject err => ?_
      rw [prodosfsRead, if_pos (isVirtual_iff.mpr hpath), Call.get_bind_apply]
      cases fh with
      | file handle => rfl
      | catalog text =>
        cases text with
        | none => rfl
        | some text => exact absurd ⟨text, hobject⟩ h
    rw [if_pos (isVirtual_iff.mpr hpath), Call.bind_apply, hfault]
  · rw [if_neg hpath] at h
    rw [if_neg (isVirtual_iff.not.mpr hpath), Call.bind_apply, onFile_fault h]

theorem exec_release_of_misused {path : Str} (h : s.Misused (thread, .release path fi)) :
    exec m fuel (thread, .release path fi) s = (.fault, s) := by
  rw [Misused] at h
  have hfault : onOpened thread fi (prodosfsClose path) s = (.fault, s) := by
    refine onOpened_fault fun fh hobject err => ?_
    rw [prodosfsClose]
    by_cases hpath : virtualFileId path = .catalog
    · rw [if_pos hpath] at h
      rw [if_pos (isVirtual_iff.mpr hpath), Call.get_bind_apply]
      cases fh with
      | catalog text => exact absurd ⟨text, hobject⟩ h
      | file handle => rfl
    · rw [if_neg hpath] at h
      rw [if_neg (isVirtual_iff.not.mpr hpath)]
      cases fh with
      | catalog text => rfl
      | file handle => exact absurd ⟨handle, hobject⟩ h
  rw [exec, Call.bind_apply, hfault]

/-- **What is misused is undefined,** and nothing has become of it yet. -/
theorem exec_of_misused {a : ℕ × Action} (hs : s.Sane) (h : s.Misused a) :
    ∃ t, exec m fuel a s = (.fault, t) ∧ t.Sane := by
  match a with
  | (thread, .read path fi bufsiz off) => exact ⟨s, exec_read_of_misused m fuel h, hs⟩
  | (thread, .release path fi) => exact ⟨s, exec_release_of_misused m fuel h, hs⟩
  | (thread, .readdir fi filler) =>
    exact ⟨s, by rw [exec, Call.bind_apply, onDirectory_fault h], hs⟩
  | (thread, .releasedir fi) =>
    exact ⟨s, by rw [exec, Call.bind_apply, onDirectory_fault h], hs⟩
  | (thread, .readOn) =>
    rw [exec, Call.get_bind_apply]
    cases hreading : s.reading thread with
    | none => exact ⟨s, rfl, hs⟩
    | some r =>
      obtain ⟨fi, bufsiz⟩ := r
      refine ⟨s.halfway thread none, ?_, hs.halfway fun _ h => absurd h (by simp)⟩
      have hfault : ¬ (s.halfway thread none).IsFile fi := h _ hreading
      dsimp only
      rw [Call.modify_bind_apply, Call.bind_apply, onFile_fault hfault]

theorem leaves_exec_read (hs : s.Sane) {path : Str} {bufsiz : ℕ} {off : ℤ}
    (hasked : bufsiz < 2 ^ 31) (h : ¬ s.Misused (thread, .read path fi bufsiz off)) :
    Call.Leaves (fun _ => Sane) (NoFault Sane) (exec m fuel (thread, .read path fi bufsiz off))
      s := by
  rw [Misused] at h
  refine .ite (fun hvirtual => ?_) fun hnot => ?_
  · rw [if_pos (isVirtual_iff.mp hvirtual), not_not] at h
    obtain ⟨text, hobject⟩ := h
    have hpath := isVirtual_iff.mp hvirtual
    have hread := leaves_read_catalog m hpath text bufsiz off (s.errors thread)
    exact .bind (leaves_onOpened hs hobject hread) fun _ _ ht => .pure ht
  · rw [if_neg (isVirtual_iff.not.mp hnot), not_not] at h
    obtain ⟨handle, hobject⟩ := h
    refine .bind (leaves_onFile hs hobject (faultless_seek off seekSet)) fun pos t ht => ?_
    refine .ite (fun _ => .get_bind (.pure ht)) fun _ => .modify_bind (.pure ?_)
    exact ht.halfway fun r hr => Option.some.inj hr ▸ hasked

theorem leaves_exec_release (hs : s.Sane) {path : Str}
    (h : ¬ s.Misused (thread, .release path fi)) :
    Call.Leaves (fun _ => Sane) (NoFault Sane) (exec m fuel (thread, .release path fi)) s := by
  rw [Misused] at h
  have hgone : ∀ object, ((s.stored fi object).erred thread (s.errors thread)).stored fi none
      |>.Sane := by
    intro object
    rw [stored_erred_stored]
    exact (hs.stored fun _ ho => absurd ho (by simp)).erred _
  by_cases hpath : virtualFileId path = .catalog
  · rw [if_pos hpath, not_not] at h
    obtain ⟨text, hobject⟩ := h
    have hclose : prodosfsClose path (.catalog text, s.errors thread)
        = (.ret 0, (.catalog text, s.errors thread)) := by
      rw [prodosfsClose, if_pos (isVirtual_iff.mpr hpath)]
      rfl
    exact .bind_of_ret (onOpened_of_eq hobject hclose) (.modify_bind (.pure (hgone _)))
  · rw [if_neg hpath, not_not] at h
    obtain ⟨handle, hobject⟩ := h
    have hclose : prodosfsClose path (.file handle, s.errors thread)
        = (.ret 0, (.file ⟨none, none, none, none, 0⟩, s.errors thread)) := by
      rw [prodosfsClose, if_neg (isVirtual_iff.not.mpr hpath)]
      rfl
    exact .bind_of_ret (onOpened_of_eq hobject hclose) (.modify_bind (.pure (hgone _)))

variable {m}

/-- **An action on what it is meant for is not undefined,** and keeps all pointers. -/
theorem leaves_exec (hv : m.volume.Accepted) {a : ℕ × Action} (hs : s.Sane) (hasked : a.2.Asked)
    (h : ¬ s.Misused a) : Call.Leaves (fun _ => Sane) (NoFault Sane) (exec m fuel a) s := by
  match a with
  | (thread, .getattr path st) =>
    have hcall := faultless_getattr m fuel path st (s.errors thread) trivial
    exact .bind (leaves_onThread hs hcall) fun _ _ ht => .pure ht.1
  | (thread, .opens path fi) =>
    refine .bind (leaves_onThread hs (leaves_open m fuel hv path _)) fun ⟨r, fh⟩ t ⟨ht, hfh⟩ => ?_
    cases fh with
    | none => exact .pure ht
    | some fh => exact .modify_bind (.pure (ht.stored fun o ho => Option.some.inj ho ▸ hfh fh rfl))
  | (thread, .read path fi bufsiz off) => exact leaves_exec_read m fuel hs hasked h
  | (thread, .readOn) =>
    rw [Misused] at h
    push Not at h
    obtain ⟨⟨fi, bufsiz⟩, hreading, handle, hobject⟩ := h
    refine .get_bind ?_
    rw [hreading]
    refine .modify_bind ?_
    have hsize := hs.reading thread _ hreading
    have hidle : (s.halfway thread none).Sane := hs.halfway fun _ hr => absurd hr (by simp)
    exact .bind (leaves_onFile hidle hobject (faultless_readBuffer hsize)) fun _ _ ht => .pure ht
  | (thread, .release path fi) => exact leaves_exec_release m fuel hs h
  | (thread, .getxattr path name size) =>
    have hcall := faultless_getxattr m fuel path name size (s.errors thread) trivial
    exact .bind (leaves_onThread hs hcall) fun _ _ ht => .pure ht.1
  | (thread, .listxattr path size) =>
    have hcall := faultless_listxattr m fuel path size (s.errors thread) trivial
    exact .bind (leaves_onThread hs hcall) fun _ _ ht => .pure ht.1
  | (thread, .opendir path fi) =>
    refine .bind (leaves_onThread hs (leaves_opendir m fuel path _)) fun ⟨r, dh⟩ t ⟨ht, hdh⟩ => ?_
    cases dh with
    | none => exact .pure ht
    | some dh => exact .modify_bind (.pure (ht.stored fun o ho => Option.some.inj ho ▸ hdh dh rfl))
  | (thread, .readdir fi filler) =>
    obtain ⟨dh, hobject⟩ := not_not.mp h
    have hcall := faultless_readdir m fuel filler
    exact .bind (leaves_onDirectory hs hobject hcall) fun _ _ ht => .pure ht
  | (thread, .releasedir fi) =>
    obtain ⟨dh, hobject⟩ := not_not.mp h
    have hclose : prodosfsClosedir (dh, s.errors thread)
        = (.ret 0, (⟨none, none, 0, 0⟩, s.errors thread)) := rfl
    refine .bind_of_ret (onDirectory_of_eq hobject hclose) (.modify_bind (.pure ?_))
    rw [stored_erred_stored]
    exact (hs.stored fun _ ho => absurd ho (by simp)).erred _


/-- However an action ends, the pointers are there. -/
theorem sane_exec (hv : m.volume.Accepted) {a : ℕ × Action} (hs : s.Sane) (hasked : a.2.Asked) :
    (exec m fuel a s).2.Sane := by
  by_cases h : s.Misused a
  · obtain ⟨t, ht, hsane⟩ := exec_of_misused m fuel hs h
    rw [ht]
    exact hsane
  · exact ((leaves_exec fuel hv hs hasked h).mono (fun _ _ ht => ht)
      fun _ _ hf => (noFault_iff.mp hf).2).elim

/-- **A step is undefined when something is misused,** and only then. -/
theorem exec_fault_iff (hv : m.volume.Accepted) {a : ℕ × Action} (hs : s.Sane)
    (hasked : a.2.Asked) : (exec m fuel a s).1 = .fault ↔ s.Misused a := by
  refine ⟨fun hfault => ?_, fun h => ?_⟩
  · by_contra h
    exact (leaves_exec fuel hv hs hasked h).ne_fault (fun _ hf => (noFault_iff.mp hf).1 rfl) hfault
  · obtain ⟨t, ht, -⟩ := exec_of_misused m fuel hs h
    rw [ht]

/-- Over a whole history, whatever becomes of its actions. -/
theorem sane_after (hv : m.volume.Accepted) {history : List (ℕ × Action)}
    (hasked : ∀ a ∈ history, a.2.Asked) (errors : ℕ → Err) :
    (Call.after (exec m fuel) (start errors) history).Sane :=
  Call.after_invariant_of_mem (fun a ha _ hs => sane_exec fuel hv hs (hasked a ha))
    (sane_start errors)

/-- What is opened can be found. -/
theorem exec_opens {path : Str} {r : ℤ} {fh : Fh} {err err' : Err} (herr : s.errors thread = err)
    (h : prodosfsOpen m fuel path err = (.ret (r, some fh), err')) :
    exec m fuel (thread, .opens path fi) s
      = (.ret (.result r), (s.erred thread err').stored fi (some (.opened fh))) :=
  Call.bind_of_ret (onThread_of_eq (herr ▸ h))

end

end Server

/-! ### Histories -/

/-- **What is undefined, over any history on any damaged image.** Requests of any threads, whatever
has become of them, leave the program in a state in which an action has an undefined behaviour
exactly when what is open is taken for something else. -/
theorem fault_iff_misused {m : Mount} (fuel : ℕ) (hv : m.volume.Accepted)
    {history : List (ℕ × Action)} (hhistory : ∀ a ∈ history, a.2.Asked) {a : ℕ × Action}
    (ha : a.2.Asked) (errors : ℕ → Err) :
    (Server.exec m fuel a (Call.after (Server.exec m fuel) (.start errors) history)).1 = .fault ↔
      (Call.after (Server.exec m fuel) (.start errors) history).Misused a :=
  Server.exec_fault_iff fuel hv (Server.sane_after fuel hv hhistory errors) ha

/-- A file is opened and the catalogue of a directory that is not there. -/
def twoOpened : List (ℕ × Action) :=
  [(0, .opens (ascii "/T") 1), (0, .opens (ascii "/NO/.CATALOG") 2)]

/-- What there is then. -/
theorem objects_twoOpened :
    let s := Call.after (Server.exec (smallMount .off) 60) (.start fun _ => .none) twoOpened
    s.objects 1 = some (.opened (.file (handleAt smallVolume textFile 0))) ∧
      s.objects 2 = some (.opened (.catalog none)) := by
  have hfile : openFile smallVolume 60 (ascii "/T") .none
      = (.ret (some (handleAt smallVolume textFile 0)), .none) := by decide +kernel
  have hcatalog : catalog smallVolume 60 (ascii "/NO/.CATALOG") .none
      = (.ret none, .fileNotFound) := by decide +kernel
  have hopen : prodosfsOpen (smallMount .off) 60 (ascii "/T") .none
      = (.ret (0, some (.file (handleAt smallVolume textFile 0))), .none) := by
    rw [prodosfsOpen, if_neg (by decide), if_neg (by decide)]
    exact Call.bind_of_ret hfile
  have hnull : prodosfsOpen (smallMount .off) 60 (ascii "/NO/.CATALOG") .none
      = (.ret (0, some (.catalog none)), .fileNotFound) := by
    rw [prodosfsOpen, if_pos (by decide)]
    exact Call.bind_of_ret hcatalog
  have hfirst : ∀ s : Server, s.errors 0 = .none →
      Server.exec (smallMount .off) 60 (0, .opens (ascii "/T") 1) s = (.ret (.result 0),
        (s.erred 0 .none).stored 1 (some (.opened (.file (handleAt smallVolume textFile 0))))) :=
    fun s hs => Server.exec_opens 60 hs hopen
  have hsecond : ∀ s : Server, s.errors 0 = .none →
      Server.exec (smallMount .off) 60 (0, .opens (ascii "/NO/.CATALOG") 2) s
        = (.ret (.result 0), (s.erred 0 .fileNotFound).stored 2 (some (.opened (.catalog none)))) :=
    fun s hs => Server.exec_opens 60 hs hnull
  simp only [Call.after, twoOpened, List.foldl_cons, List.foldl_nil]
  rw [hfirst _ rfl, hsecond _ (by simp)]
  simp

/-- The file can be read, the catalogue is a null pointer. -/
theorem fault_iff_misused_small :
    let exec := Server.exec (smallMount .off) 60
    let s := Call.after exec (.start fun _ => .none) twoOpened
    (exec (0, .read (ascii "/T") 1 10 0) s).1 ≠ .fault ∧
      (exec (0, .read (ascii "/NO/.CATALOG") 2 10 0) s).1 = .fault := by
  have hhistory : ∀ a ∈ twoOpened, a.2.Asked := by simp [twoOpened, Action.Asked]
  have hiff := fun path fi => fault_iff_misused (m := smallMount .off) 60 accepted_small hhistory
    (a := (0, .read path fi 10 0)) (show 10 < 2 ^ 31 by decide) fun _ => .none
  obtain ⟨hfile, hcatalog⟩ := objects_twoOpened
  have hpath : virtualFileId (ascii "/T") ≠ .catalog := by decide
  have hvirtual : virtualFileId (ascii "/NO/.CATALOG") = .catalog := by decide
  refine ⟨(hiff _ _).not.mpr ?_, (hiff _ _).mpr ?_⟩
  · rw [Server.Misused, if_neg hpath, not_not]
    exact ⟨_, hfile⟩
  · rw [Server.Misused, if_pos hvirtual]
    rintro ⟨text, htext⟩
    rw [hcatalog] at htext
    cases htext

end Prodosfs
