import Prodosfs.Failures
import Prodosfs.Lines
import Prodosfs.Service

/-!
# The file system does what it is for

The callbacks, on a sound volume, answer what `Mount.service` allows, for as long as they are asked
for what it means. That is so for any number of threads, whose actions may come in any order.

## Two kinds of lemmas

A lemma about a callback says what it answers and what it leaves in `fi->fh`. It knows nothing of
threads: `getattr_serves`, `open_serves`, `readdir_serves` and so on are about one call, from
whatever error the last one has left. A lemma about an action puts that callback among all that is
open and all that is under way. It knows nothing of blocks: `answered_getattr` and the others use
what is said of the callback, and that `Corresponds` is kept by what the action does to one open
file. `refines_service` goes through the actions, and a run is then a matter of the general rule for
refinements.

So when a callback changes, its lemma does, and maybe the one for its action. `Serves` is the place
where the two kinds meet: what an open file is to its user, and which object it is to the program.
An open directory is a cursor that still has its entries ahead, which is why a listing can be left
and gone on with.

## Reads, in two actions

A read of a file is a `Seek` and then a `Read`, and other threads may act in between. The position
is kept in the handle in the meantime. `Corresponds.sought` says that it is where the request has
put it, and `Corresponds.apart` that no two requests are halfway through with the same open file.
The second is no property of the program: `Mount.service` asks for it, and what happens without it
is in `Interleaving`.

A read that goes on behind the end of the file copies bytes of the last block that are not part of
the file. `readLoop_prefix` is about the bytes before them, which is all that the service promises.

## What is deliberately absent

Nothing is said of volumes that are not sound. There the callbacks may throw, or not come back at
all, and `Cycles`, `Ends` and `Faults` say when. Nor is there a bound on time: the bound that is
handed around is on the number of rounds of a loop, and `Serviceable` has it large enough.

## Main definitions

* `Serves` — an object is the open file that its user knows
* `Corresponds` — and so are all of them

## Main results

* `readLoop_prefix` — a read that goes on behind the end of the file has copied it up to the end
* `refines_service` — the server does one thing after another as it should
* `serves_every_run` — and so for a whole run, in which the threads take turns in any order
-/

namespace Prodosfs

/-! ### Reads to the end of a file and beyond -/

section
variable {v : Volume} {e : EntryPtr}

/-- **What is copied first is the content, up to the end of the file.** The induction is on the
bound. -/
theorem readLoop_prefix (hfile : Entry.isFile (v.entry e)) :
    ∀ {rounds size p : ℕ} {err : Err} {bytes : Str} {s : FileHandle × Err},
      p ≤ Entry.eof (v.entry e) →
      FileHandle.readLoop v rounds size (handleAt v e p, err) = (.ret bytes, s) →
      bytes.take (Entry.eof (v.entry e) - p)
        = v.slice e p (min size (Entry.eof (v.entry e) - p)) := by
  intro rounds
  induction rounds with
  | zero =>
    rintro (_ | size) p err bytes s hp hread
    · cases hread
      rw [List.take_nil, Nat.zero_min]
      rfl
    · cases hread
  | succ rounds ih =>
    rintro (_ | size) p err bytes s hp hread
    · cases hread
      rw [List.take_nil, Nat.zero_min]
      rfl
    simp only [readLoop_handleAt, Call.bind_eq_ret_iff] at hread
    obtain ⟨r, t, hseek, rest, t', hrest, hret⟩ := hread
    cases hret
    obtain ⟨n, hn⟩ : ∃ n, n = min (size + 1) (512 - p % 512) := ⟨_, rfl⟩
    rw [← hn] at hseek hrest ⊢
    rw [bytesAt_dataBlock v e (by omega : p % 512 + n ≤ 512)]
    rcases seek_eq_ret hfile hseek with ⟨q, hq, hle, -, rfl⟩ | ⟨hout, -, rfl⟩
    · -- the next round goes on from the next block
      obtain rfl : p + n = q := by exact_mod_cast hq
      have hleft : Entry.eof (v.entry e) - p = n + (Entry.eof (v.entry e) - (p + n)) := by omega
      have hmin : min (size + 1) (Entry.eof (v.entry e) - p)
          = n + min (size + 1 - n) (Entry.eof (v.entry e) - (p + n)) := by omega
      have htake := @List.take_length_add_append _ (v.slice e p n) rest
        (Entry.eof (v.entry e) - (p + n))
      rw [length_slice] at htake
      rw [hmin, hleft, htake, ih hle hrest, slice_add]
    · -- the end of the file is in this block, and the rest of the buffer is behind it
      have hlt : Entry.eof (v.entry e) - p ≤ n := by omega
      have hmin : min (size + 1) (Entry.eof (v.entry e) - p) = Entry.eof (v.entry e) - p := by omega
      have hsplit := slice_add v e p (Entry.eof (v.entry e) - p)
        (n - (Entry.eof (v.entry e) - p))
      rw [Nat.add_sub_cancel' hlt] at hsplit
      rw [hmin, hsplit, List.append_assoc, List.take_left' (length_slice v e p _)]

theorem Volume.SoundFile.seekable (he : v.SoundFile e) {q : ℕ} (hq : q ≤ Entry.eof (v.entry e)) :
    v.Seekable e q := by
  refine (seekable_iff he.isFile he.legal he.pointers hq).mpr fun hpast => he.within ?_
  obtain ⟨htype, rfl⟩ := hpast
  exact ⟨htype, le_antisymm (he.legal.2 htype) hq⟩

/-- A sound file can be opened. -/
theorem Volume.SoundFile.create (he : v.SoundFile e) (err : Err) :
    FileHandle.create v e err = (.ret (handleAt v e 0), err) := by
  obtain ⟨h, hcreate⟩ := create_of_pointersInRange he.isFile he.pointers err
  obtain ⟨-, rfl, -⟩ := create_eq_ret hcreate
  exact hcreate

/-- And read from, at any position. -/
theorem Volume.SoundFile.readBuffer (he : v.SoundFile e) {p size : ℕ}
    (hp : p ≤ Entry.eof (v.entry e)) (hpos : 0 < size) (hsize : size < 2 ^ 31) (err : Err) :
    ∃ (buf : Str) (q : ℕ) (err' : Err),
      readBuffer v size (handleAt v e p, err) = (.ret ((size : ℤ), buf), (handleAt v e q, err')) ∧
      q ≤ Entry.eof (v.entry e) ∧ v.PartAnswer e p size (.bytes size buf) := by
  have hsafe : ReadSafe v e p size := fun q _ hq => he.seekable hq
  obtain ⟨bytes, ⟨h, err'⟩, hread, q, hq, -, rfl⟩ :=
    readLoop_safe he.isFile err le_rfl hp (he.seekable hp) hsafe
  have hlength := length_of_readLoop hread
  have hfront := readLoop_prefix he.isFile hp hread
  have hne : bytes.length ≠ 0 := by omega
  have hlt : ¬ 2 ^ 31 ≤ bytes.length := by omega
  have hbuffer := readBuffer_of_ret (e := e) rfl hread
  rw [if_neg (fun h => hne h.1), if_neg hlt, hlength, toInt_of_lt hsize] at hbuffer
  by_cases htext : Entry.fileType (v.entry e) = fileTypeText
  · rw [if_pos htext] at hbuffer
    refine ⟨_, q, err', hbuffer, hq, _, rfl, by rw [List.length_map, hlength], ?_⟩
    rw [← List.map_take, hfront, Volume.delivered, if_pos htext]
  · rw [if_neg htext] at hbuffer
    refine ⟨_, q, err', hbuffer, hq, _, rfl, hlength, ?_⟩
    rw [hfront, Volume.delivered, if_neg htext]

end

/-! ### Paths -/

section
variable {v : Volume} {fuel : ℕ} {path : Str} {e : EntryPtr}

theorem Serviceable.of_sublist {path' : Str} (hpath : Serviceable fuel path)
    (h : path'.Sublist path) : Serviceable fuel path' := by
  have hlength := h.length_le
  exact ⟨fun hnul => hpath.1 (h.subset hnul), le_trans (by omega) hpath.2⟩

theorem Serviceable.prodosFilename (hpath : Serviceable fuel path) (mode : ExtensionMode) :
    Serviceable fuel (prodosFilename mode path) :=
  hpath.of_sublist (prodosFilename_sublist mode path)

theorem Serviceable.parentPath (hpath : Serviceable fuel path) :
    Serviceable fuel (parentPath path) := hpath.of_sublist (parentPath_sublist path)

theorem Serviceable.le (hpath : Serviceable fuel path) :
    65536 * ((splitPath path).length + 14) ≤ fuel := by
  have hlength := length_splitPath_le path
  exact le_trans (by omega) hpath.2

theorem Volume.Sound.getEntry (hv : v.Sound) (hpath : Serviceable fuel path) (err : Err) :
    getEntry v fuel path err = lookupOutcome err (v.atPath path) :=
  getEntry_eq_atPath hv.wellFormed hpath.1 hpath.le err

/-- What is reported of a path that leads nowhere. -/
theorem Volume.Sound.getEntry_error (hv : v.Sound) (hpath : Serviceable fuel path)
    {missing : NameTree.Missing} (h : v.atPath path = .error missing) (err : Err) :
    ∃ err', Prodosfs.getEntry v fuel path err = (.ret none, err') ∧
      toError err' = missingErrno missing := by
  rw [hv.getEntry hpath, h]
  cases missing with
  | name => exact ⟨_, rfl, rfl⟩
  | directory => exact ⟨_, rfl, rfl⟩

theorem Volume.Sound.getEntry_ok (hv : v.Sound) (hpath : Serviceable fuel path)
    (h : v.atPath path = .ok e) (err : Err) :
    Prodosfs.getEntry v fuel path err = (.ret (some e), err) := by
  rw [hv.getEntry hpath, h]
  rfl

/-- A path leads to the root directory, or to a sound entry. -/
theorem Volume.Sound.atPath_cases (hv : v.Sound) (h : v.atPath path = .ok e) :
    path = ascii "/" ∧ e = ⟨.image Volume.root, 0⟩ ∨
      Entry.isDirectory (v.entry e) ∨ v.SoundFile e := by
  rw [Volume.atPath] at h
  split at h
  · cases h
    exact Or.inl ⟨‹_›, rfl⟩
  · obtain ⟨key, es, hreach, hkey, hmem⟩ := mem_of_lookup_eq_ok hv.wellFormed h
    exact Or.inr (hv.entry hreach hkey e hmem)

/-- Whatever a path leads to is known to the callbacks. -/
theorem Volume.Sound.described (hv : v.Sound) (h : v.atPath path = .ok e) : v.Described e := by
  rcases hv.atPath_cases h with ⟨-, rfl⟩ | hdirectory | hfile
  · exact Or.inr (Or.inr ⟨beq_iff_eq.mpr hv.accepted.headerStorageType, hv.bitmap⟩)
  · exact Or.inr (Or.inl hdirectory)
  · exact Or.inl hfile.isFile

/-- A directory is not a file. -/
theorem isFile_of_isDirectory {entry : Block} (h : Entry.isDirectory entry) :
    Entry.isFile entry = false := by
  have htype : Entry.storageType entry = storageTypeSubdirectory := beq_iff_eq.mp h
  rw [Entry.isFile, htype]
  rfl

theorem Volume.Sound.soundFile (hv : v.Sound) (h : v.atPath path = .ok e)
    (hfile : Entry.isFile (v.entry e)) : v.SoundFile e := by
  rcases hv.atPath_cases h with ⟨-, rfl⟩ | hdirectory | hsound
  · rw [isFile_root hv.accepted] at hfile
    cases hfile
  · rw [isFile_of_isDirectory hdirectory] at hfile
    cases hfile
  · exact hsound

/-- In a sound volume `OpenDirectory` opens the directory that has the path, or says why not. -/
theorem Volume.Sound.openDirectory (hv : v.Sound) (hpath : Serviceable fuel path) (err : Err) :
    match v.directoryAt path with
    | .ok key => openDirectory v fuel path err = (.ret (some (.opened key)), err) ∧
        v.Reachable key
    | .error missing => ∃ err', openDirectory v fuel path err = (.ret none, err') ∧
        toError err' = missingErrno missing := by
  have hiff : ∀ key, Prodosfs.openDirectory v fuel path err = (.ret (some (.opened key)), err) ↔
      v.HasDirectory path key ∧ err = err := fun key =>
    openDirectory_iff hv.accepted hv.wellFormed hpath.1 hpath.le err err
  rw [Volume.directoryAt]
  by_cases hroot : path = ascii "/"
  · have hhas : v.HasDirectory path (.image Volume.root) := by
      rw [Volume.HasDirectory, if_pos hroot]
    rw [if_pos hroot]
    exact ⟨(hiff _).mpr ⟨hhas, rfl⟩, .root⟩
  rw [if_neg hroot]
  cases hlookup : v.lookup (splitPath path) with
  | error missing =>
    obtain ⟨err', hentry, herr⟩ := hv.getEntry_error hpath
      ((Volume.atPath_of_ne_root hroot).trans hlookup) err
    refine ⟨err', ?_, herr⟩
    rw [Prodosfs.openDirectory, if_neg hroot, Call.bind_of_ret hentry]
    rfl
  | ok e =>
    by_cases hdir : Entry.isDirectory (v.entry e)
    · have hhas : v.HasDirectory path (v.keyBlock e) := by
        rw [Volume.HasDirectory, if_neg hroot]
        exact ⟨e, hlookup, hdir, rfl⟩
      simp only [if_pos hdir]
      exact ⟨(hiff _).mpr ⟨hhas, rfl⟩, hhas.reachable hv.wellFormed⟩
    · have hentry := hv.getEntry_ok hpath ((Volume.atPath_of_ne_root hroot).trans hlookup) err
      have hfalse : Entry.isDirectory (v.entry e) = false := by simpa using hdir
      simp only [if_neg hdir]
      refine ⟨.directoryNotFound, ?_, rfl⟩
      rw [Prodosfs.openDirectory, if_neg hroot, Call.bind_of_ret hentry]
      simp only [if_pos hfalse]
      rfl

theorem Volume.Sound.rootChain (hv : v.Sound) : v.RootChain := by
  obtain ⟨es, hkey⟩ := hv.wellFormed.directory .root
  obtain ⟨rest, hchain, -⟩ := hkey.chain
  exact ⟨rest, hchain.linked, hchain.inRange⟩

end

/-! ### Entries -/

section
variable {m : Mount} {fuel : ℕ} {e : EntryPtr}

/-- `getattr` says what there is to say about an entry. -/
theorem statOf_eq {rest : List BlockPtr}
    (hlinked : Linked m.volume.nextBlock (.image Volume.root) rest)
    (hrange : ∀ b ∈ BlockPtr.image Volume.root :: rest,
      m.volume.nextPointer b < m.volume.disk.numBlocks)
    (he : m.volume.Described e) (hfuel : 65536 ≤ fuel) (st : Stat) (err : Err) :
    statOf m fuel e st err = (.ret (m.stat (rest.length + 1) e), err) := by
  have hlength := length_lt_of_linked hlinked
  have hcount : m.volume.countRootDirectoryBlocks fuel err = (.ret (rest.length + 1), err) := by
    rw [Volume.countRootDirectoryBlocks,
      countDirectoryLoop_of_linked hlinked err hrange 1 (by omega), Nat.add_comm]
  rw [statOf, Mount.stat]
  simp only [Call.ite_apply]
  by_cases hroot : Entry.isRoot (m.volume.entry e)
  · rw [if_pos hroot, if_pos hroot, Call.bind_of_ret hcount]
    rfl
  · have hknown : Entry.isFile (m.volume.entry e) ∨ Entry.isDirectory (m.volume.entry e) :=
      or_assoc.mpr he |>.resolve_right fun h => hroot h.1
    rw [if_neg hroot, if_neg hroot, if_pos hknown]
    by_cases hfile : Entry.isFile (m.volume.entry e)
    · simp [hfile]
    · simp [hfile]

/-- The attributes are what there is to know about an entry. -/
theorem getAttributes_eq {σ : Type} (hv : m.volume.Accepted) (he : m.volume.Described e) (s : σ) :
    getAttributes m e s = (.ret (m.attributes e), s) := by
  rw [getAttributes, Mount.attributes]
  simp only [Call.ite_apply]
  by_cases hknown : Entry.isFile (m.volume.entry e) ∨ Entry.isDirectory (m.volume.entry e)
  · rw [if_pos hknown, if_pos hknown, titleAttributes]
    by_cases hworks : isAppleWorksFile (Entry.fileType (m.volume.entry e))
    · have hname := appleWorksFileName_apply (length_fileName_le (m.volume.entry e))
        (Entry.auxType (m.volume.entry e)) s
      rw [if_pos hworks, if_pos hworks, Call.bind_of_ret hname]
      rfl
    · rw [if_neg hworks, if_neg hworks]
      rfl
  · obtain ⟨hroot, hbitmap⟩ := (or_assoc.mpr he).resolve_left hknown
    rw [if_neg hknown, if_neg hknown, if_pos hroot, Call.bind_of_ret (name_of_accepted hv s),
      Call.bind_of_ret (fileCount_of_accepted hv s),
      Call.bind_of_ret (totalBlocksOf_of_accepted hv s),
      Call.bind_of_ret (countBlocksUsed_eq hv hbitmap s)]
    rfl

end

/-! ### What is left in `fi->fh` -/

/-- An object is the open file that its user knows. -/
inductive Serves (m : Mount) (fuel : ℕ) : Object → OpenFile → Prop
  | file {e : EntryPtr} {p : ℕ} (sound : m.volume.SoundFile e)
      (position : p ≤ Entry.eof (m.volume.entry e)) :
      Serves m fuel (.opened (.file (handleAt m.volume e p))) (.file e)
  | text {text : Option Str} (short : ∀ s, text = some s → s.length < 2 ^ 31) :
      Serves m fuel (.opened (.catalog text)) (.text text)
  | directory {key : BlockPtr} {dh : DirectoryHandle} {left : List EntryPtr}
      (ahead : Ahead m.volume fuel key dh left) (few : left.length < fuel) :
      Serves m fuel (.directory dh) (.directory left)

section
variable {m : Mount} {fuel : ℕ} {path : Str} {e : EntryPtr}

/-! ### Callbacks without an open file -/

theorem getattr_serves (hv : m.volume.Sound) (hpath : Serviceable fuel path) (st : Stat)
    (err : Err) : ∃ r st' err', prodosfsGetattr m fuel path st err = (.ret (r, st'), err') ∧
      m.StatAnswer path st (.stat r st') := by
  have hfuel : 65536 ≤ fuel := le_trans (by omega) hpath.2
  rw [prodosfsGetattr, Call.ite_apply]
  simp only [Mount.StatAnswer]
  by_cases hid : virtualFileId path = .catalog
  · simp only [if_pos (isVirtual_iff.mpr hid), if_pos hid]
    exact ⟨_, _, _, rfl, rfl⟩
  simp only [if_neg (isVirtual_iff.not.mpr hid), if_neg hid]
  have hpath' := hpath.prodosFilename m.extensionMode
  cases hat : m.volume.atPath (prodosFilename m.extensionMode path) with
  | error missing =>
    obtain ⟨err', hentry, herr⟩ := hv.getEntry_error hpath' hat err
    rw [Call.bind_of_ret hentry]
    exact ⟨_, _, _, rfl, by rw [herr]⟩
  | ok e =>
    obtain ⟨rest, hlinked, hrange⟩ := hv.rootChain
    have hstat := statOf_eq hlinked hrange (hv.described hat) hfuel st err
    rw [Call.bind_of_ret (hv.getEntry_ok hpath' hat err)]
    exact ⟨_, _, _, Call.bind_of_ret hstat, rest, hlinked, rfl⟩

theorem getxattr_serves (hv : m.volume.Sound) (hpath : Serviceable fuel path) (name : Str)
    (size : ℕ) (err : Err) :
    ∃ r buf err', prodosfsGetxattr m fuel path name size err = (.ret (r, buf), err') ∧
      match m.volume.atPath path with
      | .error missing => Reply.bytes r buf = .bytes (-missingErrno missing) []
      | .ok e => Reply.bytes r buf = m.attributeAnswer e name size := by
  rw [prodosfsGetxattr]
  cases hat : m.volume.atPath path with
  | error missing =>
    obtain ⟨err', hentry, herr⟩ := hv.getEntry_error hpath hat err
    rw [Call.bind_of_ret hentry]
    exact ⟨_, _, _, rfl, by rw [herr]⟩
  | ok e =>
    have he := hv.described hat
    obtain ⟨attributes, hall, hmodest⟩ := getAttributes_of_described (σ := Err) hv.accepted he
    have hattributes := getAttributes_eq hv.accepted he err
    obtain rfl : attributes = m.attributes e := by simpa [hall err] using hattributes
    rw [Call.bind_of_ret (hv.getEntry_ok hpath hat err)]
    simp only [Call.bind_of_ret hattributes, Mount.attributeAnswer]
    cases hlookup : (m.attributes e).lookup name with
    | none => exact ⟨_, _, _, rfl, rfl⟩
    | some value =>
      have hlength : value.length < 4096 := (hmodest.2 _ (mem_of_lookup hlookup)).2
      have hint : toInt (value.length + 1) = value.length + 1 := by
        rw [toInt_of_lt (by omega)]
        rfl
      simp only [hint, Nat.lt_succ_iff, Call.ite_apply]
      by_cases hsize : 0 < size
      · rw [if_pos hsize, if_neg (by omega : ¬ size = 0)]
        by_cases hroom : size ≤ value.length
        · rw [if_pos hroom, if_pos hroom]
          exact ⟨_, _, _, rfl, rfl⟩
        · rw [if_neg hroom, if_neg hroom]
          exact ⟨_, _, _, rfl, rfl⟩
      · rw [if_neg hsize, if_pos (by omega : size = 0)]
        exact ⟨_, _, _, rfl, rfl⟩

/-- What the loop of `listxattr` answers for names that are C strings. -/
theorem listxattrLoop_serves {names : Attributes} (hnul : ∀ attr ∈ names, 0 ∉ attr.1)
    (hlength : namesLength names < 2 ^ 31) (size : ℕ) :
    if size = 0 then listxattrLoop size names 0 size [] = ((namesLength names : ℤ), [])
    else if size < namesLength names then (listxattrLoop size names 0 size []).1 = -erange
    else listxattrLoop size names 0 size [] = ((namesLength names : ℤ), nameBytes names) := by
  have hloops := @listxattrStores_eq size names hnul 0 size []
  have hresult : (listxattrStores size names 0 size 0 (Stores.empty.put 0 [])).1
      = (listxattrLoop size names 0 size []).1 := congrArg Prod.fst hloops
  rcases Nat.eq_zero_or_pos size with rfl | hsize
  · rw [listxattrStores_zero, Nat.zero_add, toInt_of_lt hlength] at hresult
    rw [if_pos rfl]
    exact Prod.ext hresult.symm listxattrLoop_zero
  rw [if_neg (by omega)]
  by_cases hroom : size < namesLength names
  · rw [listxattrStores_of_lt hsize names hroom] at hresult
    rw [if_pos hroom]
    exact hresult.symm
  · rw [listxattrStores_of_le hsize names (by omega), Nat.zero_add, toInt_of_lt hlength] at hresult
    rw [if_neg hroom]
    exact Prod.ext hresult.symm (listxattrLoop_of_le hsize names (by omega))

theorem listxattr_serves (hv : m.volume.Sound) (hpath : Serviceable fuel path) (size : ℕ)
    (err : Err) : ∃ r buf err', prodosfsListxattr m fuel path size err = (.ret (r, buf), err') ∧
      match m.volume.atPath (prodosFilename m.extensionMode path) with
      | .error missing => Reply.bytes r buf = .bytes (-missingErrno missing) []
      | .ok e => m.NamesAnswer e size (.bytes r buf) := by
  have hpath' := hpath.prodosFilename m.extensionMode
  rw [prodosfsListxattr]
  cases hat : m.volume.atPath (prodosFilename m.extensionMode path) with
  | error missing =>
    obtain ⟨err', hentry, herr⟩ := hv.getEntry_error hpath' hat err
    rw [Call.bind_of_ret hentry]
    exact ⟨_, _, _, rfl, by rw [herr]⟩
  | ok e =>
    have hattributes := getAttributes_eq hv.accepted (hv.described hat) err
    have hperm := m.order_perm (m.attributes e)
    obtain ⟨hnul, hlength, -⟩ := names_of_getAttributes hattributes
    rw [namesLength, ← (hperm.map _).sum_nat, ← namesLength] at hlength
    have hloop := listxattrLoop_serves (fun attr ha => hnul attr (hperm.mem_iff.mp ha)) hlength size
    rw [Call.bind_of_ret (hv.getEntry_ok hpath' hat err)]
    simp only [Call.bind_of_ret hattributes, Mount.NamesAnswer]
    refine ⟨_, _, _, rfl, ?_⟩
    split at hloop
    · rw [if_pos ‹_›, hloop]
    rw [if_neg ‹_›]
    split at hloop
    · rw [if_pos ‹_›, hloop]
      exact ⟨_, rfl⟩
    · rw [if_neg ‹_›, hloop]

/-! ### Opening -/

/-- The text of a catalogue that can be made is short. -/
theorem Volume.Sound.catalog {v : Volume} (hv : v.Sound) (hpath : Serviceable fuel path)
    (err : Err) :
    match v.directoryAt (parentPath path) with
    | .ok key =>
      (catalogText v (parentPath path) (v.entries key)).length < 2 ^ 31 ∧
      ∃ err', catalog v fuel path err
        = (.ret (some (catalogText v (parentPath path) (v.entries key))), err')
    | .error _ => ∃ err', catalog v fuel path err = (.ret none, err') := by
  have hfuel : 14 * 65536 ≤ fuel := le_trans (by omega) hpath.2
  have hopen := hv.openDirectory hpath.parentPath err
  cases hat : v.directoryAt (parentPath path) with
  | error missing =>
    rw [hat] at hopen
    obtain ⟨err', hopen, -⟩ := hopen
    refine ⟨err', ?_⟩
    rw [Prodosfs.catalog, Call.bind_of_ret hopen]
    rfl
  | ok key =>
    rw [hat] at hopen
    obtain ⟨hopen, hreach⟩ := hopen
    obtain ⟨es, hkey⟩ := hv.wellFormed.directory hreach
    have hfew := hkey.length_lt
    have hshort := length_cStr_of_openDirectory hopen
    have htitle := length_titleLine_le v.header (parentPath path)
    have hfits : (titleLine (Entry.fileName v.header) (parentPath path)).length < 128 := by
      split at htitle <;> omega
    simp only [hkey.entries_eq]
    exact ⟨length_catalogText_lt hfits hv.accepted hfew, _, catalog_of_iterates hv.accepted hopen
      (hkey.iterates hfuel) (by omega) hfits hv.bitmap⟩

theorem open_serves (hv : m.volume.Sound) (hpath : Serviceable fuel path) (err : Err) :
    match m.openFile path with
    | .error errno => ∃ err', prodosfsOpen m fuel path err = (.ret (-errno, none), err')
    | .ok file => ∃ fh err', prodosfsOpen m fuel path err = (.ret (0, some fh), err') ∧
        Serves m fuel (.opened fh) file := by
  have hpath' := hpath.prodosFilename m.extensionMode
  rw [prodosfsOpen, Mount.openFile]
  by_cases hid : virtualFileId (prodosFilename m.extensionMode path) = .catalog
  · have hcatalog := hv.catalog hpath' err
    simp only [if_pos (And.intro (by decide : virtualFileMode ≠ .none) hid), if_pos hid]
    cases hat : m.volume.directoryAt (parentPath (prodosFilename m.extensionMode path)) with
    | error missing =>
      rw [hat] at hcatalog
      obtain ⟨err', hcatalog⟩ := hcatalog
      exact ⟨_, _, Call.bind_of_ret hcatalog, .text fun s hs => by cases hs⟩
    | ok key =>
      rw [hat] at hcatalog
      obtain ⟨hshort, err', hcatalog⟩ := hcatalog
      refine ⟨_, _, Call.bind_of_ret hcatalog, .text fun s hs => ?_⟩
      cases hs
      exact hshort
  have hnone : ¬ (virtualFileMode ≠ .none ∧
      virtualFileId (prodosFilename m.extensionMode path) ≠ .none) := isVirtual_iff.not.mpr hid
  simp only [if_neg (fun h : _ ∧ _ => hid h.2), if_neg hid, if_neg hnone, openFile]
  cases hat : m.volume.atPath (prodosFilename m.extensionMode path) with
  | error missing =>
    obtain ⟨err', hentry, herr⟩ := hv.getEntry_error hpath' hat err
    rw [Call.bind_assoc_apply, Call.bind_of_ret hentry]
    exact ⟨err', by rw [← herr]; rfl⟩
  | ok e =>
    rw [Call.bind_assoc_apply, Call.bind_of_ret (hv.getEntry_ok hpath' hat err)]
    by_cases hfile : Entry.isFile (m.volume.entry e)
    · have he := hv.soundFile hat hfile
      simp only [hfile, Bool.true_eq_false, if_false, Call.bind_assoc_apply]
      exact ⟨_, _, Call.bind_of_ret (he.create err), .file he (Nat.zero_le _)⟩
    · have hfalse : Entry.isFile (m.volume.entry e) = false := by simpa using hfile
      simp only [if_neg hfile, if_pos hfalse]
      exact ⟨_, rfl⟩

theorem opendir_serves (hv : m.volume.Sound) (hpath : Serviceable fuel path) (err : Err) :
    match m.volume.directoryAt path with
    | .error missing =>
      ∃ err', prodosfsOpendir m fuel path err = (.ret (-missingErrno missing, none), err')
    | .ok key => ∃ dh err', prodosfsOpendir m fuel path err = (.ret (0, some dh), err') ∧
        Serves m fuel (.directory dh) (.directory (m.volume.entries key)) := by
  have hfuel : 14 * 65536 ≤ fuel := le_trans (by omega) hpath.2
  have hopen := hv.openDirectory hpath err
  rw [prodosfsOpendir]
  cases hat : m.volume.directoryAt path with
  | error missing =>
    rw [hat] at hopen
    obtain ⟨err', hopen, herr⟩ := hopen
    rw [Call.bind_of_ret hopen]
    exact ⟨err', by rw [← herr]; rfl⟩
  | ok key =>
    rw [hat] at hopen
    obtain ⟨hopen, hreach⟩ := hopen
    obtain ⟨es, hkey⟩ := hv.wellFormed.directory hreach
    have hfew := hkey.length_lt
    have hleft : Serves m fuel (.directory (.opened key)) (.directory (m.volume.entries key)) := by
      rw [hkey.entries_eq]
      exact .directory (hkey.ahead hfuel) (by omega)
    rw [Call.bind_of_ret hopen]
    exact ⟨_, _, rfl, hleft⟩

/-! ### Listing -/

/-- The loop of `readdir`, whatever the filler does. The induction is on the entries. -/
theorem readdirLoop_fill {key : BlockPtr} (filler : List Str → Str → Bool) :
    ∀ {left : List EntryPtr} {rounds : ℕ} (names : List Str) {dh : DirectoryHandle} (err : Err),
      Ahead m.volume fuel key dh left → left.length < rounds →
      ∃ dh' err', readdirLoop m fuel filler rounds names (dh, err)
          = (.ret (m.fill filler names left).1, (dh', err')) ∧
        Ahead m.volume fuel key dh' (m.fill filler names left).2.1 ∧
        (m.fill filler names left).2.1.length ≤ left.length ∧
        ((m.fill filler names left).2.2 = false → err' = .endOfFile) := by
  intro left
  induction left with
  | nil =>
    rintro (_ | rounds) names dh err ha hrounds
    · cases hrounds
    refine ⟨dh, .endOfFile, ?_, ha, le_rfl, fun _ => rfl⟩
    rw [readdirLoop, Call.bind_of_ret (ha.nextEntry_end err)]
    rfl
  | cons e left ih =>
    rintro (_ | rounds) names dh err ha hrounds
    · cases hrounds
    obtain ⟨dh', hnext, ha'⟩ := ha.nextEntry err
    rw [List.length_cons] at hrounds ⊢
    have hlisted : cStr (exportedFilename m.extensionMode (m.volume.entry e)) = m.listedName e :=
      rfl
    rw [readdirLoop, Call.bind_of_ret hnext, Mount.fill]
    simp only [hlisted, Call.ite_apply]
    by_cases hfull : filler names (m.listedName e)
    · simp only [if_pos hfull]
      exact ⟨_, _, rfl, ha', Nat.le_succ _, fun h => absurd h (by decide)⟩
    · simp only [if_neg hfull]
      obtain ⟨dh'', err'', hloop, ha'', hle, hend⟩ :=
        ih (names ++ [m.listedName e]) err ha' (by omega : left.length < rounds)
      exact ⟨dh'', err'', hloop, ha'', le_trans hle (Nat.le_succ _), hend⟩

theorem readdir_serves {dh : DirectoryHandle} {left : List EntryPtr}
    (hserves : Serves m fuel (.directory dh) (.directory left)) (filler : List Str → Str → Bool)
    (err : Err) : ∃ r names dh' err',
      prodosfsReaddir m fuel filler (dh, err) = (.ret (r, names), (dh', err')) ∧
      m.ListingAnswer filler left (.names r names) ∧
      Serves m fuel (.directory dh') (.directory (m.listing filler left).2.1) := by
  cases hserves with
  | directory ahead few =>
    obtain ⟨dh', err', hloop, ha, hle, hend⟩ := readdirLoop_fill (m := m) filler
      (fill filler (fill filler [] (ascii ".")) (ascii "..")) err ahead few
    have hleft : Serves m fuel (.directory dh') (.directory (m.listing filler left).2.1) :=
      .directory ha (lt_of_le_of_lt hle few)
    rw [prodosfsReaddir, Call.bind_of_ret hloop, Call.get_bind_apply]
    by_cases herr : err' = .endOfFile
    · refine ⟨0, _, dh', err', ?_, ⟨0, rfl, fun _ => rfl⟩, hleft⟩
      simp [herr, Mount.listing]
    · refine ⟨-toError err', _, dh', err', ?_, ⟨_, rfl, fun h => absurd (hend h) herr⟩, hleft⟩
      simp [herr, Mount.listing]

/-! ### Open files -/

/-- Reading a text leaves it alone. -/
theorem read_text_serves (hpath : virtualFileId path = .catalog) {s : Str} {bufsiz : ℕ} {off : ℤ}
    (hoff : 0 ≤ off ∧ off ≤ s.length) (hshort : s.length < 2 ^ 31) (err : Err) :
    prodosfsRead m path bufsiz off (.catalog (some s), err)
      = (.ret ((((s.drop off.toNat).take bufsiz).length : ℤ), (s.drop off.toNat).take bufsiz),
          (.catalog (some s), err)) := by
  have hout : ¬ (off < 0 ∨ (s.length : ℤ) < off) := by omega
  have hlength : ((s.drop off.toNat).take bufsiz).length < 2 ^ 31 := by
    rw [List.length_take, List.length_drop]
    omega
  rw [prodosfsRead, if_pos (isVirtual_iff.mpr hpath), Call.get_bind_apply]
  simp only [copyText, if_neg hout]
  rw [Call.pure_bind_apply, substr, toInt_of_lt hlength]
  rfl

theorem close_serves {fh : Fh} {file : OpenFile} (hserves : Serves m fuel (.opened fh) file)
    (hfits : file.Fits path) (err : Err) :
    ∃ fh', prodosfsClose path (fh, err) = (.ret 0, (fh', err)) := by
  cases hserves with
  | file sound position =>
    rw [prodosfsClose, if_neg (isVirtual_iff.not.mpr hfits)]
    exact ⟨_, rfl⟩
  | text short =>
    rw [prodosfsClose, if_pos (isVirtual_iff.mpr hfits)]
    exact ⟨_, rfl⟩

end

/-! ### All that is open -/

/-- What is there is what is open. A request that has not been answered has moved its handle, and
is the only one for its open file. -/
structure Corresponds (m : Mount) (fuel : ℕ) (s : Server) (t : Service) : Prop where
  objects : ∀ fi, Option.Rel (Serves m fuel) (s.objects fi) (t.opened fi)
  reading : ∀ thread, s.reading thread = (t.reading thread).map Prod.fst
  sought : ∀ thread r off, t.reading thread = some (r, off) →
    0 < r.bufsiz ∧ r.bufsiz < 2 ^ 31 ∧ ∃ e, t.opened r.fi = some (.file e) ∧
      m.volume.SoundFile e ∧ off ≤ Entry.eof (m.volume.entry e) ∧
      s.objects r.fi = some (.opened (.file (handleAt m.volume e off)))
  apart : ∀ thread thread' r r' off off', t.reading thread = some (r, off) →
    t.reading thread' = some (r', off') → r.fi = r'.fi → thread = thread'

namespace Corresponds

variable {m : Mount} {fuel : ℕ} {s : Server} {t : Service} {thread fi : ℕ} {file : OpenFile}

theorem exists_object (hc : Corresponds m fuel s t) (hfile : t.opened fi = some file) :
    ∃ object, s.objects fi = some object ∧ Serves m fuel object file := by
  have hrel := hc.objects fi
  rw [hfile] at hrel
  cases hobject : s.objects fi with
  | none =>
    rw [hobject] at hrel
    cases hrel
  | some object =>
    rw [hobject] at hrel
    cases hrel with
    | some hserves => exact ⟨object, rfl, hserves⟩

/-- Only files are read in two steps. -/
theorem quiet (hc : Corresponds m fuel s t) (h : ∀ e, t.opened fi ≠ some (.file e)) :
    t.Quiet fi := by
  rintro thread r off hreading rfl
  obtain ⟨-, -, e, hfile, -⟩ := hc.sought thread r off hreading
  exact h e hfile

theorem erred (hc : Corresponds m fuel s t) (thread : ℕ) (err : Err) :
    Corresponds m fuel (s.erred thread err) t := ⟨hc.objects, hc.reading, hc.sought, hc.apart⟩

/-- An object may be replaced, or dropped, while nobody reads from it. -/
theorem stored (hc : Corresponds m fuel s t) (hquiet : t.Quiet fi) {object : Option Object}
    {file : Option OpenFile} (hrel : Option.Rel (Serves m fuel) object file) :
    Corresponds m fuel (s.stored fi object) (t.stored fi file) where
  objects fi' := by
    rw [Server.stored_objects, Service.stored_opened]
    by_cases hfi : fi' = fi
    · rw [hfi, Function.update_self, Function.update_self]
      exact hrel
    · rw [Function.update_of_ne hfi, Function.update_of_ne hfi]
      exact hc.objects fi'
  reading := hc.reading
  sought thread r off hreading := by
    obtain ⟨hpos, hsize, e, hfile, hsound, hoff, hobject⟩ := hc.sought thread r off hreading
    have hfi := hquiet thread r off hreading
    refine ⟨hpos, hsize, e, ?_, hsound, hoff, ?_⟩
    · rw [Service.stored_opened, Function.update_of_ne hfi, hfile]
    · rw [Server.stored_objects, Function.update_of_ne hfi, hobject]
  apart := hc.apart

/-- A request begins. -/
theorem begun (hc : Corresponds m fuel s t) (hquiet : t.Quiet fi) {e : EntryPtr}
    (hfile : t.opened fi = some (.file e)) (hsound : m.volume.SoundFile e) {off bufsiz : ℕ}
    (hoff : off ≤ Entry.eof (m.volume.entry e)) (hpos : 0 < bufsiz) (hsize : bufsiz < 2 ^ 31) :
    Corresponds m fuel
      ((s.stored fi (some (.opened (.file (handleAt m.volume e off))))).halfway thread
        (some ⟨fi, bufsiz⟩)) (t.halfway thread (some (⟨fi, bufsiz⟩, off))) := by
  have hstored := hc.stored hquiet (.some (.file hsound hoff))
  rw [Service.stored_self hfile] at hstored
  refine ⟨hstored.objects, fun thread' => ?_, fun thread' r o hreading => ?_,
    fun thread₁ thread₂ r₁ r₂ o₁ o₂ h₁ h₂ hfi => ?_⟩
  · rw [Server.halfway_reading, Service.halfway_reading]
    by_cases hthread : thread' = thread
    · rw [hthread, Function.update_self, Function.update_self]
      rfl
    · rw [Function.update_of_ne hthread, Function.update_of_ne hthread]
      exact hstored.reading thread'
  · rw [Service.halfway_reading] at hreading
    by_cases hthread : thread' = thread
    · rw [hthread, Function.update_self] at hreading
      cases hreading
      refine ⟨hpos, hsize, e, hfile, hsound, hoff, ?_⟩
      rw [Server.halfway_objects, Server.stored_objects, Function.update_self]
    · rw [Function.update_of_ne hthread] at hreading
      exact hstored.sought thread' r o hreading
  · -- the new request is the only one for its open file
    simp only [Service.halfway_reading, Function.update_apply] at h₁ h₂
    split at h₁ <;> split at h₂
    · exact ‹thread₁ = thread›.trans ‹thread₂ = thread›.symm
    · cases h₁
      exact absurd hfi.symm (hquiet thread₂ r₂ o₂ h₂)
    · cases h₂
      exact absurd hfi (hquiet thread₁ r₁ o₁ h₁)
    · exact hc.apart thread₁ thread₂ r₁ r₂ o₁ o₂ h₁ h₂ hfi

/-- And ends, with its handle somewhere else. -/
theorem ended (hc : Corresponds m fuel s t) {r : Reading} {off : ℕ} {e : EntryPtr}
    (hreading : t.reading thread = some (r, off)) (hfile : t.opened r.fi = some (.file e))
    (hsound : m.volume.SoundFile e) {p : ℕ} (hp : p ≤ Entry.eof (m.volume.entry e)) :
    Corresponds m fuel
      ((s.halfway thread none).stored r.fi (some (.opened (.file (handleAt m.volume e p)))))
      (t.halfway thread none) := by
  have hidle : ∀ {thread' r' off'},
      (t.halfway thread none).reading thread' = some (r', off') →
        thread' ≠ thread ∧ t.reading thread' = some (r', off') := by
    intro thread' r' off' h
    by_cases hthread : thread' = thread
    · rw [hthread, Service.halfway_reading, Function.update_self] at h
      cases h
    · rw [Service.halfway_reading, Function.update_of_ne hthread] at h
      exact ⟨hthread, h⟩
  have hhalfway : Corresponds m fuel (s.halfway thread none) (t.halfway thread none) := by
    refine ⟨hc.objects, fun thread' => ?_, fun thread' r' o h => hc.sought thread' r' o (hidle h).2,
      fun _ _ _ _ _ _ h₁ h₂ => hc.apart _ _ _ _ _ _ (hidle h₁).2 (hidle h₂).2⟩
    rw [Server.halfway_reading, Service.halfway_reading]
    by_cases hthread : thread' = thread
    · rw [hthread, Function.update_self, Function.update_self]
      rfl
    · rw [Function.update_of_ne hthread, Function.update_of_ne hthread]
      exact hc.reading thread'
  have hquiet : (t.halfway thread none).Quiet r.fi := fun thread' r' off' h hfi =>
    (hidle h).1 (hc.apart _ _ _ _ _ _ (hidle h).2 hreading hfi)
  have hstored := hhalfway.stored hquiet (.some (.file hsound hp))
  rwa [Service.stored_self (t := t.halfway thread none) hfile] at hstored

end Corresponds

/-! ### Every action -/

section
variable {m : Mount} {fuel : ℕ} {s : Server} {t : Service} {thread fi : ℕ} {path : Str}

/-- An action is answered as it should be, and what is there is what is open again. -/
def Answered (m : Mount) (fuel : ℕ) (s : Server) (t : Service) (i : ℕ × Action) : Prop :=
  ∃ reply s', Server.exec m fuel i s = (.ret reply, s') ∧ m.Allows t i reply ∧
    Corresponds m fuel s' (m.next t i)

theorem answered_getattr (hv : m.volume.Sound) (hc : Corresponds m fuel s t)
    (hpath : Serviceable fuel path) (st : Stat) :
    Answered m fuel s t (thread, .getattr path st) := by
  obtain ⟨r, st', err', hcall, hanswer⟩ := getattr_serves hv hpath st (s.errors thread)
  exact ⟨_, _, Call.bind_of_ret (Server.onThread_of_eq hcall), hanswer, hc.erred thread err'⟩

theorem answered_open (hv : m.volume.Sound) (hc : Corresponds m fuel s t)
    (hpath : Serviceable fuel path) (hfi : t.opened fi = none) :
    Answered m fuel s t (thread, .opens path fi) := by
  have hquiet : t.Quiet fi := hc.quiet fun e h => by
    rw [hfi] at h
    cases h
  have hcall := open_serves hv hpath (s.errors thread)
  simp only [Answered, Mount.Allows, Mount.next]
  cases hat : m.openFile path with
  | error errno =>
    rw [hat] at hcall
    obtain ⟨err', hcall⟩ := hcall
    exact ⟨_, _, Call.bind_of_ret (Server.onThread_of_eq hcall), rfl, hc.erred thread err'⟩
  | ok file =>
    rw [hat] at hcall
    obtain ⟨fh, err', hcall, hserves⟩ := hcall
    exact ⟨_, _, Call.bind_of_ret (Server.onThread_of_eq hcall), rfl,
      (hc.erred thread err').stored hquiet (.some hserves)⟩

theorem answered_read (hc : Corresponds m fuel s t) (hquiet : t.Quiet fi) {file : OpenFile}
    (hfile : t.opened fi = some file) (hfits : file.Fits path) {bufsiz : ℕ} {off : ℤ}
    (hreadable : file.Readable bufsiz off) :
    Answered m fuel s t (thread, .read path fi bufsiz off) := by
  obtain ⟨object, hobject, hserves⟩ := hc.exists_object hfile
  cases hserves with
  | @file e p hsound hp =>
    obtain ⟨hpos, hsize⟩ := hreadable
    have hnext : m.next t (thread, .read path fi bufsiz off)
        = if 0 ≤ off ∧ off ≤ Entry.eof (m.volume.entry e) then
            t.halfway thread (some (⟨fi, bufsiz⟩, off.toNat)) else t := by
      simp only [Mount.next, hfile]
    by_cases hinside : 0 ≤ off ∧ off ≤ Entry.eof (m.volume.entry e)
    · obtain ⟨q, rfl⟩ := Int.eq_ofNat_of_zero_le hinside.1
      have hq : q ≤ Entry.eof (m.volume.entry e) := by exact_mod_cast hinside.2
      have hseek : FileHandle.seek m.volume (q : ℤ) seekSet (handleAt m.volume e p, s.errors thread)
          = (.ret (q : ℤ), (handleAt m.volume e q, s.errors thread)) :=
        (seek_eq_ret_iff hsound.isFile hq).mpr ⟨hsound.seekable hq, rfl, rfl⟩
      have hcall := Server.exec_read_of_nonneg fuel bufsiz hfits hobject hseek (by omega)
      refine ⟨_, _, hcall, ⟨_, hfile, by simp only [Mount.ReadAnswer, if_pos hinside]⟩, ?_⟩
      rw [hnext, if_pos hinside]
      exact (hc.begun hquiet hfile hsound hq hpos hsize).erred thread _
    · have hout : off < 0 ∨ (Entry.eof (m.volume.entry e) : ℤ) < off := by omega
      have hseek := seek_of_out hout p (s.errors thread)
      have hcall := Server.exec_read_of_neg fuel bufsiz hfits hobject hseek (by decide)
      refine ⟨_, _, hcall, ⟨_, hfile, ?_⟩, ?_⟩
      · simp only [Mount.ReadAnswer, if_neg hinside]
        rfl
      · have hstored := hc.stored hquiet (.some (.file hsound hp))
        rw [hnext, if_neg hinside]
        rw [Service.stored_self hfile] at hstored
        exact hstored.erred thread _
  | @text text hshort =>
    cases text with
    | none => exact hreadable.elim
    | some text =>
      have hcall := @read_text_serves m path hfits text bufsiz off hreadable (hshort text rfl)
        (s.errors thread)
      have hnext : m.next t (thread, .read path fi bufsiz off) = t := by
        simp only [Mount.next, hfile]
      have hstored := hc.stored hquiet (.some (.text hshort))
      rw [Service.stored_self hfile] at hstored
      refine ⟨_, _, Server.exec_read_of_virtual fuel bufsiz hfits hobject hcall,
        ⟨_, hfile, rfl⟩, ?_⟩
      rw [hnext]
      exact hstored.erred thread _
  | directory ahead few => exact hreadable.elim

theorem answered_readOn (hc : Corresponds m fuel s t) {r : Reading} {off : ℕ}
    (hreading : t.reading thread = some (r, off)) : Answered m fuel s t (thread, .readOn) := by
  obtain ⟨hpos, hsize, e, hfile, hsound, hoff, hobject⟩ := hc.sought thread r off hreading
  obtain ⟨buf, p, err', hcall, hp, hpart⟩ := hsound.readBuffer hoff hpos hsize (s.errors thread)
  have hs : s.reading thread = some r := by rw [hc.reading, hreading]; rfl
  exact ⟨_, _, Server.exec_readOn fuel r.bufsiz hs hobject hcall,
    ⟨r, off, e, hreading, hfile, hpart⟩, (hc.ended hreading hfile hsound hp).erred thread err'⟩

theorem answered_release (hc : Corresponds m fuel s t) (hquiet : t.Quiet fi) {file : OpenFile}
    (hfile : t.opened fi = some file) (hfits : file.Fits path) :
    Answered m fuel s t (thread, .release path fi) := by
  obtain ⟨object, hobject, hserves⟩ := hc.exists_object hfile
  cases object with
  | directory dh =>
    cases hserves
    exact hfits.elim
  | opened fh =>
    obtain ⟨fh', hcall⟩ := close_serves hserves hfits (s.errors thread)
    have hclosed := (hc.stored hquiet .none).erred thread (s.errors thread)
    rw [← Server.stored_erred_stored (some (.opened fh'))] at hclosed
    exact ⟨_, _, Call.bind_of_ret (Server.onOpened_of_eq hobject hcall), rfl, hclosed⟩

theorem answered_getxattr (hv : m.volume.Sound) (hc : Corresponds m fuel s t)
    (hpath : Serviceable fuel path) (name : Str) (size : ℕ) :
    Answered m fuel s t (thread, .getxattr path name size) := by
  obtain ⟨r, buf, err', hcall, hanswer⟩ := getxattr_serves hv hpath name size (s.errors thread)
  exact ⟨_, _, Call.bind_of_ret (Server.onThread_of_eq hcall), hanswer, hc.erred thread err'⟩

theorem answered_listxattr (hv : m.volume.Sound) (hc : Corresponds m fuel s t)
    (hpath : Serviceable fuel path) (size : ℕ) :
    Answered m fuel s t (thread, .listxattr path size) := by
  obtain ⟨r, buf, err', hcall, hanswer⟩ := listxattr_serves hv hpath size (s.errors thread)
  exact ⟨_, _, Call.bind_of_ret (Server.onThread_of_eq hcall), hanswer, hc.erred thread err'⟩

theorem answered_opendir (hv : m.volume.Sound) (hc : Corresponds m fuel s t)
    (hpath : Serviceable fuel path) (hfi : t.opened fi = none) :
    Answered m fuel s t (thread, .opendir path fi) := by
  have hquiet : t.Quiet fi := hc.quiet fun e h => by
    rw [hfi] at h
    cases h
  have hcall := opendir_serves hv hpath (s.errors thread)
  simp only [Answered, Mount.Allows, Mount.next]
  cases hat : m.volume.directoryAt path with
  | error missing =>
    rw [hat] at hcall
    obtain ⟨err', hcall⟩ := hcall
    exact ⟨_, _, Call.bind_of_ret (Server.onThread_of_eq hcall), rfl, hc.erred thread err'⟩
  | ok key =>
    rw [hat] at hcall
    obtain ⟨dh, err', hcall, hserves⟩ := hcall
    exact ⟨_, _, Call.bind_of_ret (Server.onThread_of_eq hcall), rfl,
      (hc.erred thread err').stored hquiet (.some hserves)⟩

/-- An open directory is not read as a file. -/
theorem Corresponds.exists_directory (hc : Corresponds m fuel s t) {left : List EntryPtr}
    (hfile : t.opened fi = some (.directory left)) :
    t.Quiet fi ∧ ∃ dh, s.objects fi = some (.directory dh) ∧
      Serves m fuel (.directory dh) (.directory left) := by
  refine ⟨hc.quiet fun e h => ?_, ?_⟩
  · rw [hfile] at h
    cases h
  · obtain ⟨object, hobject, hserves⟩ := hc.exists_object hfile
    cases hserves with
    | directory ahead few => exact ⟨_, hobject, .directory ahead few⟩

theorem answered_readdir (hc : Corresponds m fuel s t) {left : List EntryPtr}
    (hfile : t.opened fi = some (.directory left)) (filler : List Str → Str → Bool) :
    Answered m fuel s t (thread, .readdir fi filler) := by
  obtain ⟨hquiet, dh, hobject, hserves⟩ := hc.exists_directory hfile
  obtain ⟨r, names, dh', err', hcall, hanswer, hserves'⟩ :=
    readdir_serves hserves filler (s.errors thread)
  have hnext : m.next t (thread, .readdir fi filler)
      = t.stored fi (some (.directory (m.listing filler left).2.1)) := by
    simp only [Mount.next, hfile]
  refine ⟨_, _, Call.bind_of_ret (Server.onDirectory_of_eq hobject hcall), ⟨left, hfile, hanswer⟩,
    ?_⟩
  rw [hnext]
  exact (hc.stored hquiet (.some hserves')).erred thread err'

theorem answered_releasedir (hc : Corresponds m fuel s t) {left : List EntryPtr}
    (hfile : t.opened fi = some (.directory left)) :
    Answered m fuel s t (thread, .releasedir fi) := by
  obtain ⟨hquiet, dh, hobject, -⟩ := hc.exists_directory hfile
  have hcall : prodosfsClosedir (dh, s.errors thread)
      = (.ret 0, (⟨none, none, 0, 0⟩, s.errors thread)) := rfl
  have hclosed := (hc.stored hquiet .none).erred thread (s.errors thread)
  rw [← Server.stored_erred_stored (some (.directory ⟨none, none, 0, 0⟩))] at hclosed
  exact ⟨_, _, Call.bind_of_ret (Server.onDirectory_of_eq hobject hcall), rfl, hclosed⟩

/-- **One action of any thread is answered as it should be**, on a sound volume. -/
theorem refines_service (hv : m.volume.Sound) :
    (m.service fuel).Refines (Server.exec m fuel) (Corresponds m fuel) := by
  rintro s t ⟨thread, action⟩ hc hmeant
  cases action with
  | getattr path st => exact answered_getattr hv hc hmeant.2 st
  | opens path fi => exact answered_open hv hc hmeant.2.1 hmeant.2.2
  | read path fi bufsiz off =>
    obtain ⟨-, hquiet, file, hfile, hfits, hreadable⟩ := hmeant
    exact answered_read hc hquiet hfile hfits hreadable
  | readOn =>
    obtain ⟨r, off, hreading⟩ := hmeant
    exact answered_readOn hc hreading
  | release path fi =>
    obtain ⟨-, hquiet, file, hfile, hfits⟩ := hmeant
    exact answered_release hc hquiet hfile hfits
  | getxattr path name size => exact answered_getxattr hv hc hmeant.2 name size
  | listxattr path size => exact answered_listxattr hv hc hmeant.2 size
  | opendir path fi => exact answered_opendir hv hc hmeant.2.1 hmeant.2.2
  | readdir fi filler =>
    obtain ⟨-, left, hfile⟩ := hmeant
    exact answered_readdir hc hfile filler
  | releasedir fi =>
    obtain ⟨-, left, hfile⟩ := hmeant
    exact answered_releasedir hc hfile

theorem isSome_eq_of_rel {object : Option Object} {file : Option OpenFile}
    (h : Option.Rel (Serves m fuel) object file) : object.isSome = file.isSome := by
  cases h <;> rfl

/-- Nothing is open, and there is nothing. -/
theorem corresponds_start (errors : ℕ → Err) : Corresponds m fuel (.start errors) .start where
  objects _ := .none
  reading _ := rfl
  sought _ _ _ h := by cases h
  apart _ _ _ _ _ _ h := by cases h

/-- **Every run is served.** On a sound volume, whatever actions of any threads come after one
another, if each is meant for what is open by then, all of them are answered, as they should be; and
there are objects for just the files that are open in the end. -/
theorem serves_every_run (hv : m.volume.Sound) {actions : List (ℕ × Action)}
    (hobeys : (m.service fuel).Obeys .start actions) (errors : ℕ → Err) :
    ∃ run s', run.map Prod.fst = actions ∧
      Call.Replies (Server.exec m fuel) (.start errors) run s' ∧
      (m.service fuel).Answered .start run ∧
      ∀ fi, (s'.objects fi).isSome
        = (((m.service fuel).after .start actions).opened fi).isSome := by
  obtain ⟨run, s', hrun, hreplies, hanswered, hc⟩ :=
    (refines_service hv).run (corresponds_start errors) hobeys
  exact ⟨run, s', hrun, hreplies, hanswered, fun fi => isSome_eq_of_rel (hc.objects fi)⟩

end

/-! ### The small volume -/

theorem sound_small : smallVolume.Sound where
  accepted := accepted_small
  wellFormed := wellFormed_small
  bitmap := by
    rw [Volume.BitmapInside]
    decide
  entry hreach hkey e he := by
    have hmem := survey_small.mem hreach hkey
    have hall : ∀ d ∈ smallSurvey, ∀ e ∈ d.2, Entry.isDirectory (smallVolume.entry e) ∨
        Entry.storageType (smallVolume.entry e) = storageTypeSeedlingFile ∧
          Entry.keyPointer (smallVolume.entry e) < 16 ∧ Entry.eof (smallVolume.entry e) ≤ 512 := by
      decide
    refine (hall _ hmem e he).imp_right ?_
    rintro ⟨htype, hpointer, heof⟩
    exact
      { isFile := isFile_iff.mpr (Or.inl htype)
        pointers :=
          { key := Or.inr hpointer
            index := fun hne => absurd htype hne
            data := fun htree => absurd (htype.symm.trans htree) (by decide) }
        legal := ⟨fun _ => heof, fun hsapling => absurd (htype.symm.trans hsapling) (by decide)⟩
        within := fun hpast => absurd (htype.symm.trans hpast.1) (by decide) }

theorem openFile_small : (smallMount .off).openFile (ascii "/T") = .ok (.file textFile) := by
  have hfind : smallVolume.tree.find (.image Volume.root) (ascii "T") = some textFile := by
    rw [find_eq wellFormed_small .root root_small (by decide)]
    decide
  have hsplit : splitPath (ascii "/T") = [ascii "T"] := by decide
  have hat : smallVolume.atPath (ascii "/T") = .ok textFile := by
    rw [Volume.atPath_of_ne_root (by decide), hsplit]
    exact NameTree.lookup_last hfind
  have hname : prodosFilename .off (ascii "/T") = ascii "/T" := by decide
  have hid : virtualFileId (ascii "/T") ≠ .catalog := by decide
  simp only [Mount.openFile, smallMount, hname, if_neg hid, hat]
  exact if_pos (by decide)

/-- The text file is opened twice, and the two open files are read at the same time. -/
theorem serves_every_run_small :
    let actions : List (ℕ × Action) :=
      [(0, .opens (ascii "/T") 0), (1, .opens (ascii "/T") 1), (0, .read (ascii "/T") 0 2 0),
        (1, .read (ascii "/T") 1 2 1), (0, .readOn), (1, .readOn), (0, .release (ascii "/T") 0),
        (1, .release (ascii "/T") 1)]
    ∃ run s', run.map Prod.fst = actions ∧
      Call.Replies (Server.exec (smallMount .off) 2000000) (.start fun _ => .none) run s' ∧
      ((smallMount .off).service 2000000).Answered .start run ∧
      ∀ fi, (s'.objects fi).isSome
        = ((((smallMount .off).service 2000000).after .start actions).opened fi).isSome := by
  refine serves_every_run sound_small ?_ fun _ => .none
  have hpath : Serviceable 2000000 (ascii "/T") := ⟨by decide, by decide⟩
  have hid : virtualFileId (ascii "/T") ≠ .catalog := by decide
  have heof : Entry.eof ((smallMount .off).volume.entry textFile) = 3 := by decide
  simp [Specification.Obeys, Mount.service, Service.Meant, Mount.next, openFile_small, hpath, hid,
    heof, Service.Quiet, Service.start, OpenFile.Fits, OpenFile.Readable, Function.update_apply]
  -- no other thread is reading
  constructor
  · intro thread r off hone hzero h
    simp [hone, hzero] at h
  · intro thread r off hone hzero h
    simp [hone, hzero] at h

end Prodosfs
