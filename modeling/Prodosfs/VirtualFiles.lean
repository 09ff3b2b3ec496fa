import Prodosfs.Faults
import Prodosfs.Rewind
import Prodosfs.Slots

/-!
# The virtual file

Every directory has a file `.CATALOG` that is not on the disk. Its text is made when it is opened,
and what `open` leaves in `fi->fh` is then a string and not a file handle. There is no mark on
`fi->fh` that says which of them it is. `read` and `close` go by the path, as `open` does.

They do not go by the same path. `open` takes the suffix off first, and `read` and `close` do not;
so a path that is the one of the virtual file only with its suffix, or only without it, gets an
object that is then taken for the other kind.

The string may also be missing. When the parent of the path is no directory there is no catalogue,
but `open` does not say so, and `read` goes through a null pointer. And a read from behind the end
of the text throws, although `getattr` makes the file as long as any file can be.

## Main definitions

* `Fh.kind` — what an object is, by the kind of file it belongs to
* `FhOp`, `FhOp.exec` — what is done with an open file
* `FhOp.Proper` — it is not undefined for an object of the right kind
* `afterReads` — what some reads leave of the object and the error
* `Volume.HasDirectory`, `Volume.HasFile` — what the tree of names has under a path
* `Mount.ServesCatalog` — the virtual file can be opened and read like any other

## Main results

* `exec_of_kind_ne`, `exec_ne_fault` — an operation on an object of the other kind, and of its own
* `kinds_agree_iff` — when an object is always taken for what it is
* `servesCatalog_iff` — when the virtual file can be read
-/

namespace Prodosfs

/-! ### What an object is taken for -/

/-- The kind of file an object belongs to. -/
def Fh.kind : Fh → VirtualFileId
  | .catalog _ => .catalog
  | .file _ => .none

/-- What is done with an open file, under the path it was opened with. -/
inductive FhOp where
  | read (bufsiz : ℕ) (off : ℤ)
  | close

/-- The operation is one that an object of its kind can be asked for: the bytes are no more than an
`int` can count, and are not those of a null pointer. -/
def FhOp.Proper (fh : Fh) : FhOp → Prop
  | .read bufsiz _ => bufsiz < 2 ^ 31 ∧ fh ≠ .catalog none
  | .close => True

/-- Carry out an operation; what it returns is dropped. -/
def FhOp.exec (m : Mount) (path : Str) : FhOp → Call Exn (Fh × Err) Unit
  | .read bufsiz off => do
    let _ ← prodosfsRead m path bufsiz off
    pure ()
  | .close => do
    let _ ← prodosfsClose path
    pure ()

section
variable {m : Mount} {fuel : ℕ} {path : Str} {err err' : Err}

/-- `open` goes by the path without its suffix. -/
theorem kind_of_open {r : ℤ} {fh : Fh}
    (hopen : prodosfsOpen m fuel path err = (.ret (r, some fh), err')) :
    fh.kind = virtualFileId (prodosFilename m.extensionMode path) := by
  rw [prodosfsOpen] at hopen
  cases hid : virtualFileId (prodosFilename m.extensionMode path) with
  | catalog =>
    rw [if_pos ⟨by decide, hid⟩, Call.bind_eq_ret_iff] at hopen
    obtain ⟨text, t, -, hret⟩ := hopen
    cases hret
    rfl
  | none =>
    rw [if_neg (by simp [hid]), if_neg (by simp [hid]), Call.bind_eq_ret_iff] at hopen
    obtain ⟨h, t, -, hret⟩ := hopen
    cases h with
    | none => cases hret
    | some h =>
      cases hret
      rfl

theorem kind_onFile {α : Type} (call : Call Exn (FileHandle × Err) α) (s : Fh × Err) :
    (onFile call s).2.1.kind = s.1.kind := by
  obtain ⟨_ | _, err⟩ := s
  · rfl
  · rfl

theorem copyText_snd {σ : Type} (text : Str) (bufsiz : ℕ) (off : ℤ) (s : σ) :
    (copyText text bufsiz off s).2 = s := by
  rw [copyText]
  split
  · rfl
  · rfl

/-- Reading the virtual file changes nothing. -/
theorem read_virtual_snd (hpath : virtualFileId path = .catalog) (bufsiz : ℕ) (off : ℤ)
    (s : Fh × Err) : (prodosfsRead m path bufsiz off s).2 = s := by
  rw [prodosfsRead, if_pos (isVirtual_iff.mpr hpath), Call.get_bind_apply]
  rcases s with ⟨(_ | text) | h, err⟩
  · rfl
  · exact (Call.bind_snd (fun _ _ => rfl) _).trans (copyText_snd text bufsiz off _)
  · rfl

/-- No operation makes an object of the other kind of it. -/
theorem kind_exec (op : FhOp) (s : Fh × Err) :
    (FhOp.exec m path op s).2.1.kind = s.1.kind := by
  cases op with
  | read bufsiz off =>
    rw [FhOp.exec, Call.bind_snd fun _ _ => rfl]
    by_cases hpath : virtualFileId path = .catalog
    · rw [read_virtual_snd hpath]
    · rw [prodosfsRead, if_neg (isVirtual_iff.not.mpr hpath)]
      exact kind_onFile _ s
  | close =>
    rw [FhOp.exec, Call.bind_snd fun _ _ => rfl, prodosfsClose]
    split
    · obtain ⟨_ | h, err⟩ := s
      · rfl
      · rfl
    · rw [Call.bind_snd fun _ _ => rfl]
      exact kind_onFile _ s

/-- An operation on an object of the other kind is undefined. -/
theorem exec_of_kind_ne {s : Fh × Err} (hkind : s.1.kind ≠ virtualFileId path) (op : FhOp) :
    FhOp.exec m path op s = (.fault, s) := by
  obtain ⟨text | h, err⟩ := s
  · have hpath : ¬ (virtualFileMode ≠ .none ∧ virtualFileId path ≠ .none) := by
      rw [isVirtual_iff]
      exact fun h => hkind h.symm
    cases op with
    | read bufsiz off =>
      rw [FhOp.exec, prodosfsRead, if_neg hpath]
      rfl
    | close =>
      rw [FhOp.exec, prodosfsClose, if_neg hpath]
      rfl
  · have hpath : virtualFileMode ≠ .none ∧ virtualFileId path ≠ .none :=
      ⟨by decide, fun h => hkind h.symm⟩
    cases op with
    | read bufsiz off =>
      rw [FhOp.exec, prodosfsRead, if_pos hpath]
      rfl
    | close =>
      rw [FhOp.exec, prodosfsClose, if_pos hpath]
      rfl

/-- The pointers of an object are still there after a read, and so is a catalogue. -/
theorem sane_exec_read {s : Fh × Err} (hs : s.1.Sane) (bufsiz : ℕ) (off : ℤ) :
    (FhOp.exec m path (.read bufsiz off) s).2.1.Sane ∧
      ((FhOp.exec m path (.read bufsiz off) s).2.1 = .catalog none → s.1 = .catalog none) := by
  rw [FhOp.exec, Call.bind_snd fun _ _ => rfl]
  by_cases hpath : virtualFileId path = .catalog
  · rw [read_virtual_snd hpath]
    exact ⟨hs, id⟩
  · rw [prodosfsRead, if_neg (isVirtual_iff.not.mpr hpath)]
    obtain ⟨text | h, err⟩ := s
    · exact ⟨hs, id⟩
    · exact ⟨sane_readFile bufsiz off (s := (h, err)) hs, fun h => by cases h⟩

/-- An operation on an object of its own kind is defined. -/
theorem exec_ne_fault {s : Fh × Err} (hkind : s.1.kind = virtualFileId path) (hs : s.1.Sane)
    {op : FhOp} (hop : op.Proper s.1) : (FhOp.exec m path op s).1 ≠ .fault := by
  have hexec : ∀ {α : Type} (call : Call Exn (Fh × Err) α), (call s).1 ≠ .fault →
      ((do let _ ← call; pure () : Call Exn (Fh × Err) Unit) s).1 ≠ .fault := by
    intro α call hcall
    rw [Call.bind_apply]
    rcases h : call s with ⟨a | e | _ | _, t⟩
    · simp
    · simp
    · rw [h] at hcall
      exact absurd rfl hcall
    · simp
  obtain ⟨text | h, err⟩ := s
  · have hpath : virtualFileId path = .catalog := hkind.symm
    cases op with
    | read bufsiz off =>
      cases text with
      | none => exact absurd rfl hop.2
      | some text =>
        exact hexec _ ((leaves_read_catalog m hpath text bufsiz off err).ne_fault fun _ h => h)
    | close =>
      refine hexec _ ?_
      rw [prodosfsClose, if_pos (isVirtual_iff.mpr hpath)]
      exact fun h => by cases h
  · have hpath : ¬ (virtualFileMode ≠ .none ∧ virtualFileId path ≠ .none) := fun h =>
      h.2 hkind.symm
    cases op with
    | read bufsiz off =>
      refine hexec _ ?_
      rw [prodosfsRead, if_neg hpath]
      exact (faultless_readFile hop.1 off).ne_fault (s := (h, err)) hs
    | close =>
      refine hexec _ ?_
      rw [prodosfsClose, if_neg hpath]
      exact fun h => by cases h

/-- The state after some reads, however these have ended. -/
def afterReads (m : Mount) (path : Str) (s : Fh × Err) (reads : List (ℕ × ℤ)) : Fh × Err :=
  Call.after (fun read => FhOp.exec m path (.read read.1 read.2)) s reads

/-- **An object is never taken for one of the other kind if and only if** the path has a virtual
file with its suffix just when it has one without. In a run of reads and perhaps a `close` no
operation is undefined then, unless it reads from a null pointer or more bytes than an `int` can
count. Otherwise the first operation already is, whichever it is. -/
theorem kinds_agree_iff {r : ℤ} {fh : Fh}
    (hopen : prodosfsOpen m fuel path err = (.ret (r, some fh), err')) :
    ((∀ (reads : List (ℕ × ℤ)) (op : FhOp), op.Proper fh →
        (FhOp.exec m path op (afterReads m path (fh, err') reads)).1 ≠ .fault) ↔
      virtualFileId path = virtualFileId (prodosFilename m.extensionMode path)) ∧
    (virtualFileId path ≠ virtualFileId (prodosFilename m.extensionMode path) →
      ∀ op : FhOp, FhOp.exec m path op (fh, err') = (.fault, (fh, err'))) := by
  have hkind := kind_of_open hopen
  have hother : virtualFileId path ≠ virtualFileId (prodosFilename m.extensionMode path) →
      ∀ op : FhOp, FhOp.exec m path op (fh, err') = (.fault, (fh, err')) := fun hids =>
    exec_of_kind_ne fun h => hids (h.symm.trans hkind)
  refine ⟨⟨fun hagree => ?_, fun hids reads op hop => ?_⟩, hother⟩
  · by_contra hids
    exact hagree [] .close trivial (congrArg Prod.fst (hother hids .close))
  · have hrun : (afterReads m path (fh, err') reads).1.kind = virtualFileId path ∧
        (afterReads m path (fh, err') reads).1.Sane ∧
        ((afterReads m path (fh, err') reads).1 = .catalog none → fh = .catalog none) := by
      refine Call.after_invariant (I := fun s : Fh × Err => s.1.kind = virtualFileId path ∧
        s.1.Sane ∧ (s.1 = .catalog none → fh = .catalog none)) (fun read s hs => ?_) reads
        ⟨hkind.trans hids.symm, sane_of_open m fuel hopen, id⟩
      obtain ⟨hsane, hnull⟩ := @sane_exec_read m path _ hs.2.1 read.1 read.2
      exact ⟨(kind_exec _ s).trans hs.1, hsane, hs.2.2 ∘ hnull⟩
    refine exec_ne_fault hrun.1 hrun.2.1 ?_
    cases op with
    | read bufsiz off => exact ⟨hop.1, fun h => hop.2 (hrun.2.2 h)⟩
    | close => trivial

end

/-- A volume with an empty text file that has the name of the virtual file. -/
def shadowVolume : Volume :=
  ⟨Disk.ofImage (.sparse 4096 (headerBytes 1028 0xF 65 1 8 ++
    [(1067, 0x18), (1068, 46), (1069, 67), (1070, 65), (1071, 84), (1072, 65), (1073, 76),
      (1074, 79), (1075, 71), (1083, 0x04), (1084, 3)])) fun _ => 0⟩

def shadowMount : Mount := { smallMount .on with volume := shadowVolume }

theorem accepted_shadow : shadowVolume.Accepted := by decide

/-- The file is listed, and found under the name it is listed by. -/
theorem iterates_shadow :
    Iterates shadowVolume 65536 (.opened (.image Volume.root)) [⟨.image 1024, 1⟩] := by
  have hc : BlockChain shadowVolume (.image 1024) [] :=
    ⟨.last (by decide), by decide, by decide, by decide⟩
  have hslots : activeSlots shadowVolume (.image 1024) [] = [⟨.image 1024, 1⟩] := by decide
  have hr : Remaining shadowVolume 65536 (.image 1024) (.opened (.image 1024))
      [⟨.image 1024, 1⟩] := hslots ▸ hc.remaining (by decide)
  exact hr.iterates (by decide)

/-- With or without the suffix, `open` makes a catalogue for the name of that file. -/
theorem open_shadow (path : Str)
    (hpath : prodosFilename .on path = ascii "/.CATALOG") :
    ∃ text, prodosfsOpen shadowMount 65536 path .none
      = (.ret (0, some (.catalog (some text))), .endOfFile) := by
  obtain ⟨text, hcatalog⟩ := catalog_of_bitmapInside accepted_shadow iterates_shadow (by decide)
    (by show shadowVolume.bitMapPointer + _ ≤ _; decide)
    (show parentPath (ascii "/.CATALOG") = ascii "/" by decide) .none
  refine ⟨text, ?_⟩
  have hfilename : prodosFilename shadowMount.extensionMode path = ascii "/.CATALOG" := hpath
  rw [prodosfsOpen, hfilename, if_pos (by decide)]
  exact Call.bind_of_ret hcatalog

/-- Under the name without a suffix the catalogue is read and closed as a catalogue, and under the
name it is listed by nothing can be done with it. -/
theorem kinds_agree_iff_shadow :
    ∃ text text' err',
      prodosfsOpen shadowMount 65536 (ascii "/.CATALOG") .none
        = (.ret (0, some (.catalog (some text))), err') ∧
      (∀ reads, (FhOp.exec shadowMount (ascii "/.CATALOG") .close (afterReads shadowMount
        (ascii "/.CATALOG") (.catalog (some text), err') reads)).1 ≠ .fault) ∧
      prodosfsOpen shadowMount 65536 (ascii "/.CATALOG:TXT") .none
        = (.ret (0, some (.catalog (some text'))), err') ∧
      ∀ op, FhOp.exec shadowMount (ascii "/.CATALOG:TXT") op (.catalog (some text'), err')
        = (.fault, (.catalog (some text'), err')) := by
  obtain ⟨text, hopen⟩ := open_shadow (ascii "/.CATALOG") (by decide)
  obtain ⟨text', hopen'⟩ := open_shadow (ascii "/.CATALOG:TXT") (by decide)
  refine ⟨text, text', _, hopen, fun reads => ?_, hopen', ?_⟩
  · exact (kinds_agree_iff hopen).1.mpr (by decide) reads .close trivial
  · exact (kinds_agree_iff hopen').2 (by decide)

/-- Under the name it is listed by, the catalogue is closed as a file handle. -/
theorem not_kinds_agree_shadow :
    ¬ ∀ (m : Mount) (fuel : ℕ) (path : Str) (err err' : Err) (r : ℤ) (fh : Fh),
      m.volume.Accepted → prodosfsOpen m fuel path err = (.ret (r, some fh), err') →
      ∀ (reads : List (ℕ × ℤ)) (op : FhOp), op.Proper fh →
        (FhOp.exec m path op (afterReads m path (fh, err') reads)).1 ≠ .fault := by
  intro hclaim
  obtain ⟨text, hopen⟩ := open_shadow (ascii "/.CATALOG:TXT") (by decide)
  exact hclaim shadowMount 65536 _ .none _ _ _ accepted_shadow hopen [] .close trivial rfl

/-! ### Reading the virtual file -/

/-- A path names a directory with the entries `es`. -/
def Volume.NamesDirectory (v : Volume) (fuel : ℕ) (err : Err) (path : Str) (es : List EntryPtr) :
    Prop :=
  ∃ key err', openDirectory v fuel path err = (.ret (some (.opened key)), err') ∧
    Iterates v fuel (.opened key) es ∧ es.length + 1 ≤ fuel

/-- A path is looked up, and there is no file. -/
def Volume.NamesNoFile (v : Volume) (fuel : ℕ) (err : Err) (path : Str) : Prop :=
  ∃ entry err', getEntry v fuel path err = (.ret entry, err') ∧
    ∀ e, entry = some e → Entry.isFile (v.entry e) = false

section
variable {v : Volume} {key : BlockPtr} {path : Str}

theorem parentPath_sublist (pathname : Str) : (parentPath pathname).Sublist pathname := by
  rw [parentPath]
  split
  · exact List.Sublist.refl pathname
  · dsimp only
    split
    · rename_i hroot
      cases pathname with
      | nil => exact absurd hroot.2 (by decide)
      | cons c rest =>
        obtain rfl : c = 47 := hroot.2
        exact List.cons_sublist_cons.mpr (List.nil_sublist rest)
    · have hlast := List.dropWhile_sublist (l := pathname.reverse) (· ≠ 47)
      have hsub := (List.dropWhile_sublist (· == 47)).trans hlast
      simpa using hsub.reverse

/-- The directory with the key block `key` has the path `path`. -/
def Volume.HasDirectory (v : Volume) (path : Str) (key : BlockPtr) : Prop :=
  if path = ascii "/" then key = .image Volume.root
  else ∃ e, v.lookup (splitPath path) = .ok e ∧ Entry.isDirectory (v.entry e) ∧ key = v.keyBlock e

/-- A file has the path `path`. -/
def Volume.HasFile (v : Volume) (path : Str) : Prop :=
  path ≠ ascii "/" ∧ ∃ e, v.lookup (splitPath path) = .ok e ∧ Entry.isFile (v.entry e)

theorem Volume.HasDirectory.reachable (hwf : v.WellFormed) (h : v.HasDirectory path key) :
    v.Reachable key := by
  rw [Volume.HasDirectory] at h
  split at h
  · exact h ▸ .root
  · obtain ⟨e, hlookup, hdir, rfl⟩ := h
    obtain ⟨key, es, hreach, hkey, hmem⟩ := mem_of_lookup_eq_ok hwf hlookup
    exact .child hreach hkey hmem hdir

/-- In a sound volume `OpenDirectory` opens the directory that has the path. -/
theorem openDirectory_iff (hv : v.Accepted) (hwf : v.WellFormed) (hnul : 0 ∉ path) {fuel : ℕ}
    (hfuel : 65536 * ((splitPath path).length + 14) ≤ fuel) (err err' : Err) :
    openDirectory v fuel path err = (.ret (some (.opened key)), err') ↔
      v.HasDirectory path key ∧ err' = err := by
  rw [Volume.HasDirectory]
  by_cases hroot : path = ascii "/"
  · rw [if_pos hroot, hroot, openDirectory_root hv]
    constructor
    · intro h
      cases h
      exact ⟨rfl, rfl⟩
    · rintro ⟨rfl, rfl⟩
      rfl
  · have hentry := getEntry_eq_atPath hwf hnul hfuel err
    rw [Volume.atPath_of_ne_root hroot] at hentry
    rw [if_neg hroot, openDirectory, if_neg hroot]
    cases hlookup : v.lookup (splitPath path) with
    | error missing =>
      rw [hlookup] at hentry
      obtain ⟨err'', hnone⟩ := lookupOutcome_error err missing
      rw [Call.bind_of_ret (hentry.trans hnone)]
      exact iff_of_false (by simp) (by simp)
    | ok e =>
      rw [hlookup] at hentry
      rw [Call.bind_of_ret hentry]
      simp only [Call.ite_apply, Except.ok.injEq, exists_eq_left']
      by_cases hdir : Entry.isDirectory (v.entry e)
      · obtain ⟨key', es, hreach, hkey, hmem⟩ := mem_of_lookup_eq_ok hwf hlookup
        obtain ⟨es', hchild⟩ := hwf.directory (.child hreach hkey hmem hdir)
        have hread : v.readBlock (Entry.keyPointer (v.entry e)) err = (.ret (v.keyBlock e), err) :=
          Volume.readBlock_of_lt (hwf.keyPointer hreach hkey e hmem hdir) err
        have hcreate := create_of_isKeyBlock hchild.isKeyBlock err
        rw [if_neg (by simp [hdir]), Call.bind_of_ret hread, Call.bind_of_ret hcreate]
        constructor
        · intro h
          cases h
          exact ⟨⟨hdir, rfl⟩, rfl⟩
        · rintro ⟨⟨-, rfl⟩, rfl⟩
          rfl
      · rw [if_pos (by simpa using hdir)]
        refine iff_of_false ?_ (fun h => hdir h.1.1)
        intro h
        cases h

/-- In a sound volume the paths that name a directory are the paths of the directories. -/
theorem namesDirectory_iff (hv : v.Accepted) (hwf : v.WellFormed) (hnul : 0 ∉ path) {fuel : ℕ}
    (hfuel : 65536 * ((splitPath path).length + 14) ≤ fuel) (err : Err) (es : List EntryPtr) :
    v.NamesDirectory fuel err path es ↔ ∃ key, v.HasDirectory path key ∧ DirectoryAt v key es := by
  have hbound : 14 * 65536 ≤ fuel := by omega
  constructor
  · rintro ⟨key, err', hopen, hit, -⟩
    obtain ⟨hpath, -⟩ := (openDirectory_iff hv hwf hnul hfuel err err').mp hopen
    obtain ⟨es', hkey⟩ := hwf.directory (hpath.reachable hwf)
    obtain rfl := hit.unique (hkey.iterates hbound)
    exact ⟨key, hpath, hkey⟩
  · rintro ⟨key, hpath, hkey⟩
    have hlength := hkey.length_lt
    exact ⟨key, err, (openDirectory_iff hv hwf hnul hfuel err err).mpr ⟨hpath, rfl⟩,
      hkey.iterates hbound, by omega⟩

/-- And the paths that name no file are those that no file has. -/
theorem namesNoFile_iff (hv : v.Accepted) (hwf : v.WellFormed) (hnul : 0 ∉ path) {fuel : ℕ}
    (hfuel : 65536 * ((splitPath path).length + 14) ≤ fuel) (err : Err) :
    v.NamesNoFile fuel err path ↔ ¬ v.HasFile path := by
  rw [Volume.HasFile]
  by_cases hroot : path = ascii "/"
  · have hentry : getEntry v fuel path err = (.ret (some ⟨.image Volume.root, 0⟩), err) := by
      rw [hroot]
      rfl
    refine iff_of_true ⟨_, _, hentry, ?_⟩ fun h => h.1 hroot
    rintro e ⟨rfl⟩
    exact isFile_root hv
  · have hentry := getEntry_eq_atPath hwf hnul hfuel err
    rw [Volume.atPath_of_ne_root hroot] at hentry
    cases hlookup : v.lookup (splitPath path) with
    | error missing =>
      rw [hlookup] at hentry
      obtain ⟨err', hnone⟩ := lookupOutcome_error err missing
      exact iff_of_true ⟨_, _, hentry.trans hnone, by simp⟩ (by simp)
    | ok e =>
      rw [hlookup] at hentry
      constructor
      · rintro ⟨entry, err', hret, hfile⟩ ⟨-, e', he', hfile'⟩
        cases he'
        rw [hentry] at hret
        cases hret
        rw [hfile e rfl] at hfile'
        cases hfile'
      · intro h
        refine ⟨_, _, hentry, ?_⟩
        rintro e' ⟨rfl⟩
        exact Bool.eq_false_of_not_eq_true fun hfile => h ⟨hroot, e, rfl, hfile⟩

end

/-- `open` either fails, or leaves a text that `read` then serves, after any number of other reads:
`size` bytes of it from `off` on, as far as there are so many. -/
def Mount.ServesCatalog (m : Mount) (fuel : ℕ) (path : Str) (size off : ℕ) (err : Err) : Prop :=
  (∃ r fh err', prodosfsOpen m fuel path err = (.ret (r, fh), err') ∧ r < 0) ∨
    ∃ text err', prodosfsOpen m fuel path err = (.ret (0, some (.catalog (some text))), err') ∧
      ∀ reads : List (ℕ × ℤ), (prodosfsRead m path size off
          (Call.after (fun read : ℕ × ℤ => prodosfsRead m path read.1 read.2)
            (.catalog (some text), err') reads)).1
        = .ret ((((text.drop off).take size).length : ℤ), (text.drop off).take size)

section
variable {m : Mount} {fuel : ℕ} {path : Str} {err err' : Err}

/-- A catalogue is far too short for its length not to fit into an `int`. -/
theorem length_catalogText_lt {v : Volume} {pathdir : Str} {es : List EntryPtr}
    (htitle : (titleLine (Entry.fileName v.header) pathdir).length < 128)
    (hv : v.Accepted) (hes : es.length < 65536) :
    (catalogText v pathdir es).length < 2 ^ 31 := by
  have hlines : ∀ es : List EntryPtr,
      (es.flatMap fun e => entryLine (v.entry e)).length ≤ 128 * es.length := by
    intro es
    induction es with
    | nil => exact le_rfl
    | cons e es ih =>
      have hline := length_entryLine_lt (v.entry e)
      rw [List.flatMap_cons, List.length_append, List.length_cons]
      omega
  obtain ⟨hlo, hhi⟩ := balance_bounds v.bitmap v.disk.numBlocks
  have hN := hv.numBlocks_lt
  have htotal : v.totalBlocks < 65536 := leRead16_lt _
  have hcolumns : columnsLine.length < 128 := by decide
  have htotals :
      (totalsLine v.totalBlocks (Volume.balance v.bitmap v.disk.numBlocks)).length < 128 :=
    length_totalsLine_lt htotal (by omega) (by omega)
  have hes' := hlines es
  simp only [catalogText, List.length_append]
  omega

/-- A text is served as far as it reaches. -/
theorem read_text (hpath : virtualFileId path = .catalog) {text : Str}
    (hlength : text.length < 2 ^ 31) (size off : ℕ) (err : Err) :
    (prodosfsRead m path size off (.catalog (some text), err)).1
        = .ret ((((text.drop off).take size).length : ℤ), (text.drop off).take size) ↔
      off ≤ text.length := by
  rw [prodosfsRead, if_pos (isVirtual_iff.mpr hpath), Call.get_bind_apply]
  by_cases hoff : off ≤ text.length
  · have hcopy : copyText text size off ((Fh.catalog (some text), err) : Fh × Err)
        = (.ret ((text.drop off).take size), (.catalog (some text), err)) := by
      rw [copyText, if_neg (by omega)]
      rfl
    have hle : ((text.drop off).take size).length ≤ text.length := by
      rw [List.length_take, List.length_drop]
      omega
    refine iff_of_true ?_ hoff
    show (((do
      let buf ← copyText text size off
      pure (toInt buf.length, buf)) : Call Exn (Fh × Err) (ℤ × Str)) (.catalog (some text), err)).1
        = _
    rw [Call.bind_of_ret hcopy, Call.pure_apply, toInt_of_lt (hle.trans_lt hlength)]
  · have hcopy : copyText text size off ((Fh.catalog (some text), err) : Fh × Err)
        = (.throw (.outOfRange "basic_string::copy"), (.catalog (some text), err)) := by
      rw [copyText, if_pos (by omega)]
      rfl
    refine iff_of_false ?_ hoff
    show (((do
      let buf ← copyText text size off
      pure (toInt buf.length, buf)) : Call Exn (Fh × Err) (ℤ × Str)) (.catalog (some text), err)).1
        ≠ _
    rw [Call.bind_of_throw hcopy]
    simp

/-- Whoever finds no file answers with an error. -/
theorem open_neg_iff
    (hid : virtualFileId (prodosFilename m.extensionMode path) ≠ .catalog) :
    (∃ r fh err', prodosfsOpen m fuel path err = (.ret (r, fh), err') ∧ r < 0) ↔
      m.volume.NamesNoFile fuel err (prodosFilename m.extensionMode path) := by
  have hnone : virtualFileId (prodosFilename m.extensionMode path) = .none := by
    cases h : virtualFileId (prodosFilename m.extensionMode path) with
    | none => rfl
    | catalog => exact absurd h hid
  rw [prodosfsOpen, if_neg (by simp [hid]), if_neg (by simp [hnone])]
  constructor
  · rintro ⟨r, fh, err', hopen, hneg⟩
    obtain ⟨h, t, hfile, hrest⟩ := Call.bind_eq_ret_iff.mp hopen
    obtain ⟨entry, t', hentry, hrest'⟩ := Call.bind_eq_ret_iff.mp hfile
    refine ⟨entry, t', hentry, ?_⟩
    rintro e rfl
    simp only [Call.ite_apply] at hrest'
    split at hrest'
    · assumption
    · obtain ⟨h', t'', -, hret⟩ := Call.bind_eq_ret_iff.mp hrest'
      cases hret
      cases hrest
      exact absurd hneg (lt_irrefl 0)
  · rintro ⟨entry, err', hentry, hfile⟩
    cases entry with
    | none =>
      have hopen : openFile m.volume fuel (prodosFilename m.extensionMode path) err
          = (.ret none, err') := Call.bind_of_ret hentry
      refine ⟨-toError err', none, err', Call.bind_of_ret hopen, ?_⟩
      rcases getEntry_none hentry with rfl | rfl
      · decide
      · decide
    | some e =>
      have hopen : openFile m.volume fuel (prodosFilename m.extensionMode path) err
          = (.ret none, .unsupportedStorageType) := by
        rw [openFile, Call.bind_of_ret hentry]
        simp only [Call.ite_apply, if_pos (hfile e rfl)]
        rfl
      exact ⟨-toError .unsupportedStorageType, none, _, Call.bind_of_ret hopen, by decide⟩

/-- The virtual file can be read where its parent is named, or where no file is named that hides
it. -/
theorem servesCatalog_iff_names (hv : m.volume.Accepted) (hpath : virtualFileId path = .catalog)
    (size off : ℕ) (err : Err) : m.ServesCatalog fuel path size off err ↔
      if virtualFileId (prodosFilename m.extensionMode path) = .catalog then
        ∃ es, m.volume.NamesDirectory fuel err
            (parentPath (prodosFilename m.extensionMode path)) es ∧
          (titleLine (Entry.fileName m.volume.header)
            (parentPath (prodosFilename m.extensionMode path))).length < 128 ∧
          m.volume.BitmapInside ∧
          off ≤ (catalogText m.volume (parentPath (prodosFilename m.extensionMode path)) es).length
      else m.volume.NamesNoFile fuel err (prodosFilename m.extensionMode path) := by
  by_cases hid : virtualFileId (prodosFilename m.extensionMode path) = .catalog
  · have hopen : prodosfsOpen m fuel path err = (do
        let catalog ← catalog m.volume fuel (prodosFilename m.extensionMode path)
        pure (0, some (.catalog catalog)) : Call Exn Err (ℤ × Option Fh)) err := by
      rw [prodosfsOpen, if_pos ⟨by decide, hid⟩]
    rw [if_pos hid, Mount.ServesCatalog, hopen]
    constructor
    · rintro (⟨r, fh, err', hret, hneg⟩ | ⟨text, err', hret, hreads⟩)
      · obtain ⟨text, t, -, hzero⟩ := Call.bind_eq_ret_iff.mp hret
        cases hzero
        exact absurd hneg (lt_irrefl 0)
      · obtain ⟨text', t, hcatalog, hsome⟩ := Call.bind_eq_ret_iff.mp hret
        cases hsome
        obtain ⟨dh, err'', es, hdirectory, hit, hfuel, htitle, hbitmap⟩ :=
          iterates_of_catalog hv hcatalog
        obtain ⟨key, -, rfl⟩ := openDirectory_eq_opened hdirectory
        have hes := hit.length_lt rfl
        rw [catalog_of_iterates hv hdirectory hit hfuel htitle hbitmap] at hcatalog
        cases hcatalog
        exact ⟨es, ⟨key, err'', hdirectory, hit, hfuel⟩, htitle, hbitmap,
          (read_text hpath (length_catalogText_lt htitle hv hes) size off _).mp (hreads [])⟩
    · rintro ⟨es, ⟨key, err', hdirectory, hit, hfuel⟩, htitle, hbitmap, hoff⟩
      have hes := hit.length_lt rfl
      refine Or.inr ⟨_, _, Call.bind_of_ret
        (catalog_of_iterates hv hdirectory hit hfuel htitle hbitmap), fun reads => ?_⟩
      have hsame : ∀ (reads : List (ℕ × ℤ)) (s : Fh × Err),
          Call.after (fun read : ℕ × ℤ => prodosfsRead m path read.1 read.2) s reads = s :=
        fun reads s => Call.after_invariant (I := fun t => t = s)
          (fun read t ht => ht ▸ read_virtual_snd hpath read.1 read.2 t) reads rfl
      rw [hsame]
      exact (read_text hpath (length_catalogText_lt htitle hv hes) size off _).mpr hoff
  · rw [if_neg hid, ← open_neg_iff hid, Mount.ServesCatalog]
    refine or_iff_left ?_
    rintro ⟨text, err', hopen, -⟩
    exact hid (kind_of_open hopen).symm

/-- **The virtual file of a path can be read if and only if** the parent, without a suffix, is a
directory that can be listed with the numbers of its volume, and the offset is not behind the end
of the text; or, if the suffix hides that it is the virtual file, the rest of the path is not a
file. In a sound volume, being a directory or a file is a matter of the tree of names. -/
theorem servesCatalog_iff (hv : m.volume.Accepted) (hpath : virtualFileId path = .catalog)
    (size off : ℕ) (err : Err) :
    (m.ServesCatalog fuel path size off err ↔
      if virtualFileId (prodosFilename m.extensionMode path) = .catalog then
        ∃ es, m.volume.NamesDirectory fuel err
            (parentPath (prodosFilename m.extensionMode path)) es ∧
          (titleLine (Entry.fileName m.volume.header)
            (parentPath (prodosFilename m.extensionMode path))).length < 128 ∧
          m.volume.BitmapInside ∧
          off ≤ (catalogText m.volume (parentPath (prodosFilename m.extensionMode path)) es).length
      else m.volume.NamesNoFile fuel err (prodosFilename m.extensionMode path)) ∧
    (m.volume.WellFormed → 0 ∉ path → 65536 * (path.length + 15) ≤ fuel →
      (m.ServesCatalog fuel path size off err ↔
        if virtualFileId (prodosFilename m.extensionMode path) = .catalog then
          ∃ key es, m.volume.HasDirectory
              (parentPath (prodosFilename m.extensionMode path)) key ∧
            DirectoryAt m.volume key es ∧
            (titleLine (Entry.fileName m.volume.header)
              (parentPath (prodosFilename m.extensionMode path))).length < 128 ∧
            m.volume.BitmapInside ∧
            off ≤ (catalogText m.volume
              (parentPath (prodosFilename m.extensionMode path)) es).length
        else ¬ m.volume.HasFile (prodosFilename m.extensionMode path))) := by
  refine ⟨servesCatalog_iff_names hv hpath size off err, fun hwf hnul hfuel =>
    (servesCatalog_iff_names hv hpath size off err).trans ?_⟩
  have hfilename := prodosFilename_sublist m.extensionMode path
  have hparent := parentPath_sublist (prodosFilename m.extensionMode path)
  have hbound : ∀ p : Str, p.Sublist path → 65536 * ((splitPath p).length + 14) ≤ fuel := by
    intro p hp
    have hsplit := length_splitPath_le p
    have hlength := hp.length_le
    omega
  have hnul' : 0 ∉ prodosFilename m.extensionMode path := fun h => hnul (hfilename.subset h)
  by_cases hid : virtualFileId (prodosFilename m.extensionMode path) = .catalog
  · rw [if_pos hid, if_pos hid]
    have hdirectory := namesDirectory_iff hv hwf (fun h => hnul' (hparent.subset h))
      (hbound _ (hparent.trans hfilename)) err
    constructor
    · rintro ⟨es, hes, hrest⟩
      obtain ⟨key, hkey, hdir⟩ := (hdirectory es).mp hes
      exact ⟨key, es, hkey, hdir, hrest⟩
    · rintro ⟨key, es, hkey, hdir, hrest⟩
      exact ⟨es, (hdirectory es).mpr ⟨key, hkey, hdir⟩, hrest⟩
  · rw [if_neg hid, if_neg hid]
    exact namesNoFile_iff hv hwf hnul' (hbound _ hfilename) err

end

/-- The first bytes of the catalogue of the small volume can be read: its parent is named, and is in
the tree of names. -/
theorem servesCatalog_iff_small :
    (smallMount .off).ServesCatalog (14 * 65536) (ascii "/.CATALOG") 512 0 .none ∧
      (smallMount .off).ServesCatalog (24 * 65536) (ascii "/.CATALOG") 512 0 .none := by
  have hfilename : prodosFilename (smallMount .off).extensionMode (ascii "/.CATALOG")
      = ascii "/.CATALOG" := by decide
  have hparent : parentPath (ascii "/.CATALOG") = ascii "/" := by decide
  have htitle := length_titleLine_lt smallVolume.header
  have hbitmap : smallVolume.BitmapInside := by
    show smallVolume.bitMapPointer + _ ≤ _
    decide
  constructor
  · have hdirectory : smallVolume.NamesDirectory (14 * 65536) .none (ascii "/")
        [textFile, ⟨.image 1536, 12⟩] :=
      ⟨.image 1024, .none, openDirectory_root accepted_small _ .none, root_small.iterates le_rfl,
        by decide⟩
    refine (servesCatalog_iff (m := smallMount .off) accepted_small (by decide) 512 0
      .none).1.mpr ?_
    rw [hfilename, hparent, if_pos (by decide)]
    exact ⟨_, hdirectory, htitle, hbitmap, Nat.zero_le _⟩
  · refine ((servesCatalog_iff (m := smallMount .off) accepted_small (by decide) 512 0 .none).2
      wellFormed_small (by decide) (by decide)).mpr ?_
    rw [hfilename, hparent, if_pos (by decide)]
    exact ⟨_, _, rfl, root_small, htitle, hbitmap, Nat.zero_le _⟩

/-- Where there is no directory, `open` succeeds with a null pointer. -/
theorem not_servesCatalog_small :
    ¬ ∀ (m : Mount) (fuel : ℕ) (path : Str), m.volume.Accepted → 14 * 65536 ≤ fuel →
      virtualFileId path = .catalog → ∀ (size off : ℕ) (err : Err),
      m.ServesCatalog fuel path size off err := by
  intro hclaim
  have hserves := hclaim (smallMount .off) (14 * 65536) (ascii "/X/.CATALOG") accepted_small le_rfl
    (by decide) 512 0 .none
  have hentry := getEntry_root accepted_small (root_small.iterates (le_refl (14 * 65536)))
    (by decide) (show 47 ∉ ascii "X" by decide) .none
  have hresolve : smallVolume.resolve [textFile, ⟨.image 1536, 12⟩] (ascii "X") = none := by decide
  rw [hresolve] at hentry
  have hdirectory : openDirectory smallVolume (14 * 65536) (ascii "/X") .none
      = (.ret none, .fileNotFound) := Call.bind_of_ret hentry
  have hparent : parentPath (ascii "/X/.CATALOG") = ascii "/X" := by decide
  have hcatalog : catalog smallVolume (14 * 65536) (ascii "/X/.CATALOG") .none
      = (.ret none, .fileNotFound) := by
    rw [catalog, hparent]
    exact Call.bind_of_ret hdirectory
  have hopen : prodosfsOpen (smallMount .off) (14 * 65536) (ascii "/X/.CATALOG") .none
      = (.ret (0, some (.catalog none)), .fileNotFound) := Call.bind_of_ret hcatalog
  rcases hserves with ⟨r, fh, err', hret, hneg⟩ | ⟨text, err', hret, -⟩
  · rw [hopen] at hret
    cases hret
    exact absurd hneg (lt_irrefl 0)
  · rw [hopen] at hret
    cases hret

end Prodosfs
