import Prodosfs.Content
import Prodosfs.Mount

/-!
# Reading a file

What a caller reads from a handle is the content of the file, whatever has been done with the handle
before: a run of seeks, reads and requests that returned leaves the handle coherent, at some
position of the file, and the bytes read from there are the content.

## Main definitions

* `FileOp` — what is done with a handle while a file is open
* `Coherent` — the invariant of a handle

## Main results

* `Coherent.run` — every run keeps the invariant
* `read_content` — what is read is the content
-/

namespace Prodosfs

/-- What is done with a file handle: a seek, a read, or a request to the file system. -/
inductive FileOp where
  | seek (offset : ℤ)
  | read (size : ℕ)
  | request (bufsiz : ℕ) (off : ℤ)

/-- Carry out an operation; what it returns is dropped. -/
def FileOp.exec (v : Volume) : FileOp → Call Exn (FileHandle × Err) Unit
  | .seek offset => do
    let _ ← FileHandle.seek v offset seekSet
    pure ()
  | .read size => do
    let _ ← FileHandle.read v size
    pure ()
  | .request bufsiz off => do
    let _ ← readFile v bufsiz off
    pure ()

/-- The cached pointers of a handle are those of its position, which is in the file. -/
def Coherent (v : Volume) (e : EntryPtr) (h : FileHandle) : Prop :=
  ∃ p ≤ Entry.eof (v.entry e), h = handleAt v e p

section
variable {v : Volume} {e : EntryPtr} {h : FileHandle} {err : Err} {s : FileHandle × Err}

theorem coherent_handleAt {p : ℕ} (hp : p ≤ Entry.eof (v.entry e)) :
    Coherent v e (handleAt v e p) := ⟨p, hp, rfl⟩

theorem Coherent.seek (hc : Coherent v e h) (hfile : Entry.isFile (v.entry e)) {offset r : ℤ}
    (hseek : FileHandle.seek v offset seekSet (h, err) = (.ret r, s)) : Coherent v e s.1 := by
  obtain ⟨p, hp, rfl⟩ := hc
  rcases seek_eq_ret hfile hseek with ⟨q, -, hq, -, rfl⟩ | ⟨-, -, rfl⟩
  · exact coherent_handleAt hq
  · exact coherent_handleAt hp

theorem Coherent.read (hc : Coherent v e h) (hfile : Entry.isFile (v.entry e)) {size : ℕ}
    {bytes : Str} (hread : FileHandle.read v size (h, err) = (.ret bytes, s)) :
    Coherent v e s.1 := by
  obtain ⟨p, hp, rfl⟩ := hc
  obtain ⟨-, ⟨p', err', hp', rfl⟩, -⟩ := readLoop_eq_ret hfile hp hread
  exact coherent_handleAt hp'

/-- What `prodosfs_read` makes of the bytes it has read. -/
theorem readBuffer_of_ret {size : ℕ} {bytes : Str} {t : FileHandle × Err}
    (hentry : h.entry = some e) (hread : FileHandle.read v size t = (.ret bytes, (h, err))) :
    readBuffer v size t =
      if bytes.length = 0 ∧ h.position ≠ Entry.eof (v.entry e) then
        (.ret (-toError err, bytes), (h, err))
      else if Entry.fileType (v.entry e) = fileTypeText then
        if 2 ^ 31 ≤ bytes.length then (.fault, (h, err))
        else (.ret (toInt bytes.length, bytes.map toUnixText), (h, err))
      else (.ret (toInt bytes.length, bytes), (h, err)) := by
  have htype : FileHandle.type v (h, err) = (.ret (Entry.fileType (v.entry e)), (h, err)) := by
    rw [FileHandle.type, Call.get_bind_apply]
    simp only [hentry]
    rfl
  have heof : FileHandle.eof v (h, err) =
      (.ret (h.position == Entry.eof (v.entry e)), (h, err)) := by
    rw [FileHandle.eof, Call.get_bind_apply]
    simp only [hentry]
    rfl
  have htext : textMode = .unix := rfl
  rw [readBuffer, Call.bind_of_ret hread, Call.ite_apply]
  by_cases hlen : bytes.length = 0
  · rw [if_pos hlen, Call.bind_of_ret heof]
    by_cases hpos : h.position = Entry.eof (v.entry e)
    · simp only [Call.ite_apply, Call.bind_of_ret htype, hpos, htext]
      simp
    · simp [hlen, hpos]
  · rw [if_neg hlen, Call.pure_bind_apply]
    simp only [Call.ite_apply, Call.bind_of_ret htype, htext]
    simp [hlen]

theorem Coherent.readBuffer (hc : Coherent v e h) (hfile : Entry.isFile (v.entry e)) {size : ℕ}
    {a : ℤ × Str} (hread : readBuffer v size (h, err) = (.ret a, s)) : Coherent v e s.1 := by
  obtain ⟨bytes, ⟨h', err'⟩, hbytes, -⟩ := Call.bind_eq_ret_iff.mp hread
  have hc' : Coherent v e h' := hc.read hfile hbytes
  obtain ⟨p', -, rfl⟩ := id hc'
  have hs : s = (handleAt v e p', err') := by
    have hsnd := congrArg Prod.snd hread
    rw [readBuffer_of_ret rfl hbytes] at hsnd
    simpa only [apply_ite Prod.snd, ite_self, eq_comm] using hsnd
  rwa [hs]

theorem Coherent.readFile (hc : Coherent v e h) (hfile : Entry.isFile (v.entry e)) {size : ℕ}
    {off : ℤ} {a : ℤ × Str} (hread : readFile v size off (h, err) = (.ret a, s)) :
    Coherent v e s.1 := by
  obtain ⟨pos, ⟨h', err'⟩, hseek, hrest⟩ := Call.bind_eq_ret_iff.mp hread
  have hc' : Coherent v e h' := hc.seek hfile hseek
  by_cases hneg : pos < 0
  · rw [if_pos hneg] at hrest
    cases hrest
    exact hc'
  · rw [if_neg hneg] at hrest
    exact hc'.readBuffer hfile hrest

/-- **Every run of operations that return keeps a handle coherent.** -/
theorem Coherent.run (hc : Coherent v e h) (hfile : Entry.isFile (v.entry e)) {ops : List FileOp}
    (hrun : Call.Returns (FileOp.exec v) (h, err) ops s) : Coherent v e s.1 := by
  refine hrun.invariant (I := fun s => Coherent v e s.1) ?_ hc
  rintro (offset | size | ⟨bufsiz, off⟩) ⟨h, err⟩ t ⟨⟩ hc hexec
  · obtain ⟨r, u, hseek, hret⟩ := Call.bind_eq_ret_iff.mp hexec
    cases hret
    exact hc.seek hfile hseek
  · obtain ⟨bytes, u, hread, hret⟩ := Call.bind_eq_ret_iff.mp hexec
    cases hret
    exact hc.read hfile hread
  · obtain ⟨a, u, hread, hret⟩ := Call.bind_eq_ret_iff.mp hexec
    cases hret
    exact hc.readFile hfile hread

/-! ### What is read -/

/-- What a request for a part of a file delivers: the content, as text if the file is one. -/
def Volume.delivered (v : Volume) (e : EntryPtr) (off size : ℕ) : Str :=
  if Entry.fileType (v.entry e) = fileTypeText then (v.slice e off size).map toUnixText
  else v.slice e off size

/-- A read that returned, from the position of the handle, inside the file. -/
theorem read_slice {p n : ℕ} {bytes : Str} (hfile : Entry.isFile (v.entry e))
    (hend : p + n ≤ Entry.eof (v.entry e))
    (hread : FileHandle.read v n (handleAt v e p, err) = (.ret bytes, s)) :
    bytes = v.slice e p n ∧ s = (handleAt v e (p + n), err) :=
  (readLoop_eq_ret hfile ((Nat.le_add_right p n).trans hend) hread).2.2 hend

/-- The same as part of a request. A part of a file is never so long that its length does not fit
into an `int`. -/
theorem readBuffer_delivered {p n : ℕ} {a : ℤ × Str} (hfile : Entry.isFile (v.entry e))
    (hn : 0 < n) (hend : p + n ≤ Entry.eof (v.entry e))
    (hread : readBuffer v n (handleAt v e p, err) = (.ret a, s)) :
    a = ((n : ℤ), v.delivered e p n) ∧ s = (handleAt v e (p + n), err) := by
  obtain ⟨bytes, ⟨h', err'⟩, hbytes, -⟩ := Call.bind_eq_ret_iff.mp hread
  obtain ⟨rfl, hs⟩ := read_slice hfile hend hbytes
  cases hs
  have hlt : n < 2 ^ 31 := by
    have heof : Entry.eof (v.entry e) < 2 ^ 24 := leRead24_lt _
    omega
  have happly := readBuffer_of_ret rfl hbytes
  rw [hread, length_slice, toInt_of_lt hlt, if_neg (by omega)] at happly
  rw [Volume.delivered]
  by_cases htext : Entry.fileType (v.entry e) = fileTypeText
  · rw [if_pos htext, if_neg (by omega)] at happly
    rw [if_pos htext]
    cases happly
    exact ⟨rfl, rfl⟩
  · rw [if_neg htext] at happly ⊢
    cases happly
    exact ⟨rfl, rfl⟩

/-- A request that returned, inside the file, wherever the handle was. -/
theorem readFile_delivered {off n : ℕ} {a : ℤ × Str} (hc : Coherent v e h)
    (hfile : Entry.isFile (v.entry e)) (hn : 0 < n) (hend : off + n ≤ Entry.eof (v.entry e))
    (hread : readFile v n off (h, err) = (.ret a, s)) : a = ((n : ℤ), v.delivered e off n) := by
  obtain ⟨p, hp, rfl⟩ := hc
  obtain ⟨pos, t, hseek, hrest⟩ := Call.bind_eq_ret_iff.mp hread
  rcases seek_eq_ret hfile hseek with ⟨q, hq, -, rfl, rfl⟩ | ⟨hout, -⟩
  · obtain rfl : off = q := by exact_mod_cast hq
    rw [if_neg (by omega)] at hrest
    exact (readBuffer_delivered hfile hn hend hrest).1
  · omega

/-- **What is read is the content.** After any run of operations that returned on a handle that was
opened on a file, a read inside the file delivers the content from the position of the handle on
and moves the position by as much; and a request inside the file delivers the content it asks for,
as text if the file is one. -/
theorem read_content {h' : FileHandle} {err₀ err₁ : Err} {ops : List FileOp}
    (hopen : FileHandle.create v e err₀ = (.ret h, err₁))
    (hrun : Call.Returns (FileOp.exec v) (h, err₁) ops (h', err)) :
    (∀ (n : ℕ) (bytes : Str) (s : FileHandle × Err),
      h'.position + n ≤ Entry.eof (v.entry e) →
      FileHandle.read v n (h', err) = (.ret bytes, s) →
        bytes = v.slice e h'.position n ∧ s.1.position = h'.position + n) ∧
    ∀ (m : Mount) (path : Str) (off size : ℕ) (r : ℤ) (buf : Str) (s : Fh × Err),
      m.volume = v → virtualFileId path = .none → 0 < size →
      off + size ≤ Entry.eof (v.entry e) →
      prodosfsRead m path size off (.file h', err) = (.ret (r, buf), s) →
        r = size ∧ buf = v.delivered e off size := by
  obtain ⟨hfile, rfl, rfl⟩ := create_eq_ret hopen
  have hc : Coherent v e h' := (coherent_handleAt (Nat.zero_le _)).run hfile hrun
  refine ⟨?_, ?_⟩
  · rintro n bytes s hend hread
    obtain ⟨p, -, rfl⟩ := hc
    obtain ⟨hbytes, rfl⟩ := read_slice hfile hend hread
    exact ⟨hbytes, rfl⟩
  · rintro m path off size r buf s rfl hpath hsize hend hread
    rw [prodosfsRead, if_neg (by simp [hpath]), onFile] at hread
    have hfst : (readFile m.volume size off (h', err)).1 = .ret (r, buf) := congrArg Prod.fst hread
    have hret := readFile_delivered hc hfile hsize hend (Prod.ext hfst rfl)
    cases hret
    exact ⟨rfl, rfl⟩

end

/-- The text file is read to its end, a seek behind the end fails, and a last one goes back to the
second byte. What is read from there, and what a request for the whole file delivers. -/
theorem read_content_small :
    ∃ h h' err, FileHandle.create smallVolume textFile .none = (.ret h, .none) ∧
      Call.Returns (FileOp.exec smallVolume) (h, .none) [.read 3, .seek 9, .seek 1] (h', err) ∧
      h'.position = 1 ∧ smallVolume.slice textFile h'.position 2 = [201, 141] ∧
      smallVolume.delivered textFile 0 3 = ascii "HI\n" := by
  have hopen : FileHandle.create smallVolume textFile .none
      = (.ret (handleAt smallVolume textFile 0), .none) := by rfl
  have hrun : Call.Returns (FileOp.exec smallVolume) (handleAt smallVolume textFile 0, .none)
      [.read 3, .seek 9, .seek 1] (handleAt smallVolume textFile 1, .positionOutOfRange) :=
    .cons (t := (handleAt smallVolume textFile 3, .none)) (by rfl)
      (.cons (t := (handleAt smallVolume textFile 3, .positionOutOfRange)) (by rfl)
        (.cons (by rfl) (.nil _)))
  obtain ⟨hread, hrequest⟩ := read_content hopen hrun
  have hslice := hread 2 [201, 141] (handleAt smallVolume textFile 3, .positionOutOfRange)
    (by decide) (by rfl)
  have hdelivered := hrequest (smallMount .off) (ascii "/T") 0 3 3 (ascii "HI\n")
    (.file (handleAt smallVolume textFile 3), .positionOutOfRange) rfl (by decide) (by decide)
    (by decide) (by rfl)
  exact ⟨_, _, _, hopen, hrun, rfl, hslice.1.symm, hdelivered.2.symm⟩

end Prodosfs
