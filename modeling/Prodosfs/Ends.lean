import Prodosfs.Handlers
import Prodosfs.Reading

/-!
# The ends of a file

While `Read` copies, the handle is moved to the start of every block it comes to, and to the
position it stops at. What happens there decides about the call as a whole.

* Behind the end of the file `Seek` refuses to go on, and `Read` does not notice. It goes on
  copying from where it is until the buffer is full.
* At the very end, `Seek` looks up a block of data that may not exist any more. For a sapling file
  of the largest size, which has 256 blocks, the index of that block is 256, and `At` throws.

## Main definitions

* `Stop` — where the handle is moved to in the course of a read
* `Volume.LegalSize` — the sizes the storage types allow for

## Main results

* `readLoop_returns_iff` — a read inside the file returns when all its stops can be reached
* `read_exact_iff` — when a read delivers what is left of the file, and no more
* `seek_read_return_iff` — in a file of legal size, the one position that cannot be reached
-/

namespace Prodosfs

/-- The positions that a handle at `p` is moved to while `size` bytes are read. -/
def Stop (p size q : ℕ) : Prop := p < q ∧ q ≤ p + size ∧ (512 ∣ q ∨ q = p + size)

/-- The first stop is the end of the block or of the buffer, and the others come after it. -/
theorem stop_iff {p size q : ℕ} (hsize : 0 < size) :
    Stop p size q ↔ q = p + min size (512 - p % 512) ∨
      Stop (p + min size (512 - p % 512)) (size - min size (512 - p % 512)) q := by
  have hmod : p % 512 < 512 := Nat.mod_lt p (by decide)
  obtain ⟨n, hn⟩ : ∃ n, n = min size (512 - p % 512) := ⟨_, rfl⟩
  have hend : p + n + (size - n) = p + size := by omega
  rw [← hn, Stop, Stop, hend]
  constructor
  · rintro ⟨hlt, hle, hstop⟩
    by_cases hfirst : q = p + n
    · exact Or.inl hfirst
    · exact Or.inr ⟨by omega, hle, hstop⟩
  · rintro (rfl | ⟨hlt, hle, hstop⟩)
    · exact ⟨by omega, by omega, by omega⟩
    · exact ⟨by omega, hle, hstop⟩

section
variable {v : Volume} {e : EntryPtr}

/-- **A read inside the file returns when all its stops can be reached.** The induction is on the
bound. -/
theorem readLoop_returns_iff (hfile : Entry.isFile (v.entry e)) :
    ∀ {rounds size p : ℕ} {err : Err}, size ≤ rounds → p + size ≤ Entry.eof (v.entry e) →
      ((∃ bytes s, FileHandle.readLoop v rounds size (handleAt v e p, err) = (.ret bytes, s)) ↔
        ∀ q, Stop p size q → v.Seekable e q) := by
  have hnone : ∀ p q, ¬ Stop p 0 q := fun p q h => by
    obtain ⟨hlt, hle, -⟩ := h
    omega
  intro rounds
  induction rounds with
  | zero =>
    rintro (_ | size) p err hrounds hend
    · exact ⟨fun _ q hq => absurd hq (hnone p q), fun _ => ⟨_, _, rfl⟩⟩
    · omega
  | succ rounds ih =>
    rintro (_ | size) p err hrounds hend
    · exact ⟨fun _ q hq => absurd hq (hnone p q), fun _ => ⟨_, _, rfl⟩⟩
    have hmod : p % 512 < 512 := Nat.mod_lt p (by decide)
    obtain ⟨n, hn⟩ : ∃ n, n = min (size + 1) (512 - p % 512) := ⟨_, rfl⟩
    have hseek : ∀ (r : ℤ) (s : FileHandle × Err),
        FileHandle.seek v (p + n : ℕ) seekSet (handleAt v e p, err) = (.ret r, s) ↔
          v.Seekable e (p + n) ∧ r = (p + n : ℕ) ∧ s = (handleAt v e (p + n), err) :=
      fun r s => seek_eq_ret_iff hfile (by omega)
    have hrest := @ih (size + 1 - n) (p + n) err (by omega) (by omega)
    simp only [readLoop_handleAt, ← hn, Call.bind_eq_ret_iff]
    constructor
    · rintro ⟨bytes, s, r, t, hmoved, rest, t', hread, -⟩ q hq
      obtain ⟨hreach, -, rfl⟩ := (hseek _ _).mp hmoved
      rw [stop_iff (Nat.succ_pos size), ← hn] at hq
      rcases hq with rfl | hq
      · exact hreach
      · exact hrest.mp ⟨rest, t', hread⟩ q hq
    · intro hstops
      have hfirst := hstops (p + n) ((stop_iff (Nat.succ_pos size)).mpr (Or.inl (hn ▸ rfl)))
      obtain ⟨rest, t', hread⟩ := hrest.mpr fun q hq =>
        hstops q ((stop_iff (Nat.succ_pos size)).mpr (Or.inr (hn ▸ hq)))
      exact ⟨_, _, _, _, (hseek _ _).mpr ⟨hfirst, rfl, rfl⟩, rest, t', hread, rfl⟩

/-- A file of one block is read. -/
theorem read_seedling (htype : Entry.storageType (v.entry e) = storageTypeSeedlingFile) {n : ℕ}
    (hend : n ≤ Entry.eof (v.entry e)) (err : Err) :
    (FileHandle.read v n (handleAt v e 0, err)).1 = .ret (v.slice e 0 n) := by
  have hfile : Entry.isFile (v.entry e) := isFile_iff.mpr (Or.inl htype)
  have hend' : 0 + n ≤ Entry.eof (v.entry e) := by omega
  obtain ⟨bytes, s, hread⟩ : ∃ bytes s, FileHandle.read v n (handleAt v e 0, err)
      = (.ret bytes, s) :=
    (readLoop_returns_iff hfile le_rfl hend').mpr fun q _ => .of_seedling htype q
  obtain ⟨rfl, -⟩ := read_slice hfile hend' hread
  rw [hread]

variable {h h' : FileHandle} {err₀ err₁ err : Err} {ops : List FileOp}

/-- A handle that calls have returned to is coherent. -/
theorem exists_handleAt (hopen : FileHandle.create v e err₀ = (.ret h, err₁))
    (hrun : Call.Returns (FileOp.exec v) (h, err₁) ops (h', err)) :
    Entry.isFile (v.entry e) ∧ h'.position ≤ Entry.eof (v.entry e) ∧
      h' = handleAt v e h'.position := by
  obtain ⟨hfile, rfl, rfl⟩ := create_eq_ret hopen
  obtain ⟨p, hp, rfl⟩ := (coherent_handleAt (Nat.zero_le _)).run hfile hrun
  exact ⟨hfile, hp, rfl⟩

/-- **A read delivers what is left of the file, up to the size of the buffer, if and only if** the
buffer is not larger than what is left and all stops can be reached. -/
theorem read_exact_iff (hopen : FileHandle.create v e err₀ = (.ret h, err₁))
    (hrun : Call.Returns (FileOp.exec v) (h, err₁) ops (h', err)) (size : ℕ) :
    (∃ bytes s, FileHandle.read v size (h', err) = (.ret bytes, s) ∧
        bytes.length = min size (Entry.eof (v.entry e) - h'.position) ∧
        s.1.position = h'.position + bytes.length ∧
        bytes = v.slice e h'.position bytes.length) ↔
      h'.position + size ≤ Entry.eof (v.entry e) ∧
        ∀ q, Stop h'.position size q → v.Seekable e q := by
  obtain ⟨hfile, hp, hcoherent⟩ := exists_handleAt hopen hrun
  obtain ⟨p, hposition⟩ : ∃ p, p = h'.position := ⟨_, rfl⟩
  rw [← hposition] at hp hcoherent ⊢
  subst hcoherent
  constructor
  · rintro ⟨bytes, s, hread, hlength, -, -⟩
    obtain ⟨hsize, -, -⟩ := readLoop_eq_ret hfile hp hread
    have hend : p + size ≤ Entry.eof (v.entry e) := by omega
    exact ⟨hend, (readLoop_returns_iff hfile le_rfl hend).mp ⟨bytes, s, hread⟩⟩
  · rintro ⟨hend, hstops⟩
    obtain ⟨bytes, s, hread⟩ : ∃ bytes s, FileHandle.read v size (handleAt v e p, err)
        = (.ret bytes, s) := (readLoop_returns_iff hfile le_rfl hend).mpr hstops
    obtain ⟨rfl, rfl⟩ := read_slice hfile hend hread
    refine ⟨_, _, hread, ?_, ?_, ?_⟩
    · rw [length_slice]
      omega
    · rw [length_slice]
      rfl
    · rw [length_slice]

end

/-- The last two bytes of the text file. -/
theorem read_exact_iff_small :
    ∃ h h' err, FileHandle.create smallVolume textFile .none = (.ret h, .none) ∧
      Call.Returns (FileOp.exec smallVolume) (h, .none) [.read 1] (h', err) ∧
      ∃ bytes s, FileHandle.read smallVolume 2 (h', err) = (.ret bytes, s) ∧
        bytes.length = min 2 (Entry.eof (smallVolume.entry textFile) - h'.position) ∧
        s.1.position = h'.position + bytes.length ∧
        bytes = smallVolume.slice textFile h'.position bytes.length := by
  have hopen : FileHandle.create smallVolume textFile .none
      = (.ret (handleAt smallVolume textFile 0), .none) := by rfl
  have hrun : Call.Returns (FileOp.exec smallVolume) (handleAt smallVolume textFile 0, .none)
      [.read 1] (handleAt smallVolume textFile 1, .none) := .cons (by rfl) (.nil _)
  exact ⟨_, _, _, hopen, hrun, (read_exact_iff hopen hrun 2).mpr ⟨by decide, fun q _ =>
    .of_seedling (by decide) q⟩⟩

/-- A read of four bytes from a file of three delivers four. -/
theorem not_read_exact_small :
    ¬ ∀ (v : Volume) (e : EntryPtr) (h h' : FileHandle) (err₀ err₁ err : Err) (ops : List FileOp),
      v.Accepted → FileHandle.create v e err₀ = (.ret h, err₁) →
      Call.Returns (FileOp.exec v) (h, err₁) ops (h', err) → ∀ size,
        ∃ bytes s, FileHandle.read v size (h', err) = (.ret bytes, s) ∧
          bytes.length = min size (Entry.eof (v.entry e) - h'.position) ∧
          s.1.position = h'.position + bytes.length ∧
          bytes = v.slice e h'.position bytes.length := by
  intro hclaim
  have hopen : FileHandle.create smallVolume textFile .none
      = (.ret (handleAt smallVolume textFile 0), .none) := by rfl
  have hfile : Entry.isFile (smallVolume.entry textFile) = true := by decide
  obtain ⟨bytes, s, hread, hlength, -⟩ :=
    hclaim smallVolume textFile _ _ .none .none .none [] accepted_small hopen (.nil _) 4
  obtain ⟨hfour, -⟩ := readLoop_eq_ret hfile (Nat.zero_le _) hread
  have hthree : min 4 (Entry.eof (smallVolume.entry textFile) - 0) = 3 := by decide
  exact absurd (hfour.symm.trans (hlength.trans hthree)) (by decide)

/-! ### The largest sapling file -/

section
variable {v : Volume} {e : EntryPtr} {h h' : FileHandle} {err₀ err₁ err : Err} {ops : List FileOp}

/-- The sizes the storage types allow for. A tree file of any size that fits into the entry is
legal. -/
def Volume.LegalSize (v : Volume) (e : EntryPtr) : Prop :=
  (Entry.storageType (v.entry e) = storageTypeSeedlingFile → Entry.eof (v.entry e) ≤ 512) ∧
    (Entry.storageType (v.entry e) = storageTypeSaplingFile → Entry.eof (v.entry e) ≤ 131072)

/-- The position behind the last block of the largest sapling file. -/
def Volume.PastIndex (v : Volume) (e : EntryPtr) (q : ℕ) : Prop :=
  Entry.storageType (v.entry e) = storageTypeSaplingFile ∧ q = 131072

/-- All other positions of a well-formed file can be reached. -/
theorem seekable_iff (hfile : Entry.isFile (v.entry e)) (hlegal : v.LegalSize e)
    (hpointers : v.PointersInRange e) {q : ℕ} (hq : q ≤ Entry.eof (v.entry e)) :
    v.Seekable e q ↔ ¬ v.PastIndex e q := by
  have heof : Entry.eof (v.entry e) < 2 ^ 24 := leRead24_lt _
  rcases isFile_iff.mp hfile with h1 | h2 | h3
  · have hpast : ¬ v.PastIndex e q := fun h => by
      rw [Volume.PastIndex, h1] at h
      exact absurd h.1 (by decide)
    refine ⟨fun _ => hpast, fun _ => ⟨fun h => ?_, fun h => absurd h1 h⟩⟩
    rw [h1] at h
    exact absurd h (by decide)
  · have hseedling : Entry.storageType (v.entry e) ≠ storageTypeSeedlingFile := by
      rw [h2]
      decide
    have htree : Entry.storageType (v.entry e) ≠ storageTypeTreeFile := by
      rw [h2]
      decide
    have hle := hlegal.2 h2
    constructor
    · rintro ⟨-, hdata⟩ ⟨-, rfl⟩
      obtain ⟨hlt, -⟩ := hdata hseedling
      rw [Volume.indexOffset, if_neg htree] at hlt
      exact absurd hlt (by decide)
    · intro hpast
      have hlt : q < 131072 := by
        refine lt_of_le_of_ne (hq.trans hle) fun h => hpast ⟨h2, h⟩
      refine ⟨fun h => absurd h htree, fun _ => ?_⟩
      rw [Volume.indexOffset, if_neg htree, Volume.dataBlock, if_neg hseedling, if_pos h2]
      have hindex : q / 512 < 256 := by omega
      exact ⟨hindex, hpointers.index hseedling _ hindex⟩
  · have hseedling : Entry.storageType (v.entry e) ≠ storageTypeSeedlingFile := by
      rw [h3]
      decide
    have hsapling : Entry.storageType (v.entry e) ≠ storageTypeSaplingFile := by
      rw [h3]
      decide
    have hmaster : q / 131072 < 256 := by omega
    have hindex : q % 131072 / 512 < 256 := by omega
    refine ⟨fun _ h => hsapling h.1, fun _ => ⟨fun _ => ?_, fun _ => ?_⟩⟩
    · exact ⟨hmaster, hpointers.index hseedling _ hmaster⟩
    · rw [Volume.indexOffset, if_pos h3, Volume.dataBlock, if_neg hseedling, if_neg hsapling]
      exact ⟨hindex, hpointers.data h3 _ hmaster _ hindex⟩

/-- **In a well-formed file, a seek or a read returns if and only if** it does not end at the
position behind the last block of the largest sapling file. -/
theorem seek_read_return_iff (hopen : FileHandle.create v e err₀ = (.ret h, err₁))
    (hrun : Call.Returns (FileOp.exec v) (h, err₁) ops (h', err)) (hlegal : v.LegalSize e)
    (hpointers : v.PointersInRange e) :
    (∀ o ≤ Entry.eof (v.entry e),
      ((∃ s, FileHandle.seek v o seekSet (h', err) = (.ret o, s)) ↔ ¬ v.PastIndex e o)) ∧
    ∀ n, h'.position + n ≤ Entry.eof (v.entry e) →
      ((∃ bytes s, FileHandle.read v n (h', err) = (.ret bytes, s)) ↔
        ¬ (0 < n ∧ v.PastIndex e (h'.position + n))) := by
  obtain ⟨hfile, hp, hcoherent⟩ := exists_handleAt hopen hrun
  obtain ⟨p, hposition⟩ : ∃ p, p = h'.position := ⟨_, rfl⟩
  rw [← hposition] at hp hcoherent ⊢
  subst hcoherent
  constructor
  · intro o ho
    rw [← seekable_iff hfile hlegal hpointers ho]
    constructor
    · rintro ⟨s, hseek⟩
      exact ((seek_eq_ret_iff hfile ho).mp hseek).1
    · intro hreach
      exact ⟨_, (seek_eq_ret_iff hfile ho).mpr ⟨hreach, rfl, rfl⟩⟩
  · intro n hend
    rw [show FileHandle.read v n = FileHandle.readLoop v n n from rfl,
      readLoop_returns_iff hfile le_rfl hend]
    constructor
    · rintro hstops ⟨hpos, hpast⟩
      have hlast : Stop p n (p + n) := ⟨by omega, le_rfl, Or.inr rfl⟩
      exact (seekable_iff hfile hlegal hpointers hend).mp (hstops _ hlast) hpast
    · rintro hnot q ⟨hlt, hle, -⟩
      refine (seekable_iff hfile hlegal hpointers (hle.trans hend)).mpr fun hpast => hnot ?_
      -- the position behind the last block is the end of the file
      have hsize := hlegal.2 hpast.1
      have hq := hpast.2
      refine ⟨by omega, hpast.1, by omega⟩

end

/-- A volume with a sapling file of 131072 zeros. -/
def saplingVolume : Volume :=
  ⟨Disk.ofImage (.sparse 4096 (headerBytes 1028 0xF 65 1 8 ++
    entryBytes 1067 0x2 83 0x06 3 0 ++ [(1090, 2)])) fun _ => 0⟩

def saplingFile : EntryPtr := ⟨.image 1024, 1⟩

theorem accepted_sapling : saplingVolume.Accepted := by decide

theorem storageType_sapling :
    Entry.storageType (saplingVolume.entry saplingFile) = storageTypeSaplingFile := by decide

theorem legalSize_sapling : saplingVolume.LegalSize saplingFile := by
  constructor
  · intro h
    rw [storageType_sapling] at h
    exact absurd h (by decide)
  · intro _
    decide

theorem pointersInRange_sapling : saplingVolume.PointersInRange saplingFile where
  key := Or.inr (by decide)
  index := by
    have hzero : ∀ i < 256, saplingVolume.pointerAt 3 i = 0 := by decide +kernel
    exact fun _ i hi => Or.inl (hzero i hi)
  data := fun h => by
    rw [storageType_sapling] at h
    exact absurd h (by decide)

/-- The position behind the last byte of a sapling file may be out of reach. -/
theorem seek_read_return_iff_sapling :
    ∃ h, FileHandle.create saplingVolume saplingFile .none = (.ret h, .none) ∧
      (¬ ∃ s, FileHandle.seek saplingVolume (131072 : ℕ) seekSet (h, .none)
        = (.ret (131072 : ℕ), s)) ∧
      ∃ bytes s, FileHandle.read saplingVolume 131071 (h, .none) = (.ret bytes, s) := by
  have hopen : FileHandle.create saplingVolume saplingFile .none
      = (.ret (handleAt saplingVolume saplingFile 0), .none) := by rfl
  have heof : Entry.eof (saplingVolume.entry saplingFile) = 131072 := by decide
  obtain ⟨hseek, hread⟩ :=
    seek_read_return_iff hopen (.nil _) legalSize_sapling pointersInRange_sapling
  refine ⟨_, hopen, fun hret => ?_, (hread 131071 ?_).mpr fun h => ?_⟩
  · exact (hseek 131072 heof.ge).mp hret ⟨storageType_sapling, rfl⟩
  · rw [heof]
    decide
  · exact absurd h.2.2 (by decide)

/-- A seek to the end of the file does not return. -/
theorem not_seek_read_return_sapling :
    ¬ ∀ (v : Volume) (e : EntryPtr) (h h' : FileHandle) (err₀ err₁ err : Err) (ops : List FileOp),
      v.Accepted → FileHandle.create v e err₀ = (.ret h, err₁) →
      Call.Returns (FileOp.exec v) (h, err₁) ops (h', err) → v.LegalSize e →
      v.PointersInRange e →
      (∀ o ≤ Entry.eof (v.entry e), ∃ s, FileHandle.seek v o seekSet (h', err) = (.ret o, s)) ∧
        ∀ n, h'.position + n ≤ Entry.eof (v.entry e) →
          ∃ bytes s, FileHandle.read v n (h', err) = (.ret bytes, s) := by
  intro hclaim
  have hopen : FileHandle.create saplingVolume saplingFile .none
      = (.ret (handleAt saplingVolume saplingFile 0), .none) := by rfl
  have heof : 131072 ≤ Entry.eof (saplingVolume.entry saplingFile) := by decide
  have hfile : Entry.isFile (saplingVolume.entry saplingFile) = true := by decide
  obtain ⟨hseek, -⟩ := hclaim saplingVolume saplingFile _ _ .none .none .none [] accepted_sapling
    hopen (.nil _) legalSize_sapling pointersInRange_sapling
  obtain ⟨s, hret⟩ := hseek 131072 heof
  have hreach := ((seek_eq_ret_iff hfile heof).mp hret).1
  exact (seekable_iff hfile legalSize_sapling pointersInRange_sapling heof).mp hreach
    ⟨storageType_sapling, rfl⟩

end Prodosfs
