import Prodosfs.Apart
import Prodosfs.Ends

/-!
# Renaming a volume

`Rename` edits block 2 in place: the 15 bytes of the name, and the half byte of its length. Nothing
of what the constructor looks at is there, so that the image can be opened again, and the name it
then has is the new one, in capital letters.

What is not there either is any of the entries and files, in an image that keeps them apart from
block 2. There are others that are accepted: a file that has block 2 for a block of data reads the
new name where it read the old one, and a directory that leads back into block 2 has its header for
an entry.

## Main definitions

* `Volume.RenamedTo` — what `Rename` leaves
* `Volume.CleanRename` — what is written is a function of the image and the name
* `Volume.Reopened` — a volume that was renamed, saved and opened again

## Main results

* `Volume.WellFormed.handlesApart` — where the root directory is the only one in block 2
* `rename_frames` — what a rename changes, and what it does not
* `cleanRename_iff` — when a rename depends on nothing but the image and the name
-/

namespace Prodosfs

/-! ### Where the name is by itself -/

section
variable {v : Volume} {key : BlockPtr} {rest : List BlockPtr} {h h' : DirectoryHandle}

/-- Wherever `_Next` moves a cursor to is the next one of its places. -/
theorem Cursor.eq_of_moves {p : BlockPtr × ℕ} {ps : List (BlockPtr × ℕ)} (hc : Cursor v key h p ps)
    (hmoves : h.Moves v h') : ∃ q qs, ps = q :: qs ∧ h' = h.moved q := by
  have hnext : ∀ q, Linked.placeNext v.nextBlock 13 p = some q → ∃ qs, ps = q :: qs := by
    intro q hq
    cases hc.linked with
    | last hlast =>
      rw [hq] at hlast
      cases hlast
    | cons hcons _ =>
      rw [hq] at hcons
      cases hcons
      exact ⟨_, rfl⟩
  cases hmoves.cases with
  | slot header block lt =>
    rw [hc.header] at header
    rw [hc.block] at block
    cases header
    cases block
    rw [hc.entries] at lt
    obtain ⟨qs, rfl⟩ := hnext _ (if_pos (hc.index ▸ lt))
    exact ⟨_, qs, rfl, by rw [hc.index]⟩
  | block header block ge pointer inRange =>
    rw [hc.header] at header
    rw [hc.block] at block
    cases header
    cases block
    rw [hc.entries] at ge
    have hplace : Linked.placeNext v.nextBlock 13 p
        = some (.image (512 * v.nextPointer p.1), 0) := by
      rw [Linked.placeNext, if_neg (Nat.not_lt.mpr (hc.index ▸ ge)), Volume.nextBlock,
        if_neg pointer, Volume.blockPtr, if_neg pointer]
      rfl
    obtain ⟨qs, rfl⟩ := hnext _ hplace
    exact ⟨_, qs, rfl, rfl⟩

/-- A handle is at one of the places of its directory. -/
def WithinChain (v : Volume) (key : BlockPtr) (rest : List BlockPtr) (h : DirectoryHandle) : Prop :=
  ∃ p ps, Cursor v key h p ps ∧ p :: ps ⊆ (key, 1) :: Linked.placesAfter 13 key 1 rest

theorem WithinChain.moves (hwithin : WithinChain v key rest h) (hmoves : h.Moves v h') :
    WithinChain v key rest h' := by
  obtain ⟨p, ps, hc, hsub⟩ := hwithin
  obtain ⟨q, qs, rfl, rfl⟩ := hc.eq_of_moves hmoves
  exact ⟨q, qs, hc.moved, fun r hr => hsub (List.mem_cons_of_mem _ hr)⟩

theorem WithinChain.counted (hwithin : WithinChain v key rest h) :
    WithinChain v key rest h.counted := by
  obtain ⟨p, ps, hc, hsub⟩ := hwithin
  exact ⟨p, ps, hc.counted, hsub⟩

theorem WithinChain.nextEntry (hwithin : WithinChain v key rest h) (fuel : ℕ) (err : Err) :
    WithinChain v key rest (DirectoryHandle.nextEntry v fuel (h, err)).2.1 :=
  nextEntry_invariant (K := WithinChain v key rest) (L := WithinChain v key rest)
    (fun _ _ hK _ _ => hK) (fun _ _ _ hL _ _ hmoves => hL.moves hmoves) (fun _ hL => hL)
    (fun _ _ hL _ _ => hL.counted) (fun _ _ _ hL _ _ hmoves => hL.counted.moves hmoves) fuel _
    hwithin

/-- The slots that are looked at are places of the directory. -/
theorem WithinChain.examines (hwithin : WithinChain v key rest h) {e : EntryPtr}
    (hexamines : Examines v h e) :
    ∃ q ∈ (key, 1) :: Linked.placesAfter 13 key 1 rest, e = .ofPlace q ∧
      (v.active e → q.2 < 13) := by
  induction hexamines with
  | @here h b block =>
    obtain ⟨p, ps, hc, hsub⟩ := hwithin
    have hmem : p ∈ p :: ps := List.mem_cons_self ..
    rw [hc.block] at block
    cases block
    have heq : (⟨p.1, h.blockIndex⟩ : EntryPtr) = .ofPlace p := by rw [hc.index]; rfl
    exact ⟨p, hsub hmem, heq, fun hactive => hc.lt_of_active p hmem (heq ▸ hactive)⟩
  | later _ _ moves _ ih => exact ih (hwithin.moves moves)

end

/-- In a sound volume, `GetEntry` works with the directories that can be reached. -/
theorem Volume.Handles.withinChain {v : Volume} (hwf : v.WellFormed)
    (hblocks : 2 < v.disk.numBlocks) {h : DirectoryHandle} (hhandle : v.Handles h) :
    ∃ key rest, v.Reachable key ∧ BlockChain v key rest ∧ WithinChain v key rest h := by
  have hopened : ∀ {key : BlockPtr}, v.Reachable key →
      ∃ key' rest, v.Reachable key' ∧ BlockChain v key' rest ∧
        WithinChain v key' rest (.opened key) := by
    intro key hreach
    obtain ⟨es, hkey⟩ := hwf.directory hreach
    obtain ⟨rest, hc, -⟩ := hkey.chain
    exact ⟨key, rest, hreach, hc, _, _, hc.cursor, List.Subset.refl _⟩
  induction hhandle with
  | root => exact hopened .root
  | @next h h' fuel err err' r _ hnext ih =>
    obtain ⟨key, rest, hreach, hc, hwithin⟩ := ih
    have hwithin' := hwithin.nextEntry fuel err
    rw [hnext] at hwithin'
    exact ⟨key, rest, hreach, hc, hwithin'⟩
  | @child h fuel err e s head hnext hdir hin hkeyBlock ih =>
    obtain ⟨key, rest, hreach, hc, hwithin⟩ := ih
    obtain ⟨es, hkey⟩ := hwf.directory hreach
    obtain ⟨rest', hc', hes⟩ := hkey.chain
    obtain rfl := hc.linked.unique hc'.linked
    obtain ⟨hactive, -⟩ := active_of_nextEntry (head.inPlace hblocks) hnext
    obtain ⟨_, -, -, hexamines⟩ := nextExamines_of_ret hnext
    obtain ⟨q, hq, rfl, -⟩ := hwithin.examines hexamines
    have hmem : EntryPtr.ofPlace q ∈ es := by
      rw [← hes, ← activePlaces_opened hc]
      exact List.mem_filter.mpr ⟨List.mem_map_of_mem hq, hactive⟩
    exact hopened (.child hreach hkey hmem hdir)

/-- **In a sound volume the name is by itself** when no directory but the root has block 2 for one
of its blocks. -/
theorem Volume.WellFormed.handlesApart {v : Volume} (hwf : v.WellFormed)
    (hblocks : 2 < v.disk.numBlocks)
    (hroot : ∀ key rest, v.Reachable key → BlockChain v key rest → key ≠ .image Volume.root →
      .image Volume.root ∉ key :: rest) : v.HandlesApart := by
  rintro h hhandle e ⟨_, -, -, hexamines⟩
  obtain ⟨key, rest, hreach, hc, hwithin⟩ := hhandle.withinChain hwf hblocks
  obtain ⟨q, hq, rfl, hlt⟩ := hwithin.examines hexamines
  obtain ⟨n, hn, hblock⟩ := (hhandle.inPlace hblocks).examines hexamines
  obtain ⟨hmem, hle⟩ := Linked.mem_cons_placesAfter (by decide) hq
  have hsize := v.disk.mul_numBlocks_le
  have hfirst : n = 2 → 1 ≤ q.2 := by
    rintro rfl
    have hkey : key = .image Volume.root := by
      by_contra hne
      exact hroot key rest hreach hc hne (hblock ▸ hmem)
    exact hc.linked.le_of_mem_cons_placesAfter (by decide) hq (hblock.trans hkey.symm)
  have haddr : ∀ a, (EntryPtr.ofPlace q).block = .image a → a = 512 * n := by
    intro a ha
    rw [hblock] at ha
    cases ha
    rfl
  refine ⟨fun a ha => ?_, fun hactive a ha => ?_⟩
  · rw [haddr a ha]
    show 512 * n + 4 + 39 * q.2 < v.disk.size
    omega
  · have hlt' := hlt hactive
    rw [haddr a ha]
    show 512 * n + 4 + 39 * q.2 + 39 ≤ v.disk.size ∧
      (512 * n + 4 + 39 * q.2 + 39 ≤ 1028 ∨ 1044 ≤ 512 * n + 4 + 39 * q.2)
    refine ⟨by omega, ?_⟩
    rcases Nat.lt_trichotomy n 2 with hn2 | rfl | hn2
    · exact Or.inl (by omega)
    · have hone := hfirst rfl
      exact Or.inr (by omega)
    · exact Or.inr (by omega)

/-! ### Names in capital letters -/

theorem toupper_of_not_islower {c : UInt8} (h : islower c = false) : toupper c = c := by
  rw [toupper, if_neg (by simp [h])]

theorem islower_iff {c : UInt8} : islower c ↔ 97 ≤ c.toNat ∧ c.toNat ≤ 122 := by
  rw [islower, Bool.and_eq_true, decide_eq_true_eq, decide_eq_true_eq, UInt8.le_iff_toNat_le,
    UInt8.le_iff_toNat_le]
  rfl

theorem isupper_toupper {c : UInt8} (h : islower c) : isupper (toupper c) := by
  obtain ⟨hlo, hhi⟩ := islower_iff.mp h
  have hsub : (c - 32).toNat = c.toNat - 32 :=
    UInt8.toNat_sub_of_le c 32 (UInt8.le_iff_toNat_le.mpr (show 32 ≤ c.toNat by omega))
  rw [toupper, if_pos h, isupper, Bool.and_eq_true, decide_eq_true_eq, decide_eq_true_eq,
    UInt8.le_iff_toNat_le, UInt8.le_iff_toNat_le, hsub]
  exact ⟨show 65 ≤ _ by omega, show _ ≤ 90 by omega⟩

theorem isalpha_toupper {c : UInt8} (h : isalpha c) : isalpha (toupper c) := by
  cases hlower : islower c with
  | false => rwa [toupper_of_not_islower hlower]
  | true => rw [isalpha, isupper_toupper hlower, Bool.true_or]

theorem nameChar_toupper {c : UInt8} (h : isalnum c || c == 46) :
    isalnum (toupper c) || toupper c == 46 := by
  cases hlower : islower c with
  | false => rwa [toupper_of_not_islower hlower]
  | true =>
    rw [isalnum, isalpha, isupper_toupper hlower]
    rfl

/-- A valid name stays valid. -/
theorem isValidName_map_toupper {name : Str} (h : isValidName name) :
    isValidName (name.map toupper) := by
  obtain ⟨hpos, hle, hfirst, hrest⟩ := isValidName_iff.mp h
  rw [isValidName_iff, List.length_map]
  refine ⟨hpos, hle, ?_, ?_⟩
  · obtain ⟨c, rest, rfl⟩ := List.exists_cons_of_length_pos hpos
    exact isalpha_toupper hfirst
  · rw [← List.map_drop]
    intro c hc
    obtain ⟨d, hd, rfl⟩ := List.mem_map.mp hc
    exact nameChar_toupper (hrest d hd)

/-! ### The edited header -/

/-- The byte of the storage type and the length. -/
theorem and_or_shift (b : UInt8) {n : ℕ} (hn : n < 16) :
    (b &&& 0xF0 ||| UInt8.ofNat n) >>> 4 = b >>> 4 ∧
      (b &&& 0xF0 ||| UInt8.ofNat n) &&& 0x0F = UInt8.ofNat n := by
  have hlow : ∀ n < 16, UInt8.ofNat n >>> 4 = 0 ∧ UInt8.ofNat n &&& 0x0F = UInt8.ofNat n := by
    decide
  obtain ⟨hshift, hand⟩ := hlow n hn
  constructor
  · have hhigh : b >>> 4 &&& (0x0F : UInt8) = b >>> 4 := by
      have hlt : (b >>> 4).toNat < 2 ^ 4 := by
        have hb := b.toNat_lt
        rw [UInt8.toNat_shiftRight]
        show b.toNat >>> 4 < 16
        rw [Nat.shiftRight_eq_div_pow]
        omega
      rw [← UInt8.toNat_inj, UInt8.toNat_and]
      exact Nat.and_two_pow_sub_one_of_lt_two_pow hlt
    rw [UInt8.shiftRight_or, UInt8.shiftRight_and, hshift, UInt8.or_zero]
    exact hhigh
  · have hdistrib : ∀ x y z : UInt8, (x ||| y) &&& z = x &&& z ||| y &&& z := fun _ _ _ =>
      UInt8.toBitVec_inj.mp BitVec.and_or_distrib_right
    rw [hdistrib, hand, UInt8.and_assoc, show (0xF0 &&& 0x0F : UInt8) = 0 by decide,
      UInt8.and_zero, UInt8.zero_or]

/-- A name is read back from its bytes and its length. -/
theorem fileName_eq {header : Block} {s : Str} (hlen : s.length ≤ 15)
    (htype : header 0 &&& 0x0F = UInt8.ofNat s.length)
    (hname : ∀ i < s.length, header (1 + i) = s.getD i 0) : Entry.fileName header = s := by
  have hlength : (Entry.nameLength header).toNat = s.length := by
    rw [Entry.nameLength, htype, UInt8.toNat_ofNat']
    omega
  rw [Entry.fileName, hlength, bytesAt]
  refine List.ext_getElem (by simp) fun i hi hi' => ?_
  rw [List.getElem_map, List.getElem_range, hname i hi', List.getD_eq_getElem _ _ hi']

section
variable {v w : Volume} {residue : Block} {s : Str}

/-- The memory of an edited volume. -/
theorem edited_mem : (v.edited residue s).disk.mem
    = Function.update (memcpy v.disk.mem 1029 (nameField s residue) 15) 1028
      (v.disk.mem 1028 &&& 0xF0 ||| UInt8.ofNat s.length) := by
  have hnamed : memcpy v.disk.mem 1029 (nameField s residue) 15 1028 = v.disk.mem 1028 :=
    memcpy_of_lt (Nat.lt_succ_self _)
  rw [← hnamed]
  rfl

theorem edited_mem_of_not {a : ℕ} (ha : ¬ (1028 ≤ a ∧ a < 1044)) :
    (v.edited residue s).disk.mem a = v.disk.mem a := by
  have hout : ¬ (1029 ≤ a ∧ a < 1029 + 15) := by omega
  rw [edited_mem, Function.update_of_ne (by omega), memcpy, if_neg hout]

theorem edited_mem_type :
    (v.edited residue s).disk.mem 1028 = v.disk.mem 1028 &&& 0xF0 ||| UInt8.ofNat s.length := by
  rw [edited_mem, Function.update_self]

theorem edited_mem_field (residue : Block) {i : ℕ} (hi : i < 15) :
    (v.edited residue s).disk.mem (1029 + i) = nameField s residue i := by
  rw [edited_mem, Function.update_of_ne (by omega),
    memcpy_of_mem (Nat.le_add_right _ _) (by omega), Nat.add_sub_cancel_left]

theorem edited_mem_name (residue : Block) (hlen : s.length ≤ 15) {i : ℕ} (hi : i < s.length) :
    (v.edited residue s).disk.mem (1029 + i) = s.getD i 0 := by
  rw [edited_mem_field residue (by omega), nameField, if_pos hi]

/-- From fourteen characters on, the string reaches to the end of the field with its NUL. -/
theorem nameField_of_le (residue : Block) (hlen : 14 ≤ s.length) {i : ℕ} (hi : i < 15) :
    nameField s residue i = s.getD i 0 := by
  rw [nameField]
  by_cases hlt : i < s.length
  · rw [if_pos hlt]
  · rw [if_neg hlt, if_pos (by omega), List.getD_eq_default _ _ (by omega)]

/-- A long name leaves nothing of what follows it in memory. -/
theorem edited_residue (v : Volume) (residue residue' : Block) (hlen : 14 ≤ s.length) :
    v.edited residue s = v.edited residue' s := by
  have hfield : memcpy v.disk.mem (Volume.root + 5) (nameField s residue) 15
      = memcpy v.disk.mem (Volume.root + 5) (nameField s residue') 15 :=
    memcpy_congr fun i hi => by rw [nameField_of_le _ hlen hi, nameField_of_le _ hlen hi]
  rw [Volume.edited, Volume.edited, hfield]

/-- The name in a header that has been edited. -/
theorem fileName_header_edited (residue : Block) (hlen : s.length ≤ 15)
    (hmem : ∀ a, 1028 ≤ a → a < 1044 → w.disk.mem a = (v.edited residue s).disk.mem a) :
    Entry.fileName w.header = s := by
  refine fileName_eq hlen ?_ fun i hi => ?_
  · show w.disk.mem 1028 &&& 0x0F = _
    rw [hmem 1028 (by decide) (by decide), edited_mem_type]
    exact (and_or_shift _ (by omega)).2
  · show w.disk.mem (1024 + 4 + (1 + i)) = _
    rw [← edited_mem_name (v := v) residue hlen hi, show 1024 + 4 + (1 + i) = 1029 + i by omega]
    exact hmem _ (by omega) (by omega)

/-! ### Nothing else is changed -/

/-- The checks of the constructor do not look at the name. -/
theorem Volume.Accepted.of_renamed (hv : v.Accepted) (hren : v.Renamed w)
    (hsize : w.disk.size = v.disk.size) : w.Accepted := by
  have hle := block2_le hv.blocks
  have hheader : ∀ k, 16 ≤ k → k < 508 → w.header k = v.header k := by
    intro k hk hk'
    have hmem := hren.mem (1024 + 4 + k) (by omega) (by omega)
    exact hmem
  exact {
    aligned := hsize ▸ hv.aligned
    blocks := hren.numBlocks ▸ hv.blocks
    directory := by
      obtain ⟨hprev, htype⟩ := isVolumeDirectoryBlock_iff.mp hv.directory
      have h0 : w.disk.at 1024 0 = v.disk.at 1024 0 := hren.mem 1024 (by omega) (by decide)
      have h1 : w.disk.at 1024 1 = v.disk.at 1024 1 := hren.mem 1025 (by omega) (by decide)
      rw [isVolumeDirectoryBlock_iff, leRead16_congr h0 h1]
      exact ⟨hprev, (show w.disk.mem 1028 >>> 4 = _ from hren.storageType).trans htype⟩
    minVersion := (hheader 29 (by decide) (by decide)).trans hv.minVersion
    entriesPerBlock := (hheader 32 (by decide) (by decide)).trans hv.entriesPerBlock
    entryLength := (hheader 31 (by decide) (by decide)).trans hv.entryLength
    totalBlocks := by
      rw [hren.numBlocks, ← hv.totalBlocks]
      exact leRead16_congr (hheader 37 (by decide) (by decide))
        (hheader 38 (by decide) (by decide)) }

theorem renamed_edited (hlen : s.length ≤ 15) : v.Renamed (v.edited residue s).touched where
  numBlocks := rfl
  mem _ _ ha := edited_mem_of_not ha
  storageType := by
    show (v.edited residue s).disk.mem 1028 >>> 4 = _
    rw [edited_mem_type]
    exact (and_or_shift _ (by omega)).1

/-- A volume with the same image has the same name. -/
theorem Volume.Renamed.of_image_eq {u : Volume} (hren : v.Renamed w)
    (hsize : w.disk.size = v.disk.size) (hname : 1044 ≤ v.disk.size)
    (himage : u.disk.image = w.disk.image) : v.Renamed u := by
  have hsize' := size_eq_of_image_eq himage
  have hmem : ∀ a < v.disk.size, u.disk.mem a = w.disk.mem a := fun a ha =>
    mem_eq_of_image_eq himage (hsize ▸ ha)
  exact {
    numBlocks := by rw [← hren.numBlocks, Disk.numBlocks, Disk.numBlocks, hsize']
    mem := fun a ha hnot => (hmem a ha).trans (hren.mem a ha hnot)
    storageType := by
      rw [hmem 1028 (by omega)]
      exact hren.storageType }

end

/-! ### Renaming -/

/-- What `Rename` leaves: a volume with another name, which can be opened. -/
structure Volume.RenamedTo (v w : Volume) (s : Str) : Prop where
  size : w.disk.size = v.disk.size
  mem : ∀ a < v.disk.size, ¬ (1028 ≤ a ∧ a < 1044) → w.disk.mem a = v.disk.mem a
  storageType : w.headerStorageType = v.headerStorageType
  name : ∀ err : Err, w.name err = (.ret s, err)
  accepted : w.Accepted
  sameFiles : v.HandlesApart → v.SameFiles w

/-- **What a rename changes, and what it does not.** An invalid name changes nothing. A valid one
becomes the name of the volume, in capital letters, and is still valid; no other byte is changed,
and no lookup and no file on a volume where the name is by itself. All that is still so when the
image has been saved and opened again. -/
theorem rename_frames {v : Volume} (hv : v.Accepted) (name : Str) (residue : Block) :
    (isValidName name = false → Volume.rename residue name v = (.ret false, v)) ∧
      (isValidName name → isValidName (name.map toupper) ∧
        ∃ w, Volume.rename residue name v = (.ret true, w) ∧ w.disk.dirty = true ∧
          w.disk.converted = v.disk.converted ∧ v.RenamedTo w (name.map toupper) ∧
          (∀ a, ¬ (1028 ≤ a ∧ a < 1044) → w.disk.mem a = v.disk.mem a) ∧
          ∀ (calls : Disk.SaveCalls) (pathname : Str) (fs fs' : Disk.Files),
            w.disk.save calls pathname fs = (.ret true, fs') →
            ∃ contents, fs' pathname = some contents ∧ contents = w.disk.image ∧
              ∀ env : Environment, ∃ u o, openVolume env (.regular contents) = (.ret u, o) ∧
                u.disk.image = contents ∧ v.RenamedTo u (name.map toupper)) := by
  refine ⟨fun hinvalid => Volume.rename_of_not_valid hinvalid residue v, fun hvalid => ?_⟩
  have hupper := isValidName_map_toupper hvalid
  have hlen : (name.map toupper).length ≤ 15 := (isValidName_iff.mp hupper).2.1
  have hle := block2_le hv.blocks
  set w := (v.edited residue (name.map toupper)).touched with hw
  have hren : v.Renamed w := renamed_edited hlen
  have hto : ∀ u : Volume, u.disk.image = w.disk.image → v.RenamedTo u (name.map toupper) := by
    intro u himage
    have hsize : u.disk.size = v.disk.size := size_eq_of_image_eq (d := w.disk) himage
    have hren' : v.Renamed u := hren.of_image_eq rfl (by omega) himage
    have hu := hv.of_renamed hren' hsize
    have hname : Entry.fileName u.header = name.map toupper :=
      fileName_header_edited (v := v) residue hlen fun a _ ha =>
        mem_eq_of_image_eq himage (show a < v.disk.size by omega)
    exact {
      size := hsize
      mem := hren'.mem
      storageType := hren'.storageType
      name := fun err => hname ▸ name_of_accepted hu err
      accepted := hu
      sameFiles := fun hapart => hren'.sameFiles hv (hren'.sameSlots hv.blocks hapart) }
  refine ⟨hupper, w, Volume.rename_of_valid hvalid residue hv.blocks, rfl, rfl, hto w rfl,
    fun a ha => edited_mem_of_not ha, fun calls pathname fs fs' hsave => ?_⟩
  refine ⟨_, Disk.save_of_ret_true (hto w rfl).accepted.size_ne hsave, rfl, fun env => ?_⟩
  obtain ⟨-, overrun, hopen⟩ := openVolume_first (hto w rfl).accepted rfl env
  exact ⟨_, _, hopen, image_ofImage _ _, hto _ (image_ofImage _ _)⟩

theorem nextBlock_small : ∀ d ∈ smallSurvey, d.1 ≠ .image 1024 →
    smallVolume.nextBlock d.1 = none := by
  decide

/-- The name of the small volume is by itself. -/
theorem handlesApart_small : smallVolume.HandlesApart := by
  refine wellFormed_small.handlesApart accepted_small.blocks ?_
  intro key rest hreach hc hne
  obtain ⟨es, hmem⟩ := survey_small.exists_mem hreach
  have hlast := nextBlock_small _ hmem hne
  have hrest : rest = [] := hc.linked.unique (.last hlast)
  subst hrest
  exact fun h => hne (List.mem_singleton.mp h).symm

/-- The small volume is renamed to `new`: it is then called `NEW`, and its text file, which does not
have block 2 for a block of data, is read as before. -/
theorem rename_frames_small : isValidName (ascii "1st") = false ∧
    Volume.rename (fun _ => 0) (ascii "1st") smallVolume = (.ret false, smallVolume) ∧
    ∃ w, Volume.rename (fun _ => 0) (ascii "new") smallVolume = (.ret true, w) ∧
      (∀ err : Err, w.name err = (.ret (ascii "NEW"), err)) ∧
      ∃ fs', w.disk.save ⟨true, some 8192, true, ""⟩ (ascii "a.po") (fun _ => none)
          = (.ret true, fs') ∧
        ∃ contents, fs' (ascii "a.po") = some contents ∧
          ∃ u o, openVolume noPassword (.regular contents) = (.ret u, o) ∧
            (∀ err : Err, u.name err = (.ret (ascii "NEW"), err)) ∧
            ∀ err, getEntry u 65536 (ascii "/T") err
              = getEntry smallVolume 65536 (ascii "/T") err := by
  have hinvalid : isValidName (ascii "1st") = false := by decide
  obtain ⟨-, w, hrename, -, -, hto, -, hsaved⟩ :=
    (rename_frames accepted_small (ascii "new") (fun _ => 0)).2 (by decide)
  have hname : (ascii "new").map toupper = ascii "NEW" := by decide
  rw [hname] at hto hsaved
  obtain ⟨fs', hsave⟩ : ∃ fs', w.disk.save ⟨true, some 8192, true, ""⟩ (ascii "a.po")
      (fun _ => none) = (.ret true, fs') :=
    Disk.save_of_calls rfl (congrArg some hto.size.symm) rfl _ _
  obtain ⟨contents, hcontents, -, hreopen⟩ := hsaved _ _ _ _ hsave
  obtain ⟨u, o, hopen, -, hto'⟩ := hreopen noPassword
  exact ⟨hinvalid, (rename_frames accepted_small (ascii "1st") (fun _ => 0)).1 hinvalid, w, hrename,
    hto.name, fs', hsave, contents, hcontents, u, o, hopen, hto'.name, fun err =>
      (hto'.sameFiles handlesApart_small).lookup _ _ _⟩

/-- What `Rename` leaves is a function of the old image and the name: the field has the name in
capital letters and then zeros, and whatever follows the name in memory, the image is the same one,
in memory and when it is saved. -/
structure Volume.CleanRename (v : Volume) (name : Str) : Prop where
  field : ∀ (residue : Block) (i : ℕ), i < 15 →
    (Volume.rename residue name v).2.header (1 + i) = (name.map toupper).getD i 0
  image : ∀ residue residue' : Block, (Volume.rename residue name v).2.disk.image
    = (Volume.rename residue' name v).2.disk.image
  saved : ∀ (residue residue' : Block) (calls : Disk.SaveCalls) (pathname : Str) (fs : Disk.Files),
    (Volume.rename residue name v).2.disk.save calls pathname fs
      = (Volume.rename residue' name v).2.disk.save calls pathname fs

/-- The name field after a rename. -/
theorem header_rename {v : Volume} (hv : v.Accepted) {name : Str} (hvalid : isValidName name)
    (residue : Block) {i : ℕ} (hi : i < 15) :
    (Volume.rename residue name v).2.header (1 + i) = nameField (name.map toupper) residue i := by
  rw [Volume.rename_of_valid hvalid residue hv.blocks]
  show (v.edited residue (name.map toupper)).disk.mem (1024 + 4 + (1 + i)) = _
  rw [← edited_mem_field (v := v) residue hi, show 1024 + 4 + (1 + i) = 1029 + i by omega]

/-- **A rename is clean if and only if the name has fourteen characters or fifteen.** The fifteen
bytes that `memcpy` takes from a shorter one go past its NUL. -/
theorem cleanRename_iff {v : Volume} (hv : v.Accepted) {name : Str} (hvalid : isValidName name) :
    v.CleanRename name ↔ 14 ≤ name.length := by
  constructor
  · intro hclean
    by_contra hshort
    have hfield := hclean.field (fun _ => 1) (name.length + 1) (by omega)
    rw [header_rename hv hvalid _ (by omega), nameField, List.length_map, if_neg (by omega),
      if_neg (by omega), List.getD_eq_default _ _ (by rw [List.length_map]; omega)] at hfield
    exact absurd hfield (by decide)
  · intro hlen
    have hlen' : 14 ≤ (name.map toupper).length := by rwa [List.length_map]
    have hsame : ∀ residue residue' : Block,
        Volume.rename residue name v = Volume.rename residue' name v := by
      intro residue residue'
      rw [Volume.rename_of_valid hvalid residue hv.blocks,
        Volume.rename_of_valid hvalid residue' hv.blocks, edited_residue v residue residue' hlen']
    exact {
      field := fun residue i hi => by
        rw [header_rename hv hvalid residue hi, nameField_of_le residue hlen' hi]
      image := fun residue residue' => by rw [hsame residue residue']
      saved := fun residue residue' calls pathname fs => by rw [hsame residue residue'] }

/-- A name of fourteen characters, and one of two. -/
theorem cleanRename_iff_small :
    smallVolume.CleanRename (ascii "Fourteen.Chars") ∧ ¬ smallVolume.CleanRename (ascii "Ab") :=
  ⟨(cleanRename_iff accepted_small (by decide)).mpr (by decide), fun h =>
    absurd ((cleanRename_iff accepted_small (by decide)).mp h) (by decide)⟩

/-- The small volume is renamed to `Ab` twice. What is left on the stack comes into the image. -/
theorem not_cleanRename_small : ¬ ∀ (v : Volume) (name : Str), v.Accepted → isValidName name →
    v.CleanRename name := by
  intro hclaim
  have hclean := hclaim smallVolume (ascii "Ab") accepted_small (by decide)
  have hfield := hclean.field (fun _ => 0x41) 3 (by decide)
  rw [header_rename accepted_small (by decide) _ (by decide)] at hfield
  exact absurd hfield (by decide)

/-- `Rename`, `Save`, and opening what has been saved, made of one volume the other. -/
def Volume.Reopened (v u : Volume) : Prop :=
  ∃ (w : Volume) (residue : Block) (name pathname : Str) (calls : Disk.SaveCalls)
    (fs fs' : Disk.Files) (contents : Image) (env : Environment) (o : Opening),
    Volume.rename residue name v = (.ret true, w) ∧
      w.disk.save calls pathname fs = (.ret true, fs') ∧ fs' pathname = some contents ∧
      openVolume env (.regular contents) = (.ret u, o)

/-- A volume that was renamed to `B`, saved and opened again. -/
def Volume.reopened (v : Volume) : Volume :=
  ⟨Disk.ofImage (v.edited (fun _ => 0) (ascii "B")).touched.disk.image fun _ => 0⟩

theorem Volume.Accepted.reopened {v : Volume} (hv : v.Accepted) :
    v.reopened.Accepted ∧ v.Reopened v.reopened := by
  have hrename : Volume.rename (fun _ => 0) (ascii "B") v
      = (.ret true, (v.edited (fun _ => 0) (ascii "B")).touched) :=
    Volume.rename_of_valid (by decide) _ hv.blocks
  have hrenamed : (v.edited (fun _ => 0) (ascii "B")).touched.Accepted :=
    hv.of_renamed (renamed_edited (by decide)) rfl
  obtain ⟨fs', hsave⟩ : ∃ fs', (v.edited (fun _ => 0) (ascii "B")).touched.disk.save
      ⟨true, some v.disk.size, true, ""⟩ (ascii "a.po") (fun _ => none) = (.ret true, fs') :=
    Disk.save_of_calls rfl rfl rfl _ _
  obtain ⟨-, overrun, hopen⟩ := openVolume_first hrenamed rfl noPassword
  exact ⟨hrenamed.of_image_eq (image_ofImage _ _), _, _, _, _, _, _, _, _, _, _, hrename, hsave,
    Disk.save_of_ret_true hrenamed.size_ne hsave, hopen⟩

/-- A volume `A` whose root directory has no entries in its block, and that block as the next one.
Its header is found as an entry. -/
def loopVolume : Volume :=
  ⟨Disk.ofImage (.sparse 4096 (headerBytes 1028 0xF 65 1 8 ++ [(1026, 2)])) fun _ => 0⟩

theorem accepted_loop : loopVolume.Accepted := by decide

/-- A volume `A` with a file `F` whose only block of data is block 2. -/
def sharedVolume : Volume :=
  ⟨Disk.ofImage (.sparse 4096 (headerBytes 1028 0xF 65 1 8 ++
    entryBytes 1067 0x1 70 0x06 2 0 ++ [(1089, 2)])) fun _ => 0⟩

def sharedFile : EntryPtr := ⟨.image 1024, 1⟩

theorem accepted_shared : sharedVolume.Accepted := by decide

/-- A file that is the only entry of the root directory is opened. -/
theorem openFile_only {v : Volume} (hv : v.Accepted) {e : EntryPtr}
    (hdir : DirectoryAt v (.image 1024) [e]) (name : Str) (hslash : 47 ∉ name)
    (hresolve : v.resolve [e] name = some e)
    (htype : Entry.storageType (v.entry e) = storageTypeSeedlingFile)
    (hkey : v.InRange (Entry.keyPointer (v.entry e))) (err : Err) :
    openFile v (14 * 65536) (joinPath [name]) err = (.ret (some (handleAt v e 0)), err) := by
  have hentry := getEntry_root hv (hdir.iterates le_rfl) (by simp) hslash err
  rw [hresolve] at hentry
  have hfile : Entry.isFile (v.entry e) := isFile_iff.mpr (Or.inl htype)
  obtain ⟨h, hcreate⟩ : ∃ h, FileHandle.create v e err = (.ret h, err) := by
    rw [FileHandle.create, if_pos htype, Call.bind_of_ret (Volume.getBlock_of_lt hkey err)]
    exact ⟨_, rfl⟩
  obtain ⟨-, rfl, -⟩ := create_eq_ret hcreate
  rw [openFile, Call.bind_of_ret hentry]
  simp only [Call.ite_apply]
  rw [if_neg (by simp [hfile]), Call.bind_of_ret hcreate]
  rfl

/-- Not every lookup is the same under another name, and not every file is read the same: an entry
can be the name, and so can the data of a file. -/
theorem not_rename_frames_shared :
    (¬ ∀ v u : Volume, v.Accepted → v.Reopened u → ∀ (fuel : ℕ) (path : Str) (err : Err),
      getEntry u fuel path err = getEntry v fuel path err) ∧
    ¬ ∀ v u : Volume, v.Accepted → v.Reopened u →
      ∀ (fuel size : ℕ) (path : Str) (err err₀ err₁ : Err) (h h' : FileHandle),
        openFile v fuel path err = (.ret (some h), err₀) →
        openFile u fuel path err = (.ret (some h'), err₁) →
        (FileHandle.read u size (h', err₁)).1 = (FileHandle.read v size (h, err₀)).1 := by
  constructor
  · intro hclaim
    have hentry := hclaim _ _ accepted_loop accepted_loop.reopened.2 20 (ascii "/A") .none
    have hold : getEntry loopVolume 20 (ascii "/A") .none
        = (.ret (some ⟨.image 1024, 0⟩), .none) := by decide +kernel
    have hnew : getEntry loopVolume.reopened 20 (ascii "/A") .none
        = (.ret none, .fileNotFound) := by decide +kernel
    rw [hold, hnew] at hentry
    cases hentry
  · intro hclaim
    obtain ⟨hreopened, hrun⟩ := accepted_shared.reopened
    have hold := openFile_only accepted_shared (e := sharedFile)
      ⟨Or.inl (by decide), ⟨[], ⟨.last (by decide), by decide, by decide, by decide⟩, by decide⟩,
        by decide⟩ (ascii "F") (by decide) (by decide) (by decide) (Or.inr (by decide)) .none
    have hnew := openFile_only hreopened (e := sharedFile)
      ⟨Or.inl (by decide), ⟨[], ⟨.last (by decide), by decide, by decide, by decide⟩, by decide⟩,
        by decide⟩ (ascii "F") (by decide) (by decide) (by decide) (Or.inr (by decide)) .none
    have hread := hclaim _ _ accepted_shared hrun _ 6 _ _ _ _ _ _ hold hnew
    rw [read_seedling (by decide) (by decide), read_seedling (by decide) (by decide)] at hread
    exact absurd (Outcome.ret.inj hread) (by decide)

end Prodosfs
