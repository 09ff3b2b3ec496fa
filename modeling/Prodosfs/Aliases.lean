import Prodosfs.Renaming

/-!
# Volumes that differ in their names

A volume that is renamed has the same directories and files, where nothing else is kept with the
name. The catalogue has to be the same as well, below its title: it has a line for every entry, and
a count of the blocks in use, for which `CountBlocksUsed` reads far more blocks than the bitmap has.
Block 2 must not be one of them.

## Main definitions

* `Volume.HandlesInside` — no directory is read from behind the end of the image
* `Volume.BitmapApart` — the bitmap is inside the image, and block 2 is not a part of it
* `Volume.Alias` — two volumes with the same files and the same catalogue, but for its title

## Main results

* `Volume.Renamed.alias` — the name of a volume is no more than that
-/

namespace Prodosfs

/-- As far as `NextEntry` looks at a slot for `GetEntry`, it is inside the image. -/
def Volume.HandlesInside (v : Volume) : Prop :=
  ∀ h, v.Handles h → ∀ e, NextExamines v h e → ∀ a, e.block = .image a →
    a + 4 + 39 * e.slot < v.disk.size ∧ (v.active e → a + 4 + 39 * e.slot + 39 ≤ v.disk.size)

/-- The blocks that are read as the bitmap are inside the image, and none of them has the name. -/
structure Volume.BitmapApart (v : Volume) : Prop where
  inside : v.BitmapInside
  apart : ∀ i < (v.disk.numBlocks + 511) / 512, v.bitMapPointer + i ≠ 2

/-- A name is made of the first 16 bytes. -/
theorem fileName_congr {p q : Block} (h : ∀ k < 16, p k = q k) :
    Entry.fileName p = Entry.fileName q := by
  have hlength : Entry.nameLength p = Entry.nameLength q := by
    rw [Entry.nameLength, Entry.nameLength, h 0 (by decide)]
  have hle : (Entry.nameLength q).toNat ≤ 15 := by
    have hlen := length_fileName_le q
    rwa [Entry.fileName, length_bytesAt] at hlen
  rw [Entry.fileName, Entry.fileName, hlength]
  refine List.map_congr_left fun i hi => h (1 + i) ?_
  have hlt := List.mem_range.mp hi
  omega

/-- The line of an entry is made of its 39 bytes. -/
theorem entryLine_congr {p q : Block} (h : ∀ k < 39, p k = q k) : entryLine p = entryLine q := by
  have hname : Entry.fileName p = Entry.fileName q := fileName_congr fun k hk => h k (by omega)
  have htype : Entry.fileType p = Entry.fileType q := h 16 (by decide)
  have haux : Entry.auxType p = Entry.auxType q :=
    leRead16_congr (h 31 (by decide)) (h 32 (by decide))
  have hused : Entry.blocksUsed p = Entry.blocksUsed q :=
    leRead16_congr (h 19 (by decide)) (h 20 (by decide))
  have heof : Entry.eof p = Entry.eof q := by
    simp only [Entry.eof, leRead24, h 21 (by decide), h 22 (by decide), h 23 (by decide),
      Nat.add_zero, Nat.reduceAdd]
  have hcreated : Entry.creationTimestamp p = Entry.creationTimestamp q := by
    simp only [Entry.creationTimestamp, decodeTimestamp, leRead16, h 24 (by decide),
      h 25 (by decide), h 26 (by decide), h 27 (by decide), Nat.add_zero, Nat.reduceAdd]
  have hmodified : Entry.lastModTimestamp p = Entry.lastModTimestamp q := by
    simp only [Entry.lastModTimestamp, decodeTimestamp, leRead16, h 33 (by decide),
      h 34 (by decide), h 35 (by decide), h 36 (by decide), Nat.add_zero, Nat.reduceAdd]
  rw [entryLine, entryLine, subtype, subtype, hname, htype, haux, hused, heof, hcreated, hmodified]

/-- The count is made of as many bytes as there are blocks. -/
theorem balance_congr {p q : Block} {n : ℕ} (h : ∀ k < n, p k = q k) :
    Volume.balance p n = Volume.balance q n := by
  have hbytes : bytesAt p 0 n = bytesAt q 0 n :=
    List.map_congr_left fun i hi => h (0 + i) (by simpa using hi)
  rw [Volume.balance, Volume.balance, hbytes]

namespace Volume.Renamed

variable {v w : Volume}

theorem refl (v : Volume) : v.Renamed v := ⟨rfl, fun _ _ _ => rfl, rfl⟩

theorem trans {u : Volume} (h : v.Renamed w) (h' : w.Renamed u)
    (hsize : w.disk.size = v.disk.size) : v.Renamed u where
  numBlocks := h'.numBlocks.trans h.numBlocks
  mem a ha hnot := (h'.mem a (hsize.symm ▸ ha) hnot).trans (h.mem a ha hnot)
  storageType := h'.storageType.trans h.storageType

/-- **A directory is listed the same.** The induction is on the entries. -/
theorem iterates (hren : v.Renamed w) (hblocks : 2 < v.disk.numBlocks) (hslots : v.SameSlots w)
    {fuel : ℕ} {h : DirectoryHandle} {es : List EntryPtr} (hit : Iterates v fuel h es) :
    v.Handles h → Iterates w fuel h es ∧ ∀ e ∈ es, v.Found e := by
  induction hit with
  | @nil h key header count =>
    intro hhandle
    obtain ⟨n, hn, hkey⟩ := (hhandle.inPlace hblocks).header
    obtain rfl : key = .image (512 * n) := by
      rw [header] at hkey
      exact Option.some.inj hkey
    refine ⟨.nil header ?_, fun e he => absurd he List.not_mem_nil⟩
    rw [hren.fileCount_eq hn, count]
  | @cons h h' e es head _ ih =>
    intro hhandle
    obtain ⟨hrest, hfound⟩ := ih (.next hhandle (head .none))
    refine ⟨.cons (fun err => ?_) hrest, fun e' he' => ?_⟩
    · rw [← head err]
      exact hren.nextEntry_eq (hhandle.inPlace hblocks) (hslots h hhandle) fuel err
    · rcases List.mem_cons.mp he' with rfl | he'
      · exact ⟨h, fuel, .none, _, hhandle, head .none⟩
      · exact hfound e' he'

/-- The first bytes of the bitmap. -/
theorem bitmap_eq (hren : v.Renamed w) (hv : v.Accepted) (hbitmap : v.BitmapApart) :
    ∀ k < v.disk.numBlocks, w.bitmap k = v.bitmap k := by
  intro k hk
  have hle := block2_le hv.blocks
  have hsize := v.disk.mul_numBlocks_le
  have hpointer : w.bitMapPointer = v.bitMapPointer :=
    leRead16_congr (hren.mem 1063 (by omega) (by decide)) (hren.mem 1064 (by omega) (by decide))
  have hinside := hbitmap.inside
  have hapart := hbitmap.apart (k / 512) (by omega)
  rw [Volume.BitmapInside] at hinside
  rw [Volume.bitmap, Volume.bitmap, hpointer]
  exact hren.mem _ (by omega) (by omega)

end Volume.Renamed

/-- In the same image the slots inside it are the same. -/
theorem sameSlots_of_image_eq {v w : Volume} (hblocks : 2 < v.disk.numBlocks)
    (hinside : v.HandlesInside) (himage : w.disk.image = v.disk.image) : v.SameSlots w := by
  rintro h hhandle ⟨b, i⟩ hnext
  obtain ⟨_, -, -, hexamines⟩ := id hnext
  obtain ⟨n, -, hblock⟩ := (hhandle.inPlace hblocks).examines hexamines
  obtain rfl : b = .image (512 * n) := hblock
  obtain ⟨hfirst, hwhole⟩ := hinside h hhandle _ hnext _ rfl
  have hfirst' : 512 * n + 4 + 39 * i < v.disk.size := hfirst
  constructor
  · have hbyte : w.entry ⟨.image (512 * n), i⟩ 0 = v.entry ⟨.image (512 * n), i⟩ 0 :=
      mem_eq_of_image_eq himage (a := 512 * n + (4 + 39 * i + 0)) (by omega)
    rw [Volume.active, Volume.active, Entry.isInactive, Entry.isInactive, Entry.storageType,
      Entry.storageType, hbyte]
  · intro hactive k hk
    have hwhole' : 512 * n + 4 + 39 * i + 39 ≤ v.disk.size := hwhole hactive
    exact mem_eq_of_image_eq himage (a := 512 * n + (4 + 39 * i + k)) (by omega)

/-- In the same image the bitmap is the same one. -/
theorem bitmap_eq_of_image_eq {v w : Volume} (hv : v.Accepted) (hbitmap : v.BitmapInside)
    (himage : w.disk.image = v.disk.image) : ∀ k < v.disk.numBlocks, w.bitmap k = v.bitmap k := by
  intro k hk
  have hle := block2_le hv.blocks
  have hsize := v.disk.mul_numBlocks_le
  have hpointer : w.bitMapPointer = v.bitMapPointer :=
    leRead16_congr (mem_eq_of_image_eq himage (a := 1063) (by omega))
      (mem_eq_of_image_eq himage (a := 1064) (by omega))
  rw [Volume.BitmapInside] at hbitmap
  rw [Volume.bitmap, Volume.bitmap, hpointer]
  exact mem_eq_of_image_eq himage (by omega)

/-- **What the catalogue of the root directory says**, below its title. -/
def catalogBody (v : Volume) (es : List EntryPtr) : Str :=
  columnsLine ++ (es.flatMap fun e => entryLine (v.entry e)) ++
    totalsLine v.totalBlocks (Volume.balance v.bitmap v.disk.numBlocks)

/-- `v` and `u` are the same volume, but that they may have different names. -/
structure Volume.Alias (v u : Volume) : Prop where
  files : v.SameFiles u
  catalog : ∀ fuel err text err', Prodosfs.catalog v fuel (ascii "/") err
    = (.ret (some text), err') →
      ∃ body, text = titleLine (Entry.fileName v.header) (ascii "/") ++ body ∧
        Prodosfs.catalog u fuel (ascii "/") err
          = (.ret (some (titleLine (Entry.fileName u.header) (ascii "/") ++ body)), err')

/-- **The name of a volume is no more than that**, where nothing else is kept with it. Nothing is
when the two have the same bytes. -/
theorem Volume.Renamed.alias {v w : Volume} (hren : v.Renamed w) (hv : v.Accepted)
    (hw : w.Accepted) (hslots : v.SameSlots w)
    (hbitmap : v.BitmapInside → ∀ k < v.disk.numBlocks, w.bitmap k = v.bitmap k) :
    v.Alias w := by
  refine ⟨hren.sameFiles hv hslots, fun fuel err text err' hcatalog => ?_⟩
  have hparent : parentPath (ascii "/") = ascii "/" := by decide
  have hle := block2_le hv.blocks
  obtain ⟨dh, err₀, es, hopen, hit, hfuel, htitle, hinside⟩ := iterates_of_catalog hv hcatalog
  have hroot : dh = .opened (.image Volume.root) := by
    rw [hparent, openDirectory_root hv] at hopen
    cases hopen
    rfl
  have hmade := catalog_of_iterates hv hopen hit hfuel htitle hinside
  rw [hcatalog, hparent] at hmade
  obtain ⟨hit', hfound⟩ := hren.iterates hv.blocks hslots hit (hroot ▸ .root)
  have hpointer : w.bitMapPointer = v.bitMapPointer :=
    leRead16_congr (hren.mem 1063 (by omega) (by decide)) (hren.mem 1064 (by omega) (by decide))
  have hinside' : w.BitmapInside := by
    rw [Volume.BitmapInside, hpointer, hren.numBlocks]
    exact hinside
  have hopen' : openDirectory w fuel (parentPath (ascii "/")) err
      = (.ret (some (.opened (.image Volume.root))), err) := by
    rw [hparent, openDirectory_root hw]
  have htitle' : (titleLine (Entry.fileName w.header) (parentPath (ascii "/"))).length < 128 := by
    rw [hparent]
    exact length_titleLine_lt _
  have hmade' := catalog_of_iterates hw hopen' (hroot ▸ hit') hfuel htitle' hinside'
  rw [hparent] at hmade'
  have htotal : w.totalBlocks = v.totalBlocks :=
    hw.totalBlocks.trans (hren.numBlocks.trans hv.totalBlocks.symm)
  have hlines : (es.flatMap fun e => entryLine (w.entry e))
      = es.flatMap fun e => entryLine (v.entry e) := by
    refine List.flatMap_congr fun e he => entryLine_congr ?_
    exact Renamed.entry_eq_of_found hv.blocks hslots (hfound e he)
  have hbody : catalogBody w es = catalogBody v es := by
    rw [catalogBody, catalogBody, hlines, htotal, hren.numBlocks,
      balance_congr (hbitmap hinside)]
  cases hmade
  refine ⟨catalogBody v es, ?_, ?_⟩
  · simp only [catalogText, catalogBody, List.append_assoc]
  · rw [hmade', ← hbody]
    simp only [catalogText, catalogBody, List.append_assoc]

end Prodosfs
