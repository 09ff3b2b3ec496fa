import Prodosfs.Probes

/-!
# The four layouts of an image

An image can be stored in block order or in the older track-and-sector order, and either way its
block 2 can be protected with a password. Opening undoes both, and what is proved here is that it
does so exactly: the image in memory is, byte for byte, the one that was stored.

## Main definitions

* `sectorPerm` — the sector order, as a permutation of addresses
* `Image.rearranged`, `Image.protected` — how an image is stored
* `Image.formatted` — an empty volume

## Main results

* `Volume.Accepted.of_image_eq` — the header checks are checks of the image
* `openVolume_protected`, `openVolume_rearranged`, `openVolume_rearranged_protected` — one layout
  each
* `open_variants` — all of them
-/

namespace Prodosfs

/-! ### Equal images -/

section
variable {d d' : Disk}

theorem image_eq_iff (hsize : d'.size = d.size) :
    d'.image = d.image ↔ ∀ a < d.size, d'.mem a = d.mem a := by
  rw [Disk.image, Disk.image, hsize]
  exact Image.ofFn_eq_iff

theorem size_eq_of_image_eq (h : d'.image = d.image) : d'.size = d.size :=
  congrArg Image.size h

theorem mem_eq_of_image_eq (h : d'.image = d.image) {a : ℕ} (ha : a < d.size) :
    d'.mem a = d.mem a :=
  (image_eq_iff (size_eq_of_image_eq h)).mp h a ha

theorem at_eq_of_image_eq (h : d'.image = d.image) {a k : ℕ} (hk : a + k < d.size) :
    d'.at a k = d.at a k :=
  mem_eq_of_image_eq h hk

/-- **The header checks are checks of block 2**, and of the number of blocks. -/
theorem Volume.Accepted.of_block2 {v w : Volume} (hv : v.Accepted)
    (hsize : w.disk.size = v.disk.size)
    (h : ∀ k < 512, w.disk.at 1024 k = v.disk.at 1024 k) : w.Accepted := by
  have hblocks : w.disk.numBlocks = v.disk.numBlocks := by
    rw [Disk.numBlocks, Disk.numBlocks, hsize]
  have hheader : ∀ k < 508, w.header k = v.header k := by
    intro k hk
    have hat := h (4 + k) (by omega)
    rwa [Disk.at, Disk.at, ← Nat.add_assoc] at hat
  exact {
    aligned := hsize ▸ hv.aligned
    blocks := hblocks ▸ hv.blocks
    directory := by
      rw [isVolumeDirectoryBlock_congr (h 0 (by decide)) (h 1 (by decide)) (h 4 (by decide))]
      exact hv.directory
    minVersion := (hheader 29 (by decide)).trans hv.minVersion
    entriesPerBlock := (hheader 32 (by decide)).trans hv.entriesPerBlock
    entryLength := (hheader 31 (by decide)).trans hv.entryLength
    totalBlocks := by
      rw [hblocks, ← hv.totalBlocks]
      exact leRead16_congr (hheader 37 (by decide)) (hheader 38 (by decide)) }

theorem Volume.Accepted.of_image_eq {v w : Volume} (hv : v.Accepted)
    (h : w.disk.image = v.disk.image) : w.Accepted := by
  have hle := block2_le hv.blocks
  exact hv.of_block2 (size_eq_of_image_eq h) fun k hk => at_eq_of_image_eq h (by omega)

end

/-- Mapping a file gives its contents back. -/
theorem image_ofImage (contents : Image) (past : Block) :
    (Disk.ofImage contents past).image = contents :=
  Image.eq_ofFn_iff.mpr fun _ ha => if_pos ha

/-- A volume whose image is a file that the first probe accepts. -/
theorem openVolume_first {v : Volume} (hv : v.Accepted) {contents : Image}
    (himage : v.disk.image = contents) (env : Environment) :
    firstProbe (Disk.ofImage contents env.past) ∧
      ∃ overrun, openVolume env (.regular contents)
        = (.ret ⟨Disk.ofImage contents env.past⟩, ⟨Disk.ofImage contents env.past, overrun⟩) := by
  have hmap : (Disk.ofImage contents env.past).image = v.disk.image := by
    rw [image_ofImage, himage]
  have hw : (Volume.mk (Disk.ofImage contents env.past)).Accepted := hv.of_image_eq hmap
  exact ⟨hw.directory, openVolume_of_located hw.aligned hw.blocks (.first hw.directory) hw⟩

/-! ### Formatted images -/

/-- The header of an empty volume that claims to have `n` blocks, in an otherwise empty file. -/
def Image.formatted (size n : ℕ) : Image :=
  .sparse size [(1028, 0xF1), (1029, 65), (1059, 39), (1060, 13), (1065, UInt8.ofNat n),
    (1066, UInt8.ofNat (n / 256))]

theorem byte_formatted (size n : ℕ) {a : ℕ} (h : a < size) :
    (Image.formatted size n).byte a =
      (([(1028, 0xF1), (1029, 65), (1059, 39), (1060, 13), (1065, UInt8.ofNat n),
        (1066, UInt8.ofNat (n / 256))] : List (ℕ × UInt8)).lookup a).getD 0 :=
  Image.byte_ofFn _ h

/-- A formatted image is accepted when it claims the number of blocks it has. -/
theorem accepted_formatted {size n : ℕ} (past : Block) (hsize : 512 ∣ size)
    (hn : size / 512 % 2 ^ 32 = n) (h2 : 2 < n) (hlt : n < 65536) :
    Volume.Accepted ⟨Disk.ofImage (Image.formatted size n) past⟩ := by
  have hle : 1024 + 512 ≤ size := by omega
  have hat : ∀ k < 512, (Disk.ofImage (Image.formatted size n) past).at 1024 k =
      (([(1028, 0xF1), (1029, 65), (1059, 39), (1060, 13), (1065, UInt8.ofNat n),
        (1066, UInt8.ofNat (n / 256))] : List (ℕ × UInt8)).lookup (1024 + k)).getD 0 := by
    intro k hk
    have hmem : 1024 + k < size := by omega
    rw [← byte_formatted size n hmem]
    exact if_pos hmem
  exact {
    aligned := hsize
    blocks := hn.symm ▸ h2
    directory := by
      rw [isVolumeDirectoryBlock_iff, leRead16_eq_zero_iff]
      have h4 : (Disk.ofImage (Image.formatted size n) past).at 1024 4 = 0xF1 := hat 4 (by decide)
      rw [h4]
      exact ⟨⟨hat 0 (by decide), hat 1 (by decide)⟩, by decide⟩
    minVersion := hat 33 (by decide)
    entriesPerBlock := hat 36 (by decide)
    entryLength := hat 35 (by decide)
    totalBlocks := by
      have h0 := hat 41 (by decide)
      have h1 := hat 42 (by decide)
      have hlow : (UInt8.ofNat n).toNat = n % 256 := UInt8.toNat_ofNat'
      have hhigh : (UInt8.ofNat (n / 256)).toNat = n / 256 % 256 := UInt8.toNat_ofNat'
      have hblocks : (Disk.ofImage (Image.formatted size n) past).numBlocks = n := hn
      rw [hblocks, Volume.totalBlocks, leRead16_eq]
      calc _ = (UInt8.ofNat (n / 256)).toNat * 256 + (UInt8.ofNat n).toNat :=
              congrArg₂ (fun x y => UInt8.toNat x * 256 + UInt8.toNat y) h1 h0
        _ = n := by rw [hlow, hhigh]; omega }

/-! ### The four layouts -/

/-- The sector permutation of `_ReadRwtsBlock`: where in the old image a byte of the new one comes
from. -/
def sectorPerm : Equiv.Perm ℕ := Disk.rwtsSource_involutive.toPerm

/-- The key: all characters of the password but the last, repeated. -/
def repeatedKey (p : Str) : Block := fun i => p.getD (i % (p.length - 1)) 0 ^^^ 0x7F

/-- An image in the older layout: the one whose conversion is `x`. -/
def Image.rearranged (x : Image) : Image := .ofFn x.size fun a => x.byte (sectorPerm.symm a)

/-- An image whose block 2 is protected with a password. -/
def Image.protected (x : Image) (p : Str) : Image :=
  .ofFn x.size (memcpy x.byte 1024 (applyMask (repeatedKey p) 512 fun k => x.byte (1024 + k)) 512)

/-- Converting a rearranged image gives the image back, as far as it has blocks. -/
theorem mem_converting_rearranged {x : Image} (htracks : 4096 ∣ x.size) (past heap : Block) {a : ℕ}
    (ha : a < 512 * (Disk.ofImage x past).numBlocks) :
    ((Disk.ofImage x.rearranged past).converting heap).mem a = x.byte a := by
  obtain ⟨t, ht⟩ := htracks
  have hsize : a < 4096 * t := ht ▸ lt_of_lt_of_le ha (Disk.mul_numBlocks_le _)
  have hsource : Disk.rwtsSource a < x.size := ht ▸ Disk.rwtsSource_lt hsize
  calc ((Disk.ofImage x.rearranged past).converting heap).mem a
      = (Disk.ofImage x.rearranged past).mem (Disk.rwtsSource a) := if_pos ha
    _ = x.rearranged.byte (Disk.rwtsSource a) := if_pos hsource
    _ = x.byte (sectorPerm.symm (sectorPerm a)) := Image.byte_ofFn _ hsource
    _ = x.byte a := by rw [Equiv.symm_apply_apply]

theorem byte_protected_of_lt (x : Image) (p : Str) {k : ℕ} (hk : k < 512)
    (hsize : 1024 + 512 ≤ x.size) :
    (x.protected p).byte (1024 + k)
      = applyMask (repeatedKey p) 512 (fun k => x.byte (1024 + k)) k := by
  have hlt : 1024 + k < 1024 + 512 := by omega
  have hmem : 1024 + k < x.size := by omega
  rw [Image.protected, Image.byte_ofFn _ hmem, memcpy_of_mem (Nat.le_add_right 1024 k) hlt,
    Nat.add_sub_cancel_left]

theorem byte_protected_of_not_mem (x : Image) (p : Str) {a : ℕ}
    (ha : ¬ (1024 ≤ a ∧ a < 1024 + 512)) : (x.protected p).byte a = x.byte a := by
  rcases Nat.lt_or_ge a x.size with hlt | hge
  · rw [Image.protected, Image.byte_ofFn _ hlt]
    exact if_neg ha
  · rw [x.byte_of_le a hge]
    exact (x.protected p).byte_of_le a hge

section
variable {env : Environment} {p : Str}

/-- Deobfuscation masks with the repeated key. -/
theorem deobfuscated_eq (hpassword : password env.passwordFile = some p) (hnul : 0 ∉ p)
    (src dst : Block) {k : ℕ} (hk : k < 512) :
    deobfuscated env src dst k = applyMask (repeatedKey p) 512 src k := by
  rw [deobfuscated, hpassword, applyMask_of_lt _ _ hk]
  simp only [if_pos hk]
  rw [keyMask_eq hnul (length_of_password hpassword), repeatedKey]

/-- Deobfuscating what was protected. -/
theorem deobfuscated_protected (hpassword : password env.passwordFile = some p) (hnul : 0 ∉ p)
    {x : Image} (hsize : 1024 + 512 ≤ x.size) {src : Block} (dst : Block) {k : ℕ} (hk : k < 512)
    (hsrc : src k = (x.protected p).byte (1024 + k)) :
    deobfuscated env src dst k = x.byte (1024 + k) := by
  rw [byte_protected_of_lt x p hk hsize] at hsrc
  calc deobfuscated env src dst k = applyMask (repeatedKey p) 512 src k :=
        deobfuscated_eq hpassword hnul src dst hk
    _ = applyMask (repeatedKey p) 512
          (applyMask (repeatedKey p) 512 fun k => x.byte (1024 + k)) k := applyMask_congr _ hsrc
    _ = x.byte (1024 + k) := congrFun (applyMask_involutive _ _ _) k

/-- However the directory block was located: if the image left behind is that of an accepted
volume, opening succeeds with it. -/
theorem openVolume_of_image_eq {x contents : Image} {past : Block} {d : Disk}
    (hx : Volume.Accepted ⟨Disk.ofImage x past⟩) (hsize : contents.size = x.size)
    (hloc : Located env (Disk.ofImage contents env.past) d)
    (hmem : ∀ a < x.size, d.mem a = x.byte a) :
    ∃ v o, openVolume env (.regular contents) = (.ret v, o) ∧ v.disk.image = x := by
  have hd : d.size = x.size := hloc.size_eq.trans hsize
  have himage : d.image = x := by
    rw [Disk.image, hd]
    exact Image.eq_ofFn_iff.mpr hmem
  have hv : Volume.Accepted ⟨d⟩ := by
    refine hx.of_image_eq ?_
    rw [himage]
    exact (image_ofImage x past).symm
  have hblocks : 2 < (Disk.ofImage contents env.past).numBlocks := by
    rw [← hloc.numBlocks_eq]
    exact hv.blocks
  have haligned : 512 ∣ contents.size := by
    rw [hsize, ← hd]
    exact hv.aligned
  obtain ⟨overrun, hopen⟩ := openVolume_of_located haligned hblocks hloc hv
  exact ⟨_, _, hopen, himage⟩

/-- The protected layout, through the second probe. -/
theorem openVolume_protected {x : Image} {past : Block}
    (hx : Volume.Accepted ⟨Disk.ofImage x past⟩) (hpassword : password env.passwordFile = some p)
    (hnul : 0 ∉ p) (h₁ : firstProbe (Disk.ofImage (x.protected p) env.past) = false) :
    ∃ v o, openVolume env (.regular (x.protected p)) = (.ret v, o) ∧ v.disk.image = x := by
  set d := Disk.ofImage (x.protected p) env.past with hd
  have hsize : 1024 + 512 ≤ x.size := block2_le hx.blocks
  have hplain : ∀ k < 512, scratch₁ env d k = x.byte (1024 + k) := by
    intro k hk
    have hmem : 1024 + k < x.size := by omega
    exact deobfuscated_protected hpassword hnul hsize env.scratch hk (if_pos hmem)
  refine openVolume_of_image_eq hx rfl (.second h₁ ?_) fun a ha => ?_
  · have hdir : isVolumeDirectoryBlock (scratch₁ env d)
        = isVolumeDirectoryBlock ((Disk.ofImage x past).at 1024) := by
      refine isVolumeDirectoryBlock_congr ?_ ?_ ?_ <;>
      exact (hplain _ (by decide)).trans (if_pos (by omega)).symm
    exact hdir.trans hx.directory
  · by_cases hin : 1024 ≤ a ∧ a < 1024 + 512
    · obtain ⟨k, rfl⟩ := Nat.exists_eq_add_of_le hin.1
      have hk : k < 512 := by omega
      exact (at_written d (scratch₁ env d) hk).trans (hplain k hk)
    · calc (d.written 2 (scratch₁ env d)).mem a = d.mem a := if_neg hin
        _ = (x.protected p).byte a := if_pos ha
        _ = x.byte a := byte_protected_of_not_mem x p hin

/-- An accepted volume is small enough to be converted. -/
theorem Volume.Accepted.numBlocks_lt {v : Volume} (hv : v.Accepted) : v.disk.numBlocks < 65536 := by
  rw [← hv.totalBlocks]
  exact leRead16_lt _

/-- The blocks of an image are all of it unless there are more than fit into 32 bits. -/
theorem mul_numBlocks_eq {d : Disk} (haligned : 512 ∣ d.size) (hsmall : d.size < 2 ^ 41) :
    512 * d.numBlocks = d.size := by
  rw [Disk.numBlocks]
  omega

/-- Sector 11 of a rearranged image is the first half of block 2. -/
theorem at_rearranged {x : Image} {past : Block} (hx : 2 < (Disk.ofImage x past).numBlocks)
    (htracks : 4096 ∣ x.size) {k : ℕ} (hk : k < 256) :
    (Disk.ofImage x.rearranged past).at 2816 k = x.byte (1024 + k) := by
  have ha : 1024 + k < 512 * (Disk.ofImage x past).numBlocks := by omega
  rw [← at_converting (by exact hx) (fun _ => 0) hk]
  exact mem_converting_rearranged htracks past _ ha

/-- The older layout, through the third probe. -/
theorem openVolume_rearranged {x : Image} {past : Block}
    (hx : Volume.Accepted ⟨Disk.ofImage x past⟩) (htracks : 4096 ∣ x.size)
    (hsmall : x.size < 2 ^ 41)
    (h₁ : firstProbe (Disk.ofImage x.rearranged env.past) = false)
    (h₂ : secondProbe env (Disk.ofImage x.rearranged env.past) = false) :
    ∃ v o, openVolume env (.regular x.rearranged) = (.ret v, o) ∧ v.disk.image = x := by
  have hsize : 1024 + 512 ≤ x.size := block2_le hx.blocks
  have hn : (Disk.ofImage x.rearranged env.past).numBlocks < 2 ^ 31 :=
    lt_trans hx.numBlocks_lt (by decide)
  refine openVolume_of_image_eq hx rfl (.third h₁ h₂ ?_ hn) fun a ha => ?_
  · have hdir : thirdProbe (Disk.ofImage x.rearranged env.past)
        = isVolumeDirectoryBlock ((Disk.ofImage x past).at 1024) := by
      refine isVolumeDirectoryBlock_congr ?_ ?_ ?_ <;>
      exact (at_rearranged (by exact hx.blocks) htracks (by decide)).trans
        (if_pos (by omega)).symm
    exact hdir.trans hx.directory
  · have hall : 512 * (Disk.ofImage x env.past).numBlocks = x.size :=
      mul_numBlocks_eq hx.aligned hsmall
    exact mem_converting_rearranged htracks env.past env.heap (hall ▸ ha)

/-- The older layout with protection, through the fourth probe. Sector 11 is deobfuscated to find
the directory block, and block 2, put together from it, once more. -/
theorem openVolume_rearranged_protected {x : Image} {past : Block}
    (hx : Volume.Accepted ⟨Disk.ofImage x past⟩) (htracks : 4096 ∣ x.size)
    (hsmall : x.size < 2 ^ 41) (hpassword : password env.passwordFile = some p) (hnul : 0 ∉ p)
    (h₁ : firstProbe (Disk.ofImage (x.protected p).rearranged env.past) = false)
    (h₂ : secondProbe env (Disk.ofImage (x.protected p).rearranged env.past) = false)
    (h₃ : thirdProbe (Disk.ofImage (x.protected p).rearranged env.past) = false) :
    ∃ v o, openVolume env (.regular (x.protected p).rearranged) = (.ret v, o) ∧
      v.disk.image = x := by
  set d := Disk.ofImage (x.protected p).rearranged env.past with hd
  have hsize : 1024 + 512 ≤ x.size := block2_le hx.blocks
  have hn : d.numBlocks < 2 ^ 31 := lt_trans hx.numBlocks_lt (by decide)
  have hall : 512 * (Disk.ofImage x env.past).numBlocks = x.size :=
    mul_numBlocks_eq hx.aligned hsmall
  have hconverted : ∀ a < x.size, (d.converting env.heap).mem a = (x.protected p).byte a :=
    fun a ha => mem_converting_rearranged htracks env.past env.heap
      (x := x.protected p) (hall ▸ ha)
  refine openVolume_of_image_eq hx rfl (.fourth h₁ h₂ h₃ ?_ hn) fun a ha => ?_
  · have hplain : ∀ k < 256, scratch₂ env d k = x.byte (1024 + k) := by
      intro k hk
      have hsector : d.at 2816 k = (x.protected p).byte (1024 + k) :=
        at_rearranged (x := x.protected p) (by exact hx.blocks) htracks hk
      exact deobfuscated_protected hpassword hnul hsize _ (by omega) hsector
    have hdir : isVolumeDirectoryBlock (scratch₂ env d)
        = isVolumeDirectoryBlock ((Disk.ofImage x past).at 1024) := by
      refine isVolumeDirectoryBlock_congr ?_ ?_ ?_ <;>
      exact (hplain _ (by decide)).trans (if_pos (by omega)).symm
    exact hdir.trans hx.directory
  · by_cases hin : 1024 ≤ a ∧ a < 1024 + 512
    · obtain ⟨k, rfl⟩ := Nat.exists_eq_add_of_le hin.1
      have hk : k < 512 := by omega
      exact (at_written _ _ hk).trans
        (deobfuscated_protected hpassword hnul hsize _ hk (hconverted _ (by omega)))
    · calc (d.unprotecting env).mem a = (d.converting env.heap).mem a := if_neg hin
        _ = (x.protected p).byte a := hconverted a ha
        _ = x.byte a := byte_protected_of_not_mem x p hin

/-- Converting whole tracks places every sector of the old image in the new one exactly once. -/
theorem convert_sectors {o : Opening} (heap : Block) (htracks : 4096 ∣ o.disk.size)
    (hsmall : o.disk.size < 2 ^ 40) :
    ∃ (π : Equiv.Perm (Fin (o.disk.size / 256))) (o' : Opening),
      Disk.convert heap o = (.ret (), o') ∧
      ∀ (i : Fin (o.disk.size / 256)), ∀ k < 256,
        o'.disk.mem (256 * i + k) = o.disk.mem (256 * π i + k) := by
  obtain ⟨t, ht⟩ := htracks
  have hsectors : o.disk.size / 256 = 16 * t := by omega
  have hn : o.disk.numBlocks < 2 ^ 31 := by
    rw [Disk.numBlocks]
    omega
  have hall : 512 * o.disk.numBlocks = o.disk.size := mul_numBlocks_eq (by omega) (by omega)
  have hbelow : ∀ i < o.disk.size / 256, inGroups 16 Disk.rwtsSector i < o.disk.size / 256 := by
    rw [hsectors]
    exact fun i hi => inGroups_lt (by norm_num) Disk.rwtsSector_lt hi
  refine ⟨Function.Involutive.permBelow (inGroups_involutive (by norm_num) Disk.rwtsSector_lt
    Disk.rwtsSector_rwtsSector) hbelow, _, Disk.convert_apply hn heap, fun i k hk => ?_⟩
  have hi := i.isLt
  have hin : 256 * (i : ℕ) + k < 512 * o.disk.numBlocks := by omega
  calc o.disk.convertedMem heap (256 * i + k) = o.disk.mem (Disk.rwtsSource (256 * i + k)) :=
        if_pos hin
    _ = o.disk.mem (256 * inGroups 16 Disk.rwtsSector i + k) := by
        rw [Disk.rwtsSource, onUnits_add (by norm_num) _ hk]

/-- **The four layouts of an image.** Whatever of the layouts an accepted image of whole tracks is
stored in, opening it with the password gives the image back, provided no earlier probe mistakes
the stored form for something else. Only the number of blocks that are converted has 32 bits. -/
theorem open_variants {V : Image} {p : Str} {env env₀ : Environment} {v₀ : Volume} {o₀ : Opening}
    (htracks : 4096 ∣ V.size)
    (haccepted : openVolume env₀ (.regular V) = (.ret v₀, o₀))
    (hfirst : firstProbe (Disk.ofImage V env₀.past))
    (hpassword : password env.passwordFile = some p) (hnul : 0 ∉ p) :
    (∃ v o, openVolume env (.regular V) = (.ret v, o) ∧ v.disk.image = V) ∧
    (firstProbe (Disk.ofImage (V.protected p) env.past) = false →
      ∃ v o, openVolume env (.regular (V.protected p)) = (.ret v, o) ∧ v.disk.image = V) ∧
    (V.size < 2 ^ 41 → firstProbe (Disk.ofImage V.rearranged env.past) = false →
      secondProbe env (Disk.ofImage V.rearranged env.past) = false →
      ∃ v o, openVolume env (.regular V.rearranged) = (.ret v, o) ∧ v.disk.image = V) ∧
    (V.size < 2 ^ 41 → firstProbe (Disk.ofImage (V.protected p).rearranged env.past) = false →
      secondProbe env (Disk.ofImage (V.protected p).rearranged env.past) = false →
      thirdProbe (Disk.ofImage (V.protected p).rearranged env.past) = false →
      ∃ v o, openVolume env (.regular (V.protected p).rearranged) = (.ret v, o) ∧
        v.disk.image = V) ∧
    ∀ o : Opening, V.size < 2 ^ 41 → o.disk.size = V.size →
      ∃ (π : Equiv.Perm (Fin (o.disk.size / 256))) (o' : Opening),
        Disk.convert env.heap o = (.ret (), o') ∧
        ∀ (i : Fin (o.disk.size / 256)), ∀ k < 256,
          o'.disk.mem (256 * i + k) = o.disk.mem (256 * π i + k) := by
  obtain ⟨_, hfile, -, -, hloc, hv, -⟩ := openVolume_of_ret haccepted
  cases hfile
  have hv₀ : v₀ = ⟨Disk.ofImage V env₀.past⟩ := congrArg Volume.mk (hloc.eq_of_first hfirst)
  have hV : Volume.Accepted ⟨Disk.ofImage V env₀.past⟩ := hv₀ ▸ hv
  refine ⟨?_, openVolume_protected hV hpassword hnul, openVolume_rearranged hV htracks,
    fun hsmall => openVolume_rearranged_protected hV htracks hsmall hpassword hnul,
    fun o hsmall ho => ?_⟩
  · obtain ⟨-, overrun, hopen⟩ := openVolume_first hV (image_ofImage V _) env
    exact ⟨_, _, hopen, image_ofImage V _⟩
  · have hlt : (Disk.ofImage V env₀.past).numBlocks < 65536 := hV.numBlocks_lt
    have hall : 512 * (Disk.ofImage V env₀.past).numBlocks = V.size :=
      mul_numBlocks_eq hV.aligned hsmall
    exact convert_sectors env.heap (ho ▸ htracks) (by omega)

end

/-! ### Two images -/

/-- The circumstances of a program that has a password. -/
def withPassword : Environment where
  passwordFile := .regular (ascii "SECRET\n")
  scratch := fun _ => 0
  heap := fun _ => 1
  past := fun _ => 0

/-- The circumstances of one that has none. -/
def noPassword : Environment where
  passwordFile := .unset
  scratch := fun _ => 0
  heap := fun _ => 1
  past := fun _ => 0

theorem openVolume_formatted (env : Environment) (size n : ℕ) (hsize : 512 ∣ size)
    (hn : size / 512 % 2 ^ 32 = n) (h2 : 2 < n) (hlt : n < 65536) :
    ∃ v o, openVolume env (.regular (Image.formatted size n)) = (.ret v, o) := by
  have hx := accepted_formatted env.past hsize hn h2 hlt
  obtain ⟨-, overrun, hopen⟩ := openVolume_first hx (image_ofImage _ _) env
  exact ⟨_, _, hopen⟩

/-- An image of one track, in all four layouts. -/
theorem open_variants_formatted :
    (∃ v o, openVolume withPassword (.regular (Image.formatted 4096 8)) = (.ret v, o) ∧
      v.disk.image = Image.formatted 4096 8) ∧
    (∃ v o, openVolume withPassword
        (.regular ((Image.formatted 4096 8).protected (ascii "SECRET"))) = (.ret v, o) ∧
      v.disk.image = Image.formatted 4096 8) ∧
    (∃ v o, openVolume withPassword (.regular (Image.formatted 4096 8).rearranged) = (.ret v, o) ∧
      v.disk.image = Image.formatted 4096 8) ∧
    ∃ v o, openVolume withPassword
        (.regular ((Image.formatted 4096 8).protected (ascii "SECRET")).rearranged) = (.ret v, o) ∧
      v.disk.image = Image.formatted 4096 8 := by
  obtain ⟨v₀, o₀, hopen⟩ := openVolume_formatted noPassword 4096 8 (by decide) (by decide)
    (by decide) (by decide)
  have hpassword : password withPassword.passwordFile = some (ascii "SECRET") := by decide
  obtain ⟨hplain, hprotected, hrearranged, hboth, -⟩ :=
    open_variants (by decide) hopen (by decide) hpassword (by decide)
  exact ⟨hplain, hprotected (by decide), hrearranged (by decide) (by decide) (by decide),
    hboth (by decide) (by decide) (by decide) (by decide)⟩

/-- An image of 2 TiB and one track. The number of its blocks wraps around to 8, which is what its
header claims, and only 8 blocks are converted. -/
theorem not_open_variants_huge :
    ¬ ∀ (V : Image) (p : Str) (env env₀ : Environment) (v₀ : Volume) (o₀ : Opening),
      4096 ∣ V.size → openVolume env₀ (.regular V) = (.ret v₀, o₀) →
      firstProbe (Disk.ofImage V env₀.past) → password env.passwordFile = some p → 0 ∉ p →
      firstProbe (Disk.ofImage V.rearranged env.past) = false →
      secondProbe env (Disk.ofImage V.rearranged env.past) = false →
      ∃ v o, openVolume env (.regular V.rearranged) = (.ret v, o) ∧ v.disk.image = V := by
  intro h
  obtain ⟨v₀, o₀, hopen₀⟩ := openVolume_formatted withPassword (2 ^ 41 + 4096) 8 (by decide)
    (by decide) (by decide) (by decide)
  obtain ⟨v, o, hopen, himage⟩ := h _ (ascii "SECRET") withPassword withPassword v₀ o₀ (by decide)
    hopen₀ (by decide) (by decide) (by decide) (by decide) (by decide)
  obtain ⟨_, hfile, -, -, hloc, -, -⟩ := openVolume_of_ret hopen
  cases hfile
  have hdisk : v.disk = (Disk.ofImage (Image.formatted (2 ^ 41 + 4096) 8).rearranged
      withPassword.past).converting withPassword.heap :=
    hloc.eq_of_third (by decide) (by decide) (by decide)
  have hbyte : v.disk.image.byte 4096 = 1 := by
    rw [hdisk]
    rfl
  rw [himage] at hbyte
  exact absurd hbyte (by decide)

end Prodosfs
