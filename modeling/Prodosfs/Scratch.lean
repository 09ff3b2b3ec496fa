import Prodosfs.Normalize

/-!
# The scratch block

`_GetVolumeDirectoryBlock` deobfuscates into a block on the stack that nothing has been written to,
and `S_Deobfuscate` says nothing about whether it has done anything. Without a usable password what
is tested then, and written over block 2 of the image, is what the stack held.

## Main definitions

* `ScratchFree` — what is found does not depend on the stack

## Main results

* `scratchFree_iff` — when it does not
-/

namespace Prodosfs

/-- The environment with other contents of the scratch block. -/
def Environment.withScratch (env : Environment) (scratch : Block) : Environment :=
  { env with scratch := scratch }

/-- `_GetVolumeDirectoryBlock` on a freshly mapped image, with `scratch` on the stack. -/
def locate (env : Environment) (contents : Image) (scratch : Block) :
    Outcome Exn (Option ℕ) × Opening :=
  getVolumeDirectoryBlock (env.withScratch scratch) ⟨Disk.ofImage contents env.past, false⟩

/-- What comes of looking for the volume directory block does not depend on the scratch block: what
is returned, the bytes of the image, and the two flags, which tell the probes apart. Without a
usable password, block 2 or sector 11 is such a block in what is accepted. -/
structure ScratchFree (env : Environment) (contents : Image) : Prop where
  outcome : ∀ s s', (locate env contents s).1 = (locate env contents s').1
  image : ∀ s s', (locate env contents s).2.disk.image = (locate env contents s').2.disk.image
  flags : ∀ s s', (locate env contents s).2.disk.dirty = (locate env contents s').2.disk.dirty ∧
    (locate env contents s).2.disk.converted = (locate env contents s').2.disk.converted
  accepted : password env.passwordFile = none → ∀ s v o,
    openVolume (env.withScratch s) (.regular contents) = (.ret v, o) →
      firstProbe (Disk.ofImage contents env.past) ∨ thirdProbe (Disk.ofImage contents env.past)

section
variable {env : Environment} {d : Disk} {p : Str}

/-! ### With a usable password -/

/-- The scratch block is overwritten from end to end. -/
theorem deobfuscated_of_password (hp : password env.passwordFile = some p) (src dst : Block)
    {k : ℕ} (hk : k < 512) : deobfuscated env src dst k = src k ^^^ keyMask p k := by
  rw [deobfuscated]
  simp only [hp, if_pos hk]

theorem scratch₁_withScratch (hp : password env.passwordFile = some p) (d : Disk) (s : Block)
    {k : ℕ} (hk : k < 512) : scratch₁ (env.withScratch s) d k = d.at 1024 k ^^^ keyMask p k :=
  @deobfuscated_of_password (env.withScratch s) p hp _ _ k hk

theorem scratch₂_withScratch (hp : password env.passwordFile = some p) (d : Disk) (s : Block)
    {k : ℕ} (hk : k < 512) : scratch₂ (env.withScratch s) d k = d.at 2816 k ^^^ keyMask p k :=
  @deobfuscated_of_password (env.withScratch s) p hp _ _ k hk

theorem secondProbe_withScratch (hp : password env.passwordFile = some p) (d : Disk)
    (s s' : Block) : secondProbe (env.withScratch s) d = secondProbe (env.withScratch s') d := by
  have hbyte : ∀ k < 512, scratch₁ (env.withScratch s) d k = scratch₁ (env.withScratch s') d k :=
    fun k hk => by rw [scratch₁_withScratch hp d s hk, scratch₁_withScratch hp d s' hk]
  exact isVolumeDirectoryBlock_congr (hbyte 0 (by decide)) (hbyte 1 (by decide))
    (hbyte 4 (by decide))

theorem fourthProbe_withScratch (hp : password env.passwordFile = some p) (d : Disk)
    (s s' : Block) : fourthProbe (env.withScratch s) d = fourthProbe (env.withScratch s') d := by
  have hbyte : ∀ k < 512, scratch₂ (env.withScratch s) d k = scratch₂ (env.withScratch s') d k :=
    fun k hk => by rw [scratch₂_withScratch hp d s hk, scratch₂_withScratch hp d s' hk]
  exact isVolumeDirectoryBlock_congr (hbyte 0 (by decide)) (hbyte 1 (by decide))
    (hbyte 4 (by decide))

theorem written_scratch₁ (hp : password env.passwordFile = some p) (d : Disk) (s s' : Block) :
    d.written 2 (scratch₁ (env.withScratch s) d)
      = d.written 2 (scratch₁ (env.withScratch s') d) := by
  rw [Disk.written, Disk.written, memcpy_congr fun k hk => by
    rw [scratch₁_withScratch hp d s hk, ← scratch₁_withScratch hp d s' hk]]

theorem unprotecting_withScratch (hp : password env.passwordFile = some p) (d : Disk)
    (s s' : Block) : d.unprotecting (env.withScratch s) = d.unprotecting (env.withScratch s') := by
  have hbyte : ∀ dst dst' : Block, ∀ k < 512,
      deobfuscated (env.withScratch s) ((d.converting env.heap).at 1024) dst k
        = deobfuscated (env.withScratch s') ((d.converting env.heap).at 1024) dst' k :=
    fun dst dst' k hk => by
      rw [@deobfuscated_of_password (env.withScratch s) p hp _ _ k hk,
        @deobfuscated_of_password (env.withScratch s') p hp _ _ k hk]
  rw [Disk.unprotecting, Disk.unprotecting, Disk.written, Disk.written]
  exact congrArg (fun mem => { d.converting env.heap with mem := mem, dirty := true })
    (memcpy_congr (hbyte _ _))

/-- The last probe, where the block is looked at for the fourth time. -/
theorem locate_fourth {o : Opening} (hb : 2 < o.disk.numBlocks) (hsize : 512 ∣ o.disk.size)
    (hp : password env.passwordFile = some p) (s s' : Block) (h₁ : firstProbe o.disk = false)
    (h₂ : secondProbe (env.withScratch s) o.disk = false) (h₃ : thirdProbe o.disk = false)
    (h₄ : fourthProbe (env.withScratch s) o.disk) :
    getVolumeDirectoryBlock (env.withScratch s) o
      = getVolumeDirectoryBlock (env.withScratch s') o := by
  have h₂' : secondProbe (env.withScratch s') o.disk = false :=
    secondProbe_withScratch hp o.disk s s' ▸ h₂
  have h₄' : fourthProbe (env.withScratch s') o.disk = true :=
    fourthProbe_withScratch hp o.disk s s' ▸ h₄
  rcases Nat.lt_or_ge o.disk.numBlocks (2 ^ 31) with hn | hn
  · rw [getVolumeDirectoryBlock_fourth hb hsize h₁ h₂ h₃ h₄ hn,
      getVolumeDirectoryBlock_fourth hb hsize h₁ h₂' h₃ h₄' hn,
      unprotecting_withScratch hp o.disk s s']
    rfl
  · have h₄b : isVolumeDirectoryBlock (scratch₂ (env.withScratch s) o.disk) = true := h₄
    have h₄b' : isVolumeDirectoryBlock (scratch₂ (env.withScratch s') o.disk) = true := h₄'
    rw [getVolumeDirectoryBlock_not_third hb hsize h₁ h₂ h₃,
      getVolumeDirectoryBlock_not_third hb hsize h₁ h₂' h₃, Call.ite_apply, Call.ite_apply,
      if_pos h₄b, if_pos h₄b', Call.bind_apply, Call.bind_apply, Disk.convert_of_ge (by exact hn),
      Disk.convert_of_ge (by exact hn)]
    rfl

/-- With a usable password, all the environments come to the same. -/
theorem locate_of_password (hp : password env.passwordFile = some p) {contents : Image}
    (haligned : 512 ∣ contents.size) (s s' : Block) :
    locate env contents s = locate env contents s' := by
  rw [locate, locate]
  set o : Opening := ⟨Disk.ofImage contents env.past, false⟩
  have hsize : 512 ∣ o.disk.size := haligned
  rcases Nat.lt_or_ge 2 o.disk.numBlocks with hb | hb
  swap
  · rw [getVolumeDirectoryBlock_small hb, getVolumeDirectoryBlock_small hb]
  cases h₁ : firstProbe o.disk with
  | true => rw [getVolumeDirectoryBlock_first hb h₁, getVolumeDirectoryBlock_first hb h₁]
  | false =>
    have hsecond := secondProbe_withScratch hp o.disk s s'
    cases h₂ : secondProbe (env.withScratch s) o.disk with
    | true =>
      rw [getVolumeDirectoryBlock_second hb h₁ h₂,
        getVolumeDirectoryBlock_second hb h₁ (hsecond ▸ h₂), written_scratch₁ hp o.disk s s']
    | false =>
      have h₂' : secondProbe (env.withScratch s') o.disk = false := hsecond ▸ h₂
      cases h₃ : thirdProbe o.disk with
      | true =>
        have h₃' : isVolumeDirectoryBlock (o.disk.at 2816) = true := h₃
        rw [getVolumeDirectoryBlock_not_second hb hsize h₁ h₂,
          getVolumeDirectoryBlock_not_second hb hsize h₁ h₂', Call.ite_apply, Call.ite_apply,
          if_pos h₃', if_pos h₃']
        rfl
      | false =>
        have hfourth := fourthProbe_withScratch hp o.disk s s'
        cases h₄ : fourthProbe (env.withScratch s) o.disk with
        | true => exact locate_fourth hb hsize hp s s' h₁ h₂ h₃ h₄
        | false =>
          rw [getVolumeDirectoryBlock_none hb hsize h₁ h₂ h₃ h₄,
            getVolumeDirectoryBlock_none hb hsize h₁ h₂' h₃ (hfourth ▸ h₄)]
          rfl

end

/-! ### Without one -/

/-- A block that starts like a volume directory block, and goes on with `byte`. -/
def directoryLike (byte : UInt8) : Block := fun k => if k < 4 then 0 else 0xF0 ||| byte

/-- What the stack held is accepted, and becomes block 2. -/
theorem locate_of_none {env : Environment} (hp : password env.passwordFile = none)
    {contents : Image} (hb : 2 < (Disk.ofImage contents env.past).numBlocks)
    (h₁ : firstProbe (Disk.ofImage contents env.past) = false) {scratch : Block}
    (hscratch : isVolumeDirectoryBlock scratch) :
    locate env contents scratch = (.ret (some 1024),
      ⟨(Disk.ofImage contents env.past).written 2 scratch, false⟩) := by
  have hkept : scratch₁ (env.withScratch scratch) (Disk.ofImage contents env.past) = scratch := by
    rw [scratch₁, deobfuscated, Environment.withScratch]
    simp only [hp]
  have h₂ : secondProbe (env.withScratch scratch) (Disk.ofImage contents env.past) = true := by
    rw [secondProbe, hkept]
    exact hscratch
  have hlocate := getVolumeDirectoryBlock_second (o := ⟨Disk.ofImage contents env.past, false⟩)
    hb h₁ h₂
  rwa [hkept] at hlocate

/-- **When the scratch block does not matter:** the image has no block 2, or block 2 is a volume
directory block as it is, or there is a usable password. -/
theorem scratchFree_iff (env : Environment) {contents : Image} (haligned : 512 ∣ contents.size) :
    ScratchFree env contents ↔
      (Disk.ofImage contents env.past).numBlocks ≤ 2 ∨
        firstProbe (Disk.ofImage contents env.past) ∨ (password env.passwordFile).isSome := by
  constructor
  · intro hfree
    by_contra! hnot
    obtain ⟨hb, h₁, hp⟩ := hnot
    have h₁ : firstProbe (Disk.ofImage contents env.past) = false := by simpa using h₁
    have hp : password env.passwordFile = none := by simpa using hp
    have hle := block2_le hb
    have himage := hfree.image (directoryLike 0) (directoryLike 1)
    rw [locate_of_none hp hb h₁ (by decide), locate_of_none hp hb h₁ (by decide)] at himage
    have hbyte := mem_eq_of_image_eq himage (show 1028 < contents.size from by
      have hsize : (Disk.ofImage contents env.past).size = contents.size := rfl
      omega)
    have hread : ∀ byte, ((Disk.ofImage contents env.past).written 2 (directoryLike byte)).mem 1028
        = 0xF0 ||| byte := fun byte =>
      (at_written (Disk.ofImage contents env.past) (directoryLike byte)
        (show 4 < 512 by decide)).trans rfl
    exact absurd ((hread 0).symm.trans (hbyte.trans (hread 1))) (by decide)
  · intro h
    have hall : (∀ s s', locate env contents s = locate env contents s') →
        (password env.passwordFile = none → ∀ s v o,
          openVolume (env.withScratch s) (.regular contents) = (.ret v, o) →
            firstProbe (Disk.ofImage contents env.past) ∨
              thirdProbe (Disk.ofImage contents env.past)) → ScratchFree env contents :=
      fun hsame haccepted => {
        outcome := fun s s' => by rw [hsame s s']
        image := fun s s' => by rw [hsame s s']
        flags := fun s s' => by rw [hsame s s']; exact ⟨rfl, rfl⟩
        accepted := haccepted }
    have hsmall : (Disk.ofImage contents env.past).numBlocks ≤ 2 →
        ∀ s s', locate env contents s = locate env contents s' := fun hb s s' =>
      (getVolumeDirectoryBlock_small (o := ⟨Disk.ofImage contents env.past, false⟩) hb).trans
        (getVolumeDirectoryBlock_small (o := ⟨Disk.ofImage contents env.past, false⟩) hb).symm
    rcases h with hb | h₁ | hp
    · refine hall (hsmall hb) fun _ s v o hopen => ?_
      obtain ⟨_, hfile, -, hblocks, -⟩ := openVolume_of_ret hopen
      cases hfile
      exact absurd hblocks (Nat.not_lt.mpr hb)
    · refine hall ?_ fun _ _ _ _ _ => Or.inl h₁
      rcases Nat.lt_or_ge 2 (Disk.ofImage contents env.past).numBlocks with hb | hb
      · exact fun s s' =>
          (getVolumeDirectoryBlock_first (o := ⟨Disk.ofImage contents env.past, false⟩) hb h₁).trans
            (getVolumeDirectoryBlock_first (o := ⟨Disk.ofImage contents env.past, false⟩) hb
              h₁).symm
      · exact hsmall hb
    · obtain ⟨p, hp⟩ := Option.isSome_iff_exists.mp hp
      refine hall (fun s s' => locate_of_password hp haligned s s') fun hnone => ?_
      rw [hp] at hnone
      cases hnone

/-- A formatted image is found without a password, and one of zeros is not. -/
theorem scratchFree_iff_formatted : ScratchFree noPassword (Image.formatted 4096 8) ∧
    ¬ ScratchFree noPassword (Image.sparse 4096 []) := by
  constructor
  · exact (scratchFree_iff noPassword (by decide)).mpr (Or.inr (Or.inl (by decide)))
  · intro hfree
    rcases (scratchFree_iff noPassword (by decide)).mp hfree with hb | h₁ | hp
    · exact absurd hb (by decide)
    · exact absurd h₁ (by decide)
    · exact absurd hp (by decide)

/-- In eight blocks of zeros, a directory block is found if the stack looks like one. -/
theorem not_scratchFree_zeros :
    ¬ ∀ (env : Environment) (contents : Image), 512 ∣ contents.size → ScratchFree env contents := by
  intro hclaim
  have houtcome := (hclaim noPassword (Image.sparse 4096 []) (by decide)).outcome
    (fun _ => 0) (directoryLike 0)
  have hzeros : (locate noPassword (Image.sparse 4096 []) fun _ => 0).1 = .ret none := by decide
  have hlike : (locate noPassword (Image.sparse 4096 []) (directoryLike 0)).1
      = .ret (some 1024) := by decide
  rw [hzeros, hlike] at houtcome
  cases houtcome

end Prodosfs
