import Prodosfs.Opening

/-!
# What each probe does

`getVolumeDirectoryBlock` in closed form. The four probes are four predicates on the mapped disk
and the environment; given which of them holds first, the outcome, the disk that is left and the
overrun flag are each one expression, and the theorems below say which.

Everything later about opening a volume goes through these, and none of it unfolds the source
function again.

## Main definitions

* `firstProbe`, `secondProbe`, `thirdProbe`, `fourthProbe`
* `Located` — the volume directory block has been found, and this is the disk it was left in
* `Volume.Accepted` — the header checks of the constructor

## Main results

* `getVolumeDirectoryBlock_first`, `_second`, `_third`, `_fourth`, `_none`
* `openVolume_of_ret`, `openVolume_of_located` — a volume is opened exactly when its directory
  block is located and its header accepted
* `Located.isVolumeDirectoryBlock` — whichever probe it was, block 2 is a directory block now
-/

namespace Prodosfs

/-- What a pointer to address `a` of the disk leads to. -/
def Disk.at (d : Disk) (a : ℕ) : Block := fun k => d.mem (a + k)

/-- The disk after `Convert`. -/
def Disk.converting (d : Disk) (heap : Block) : Disk :=
  { d with mem := d.convertedMem heap, converted := true }

/-- What `S_Deobfuscate` leaves in its destination. -/
def deobfuscated (env : Environment) (src dst : Block) : Block :=
  match password env.passwordFile with
  | none => dst
  | some p => fun i => if i < 512 then src i ^^^ keyMask p i else dst i

/-- The scratch block after block 2 has been deobfuscated into it. -/
def scratch₁ (env : Environment) (d : Disk) : Block := deobfuscated env (d.at 1024) env.scratch

/-- The scratch block after sector 11 has been deobfuscated into it. -/
def scratch₂ (env : Environment) (d : Disk) : Block := deobfuscated env (d.at 2816) (scratch₁ env d)

/-- Block 2 is a volume directory block. -/
def firstProbe (d : Disk) : Bool := isVolumeDirectoryBlock (d.at 1024)

/-- Block 2 is a volume directory block after deobfuscation. -/
def secondProbe (env : Environment) (d : Disk) : Bool := isVolumeDirectoryBlock (scratch₁ env d)

/-- Sector 11 of track 0 is a volume directory block. -/
def thirdProbe (d : Disk) : Bool := isVolumeDirectoryBlock (d.at 2816)

/-- Sector 11 of track 0 is a volume directory block after deobfuscation. -/
def fourthProbe (env : Environment) (d : Disk) : Bool := isVolumeDirectoryBlock (scratch₂ env d)

/-! ### Reading the image -/

theorem touch_apply (a n : ℕ) (o : Opening) :
    touch a n o = (.ret (), { o with overrun := o.overrun || decide (o.disk.size < a + n) }) := rfl

/-- A read inside the image leaves no trace. -/
theorem touch_of_le {a n : ℕ} {o : Opening} (h : a + n ≤ o.disk.size) :
    touch a n o = (.ret (), o) := by
  rw [touch_apply, decide_eq_false (Nat.not_lt.mpr h), Bool.or_false]

theorem isVolumeDirectoryBlock_of_ne {block : Block} (h : leRead16 block ≠ 0) :
    isVolumeDirectoryBlock block = false := by
  rw [isVolumeDirectoryBlock, beq_false_of_ne h, Bool.false_and]

/-- A probe looks at five bytes at most. -/
theorem probe_of_le {a : ℕ} {o : Opening} (h : a + 5 ≤ o.disk.size) :
    probe a o = (.ret (isVolumeDirectoryBlock (o.disk.at a)), o) := by
  rw [probe, Call.get_bind_apply, Call.bind_of_ret (touch_of_le (by omega)), Call.ite_apply]
  by_cases h0 : leRead16 (fun k => o.disk.mem (a + k)) = 0
  · rw [if_neg (not_not.mpr h0), Call.bind_of_ret (touch_of_le (by omega))]
    rfl
  · rw [if_pos h0, Call.pure_apply]
    have hnot : isVolumeDirectoryBlock (o.disk.at a) = false := isVolumeDirectoryBlock_of_ne h0
    rw [hnot]

/-- A probe past the end of the image still has an answer, but it was an overrun. -/
theorem probe_of_lt {a : ℕ} {o : Opening} (h : o.disk.size < a + 2) :
    probe a o = (.ret (isVolumeDirectoryBlock (o.disk.at a)), { o with overrun := true }) := by
  rw [probe, Call.get_bind_apply, Call.bind_of_ret (touch_apply _ _ _), Call.ite_apply,
    decide_eq_true h, Bool.or_true]
  by_cases h0 : leRead16 (fun k => o.disk.mem (a + k)) = 0
  · rw [if_neg (not_not.mpr h0), Call.bind_of_ret (touch_apply _ _ _)]
    rfl
  · rw [if_pos h0, Call.pure_apply]
    have hnot : isVolumeDirectoryBlock (o.disk.at a) = false := isVolumeDirectoryBlock_of_ne h0
    rw [hnot]

theorem deobfuscate_apply (env : Environment) (a : ℕ) (dst : Block) (o : Opening) :
    deobfuscate env a dst o
      = (.ret (deobfuscated env (o.disk.at a) dst),
          { o with overrun := o.overrun
              || (password env.passwordFile).isSome && decide (o.disk.size < a + 512) }) := by
  rw [deobfuscate, deobfuscated]
  cases password env.passwordFile with
  | none => simp
  | some p =>
    simp only [Call.get_bind_apply, Call.bind_of_ret (touch_apply _ _ _), Call.pure_apply,
      deobfuscateLoop_eq]
    refine Prod.ext (congrArg Outcome.ret (funext fun i => ?_)) (by simp)
    simp only [Nat.zero_le, true_and, Nat.zero_add, Nat.sub_zero]
    rfl

theorem deobfuscate_of_le {env : Environment} {a : ℕ} {dst : Block} {o : Opening}
    (h : a + 512 ≤ o.disk.size) :
    deobfuscate env a dst o = (.ret (deobfuscated env (o.disk.at a) dst), o) := by
  rw [deobfuscate_apply, decide_eq_false (Nat.not_lt.mpr h), Bool.and_false, Bool.or_false]

theorem readBlock2_of_lt {o : Opening} (h : 2 < o.disk.numBlocks) :
    readBlock 2 o = (.ret 1024, o) := by
  rw [readBlock, Call.get_bind_apply]
  exact Disk.readBlock_of_lt h o

theorem writeBlock2_of_lt {o : Opening} {block : Block} (h : 2 < o.disk.numBlocks) :
    writeBlock 2 block o = (.ret (), { o with disk := o.disk.written 2 block }) := by
  have hw : o.disk.writeBlock 2 block o = (.ret (o.disk.written 2 block), o) :=
    Disk.writeBlock_of_lt h block o
  rw [writeBlock, Call.get_bind_apply, Call.bind_of_ret hw]
  rfl

/-- Every probe that succeeds ends like this. -/
theorem readRoot_of_lt (o : Opening) (h : 2 < o.disk.numBlocks) :
    (do let root ← readBlock 2; pure (some root) : Call Exn Opening (Option ℕ)) o
      = (.ret (some 1024), o) := by
  rw [Call.bind_of_ret (readBlock2_of_lt h)]
  rfl

/-- Block 2 lies inside an image of more than two blocks. -/
theorem block2_le {d : Disk} (h : 2 < d.numBlocks) : 1024 + 512 ≤ d.size := by
  have := d.mul_numBlocks_le
  omega

/-! ### The probes, one by one -/

section
variable {env : Environment} {o : Opening}

theorem getVolumeDirectoryBlock_small (h : o.disk.numBlocks ≤ 2) :
    getVolumeDirectoryBlock env o = (.throw (.runtimeError "invalid block number"), o) := by
  rw [getVolumeDirectoryBlock]
  refine Call.bind_of_throw ?_
  rw [readBlock, Call.get_bind_apply]
  exact Disk.readBlock_of_ge h o

theorem getVolumeDirectoryBlock_first (h : 2 < o.disk.numBlocks) (h₁ : firstProbe o.disk) :
    getVolumeDirectoryBlock env o = (.ret (some 1024), o) := by
  have hle := block2_le h
  have h₁ : isVolumeDirectoryBlock (o.disk.at 1024) = true := h₁
  rw [getVolumeDirectoryBlock, Call.bind_of_ret (readBlock2_of_lt h),
    Call.bind_of_ret (probe_of_le (by omega)), Call.ite_apply, if_pos h₁]
  rfl

/-- The part every probe but the first has in common. -/
theorem getVolumeDirectoryBlock_not_first (h : 2 < o.disk.numBlocks)
    (h₁ : firstProbe o.disk = false) :
    getVolumeDirectoryBlock env o =
      (if isVolumeDirectoryBlock (scratch₁ env o.disk) then do
        writeBlock 2 (scratch₁ env o.disk)
        let root ← readBlock 2
        pure (some root)
      else do
        let block ← Disk.readTrackSector 0 11
        let found ← probe block
        if found then
          Disk.convert env.heap
          let root ← readBlock 2
          pure (some root)
        else
          let tmpBlk ← deobfuscate env block (scratch₁ env o.disk)
          if isVolumeDirectoryBlock tmpBlk then
            Disk.convert env.heap
            let block ← readBlock 2
            let tmpBlk ← deobfuscate env block tmpBlk
            writeBlock 2 tmpBlk
            let root ← readBlock 2
            pure (some root)
          else pure none : Call Exn Opening (Option ℕ)) o := by
  have hle := block2_le h
  have hnot : ¬ isVolumeDirectoryBlock (o.disk.at 1024) = true := by
    rw [← firstProbe, h₁]
    exact Bool.false_ne_true
  rw [getVolumeDirectoryBlock, Call.bind_of_ret (readBlock2_of_lt h),
    Call.bind_of_ret (probe_of_le (by omega)), Call.ite_apply, if_neg hnot,
    Call.bind_of_ret (deobfuscate_of_le hle)]
  rfl

theorem getVolumeDirectoryBlock_second (h : 2 < o.disk.numBlocks)
    (h₁ : firstProbe o.disk = false) (h₂ : secondProbe env o.disk) :
    getVolumeDirectoryBlock env o
      = (.ret (some 1024), { o with disk := o.disk.written 2 (scratch₁ env o.disk) }) := by
  have h₂ : isVolumeDirectoryBlock (scratch₁ env o.disk) = true := h₂
  rw [getVolumeDirectoryBlock_not_first h h₁, Call.ite_apply, if_pos h₂,
    Call.bind_of_ret (writeBlock2_of_lt h)]
  exact readRoot_of_lt _ h

/-- The part the third and the fourth probe have in common. Looking at sector 11 is an overrun in
an image of fewer than six blocks. -/
theorem getVolumeDirectoryBlock_not_second (h : 2 < o.disk.numBlocks) (hsize : 512 ∣ o.disk.size)
    (h₁ : firstProbe o.disk = false) (h₂ : secondProbe env o.disk = false) :
    getVolumeDirectoryBlock env o =
      (if isVolumeDirectoryBlock (o.disk.at 2816) then do
        Disk.convert env.heap
        let root ← readBlock 2
        pure (some root)
      else do
        let tmpBlk ← deobfuscate env 2816 (scratch₁ env o.disk)
        if isVolumeDirectoryBlock tmpBlk then
          Disk.convert env.heap
          let block ← readBlock 2
          let tmpBlk ← deobfuscate env block tmpBlk
          writeBlock 2 tmpBlk
          let root ← readBlock 2
          pure (some root)
        else pure none : Call Exn Opening (Option ℕ))
      { o with overrun := o.overrun || decide (o.disk.size < 3072) } := by
  have hnot : ¬ isVolumeDirectoryBlock (scratch₁ env o.disk) = true := by
    rw [← secondProbe, h₂]
    exact Bool.false_ne_true
  have hsector : (Disk.readTrackSector 0 11 : Call Exn Opening ℕ) o = (.ret 2816, o) := rfl
  rw [getVolumeDirectoryBlock_not_first h h₁, Call.ite_apply, if_neg hnot,
    Call.bind_of_ret hsector]
  rcases Nat.lt_or_ge o.disk.size 3072 with hlt | hge
  · rw [Call.bind_of_ret (probe_of_lt (by omega)), decide_eq_true hlt, Bool.or_true]
  · rw [Call.bind_of_ret (probe_of_le (by omega)), decide_eq_false (Nat.not_lt.mpr hge),
      Bool.or_false]

theorem getVolumeDirectoryBlock_third (h : 2 < o.disk.numBlocks) (hsize : 512 ∣ o.disk.size)
    (h₁ : firstProbe o.disk = false) (h₂ : secondProbe env o.disk = false)
    (h₃ : thirdProbe o.disk) (hn : o.disk.numBlocks < 2 ^ 31) :
    getVolumeDirectoryBlock env o
      = (.ret (some 1024),
          { disk := o.disk.converting env.heap
            overrun := o.overrun || decide (o.disk.size < 3072)
              || decide (¬ Disk.SectorsInside o.disk.size o.disk.numBlocks) }) := by
  have h₃ : isVolumeDirectoryBlock (o.disk.at 2816) = true := h₃
  rw [getVolumeDirectoryBlock_not_second h hsize h₁ h₂, Call.ite_apply, if_pos h₃,
    Call.bind_of_ret (Disk.convert_apply (by exact hn) env.heap)]
  exact readRoot_of_lt _ h

/-- The loop counter of the conversion overflows. -/
theorem getVolumeDirectoryBlock_third_overflow (hsize : 512 ∣ o.disk.size)
    (h₁ : firstProbe o.disk = false) (h₂ : secondProbe env o.disk = false)
    (h₃ : thirdProbe o.disk) (hn : 2 ^ 31 ≤ o.disk.numBlocks) :
    (getVolumeDirectoryBlock env o).1 = .fault := by
  have h₃ : isVolumeDirectoryBlock (o.disk.at 2816) = true := h₃
  rw [getVolumeDirectoryBlock_not_second (by omega) hsize h₁ h₂, Call.ite_apply, if_pos h₃,
    Call.bind_apply, Disk.convert_of_ge (by exact hn)]

/-- The part that is left when the first three probes fail. Deobfuscating sector 11 reads into
sector 12, which is an overrun in an image of fewer than seven blocks. -/
theorem getVolumeDirectoryBlock_not_third (h : 2 < o.disk.numBlocks) (hsize : 512 ∣ o.disk.size)
    (h₁ : firstProbe o.disk = false) (h₂ : secondProbe env o.disk = false)
    (h₃ : thirdProbe o.disk = false) :
    getVolumeDirectoryBlock env o =
      (if isVolumeDirectoryBlock (scratch₂ env o.disk) then do
        Disk.convert env.heap
        let block ← readBlock 2
        let tmpBlk ← deobfuscate env block (scratch₂ env o.disk)
        writeBlock 2 tmpBlk
        let root ← readBlock 2
        pure (some root)
      else pure none : Call Exn Opening (Option ℕ))
      { o with overrun := o.overrun || decide (o.disk.size < 3072)
          || (password env.passwordFile).isSome && decide (o.disk.size < 3328) } := by
  have hnot : ¬ isVolumeDirectoryBlock (o.disk.at 2816) = true := by
    rw [← thirdProbe, h₃]
    exact Bool.false_ne_true
  rw [getVolumeDirectoryBlock_not_second h hsize h₁ h₂, Call.ite_apply, if_neg hnot,
    Call.bind_of_ret (deobfuscate_apply env 2816 _ _)]
  rfl

theorem getVolumeDirectoryBlock_none (h : 2 < o.disk.numBlocks) (hsize : 512 ∣ o.disk.size)
    (h₁ : firstProbe o.disk = false) (h₂ : secondProbe env o.disk = false)
    (h₃ : thirdProbe o.disk = false) (h₄ : fourthProbe env o.disk = false) :
    getVolumeDirectoryBlock env o
      = (.ret none,
          { o with overrun := o.overrun || decide (o.disk.size < 3072)
              || (password env.passwordFile).isSome && decide (o.disk.size < 3328) }) := by
  have hnot : ¬ isVolumeDirectoryBlock (scratch₂ env o.disk) = true := by
    rw [← fourthProbe, h₄]
    exact Bool.false_ne_true
  rw [getVolumeDirectoryBlock_not_third h hsize h₁ h₂ h₃, Call.ite_apply, if_neg hnot]
  rfl

/-- The disk the fourth probe leaves: converted, then deobfuscated. -/
def Disk.unprotecting (d : Disk) (env : Environment) : Disk :=
  (d.converting env.heap).written 2
    (deobfuscated env ((d.converting env.heap).at 1024) (scratch₂ env d))

theorem getVolumeDirectoryBlock_fourth (h : 2 < o.disk.numBlocks) (hsize : 512 ∣ o.disk.size)
    (h₁ : firstProbe o.disk = false) (h₂ : secondProbe env o.disk = false)
    (h₃ : thirdProbe o.disk = false) (h₄ : fourthProbe env o.disk)
    (hn : o.disk.numBlocks < 2 ^ 31) :
    getVolumeDirectoryBlock env o
      = (.ret (some 1024),
          { disk := o.disk.unprotecting env
            overrun := o.overrun || decide (o.disk.size < 3072)
              || (password env.passwordFile).isSome && decide (o.disk.size < 3328)
              || decide (¬ Disk.SectorsInside o.disk.size o.disk.numBlocks) }) := by
  have h₄ : isVolumeDirectoryBlock (scratch₂ env o.disk) = true := h₄
  rw [getVolumeDirectoryBlock_not_third h hsize h₁ h₂ h₃, Call.ite_apply, if_pos h₄,
    Call.bind_of_ret (Disk.convert_apply (by exact hn) env.heap),
    Call.bind_of_ret (readBlock2_of_lt (by exact h)),
    Call.bind_of_ret (deobfuscate_of_le (by exact block2_le h)),
    Call.bind_of_ret (writeBlock2_of_lt (by exact h))]
  exact readRoot_of_lt _ h

theorem getVolumeDirectoryBlock_fourth_overflow (hsize : 512 ∣ o.disk.size)
    (h₁ : firstProbe o.disk = false) (h₂ : secondProbe env o.disk = false)
    (h₃ : thirdProbe o.disk = false) (h₄ : fourthProbe env o.disk)
    (hn : 2 ^ 31 ≤ o.disk.numBlocks) :
    (getVolumeDirectoryBlock env o).1 = .fault := by
  have h₄ : isVolumeDirectoryBlock (scratch₂ env o.disk) = true := h₄
  rw [getVolumeDirectoryBlock_not_third (by omega) hsize h₁ h₂ h₃, Call.ite_apply, if_pos h₄,
    Call.bind_apply, Disk.convert_of_ge (by exact hn)]

end

/-! ### Opened volumes -/

/-- The volume directory block has been located, and `d'` is the disk it was left in. -/
inductive Located (env : Environment) (d : Disk) : Disk → Prop
  | first (h₁ : firstProbe d) : Located env d d
  | second (h₁ : firstProbe d = false) (h₂ : secondProbe env d) :
      Located env d (d.written 2 (scratch₁ env d))
  | third (h₁ : firstProbe d = false) (h₂ : secondProbe env d = false) (h₃ : thirdProbe d)
      (hn : d.numBlocks < 2 ^ 31) : Located env d (d.converting env.heap)
  | fourth (h₁ : firstProbe d = false) (h₂ : secondProbe env d = false)
      (h₃ : thirdProbe d = false) (h₄ : fourthProbe env d) (hn : d.numBlocks < 2 ^ 31) :
      Located env d (d.unprotecting env)

/-- What the constructor has checked about the volume it returns. -/
structure Volume.Accepted (v : Volume) : Prop where
  /-- The size is a whole number of blocks. -/
  aligned : 512 ∣ v.disk.size
  /-- Block 2 exists. -/
  blocks : 2 < v.disk.numBlocks
  /-- Block 2 is a volume directory block. -/
  directory : isVolumeDirectoryBlock (v.disk.at 1024)
  minVersion : v.minVersion = 0
  entriesPerBlock : v.entriesPerBlock = 13
  entryLength : v.entryLength = 39
  totalBlocks : v.totalBlocks = v.disk.numBlocks

instance (v : Volume) : Decidable v.Accepted :=
  decidable_of_iff (512 ∣ v.disk.size ∧ 2 < v.disk.numBlocks ∧
      isVolumeDirectoryBlock (v.disk.at 1024) ∧ v.minVersion = 0 ∧ v.entriesPerBlock = 13 ∧
      v.entryLength = 39 ∧ v.totalBlocks = v.disk.numBlocks)
    ⟨fun ⟨haligned, hblocks, hdirectory, hversion, hentries, hlength, htotal⟩ =>
      ⟨haligned, hblocks, hdirectory, hversion, hentries, hlength, htotal⟩,
      fun h => ⟨h.aligned, h.blocks, h.directory, h.minVersion, h.entriesPerBlock, h.entryLength,
        h.totalBlocks⟩⟩

theorem isVolumeDirectoryBlock_iff {block : Block} :
    isVolumeDirectoryBlock block ↔ leRead16 block = 0 ∧ block 4 >>> 4 = storageTypeVolumeBlock := by
  rw [isVolumeDirectoryBlock, Bool.and_eq_true, beq_iff_eq, beq_iff_eq]

/-- Being a directory block is a matter of three bytes. -/
theorem isVolumeDirectoryBlock_congr {x y : Block} (h0 : x 0 = y 0) (h1 : x 1 = y 1)
    (h4 : x 4 = y 4) : isVolumeDirectoryBlock x = isVolumeDirectoryBlock y := by
  rw [isVolumeDirectoryBlock, isVolumeDirectoryBlock, leRead16_congr h0 h1, h4]

theorem Volume.checkHeader_eq_ret_iff {v : Volume} {s t : Opening} :
    v.checkHeader s = (.ret (), t) ↔
      (v.headerStorageType = storageTypeVolumeBlock ∧ v.minVersion = 0 ∧ v.entriesPerBlock = 13 ∧
        v.entryLength = 39 ∧ v.totalBlocks = v.disk.numBlocks) ∧ t = s := by
  by_cases h₁ : v.headerStorageType = storageTypeVolumeBlock <;>
  by_cases h₂ : v.minVersion = 0 <;>
  by_cases h₃ : v.entriesPerBlock = 13 <;>
  by_cases h₄ : v.entryLength = 39 <;>
  by_cases h₅ : v.totalBlocks = v.disk.numBlocks <;>
  simp [Volume.checkHeader, h₁, h₂, h₃, h₄, h₅, eq_comm]

/-- No probe changes the number of bytes. -/
theorem Located.size_eq {env : Environment} {d d' : Disk} (h : Located env d d') :
    d'.size = d.size := by
  cases h <;> rfl

/-- The first probe leaves the disk alone. -/
theorem Located.eq_of_first {env : Environment} {d d' : Disk} (h : Located env d d')
    (h₁ : firstProbe d) : d' = d := by
  cases h with
  | first _ => rfl
  | _ => simp_all

/-- The third probe leaves a converted disk. -/
theorem Located.eq_of_third {env : Environment} {d d' : Disk} (h : Located env d d')
    (h₁ : firstProbe d = false) (h₂ : secondProbe env d = false) (h₃ : thirdProbe d) :
    d' = d.converting env.heap := by
  cases h with
  | third _ _ _ _ => rfl
  | _ => simp_all

theorem Located.numBlocks_eq {env : Environment} {d d' : Disk} (h : Located env d d') :
    d'.numBlocks = d.numBlocks := by
  rw [Disk.numBlocks, Disk.numBlocks, h.size_eq]

/-- Block 2 after it has been written. -/
theorem at_written (d : Disk) (b : Block) {k : ℕ} (hk : k < 512) :
    (d.written 2 b).at 1024 k = b k := by
  have hlt : 1024 + k < 1024 + 512 := by omega
  calc (d.written 2 b).at 1024 k = memcpy d.mem 1024 b 512 (1024 + k) := rfl
    _ = b (1024 + k - 1024) := memcpy_of_mem (Nat.le_add_right 1024 k) hlt
    _ = b k := by rw [Nat.add_sub_cancel_left]

/-- The first half of block 2 is sector 11 of track 0. -/
theorem at_converting {d : Disk} (h : 2 < d.numBlocks) (heap : Block) {k : ℕ} (hk : k < 256) :
    (d.converting heap).at 1024 k = d.at 2816 k := by
  have hlt : 1024 + k < 512 * d.numBlocks := by omega
  have hsrc : Disk.rwtsSource (512 * 2 + k) = 2816 + k := Disk.rwtsSource_first 2 hk
  rw [Disk.at, Disk.converting, Disk.at, ← hsrc]
  exact if_pos hlt

/-- Deobfuscation is a matter of single bytes. -/
theorem deobfuscated_congr (env : Environment) {x y u w : Block} {k : ℕ} (hx : x k = y k)
    (hu : u k = w k) : deobfuscated env x u k = deobfuscated env y w k := by
  rw [deobfuscated, deobfuscated]
  cases password env.passwordFile with
  | none => exact hu
  | some p => simp only [hx, hu]

/-- Deobfuscating the same bytes again, over what the first time left, changes nothing. -/
theorem deobfuscated_deobfuscated (env : Environment) (x y : Block) (k : ℕ) :
    deobfuscated env x (deobfuscated env x y) k = deobfuscated env x y k := by
  rw [deobfuscated, deobfuscated]
  cases password env.passwordFile with
  | none => rfl
  | some p => by_cases hk : k < 512 <;> simp [hk]

/-- **Whichever probe it was, block 2 is a volume directory block afterwards.** The probes check
different buffers; the case of interest is the last one, where the check was made on deobfuscated
sector 11 and block 2 has been put together and deobfuscated since. -/
theorem Located.isVolumeDirectoryBlock {env : Environment} {d d' : Disk} (h : Located env d d')
    (hblocks : 2 < d.numBlocks) : isVolumeDirectoryBlock (d'.at 1024) := by
  cases h with
  | first h₁ => exact h₁
  | second _ h₂ =>
    rw [isVolumeDirectoryBlock_congr (at_written _ _ (by decide))
      (at_written _ _ (by decide)) (at_written _ _ (by decide))]
    exact h₂
  | third _ _ h₃ _ =>
    rw [isVolumeDirectoryBlock_congr (at_converting hblocks _ (by decide))
      (at_converting hblocks _ (by decide)) (at_converting hblocks _ (by decide))]
    exact h₃
  | fourth _ _ _ h₄ _ =>
    have hbyte : ∀ k < 256, (d.unprotecting env).at 1024 k = scratch₂ env d k := by
      intro k hk
      rw [Disk.unprotecting, at_written _ _ (by omega),
        deobfuscated_congr env (at_converting hblocks env.heap hk) rfl, scratch₂,
        deobfuscated_deobfuscated]
    rw [isVolumeDirectoryBlock_congr (hbyte 0 (by decide)) (hbyte 1 (by decide))
      (hbyte 4 (by decide))]
    exact h₄

/-- The disk a located directory block leaves behind, reached by the source function. -/
theorem getVolumeDirectoryBlock_eq_ret {env : Environment} {o o' : Opening} {a : ℕ}
    (hsize : 512 ∣ o.disk.size)
    (h : getVolumeDirectoryBlock env o = (.ret (some a), o')) :
    2 < o.disk.numBlocks ∧ Located env o.disk o'.disk := by
  rcases Nat.lt_or_ge 2 o.disk.numBlocks with hb | hb
  · refine ⟨hb, ?_⟩
    cases h₁ : firstProbe o.disk with
    | true =>
      rw [getVolumeDirectoryBlock_first hb h₁] at h
      cases h
      exact .first h₁
    | false =>
      cases h₂ : secondProbe env o.disk with
      | true =>
        rw [getVolumeDirectoryBlock_second hb h₁ h₂] at h
        cases h
        exact .second h₁ h₂
      | false =>
        cases h₃ : thirdProbe o.disk with
        | true =>
          rcases Nat.lt_or_ge o.disk.numBlocks (2 ^ 31) with hn | hn
          · rw [getVolumeDirectoryBlock_third hb hsize h₁ h₂ h₃ hn] at h
            cases h
            exact .third h₁ h₂ h₃ hn
          · have hf := getVolumeDirectoryBlock_third_overflow hsize h₁ h₂ h₃ hn
            rw [h] at hf
            cases hf
        | false =>
          cases h₄ : fourthProbe env o.disk with
          | true =>
            rcases Nat.lt_or_ge o.disk.numBlocks (2 ^ 31) with hn | hn
            · rw [getVolumeDirectoryBlock_fourth hb hsize h₁ h₂ h₃ h₄ hn] at h
              cases h
              exact .fourth h₁ h₂ h₃ h₄ hn
            · have hf := getVolumeDirectoryBlock_fourth_overflow hsize h₁ h₂ h₃ h₄ hn
              rw [h] at hf
              cases hf
          | false =>
            rw [getVolumeDirectoryBlock_none hb hsize h₁ h₂ h₃ h₄] at h
            cases h
  · rw [getVolumeDirectoryBlock_small hb] at h
    cases h

theorem getVolumeDirectoryBlock_of_located {env : Environment} (o : Opening) {d : Disk}
    (hblocks : 2 < o.disk.numBlocks) (hsize : 512 ∣ o.disk.size) (h : Located env o.disk d) :
    ∃ overrun, getVolumeDirectoryBlock env o = (.ret (some 1024), ⟨d, overrun⟩) := by
  cases h with
  | first h₁ => exact ⟨_, getVolumeDirectoryBlock_first hblocks h₁⟩
  | second h₁ h₂ => exact ⟨_, getVolumeDirectoryBlock_second hblocks h₁ h₂⟩
  | third h₁ h₂ h₃ hn => exact ⟨_, getVolumeDirectoryBlock_third hblocks hsize h₁ h₂ h₃ hn⟩
  | fourth h₁ h₂ h₃ h₄ hn =>
    exact ⟨_, getVolumeDirectoryBlock_fourth hblocks hsize h₁ h₂ h₃ h₄ hn⟩

/-- Mapping a file that is a whole number of blocks. -/
theorem Disk.create_regular {contents : Image} (h : 512 ∣ contents.size) (past : Block)
    (o : Opening) :
    Disk.create (.regular contents) past o = (.ret (Disk.ofImage contents past), o) := by
  rw [Disk.create, if_neg (by omega)]
  rfl

theorem Disk.create_of_ret {file : ImageFile} {past : Block} {o o' : Opening} {d : Disk}
    (h : Disk.create file past o = (.ret d, o')) :
    ∃ contents, file = .regular contents ∧ 512 ∣ contents.size ∧
      d = Disk.ofImage contents past := by
  cases file with
  | regular contents =>
    by_cases hsize : contents.size % 512 ≠ 0
    · rw [Disk.create, if_pos hsize] at h
      cases h
    · rw [Disk.create, if_neg hsize] at h
      cases h
      exact ⟨contents, rfl, by omega, rfl⟩
  | _ => cases h

/-- The header checks and the location of the directory block, in one value. -/
theorem Volume.Accepted.of_located {env : Environment} {d : Disk} {v : Volume}
    (hsize : 512 ∣ d.size) (hblocks : 2 < d.numBlocks) (h : Located env d v.disk)
    {s t : Opening} (hcheck : v.checkHeader s = (.ret (), t)) : v.Accepted := by
  obtain ⟨⟨-, hmin, hper, hlen, htotal⟩, -⟩ := Volume.checkHeader_eq_ret_iff.mp hcheck
  exact {
    aligned := by rw [h.size_eq]; exact hsize
    blocks := by rw [h.numBlocks_eq]; exact hblocks
    directory := h.isVolumeDirectoryBlock hblocks
    minVersion := hmin
    entriesPerBlock := hper
    entryLength := hlen
    totalBlocks := htotal }

/-- The header of a volume whose block 2 is a directory block has the volume's storage type. -/
theorem Volume.Accepted.headerStorageType {v : Volume} (h : v.Accepted) :
    v.headerStorageType = storageTypeVolumeBlock :=
  (isVolumeDirectoryBlock_iff.mp h.directory).2

/-- A whole number of blocks is not what a failed `write` returns. -/
theorem Volume.Accepted.size_ne {v : Volume} (h : v.Accepted) :
    v.disk.size ≠ Disk.sizeMinusOne := by
  have haligned := h.aligned
  show v.disk.size ≠ 2 ^ 64 - 1
  omega

theorem Volume.Accepted.checkHeader {v : Volume} (h : v.Accepted) (o : Opening) :
    v.checkHeader o = (.ret (), o) :=
  Volume.checkHeader_eq_ret_iff.mpr
    ⟨⟨h.headerStorageType, h.minVersion, h.entriesPerBlock, h.entryLength, h.totalBlocks⟩, rfl⟩

/-- **Opening, inverted.** A volume that was opened comes from a regular file of whole blocks whose
directory block was located, and its header has passed every check. -/
theorem openVolume_of_ret {env : Environment} {file : ImageFile} {v : Volume} {o : Opening}
    (h : openVolume env file = (.ret v, o)) :
    ∃ contents, file = .regular contents ∧ 512 ∣ contents.size ∧
      2 < (Disk.ofImage contents env.past).numBlocks ∧
      Located env (Disk.ofImage contents env.past) v.disk ∧ v.Accepted ∧ o.disk = v.disk := by
  rw [openVolume, Volume.create, Call.bind_eq_ret_iff] at h
  obtain ⟨d, o₁, hcreate, h⟩ := h
  obtain ⟨contents, rfl, hsize, rfl⟩ := Disk.create_of_ret hcreate
  rw [Call.set_bind_apply, Call.bind_eq_ret_iff] at h
  obtain ⟨root, o₂, hget, h⟩ := h
  cases root with
  | none =>
    rw [Call.ite_apply, if_pos rfl] at h
    cases h
  | some root =>
    rw [Call.ite_apply, if_neg (Option.some_ne_none root), Call.get_bind_apply,
      Call.bind_eq_ret_iff] at h
    obtain ⟨⟨⟩, o₃, hcheck, h⟩ := h
    obtain ⟨hblocks, hloc⟩ := getVolumeDirectoryBlock_eq_ret hsize hget
    obtain ⟨-, rfl⟩ := Volume.checkHeader_eq_ret_iff.mp hcheck
    cases h
    exact ⟨contents, rfl, hsize, hblocks, hloc,
      Volume.Accepted.of_located hsize hblocks hloc hcheck, rfl⟩

/-- **Opening succeeds** once the directory block is located and the header accepted. -/
theorem openVolume_of_located {env : Environment} {contents : Image} {v : Volume}
    (hsize : 512 ∣ contents.size) (hblocks : 2 < (Disk.ofImage contents env.past).numBlocks)
    (hloc : Located env (Disk.ofImage contents env.past) v.disk) (hv : v.Accepted) :
    ∃ overrun, openVolume env (.regular contents) = (.ret v, ⟨v.disk, overrun⟩) := by
  obtain ⟨overrun, hget⟩ :=
    getVolumeDirectoryBlock_of_located ⟨Disk.ofImage contents env.past, false⟩ hblocks hsize hloc
  refine ⟨overrun, ?_⟩
  rw [openVolume, Volume.create, Call.bind_of_ret (Disk.create_regular hsize _ _),
    Call.set_bind_apply, Call.bind_of_ret hget, Call.ite_apply,
    if_neg (Option.some_ne_none _), Call.get_bind_apply, Call.bind_of_ret (hv.checkHeader _)]
  rfl

end Prodosfs
