import Prodosfs.Disk
import Prodosfs.General.RepeatedKey
import Mathlib.Data.List.GetD

/-!
# Opening a volume

The constructor of `volume_t`: map the image file, find the volume directory block by trying four
ways of looking at the image, and check the header found there.

```
first   block 2 as it is
second  block 2 after deobfuscation, which is then written back
third   sector 11 of track 0 as it is; the whole image is then converted to blocks
fourth  sector 11 of track 0 after deobfuscation; the image is converted and block 2 deobfuscated
```

## Everything the outcome depends on

`Environment` collects what is not in the image file: the password file, and three stretches of
memory the source reads without having written them — the scratch block `tmp_blk`, the buffer that
`operator new` returns, and whatever follows the mapped file. All are arbitrary, so a theorem about
every environment is a theorem about every run.

Log messages are left out.

## Main results

* `deobfuscateLoop_eq` — the key loop in closed form, for any password buffer
* `keyMask_eq` — for a password without NUL bytes the key is `p[0 .. len - 2]`, repeated
-/

namespace Prodosfs

/-! ### The password -/

/-- What the system calls around the password file report. -/
inductive PasswordFile where
  /-- `PRODOSFS_PASSWORD_FILE` is not set. -/
  | unset
  | unopenable
  | unstatable
  | irregular
  | unreadable
  | regular (bytes : Str)

/-- The password: at most 31 bytes are read, one newline at their end is dropped, and what is left
has to be at least two bytes long. -/
def password : PasswordFile → Option Str
  | .regular bytes =>
    let passwd := bytes.take 31
    if passwd = [] then none
    else
      let passwd := if passwd.getLast? = some 10 then passwd.dropLast else passwd
      if passwd.length < 2 then none else some passwd
  | _ => none

/-- The buffer `passwd`, which is zero behind the password. -/
def passwdBuffer (p : Str) : Block := fun i => p.getD i 0

/-- Step the key pointer. The look-ahead is one place past the pointer, so that the last character
of the password is never used. -/
def stepKey (passwd : Block) (ptr : ℕ) : ℕ := if passwd (ptr + 1 + 1) = 0 then 0 else ptr + 1

/-- The loop of `S_Deobfuscate` over the `n` bytes from byte `i` on. -/
def deobfuscateLoop (passwd cipher : Block) : ℕ → ℕ → ℕ → Block → Block
  | 0, _, _, plain => plain
  | n + 1, i, ptr, plain =>
    deobfuscateLoop passwd cipher n (i + 1) (stepKey passwd ptr)
      (Function.update plain i (cipher i ^^^ (passwd ptr ^^^ 0x7F)))

/-- What is not in the image file. -/
structure Environment where
  passwordFile : PasswordFile
  /-- `tmp_blk`, before anything is written to it. -/
  scratch : Block
  /-- The memory `operator new` returns. -/
  heap : Block
  /-- The memory behind the mapped file, by offset from its start. -/
  past : Block

/-! ### The probes -/

/-- `storage_type_volume_block` -/
def storageTypeVolumeBlock : UInt8 := 0xF

/-- `S_IsVolumeDirectoryBlock` -/
def isVolumeDirectoryBlock (block : Block) : Bool :=
  leRead16 block == 0 && block 4 >>> 4 == storageTypeVolumeBlock

/-- `S_IsVolumeDirectoryBlock` on a block of the image. The header is not looked at when the
previous-block pointer is not zero. -/
def probe (a : ℕ) : Call Exn Opening Bool := do
  let o ← get
  let block : Block := fun k => o.disk.mem (a + k)
  touch a 2
  if leRead16 block ≠ 0 then pure false
  else
    touch (a + 4) 1
    pure (isVolumeDirectoryBlock block)

/-- `S_Deobfuscate` of the 512 bytes at address `a`. Without a usable password it leaves its
destination alone. -/
def deobfuscate (env : Environment) (a : ℕ) (dst : Block) : Call Exn Opening Block :=
  match password env.passwordFile with
  | none => pure dst
  | some p => do
    let o ← get
    touch a 512
    pure (deobfuscateLoop (passwdBuffer p) (fun k => o.disk.mem (a + k)) 512 0 0 dst)

/-- `WriteBlock` on the disk being opened. -/
def writeBlock (index : ℤ) (block : Block) : Call Exn Opening Unit := do
  let o ← get
  let d ← o.disk.writeBlock index block
  modify fun o => { o with disk := d }

/-- `ReadBlock` on the disk being opened. -/
def readBlock (index : ℤ) : Call Exn Opening ℕ := do
  let o ← get
  o.disk.readBlock index

/-- `_GetVolumeDirectoryBlock`: the address of the volume directory block, if there is one. -/
def getVolumeDirectoryBlock (env : Environment) : Call Exn Opening (Option ℕ) := do
  let block ← readBlock 2
  let found ← probe block
  if found then pure (some block)
  else
    let tmpBlk ← deobfuscate env block env.scratch
    if isVolumeDirectoryBlock tmpBlk then
      writeBlock 2 tmpBlk
      let root ← readBlock 2
      pure (some root)
    else
      let block ← Disk.readTrackSector 0 11
      let found ← probe block
      if found then
        Disk.convert env.heap
        let root ← readBlock 2
        pure (some root)
      else
        let tmpBlk ← deobfuscate env block tmpBlk
        if isVolumeDirectoryBlock tmpBlk then
          Disk.convert env.heap
          let block ← readBlock 2
          let tmpBlk ← deobfuscate env block tmpBlk
          writeBlock 2 tmpBlk
          let root ← readBlock 2
          pure (some root)
        else pure none

/-! ### The volume -/

/-- `volume_t`. Its `_root` is the address of block 2. -/
structure Volume where
  disk : Disk

namespace Volume

/-- `_root` -/
def root : ℕ := 1024

/-- The volume directory header, `_root->key.header`. -/
def header (v : Volume) : Block := fun k => v.disk.mem (root + 4 + k)

/-- `StorageType` of the header. -/
def headerStorageType (v : Volume) : UInt8 := v.header 0 >>> 4

/-- `MinVersion` -/
def minVersion (v : Volume) : UInt8 := v.header 29

/-- `EntryLength` -/
def entryLength (v : Volume) : UInt8 := v.header 31

/-- `EntriesPerBlock` -/
def entriesPerBlock (v : Volume) : UInt8 := v.header 32

/-- `TotalBlocks` -/
def totalBlocks (v : Volume) : ℕ := leRead16 fun k => v.header (37 + k)

/-- The checks of the constructor, in the order in which it makes them. -/
def checkHeader (v : Volume) : Call Exn Opening Unit :=
  if v.headerStorageType ≠ storageTypeVolumeBlock then
    Call.throw (.runtimeError "not a volume block")
  else if v.minVersion ≠ 0 then Call.throw (.runtimeError "unexpected minimum prodos version")
  else if v.entriesPerBlock ≠ 13 then
    Call.throw (.runtimeError "unexpected number of entries per block")
  else if v.entryLength ≠ 39 then Call.throw (.runtimeError "unexpected entry length")
  else if v.totalBlocks ≠ v.disk.numBlocks then
    Call.throw (.runtimeError "unexpected total blocks")
  else pure ()

end Volume

/-- What is found under the path of the image file. -/
inductive ImageFile where
  | unopenable (strerror : String)
  | irregular
  | regular (contents : Image)

/-- The disk with an image file mapped at its base. -/
def Disk.ofImage (file : Image) (past : Block) : Disk where
  size := file.size
  mem a := if a < file.size then file.byte a else past a
  converted := false
  dirty := false

/-- The constructor of `disk_t`. -/
def Disk.create (file : ImageFile) (past : Block) : Call Exn Opening Disk :=
  match file with
  | .unopenable strerror =>
    Call.throw (.runtimeError ("unable to open image file: " ++ strerror))
  | .irregular => Call.throw (.runtimeError "image is not a regular file")
  | .regular contents =>
    if contents.size % 512 ≠ 0 then
      Call.throw (.runtimeError "image size is not a multiple of block size")
    else pure (Disk.ofImage contents past)

/-- The constructor of `volume_t`. -/
def Volume.create (env : Environment) (file : ImageFile) : Call Exn Opening Volume := do
  let disk ← Disk.create file env.past
  set (⟨disk, false⟩ : Opening)
  let root ← getVolumeDirectoryBlock env
  if root = none then Call.throw (.runtimeError "unable to find volume directory block")
  else
    let o ← get
    let v : Volume := ⟨o.disk⟩
    v.checkHeader
    pure v

/-- Construct a volume, from scratch. -/
def openVolume (env : Environment) (file : ImageFile) : Outcome Exn Volume × Opening :=
  Volume.create env file ⟨⟨0, env.past, false, false⟩, false⟩

/-! ### The key loop in closed form -/

/-- The byte the source combines with byte `i` of a block. -/
def keyMask (p : Str) : Block := fun i =>
  passwdBuffer p ((stepKey (passwdBuffer p))^[i] 0) ^^^ 0x7F

/-- The loop writes the bytes from `i` on. The induction is on the number of bytes left, and the
key pointer of byte `a` is `a - i` steps ahead. -/
theorem deobfuscateLoop_eq (passwd cipher : Block) (n : ℕ) : ∀ (i ptr : ℕ) (plain : Block),
    deobfuscateLoop passwd cipher n i ptr plain = fun a =>
      if i ≤ a ∧ a < i + n then cipher a ^^^ (passwd ((stepKey passwd)^[a - i] ptr) ^^^ 0x7F)
      else plain a := by
  induction n with
  | zero =>
    intro i ptr plain
    funext a
    rw [deobfuscateLoop, if_neg (by omega)]
  | succ n ih =>
    intro i ptr plain
    rw [deobfuscateLoop, ih]
    funext a
    rcases Nat.lt_trichotomy a i with h | rfl | h
    · rw [if_neg (by omega), if_neg (by omega), Function.update_of_ne (by omega)]
    · rw [if_neg (by omega), if_pos (by omega), Function.update_self, Nat.sub_self]
      rfl
    · by_cases hlt : a < i + 1 + n
      · rw [if_pos ⟨h, hlt⟩, if_pos (by omega), ← Function.iterate_succ_apply,
          show (a - (i + 1)).succ = a - i by omega]
      · rw [if_neg (by omega), if_neg (by omega), Function.update_of_ne (by omega)]

/-- For a password without NUL bytes the key pointer walks around all characters but the last. -/
theorem stepKey_eq {p : Str} (hnul : 0 ∉ p) {ptr : ℕ} (hptr : ptr < p.length - 1) :
    stepKey (passwdBuffer p) ptr = cycleNext (p.length - 1) ptr := by
  rw [stepKey, cycleNext, passwdBuffer]
  rcases Nat.lt_or_ge (ptr + 1 + 1) p.length with h | h
  · have hne : p.getD (ptr + 1 + 1) 0 ≠ 0 := by
      rw [List.getD_eq_getElem _ _ h]
      exact fun h0 => hnul (h0 ▸ List.getElem_mem h)
    rw [if_neg hne, if_pos (by omega)]
  · rw [if_pos (List.getD_eq_default _ _ h), if_neg (by omega)]

/-- **The key.** For a password without NUL bytes it is `p[0 .. len - 2]`, repeated. -/
theorem keyMask_eq {p : Str} (hnul : 0 ∉ p) (hlen : 2 ≤ p.length) (i : ℕ) :
    keyMask p i = p.getD (i % (p.length - 1)) 0 ^^^ 0x7F := by
  have hptr : ∀ i, (stepKey (passwdBuffer p))^[i] 0 = i % (p.length - 1) := by
    intro i
    induction i with
    | zero => simp
    | succ i ih =>
      rw [Function.iterate_succ_apply', ih, stepKey_eq hnul (Nat.mod_lt _ (by omega)),
        cycleNext_mod (by omega)]
  rw [keyMask, hptr]
  rfl

/-- A usable password has at least two bytes. -/
theorem length_of_password {f : PasswordFile} {p : Str} (h : password f = some p) :
    2 ≤ p.length := by
  cases f with
  | regular bytes =>
    rw [password] at h
    simp only [Option.ite_none_left_eq_some, Nat.not_lt, Option.some.injEq] at h
    obtain ⟨-, hlen, rfl⟩ := h
    exact hlen
  | _ => cases h

end Prodosfs
