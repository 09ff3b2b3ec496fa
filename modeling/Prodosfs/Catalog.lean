import Prodosfs.File
import Prodosfs.Layouts
import Prodosfs.Lookup
import Prodosfs.Texts

/-!
# Opening files and directories, and the catalogue

The rest of `volume_t`: what `OpenFile` and `OpenDirectory` make of a path, the two counts that
describe the volume as a whole, and the text of `.CATALOG`.

Lines are formatted in a buffer of 128 bytes. A longer one runs over its end, which is undefined
and is a `fault` here.

`CountBlocksUsed` takes one block off its count for each byte of the bitmap, although a byte stands
for eight blocks. It reads eight times as many bitmap blocks as there are.

## Main definitions

* `openFile`, `openDirectory`, `countBlocksUsed`, `countRootDirectoryBlocks`, `catalog`
-/

namespace Prodosfs

/-! ### The volume as a whole -/

namespace Volume

variable {σ : Type} (v : Volume)

/-- `volume_header_t::Create` of the root's header. -/
def volumeHeader : Call Exn σ Block :=
  if v.headerStorageType ≠ storageTypeVolumeBlock then
    Call.throw (.runtimeError "not a volume block")
  else pure v.header

/-- `Name` -/
def name : Call Exn σ Str := do
  let volume ← v.volumeHeader
  pure (Entry.fileName volume)

/-- `FileCount` -/
def fileCount : Call Exn σ ℕ := do
  let volume ← v.volumeHeader
  pure (Prodosfs.fileCount volume)

/-- `TotalBlocks`, of the header. -/
def totalBlocksOf : Call Exn σ ℕ := do
  let volume ← v.volumeHeader
  pure (leRead16 fun k => volume (37 + k))

/-- The field `bit_map_pointer`. -/
def bitMapPointer : ℕ := leRead16 fun k => v.header (35 + k)

/-- `__builtin_popcount` of a byte. -/
def popcount (b : UInt8) : ℕ := ((List.range 8).map fun i => (b.toNat >>> i) % 2).sum

/-- The loop of `CountBlocksUsed`, from some block of the bitmap on. Every round takes at least one
block off, so that `blocks` rounds are enough. -/
def countBlocksLoop : ℕ → ℕ → ℕ → Call Exn σ ℤ
  | _, _, 0 => pure 0
  | 0, _, _ + 1 => Call.timeout
  | rounds + 1, pointer, blocks + 1 => do
    let bitmap ← v.readBlock pointer
    let bytes := bytesAt (v.deref bitmap) 0 (min 512 (blocks + 1))
    let used ← countBlocksLoop rounds ((pointer + 1) % 65536) (blocks + 1 - bytes.length)
    pure ((bytes.map fun b => (1 : ℤ) - popcount b).sum + used)

/-- `CountBlocksUsed` -/
def countBlocksUsed : Call Exn σ ℤ :=
  v.countBlocksLoop v.disk.numBlocks v.bitMapPointer v.disk.numBlocks

/-- The loop of `CountRootDirectoryBlocks`, which follows a chain without looking for a cycle. -/
def countDirectoryLoop : ℕ → ℕ → ℕ → Call Exn σ ℕ
  | _, 0, numBlocks => pure numBlocks
  | 0, _ + 1, _ => Call.timeout
  | rounds + 1, pointer + 1, numBlocks => do
    let block ← v.readBlock (pointer + 1 : ℕ)
    countDirectoryLoop rounds (v.nextPointer block) (numBlocks + 1)

/-- `CountRootDirectoryBlocks` -/
def countRootDirectoryBlocks (fuel : ℕ) : Call Exn σ ℕ :=
  v.countDirectoryLoop fuel (v.nextPointer (.image root)) 1

end Volume

/-! ### Opening -/

section
variable (v : Volume) (fuel : ℕ)

/-- `OpenFile` -/
def openFile (pathname : Str) : Call Exn Err (Option FileHandle) := do
  let entry ← getEntry v fuel pathname
  match entry with
  | none => pure none
  | some entry =>
    if Entry.isFile (v.entry entry) = false then do
      set Err.unsupportedStorageType
      pure none
    else do
      let handle ← FileHandle.create v entry
      pure (some handle)

/-- `OpenDirectory` -/
def openDirectory (pathname : Str) : Call Exn Err (Option DirectoryHandle) :=
  if pathname = ascii "/" then do
    let handle ← DirectoryHandle.create v (.image Volume.root)
    pure (some handle)
  else do
    let entry ← getEntry v fuel pathname
    match entry with
    | none => pure none
    | some entry =>
      if Entry.isDirectory (v.entry entry) = false then do
        set Err.directoryNotFound
        pure none
      else do
        let keyBlock ← v.readBlock (Entry.keyPointer (v.entry entry))
        let handle ← DirectoryHandle.create v keyBlock
        pure (some handle)

/-! ### The catalogue -/

/-- What comes before the last component of a path, without the slashes between the two. -/
def parentPath (pathname : Str) : Str :=
  if pathname.all (· == 47) then pathname
  else
    let parent := ((pathname.reverse.dropWhile (· ≠ 47)).dropWhile (· == 47)).reverse
    if parent = [] ∧ pathname.getD 0 0 = 47 then ascii "/" else parent

/-- `sprintf` into `line`, and what is read from there. -/
def formatLine {σ : Type} (line : Str) : Call Exn σ Str :=
  if 128 ≤ line.length then Call.fault else pure line

/-- `subtype`, for an entry. -/
def subtype (entry : Block) : Str :=
  if Entry.fileType entry = fileTypeBinary ∧ Entry.auxType entry ≠ 0 then
    ascii "A=$" ++ format04X (Entry.auxType entry)
  else []

/-- The line of an entry. -/
def entryLine (entry : Block) : Str :=
  ascii " " ++ padRight 15 (cStr (Entry.fileName entry)) ++ ascii "  " ++
    padLeft 32 3 (getFileTypeInfo (Entry.fileType entry)).name ++ ascii "  " ++
    padLeft 32 6 (digits 10 (Entry.blocksUsed entry)) ++ ascii "  " ++
    padRight 15 (Entry.lastModTimestamp entry).asString ++ ascii "  " ++
    padRight 15 (Entry.creationTimestamp entry).asString ++ ascii "  " ++
    padLeft 32 7 (digits 10 (Entry.eof entry)) ++ ascii "  " ++ padLeft 32 7 (subtype entry) ++
    ascii "\n"

/-- `pathdir == "/"`. Paths are compared by their components, and any number of slashes is the root
directory. -/
def isRootPath (pathdir : Str) : Bool := pathdir ≠ [] && pathdir.all (· == 47)

/-- The two lines at the top. -/
def titleLine (volumeName pathdir : Str) : Str :=
  ascii "\n/" ++ cStr volumeName ++ (if isRootPath pathdir then [] else cStr pathdir) ++
    ascii "\n\n"

def columnsLine : Str :=
  ascii " " ++ padRight 15 (ascii "NAME") ++ ascii " " ++ padLeft 32 4 (ascii "TYPE") ++
    ascii "  " ++ padLeft 32 6 (ascii "BLOCKS") ++ ascii "  " ++ padRight 15 (ascii "MODIFIED") ++
    ascii "  " ++ padRight 15 (ascii "CREATED") ++ ascii "  " ++ padLeft 32 7 (ascii "ENDFILE") ++
    ascii "  " ++ padLeft 32 7 (ascii "SUBTYPE") ++ ascii "\n\n"

/-- The line at the bottom. -/
def totalsLine (totalBlocks : ℕ) (blocksUsed : ℤ) : Str :=
  ascii "\nBLOCKS FREE: " ++ padLeft 32 4 (formatInt (totalBlocks - blocksUsed)) ++
    ascii "          BLOCKS USED: " ++ padLeft 32 4 (formatInt blocksUsed) ++
    ascii "          TOTAL BLOCKS: " ++ padLeft 32 4 (digits 10 totalBlocks) ++ ascii "\n\n"

/-- The loop of `Catalog` over the entries. -/
def catalogLoop : ℕ → Str → Call Exn (DirectoryHandle × Err) Str
  | 0, _ => Call.timeout
  | rounds + 1, output => do
    let entry ← DirectoryHandle.nextEntry v fuel
    match entry with
    | none => pure output
    | some entry => do
      let line ← formatLine (entryLine (v.entry entry))
      catalogLoop rounds (output ++ line)

/-- `Catalog` -/
def catalog (pathname : Str) : Call Exn Err (Option Str) := do
  let pathdir := parentPath pathname
  let dh ← openDirectory v fuel pathdir
  match dh with
  | none => pure none
  | some dh => do
    let volumeName ← v.name
    let title ← formatLine (titleLine volumeName pathdir)
    let columns ← formatLine columnsLine
    let (output, _) ← Call.withLocal dh (catalogLoop v fuel fuel (title ++ columns))
    let totalBlocks ← v.totalBlocksOf
    let blocksUsed ← v.countBlocksUsed
    let totals ← formatLine (totalsLine totalBlocks blocksUsed)
    pure (some (output ++ totals))

end

/-! ### The counts -/

/-- The blocks of the root directory are linked up to a last one, with pointers in range. -/
def Volume.RootChain (v : Volume) : Prop :=
  ∃ rest, Linked v.nextBlock (.image Volume.root) rest ∧
    ∀ b ∈ BlockPtr.image Volume.root :: rest, v.nextPointer b < v.disk.numBlocks

/-- The blocks that are read as the bitmap are inside the image. -/
def Volume.BitmapInside (v : Volume) : Prop :=
  v.bitMapPointer + (v.disk.numBlocks + 511) / 512 ≤ v.disk.numBlocks

section
variable {σ : Type} {v : Volume}

/-- A chain is followed to its end. The induction is on the chain. -/
theorem countDirectoryLoop_of_linked {key : BlockPtr} {rest : List BlockPtr}
    (hlinked : Linked v.nextBlock key rest) (s : σ) :
    (∀ b ∈ key :: rest, v.nextPointer b < v.disk.numBlocks) →
    ∀ {rounds : ℕ} (k : ℕ), rest.length ≤ rounds →
      v.countDirectoryLoop rounds (v.nextPointer key) k s = (.ret (k + rest.length), s) := by
  induction hlinked with
  | @last key h =>
    intro _ rounds k _
    have h0 : v.nextPointer key = 0 := by
      by_contra hne
      rw [Volume.nextBlock, if_neg hne] at h
      cases h
    rw [h0]
    cases rounds <;> rfl
  | @cons key b bs h _ ih =>
    intro hrange rounds k hrounds
    have hlt := hrange key (List.mem_cons_self ..)
    rw [List.length_cons] at hrounds ⊢
    obtain ⟨r, rfl⟩ := Nat.exists_eq_add_of_le' (show 1 ≤ rounds by omega)
    rw [Volume.nextBlock, Volume.blockPtr] at h
    cases hpointer : v.nextPointer key with
    | zero => simp [hpointer] at h
    | succ n =>
      rw [hpointer] at hlt
      simp only [hpointer, Nat.succ_ne_zero, if_false, Option.some.injEq] at h
      have hrest := ih (fun c hc => hrange c (List.mem_cons_of_mem _ hc)) (k + 1)
        (show bs.length ≤ r by omega)
      rw [Volume.countDirectoryLoop, Call.bind_of_ret (Volume.readBlock_of_lt hlt _), h, hrest,
        show k + 1 + bs.length = k + (bs.length + 1) by omega]

theorem countRootDirectoryBlocks_of_rootChain (hchain : v.RootChain) {fuel : ℕ}
    (hfuel : 65536 ≤ fuel) (s : σ) : ∃ n, v.countRootDirectoryBlocks fuel s = (.ret n, s) := by
  obtain ⟨rest, hlinked, hrange⟩ := hchain
  have hlen := length_lt_of_linked hlinked
  exact ⟨_, countDirectoryLoop_of_linked hlinked s hrange 1 (by omega)⟩

theorem popcount_le (b : UInt8) : Volume.popcount b ≤ 8 := by
  simp only [Volume.popcount, List.range, List.range.loop, List.map, List.sum_cons, List.sum_nil]
  omega

theorem sum_popcount_bounds (bytes : Str) :
    -(7 * (bytes.length : ℤ)) ≤ (bytes.map fun b => (1 : ℤ) - Volume.popcount b).sum ∧
      (bytes.map fun b => (1 : ℤ) - Volume.popcount b).sum ≤ bytes.length := by
  induction bytes with
  | nil => simp
  | cons b bytes ih =>
    have hle := popcount_le b
    rw [List.map_cons, List.sum_cons, List.length_cons]
    omega

/-- What the loop makes of the first `n` bytes it reads. -/
def Volume.balance (p : Block) (n : ℕ) : ℤ :=
  ((bytesAt p 0 n).map fun b => (1 : ℤ) - Volume.popcount b).sum

/-- The memory from the first block of the bitmap on. -/
def Volume.bitmap (v : Volume) : Block := v.disk.at (512 * v.bitMapPointer)

theorem balance_bounds (p : Block) (n : ℕ) :
    -(7 * (n : ℤ)) ≤ Volume.balance p n ∧ Volume.balance p n ≤ n := by
  have h := sum_popcount_bounds (bytesAt p 0 n)
  rwa [length_bytesAt] at h

theorem balance_add (p : Block) (m n : ℕ) :
    Volume.balance p (m + n) = Volume.balance p m + Volume.balance (fun k => p (m + k)) n := by
  rw [Volume.balance, Volume.balance, Volume.balance, bytesAt, List.range_add, List.map_append,
    List.map_append, List.sum_append]
  congr 3
  simp [bytesAt, Function.comp_def]

/-- Counting over the blocks of the bitmap, when they are inside. The induction is on the bound. -/
theorem countBlocksLoop_eq (hN : v.disk.numBlocks < 65536) (s : σ) :
    ∀ {rounds pointer blocks : ℕ}, blocks ≤ rounds →
      pointer + (blocks + 511) / 512 ≤ v.disk.numBlocks →
      v.countBlocksLoop rounds pointer blocks s
        = (.ret (Volume.balance (v.disk.at (512 * pointer)) blocks), s) := by
  intro rounds
  induction rounds with
  | zero =>
    rintro pointer (_ | blocks) hrounds _
    · rfl
    · omega
  | succ rounds ih =>
    rintro pointer (_ | blocks) hrounds hinside
    · rfl
    have hlt : pointer < v.disk.numBlocks := by omega
    have hmod : (pointer + 1) % 65536 = pointer + 1 := by omega
    have hrest := @ih (pointer + 1) (blocks + 1 - min 512 (blocks + 1)) (by omega) (by omega)
    rw [Volume.countBlocksLoop, Call.bind_of_ret (Volume.readBlock_of_lt hlt _)]
    simp only [length_bytesAt, hmod]
    rw [Call.bind_of_ret hrest, Call.pure_apply]
    rcases Nat.le_total (blocks + 1) 512 with hle | hge
    · simp [Nat.min_eq_right hle, Volume.balance, bytesAt, Volume.deref]
    · have hat : v.disk.at (512 * (pointer + 1))
          = fun k => v.disk.at (512 * pointer) (512 + k) := by
        funext k
        rw [Disk.at, Disk.at, ← Nat.add_assoc, Nat.mul_succ]
      have hsplit := balance_add (v.disk.at (512 * pointer)) 512 (blocks + 1 - 512)
      rw [Nat.add_sub_of_le hge] at hsplit
      rw [Nat.min_eq_left hge, hsplit, hat]
      rfl

/-- Otherwise the count is not finished. -/
theorem countBlocksLoop_of_lt (hN : v.disk.numBlocks < 65536) (s : σ) :
    ∀ {rounds pointer blocks : ℕ}, 0 < blocks →
      v.disk.numBlocks < pointer + (blocks + 511) / 512 →
      ∀ used t, v.countBlocksLoop rounds pointer blocks s ≠ (.ret used, t) := by
  intro rounds
  induction rounds with
  | zero =>
    rintro pointer (_ | blocks) hpos _ used t hcount
    · exact absurd hpos (Nat.lt_irrefl 0)
    · cases hcount
  | succ rounds ih =>
    rintro pointer (_ | blocks) hpos hout used t hcount
    · exact absurd hpos (Nat.lt_irrefl 0)
    rcases Nat.lt_or_ge pointer v.disk.numBlocks with hlt | hge
    · rw [Volume.countBlocksLoop, Call.bind_of_ret (Volume.readBlock_of_lt hlt _),
        Call.bind_eq_ret_iff] at hcount
      obtain ⟨used', t', hrest, -⟩ := hcount
      have hmod : (pointer + 1) % 65536 = pointer + 1 := by omega
      rw [hmod, length_bytesAt] at hrest
      exact ih (by omega) (by omega) _ _ hrest
    · rw [Volume.countBlocksLoop, Call.bind_of_throw (Volume.readBlock_of_ge hge _)] at hcount
      cases hcount

/-- **`CountBlocksUsed` returns when the blocks it reads are inside the image.** -/
theorem countBlocksUsed_eq (hv : v.Accepted) (hbitmap : v.BitmapInside) (s : σ) :
    v.countBlocksUsed s = (.ret (Volume.balance v.bitmap v.disk.numBlocks), s) :=
  countBlocksLoop_eq hv.numBlocks_lt s (le_refl v.disk.numBlocks) hbitmap

/-- Its result is of the order of the number of blocks. -/
theorem countBlocksUsed_of_bitmapInside (hv : v.Accepted) (hbitmap : v.BitmapInside) :
    ∃ used : ℤ, (∀ s : σ, v.countBlocksUsed s = (.ret used, s)) ∧
      -458745 ≤ used ∧ used ≤ 65535 := by
  have hN := hv.numBlocks_lt
  obtain ⟨hlo, hhi⟩ := balance_bounds v.bitmap v.disk.numBlocks
  exact ⟨_, countBlocksUsed_eq hv hbitmap, by omega, by omega⟩

theorem bitmapInside_of_countBlocksUsed (hv : v.Accepted) {used : ℤ} {s t : σ}
    (hcount : v.countBlocksUsed s = (.ret used, t)) : v.BitmapInside := by
  by_contra hout
  have hblocks := hv.blocks
  exact countBlocksLoop_of_lt hv.numBlocks_lt s (by omega) (Nat.lt_of_not_le hout) _ _ hcount

/-! ### The root directory of an accepted volume -/

theorem volumeHeader_of_accepted (hv : v.Accepted) (s : σ) :
    v.volumeHeader s = (.ret v.header, s) := by
  rw [Volume.volumeHeader, Call.ite_apply, if_neg (by simp [hv.headerStorageType])]
  rfl

theorem name_of_accepted (hv : v.Accepted) (s : σ) :
    v.name s = (.ret (Entry.fileName v.header), s) :=
  Call.bind_of_ret (volumeHeader_of_accepted hv s)

theorem fileCount_of_accepted (hv : v.Accepted) (s : σ) :
    v.fileCount s = (.ret (fileCount v.header), s) :=
  Call.bind_of_ret (volumeHeader_of_accepted hv s)

theorem totalBlocksOf_of_accepted (hv : v.Accepted) (s : σ) :
    v.totalBlocksOf s = (.ret v.totalBlocks, s) :=
  Call.bind_of_ret (volumeHeader_of_accepted hv s)

theorem isKeyBlock_root (hv : v.Accepted) : v.IsKeyBlock (.image Volume.root) :=
  Or.inl hv.headerStorageType

/-- The header of a volume is not the entry of a file. -/
theorem isFile_of_volumeBlock {entry : Block}
    (h : Entry.storageType entry = storageTypeVolumeBlock) : Entry.isFile entry = false := by
  rw [Entry.isFile, h]
  decide

theorem isFile_root (hv : v.Accepted) :
    Entry.isFile (v.entry ⟨.image Volume.root, 0⟩) = false :=
  isFile_of_volumeBlock hv.headerStorageType

theorem openDirectory_root (hv : v.Accepted) (fuel : ℕ) (err : Err) :
    openDirectory v fuel (ascii "/") err
      = (.ret (some (.opened (.image Volume.root))), err) := by
  rw [openDirectory, if_pos rfl, Call.bind_of_ret (create_of_isKeyBlock (isKeyBlock_root hv) err)]
  rfl

/-! ### The catalogue of the root directory -/

theorem formatLine_of_lt {line : Str} (h : line.length < 128) (s : σ) :
    formatLine line s = (.ret line, s) := by
  rw [formatLine, if_neg (by omega)]
  rfl

theorem length_subtype_le (entry : Block) : (subtype entry).length ≤ 7 := by
  rw [subtype]
  split
  · have hlen := length_format04X_le (leRead16_lt fun k => entry (31 + k))
    have hprefix : (ascii "A=$").length = 3 := rfl
    rw [List.length_append]
    exact hprefix ▸ Nat.add_le_add_left hlen 3
  · exact Nat.zero_le 7

/-- The line of an entry fits, whatever is in the entry. -/
theorem length_entryLine_lt (entry : Block) : (entryLine entry).length < 128 := by
  obtain ⟨-, htype, -⟩ := length_getFileTypeInfo_le (Entry.fileType entry)
  have hblocks : (digits 10 (Entry.blocksUsed entry)).length ≤ 6 :=
    (length_digits_word_le (leRead16_lt _)).trans (Nat.le_succ 5)
  have heof : Entry.eof entry < 10 ^ 8 := lt_trans (leRead24_lt _) (by decide)
  have hsubtype := length_subtype_le entry
  have h1 := length_padRight_le (w := 15)
    ((length_cStr_le _).trans (length_fileName_le entry)) le_rfl
  have h2 := length_padLeft_le 32 htype le_rfl
  have h3 := length_padLeft_le 32 hblocks le_rfl
  have h4 := length_padRight_le (w := 15) (length_asString_le fun k => entry (33 + k))
    (by decide)
  have h5 := length_padRight_le (w := 15) (length_asString_le fun k => entry (24 + k))
    (by decide)
  have h6 := length_padLeft_le 32 (w := 7)
    (length_digits_le (b := 10) (by decide) (by decide) heof) (by decide)
  have h7 := length_padLeft_le 32 hsubtype le_rfl
  have hblank : (ascii " ").length = 1 := rfl
  have hblanks : (ascii "  ").length = 2 := rfl
  have hend : (ascii "\n").length = 1 := rfl
  simp only [entryLine, List.length_append, Entry.lastModTimestamp, Entry.creationTimestamp]
  omega

theorem length_titleLine_le (entry : Block) (pathdir : Str) :
    (titleLine (Entry.fileName entry) pathdir).length
      ≤ 19 + if isRootPath pathdir then 0 else (cStr pathdir).length := by
  have hname := (length_cStr_le _).trans (length_fileName_le entry)
  have hstart : (ascii "\n/").length = 2 := rfl
  have hend : (ascii "\n\n").length = 2 := rfl
  rw [titleLine, List.length_append, List.length_append, List.length_append]
  split
  · rw [List.length_nil]
    omega
  · omega

theorem length_titleLine_lt (entry : Block) :
    (titleLine (Entry.fileName entry) (ascii "/")).length < 128 := by
  have hle := length_titleLine_le entry (ascii "/")
  rw [if_pos (by decide)] at hle
  omega

theorem length_totalsLine_lt {totalBlocks : ℕ} {used : ℤ} (htotal : totalBlocks < 65536)
    (hlo : -458745 ≤ used) (hhi : used ≤ 65535) :
    (totalsLine totalBlocks used).length < 128 := by
  have h1 := length_padLeft_le 32 (w := 4)
    (length_formatInt_le (k := 6) (i := totalBlocks - used) (by decide) (by omega) (by omega))
    (by decide)
  have h2 := length_padLeft_le 32 (w := 4)
    (length_formatInt_le (k := 6) (i := used) (by decide) (by omega) (by omega)) (by decide)
  have h3 := length_padLeft_le 32 (w := 4) (length_digits_word_le htotal) (by decide)
  have hfree : (ascii "\nBLOCKS FREE: ").length = 14 := rfl
  have hused : (ascii "          BLOCKS USED: ").length = 23 := rfl
  have htotals : (ascii "          TOTAL BLOCKS: ").length = 24 := rfl
  have hend : (ascii "\n\n").length = 2 := rfl
  simp only [totalsLine, List.length_append]
  omega

/-- The text of a catalogue. -/
def catalogText (v : Volume) (pathdir : Str) (es : List EntryPtr) : Str :=
  titleLine (Entry.fileName v.header) pathdir ++ columnsLine ++
    (es.flatMap fun e => entryLine (v.entry e)) ++
    totalsLine v.totalBlocks (Volume.balance v.bitmap v.disk.numBlocks)

/-- The lines of the entries that are iterated over. -/
theorem catalogLoop_of_iterates {fuel : ℕ} {h : DirectoryHandle} {es : List EntryPtr}
    (hit : Iterates v fuel h es) (err : Err) :
    ∀ {rounds : ℕ} (output : Str), es.length + 1 ≤ rounds →
      ∃ h', catalogLoop v fuel rounds output (h, err)
        = (.ret (output ++ es.flatMap fun e => entryLine (v.entry e)), (h', .endOfFile)) := by
  induction hit with
  | @nil h _ header count =>
    intro rounds output hrounds
    obtain ⟨rounds, rfl⟩ := Nat.exists_eq_add_of_le' (show 1 ≤ rounds from hrounds)
    refine ⟨h, ?_⟩
    rw [catalogLoop, Call.bind_of_ret (nextEntry_end header count fuel), List.flatMap_nil,
      List.append_nil]
    rfl
  | @cons _ h' e es head _ ih =>
    intro rounds output hrounds
    rw [List.length_cons] at hrounds
    obtain ⟨rounds, rfl⟩ := Nat.exists_eq_add_of_le' (show 1 ≤ rounds by omega)
    obtain ⟨h'', htext⟩ := ih (output ++ entryLine (v.entry e))
      (show es.length + 1 ≤ rounds by omega)
    refine ⟨h'', ?_⟩
    rw [catalogLoop, Call.bind_of_ret (head err), List.flatMap_cons, ← List.append_assoc]
    exact (Call.bind_of_ret (formatLine_of_lt (length_entryLine_lt _) _)).trans htext

/-- A loop over the entries that returns is an iteration. The induction is on its bound. -/
theorem iterates_of_catalogLoop {fuel : ℕ} : ∀ {rounds : ℕ} {output text : Str}
    {h : DirectoryHandle} {err : Err} {s : DirectoryHandle × Err},
    catalogLoop v fuel rounds output (h, err) = (.ret text, s) →
    ∃ es, Iterates v fuel h es ∧ es.length + 1 ≤ rounds := by
  intro rounds
  induction rounds with
  | zero =>
    intro output text h err s hloop
    cases hloop
  | succ rounds ih =>
    intro output text h err s hloop
    rw [catalogLoop, Call.bind_eq_ret_iff] at hloop
    obtain ⟨entry, t, hnext, hrest⟩ := hloop
    cases entry with
    | none =>
      obtain ⟨key, hheader, hcount, -⟩ := nextEntry_none hnext
      exact ⟨[], .nil hheader hcount, by simp⟩
    | some e =>
      obtain ⟨h', rfl, hnext'⟩ := nextEntry_some hnext
      simp only [] at hrest
      rw [Call.bind_of_ret (formatLine_of_lt (length_entryLine_lt _) _)] at hrest
      obtain ⟨es, hit, hlen⟩ := ih hrest
      exact ⟨e :: es, .cons hnext' hit, Nat.succ_le_succ hlen⟩

/-- **A catalogue** is made of a directory that can be opened and iterated over, if its title fits
and the bitmap is inside the image. -/
theorem catalog_of_iterates (hv : v.Accepted) {fuel : ℕ} {pathname : Str} {err err' : Err}
    {dh : DirectoryHandle} {es : List EntryPtr}
    (hopen : openDirectory v fuel (parentPath pathname) err = (.ret (some dh), err'))
    (hit : Iterates v fuel dh es) (hfuel : es.length + 1 ≤ fuel)
    (htitle : (titleLine (Entry.fileName v.header) (parentPath pathname)).length < 128)
    (hbitmap : v.BitmapInside) :
    catalog v fuel pathname err
      = (.ret (some (catalogText v (parentPath pathname) es)), .endOfFile) := by
  obtain ⟨hlo, hhi⟩ := balance_bounds v.bitmap v.disk.numBlocks
  have hN := hv.numBlocks_lt
  have htotal : v.totalBlocks < 65536 := leRead16_lt _
  obtain ⟨h', htext⟩ := catalogLoop_of_iterates hit err'
    (titleLine (Entry.fileName v.header) (parentPath pathname) ++ columnsLine) hfuel
  rw [catalog, Call.bind_of_ret hopen]
  simp only []
  rw [Call.bind_of_ret (name_of_accepted hv err'),
    Call.bind_of_ret (formatLine_of_lt htitle err'),
    Call.bind_of_ret (formatLine_of_lt (by decide : columnsLine.length < 128) err'),
    Call.bind_of_ret (Call.withLocal_of_ret htext)]
  simp only []
  rw [Call.bind_of_ret (totalBlocksOf_of_accepted hv _),
    Call.bind_of_ret (countBlocksUsed_eq hv hbitmap _),
    Call.bind_of_ret (formatLine_of_lt (length_totalsLine_lt htotal (by omega) (by omega)) _)]
  rfl

/-- It is not made otherwise. -/
theorem iterates_of_catalog (hv : v.Accepted) {fuel : ℕ} {pathname text : Str} {err err'' : Err}
    (hcatalog : catalog v fuel pathname err = (.ret (some text), err'')) :
    ∃ dh err' es, openDirectory v fuel (parentPath pathname) err = (.ret (some dh), err') ∧
      Iterates v fuel dh es ∧ es.length + 1 ≤ fuel ∧
      (titleLine (Entry.fileName v.header) (parentPath pathname)).length < 128 ∧
      v.BitmapInside := by
  obtain ⟨dh, err', hopen, hrest⟩ := Call.bind_eq_ret_iff.mp hcatalog
  cases dh with
  | none => cases hrest
  | some dh =>
    simp only [] at hrest
    rw [Call.bind_of_ret (name_of_accepted hv err')] at hrest
    simp only [Call.bind_eq_ret_iff] at hrest
    obtain ⟨_, _, htitle, _, _, -, ⟨_, _⟩, _, hloop, _, _, -, used, _, hused, -⟩ := hrest
    have hlt : (titleLine (Entry.fileName v.header) (parentPath pathname)).length < 128 := by
      by_contra hlong
      rw [formatLine, if_pos (Nat.not_lt.mp hlong)] at htitle
      cases htitle
    obtain ⟨es, hit, hlen⟩ := iterates_of_catalogLoop (Call.withLocal_eq_ret_iff.mp hloop)
    exact ⟨dh, err', es, hopen, hit, hlen, hlt, bitmapInside_of_countBlocksUsed hv hused⟩

/-- **The catalogue of the root directory** is made if the bitmap is inside the image. -/
theorem catalog_of_bitmapInside (hv : v.Accepted) {fuel : ℕ} {es : List EntryPtr}
    (hit : Iterates v fuel (.opened (.image Volume.root)) es) (hfuel : es.length + 1 ≤ fuel)
    (hbitmap : v.BitmapInside) {pathname : Str} (hparent : parentPath pathname = ascii "/")
    (err : Err) : ∃ text, catalog v fuel pathname err = (.ret (some text), .endOfFile) :=
  ⟨_, catalog_of_iterates hv (hparent ▸ openDirectory_root hv fuel err) hit hfuel
    (hparent ▸ length_titleLine_lt v.header) hbitmap⟩

/-- Nothing is returned otherwise. -/
theorem bitmapInside_of_catalog (hv : v.Accepted) {fuel : ℕ} {pathname : Str}
    (hparent : parentPath pathname = ascii "/") {err err' : Err} {text : Option Str}
    (hcatalog : catalog v fuel pathname err = (.ret text, err')) : v.BitmapInside := by
  simp only [catalog, hparent] at hcatalog
  rw [Call.bind_of_ret (openDirectory_root hv fuel err)] at hcatalog
  simp only [Call.bind_eq_ret_iff] at hcatalog
  obtain ⟨_, _, -, _, _, -, _, _, -, _, _, -, _, _, -, used, t, hused, -⟩ := hcatalog
  exact bitmapInside_of_countBlocksUsed hv hused

end

end Prodosfs
