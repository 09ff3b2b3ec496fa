import Prodosfs.Catalog
import Mathlib.Data.Nat.Count

/-!
# The volume bitmap

The bitmap has a bit for every block of the volume: block `b` is bit `7 - b % 8` of byte `b / 8`,
and the bit is set as long as the block is free. So it is an eighth of the number of blocks in
bytes.

`CountBlocksUsed` goes over as many *bytes* as there are blocks. It takes one block off for each
byte and one more for each set bit in it, and in the end it has subtracted all the set bits of
eight times the bitmap from the number of blocks. That is the number of blocks in use if the seven
eighths that are not part of the bitmap happen to be zero.

## Main definitions

* `Volume.bitmapBit` — the bit of a block
* `Volume.blocksInUse` — the number of blocks whose bit is clear

## Main results

* `balance_eq` — what `CountBlocksUsed` computes is a number of set bits
* `countBlocksUsed_eq_blocksInUse_iff` — when that is the number of blocks in use
-/

namespace Prodosfs

/-- Bit `b` of a bitmap, the highest bit of a byte first. -/
def bitOf (p : Block) (b : ℕ) : Bool := (p (b / 8)).toNat.testBit (7 - b % 8)

namespace Volume

variable (v : Volume)

/-- The bit of block `b`. -/
def bitmapBit (b : ℕ) : Bool := bitOf v.bitmap b

/-- The number of blocks of the volume whose bit is clear. -/
def blocksInUse : ℕ := Nat.count (fun b => v.bitmapBit b = false) v.disk.numBlocks

end Volume

/-! ### Bits and bytes -/

/-- The set bits of a byte. -/
theorem popcount_eq_count (b : UInt8) :
    Volume.popcount b = Nat.count (fun k => b.toNat.testBit (7 - k) = true) 8 := by
  have hbit : ∀ k, (b.toNat >>> k) % 2 = if b.toNat.testBit k = true then 1 else 0 := by
    intro k
    rw [Nat.testBit, Nat.and_comm, Nat.and_one_is_mod]
    rcases Nat.mod_two_eq_zero_or_one (b.toNat >>> k) with h | h
    · simp [h]
    · simp [h]
  simp only [Volume.popcount, List.range, List.range.loop, List.map, List.sum_cons, List.sum_nil,
    hbit, Nat.count_succ, Nat.count_zero, Nat.reduceSub]
  omega

/-- The set bits of the first `n` bytes. The induction is on the bytes. -/
theorem balance_eq (p : Block) (n : ℕ) :
    Volume.balance p n = n - Nat.count (fun b => bitOf p b = true) (8 * n) := by
  induction n with
  | zero => rfl
  | succ n ih =>
    have hlast : Volume.balance (fun k => p (n + k)) 1 = 1 - Volume.popcount (p n) := by
      simp [Volume.balance, bytesAt]
    have hbits : ∀ k < 8, bitOf p (8 * n + k) = (p n).toNat.testBit (7 - k) := by
      intro k hk
      rw [bitOf, show (8 * n + k) / 8 = n by omega, show (8 * n + k) % 8 = k by omega]
    have hbyte : Nat.count (fun k => bitOf p (8 * n + k) = true) 8 = Volume.popcount (p n) := by
      rw [popcount_eq_count]
      refine le_antisymm (Nat.count_mono_left ?_) (Nat.count_mono_left ?_)
      · intro k hk h
        exact hbits k hk ▸ h
      · intro k hk h
        exact (hbits k hk).symm ▸ h
    rw [balance_add, ih, hlast, Nat.mul_succ, Nat.count_add, hbyte]
    push_cast
    ring

/-- A bit is set or clear. -/
theorem count_clear_add_count_set (f : ℕ → Bool) (n : ℕ) :
    Nat.count (fun b => f b = false) n + Nat.count (fun b => f b = true) n = n := by
  induction n with
  | zero => rfl
  | succ n ih =>
    rw [Nat.count_succ, Nat.count_succ]
    cases hf : f n with
    | false => simpa [hf] using by omega
    | true => simpa [hf] using by omega

/-! ### The blocks in use -/

section
variable {σ : Type} {v : Volume}

theorem blocksInUse_le : v.blocksInUse ≤ v.disk.numBlocks := Nat.count_le _

/-- The count, in terms of the blocks in use and of the bits past the end of the bitmap. -/
theorem balance_bitmap (v : Volume) :
    Volume.balance v.bitmap v.disk.numBlocks = v.blocksInUse -
      Nat.count (fun k => v.bitmapBit (v.disk.numBlocks + k) = true) (7 * v.disk.numBlocks) := by
  have hsplit := count_clear_add_count_set v.bitmapBit v.disk.numBlocks
  have hadd := Nat.count_add (fun b => v.bitmapBit b = true) v.disk.numBlocks
    (7 * v.disk.numBlocks)
  rw [show v.disk.numBlocks + 7 * v.disk.numBlocks = 8 * v.disk.numBlocks by ring] at hadd
  have hbalance : Volume.balance v.bitmap v.disk.numBlocks = v.disk.numBlocks -
      Nat.count (fun b => v.bitmapBit b = true) (8 * v.disk.numBlocks) := balance_eq _ _
  rw [Volume.blocksInUse]
  omega

/-- **`CountBlocksUsed` counts the blocks in use if and only if** all it reads is inside the image,
and nothing but zeros comes after the bit of the last block. -/
theorem countBlocksUsed_eq_blocksInUse_iff (hv : v.Accepted) (s : σ) :
    (∃ used : ℤ, v.countBlocksUsed s = (.ret used, s) ∧ used = v.blocksInUse ∧
        (0 ≤ used ∧ used ≤ v.totalBlocks) ∧
        (0 ≤ v.totalBlocks - used ∧ v.totalBlocks - used ≤ v.disk.numBlocks)) ↔
      v.BitmapInside ∧
        ∀ b, v.disk.numBlocks ≤ b → b < 8 * v.disk.numBlocks → v.bitmapBit b = false := by
  have hle := @blocksInUse_le v
  have htotal := hv.totalBlocks
  have hclear : (∀ b, v.disk.numBlocks ≤ b → b < 8 * v.disk.numBlocks → v.bitmapBit b = false) ↔
      Nat.count (fun k => v.bitmapBit (v.disk.numBlocks + k) = true) (7 * v.disk.numBlocks)
        = 0 := by
    rw [Nat.count_iff_forall_not]
    constructor
    · intro h k hk
      simp [h (v.disk.numBlocks + k) (by omega) (by omega)]
    · intro h b hb hlt
      have hnot := h (b - v.disk.numBlocks) (by omega)
      rwa [Nat.add_sub_of_le hb, Bool.not_eq_true] at hnot
  rw [hclear]
  constructor
  · rintro ⟨used, hcount, hused, -⟩
    have hbitmap := bitmapInside_of_countBlocksUsed hv hcount
    rw [countBlocksUsed_eq hv hbitmap, balance_bitmap] at hcount
    simp only [Prod.mk.injEq, Outcome.ret.injEq, and_true] at hcount
    exact ⟨hbitmap, by omega⟩
  · rintro ⟨hbitmap, hzero⟩
    refine ⟨v.blocksInUse, ?_, rfl, by omega, by omega⟩
    rw [countBlocksUsed_eq hv hbitmap, balance_bitmap, hzero]
    simp

end

/-! ### Two bitmaps -/

/-- A volume of sixteen blocks, of which the first seven are in use. -/
def markedVolume : Volume :=
  ⟨Disk.ofImage (.sparse 8192 (headerBytes 1028 0xF 65 0 16 ++
    [(1063, 6), (3072, 0x01), (3073, 0xFF)])) fun _ => 0⟩

theorem accepted_marked : markedVolume.Accepted := by decide

/-- They are counted. -/
theorem countBlocksUsed_eq_blocksInUse_iff_marked :
    markedVolume.countBlocksUsed Err.none = (.ret 7, Err.none) ∧ markedVolume.blocksInUse = 7 := by
  have hinside : markedVolume.BitmapInside := by
    show markedVolume.bitMapPointer + _ ≤ _
    decide
  have hclear : ∀ b < 8 * markedVolume.disk.numBlocks, markedVolume.disk.numBlocks ≤ b →
      markedVolume.bitmapBit b = false := by decide +kernel
  obtain ⟨used, hcount, hused, -⟩ :=
    (countBlocksUsed_eq_blocksInUse_iff accepted_marked Err.none).mpr
      ⟨hinside, fun b hb hlt => hclear b hlt hb⟩
  have hseven : markedVolume.blocksInUse = 7 := by decide
  rw [hused, hseven] at hcount
  exact ⟨hcount, hseven⟩

/-- A volume of sixteen blocks, all of them in use, and a byte after the two of its bitmap. -/
def paddedVolume : Volume :=
  ⟨Disk.ofImage (.sparse 8192 (headerBytes 1028 0xF 65 0 16 ++ [(1063, 6), (3074, 0xFF)]))
    fun _ => 0⟩

theorem accepted_padded : paddedVolume.Accepted := by decide

/-- Eight of the sixteen blocks are not counted. -/
theorem not_countBlocksUsed_padded :
    ¬ ∀ v : Volume, v.Accepted →
      v.bitMapPointer + (v.disk.numBlocks + 4095) / 4096 ≤ v.disk.numBlocks →
      ∀ err : Err, ∃ used : ℤ, v.countBlocksUsed err = (.ret used, err) ∧ used = v.blocksInUse ∧
        (0 ≤ used ∧ used ≤ v.totalBlocks) ∧
        (0 ≤ v.totalBlocks - used ∧ v.totalBlocks - used ≤ v.disk.numBlocks) := by
  intro hclaim
  obtain ⟨used, hcount, hused, -⟩ := hclaim paddedVolume accepted_padded (by decide) .none
  have hinside : paddedVolume.BitmapInside := by
    show paddedVolume.bitMapPointer + _ ≤ _
    decide
  rw [countBlocksUsed_eq accepted_padded hinside] at hcount
  have height : Volume.balance paddedVolume.bitmap paddedVolume.disk.numBlocks = 8 := by decide
  have hsixteen : paddedVolume.blocksInUse = 16 := by decide
  rw [height] at hcount
  cases hcount
  rw [hsixteen] at hused
  exact absurd hused (by decide)

end Prodosfs
