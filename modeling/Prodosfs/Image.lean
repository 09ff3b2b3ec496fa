import Mathlib.Data.Nat.Notation
import Mathlib.Tactic.Common
import Mathlib.Tactic.Ring

/-!
# Files and the bytes in them

The contents of a file are a size and a byte at every offset. Offsets past the end hold zero, which
is a field of the structure and not a convention: two files with the same bytes are then *equal*,
so "byte-identical" is an equation.

A block, or any other stretch of memory a pointer leads to, is a function from offsets to bytes.
Nothing in the source ever checks how long such a stretch is.
-/

namespace Prodosfs

/-- The contents of a file. -/
structure Image where
  /-- The number of bytes. -/
  size : ℕ
  /-- The byte at an offset. -/
  byte : ℕ → UInt8
  /-- There is nothing past the end. -/
  byte_of_le : ∀ a, size ≤ a → byte a = 0

/-- What a pointer leads to: the byte at every offset from it. -/
abbrev Block := ℕ → UInt8

namespace Image

/-- Two files are the same when they have the same bytes. -/
theorem ext_of_lt {x y : Image} (hsize : x.size = y.size)
    (h : ∀ a < x.size, x.byte a = y.byte a) : x = y := by
  obtain ⟨n, f, hf⟩ := x
  obtain ⟨m, g, hg⟩ := y
  obtain rfl : n = m := hsize
  have hfg : f = g := by
    funext a
    rcases Nat.lt_or_ge a n with ha | ha
    · exact h a ha
    · rw [hf a ha, hg a ha]
  subst hfg
  rfl

/-- The first `size` bytes of a stretch of memory, as a file. -/
def ofFn (size : ℕ) (f : Block) : Image where
  size := size
  byte a := if a < size then f a else 0
  byte_of_le _ ha := if_neg (Nat.not_lt.mpr ha)

@[simp] theorem size_ofFn (n : ℕ) (f : Block) : (ofFn n f).size = n := rfl

theorem byte_ofFn {n a : ℕ} (f : Block) (h : a < n) : (ofFn n f).byte a = f a := if_pos h

theorem ofFn_eq_iff {n : ℕ} {f g : Block} : ofFn n f = ofFn n g ↔ ∀ a < n, f a = g a := by
  constructor
  · intro h a ha
    rw [← byte_ofFn f ha, ← byte_ofFn g ha, h]
  · intro h
    refine ext_of_lt rfl fun a (ha : a < n) => ?_
    rw [byte_ofFn f ha, byte_ofFn g ha, h a ha]

theorem ofFn_byte (x : Image) : ofFn x.size x.byte = x :=
  ext_of_lt rfl fun _ ha => byte_ofFn _ ha

theorem eq_ofFn_iff {x : Image} {f : Block} :
    ofFn x.size f = x ↔ ∀ a < x.size, f a = x.byte a := by
  conv_lhs => rhs; rw [← ofFn_byte x]
  exact ofFn_eq_iff

/-- A file of zeros, but for some bytes. -/
def sparse (size : ℕ) (bytes : List (ℕ × UInt8)) : Image :=
  ofFn size fun a => (bytes.lookup a).getD 0

end Image

/-- `memcpy` of `n` bytes to offset `start` of a stretch of memory. -/
def memcpy (dst : Block) (start : ℕ) (src : Block) (n : ℕ) : Block := fun a =>
  if start ≤ a ∧ a < start + n then src (a - start) else dst a

theorem memcpy_of_mem {dst src : Block} {start n a : ℕ} (h₁ : start ≤ a) (h₂ : a < start + n) :
    memcpy dst start src n a = src (a - start) := if_pos ⟨h₁, h₂⟩

theorem memcpy_of_lt {dst src : Block} {start n a : ℕ} (h : a < start) :
    memcpy dst start src n a = dst a := if_neg fun hc => absurd hc.1 (Nat.not_le.mpr h)

theorem memcpy_of_ge {dst src : Block} {start n a : ℕ} (h : start + n ≤ a) :
    memcpy dst start src n a = dst a := if_neg fun hc => absurd hc.2 (Nat.not_lt.mpr h)

/-- Only the bytes that are copied matter. -/
theorem memcpy_congr {dst src src' : Block} {start n : ℕ} (h : ∀ k < n, src k = src' k) :
    memcpy dst start src n = memcpy dst start src' n := by
  funext a
  by_cases ha : start ≤ a ∧ a < start + n
  · rw [memcpy_of_mem ha.1 ha.2, memcpy_of_mem ha.1 ha.2, h _ (by omega)]
  · rw [memcpy, memcpy, if_neg ha, if_neg ha]

/-! ### Little-endian fields -/

/-- `LE_Read16`: two bytes, the low one first. -/
def leRead16 (p : Block) : ℕ := (p 1).toNat <<< 8 ||| (p 0).toNat

/-- `LE_Read24`: three bytes, the lowest one first. -/
def leRead24 (p : Block) : ℕ := (p 2).toNat <<< 16 ||| (p 1).toNat <<< 8 ||| (p 0).toNat

/-- Putting a byte below a shifted number is adding it. -/
theorem shiftLeft_or_toNat (n k : ℕ) (b : UInt8) (hk : 8 ≤ k) :
    n <<< k ||| b.toNat = n * 2 ^ k + b.toNat := by
  have hb : b.toNat < 2 ^ k :=
    lt_of_lt_of_le b.toNat_lt (Nat.pow_le_pow_right (by norm_num) hk)
  rw [Nat.shiftLeft_eq, Nat.mul_comm, Nat.two_pow_add_eq_or_of_lt hb]

theorem leRead16_eq (p : Block) : leRead16 p = (p 1).toNat * 256 + (p 0).toNat :=
  shiftLeft_or_toNat _ 8 _ le_rfl

theorem leRead16_lt (p : Block) : leRead16 p < 65536 := by
  have h0 := (p 0).toNat_lt
  have h1 := (p 1).toNat_lt
  rw [leRead16_eq]
  omega

theorem leRead24_lt (p : Block) : leRead24 p < 2 ^ 24 := by
  have h0 := (p 0).toNat_lt
  have h1 := (p 1).toNat_lt
  have h2 := (p 2).toNat_lt
  refine Nat.or_lt_two_pow (Nat.or_lt_two_pow ?_ ?_) (by omega)
  · rw [Nat.shiftLeft_eq]
    omega
  · rw [Nat.shiftLeft_eq]
    omega

theorem leRead16_congr {p q : Block} (h0 : p 0 = q 0) (h1 : p 1 = q 1) :
    leRead16 p = leRead16 q := by
  rw [leRead16, leRead16, h0, h1]

/-- A little-endian pair is zero when both of its bytes are. -/
theorem leRead16_eq_zero_iff (p : Block) : leRead16 p = 0 ↔ p 0 = 0 ∧ p 1 = 0 := by
  rw [leRead16_eq, ← UInt8.toNat_inj, ← UInt8.toNat_inj, UInt8.toNat_zero]
  omega

end Prodosfs
