import Prodosfs.Lookup
import Prodosfs.Texts

/-!
# The titles of AppleWorks documents

AppleWorks shows a document under a title with small letters and blanks in it, which the name of a
file cannot have. It stores the title in two places: the name has a capital letter for a small one
and a dot for a blank, and the auxiliary type has a bit for every character that was changed.

```
bit of the type   7 6 5 4 3 2 1 0   15 14 13 12 11 10  9
character         1 2 3 4 5 6 7 8    9 10 11 12 13 14 15
```

A dot in the name is a dot or a blank, and only its bit tells which. Going back from any title
loses just that: whatever the type says, the name comes out again, but for blanks that were in the
name to begin with, and what follows a NUL.

## Main definitions

* `IsTitle` — what AppleWorks takes for a title
* `titleName`, `titleMask` — where it is stored

## Main results

* `appleWorksFileName_title` — decoding undoes encoding
* `titleName_decodedName` — encoding what was decoded
* `appleWorksFileName_spec` — both
-/

namespace Prodosfs

/-! ### Titles -/

/-- A letter, a digit, a dot or a blank. -/
def isTitleChar (c : UInt8) : Bool := isalnum c || c == 46 || c == 32

/-- A title of AppleWorks. -/
def IsTitle (title : Str) : Prop :=
  1 ≤ title.length ∧ title.length ≤ 15 ∧ ∀ c ∈ title, isTitleChar c

/-- A character of a title, in the name. -/
def titleNameChar (c : UInt8) : UInt8 := if toupper c = 32 then 46 else toupper c

/-- Upper case, with dots for blanks. -/
def titleName (title : Str) : Str := title.map titleNameChar

/-- A character of a title that is another one in the name. -/
def isMasked (c : UInt8) : Bool := islower c || c == 32

/-- The bit for a character, and the character for a bit: the low byte is for the first eight, the
high byte for the others, and either has its bit 7 for the first of them. -/
def maskBit (i : ℕ) : ℕ := if i < 8 then 7 - i else 8 + (15 - i)

/-- The auxiliary type for a title. -/
def titleMask (title : Str) : ℕ :=
  Nat.ofBits fun b : Fin 16 => isMasked (title.getD (maskBit b) 0)

/-! ### One character -/

/-- A character of the decoded name. -/
def decodedChar (masked : Bool) (c : UInt8) : UInt8 :=
  if masked then if c = 46 then 32 else tolower c else c

theorem decodedChar_titleNameChar {c : UInt8} :
    isTitleChar c → decodedChar (isMasked c) (titleNameChar c) = c :=
  forall_byte (P := fun c => isTitleChar c → decodedChar (isMasked c) (titleNameChar c) = c)
    (by decide +kernel) c

theorem titleNameChar_decodedChar (masked : Bool) (c : UInt8) :
    titleNameChar (decodedChar masked c) = titleNameChar c := by
  cases masked with
  | false => rfl
  | true =>
    exact forall_byte (P := fun c => titleNameChar (decodedChar true c) = titleNameChar c)
      (by decide +kernel) c

theorem titleNameChar_eq_zero_iff {c : UInt8} : titleNameChar c = 0 ↔ c = 0 :=
  forall_byte (P := fun c => titleNameChar c = 0 ↔ c = 0) (by decide +kernel) c

theorem titleNameChar_eq_iff {c : UInt8} : titleNameChar c = toupper c ↔ c ≠ 32 :=
  forall_byte (P := fun c => titleNameChar c = toupper c ↔ c ≠ 32) (by decide +kernel) c

theorem ne_zero_of_isTitleChar {c : UInt8} : isTitleChar c → c ≠ 0 :=
  forall_byte (P := fun c => isTitleChar c → c ≠ 0) (by decide +kernel) c

/-! ### The mask -/

theorem maskBit_lt {i : ℕ} (hi : i < 16) : maskBit i < 16 := by
  rw [maskBit]
  split <;> omega

theorem maskBit_maskBit {i : ℕ} (hi : i < 16) : maskBit (maskBit i) = i := by
  rcases Nat.lt_or_ge i 8 with h | h
  · have hbit : maskBit i = 7 - i := if_pos h
    rw [hbit, maskBit, if_pos (by omega)]
    omega
  · have hbit : maskBit i = 8 + (15 - i) := if_neg (Nat.not_lt.mpr h)
    rw [hbit, maskBit, if_neg (by omega)]
    omega

/-- **Bit `15 - i` of the swapped type** is the bit for character `i`. -/
theorem testBit_swapped (auxType : ℕ) {i : ℕ} (hi : i < 16) :
    ((auxType &&& 0x00FF) <<< 8 ||| (auxType &&& 0xFF00) >>> 8).testBit (15 - i)
      = auxType.testBit (maskBit i) := by
  have hlow : ∀ k, Nat.testBit 0x00FF k = decide (k < 8) := Nat.testBit_two_pow_sub_one 8
  have hhigh : ∀ k < 8, Nat.testBit 0xFF00 (8 + k) = true := by decide
  rw [Nat.testBit_or, Nat.testBit_shiftLeft, Nat.testBit_shiftRight, Nat.testBit_and,
    Nat.testBit_and, hlow, maskBit]
  rcases Nat.lt_or_ge i 8 with h | h
  · have hpast : Nat.testBit 0xFF00 (8 + (15 - i)) = false := by
      refine Nat.testBit_lt_two_pow (lt_of_lt_of_le (show 0xFF00 < 2 ^ 16 by decide) ?_)
      exact Nat.pow_le_pow_right (by decide) (by omega)
    rw [if_pos h, hpast, decide_eq_true (show 8 ≤ 15 - i by omega),
      decide_eq_true (show 15 - i - 8 < 8 by omega), show 15 - i - 8 = 7 - i by omega,
      Bool.and_true, Bool.true_and, Bool.and_false, Bool.or_false]
  · rw [if_neg (Nat.not_lt.mpr h), decide_eq_false (show ¬ 8 ≤ 15 - i by omega),
      hhigh _ (by omega), Bool.false_and, Bool.false_or, Bool.and_true]

/-- The bit of a character of the title. -/
theorem testBit_titleMask (title : Str) {i : ℕ} (hi : i < 16) :
    (titleMask title).testBit (maskBit i) = isMasked (title.getD i 0) := by
  rw [titleMask, Nat.testBit_ofBits_lt _ _ (maskBit_lt hi)]
  exact congrArg (fun k => isMasked (title.getD k 0)) (maskBit_maskBit hi)

/-! ### The name -/

section
variable {σ : Type} {name title : Str}

/-- The buffer of `AppleWorksFileName`. -/
def decodedName (name : Str) (auxType : ℕ) : Str :=
  name.zipIdx.map fun ci => decodedChar (auxType.testBit (maskBit ci.2)) ci.1

theorem appleWorksFileName_apply (hlen : name.length ≤ 15) (auxType : ℕ) (s : σ) :
    appleWorksFileName name auxType s = (.ret (cStr (decodedName name auxType)), s) := by
  have hmap : (name.zipIdx.map fun ci =>
      if ((auxType &&& 0x00FF) <<< 8 ||| (auxType &&& 0xFF00) >>> 8).testBit (15 - ci.2) then
        if ci.1 = 46 then 32 else tolower ci.1 else ci.1) = decodedName name auxType := by
    refine List.map_congr_left fun ci hci => ?_
    have hi : ci.2 < 0 + name.length := (List.mem_zipIdx hci).2.1
    rw [testBit_swapped _ (by omega)]
    rfl
  rw [appleWorksFileName, if_neg (Nat.not_lt.mpr hlen), hmap]
  rfl

/-- **Decoding undoes encoding.** -/
theorem appleWorksFileName_title (htitle : IsTitle title) (s : σ) :
    appleWorksFileName (titleName title) (titleMask title) s = (.ret title, s) := by
  obtain ⟨-, hlen, hchars⟩ := htitle
  have hlength : (titleName title).length = title.length := List.length_map _
  have hdecoded : decodedName (titleName title) (titleMask title) = title := by
    refine List.ext_getElem ?_ fun i h₁ h₂ => ?_
    · rw [decodedName, List.length_map, List.length_zipIdx, hlength]
    · simp only [decodedName, titleName, List.getElem_map, List.getElem_zipIdx, Nat.zero_add]
      rw [testBit_titleMask title (by omega), List.getD_eq_getElem _ _ h₂]
      exact decodedChar_titleNameChar (hchars _ (List.getElem_mem h₂))
  have hnul : 0 ∉ title := fun h => ne_zero_of_isTitleChar (hchars 0 h) rfl
  rw [appleWorksFileName_apply (hlength.trans_le hlen), hdecoded, cStr_of_not_mem hnul]

/-- The end of the string is where it was. -/
theorem titleName_cStr (s : Str) : titleName (cStr s) = cStr (titleName s) := by
  rw [titleName, titleName, cStr, cStr, List.takeWhile_map]
  congr 2
  funext c
  simp [titleNameChar_eq_zero_iff]

/-- **Encoding undoes decoding**, as far as there is a string to decode. -/
theorem titleName_decodedName (name : Str) (auxType : ℕ) :
    titleName (cStr (decodedName name auxType)) = titleName (cStr name) := by
  have hmap : titleName (decodedName name auxType) = titleName name := by
    refine List.ext_getElem ?_ fun i h₁ h₂ => ?_
    · simp [titleName, decodedName]
    · simp only [titleName, decodedName, List.getElem_map, List.getElem_zipIdx]
      exact titleNameChar_decodedChar _ _
  rw [titleName_cStr, hmap, titleName_cStr]

/-- A name that is encoded by its capital letters. -/
theorem titleName_eq_iff : titleName (cStr name) = name.map toupper ↔ 0 ∉ name ∧ 32 ∉ name := by
  constructor
  · intro h
    have hlength : (cStr name).length = name.length := by
      simpa [titleName] using congrArg List.length h
    have hwhole : cStr name = name := (List.takeWhile_prefix _).eq_of_length hlength
    refine ⟨fun h0 => ?_, fun h32 => ?_⟩
    · rw [← hwhole] at h0
      exact not_mem_cStr _ h0
    · rw [hwhole, titleName, List.map_inj_left] at h
      exact titleNameChar_eq_iff.mp (h 32 h32) rfl
  · rintro ⟨h0, h32⟩
    rw [cStr_of_not_mem h0, titleName]
    exact List.map_congr_left fun c hc => titleNameChar_eq_iff.mpr fun h => h32 (h ▸ hc)

end

/-- **Names and titles.** Every title comes back from where it is stored; and every name comes back
from what it is decoded to, whatever the type says, if it is one that a title can be stored in: one
that has no blanks, and no NUL. -/
theorem appleWorksFileName_spec {σ : Type} {title name : Str} (htitle : IsTitle title)
    (hname : name.length ≤ 15) (auxType : ℕ) :
    (∀ s : σ, appleWorksFileName (titleName title) (titleMask title) s = (.ret title, s)) ∧
      ∃ decoded, (∀ s : σ, appleWorksFileName name auxType s = (.ret decoded, s)) ∧
        (titleName decoded = name.map toupper ↔ 0 ∉ name ∧ 32 ∉ name) := by
  refine ⟨appleWorksFileName_title htitle, _, appleWorksFileName_apply hname auxType, ?_⟩
  rw [titleName_decodedName]
  exact titleName_eq_iff

theorem appleWorksFileName_spec_important :
    titleName (ascii "Important Adrs") = ascii "IMPORTANT.ADRS" ∧
      titleMask (ascii "Important Adrs") = 0xDC7F ∧
      (∀ s : Unit, appleWorksFileName (ascii "IMPORTANT.ADRS") 0xDC7F s
        = (.ret (ascii "Important Adrs"), s)) ∧
      ∃ decoded, (∀ s : Unit, appleWorksFileName (ascii "A.B") 0x4000 s = (.ret decoded, s)) ∧
        titleName decoded = ascii "A.B" := by
  have hchars : (ascii "Important Adrs").all isTitleChar = true := by decide
  have htitle : IsTitle (ascii "Important Adrs") :=
    ⟨by decide, by decide, List.all_eq_true.mp hchars⟩
  have hname : (ascii "A.B").length ≤ 15 := by decide
  obtain ⟨hdecode, decoded, hdecoded, hiff⟩ :=
    appleWorksFileName_spec (σ := Unit) htitle hname 0x4000
  exact ⟨by decide, by decide, hdecode, decoded, hdecoded, hiff.mpr (by decide)⟩

/-- A blank in the name of a damaged entry stays a blank if its bit is not set, and is encoded by a
dot. -/
theorem not_titleName_blank :
    ¬ ∀ (name : Str) (auxType : ℕ), name.length ≤ 15 →
      ∃ decoded, (∀ s : Unit, appleWorksFileName name auxType s = (.ret decoded, s)) ∧
        titleName decoded = name.map toupper := by
  intro h
  obtain ⟨decoded, hret, hname⟩ := h (ascii "A B") 0 (by decide)
  have hdecoded : Outcome.ret (ε := Exn) decoded = .ret (ascii "A B") :=
    (congrArg Prod.fst (hret ())).symm.trans (by decide)
  cases hdecoded
  exact absurd hname (by decide)

end Prodosfs
