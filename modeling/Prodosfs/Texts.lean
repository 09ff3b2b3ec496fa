import Prodosfs.Entry

/-!
# Texts

What the program says about an entry: the formats of `sprintf` it uses, dates, access rights, file
types, and the spelling AppleWorks gives to a name.

A file type has a name and a description of its own when `file_type_table` gives it one; all others
are described by their number.

## Main definitions

* `Timestamp.asString`, `accessToString`, `auxTypeToString`, `appleWorksFileName`
* `getFileTypeInfo`
-/

namespace Prodosfs

/-! ### Formats -/

/-- The digits of a number, which are capital letters from ten on. -/
def digits (base n : ℕ) : Str := (Nat.toDigits base n).map fun c => toupper (UInt8.ofNat c.toNat)

/-- Filled up on the left. -/
def padLeft (c : UInt8) (width : ℕ) (s : Str) : Str := List.replicate (width - s.length) c ++ s

/-- Filled up with blanks on the right. -/
def padRight (width : ℕ) (s : Str) : Str := s ++ List.replicate (width - s.length) 32

/-- `%d` -/
def formatInt : ℤ → Str
  | .ofNat n => digits 10 n
  | .negSucc n => ascii "-" ++ digits 10 (n + 1)

/-- `%02d` of a number that is not negative. -/
def format02d (n : ℕ) : Str := padLeft 48 2 (digits 10 n)

/-- `%04X` -/
def format04X (n : ℕ) : Str := padLeft 48 4 (digits 16 n)

/-- `%02X` -/
def format02X (n : ℕ) : Str := padLeft 48 2 (digits 16 n)

/-! ### Fields of an entry -/

/-- The names of the months. -/
def months : List String :=
  ["JAN", "FEB", "MAR", "APR", "MAY", "JUN", "JUL", "AUG", "SEP", "OCT", "NOV", "DEC"]

/-- `AsString` -/
def Timestamp.asString (t : Timestamp) : Str :=
  if t.month < 1 ∨ 12 < t.month then ascii "<NO DATE>"
  else
    format02d t.day ++ ascii "-" ++ padLeft 32 3 (ascii (months.getD (t.month - 1) "")) ++
      ascii "-" ++ format02d t.year ++ ascii " " ++ format02d t.hour ++ ascii ":" ++
      format02d t.minute

/-- The flags of the access byte and what they are called. -/
def accessFlags : List (UInt8 × String) :=
  [(0x01, "READ"), (0x02, "WRITE"), (0x20, "BACKUP"), (0x40, "RENAME"), (0x80, "DESTROY")]

/-- `S_AccessToString` -/
def accessToString (access : UInt8) : Str :=
  let allowed := (accessFlags.filter fun flag => access &&& flag.1 ≠ 0).map fun flag => ascii flag.2
  allowed.foldl (fun str flag => (if str = [] then [] else str ++ ascii " | ") ++ flag) []

/-- `S_AuxTypeToString` -/
def auxTypeToString (auxType : ℕ) : Str := ascii "$" ++ format04X auxType

/-- `AppleWorksFileName`. The name is put into a buffer of 16 bytes that is read back as a string;
bit `15 - i` of the swapped type says that character `i` is a small letter or a blank. -/
def appleWorksFileName {σ : Type} (filename : Str) (auxType : ℕ) : Call Exn σ Str :=
  let mask := (auxType &&& 0x00FF) <<< 8 ||| (auxType &&& 0xFF00) >>> 8
  if 15 < filename.length then Call.fault
  else
    pure (cStr (filename.zipIdx.map fun ci =>
      if mask.testBit (15 - ci.2) then if ci.1 = 46 then 32 else tolower ci.1 else ci.1))

/-! ### File types -/

/-- The file types with a meaning for the program. -/
def fileTypeText : UInt8 := 0x04
def fileTypeBinary : UInt8 := 0x06
def fileTypeAppleworksDb : UInt8 := 0x19
def fileTypeAppleworksWp : UInt8 := 0x1A
def fileTypeAppleworksSs : UInt8 := 0x1B

/-- `file_type_info_t` -/
structure FileTypeInfo where
  type : Str
  name : Str
  description : Str
  deriving DecidableEq, Repr

/-- `S_CreateFileTypeInfo` -/
def createFileTypeInfo (type : UInt8) (name description : Option Str) : FileTypeInfo :=
  let typeBuffer := ascii "$" ++ format02X type.toNat
  { type := typeBuffer
    name := name.getD (format02X type.toNat)
    description := description.getD (ascii "File type " ++ typeBuffer ++ ascii " file") }

/-- The entries of `file_type_table` that have a name and a description. -/
def fileTypeTable : List (UInt8 × String × String) :=
  [(0x00, "---", "Typeless file"), (0x01, "BAD", "Bad block file"), (0x04, "TXT", "Text file"),
    (0x06, "BIN", "Binary file"), (0x0B, "WPF", "Word processor file"),
    (0x0F, "DIR", "Directory file"), (0x19, "ADB", "AppleWorks database file"),
    (0x1A, "AWP", "AppleWorks word processor file"), (0x1B, "ASP", "AppleWorks spreadsheet file"),
    (0xEF, "PAS", "Pascal file"), (0xF0, "CMD", "Command file"),
    (0xF1, "UD1", "User defined type 1 file"), (0xF2, "UD2", "User defined type 2 file"),
    (0xF3, "UD3", "User defined type 3 file"), (0xF4, "UD4", "User defined type 4 file"),
    (0xF5, "UD5", "User defined type 5 file"), (0xF6, "UD6", "User defined type 6 file"),
    (0xF7, "UD7", "User defined type 7 file"), (0xF8, "UD8", "User defined type 8 file"),
    (0xFA, "INT", "Integer BASIC file"), (0xFB, "IVR", "Integer BASIC variables file"),
    (0xFC, "BAS", "Applesoft BASIC file"), (0xFD, "VAR", "Applesoft BASIC variables file"),
    (0xFE, "REL", "Relocatable code file"), (0xFF, "SYS", "System file")]

/-- `GetFileTypeInfo`. The table has an entry for every number. -/
def getFileTypeInfo (type : UInt8) : FileTypeInfo :=
  match fileTypeTable.lookup type with
  | some (name, description) =>
    createFileTypeInfo type (some (ascii name)) (some (ascii description))
  | none => createFileTypeInfo type none none

/-- `IsAppleWorksFile` -/
def isAppleWorksFile (type : UInt8) : Bool :=
  type == fileTypeAppleworksWp || type == fileTypeAppleworksSs || type == fileTypeAppleworksDb

/-! ### Lengths -/

section
variable {n k : ℕ} {s : Str}

theorem length_digits_le {b : ℕ} (hb : 1 < b) (hk : 0 < k) (h : n < b ^ k) :
    (digits b n).length ≤ k := by
  rw [digits, List.length_map]
  exact (Nat.length_toDigits_le_iff hb hk).mpr h

theorem length_padLeft_le (c : UInt8) {w : ℕ} (h : s.length ≤ k) (hk : w ≤ k) :
    (padLeft c w s).length ≤ k := by
  rw [padLeft, List.length_append, List.length_replicate]
  omega

theorem length_padRight_le {w : ℕ} (h : s.length ≤ k) (hk : w ≤ k) :
    (padRight w s).length ≤ k := by
  rw [padRight, List.length_append, List.length_replicate]
  omega

theorem length_bytesAt (p : Block) (a n : ℕ) : (bytesAt p a n).length = n := by simp [bytesAt]

/-- A name has at most 15 characters, since its length is four bits of a byte. -/
theorem length_fileName_le (entry : Block) : (Entry.fileName entry).length ≤ 15 := by
  rw [Entry.fileName, length_bytesAt, Entry.nameLength, UInt8.toNat_and]
  exact Nat.and_le_right

theorem length_cStr_le (s : Str) : (cStr s).length ≤ s.length :=
  (List.takeWhile_sublist _).length_le

theorem length_format02d_le (hk : 2 ≤ k) (h : n < 10 ^ k) : (format02d n).length ≤ k :=
  length_padLeft_le _ (length_digits_le (by decide) (by omega) h) hk

theorem length_format02X_le (h : n < 256) : (format02X n).length ≤ 2 :=
  length_padLeft_le _ (length_digits_le (by decide) (by decide) h) le_rfl

theorem length_format04X_le (h : n < 65536) : (format04X n).length ≤ 4 :=
  length_padLeft_le _ (length_digits_le (by decide) (by decide) h) le_rfl

theorem length_formatInt_le {i : ℤ} (hk : 0 < k) (hlo : -10 ^ k < i) (hhi : i < 10 ^ k) :
    (formatInt i).length ≤ k + 1 := by
  cases i with
  | ofNat n =>
    have hn : n < 10 ^ k := by
      rw [Int.ofNat_eq_natCast] at hhi
      exact_mod_cast hhi
    exact (length_digits_le (by decide) hk hn).trans (Nat.le_succ k)
  | negSucc n =>
    have hn : n + 1 < 10 ^ k := by
      rw [Int.negSucc_eq] at hlo
      have hneg : ((n : ℤ) + 1) < 10 ^ k := by omega
      exact_mod_cast hneg
    have hlen := length_digits_le (b := 10) (by decide) hk hn
    rw [formatInt, List.length_append]
    have hminus : (ascii "-").length = 1 := rfl
    omega

/-- The fields of a date are as wide as their bits. -/
theorem decodeTimestamp_lt (p : Block) :
    (decodeTimestamp p).day < 32 ∧ (decodeTimestamp p).year < 128 ∧
      (decodeTimestamp p).hour < 32 ∧ (decodeTimestamp p).minute < 64 := by
  have hday : (decodeTimestamp p).day ≤ 0b11111 := Nat.and_le_right
  have hyear : leRead16 p &&& 0b1111111000000000 ≤ 0b1111111000000000 := Nat.and_le_right
  have hshift : (decodeTimestamp p).year = (leRead16 p &&& 0b1111111000000000) / 512 :=
    Nat.shiftRight_eq_div_pow _ _
  have hhour : (decodeTimestamp p).hour ≤ 0b00011111 := by
    show (p 3 &&& 0b00011111).toNat ≤ 0b00011111
    rw [UInt8.toNat_and]
    exact Nat.and_le_right
  have hminute : (decodeTimestamp p).minute ≤ 0b00111111 := by
    show (p 2 &&& 0b00111111).toNat ≤ 0b00111111
    rw [UInt8.toNat_and]
    exact Nat.and_le_right
  omega

/-- A date is never longer than 16 characters. -/
theorem length_asString_le (p : Block) : (decodeTimestamp p).asString.length ≤ 16 := by
  rw [Timestamp.asString]
  split
  · decide
  · obtain ⟨hday, hyear, hhour, hminute⟩ := decodeTimestamp_lt p
    have hnames : ∀ name ∈ months, (ascii name).length = 3 := by decide
    have hmonth : (ascii (months.getD ((decodeTimestamp p).month - 1) "")).length ≤ 3 := by
      rw [List.getD_eq_getElem?_getD]
      cases hget : months[(decodeTimestamp p).month - 1]? with
      | none => decide
      | some name => exact (hnames name (List.mem_of_getElem? hget)).le
    have hday' := length_format02d_le (k := 2) le_rfl (show (decodeTimestamp p).day < 100 by omega)
    have hyear' :=
      length_format02d_le (k := 3) (by decide) (show (decodeTimestamp p).year < 1000 by omega)
    have hhour' :=
      length_format02d_le (k := 2) le_rfl (show (decodeTimestamp p).hour < 100 by omega)
    have hminute' :=
      length_format02d_le (k := 2) le_rfl (show (decodeTimestamp p).minute < 100 by omega)
    have hmonth' := length_padLeft_le 32 hmonth le_rfl
    have hdash : (ascii "-").length = 1 := rfl
    have hblank : (ascii " ").length = 1 := rfl
    have hcolon : (ascii ":").length = 1 := rfl
    simp only [List.length_append]
    omega

/-- File types are described in few characters. -/
theorem length_getFileTypeInfo_le (type : UInt8) :
    (getFileTypeInfo type).type.length ≤ 3 ∧ (getFileTypeInfo type).name.length ≤ 3 ∧
      (getFileTypeInfo type).description.length ≤ 30 := by
  have htype : (ascii "$" ++ format02X type.toNat).length ≤ 3 := by
    have hlen := length_format02X_le type.toNat_lt
    have hdollar : (ascii "$").length = 1 := rfl
    rw [List.length_append]
    omega
  rw [getFileTypeInfo]
  split
  · rename_i name description hlookup
    have htable : ∀ row ∈ fileTypeTable,
        (ascii row.2.1).length ≤ 3 ∧ (ascii row.2.2).length ≤ 30 := by decide +kernel
    obtain ⟨before, after, hrows, -⟩ := List.lookup_eq_some_iff.mp hlookup
    have hmem : (type, name, description) ∈ fileTypeTable := by
      rw [hrows]
      exact List.mem_append_right _ (List.mem_cons_self ..)
    obtain ⟨hname, hdescription⟩ := htable _ hmem
    exact ⟨htype, hname, hdescription⟩
  · refine ⟨htype, (length_format02X_le type.toNat_lt).trans (by decide), ?_⟩
    have hfile : (ascii "File type ").length = 10 := rfl
    have hend : (ascii " file").length = 5 := rfl
    simp only [createFileTypeInfo, Option.getD_none, List.length_append] at htype ⊢
    omega

/-- No file type has a NUL, a slash or a colon in its name. -/
theorem not_mem_name_getFileTypeInfo (type : UInt8) :
    0 ∉ (getFileTypeInfo type).name ∧ 47 ∉ (getFileTypeInfo type).name ∧
      58 ∉ (getFileTypeInfo type).name := by
  rw [getFileTypeInfo]
  split
  · rename_i name description hlookup
    have htable : ∀ row ∈ fileTypeTable,
        0 ∉ ascii row.2.1 ∧ 47 ∉ ascii row.2.1 ∧ 58 ∉ ascii row.2.1 := by decide +kernel
    obtain ⟨before, after, hrows, -⟩ := List.lookup_eq_some_iff.mp hlookup
    have hmem : (type, name, description) ∈ fileTypeTable := by
      rw [hrows]
      exact List.mem_append_right _ (List.mem_cons_self ..)
    exact htable _ hmem
  · have hdigits : ∀ n < 256, 0 ∉ format02X n ∧ 47 ∉ format02X n ∧ 58 ∉ format02X n := by
      decide +kernel
    exact hdigits _ type.toNat_lt

theorem length_digits_word_le (h : n < 65536) : (digits 10 n).length ≤ 5 :=
  length_digits_le (by decide) (by decide) (lt_trans h (by decide))

theorem length_digits_byte_le (b : UInt8) : (digits 10 b.toNat).length ≤ 3 :=
  length_digits_le (by decide) (by decide) (lt_trans b.toNat_lt (by decide))

/-- Flags that are joined. The induction is on the flags, for any text before them. -/
theorem length_foldl_join_le {flags : List Str} :
    ∀ str : Str, (∀ flag ∈ flags, flag.length ≤ 7) →
      (flags.foldl (fun str flag => (if str = [] then [] else str ++ ascii " | ") ++ flag)
        str).length ≤ str.length + 10 * flags.length := by
  induction flags with
  | nil =>
    intro str _
    simp
  | cons flag flags ih =>
    intro str hflags
    have hflag := hflags flag (List.mem_cons_self ..)
    have hbar : (ascii " | ").length = 3 := rfl
    refine (ih _ fun f hf => hflags f (List.mem_cons_of_mem _ hf)).trans ?_
    rw [List.length_append, List.length_cons]
    split
    · rw [List.length_nil]
      omega
    · rw [List.length_append]
      omega

theorem length_accessToString_le (access : UInt8) : (accessToString access).length ≤ 50 := by
  have hflags : ∀ flag ∈ accessFlags, (ascii flag.2).length ≤ 7 := by decide
  refine (length_foldl_join_le [] ?_).trans ?_
  · intro flag hflag
    obtain ⟨row, hrow, rfl⟩ := List.mem_map.mp hflag
    exact hflags row (List.mem_filter.mp hrow).1
  · have hlen := List.length_filter_le (fun flag => access &&& flag.1 ≠ 0) accessFlags
    have hcount : accessFlags.length = 5 := rfl
    rw [List.length_nil, List.length_map]
    omega

end

end Prodosfs
