import Prodosfs.General.Legible
import Prodosfs.Serving

/-!
# What a catalogue says

The catalogue of a directory is a text with columns, which are wide enough for most of what there is
to say but not for all of it: a year has three digits in the end, and a file of ten million bytes or
more has eight. Such lines are longer, and the columns behind are not where they are in the others.

Nevertheless a catalogue can be read back. Every field has a width of its own or ends in a blank,
and no name of a file, of a file type, or of a month is taken for another one. What cannot be told
from a catalogue is a date in a month that there is not, which is printed as `<NO DATE>`, and the
auxiliary type of a file that is not binary.

## Main definitions

* `Row`, `Ledger` — what is said about an entry, and about a directory
* `Volume.ledger` — the ledger of a directory

## Main results

* `catalog_eq_iff` — catalogues are the same text when they say the same
-/

namespace Prodosfs

/-! ### Numbers -/

/-- The character of a digit. -/
def digitChar (d : ℕ) : UInt8 := toupper (UInt8.ofNat d.digitChar.toNat)

/-- The digit of a character. -/
def digitValue (c : UInt8) : ℕ := if c ≤ 57 then c.toNat - 48 else c.toNat - 55

/-- Read a number. -/
def readDigits (base : ℕ) (s : Str) : ℕ := s.foldl (fun n c => base * n + digitValue c) 0

theorem digitValue_digitChar : ∀ d < 16, digitValue (digitChar d) = d := by decide

section
variable {b n : ℕ}

theorem digits_of_lt (h : n < b) : digits b n = [digitChar n] := by
  rw [digits, Nat.toDigits_of_lt_base h, List.map_singleton, digitChar]

theorem digits_of_le (hb : 1 < b) (h : b ≤ n) :
    digits b n = digits b (n / b) ++ [digitChar (n % b)] := by
  rw [digits, Nat.toDigits_of_base_le hb h, List.map_append, List.map_singleton]
  rfl

/-- **Numbers can be read.** The induction is on the number, from digit to digit. -/
theorem readDigits_digits (hb : 1 < b) (hbase : b ≤ 16) (n : ℕ) :
    readDigits b (digits b n) = n := by
  induction n using Nat.strongRecOn with
  | ind n ih =>
    rcases Nat.lt_or_ge n b with hlt | hge
    · rw [digits_of_lt hlt, readDigits, List.foldl_cons, List.foldl_nil, Nat.mul_zero, Nat.zero_add,
        digitValue_digitChar n (by omega)]
    · have hless : n / b < n := Nat.div_lt_self (by omega) hb
      have hdigit : n % b < 16 := (Nat.mod_lt n (by omega)).trans_le hbase
      have hprevious := ih (n / b) hless
      rw [readDigits] at hprevious
      rw [digits_of_le hb hge, readDigits, List.foldl_append, hprevious, List.foldl_cons,
        List.foldl_nil, digitValue_digitChar _ hdigit, Nat.div_add_mod]

/-- Zeros in front do not count. -/
theorem readDigits_padLeft (b w : ℕ) (s : Str) :
    readDigits b (padLeft 48 w s) = readDigits b s := by
  have hzeros : ∀ k,
      (List.replicate k (48 : UInt8)).foldl (fun n c => b * n + digitValue c) 0 = 0 := by
    intro k
    induction k with
    | zero => rfl
    | succ k ih => simpa [List.replicate_succ, digitValue] using ih
  rw [padLeft, readDigits, List.foldl_append, hzeros, readDigits]

theorem digits_injective (hb : 1 < b) (hbase : b ≤ 16) : Function.Injective (digits b) :=
  Function.LeftInverse.injective (readDigits_digits hb hbase)

theorem padLeft_digits_injective (hb : 1 < b) (hbase : b ≤ 16) (w : ℕ) :
    Function.Injective fun n => padLeft 48 w (digits b n) :=
  Function.LeftInverse.injective (g := readDigits b) fun n =>
    (readDigits_padLeft b w _).trans (readDigits_digits hb hbase n)

/-- There is nothing but digits in a number. -/
theorem exists_of_mem_digits (hb : 1 < b) (hbase : b ≤ 16) {c : UInt8} :
    c ∈ digits b n → ∃ d < 16, c = digitChar d := by
  induction n using Nat.strongRecOn with
  | ind n ih =>
    intro hc
    rcases Nat.lt_or_ge n b with hlt | hge
    · rw [digits_of_lt hlt, List.mem_singleton] at hc
      exact ⟨n, by omega, hc⟩
    · rw [digits_of_le hb hge, List.mem_append, List.mem_singleton] at hc
      rcases hc with hc | hc
      · exact ih _ (Nat.div_lt_self (by omega) hb) hc
      · exact ⟨n % b, (Nat.mod_lt n (by omega)).trans_le hbase, hc⟩

theorem not_mem_digits (hb : 1 < b) (hbase : b ≤ 16) {c : UInt8} (hc : ∀ d < 16, digitChar d ≠ c) :
    c ∉ digits b n := fun hmem => by
  obtain ⟨d, hd, rfl⟩ := exists_of_mem_digits hb hbase hmem
  exact hc d hd rfl

theorem digits_ne_nil (b n : ℕ) : digits b n ≠ [] := fun h =>
  Nat.toDigits_ne_nil (List.map_eq_nil_iff.mp h)

end

/-! ### Fields -/

/-- A field that is filled up with blanks on the left, up to some character. -/
theorem legible_padLeft {α : Type} {A : Set α} {f : α → Str} {c : UInt8} (hf : Set.InjOn f A)
    (hc : ∀ a ∈ A, c ∉ f a) (hblank : ∀ a ∈ A, 32 ∉ f a) (hne : ∀ a ∈ A, f a ≠ []) (w : ℕ) :
    Legible A fun a => padLeft 32 w (f a) ++ [c] := by
  have hfield := Legible.upTo hc hf
  have hlead := hfield.lead (c := 32) (fun a ha => ?_) fun a => w - (f a).length
  · simpa only [padLeft, List.append_assoc] using hlead
  · obtain ⟨d, x, hx⟩ := List.exists_cons_of_ne_nil (hne a ha)
    refine ⟨d, x ++ [c], by rw [hx, List.cons_append], fun hd => hblank a ha ?_⟩
    rw [hx, hd]
    exact List.mem_cons_self ..

/-- A number, up to some character that is no digit. -/
theorem legible_number {c : UInt8} (hc : ∀ d < 16, digitChar d ≠ c) (w : ℕ) :
    Legible Set.univ fun n => padLeft 32 w (digits 10 n) ++ [c] :=
  legible_padLeft (digits_injective (by decide) (by decide)).injOn
    (fun n _ => not_mem_digits (by decide) (by decide) hc)
    (fun n _ => not_mem_digits (by decide) (by decide) (by decide))
    (fun n _ => digits_ne_nil 10 n) w

/-- A number that may be negative. -/
theorem legible_formatInt (w : ℕ) :
    Legible Set.univ fun i => padLeft 32 w (formatInt i) ++ [32] := by
  have hblank : ∀ n, (32 : UInt8) ∉ digits 10 n := fun n =>
    not_mem_digits (by decide) (by decide) (by decide)
  have hsign : ∀ m n, digits 10 m ≠ 45 :: digits 10 n := fun m n h =>
    not_mem_digits (b := 10) (n := m) (c := 45) (by decide) (by decide) (by decide)
      (h ▸ List.mem_cons_self ..)
  have hinj := digits_injective (b := 10) (by decide) (by decide)
  have hnot : ∀ i : ℤ, (32 : UInt8) ∉ formatInt i := by
    intro i
    cases i with
    | ofNat n => exact hblank n
    | negSucc n => exact List.not_mem_append (by decide) (hblank (n + 1))
  refine legible_padLeft (Function.Injective.injOn fun i j h => ?_) (fun i _ => hnot i)
    (fun i _ => hnot i) (fun i _ => ?_) w
  · cases i with
    | ofNat m =>
      cases j with
      | ofNat n => rw [hinj h]
      | negSucc n => exact absurd h (hsign m (n + 1))
    | negSucc m =>
      cases j with
      | ofNat n => exact absurd h.symm (hsign n (m + 1))
      | negSucc n => rw [Nat.succ_injective (hinj (List.append_cancel_left h))]
  · cases i with
    | ofNat n => exact digits_ne_nil 10 n
    | negSucc n => exact List.cons_ne_nil _ _

/-- A number of two digits. -/
theorem legible_format02d : Legible {n | n < 100} format02d := by
  refine Legible.of_length (n := 2) (fun n hn => ?_)
    (padLeft_digits_injective (by decide) (by decide) 2).injOn
  have hlen := length_digits_le (b := 10) (k := 2) (by decide) (by decide) hn
  rw [format02d, padLeft, List.length_append, List.length_replicate]
  omega

/-- A name, in its column. -/
theorem legible_name : Legible {name | isValidName name} (padRight 15) := by
  have htake : ∀ name, isValidName name → (padRight 15 name).takeWhile (· ≠ 32) = name := by
    intro name hname
    have hblank : (32 : UInt8) ∉ name := not_mem_of_isValidName hname (by decide)
    rw [padRight, List.takeWhile_append_of_pos fun c hc => ?_]
    · cases 15 - name.length <;> simp [List.replicate_succ]
    · simpa using fun h : c = 32 => hblank (h ▸ hc)
  refine Legible.of_length (n := 15) (fun name hname => ?_) fun name hname name' hname' h => ?_
  · obtain ⟨-, hlen, -⟩ := isValidName_iff.mp hname
    rw [padRight, List.length_append, List.length_replicate]
    omega
  · rw [← htake name hname, ← htake name' hname']
    exact congrArg _ h

/-- The name of a file type tells the file type. -/
theorem name_getFileTypeInfo_injective : Function.Injective fun t => (getFileTypeInfo t).name := by
  have htable : ∀ row ∈ fileTypeTable, (ascii row.2.1).length = 3 := by decide +kernel
  have hdistinct : ∀ row ∈ fileTypeTable, ∀ row' ∈ fileTypeTable,
      ascii row.2.1 = ascii row'.2.1 → row.1 = row'.1 := by decide +kernel
  have hrow : ∀ t row, fileTypeTable.lookup t = some row → (t, row) ∈ fileTypeTable := by
    intro t row hlookup
    obtain ⟨before, after, hrows, -⟩ := List.lookup_eq_some_iff.mp hlookup
    rw [hrows]
    exact List.mem_append_right _ (List.mem_cons_self ..)
  have hnumber : ∀ t : UInt8, (format02X t.toNat).length ≠ 3 := fun t h => by
    have hlen := length_format02X_le t.toNat_lt
    omega
  intro t t' h
  simp only [getFileTypeInfo] at h
  split at h
  · rename_i name description hlookup
    have hmem := hrow t _ hlookup
    split at h
    · rename_i name' description' hlookup'
      exact hdistinct _ hmem _ (hrow t' _ hlookup') h
    · exact absurd ((congrArg List.length h).symm.trans (htable _ hmem)) (hnumber t')
  · split at h
    · rename_i name' description' hlookup'
      have hmem' := hrow t' _ hlookup'
      exact absurd ((congrArg List.length h).trans (htable _ hmem')) (hnumber t)
    · exact UInt8.toNat_inj.mp (padLeft_digits_injective (by decide) (by decide) 2 h)

/-- What is filled up with blanks, and has none of its own. -/
theorem padLeft_injOn (w : ℕ) : Set.InjOn (padLeft 32 w) {s | 32 ∉ s} := by
  have hhead : ∀ s : Str, 32 ∉ s → s.head? ≠ some 32 := fun s hs h => hs (List.mem_of_head? h)
  exact fun s hs s' hs' h => Legible.replicate_append_inj (hhead s hs) (hhead s' hs') h

/-- A file type, in its column. -/
theorem legible_fileType : Legible Set.univ fun t => padLeft 32 3 (getFileTypeInfo t).name := by
  have hblank : ∀ t, 32 ∉ (getFileTypeInfo t).name := by
    have htable : ∀ row ∈ fileTypeTable, 32 ∉ ascii row.2.1 := by decide +kernel
    intro t
    rw [getFileTypeInfo]
    split
    · rename_i name description hlookup
      obtain ⟨before, after, hrows, -⟩ := List.lookup_eq_some_iff.mp hlookup
      refine htable (t, name, description) ?_
      rw [hrows]
      exact List.mem_append_right _ (List.mem_cons_self ..)
    · refine List.not_mem_append (fun h => ?_) (not_mem_digits (by decide) (by decide) (by decide))
      exact absurd (List.eq_of_mem_replicate h) (by decide)
  refine Legible.of_length (n := 3) (fun t _ => ?_) (Function.Injective.injOn fun t t' h => ?_)
  · have hlen := (length_getFileTypeInfo_le t).2.1
    rw [padLeft, List.length_append, List.length_replicate]
    omega
  · exact name_getFileTypeInfo_injective (padLeft_injOn 3 (hblank t) (hblank t') h)

/-- Where a binary file is loaded. -/
def addressText (address : Option ℕ) : Str := address.elim [] fun n => ascii "A=$" ++ format04X n

/-- An address, in its column. -/
theorem legible_address :
    Legible {o : Option ℕ | ∀ n ∈ o, n < 65536} fun o => padLeft 32 7 (addressText o) := by
  have hblank : ∀ o, 32 ∉ addressText o := by
    intro o
    cases o with
    | none => exact List.not_mem_nil
    | some n =>
      refine List.not_mem_append (by decide) (List.not_mem_append (fun h => ?_)
        (not_mem_digits (by decide) (by decide) (by decide)))
      exact absurd (List.eq_of_mem_replicate h) (by decide)
  refine Legible.of_length (n := 7) (fun o ho => ?_) fun o ho o' ho' h => ?_
  · have hlen : (addressText o).length ≤ 7 := by
      cases o with
      | none => exact Nat.zero_le 7
      | some n =>
        have hfour := length_format04X_le (ho n rfl)
        have hthree : (ascii "A=$").length = 3 := rfl
        rw [addressText, Option.elim_some, List.length_append]
        omega
    rw [padLeft, List.length_append, List.length_replicate]
    omega
  · have htext := padLeft_injOn 7 (hblank o) (hblank o') h
    cases o with
    | none =>
      cases o' with
      | none => rfl
      | some n => cases htext
    | some m =>
      cases o' with
      | none => cases htext
      | some n =>
        have hnumber := List.append_cancel_left htext
        rw [padLeft_digits_injective (b := 16) (by decide) (by decide) 4 hnumber]

/-! ### Dates -/

/-- A date that can be printed. -/
structure Timestamp.Proper (t : Timestamp) : Prop where
  month_pos : 1 ≤ t.month
  month_le : t.month ≤ 12
  day_lt : t.day < 100
  hour_lt : t.hour < 100
  minute_lt : t.minute < 100

/-- A date with a month. -/
abbrev Date := {t : Timestamp // t.Proper}

/-- A date, in its column. -/
def dateText (date : Option Date) : Str :=
  padRight 15 (date.elim (ascii "<NO DATE>") fun t => t.1.asString)

/-- The name of a month, in its column. -/
def monthText (month : ℕ) : Str := padLeft 32 3 (ascii (months.getD (month - 1) ""))

theorem legible_month : Legible {m | 1 ≤ m ∧ m ≤ 12} monthText := by
  have hlength : ∀ m < 12, (monthText (m + 1)).length = 3 := by decide
  have hdistinct : ∀ m < 12, ∀ n < 12, monthText (m + 1) = monthText (n + 1) → m = n := by decide
  refine Legible.of_length (n := 3) (fun m hm => ?_) fun m hm n hn h => ?_
  · obtain ⟨m, rfl⟩ := Nat.exists_eq_add_of_le' hm.1
    exact hlength m (by have := hm.2; omega)
  · obtain ⟨m, rfl⟩ := Nat.exists_eq_add_of_le' hm.1
    obtain ⟨n, rfl⟩ := Nat.exists_eq_add_of_le' hn.1
    rw [hdistinct m (by have := hm.2; omega) n (by have := hn.2; omega) h]

/-- A year, with the blank behind it. -/
def yearText (year : ℕ) : Str := format02d year ++ [32]

theorem legible_year : Legible Set.univ yearText := by
  refine Legible.upTo (fun y _ => List.not_mem_append (fun h => ?_) ?_)
    (padLeft_digits_injective (by decide) (by decide) 2).injOn
  · exact absurd (List.eq_of_mem_replicate h) (by decide)
  · exact not_mem_digits (by decide) (by decide) (by decide)

theorem asString_of_proper {t : Timestamp} (h : t.Proper) : t.asString
    = format02d t.day ++ ([45] ++ (monthText t.month ++ ([45] ++ (yearText t.year ++
        (format02d t.hour ++ ([58] ++ format02d t.minute)))))) := by
  have hmonth : ¬ (t.month < 1 ∨ 12 < t.month) := by
    have hpos := h.month_pos
    have hle := h.month_le
    omega
  rw [Timestamp.asString, if_neg hmonth, yearText]
  simp only [List.append_assoc]
  rfl

/-- **A date,** from the day to the minute. -/
theorem legible_asString : Legible Set.univ fun t : Date => t.1.asString := by
  rintro ⟨t, ht⟩ - ⟨t', ht'⟩ - r s h
  simp only [asString_of_proper ht, asString_of_proper ht', List.append_assoc] at h
  obtain ⟨hday, h⟩ := legible_format02d ht.day_lt ht'.day_lt h
  obtain ⟨hmonth, h⟩ := legible_month ⟨ht.month_pos, ht.month_le⟩ ⟨ht'.month_pos, ht'.month_le⟩
    (List.append_cancel_left h)
  obtain ⟨hyear, h⟩ := legible_year (Set.mem_univ _) (Set.mem_univ _) (List.append_cancel_left h)
  obtain ⟨hhour, h⟩ := legible_format02d ht.hour_lt ht'.hour_lt h
  obtain ⟨hminute, hrest⟩ :=
    legible_format02d ht.minute_lt ht'.minute_lt (List.append_cancel_left h)
  obtain ⟨year, month, day, hour, minute⟩ := t
  obtain ⟨year', month', day', hour', minute'⟩ := t'
  cases hday
  cases hmonth
  cases hyear
  cases hhour
  cases hminute
  exact ⟨rfl, hrest⟩

/-- No date begins like the text for none. -/
theorem legible_date : Legible Set.univ dateText := by
  have hnone : ∀ t : Date, ∀ r s, ascii "<NO DATE>" ++ r ≠ t.1.asString ++ s := by
    rintro ⟨t, ht⟩ r s h
    have hnot : 60 ∉ format02d t.day := List.not_mem_append
      (fun hmem => absurd (List.eq_of_mem_replicate hmem) (by decide))
      (not_mem_digits (by decide) (by decide) (by decide))
    have hne : format02d t.day ≠ [] := fun hnil =>
      digits_ne_nil 10 t.day (List.append_eq_nil_iff.mp hnil).2
    obtain ⟨d, x, hday⟩ := List.exists_cons_of_ne_nil hne
    rw [asString_of_proper ht, List.append_assoc, hday] at h
    rw [hday, ← (List.cons.inj h).1] at hnot
    exact hnot (List.mem_cons_self ..)
  have hdate := (legible_asString.option fun t _ => hnone t).fill fun o =>
    List.replicate (15 - (o.elim (ascii "<NO DATE>") fun t : Date => t.1.asString).length) 32
  exact fun o _ o' _ r s h => hdate (fun _ _ => Set.mem_univ _) (fun _ _ => Set.mem_univ _) h

/-- The date that there is in an entry. -/
def dateAt (p : Block) : Option Date :=
  if h : 1 ≤ (decodeTimestamp p).month ∧ (decodeTimestamp p).month ≤ 12 then
    some ⟨decodeTimestamp p, by
      obtain ⟨hday, -, hhour, hminute⟩ := decodeTimestamp_lt p
      exact ⟨h.1, h.2, by omega, by omega, by omega⟩⟩
  else none

theorem dateText_dateAt (p : Block) :
    dateText (dateAt p) = padRight 15 (decodeTimestamp p).asString := by
  rw [dateText, dateAt]
  split
  · rfl
  · rename_i hmonth
    rw [Timestamp.asString, if_pos (by omega)]
    rfl

/-! ### Lines -/

/-- What the line of an entry says. -/
structure Row where
  name : Str
  fileType : UInt8
  blocksUsed : ℕ
  modified : Option Date
  created : Option Date
  eof : ℕ
  /-- Where it is loaded, if it is binary and the address is not zero. -/
  address : Option ℕ
  deriving DecidableEq

/-- The row of an entry. -/
def Row.ofEntry (entry : Block) : Row where
  name := cStr (Entry.fileName entry)
  fileType := Entry.fileType entry
  blocksUsed := Entry.blocksUsed entry
  modified := dateAt fun k => entry (33 + k)
  created := dateAt fun k => entry (24 + k)
  eof := Entry.eof entry
  address :=
    if Entry.fileType entry = fileTypeBinary ∧ Entry.auxType entry ≠ 0 then
      some (Entry.auxType entry)
    else none

/-- A number, in its column, with the blanks behind it. -/
def numberText (width n : ℕ) : Str := padLeft 32 width (digits 10 n) ++ [32] ++ [32]

/-- The line of a row. -/
def Row.text (r : Row) : Str :=
  [32] ++ (padRight 15 r.name ++ ([32, 32] ++ (padLeft 32 3 (getFileTypeInfo r.fileType).name ++
    ([32, 32] ++ (numberText 6 r.blocksUsed ++ (dateText r.modified ++ ([32, 32] ++
      (dateText r.created ++ ([32, 32] ++ (numberText 7 r.eof ++
        (padLeft 32 7 (addressText r.address) ++ [10])))))))))))

/-- The fields of a row can be told. -/
structure Row.Proper (r : Row) : Prop where
  name : isValidName r.name
  address : ∀ n ∈ r.address, n < 65536

theorem legible_numberText (w : ℕ) : Legible Set.univ (numberText w) :=
  (legible_number (by decide) w).fill fun _ => [32]

theorem entryLine_eq (entry : Block) : entryLine entry = (Row.ofEntry entry).text := by
  have hsubtype : subtype entry = addressText (Row.ofEntry entry).address := by
    rw [subtype, Row.ofEntry]
    split <;> rfl
  rw [entryLine, hsubtype, Row.text]
  simp only [Row.ofEntry, dateText_dateAt, numberText, Entry.lastModTimestamp,
    Entry.creationTimestamp, List.append_assoc]
  rfl

/-- **A line,** from the name to the address. -/
theorem Row.legible_text : Legible {r : Row | r.Proper} Row.text := by
  rintro ⟨name, fileType, blocksUsed, modified, created, eof, address⟩ hr
    ⟨name', fileType', blocksUsed', modified', created', eof', address'⟩ hr' r s h
  simp only [Row.text, List.append_assoc] at h
  obtain ⟨hname, h⟩ := legible_name hr.name hr'.name (List.append_cancel_left h)
  obtain ⟨htype, h⟩ :=
    legible_fileType (Set.mem_univ _) (Set.mem_univ _) (List.append_cancel_left h)
  obtain ⟨hblocks, h⟩ :=
    legible_numberText 6 (Set.mem_univ _) (Set.mem_univ _) (List.append_cancel_left h)
  obtain ⟨hmodified, h⟩ := legible_date (Set.mem_univ _) (Set.mem_univ _) h
  obtain ⟨hcreated, h⟩ :=
    legible_date (Set.mem_univ _) (Set.mem_univ _) (List.append_cancel_left h)
  obtain ⟨heof, h⟩ :=
    legible_numberText 7 (Set.mem_univ _) (Set.mem_univ _) (List.append_cancel_left h)
  obtain ⟨haddress, h⟩ := legible_address hr.address hr'.address h
  refine ⟨?_, List.append_cancel_left h⟩
  rw [Row.mk.injEq]
  exact ⟨hname, htype, hblocks, hmodified, hcreated, heof, haddress⟩

/-! ### Paths in titles -/

/-- Behind the first slash, every character of a path is in one of its components. The induction is
on the bound of the loop. -/
theorem mem_splitLoop {c : UInt8} (hc : c ≠ 47) : ∀ {fuel : ℕ} {front rest : Str}, front ≠ [] →
    rest.length + 1 ≤ fuel → c ∈ rest →
    ∃ name ∈ splitLoop (front ++ rest) fuel front.length, c ∈ name := by
  intro fuel
  induction fuel with
  | zero =>
    intro front rest _ hfuel
    omega
  | succ fuel ih =>
    intro front rest hfront hfuel hmem
    by_cases hslash : 47 ∈ rest
    · obtain ⟨name, after, rfl, hname⟩ := List.eq_append_cons_of_mem hslash
      rw [splitLoop_of_append hname]
      rcases List.mem_append.mp hmem with hmem | hmem
      · refine ⟨_, List.mem_cons_self .., ?_⟩
        have hpos := List.length_pos_iff.mpr hfront
        rw [Nat.add_sub_assoc hpos, List.take_length_add_append]
        exact List.mem_append_left _ hmem
      · have hrest : c ∈ after := (List.mem_cons.mp hmem).resolve_left hc
        rw [List.length_append, List.length_cons] at hfuel
        obtain ⟨name', hname', hmem'⟩ := @ih (front ++ (name ++ [47])) after
          (List.append_ne_nil_of_left_ne_nil hfront _) (by omega) hrest
        have hlength : (front ++ (name ++ [47])).length = name.length + front.length + 1 := by
          rw [List.length_append, List.length_append, List.length_singleton]
          omega
        rw [hlength] at hname'
        simp only [List.append_assoc, List.singleton_append] at hname'
        exact ⟨name', List.mem_cons_of_mem _ hname', hmem'⟩
    · rw [splitLoop_of_not_mem hslash]
      exact ⟨rest, List.mem_singleton.mpr rfl, hmem⟩

section
variable {v : Volume} {path : Str} {key : BlockPtr}

/-- An absolute path that is found has no line break in it. -/
theorem not_mem_of_lookup (hwf : v.WellFormed) (hslash : path.head? = some 47) {e : EntryPtr}
    (h : v.lookup (splitPath path) = .ok e) : 10 ∉ path := by
  have hlower : ∀ d : UInt8, tolower d = tolower 10 → d = 10 := forall_byte (by decide +kernel)
  obtain ⟨rest, rfl⟩ : ∃ rest, path = [47] ++ rest := by
    cases path with
    | nil => cases hslash
    | cons c rest => exact ⟨rest, by rw [Option.some.inj hslash]; rfl⟩
  intro hmem
  have hrest : 10 ∈ rest := (List.mem_cons.mp hmem).resolve_left (by decide)
  have hfuel : rest.length + 1 ≤ ([47] ++ rest).length + 1 := by
    rw [List.length_append]
    omega
  obtain ⟨name, hname, hnewline⟩ :=
    mem_splitLoop (by decide) (List.cons_ne_nil 47 []) hfuel hrest
  obtain ⟨ms, d, e', hwalk, hfind⟩ := NameTree.exists_find_of_lookup h name hname
  have hreach := reachable_of_walk hwf hwalk .root
  obtain ⟨es, hkey⟩ := hwf.directory hreach
  have hvalid := hwf.validName hreach hkey e' (hkey.mem_of_find hfind)
  have hnamed : v.tree.named e' name := List.find?_some (p := fun e => v.tree.named e name) hfind
  have hsame : sameName name (Entry.fileName (v.entry e')) := hnamed
  have hlowered : tolower 10 ∈ (Entry.fileName (v.entry e')).map tolower := by
    rw [← beq_iff_eq.mp hsame]
    exact List.mem_map_of_mem hnewline
  obtain ⟨d, hd, heq⟩ := List.mem_map.mp hlowered
  exact not_mem_of_isValidName hvalid (by decide) (hlower d heq ▸ hd)

theorem not_mem_of_directoryAt (hwf : v.WellFormed) (hslash : path.head? = some 47)
    (h : v.directoryAt path = .ok key) : 10 ∉ path := by
  rw [Volume.directoryAt] at h
  split at h
  · rename_i hroot
    rw [hroot]
    decide
  · cases hlookup : v.lookup (splitPath path) with
    | error missing =>
      rw [hlookup] at h
      cases h
    | ok e => exact not_mem_of_lookup hwf hslash hlookup

theorem head_parentPath (hslash : path.head? = some 47) : (parentPath path).head? = some 47 := by
  have hfirst : path.getD 0 0 = 47 := by
    rw [List.getD_eq_getElem?_getD, ← List.head?_eq_getElem?, hslash]
    rfl
  rw [parentPath]
  split
  · exact hslash
  · dsimp only
    split
    · rfl
    · rename_i hparent
      rw [not_and] at hparent
      have hne := fun hnil => hparent hnil hfirst
      have hsuffix := (List.dropWhile_suffix (l := path.reverse.dropWhile (· ≠ 47)) (· == 47)).trans
        (List.dropWhile_suffix (l := path.reverse) (· ≠ 47))
      obtain ⟨rest, hpath⟩ := List.reverse_prefix.mpr hsuffix
      rw [List.reverse_reverse] at hpath
      obtain ⟨c, front, hfront⟩ := List.exists_cons_of_ne_nil hne
      rw [← hpath, hfront] at hslash
      rw [hfront]
      exact hslash

end

/-! ### Catalogues -/

/-- What a catalogue says. -/
structure Ledger where
  volumeName : Str
  /-- The path of the directory, which is empty for the root directory. -/
  path : Str
  rows : List Row
  totalBlocks : ℕ
  blocksUsed : ℤ
  deriving DecidableEq

/-- The text of a catalogue. -/
def Ledger.text (l : Ledger) : Str :=
  [10, 47] ++ ((l.volumeName ++ l.path) ++ 10 :: ([10] ++ (columnsLine ++
    (l.rows.flatMap Row.text ++ totalsLine l.totalBlocks l.blocksUsed))))

/-- A ledger whose parts can be told. -/
structure Ledger.Proper (l : Ledger) : Prop where
  volumeName : isValidName l.volumeName
  path : l.path = [] ∨ l.path.head? = some 47
  newline : 10 ∉ l.path
  rows : ∀ r ∈ l.rows, r.Proper

/-- What the catalogue of a directory says, from its path and its entries. -/
def Volume.ledger (v : Volume) (pathdir : Str) (es : List EntryPtr) : Ledger where
  volumeName := cStr (Entry.fileName v.header)
  path := if isRootPath pathdir then [] else cStr pathdir
  rows := es.map fun e => Row.ofEntry (v.entry e)
  totalBlocks := v.totalBlocks
  blocksUsed := Volume.balance v.bitmap v.disk.numBlocks

theorem catalogText_eq (v : Volume) (pathdir : Str) (es : List EntryPtr) :
    catalogText v pathdir es = (v.ledger pathdir es).text := by
  rw [catalogText, titleLine, Ledger.text]
  simp only [Volume.ledger, List.flatMap_map, entryLine_eq, List.append_assoc]
  rfl

theorem totalsLine_inj {total total' : ℕ} {used used' : ℤ}
    (h : totalsLine total used = totalsLine total' used') : total = total' ∧ used = used' := by
  have hline : ∀ (total : ℕ) (used : ℤ), totalsLine total used = ascii "\nBLOCKS FREE: " ++
      ((padLeft 32 4 (formatInt (total - used)) ++ [32]) ++ (ascii "         BLOCKS USED: " ++
        ((padLeft 32 4 (formatInt used) ++ [32]) ++ (ascii "         TOTAL BLOCKS: " ++
          (padLeft 32 4 (digits 10 total) ++ ascii "\n\n"))))) := by
    intro total used
    simp only [totalsLine, List.append_assoc]
    rfl
  rw [hline, hline] at h
  obtain ⟨hfree, h⟩ :=
    legible_formatInt 4 (Set.mem_univ _) (Set.mem_univ _) (List.append_cancel_left h)
  obtain ⟨hused, -⟩ :=
    legible_formatInt 4 (Set.mem_univ _) (Set.mem_univ _) (List.append_cancel_left h)
  omega

/-- A name without a slash, and a path that begins with one. -/
theorem append_path_inj {name name' path path' : Str} (hname : 47 ∉ name) (hname' : 47 ∉ name')
    (hpath : path = [] ∨ path.head? = some 47) (hpath' : path' = [] ∨ path'.head? = some 47)
    (h : name ++ path = name' ++ path') : name = name' ∧ path = path' := by
  rw [List.head?_eq_some_iff] at hpath hpath'
  rcases hpath with rfl | ⟨rest, rfl⟩
  · rcases hpath' with rfl | ⟨rest', rfl⟩
    · exact ⟨List.append_cancel_right h, rfl⟩
    · rw [List.append_nil] at h
      exact absurd (h ▸ List.mem_append_right _ (List.mem_cons_self ..)) hname
  · rcases hpath' with rfl | ⟨rest', rfl⟩
    · rw [List.append_nil] at h
      exact absurd (h ▸ List.mem_append_right _ (List.mem_cons_self ..)) hname'
    · obtain ⟨heq, hrest⟩ := Legible.append_cons_inj hname hname' h
      exact ⟨heq, congrArg _ hrest⟩

/-- **A catalogue can be read back.** -/
theorem Ledger.text_injOn : Set.InjOn Ledger.text {l | l.Proper} := by
  have hslash : ∀ {l : Ledger}, l.Proper → 47 ∉ l.volumeName := fun h =>
    not_mem_of_isValidName h.volumeName (by decide)
  have htitle : ∀ {l : Ledger}, l.Proper → 10 ∉ l.volumeName ++ l.path := fun h =>
    List.not_mem_append (not_mem_of_isValidName h.volumeName (by decide)) h.newline
  have htotals : ∀ total used, (totalsLine total used).head? ≠ some 32 := fun total used => by
    have hhead : (totalsLine total used).head? = some 10 := rfl
    rw [hhead]
    decide
  intro l hl l' hl' h
  obtain ⟨hfirst, h⟩ :=
    Legible.append_cons_inj (htitle hl) (htitle hl') (List.append_cancel_left h)
  obtain ⟨hname, hpath⟩ :=
    append_path_inj (hslash hl) (hslash hl') hl.path hl'.path hfirst
  obtain ⟨hrows, h⟩ := Row.legible_text.flatMap (c := 32) (fun r _ => rfl) hl.rows hl'.rows
    (htotals _ _) (htotals _ _) (List.append_cancel_left (List.append_cancel_left h))
  obtain ⟨htotal, hused⟩ := totalsLine_inj h
  obtain ⟨volumeName, path, rows, totalBlocks, blocksUsed⟩ := l
  rw [Ledger.mk.injEq]
  exact ⟨hname, hpath, hrows, htotal, hused⟩

/-- The directory with the key block `key` has a catalogue with the path `path`, and the volume has
a name. -/
structure Volume.Catalogued (v : Volume) (fuel : ℕ) (path : Str) (key : BlockPtr) : Prop where
  sound : v.Sound
  validName : isValidName (Entry.fileName v.header)
  serviceable : Serviceable fuel path
  absolute : path.head? = some 47
  directory : v.directoryAt (parentPath path) = .ok key

section
variable {v w : Volume} {fuel fuel' : ℕ} {path path' : Str} {key key' : BlockPtr}

theorem Volume.Catalogued.proper (h : v.Catalogued fuel path key) :
    (v.ledger (parentPath path) (v.entries key)).Proper := by
  have hnul : cStr (parentPath path) = parentPath path := cStr_of_not_mem h.serviceable.parentPath.1
  have hhead := head_parentPath h.absolute
  have hname : isValidName (cStr (Entry.fileName v.header)) := by
    rw [cStr_of_not_mem (not_mem_of_isValidName h.validName (by decide))]
    exact h.validName
  have hopen := h.sound.openDirectory h.serviceable.parentPath .none
  rw [h.directory] at hopen
  obtain ⟨es, hkey⟩ := h.sound.wellFormed.directory hopen.2
  refine ⟨hname, ?_, ?_, fun r hr => ?_⟩
  · simp only [Volume.ledger, hnul]
    split
    · exact Or.inl rfl
    · exact Or.inr hhead
  · simp only [Volume.ledger, hnul]
    split
    · exact List.not_mem_nil
    · exact not_mem_of_directoryAt h.sound.wellFormed hhead h.directory
  · obtain ⟨e, he, rfl⟩ := List.mem_map.mp hr
    rw [hkey.entries_eq] at he
    have hvalid := h.sound.wellFormed.validName hopen.2 hkey e he
    have hentry : isValidName (cStr (Entry.fileName (v.entry e))) := by
      rw [cStr_of_not_mem (not_mem_of_isValidName hvalid (by decide))]
      exact hvalid
    refine ⟨hentry, fun n hn => ?_⟩
    simp only [Row.ofEntry] at hn
    split at hn
    · obtain rfl := Option.some.inj hn
      exact leRead16_lt _
    · cases hn

/-- **Catalogues are the same text when they say the same:** the same name of the volume and the
same path, the same rows in the same order, and the same numbers of blocks. -/
theorem catalog_eq_iff (h : v.Catalogued fuel path key) (h' : w.Catalogued fuel' path' key')
    (err err' : Err) :
    ∃ text text', (catalog v fuel path err).1 = .ret (some text) ∧
      (catalog w fuel' path' err').1 = .ret (some text') ∧
      (text = text' ↔ v.ledger (parentPath path) (v.entries key)
        = w.ledger (parentPath path') (w.entries key')) := by
  have hcatalog := h.sound.catalog h.serviceable err
  have hcatalog' := h'.sound.catalog h'.serviceable err'
  rw [h.directory] at hcatalog
  rw [h'.directory] at hcatalog'
  obtain ⟨-, s, hcatalog⟩ := hcatalog
  obtain ⟨-, s', hcatalog'⟩ := hcatalog'
  refine ⟨_, _, congrArg Prod.fst hcatalog, congrArg Prod.fst hcatalog', ?_⟩
  rw [catalogText_eq, catalogText_eq]
  exact Ledger.text_injOn.eq_iff h.proper h'.proper

end

/-- The root directory of the small volume, and its subdirectory. -/
theorem catalog_eq_iff_small : ∃ text text',
    (catalog smallVolume 2000000 (ascii "/.CATALOG") .none).1 = .ret (some text) ∧
      (catalog smallVolume 2000000 (ascii "/D/.CATALOG") .none).1 = .ret (some text') ∧
      text ≠ text' := by
  have hfind : smallVolume.tree.find (.image Volume.root) (ascii "D") = some ⟨.image 1536, 12⟩ := by
    rw [find_eq wellFormed_small .root root_small (by decide)]
    decide
  have hlookup : smallVolume.lookup (splitPath (ascii "/D")) = .ok ⟨.image 1536, 12⟩ := by
    rw [show splitPath (ascii "/D") = [ascii "D"] by decide]
    exact NameTree.lookup_last hfind
  have hparent : parentPath (ascii "/.CATALOG") = ascii "/" := by decide
  have hparent' : parentPath (ascii "/D/.CATALOG") = ascii "/D" := by decide
  have hroot : smallVolume.Catalogued 2000000 (ascii "/.CATALOG") (.image Volume.root) :=
    ⟨sound_small, by decide, ⟨by decide, by decide⟩, rfl, by rw [hparent]; exact if_pos rfl⟩
  have hsub : smallVolume.Catalogued 2000000 (ascii "/D/.CATALOG")
      (smallVolume.keyBlock ⟨.image 1536, 12⟩) := by
    refine ⟨sound_small, by decide, ⟨by decide, by decide⟩, rfl, ?_⟩
    rw [hparent', Volume.directoryAt, if_neg (by decide), hlookup]
    exact if_pos (by decide)
  obtain ⟨text, text', hcatalog, hcatalog', hiff⟩ := catalog_eq_iff hroot hsub .none .none
  refine ⟨text, text', hcatalog, hcatalog', fun heq => ?_⟩
  have hpath := congrArg Ledger.path (hiff.mp heq)
  simp only [hparent, hparent', Volume.ledger] at hpath
  exact absurd hpath (by decide)

end Prodosfs
