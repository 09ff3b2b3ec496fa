import Prodosfs.General.Stores
import Prodosfs.Mount

/-!
# The buffer of `listxattr`

`prodosfs_listxattr` is called twice for one list: with a buffer of no size at all, to find out how
long the list is, and then with one of that size. `Mount` has the loop with the bytes it puts into
the buffer; here it has the buffer itself, with the position and the room that are left.

The result is an `int`, and the names go through `snprintf`, which takes C strings. So the length
of a list from 2 GiB on does not fit the result, and a name with a NUL in it is not written whole.

## Main definitions

* `listxattrStores` — the loop, on a buffer

## Main results

* `listxattrStores_eq` — what it leaves in the buffer is what the loop of `Mount` says
* `listxattr_protocol` — the protocol of the two calls
-/

namespace Prodosfs

/-- `snprintf(position, n, "%s", s)`. -/
def snprintf (buffer : Stores UInt8) (position n : ℕ) (s : Str) : Stores UInt8 :=
  if n = 0 then buffer else buffer.put position ((cStr s).take (n - 1) ++ [0])

/-- The loop of `prodosfs_listxattr`, with `position` as an offset in the buffer. -/
def listxattrStores (size : ℕ) : Attributes → ℕ → ℕ → ℕ → Stores UInt8 → ℤ × Stores UInt8
  | [], length, _, _, buffer => (toInt length, buffer)
  | attr :: attributes, length, remaining, position, buffer =>
    let nameSize := attr.1.length + 1
    if 0 < size then
      if attr.1.length < remaining then
        listxattrStores size attributes (length + nameSize) (remaining - nameSize)
          (position + nameSize) (snprintf buffer position nameSize attr.1)
      else (-erange, buffer)
    else listxattrStores size attributes (length + nameSize) remaining position buffer

/-- The length of all the names, with one NUL each. -/
def namesLength (attributes : Attributes) : ℕ := (attributes.map fun attr => attr.1.length + 1).sum

/-- All the names, in the order of the map, with one NUL each. -/
def nameBytes (attributes : Attributes) : Str := attributes.flatMap fun attr => attr.1 ++ [0]

theorem length_nameBytes (attributes : Attributes) :
    (nameBytes attributes).length = namesLength attributes := by
  induction attributes with
  | nil => rfl
  | cons attr attributes ih =>
    rw [nameBytes] at ih
    rw [nameBytes, List.flatMap_cons, List.length_append, ih, namesLength, namesLength,
      List.map_cons, List.sum_cons, List.length_append]
    rfl

section
variable {size : ℕ} {attr : Str × Str} {attributes : Attributes} {buffer : Stores UInt8}

theorem namesLength_cons : namesLength (attr :: attributes)
    = attr.1.length + 1 + namesLength attributes := by
  rw [namesLength, List.map_cons, List.sum_cons]
  rfl

/-! ### One name -/

/-- A name is written within its length and the NUL. -/
theorem snprintf_inside {position n : ℕ} {s : Str} (h : buffer.Inside n)
    (hroom : position + (s.length + 1) ≤ n) :
    (snprintf buffer position (s.length + 1) s).Inside n := by
  rw [snprintf, if_neg (by omega)]
  refine h.put ?_
  have hlen : ((cStr s).take (s.length + 1 - 1) ++ [0]).length ≤ s.length + 1 := by
    rw [List.length_append, List.length_take]
    exact Nat.succ_le_succ (by omega)
  omega

/-- A name without NUL bytes is written whole. -/
theorem snprintf_of_not_mem {position : ℕ} {s : Str} (hnul : 0 ∉ s) :
    snprintf buffer position (s.length + 1) s = buffer.put position (s ++ [0]) := by
  have hstr : cStr s = s := by
    rw [cStr, List.takeWhile_eq_self_iff]
    intro c hc
    simpa using fun h : c = 0 => hnul (h ▸ hc)
  rw [snprintf, if_neg (by omega), hstr, Nat.add_sub_cancel, List.take_length]

/-! ### The loop -/

/-- Without a buffer the lengths are added up, and nothing is written. -/
theorem listxattrStores_zero : ∀ (attributes : Attributes) (length remaining position : ℕ)
    (buffer : Stores UInt8), listxattrStores 0 attributes length remaining position buffer
      = (toInt (length + namesLength attributes), buffer)
  | [], _, _, _, _ => rfl
  | attr :: attributes, length, remaining, position, buffer => by
    rw [listxattrStores]
    simp only [Nat.lt_irrefl, if_false]
    rw [listxattrStores_zero attributes, namesLength_cons, Nat.add_assoc]

/-- What is written stays in front of the end. The position and the room that is left add up to
the size of the buffer. -/
theorem listxattrStores_inside : ∀ (attributes : Attributes) {length remaining position : ℕ}
    {buffer : Stores UInt8}, buffer.Inside size → position + remaining = size →
      (listxattrStores size attributes length remaining position buffer).2.Inside size
  | [], _, _, _, _, h, _ => h
  | attr :: attributes, length, remaining, position, buffer, h, hsize => by
    rw [listxattrStores]
    split
    · split
      · exact listxattrStores_inside attributes (snprintf_inside h (by omega)) (by omega)
      · exact h
    · exact listxattrStores_inside attributes h hsize

/-- A buffer that is too small is noticed at the first name that does not fit. -/
theorem listxattrStores_of_lt (hsize : 0 < size) : ∀ (attributes : Attributes)
    {length remaining position : ℕ} {buffer : Stores UInt8}, remaining < namesLength attributes →
      (listxattrStores size attributes length remaining position buffer).1 = -erange
  | [], _, _, _, _, hlt => absurd hlt (Nat.not_lt_zero _)
  | attr :: attributes, length, remaining, position, buffer, hlt => by
    rw [namesLength_cons] at hlt
    rw [listxattrStores]
    simp only [if_pos hsize]
    split
    · exact listxattrStores_of_lt hsize attributes (by omega)
    · rfl

/-- The result of a call with a buffer that is large enough. -/
theorem listxattrStores_of_le (hsize : 0 < size) : ∀ (attributes : Attributes)
    {length remaining position : ℕ} {buffer : Stores UInt8}, namesLength attributes ≤ remaining →
      (listxattrStores size attributes length remaining position buffer).1
        = toInt (length + namesLength attributes)
  | [], _, _, _, _, _ => rfl
  | attr :: attributes, length, remaining, position, buffer, hle => by
    rw [namesLength_cons] at hle
    rw [listxattrStores]
    simp only [if_pos hsize]
    rw [if_pos (by omega), listxattrStores_of_le hsize attributes (by omega), namesLength_cons,
      Nat.add_assoc]

/-- **The two loops agree.** Names without NUL bytes are put one behind the other, as far as they
fit; the induction is on the names, with what has been put so far in front of them. -/
theorem listxattrStores_eq : ∀ (attributes : Attributes), (∀ attr ∈ attributes, 0 ∉ attr.1) →
    ∀ (length remaining : ℕ) (bytes : Str),
      listxattrStores size attributes length remaining bytes.length (Stores.empty.put 0 bytes)
        = ((listxattrLoop size attributes length remaining bytes).1,
            Stores.empty.put 0 (listxattrLoop size attributes length remaining bytes).2)
  | [], _, _, _, _ => rfl
  | attr :: attributes, hnul, length, remaining, bytes => by
    have hrest : ∀ attr ∈ attributes, 0 ∉ attr.1 := fun a ha => hnul a (List.mem_cons_of_mem _ ha)
    have hput : snprintf (Stores.empty.put 0 bytes) bytes.length (attr.1.length + 1) attr.1
        = Stores.empty.put 0 (bytes ++ attr.1 ++ [0]) := by
      have hnext := Stores.put_put Stores.empty 0 bytes (attr.1 ++ [0])
      rw [Nat.zero_add] at hnext
      rw [snprintf_of_not_mem (hnul attr (List.mem_cons_self ..)), hnext, List.append_assoc]
    rw [listxattrStores, listxattrLoop]
    split
    · split
      · have hih := listxattrStores_eq attributes hrest (length + (attr.1.length + 1))
          (remaining - (attr.1.length + 1)) (bytes ++ attr.1 ++ [0])
        rw [hput, ← hih]
        congr 1
        simp only [List.length_append, List.length_singleton, Nat.add_assoc]
      · rfl
    · exact listxattrStores_eq attributes hrest _ _ bytes

/-- All of the names are put, where there is room for them. -/
theorem listxattrLoop_of_le (hsize : 0 < size) : ∀ (attributes : Attributes) {length remaining : ℕ}
    {bytes : Str}, namesLength attributes ≤ remaining →
      (listxattrLoop size attributes length remaining bytes).2 = bytes ++ nameBytes attributes
  | [], _, _, _, _ => (List.append_nil _).symm
  | attr :: attributes, length, remaining, bytes, hle => by
    rw [namesLength_cons] at hle
    rw [listxattrLoop]
    simp only [if_pos hsize]
    rw [if_pos (by omega), listxattrLoop_of_le hsize attributes (by omega), nameBytes, nameBytes,
      List.flatMap_cons]
    simp only [List.append_assoc]

end

/-! ### The protocol -/

/-- The loop as it is started. -/
def listxattr (size : ℕ) (attributes : Attributes) : ℤ × Stores UInt8 :=
  listxattrStores size attributes 0 size 0 .empty

/-- **The protocol of the two calls.** Nothing is ever written at the end of the buffer or behind
it, and a buffer that is too small is refused. When the length of the list fits an `int`, that is
what a call without a buffer returns, which writes nothing, and what one with a buffer returns that
is large enough; that call puts all the names, in their order, when none of them has a NUL in it. -/
theorem listxattr_protocol (size : ℕ) (attributes : Attributes) :
    (listxattr size attributes).2.Inside size ∧
      (0 < size → size < namesLength attributes → (listxattr size attributes).1 = -erange) ∧
      (size = 0 → (listxattr size attributes).2 = .empty) ∧
      (size = 0 ∨ namesLength attributes ≤ size → namesLength attributes < 2 ^ 31 →
        (listxattr size attributes).1 = namesLength attributes) ∧
      (0 < size → namesLength attributes ≤ size → (∀ attr ∈ attributes, 0 ∉ attr.1) →
        (listxattr size attributes).2 = Stores.empty.put 0 (nameBytes attributes) ∧
          (nameBytes attributes).length = namesLength attributes) := by
  refine ⟨listxattrStores_inside attributes (Stores.inside_empty size) (Nat.zero_add size),
    fun hsize hlt => listxattrStores_of_lt hsize attributes hlt, ?_, ?_, ?_⟩
  · rintro rfl
    rw [listxattr, listxattrStores_zero]
  · intro hroom hint
    rw [← toInt_of_lt hint]
    rcases Nat.eq_zero_or_pos size with rfl | hsize
    · rw [listxattr, listxattrStores_zero, Nat.zero_add]
    · have hle : namesLength attributes ≤ size := hroom.resolve_left (by omega)
      rw [listxattr, listxattrStores_of_le hsize attributes hle, Nat.zero_add]
  · intro hsize hle hnul
    have hstart : Stores.empty.put 0 ([] : Str) = Stores.empty := Stores.put_nil _ _
    have hloops := @listxattrStores_eq size attributes hnul 0 size []
    rw [List.length_nil, hstart] at hloops
    rw [listxattr, hloops, listxattrLoop_of_le hsize attributes hle, List.nil_append]
    exact ⟨rfl, length_nameBytes attributes⟩

/-- Two names, in a buffer that they fit exactly, and in one that is one byte short. -/
theorem listxattr_protocol_two :
    listxattr 5 [(ascii "a", []), (ascii "bc", [])]
        = (5, Stores.empty.put 0 [97, 0, 98, 99, 0]) ∧
      (listxattr 4 [(ascii "a", []), (ascii "bc", [])]).1 = -erange ∧
      (listxattr 4 [(ascii "a", []), (ascii "bc", [])]).2.Inside 4 := by
  obtain ⟨-, -, -, hresult, hbytes⟩ := listxattr_protocol 5 [(ascii "a", []), (ascii "bc", [])]
  obtain ⟨hinside, hshort, -⟩ := listxattr_protocol 4 [(ascii "a", []), (ascii "bc", [])]
  exact ⟨Prod.ext (hresult (Or.inr (by decide)) (by decide))
    (hbytes (by decide) (by decide) (by decide)).1, hshort (by decide) (by decide), hinside⟩

/-- A name with a NUL in it leaves a byte of the buffer unwritten, and a list of 2 GiB has a
negative length. -/
theorem not_listxattr_protocol :
    (¬ ∀ (size : ℕ) (attributes : Attributes), 0 < size → namesLength attributes ≤ size →
      (listxattr size attributes).2 = Stores.empty.put 0 (nameBytes attributes)) ∧
    ¬ ∀ (size : ℕ) (attributes : Attributes), size = 0 ∨ namesLength attributes ≤ size →
      (listxattr size attributes).1 = namesLength attributes := by
  constructor
  · intro hclaim
    have hbuffer := hclaim 4 [([97, 0, 98], [])] (by decide) (by decide)
    exact absurd (congrFun hbuffer 2) (by decide)
  · intro hclaim
    have hone : ∀ name : Str, namesLength [(name, [])] = name.length + 1 := fun _ => rfl
    have hlength : namesLength [(List.replicate (2 ^ 31 - 1) (97 : UInt8), [])] = 2 ^ 31 := by
      rw [hone, List.length_replicate]
      rfl
    have hresult := hclaim 0 [(List.replicate (2 ^ 31 - 1) 97, [])] (Or.inl rfl)
    rw [listxattr, listxattrStores_zero, Nat.zero_add, hlength] at hresult
    exact absurd hresult (by decide)

/-! ### The callback -/

/-- The names that every entry has an attribute for. -/
def commonNames : List String := ["creation_timestamp", "access", "version", "min_version"]

/-- The names that files and directories have on top of them. -/
def fileNames : List String := ["file_type", "file_type_name", "file_type_description", "aux_type"]

/-- The names of the root directory. -/
def volumeNames : List String :=
  ["volume_name", "file_count", "total_blocks", "used_blocks", "image_file"]

/-- The names of the attributes are C strings, and their list is short. -/
theorem names_of_getAttributes {σ : Type} {m : Mount} {e : EntryPtr} {s t : σ}
    {attributes : Attributes} (h : getAttributes m e s = (.ret attributes, t)) :
    (∀ attr ∈ attributes, 0 ∉ attr.1) ∧ namesLength attributes < 2 ^ 31 ∧
      ∀ name ∈ commonNames, xattr name ∈ attributes.map Prod.fst := by
  have hnames : ∀ names : List String,
      attributes.map Prod.fst = (commonNames ++ names).map xattr →
      (∀ name ∈ (commonNames ++ names).map xattr, 0 ∉ name) →
      (((commonNames ++ names).map xattr).map fun name => name.length + 1).sum < 2 ^ 31 →
      (∀ attr ∈ attributes, 0 ∉ attr.1) ∧ namesLength attributes < 2 ^ 31 ∧
        ∀ name ∈ commonNames, xattr name ∈ attributes.map Prod.fst := by
    intro names heq hnul hlength
    refine ⟨fun attr ha => hnul _ (heq ▸ List.mem_map_of_mem ha), ?_, fun name hname => ?_⟩
    · rwa [← heq, List.map_map] at hlength
    · rw [heq]
      exact List.mem_map_of_mem (List.mem_append_left _ hname)
  rw [getAttributes] at h
  split at h
  · split at h
    · rw [Call.bind_eq_ret_iff] at h
      obtain ⟨name, _, -, h⟩ := h
      cases h
      exact hnames (fileNames ++ ["appleworks_filename"]) rfl (by decide) (by decide)
    · cases h
      exact hnames fileNames rfl (by decide) (by decide)
  · split at h
    · simp only [Call.bind_eq_ret_iff] at h
      obtain ⟨name, _, -, count, _, -, total, _, -, used, _, -, h⟩ := h
      cases h
      exact hnames volumeNames rfl (by decide) (by decide)
    · cases h

/-- **The callback follows the protocol.** What it answers for an entry is what the loop answers
for a list of names that fits an `int` and has no NULs in it, in the order of the map. -/
theorem prodosfsListxattr_eq {m : Mount} {fuel size : ℕ} {path : Str} {err err₁ err₂ : Err}
    {e : EntryPtr} {attributes : Attributes}
    (hentry : getEntry m.volume fuel (prodosFilename m.extensionMode path) err
      = (.ret (some e), err₁))
    (hattributes : getAttributes m e err₁ = (.ret attributes, err₂)) :
    (∀ attr ∈ m.order attributes, 0 ∉ attr.1) ∧ namesLength (m.order attributes) < 2 ^ 31 ∧
      ∃ bytes, prodosfsListxattr m fuel path size err
          = (.ret ((listxattr size (m.order attributes)).1, bytes), err₂) ∧
        (listxattr size (m.order attributes)).2 = Stores.empty.put 0 bytes := by
  obtain ⟨hnul, hlength, -⟩ := names_of_getAttributes hattributes
  have hperm := m.order_perm attributes
  have hnul' : ∀ attr ∈ m.order attributes, 0 ∉ attr.1 := fun attr ha =>
    hnul attr (hperm.mem_iff.mp ha)
  have hlength' : namesLength (m.order attributes) = namesLength attributes :=
    (hperm.map _).sum_nat
  have hstart : Stores.empty.put 0 ([] : Str) = Stores.empty := Stores.put_nil _ _
  have hloops := @listxattrStores_eq size (m.order attributes) hnul' 0 size []
  rw [List.length_nil, hstart] at hloops
  refine ⟨hnul', hlength' ▸ hlength, _, ?_, congrArg Prod.snd hloops⟩
  rw [prodosfsListxattr, Call.bind_of_ret hentry, listxattr, hloops]
  exact Call.bind_of_ret hattributes

end Prodosfs
